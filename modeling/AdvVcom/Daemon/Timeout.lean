/-
# `AdvVcom.Daemon.Timeout` — the protocol timeout

main counts in `lrecv` the time it has spent in `select` without a receive, and gives the
connection up when that exceeds `VC_PULL_TIME`.  `lrecv` is a local variable of main: the
handlers that make and close connections cannot see it.

The environment `clocked` answers anything and keeps the time itself.  It knows a timeout
by what main does: between `select` and the end of the round, the first thing it does on
the socket is to close it.

    `elapsed`   time in `select` since the connection was made or last received on,
                at least a microsecond a call, as main counts it
    `counted`   what main has counted
    `carried`   what it had counted already when `elapsed` was last set to 0

**Proved here**, for every run, in clear or over TLS:

    `counted` is `lrecv`; a timeout comes only when `elapsed + carried` exceeds
    `VC_PULL_TIME`, and so only when `elapsed` does if nothing was carried over
                                                      (`timeout_judges_connection`)
    a connection that is six seconds old times out     (`carried_over`)
-/
import AdvVcom.Daemon.Speech
import AdvVcom.Daemon.Stack

namespace AdvVcom

open Lib

/-! ## The clock -/

/-- A timeout, with the clock at that moment. -/
structure Raise where
  elapsed : Nat
  carried : Nat
  deriving DecidableEq

structure Clock where
  up : Bool
  -- nothing has been done on the socket since `select`
  waited : Bool
  counted : UInt32
  elapsed : Nat
  carried : Nat
  raised : List Raise
  deriving DecidableEq

namespace Clock

def calm (w : Clock) : Clock := { w with waited := false }

/-- A receive after `select`: main sets its counter to 0. -/
def attended (w : Clock) : Clock := { w with waited := false, counted := 0, carried := 0 }

/-- The timeout, after which it does so too. -/
def gaveUp (w : Clock) : Clock :=
  { w.attended with raised := w.raised ++ [⟨w.elapsed, w.carried⟩] }

/-- What a request says about the `select` before it. -/
def heed (w : Clock) (e : Req) : Clock :=
  if w.waited then
    match e with
    | .attrPtr | .sslPending => w
    | .recv _ _ | .sslRecv _ _ | .sslRecvSimple _ _ => w.attended
    | .close | .sslShutdown => w.gaveUp
    | _ => w.calm
  else w

/-- A new connection, or data on it. -/
def restart (w : Clock) : Clock := { w with elapsed := 0, carried := w.counted.toNat }

/-- The time one call of `select` counts for. -/
def tick (used : UInt32) : UInt32 := if used > 0 then used else 1

/-- Main counts if it goes on to look at the socket, and if `select` was allowed to wait. -/
def slept (w : Clock) (r : SelRet) (zero : Bool) : Clock :=
  { w with
    waited := true
    counted := if w.up ∧ r.ret ≠ 0 ∧ zero = false then w.counted + tick r.used else w.counted
    elapsed := if zero then w.elapsed else w.elapsed + (tick r.used).toNat }

def answer (w : Clock) : (e : Req) → e.Rep → Clock
  | .connect, (r : Int) => if 0 ≤ r then { w.restart with up := true } else w
  | .close, _ => { w with up := false }
  | .recv _ _, RecvRet.data _ => w.restart
  | .sslRecv _ _, SslRead.data _ => w.restart
  | .sslRecvSimple _ _, SslRead.data _ => w.restart
  | .select _ zero, (r : SelRet) => w.slept r zero
  | _, _ => w

end Clock

def clockAnswers (w : Clock) : (e : Req) → e.Rep → Clock → Prop
  | .attrPtr, r, w' => w' = w ∧ ∀ v : PortInfo, r = some v → v.isOpen = 0 ∨ v.isOpen = 1
  | e, r, w' => w' = (w.heed e).answer e r

abbrev clocked : Env VcSig VcAttr where
  World := Clock
  answers := clockAnswers
  drift := fun _ _ _ => False

/-- Every timeout so far had `VC_PULL_TIME` behind it, with what was carried over. -/
def Judged (w : Clock) : Prop := ∀ t ∈ w.raised, VC_PULL_TIME.toNat < t.elapsed + t.carried

/-- In a handler of a daemon with or without TLS: main has counted `c`. -/
structure Paced (tls : Bool) (c : UInt32) (s : VcAttr) (w : Clock) : Prop where
  calm : w.waited = false
  counted : w.counted = c
  up : w.up = true ↔ 0 ≤ s.sk
  secure : s.ssl.isSome = tls
  bound : c.toNat ≤ w.elapsed + w.carried
  judged : Judged w

section
variable {tls : Bool} {c : UInt32} {s s' : VcAttr} {w w' w₀ : Clock} {e : Req} {r : e.Rep}

theorem clockAnswers_iff (he : e ≠ .attrPtr) :
    clockAnswers w e r w' ↔ w' = (w.heed e).answer e r := by
  cases e with
  | attrPtr => exact absurd rfl he
  | _ => exact Iff.rfl

theorem Clock.heed_of_calm (h : w.waited = false) (e : Req) : w.heed e = w := by
  simp [Clock.heed, h]

/-! ## Handlers do not touch the counter -/

/-- Requests that neither make nor close the connection nor wait. -/
def Req.Timeless : Req → Prop
  | .connect | .close | .select _ _ => False
  | _ => True

theorem Clock.answer_timeless (w : Clock) (he : e.Timeless) :
    w.answer e r = w ∨ w.answer e r = w.restart := by
  cases e with
  | connect | close | select => exact he.elim
  | recv off len =>
      match r with
      | .data bs => exact Or.inr rfl
      | .eof => exact Or.inl rfl
      | .err => exact Or.inl rfl
  | sslRecv off len | sslRecvSimple off len =>
      match r with
      | .data bs => exact Or.inr rfl
      | .want write => exact Or.inl rfl
      | .fail => exact Or.inl rfl
  | _ => exact Or.inl rfl

theorem Paced.restart (h : Paced tls c s w) : Paced tls c s w.restart := by
  refine ⟨h.calm, h.counted, h.up, h.secure, ?_, h.judged⟩
  show c.toNat ≤ 0 + w.counted.toNat
  rw [h.counted, Nat.zero_add]

theorem Paced.step (h : Paced tls c s w) (he : e.Timeless) (hr : clockAnswers w e r w') :
    Paced tls c s w' := by
  by_cases hattr : e = .attrPtr
  · subst hattr
    rw [show w' = w from hr.1]
    exact h
  · rw [clockAnswers_iff hattr, Clock.heed_of_calm h.calm] at hr
    rcases w.answer_timeless (r := r) he with hsame | hnew
    · rw [hr, hsame]
      exact h
    · rw [hr, hnew]
      exact h.restart

theorem Paced.near (h : Paced tls c s w) (hs : Near s s') : Paced tls c s' w :=
  ⟨h.calm, h.counted, by rw [hs.sk]; exact h.up, hs.tls.trans h.secure, h.bound, h.judged⟩

theorem Req.Mild.timeless (he : e.Mild s) : e.Timeless := by
  cases e with
  | connect | close | select => exact he.elim
  | _ => trivial

theorem Paced.sends {ps : List Pkt} {ok : Bool} (h : Paced tls c s w)
    (hs : Sends clocked w ps ok w') : Paced tls c s w' := by
  rcases hs with hs | ⟨r, hs, -⟩
  · exact h.step (e := .send ps) trivial hs
  · exact h.step (e := .sslSend ps) trivial hs

end

theorem paced_deaf (tls : Bool) (c : UInt32) : Deaf clocked (Paced tls c) where
  still := id
  proc := by
    intro s w w' e r h he hr
    cases e with
    | ioctl | copyTx | readRx =>
        rw [show w' = (w.heed _).answer _ r from hr, Clock.heed_of_calm h.calm]
        rfl
    | _ => exact he.elim
  view := fun _ hr => hr

theorem paced_lasts (tls : Bool) (c : UInt32) : Lasts clocked (Paced tls c) :=
  Lasts.of_kin id (fun h hs => h.near hs.toNear) (fun he h hr => h.step he.timeless hr)
    fun h hr => h.step (e := .fdcheck) trivial hr

theorem paced_judged (tls : Bool) (c : UInt32) (s : VcAttr) (w : Clock) (h : Paced tls c s w) : Judged w := h.judged

theorem paced_hangs {tls : Bool} {c : UInt32} {s : VcAttr} {w : Clock} (hs : Raised s) (h : Paced tls c s w) :
    hangUp.wp clocked (fun _ => Judged)
      (fun _ s' w' => s' = { s with sk := -1 } ∧ Paced tls c s.hung w') s w := by
  refine wp_hangUp (paced_lasts tls c) (paced_lasts tls c).toHolds (paced_judged tls c) (paced_judged tls c) ?_
    (fun _ => h) ?_ hs h
  · intro w w' _ h hr
    exact h.step (e := .sslFree) trivial hr
  · intro w w' h hr
    rw [show w' = (w.heed .close).answer .close () from hr, Clock.heed_of_calm h.calm]
    exact ⟨h.calm, h.counted, by simp [Clock.answer, VcAttr.hung], h.secure, h.bound, h.judged⟩

theorem paced_dialed {tls : Bool} {c : UInt32} {s : VcAttr} {w w' : Clock} {r : Int} (hd : Down s)
    (hview : s.view.isOpen = 1) (h : Paced tls c s w) (hr : clockAnswers w .connect r w') (hret : 0 ≤ r) :
    sslOpen.wp clocked (fun _ => Judged) (fun _ s w => Dialing [] s ∧ Paced tls c s w)
      { s with sk := r } w' := by
  have hnew : Paced tls c { s with sk := r } w' := by
    rw [show w' = (w.heed .connect).answer .connect r from hr, Clock.heed_of_calm h.calm]
    simp only [Clock.answer, if_pos hret]
    have hstart := h.restart
    exact ⟨hstart.calm, hstart.counted, by simp [hret], hstart.secure, hstart.bound, hstart.judged⟩
  obtain ⟨hstk, -, htid, hpend, heki, -⟩ := hd
  refine wp_sslOpen (paced_lasts tls c).toHolds (paced_lasts tls c) (paced_judged tls c) (paced_judged tls c) ?_
    (fun _ => hnew) ⟨hstk, hret, htid, hpend, heki, hview⟩ hnew
  intro s w w' _ h hr
  exact h.step (e := .sslNew) trivial hr

theorem paced_uniform (tls : Bool) (c : UInt32) : Uniform clocked (fun _ => Judged) (Paced tls c) where
  deaf := paced_deaf tls c
  near := fun h hs => h.near hs
  pause := paced_judged tls c
  mild := fun he h hr => h.step he.timeless hr
  tested := fun h hr => h.step (e := .fdcheck) trivial hr
  sends := fun h _ hs => h.sends hs
  wire := by
    intro s w w' e r he h _ hr
    refine h.step ?_ hr
    cases e with
    | recv | sslRecv | sslRecvSimple => trivial
    | _ => exact he.elim
  handed := fun h hr => h.step (e := .hand _) trivial hr
  hangs := fun hs h => ⟨paced_hangs hs h⟩
  refused := by
    intro s w w' r _ h hr hneg
    rw [show w' = (w.heed .connect).answer .connect r from hr, Clock.heed_of_calm h.calm]
    simp only [Clock.answer]
    rw [if_neg (by omega)]
    exact h
  dialed := fun hd hview h hr hret => ⟨paced_dialed hd hview h hr hret⟩

theorem paced_walk (tls : Bool) (c : UInt32) :
    Walk clocked (fun _ => Judged) (Paced tls c) (Paced tls c) (Paced tls c) (fun _ _ => Paced tls c) :=
  (paced_uniform tls c).speech.walk

/-! ## The first thing main does

After `select`, and again at the start of the next round, the clock has still to learn
what the wait led to.  The first request tells it: a receive, a close, or something else. -/

/-- What shows that nothing came of the wait. -/
def Req.Unrelated : Req → Prop
  | .attrPtr | .sslPending | .recv _ _ | .sslRecv _ _ | .sslRecvSimple _ _ | .close
  | .sslShutdown => False
  | _ => True

/-- How the connection is closed. -/
def Req.Closing (e : Req) : Prop := e = .close ∨ e = .sslShutdown

section
variable {A : Req → Prop} {s : VcAttr} {st : St} {n : Nat}

@[simp] theorem begins_getAttr (D : VcAttr → VcAttr → Prop) (s : VcAttr) :
    getAttr.Begins A D s ↔ D s s := Iff.rfl

@[simp] theorem begins_modifyAttr (g : VcAttr → VcAttr) (D : Unit → VcAttr → Prop) (s : VcAttr) :
    (modifyAttr g).Begins A D s ↔ D () (g s) := Iff.rfl

theorem begins_unrelated {e : Req} (he : e.Unrelated) {D : e.Rep → VcAttr → Prop} :
    (Act.request (S := VcSig) e : M e.Rep).Begins Req.Unrelated D s := he

theorem vcCheckSend_begins (ps : List Pkt) (D : Bool → VcAttr → Prop) (s : VcAttr) :
    (vcCheckSend ps).Begins Req.Unrelated D s := by
  simp only [vcCheckSend, Act.begins_bind, begins_getAttr, Act.begins_ite]
  split
  · exact begins_unrelated (e := .sslSend ps) trivial
  · exact begins_unrelated (e := .fdcheck) trivial

theorem sendNext_begins {p : UInt32 → Pkt} (hlen : 0 < (p s.tid).plen 1024) (D : Bool → VcAttr → Prop) :
    (sendNext p).Begins Req.Unrelated D s := by
  have hpos : ¬ (p s.tid).plen 1024 ≤ 0 := Int.not_le.mpr hlen
  simp only [sendNext, packSend, Act.begins_bind, begins_getAttr]
  rw [if_neg hpos]
  exact vcCheckSend_begins _ _ s

theorem vcBufClear_begins (flags : Int) (D : Unit → VcAttr → Prop) (s : VcAttr) :
    (vcBufClear flags).Begins Req.Unrelated D s := by
  simp only [vcBufClear, Act.begins_bind]
  exact begins_unrelated (e := .ioctl .sClr flags) trivial

/-- A receive attempt starts with a receive. -/
theorem vcRecvDesp_begins (buf : Mem) (D : Mem → VcAttr → Prop) (s : VcAttr) :
    (vcRecvDesp buf).Begins Req.OnWire D s := by
  simp only [vcRecvDesp, vcRecvFrame, recvHeader, Act.begins_bind, begins_getAttr,
    Act.begins_ite]
  split
  · simp only [vcFrameRecvSsl, Act.begins_bind]
    exact Act.begins_request (S := VcSig) (A := Req.OnWire) (e := .sslRecv 0 HDR_LEN) trivial
  · simp only [vcFrameRecvTcp, Act.begins_bind]
    exact Act.begins_request (S := VcSig) (A := Req.OnWire) (e := .recv 0 HDR_LEN) trivial

/-- An exception closes the connection at once. -/
theorem excpInit_begins (h : Raised s) (D : Unit → VcAttr → Prop) :
    (excpInit (call (n + 1))).Begins Req.Closing D s := by
  obtain ⟨rest, hstk⟩ := h.1
  refine Act.begins_of_eq (excpInit_apply hstk) ?_
  simp only [vcNetdownInit, hangUp, Act.begins_bind, begins_getAttr, Act.begins_ite]
  rw [if_pos h.2.1]
  split
  · exact Act.begins_request (S := VcSig) (A := Req.Closing) (e := .sslShutdown) (Or.inr rfl)
  · exact Act.begins_request (S := VcSig) (A := Req.Closing) (e := .close) (Or.inl rfl)

theorem checkOpen_begins (h : Calm s) : checkOpen.Begins Req.Unrelated (fun _ => Calm) s := by
  simp only [checkOpen, Act.begins_bind, begins_getAttr, Act.begins_ite, Act.begins_pure]
  have hclose (n : Nat) : (upClose (call n)).Begins Req.Unrelated (fun _ => Calm) s := by
    simp only [upClose, Act.begins_bind]
    exact vcBufClear_begins _ _ s
  split
  · rename_i hne
    rcases h with h | ⟨st, h | h⟩
    · have heki : s.eki.isOpen = 0 := by rw [h.2.2.2.2.1]; rfl
      rw [if_pos (by rw [← heki]; exact hne)]
      refine Act.begins_of_eq (call_apply h.getLast rfl) ?_
      simp only [vcNetdownOpen, Act.begins_bind]
      exact begins_unrelated (e := .connect) trivial
    · have hview : s.view.isOpen = 0 :=
        h.2.2.2.2.resolve_right fun hv => hne (hv.trans h.2.2.2.1.symm)
      rw [if_neg (by simp [hview])]
      have hlast := h.getLast
      rcases h.1 with rfl | rfl
      · exact Act.begins_of_eq (call_apply hlast rfl) (hclose _)
      · exact Act.begins_of_eq (call_apply hlast rfl) (hclose _)
    · have hview : s.view.isOpen = 0 :=
        h.2.2.2.2.resolve_right fun hv => hne (hv.trans h.2.2.2.1.symm)
      rw [if_neg (by simp [hview])]
      exact Act.begins_of_eq (call_apply h.getLast_top rfl) (hclose _)
  · exact h

/-- An operation that only Net Up and Pause have. -/
theorem tryCall_begins {op : Op} (h : Calm s) (hdown : vcNetdownOps (call CALL_DEPTH) op = none)
    (hidle : vcIdleOps (call CALL_DEPTH) op = none)
    (hup : ∀ st, Up st [] s → (tryCall op).Begins A (fun _ => Calm) s) :
    (tryCall op).Begins A (fun _ => Calm) s := by
  rcases h with h | ⟨st, h | h⟩
  · exact Act.begins_of_done (tryCall_none h.getLast hdown) (Or.inl h)
  · exact hup st h
  · exact Act.begins_of_done (tryCall_none h.getLast_top hidle) (Or.inr ⟨st, Or.inr h⟩)

theorem ioctlLoop_begins (h : Up st [] s) (count : Nat) :
    (ioctlLoop (call n) (count + 1)).Begins Req.Unrelated (fun _ => Calm) s := by
  obtain ⟨-, t, k, hround, hopen⟩ := ioctlRound_setting s
  have hup : Up st [] (ioctlRound s).2 := by
    rw [hround]
    exact h.of_eq rfl rfl hopen h.2.2.2.2
  simp only [ioctlLoop, ioctlSend, Act.begins_bind, begins_getAttr, begins_modifyAttr,
    Act.begins_ite, Act.begins_pure]
  split
  · exact Act.begins_of_done (retCurnt_done hup.raised.ne_nil) (Or.inr ⟨st, Or.inl hup⟩)
  · exact vcCheckSend_begins _ _ _

theorem checkSettings_begins (h : Calm s) :
    checkSettings.Begins Req.Unrelated (fun _ => Calm) s := by
  simp only [checkSettings, Act.begins_bind, begins_getAttr, Act.begins_ite, Act.begins_pure]
  split
  · refine tryCall_begins h rfl rfl fun st hup => ?_
    have hloop := ioctlLoop_begins (n := CALL_DEPTH) hup 14
    have hlast := hup.getLast
    rcases hup.1 with rfl | rfl
    · exact Act.begins_of_eq (tryCall_apply hlast rfl) hloop
    · exact Act.begins_of_eq (tryCall_apply hlast rfl) hloop
  · exact h

theorem readXmit_begins (rx : RingBuf) (llen len : Int) (D : List UInt8 → VcAttr → Prop)
    (s : VcAttr) : (readXmit rx llen len).Begins Req.Unrelated D s := by
  simp only [readXmit, Act.begins_ite, Act.begins_bind]
  split
  · exact begins_unrelated (e := .readRx _ _) trivial
  · exact begins_unrelated (e := .readRx _ _) trivial

theorem checkXmit_begins (h : Calm s) : checkXmit.Begins Req.Unrelated (fun _ => Calm) s := by
  have hxmit : (vcCommonXmit (call CALL_DEPTH)).Begins Req.Unrelated (fun _ => Calm) s := by
    simp only [vcCommonXmit, xmitSend, Act.begins_bind, begins_getAttr]
    exact readXmit_begins _ _ _ _ s
  simp only [checkXmit, Act.begins_bind, begins_getAttr, Act.begins_ite, Act.begins_pure]
  split
  · split
    · refine tryCall_begins h rfl rfl fun st hup => ?_
      have hlast := hup.getLast
      rcases hup.1 with rfl | rfl
      · exact Act.begins_of_eq (tryCall_apply hlast rfl) hxmit
      · exact Act.begins_of_eq (tryCall_apply hlast rfl) hxmit
    · exact h
  · exact h

theorem checkPause_begins (h : Calm s) : checkPause.Begins Req.Unrelated (fun _ => Calm) s := by
  simp only [checkPause, Act.begins_bind, begins_getAttr, Act.begins_ite, Act.begins_pure]
  split
  · refine tryCall_begins h rfl rfl fun st hup => ?_
    have hlast := hup.getLast
    rcases hup.1 with rfl | rfl
    · refine Act.begins_of_eq (tryCall_apply hlast rfl) ?_
      simp only [vcNetupPause, pauseQueue, Act.begins_bind]
      exact sendNext_begins (by simp) _
    · exact Act.begins_of_done (tryCall_none hlast rfl) h
  · exact h

/-- A round starts with something else: at the latest, with the interrupt mask. -/
theorem iteration_begins (h : Calm s) (ls : LoopState) (D : Option LoopState → VcAttr → Prop) :
    (iteration ls).Begins Req.Unrelated D s := by
  simp only [iteration, serveAttr, Act.begins_bind, begins_getAttr]
  refine (checkOpen_begins h).mono fun _ s h => ?_
  refine (checkSettings_begins h).mono fun _ s h => ?_
  refine (checkXmit_begins h).mono fun _ s h => ?_
  refine (checkPause_begins h).mono fun _ s h => ?_
  refine Act.begins_of_done (stkCurnt_done (List.getLast?_eq_some_getLast h.ne_nil)) ?_
  exact begins_unrelated (e := .ioctl .sInter _) trivial

theorem poll_begins (h : Calm s) : (tryCall .poll).Begins Req.Unrelated (fun _ => Calm) s := by
  have hup {st : St} {n : Nat} (h : Up st [] s) :
      (upPoll (call (n + 1))).Begins Req.Unrelated (fun _ => Calm) s := by
    simp only [upPoll, Act.begins_bind]
    refine Act.begins_of_done (stkPush_done (by simp [h.2.1, STACK_MAX])) ?_
    have h' : Up st [.idle] { s with stk := s.stk ++ [.idle] } := ⟨h.1, by simp [h.2.1], h.2.2⟩
    refine Act.begins_of_eq (call_apply h'.getLast_top rfl) ?_
    simp only [vcIdleInit, idleProbe, packSend, Act.begins_bind, begins_getAttr]
    rw [if_neg (by simp)]
    exact vcCheckSend_begins _ _ _
  rcases h with h | ⟨st, h | h⟩
  · exact Act.begins_of_done (tryCall_none h.getLast rfl) (Or.inl h)
  · have hlast := h.getLast
    have hpoll := hup (n := 9) h
    rcases h.1 with rfl | rfl
    · exact Act.begins_of_eq (tryCall_apply hlast rfl) hpoll
    · exact Act.begins_of_eq (tryCall_apply hlast rfl) hpoll
  · refine Act.begins_of_eq (tryCall_apply h.getLast_top rfl) ?_
    simp only [vcIdlePoll, Act.begins_bind]
    exact vcBufClear_begins _ _ s

theorem checkRings_begins (h : Calm s) (r : SelRet) :
    (checkRings r).Begins Req.Unrelated (fun _ => Calm) s := by
  simp only [checkRings, vcBufUpdateRx, vcBufUpdateTx, Act.begins_bind, Act.begins_ite,
    Act.begins_pure]
  split
  · exact begins_unrelated (e := .ioctl .gRxHead 0) trivial
  · split
    · exact begins_unrelated (e := .ioctl .gTxHead 0) trivial
    · exact h

end

/-! ## One round -/

/-- Between two rounds, or after `select`: main has counted `c`. -/
def Rested (tls : Bool) (c : UInt32) (s : VcAttr) (w : Clock) : Prop := Calm s ∧ Paced tls c s w.calm

/-- Between two rounds, with main's own counter. -/
def Timed (tls : Bool) : Option LoopState → VcAttr → Clock → Prop
  | some ls, s, w => Rested tls ls.lrecv s w
  | none, _, w => Judged w

section
variable {tls : Bool} {c : UInt32} {s : VcAttr} {w : Clock} {α : Type} {m : M α}

theorem Calm.rested (hs : Calm s) (h : Paced tls c s w) : Rested tls c s w :=
  ⟨hs, rfl, h.counted, h.up, h.secure, h.bound, h.judged⟩

theorem Rested.judged (h : Rested tls c s w) : Judged w := h.2.judged

/-- What starts with an unrelated request may as well start from a calm clock. -/
theorem wp_of_calm {D : α → VcAttr → Prop} {Q : α → VcAttr → Clock → Prop}
    (hm : m.Begins Req.Unrelated D s) (hw : Judged w) (hQ : ∀ a s, Q a s w.calm → Q a s w)
    (h : m.wp clocked (fun _ => Judged) Q s w.calm) : m.wp clocked (fun _ => Judged) Q s w := by
  refine hm.wp (fun _ _ => id) (fun _ => hw) ?_ (fun a s _ => hQ a s) h
  intro e r w' he hr
  have hne : e ≠ .attrPtr := by
    rintro rfl
    exact he
  have hheed : w.heed e = w.calm.heed e := by
    rw [Clock.heed_of_calm (w := w.calm) rfl]
    unfold Clock.heed
    split
    · cases e with
      | attrPtr | sslPending | recv | sslRecv | sslRecvSimple | close | sslShutdown => exact he.elim
      | _ => rfl
    · rename_i hcalm
      cases w
      simp_all [Clock.calm]
  have hw' : w' = (w.heed e).answer e r := (clockAnswers_iff hne).mp hr
  rw [hheed] at hw'
  exact (clockAnswers_iff hne).mpr hw'

theorem wp_rested {D : α → VcAttr → Prop} (hm : m.Begins Req.Unrelated D s) (h : Rested tls c s w)
    (hwp : m.wp clocked (fun _ => Judged) (Settled (Paced tls c)) s w.calm) :
    m.wp clocked (fun _ => Judged) (fun _ => Rested tls c) s w :=
  wp_of_calm hm h.judged (fun _ _ hq => hq) (Act.wp_mono hwp fun _ _ _ hq => hq.1.rested hq.2)

/-- The counter after a receive. -/
theorem wp_attended {buf : Mem} (hwait : w.waited = true) (h : Rested tls c s w)
    (hsk : 0 ≤ s.sk) :
    (vcRecvDesp buf).wp clocked (fun _ => Judged) (fun _ => Rested tls 0) s w := by
  have hnew : Paced tls 0 s w.attended := ⟨rfl, rfl, h.2.up, h.2.secure, Nat.zero_le _, h.judged⟩
  obtain ⟨st, top, htop, hup⟩ := h.1.up hsk
  have hwp := (paced_walk tls 0).recvDesp_settled htop hup hnew buf
  refine (vcRecvDesp_begins buf (fun _ _ => False) s).wp (fun _ _ => id) (fun _ => h.judged) ?_
    (fun _ _ hno _ => hno.elim) (Act.wp_mono hwp fun _ _ _ hq => hq.1.rested hq.2)
  intro e r w' he hr
  cases e with
  | recv | sslRecv | sslRecvSimple =>
      simp only [clockAnswers, Clock.heed, hwait, if_true] at hr
      exact hr
  | _ => exact he.elim

/-- The timeout itself. -/
theorem wp_gaveUp (hwait : w.waited = true) (h : Rested tls c s w) (hsk : 0 ≤ s.sk)
    (hlong : VC_PULL_TIME < c) :
    (excpInit (call CALL_DEPTH)).wp clocked (fun _ => Judged) (fun _ => Rested tls 0) s w := by
  have hjudged : Judged w.gaveUp := by
    intro t ht
    rcases List.mem_append.mp ht with ht | ht
    · exact h.judged t ht
    · rw [List.mem_singleton.mp ht]
      exact Nat.lt_of_lt_of_le hlong h.2.bound
  have hnew : Paced tls 0 s w.gaveUp := ⟨rfl, rfl, h.2.up, h.2.secure, Nat.zero_le _, hjudged⟩
  obtain ⟨st, top, htop, hup⟩ := h.1.up hsk
  have hwp := (paced_walk tls 0).reset (n := 9) hup.raised hnew
  refine (excpInit_begins hup.raised (fun _ _ => False)).wp (fun _ _ => id) (fun _ => h.judged) ?_
    (fun _ _ hno _ => hno.elim) (Act.wp_mono hwp fun _ _ _ hq => hq.1.rested hq.2)
  rintro e r w' (rfl | rfl) hr
  · simp only [clockAnswers, Clock.heed, hwait, if_true] at hr
    exact hr
  · simp only [clockAnswers, Clock.heed, hwait, if_true] at hr
    exact hr

/-- `lrecv` after `select`, before it is judged. -/
def told (s : VcAttr) (zero : Bool) (r : SelRet) (c : UInt32) : UInt32 :=
  if 0 ≤ s.sk ∧ zero = false then c + Clock.tick r.used else c

/-- After `select`: nothing has been done about it yet. -/
structure Woken (tls : Bool) (c : UInt32) (s : VcAttr) (w : Clock) : Prop where
  waited : w.waited = true
  rested : Rested tls c s w

theorem Paced.slept {r : SelRet} {zero : Bool} (hs : Calm s) (h : Paced tls c s w)
    (hgoes : ¬ (r.ret = 0 ∧ ¬ zero = true)) :
    Woken tls (told s zero r c) s (w.slept r zero) := by
  have hsum : (c + Clock.tick r.used).toNat ≤ c.toNat + (Clock.tick r.used).toNat := by
    rw [UInt32.toNat_add]
    exact Nat.mod_le _ _
  have hbound := h.bound
  refine ⟨rfl, hs, rfl, ?_, h.up, h.secure, ?_, h.judged⟩
  · simp only [Clock.calm, Clock.slept, told, h.counted]
    cases zero with
    | true => simp
    | false =>
        have hret : r.ret ≠ 0 := fun h0 => hgoes ⟨h0, by simp⟩
        simp [h.up, hret]
  · simp only [Clock.calm, Clock.slept, told]
    cases zero with
    | true => simpa using hbound
    | false =>
        simp only [and_true, Bool.false_eq_true, if_false]
        split
        · omega
        · omega

theorem Paced.polled {r : SelRet} {zero : Bool} (hs : Calm s) (h : Paced tls c s w)
    (hpoll : r.ret = 0) : Rested tls c s (w.slept r zero) := by
  have hbound := h.bound
  refine ⟨hs, rfl, ?_, h.up, h.secure, ?_, h.judged⟩
  · simp only [Clock.calm, Clock.slept, h.counted, hpoll, ne_eq, not_true_eq_false, false_and,
      and_false, if_false]
  · simp only [Clock.calm, Clock.slept]
    split
    · exact hbound
    · omega

/-- Where the world stays as it is, only the reply matters. -/
theorem wp_unheeded {e : Req} {Q : e.Rep → VcAttr → Clock → Prop} (h : Woken tls c s w)
    (hsame : ∀ r w', clockAnswers w e r w' → w' = w ∧ Q r s w) :
    (Act.request (S := VcSig) e : M e.Rep).wp clocked (fun _ => Judged) Q s w := by
  refine Act.wp_request_still (fun _ _ => id) h.rested.judged fun r w' hr => ?_
  obtain ⟨hw, hq⟩ := hsame r w' hr
  rw [hw]
  exact hq

theorem wp_sslPending {Q : Bool → VcAttr → Clock → Prop} (h : Woken tls c s w)
    (hQ : ∀ pending, Q pending s w) : sslPending.wp clocked (fun _ => Judged) Q s w := by
  refine wp_unheeded (e := .sslPending) h fun r w' hr => ⟨?_, hQ r⟩
  rw [show w' = (w.heed .sslPending).answer .sslPending r from hr]
  simp only [Clock.answer, Clock.heed, h.waited, if_true]

theorem wp_updAttr (h : Woken tls c s w) :
    vcBufUpdateAttr.wp clocked (fun _ => Judged)
      (fun _ s' w' => s'.sk = s.sk ∧ Woken tls c s' w') s w := by
  simp only [vcBufUpdateAttr, Act.wp_bind]
  refine wp_unheeded (e := .attrPtr) h fun (r : Option PortInfo) w' hr => ⟨hr.1, ?_⟩
  cases r with
  | none => exact ⟨rfl, h⟩
  | some v =>
      have hcalm : Calm { s with view := v } :=
        h.rested.1.of_eq rfl rfl rfl rfl rfl (hr.2 v rfl)
      exact ⟨rfl, h.waited, hcalm, h.rested.2.near ⟨rfl, rfl⟩⟩

theorem wp_protoTimeout {lrecv used : UInt32} (h : Woken tls (lrecv + Clock.tick used) s w)
    (hsk : 0 ≤ s.sk) :
    (protoTimeout lrecv used).wp clocked (fun _ => Judged) (fun lrecv => Rested tls lrecv) s w := by
  show (if lrecv + Clock.tick used > VC_PULL_TIME then
      (excpInit (call CALL_DEPTH) >>= fun _ => pure 0) else
      pure (lrecv + Clock.tick used) : M UInt32).wp clocked _ _ s w
  rw [Act.wp_ite]
  split
  · rename_i hlong
    rw [Act.wp_bind]
    exact wp_gaveUp h.waited h.rested hsk hlong
  · exact h.rested

theorem wp_checkSocket {ls : LoopState} {r : SelRet} {zero : Bool} (hzero : zero = true → tls = true)
    (h : Woken tls (told s zero r ls.lrecv) s w) :
    (checkSocket ls r zero).wp clocked (fun _ => Judged) (fun ls => Rested tls ls.lrecv) s w := by
  simp only [checkSocket, Act.wp_bind, wp_getAttr, Act.wp_ite, Act.wp_pure]
  split
  · rename_i hsk
    rw [told, if_neg (by omega)] at h
    exact h.rested
  rename_i hnonneg
  have hsk : 0 ≤ s.sk := Int.not_lt.mp hnonneg
  have hrecv : (vcRecvDesp ls.buf >>= fun buf => pure ⟨0, buf⟩ : M LoopState).wp clocked
      (fun _ => Judged) (fun ls => Rested tls ls.lrecv) s w := by
    rw [Act.wp_bind]
    exact wp_attended h.waited h.rested hsk
  have htime (hno : zero = false) : (protoTimeout ls.lrecv r.used >>= fun lrecv =>
      pure { ls with lrecv := lrecv } : M LoopState).wp clocked (fun _ => Judged)
      (fun ls => Rested tls ls.lrecv) s w := by
    rw [told, if_pos ⟨hsk, hno⟩] at h
    rw [Act.wp_bind]
    exact wp_protoTimeout h hsk
  split
  · rw [Act.wp_bind]
    refine wp_sslPending h fun pending => ?_
    simp only [Act.wp_ite]
    split
    · exact hrecv
    split
    · rename_i hz
      rw [told, if_neg (by simp [hz])] at h
      split
      · rename_i hlong
        rw [Act.wp_bind]
        exact wp_gaveUp h.waited h.rested hsk hlong
      · exact h.rested
    · rename_i hz
      exact htime (by simpa using hz)
  · rename_i hssl
    -- in clear `select` always waits
    have hno : zero = false := by
      rw [Bool.eq_false_iff]
      intro hz
      have hsome := h.rested.2.secure.trans (hzero hz)
      rw [hssl] at hsome
      cases hsome
    rw [Act.wp_ite]
    split
    · exact hrecv
    · exact htime hno

theorem wp_checkRings (h : Rested tls c s w) (r : SelRet) :
    (checkRings r).wp clocked (fun _ => Judged) (fun _ => Rested tls c) s w :=
  wp_rested (checkRings_begins h.1 r) h ((paced_walk tls c).checkRings_settled h.1 h.2 r)

theorem wp_waitAndServe (ls : LoopState) {fds : FdSets} {zero : Bool}
    (hzero : zero = true → tls = true) (hs : Calm s) (h : Paced tls ls.lrecv s w) :
    (waitAndServe ls fds zero).wp clocked (fun _ => Judged) (fun ls => Rested tls ls.lrecv) s w := by
  have hserve {s : VcAttr} {w : Clock} (r : SelRet) (h : Woken tls (told s zero r ls.lrecv) s w) :
      (do let ls ← checkSocket ls r zero
          checkRings r
          pure ls : M LoopState).wp clocked (fun _ => Judged) (fun ls => Rested tls ls.lrecv) s w := by
    simp only [Act.wp_bind, Act.wp_pure]
    exact Act.wp_mono (wp_checkSocket hzero h) fun ls s w hq => wp_checkRings hq r
  simp only [waitAndServe, Act.wp_bind, Act.wp_ite]
  refine Act.wp_request_still (fun _ _ => id) h.judged fun (r : SelRet) w' hr => ?_
  have hw : w' = w.slept r zero := by
    rw [show w' = (w.heed (.select fds zero)).answer (.select fds zero) r from hr,
      Clock.heed_of_calm h.calm]
    rfl
  rw [hw]
  split
  · rename_i hpoll
    have hrest : Rested tls ls.lrecv s (w.slept r zero) := h.polled hs hpoll.1
    exact wp_rested (poll_begins hs) hrest ((paced_walk tls _).tryCall_poll hs hrest.2)
  rename_i hgoes
  have hwoken := h.slept hs hgoes
  split
  · refine Act.wp_mono (wp_updAttr hwoken) fun _ s' w' hq => ?_
    have hq' : Woken tls (told s' zero r ls.lrecv) s' w' := by
      rw [told, hq.1]
      exact hq.2
    simpa only [Act.wp_bind] using hserve r hq'
  · simpa only [Act.wp_bind] using hserve r hwoken

theorem wp_tlsRecv (hs : Calm s) (h : Paced tls c s w) (buf : Mem) (fds : FdSets) :
    (tlsRecv buf fds).wp clocked (fun _ => Judged)
      (fun r s w => Calm s ∧ Paced tls c s w ∧ (r.2.2 = true → tls = true)) s w := by
  cases tls with
  | true =>
      refine Act.wp_mono ((paced_walk true c).tlsRecv_settled (D := Paced true c)
        (fun h hr => h.step (e := .sslPending) trivial hr) hs (by split <;> exact h) buf fds) ?_
      exact fun _ _ _ hq => ⟨hq.1, hq.2, fun _ => rfl⟩
  | false =>
      simp only [tlsRecv, Act.wp_bind, wp_getAttr, Act.wp_ite, Act.wp_pure]
      rw [if_neg (by simp [h.secure])]
      exact ⟨hs, h, by simp⟩

theorem wp_iteration (ls : LoopState) (h : Rested tls ls.lrecv s w) :
    (iteration ls).wp clocked (fun _ => Judged) (Timed tls) s w := by
  have K := paced_walk tls ls.lrecv
  refine wp_of_calm (iteration_begins h.1 ls (fun _ _ => True)) h.judged ?_ ?_
  · intro ls' s hq
    cases ls' with
    | none => exact hq
    | some ls' => exact hq
  simp only [iteration, Act.wp_bind, wp_getAttr]
  refine Act.wp_mono (K.serveAttr_settled h.1 h.2) fun _ s w hq => ?_
  obtain ⟨hs, hp⟩ := hq
  refine Act.wp_of_done (stkCurnt_done (List.getLast?_eq_some_getLast hs.ne_nil)) ?_
  refine K.lastsJ.wp_request K.pauseJ (e := .ioctl .sInter _) hp
    fun (r : Option Int) w₀ w₁ hp₀ hr => ?_
  have hp₁ : Paced tls ls.lrecv s w₁ := hp₀.step (e := .ioctl .sInter _) trivial hr
  cases r with
  | none => exact hp₁.judged
  | some v =>
      simp only [Act.wp_bind]
      refine Act.wp_mono (wp_tlsRecv hs hp₁ ls.buf _) fun r s w hq => ?_
      obtain ⟨hs, hp, hzero⟩ := hq
      exact Act.wp_mono (wp_waitAndServe { ls with buf := r.1 } hzero hs hp) fun _ _ _ hq => hq

end

/-! ## Whole runs -/

/-- Before main makes its first connection. -/
def Clock.start : Clock := ⟨false, false, 0, 0, 0, []⟩

theorem run_timed {s₀ : VcAttr} (hfresh : Fresh s₀) (buf : Mem)
    {p : Proc VcSig VcAttr (Option LoopState)} {w : Clock}
    (hreach : clocked.Reach iteration (mainStart buf s₀) Clock.start p w) :
    p.wp clocked (fun _ => Judged) (Timed s₀.ssl.isSome) w := by
  have hstart : Paced s₀.ssl.isSome 0 s₀.hung Clock.start :=
    ⟨rfl, rfl, by simp [Clock.start, VcAttr.hung], rfl, Nat.zero_le _, by simp [Judged, Clock.start]⟩
  have hsetup := (paced_uniform s₀.ssl.isSome 0).speech.ready hfresh hstart
  refine Env.Reach.wp (𝓔 := clocked) (fun _ _ _ _ _ hd => hd.elim)
    (fun ls _ _ hq => wp_iteration ls hq) (Act.wp_mono (mainStart_settled hsetup) ?_) hreach
  rintro _ s w ⟨rfl, hs, hp⟩
  exact hs.rested hp

/-- **The protocol timeout.**  What main counts is `lrecv`.  It gives a connection up only
when the time in `select` since the connection was made, or since the last data on it,
exceeds `VC_PULL_TIME` together with what `lrecv` held at that moment; and so only when that
time alone does, as long as `lrecv` is 0 whenever a connection is made or data comes in. -/
theorem timeout_judges_connection {s₀ : VcAttr} (hfresh : Fresh s₀) (buf : Mem)
    {p : Proc VcSig VcAttr (Option LoopState)} {w : Clock}
    (hreach : clocked.Reach iteration (mainStart buf s₀) Clock.start p w) :
    (∀ ls s, p = .done (some ls) s → w.counted = ls.lrecv) ∧
      (∀ t ∈ w.raised, VC_PULL_TIME.toNat < t.elapsed + t.carried) ∧
      ((∀ t ∈ w.raised, t.carried = 0) → ∀ t ∈ w.raised, VC_PULL_TIME.toNat < t.elapsed) := by
  have hwp := run_timed hfresh buf hreach
  have hjudged : Judged w := by
    cases p with
    | done ls s =>
        cases ls with
        | none => exact hwp
        | some ls => exact hwp.2.judged
    | fault f => exact hwp.elim
    | pause s e k => exact hwp.pause
  refine ⟨?_, hjudged, ?_⟩
  · rintro ls s rfl
    exact hwp.2.counted
  · intro hnone t ht
    have h := hjudged t ht
    rw [hnone t ht] at h
    exact h

/-! ## Time on one connection, and time carried over -/

/-- Main is woken up every six seconds, by bytes to send or (`toggles`) because the tty is
closed, or opened again; the device takes every packet and sends none. -/
def wakeReply (toggles : Bool) (w : Clock) : (e : Req) → Option (e.Rep × Clock)
  | .attrPtr =>
      some (some { PortInfo.zero with isOpen := if w.up then 0 else 1, baud := 9600, byte := 8 }, w)
  | .ioctl c arg => some (some (0 : Int), w.heed (.ioctl c arg))
  | .connect => some ((3 : Int), (w.heed .connect).answer .connect (3 : Int))
  | .fdcheck => some (true, w.heed .fdcheck)
  | .send ps => some (true, w.heed (.send ps))
  | .close => some ((), (w.heed .close).answer .close ())
  | .select fds zero =>
      let r : SelRet := ⟨1, ⟨!toggles, false, toggles, false, false⟩, 6000000⟩
      some (r, (w.heed (.select fds zero)).answer (.select fds zero) r)
  | _ => none

theorem wakeReply_legal (toggles : Bool) {w : Clock} {e : Req} {r : e.Rep} {w' : Clock}
    (h : wakeReply toggles w e = some (r, w')) : clocked.answers w e r w' := by
  cases e with
  | attrPtr =>
      cases h
      refine ⟨rfl, fun v hv => ?_⟩
      cases hv
      cases hup : w.up with
      | true => exact Or.inl (by simp)
      | false => exact Or.inr (by simp)
  | ioctl | connect | fdcheck | send | close | select =>
      cases h
      rfl
  | _ => cases h

def wakeRun (toggles : Bool) (n : Nat) : Option (Option LoopState × VcAttr × Clock) :=
  ((mainStart (fun _ => 0) freshAttr).bind (rounds iteration n)).exec (wakeReply toggles) Clock.start

/-- In the second round the connection is given up. -/
theorem wakeRun_silent :
    (wakeRun false 2).map (fun r => r.2.2.raised) = some [⟨12000000, 0⟩] := by
  decide +kernel

theorem timeout_judges_connection_silent : Fresh freshAttr ∧
    ∃ p w, clocked.Reach iteration (mainStart (fun _ => 0) freshAttr) Clock.start p w ∧
      w.raised = [⟨12000000, 0⟩] ∧ (∀ t ∈ w.raised, t.carried = 0) ∧
      ∀ t ∈ w.raised, VC_PULL_TIME.toNat < t.elapsed := by
  have hfresh : Fresh freshAttr := ⟨rfl, rfl, Or.inl rfl⟩
  obtain ⟨⟨ls, s, w⟩, hrun, hraised⟩ := Option.map_eq_some_iff.mp wakeRun_silent
  have hreach := Env.Reach.rounds (𝓔 := clocked) (wakeReply_legal _) 2 .start hrun
  have hnone : ∀ t ∈ w.raised, t.carried = 0 := by
    rw [hraised]
    decide
  exact ⟨hfresh, _, w, hreach, hraised, hnone, (timeout_judges_connection hfresh _ hreach).2.2 hnone⟩

/-- In the third round the second connection is given up. -/
theorem wakeRun_reopened :
    (wakeRun true 3).map (fun r => r.2.2.raised) = some [⟨6000000, 6000000⟩] := by
  decide +kernel

theorem carried_over : ∃ p w,
    clocked.Reach iteration (mainStart (fun _ => 0) freshAttr) Clock.start p w ∧
      ∃ t ∈ w.raised, t.elapsed ≤ VC_PULL_TIME.toNat := by
  obtain ⟨⟨ls, s, w⟩, hrun, hraised⟩ := Option.map_eq_some_iff.mp wakeRun_reopened
  have hreach := Env.Reach.rounds (𝓔 := clocked) (wakeReply_legal _) 3 .start hrun
  exact ⟨_, w, hreach, ⟨6000000, 6000000⟩, by rw [hraised]; exact List.mem_singleton_self _,
    by decide⟩

end AdvVcom
