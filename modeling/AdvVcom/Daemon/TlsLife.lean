/-
# `AdvVcom.Daemon.TlsLife` — the life of the TLS object

The daemon has one `SSL` object at a time, made by `SSL_new` in `vc_netdown_open` and
freed by `SSL_free` when the socket is closed.  Nothing in `ssl_info` says whether it is
there; the code goes by the socket.  The environment `tlsWorld` answers anything and keeps
a log of the calls on the object, each with whether the object was there when the call was
made.  It also watches the attempt to receive that main makes before `select`, between its
request for interrupts and the wait: was there a socket at its beginning, and none at its
end?  The helpers that retry (`ssl_send_simple` and its like) are one entry: nothing is
made or freed inside them.

**Proved here**, for every run in TLS mode:

    a call other than `SSL_pending` is made on a live object (`SSL_new`: on none); all calls
    are as long as the attempts before `select` leave the socket open, and between two
    rounds only then                                          (`tls_object_life`)
    after an attempt that raised an exception, main calls `SSL_pending` on the object it
    has just freed                                            (`pending_on_freed`)
-/
import AdvVcom.Daemon.Speech
import AdvVcom.Daemon.Stack

namespace AdvVcom

open Lib

/-! ## The log -/

/-- Calls that take the object, or make it. -/
def Req.OnTls : Req → Bool
  | .sslNew | .sslSetFd | .sslConnect | .sslSend _ | .sslRecv _ _ | .sslRecvSimple _ _
  | .sslErrStr | .sslPending | .sslShutdown | .sslFree => true
  | _ => false

/-- A call, and whether the object was there at that moment. -/
structure TlsCall where
  call : Req
  live : Bool
  deriving DecidableEq

structure TlsLog where
  /-- The object is there. -/
  live : Bool
  /-- The socket is there. -/
  up : Bool
  /-- An attempt before `select` has begun with a socket, and `select` has not returned. -/
  trying : Bool
  /-- There was such an attempt, and no socket at its end. -/
  cut : Bool
  calls : List TlsCall
  deriving DecidableEq

def TlsLog.note (w : TlsLog) (e : Req) : TlsLog := { w with calls := w.calls ++ [⟨e, w.live⟩] }

def TlsLog.next (w : TlsLog) : Req → TlsLog
  | .sslNew => { w.note .sslNew with live := true }
  | .sslFree => { w.note .sslFree with live := false }
  | .close => { w with up := false }
  | .select _ _ => { w with trying := false, cut := w.cut || (w.trying && !w.up) }
  | e => if e.OnTls then w.note e else w

/-- Every attempt before `select` has left the socket open, so far. -/
def TlsLog.Uncut (w : TlsLog) : Prop := w.cut = false ∧ (w.trying = true → w.up = true)

instance (w : TlsLog) : Decidable w.Uncut := by
  unfold TlsLog.Uncut
  exact inferInstance

def tlsAnswers (w : TlsLog) : (e : Req) → e.Rep → TlsLog → Prop
  | .connect, (r : Int), w' => w' = if 0 ≤ r then { w with up := true } else w
  | .attrPtr, r, w' => w' = w ∧ ∀ v : PortInfo, r = some v → v.isOpen = 0 ∨ v.isOpen = 1
  | .ioctl .sInter _, (r : Option Int), w' => w' = if r.isSome then { w with trying := w.up } else w
  | e, _, w' => w' = w.next e

abbrev tlsWorld : Env VcSig VcAttr where
  World := TlsLog
  answers := tlsAnswers
  drift := fun _ _ _ => False

/-- `SSL_new` with no object, any other call with one. -/
def TlsCall.Proper (c : TlsCall) : Prop := if c.call = .sslNew then c.live = false else c.live = true

instance (c : TlsCall) : Decidable c.Proper := by
  unfold TlsCall.Proper
  exact inferInstance

/-- All calls are proper. -/
def TlsLog.Clean (w : TlsLog) : Prop := ∀ c ∈ w.calls, c.Proper

/-- What every log satisfies. -/
def Explained (w : TlsLog) : Prop :=
  (∀ c ∈ w.calls, c.call ≠ .sslPending → c.Proper) ∧ (w.Uncut → w.Clean)

/-! ## The invariant -/

/-- The object is there as long as the socket is. -/
structure Tied (s : VcAttr) (w : TlsLog) : Prop where
  tls : s.ssl.isSome = true
  socket : w.up = true ↔ 0 ≤ s.sk
  object : w.live = w.up
  rest : ∀ c ∈ w.calls, c.call ≠ .sslPending → c.Proper

/-- Outside the attempt (`b` is false) or in it, before its `SSL_pending`: calls are proper
unless an earlier attempt has ended without the socket. -/
def Tended (b : Bool) (s : VcAttr) (w : TlsLog) : Prop :=
  Tied s w ∧ w.trying = b ∧ (w.Clean ↔ w.cut = false)

/-- After it: the attempt itself counts as well. -/
def Reckoned (s : VcAttr) (w : TlsLog) : Prop := Tied s w ∧ (w.Clean ↔ w.Uncut)

/-- The socket is there, and no object. -/
structure Bare (b : Bool) (s : VcAttr) (w : TlsLog) : Prop where
  tls : s.ssl.isSome = true
  socket : 0 ≤ s.sk
  up : w.up = true
  live : w.live = false
  rest : ∀ c ∈ w.calls, c.call ≠ .sslPending → c.Proper
  trying : w.trying = b
  clean : w.Clean ↔ w.cut = false

section
variable {s s' : VcAttr} {w w' : TlsLog} {e : Req}

theorem forall_note {P : TlsCall → Prop} :
    (∀ c ∈ (w.note e).calls, P c) ↔ (∀ c ∈ w.calls, P c) ∧ P ⟨e, w.live⟩ := by
  simp only [TlsLog.note, List.forall_mem_append, List.forall_mem_singleton]

/-- A call that finds the object as it should. -/
theorem clean_note (h : (⟨e, w.live⟩ : TlsCall).Proper) : (w.note e).Clean ↔ w.Clean :=
  forall_note.trans (and_iff_left h)

theorem Tended.call {b : Bool} (h : Tended b s w) (hproper : (⟨e, w.live⟩ : TlsCall).Proper) :
    Tended b s (w.note e) := by
  obtain ⟨⟨htls, hup, hlive, hrest⟩, htrying, hclean⟩ := h
  exact ⟨⟨htls, hup, hlive, forall_note.mpr ⟨hrest, fun _ => hproper⟩⟩, htrying,
    (clean_note hproper).trans hclean⟩

/-- With a socket there is an object. -/
theorem Tied.proper (h : Tied s w) (hnew : e ≠ .sslNew) (hsk : 0 ≤ s.sk) :
    (⟨e, w.live⟩ : TlsCall).Proper := by
  simp only [TlsCall.Proper, if_neg hnew, h.object]
  exact h.socket.mpr hsk

variable {b : Bool}

theorem Tended.near (h : Tended b s w) (hs : Near s s') : Tended b s' w := by
  obtain ⟨⟨htls, hup, hlive, hrest⟩, hlater⟩ := h
  exact ⟨⟨hs.tls.trans htls, by rw [hs.sk]; exact hup, hlive, hrest⟩, hlater⟩

theorem Tended.mild {r : e.Rep} (he : e.Mild s) (h : Tended b s w) (hr : tlsAnswers w e r w') :
    Tended b s w' := by
  cases e with
  | selRd =>
      rw [show w' = w from hr]
      exact h
  | ioctl c =>
      obtain rfl : c = .sMCtrl := he
      rw [show w' = w from hr]
      exact h
  | sslSetFd | sslConnect | sslErrStr | sslShutdown =>
      rw [show w' = w.note _ from hr]
      exact h.call (h.1.proper (by simp) he)
  | _ => exact he.elim

theorem Tended.sends {ps : List Pkt} {ok : Bool} (h : Tended b s w) (hsk : 0 ≤ s.sk)
    (hs : Sends tlsWorld w ps ok w') : Tended b s w' := by
  rcases hs with hs | ⟨r, hs, -⟩
  · rw [show w' = w from hs]
    exact h
  · rw [show w' = w.note (.sslSend ps) from hs]
    exact h.call (h.1.proper (by simp) hsk)

theorem Tended.wire {r : e.Rep} (he : e.OnWire) (h : Tended b s w) (hsk : 0 ≤ s.sk)
    (hr : tlsAnswers w e r w') : Tended b s w' := by
  cases e with
  | recv =>
      rw [show w' = w from hr]
      exact h
  | sslRecv | sslRecvSimple =>
      rw [show w' = w.note _ from hr]
      exact h.call (h.1.proper (by simp) hsk)
  | _ => exact he.elim

theorem Tended.explained (h : Tended b s w) : Explained w := ⟨h.1.rest, fun hu => h.2.2.mpr hu.1⟩

theorem Bare.explained (h : Bare b s w) : Explained w := ⟨h.rest, fun hu => h.clean.mpr hu.1⟩

theorem Reckoned.explained (h : Reckoned s w) : Explained w := ⟨h.1.rest, h.2.mpr⟩

end

theorem tended_deaf (b : Bool) : Deaf tlsWorld (Tended b) where
  still := id
  proc := by
    intro s w w' e r _ he hr
    cases e with
    | ioctl c =>
        cases c with
        | sInter => exact he.elim
        | _ => exact hr
    | copyTx | readRx => exact hr
    | _ => exact he.elim
  view := fun _ hr => hr

theorem tended_lasts (b : Bool) : Lasts tlsWorld (Tended b) :=
  Lasts.of_kin id (fun h hs => h.near hs.toNear) (fun he h hr => h.mild he hr)
    fun {_ w w'} h hr => by
      rw [show w' = w from hr]
      exact h

theorem bare_holds (b : Bool) : Holds tlsWorld (Bare b) where
  drift := fun _ hd => hd.elim
  ssl := fun h _ hx => ⟨hx.trans h.tls, h.socket, h.up, h.live, h.rest, h.trying, h.clean⟩

/-! ## The handlers -/

section
variable {s : VcAttr} {w w' : TlsLog} {b : Bool}

theorem tended_hangs (hs : Raised s) (h : Tended b s w) :
    hangUp.wp tlsWorld (fun _ => Explained)
      (fun _ s' w' => s' = { s with sk := -1 } ∧ Tended b s.hung w') s w := by
  refine wp_hangUp (F := Bare b) (tended_lasts b) (bare_holds b) (fun _ _ h => h.explained)
    (fun _ _ h => h.explained) ?_ ?_ ?_ hs h
  · intro w w' _ h hr
    rw [show w' = { w.note .sslFree with live := false } from hr]
    have hup := h.1.socket.mpr hs.2.1
    obtain ⟨⟨-, -, -, hrest⟩, htrying, hclean⟩ :=
      h.call (e := .sslFree) (h.1.proper (by simp) hs.2.1)
    exact ⟨h.1.tls, hs.2.1, hup, rfl, hrest, htrying, hclean⟩
  · intro hnone
    exact absurd h.1.tls (by simp [hnone])
  · intro w w' hbare hr
    rw [show w' = { w with up := false } from hr]
    exact ⟨⟨hbare.tls, by simp [VcAttr.hung], hbare.live, hbare.rest⟩, hbare.trying, hbare.clean⟩

theorem tended_dialed {r : Int} (hd : Down s) (hview : s.view.isOpen = 1)
    (h : Tended b s w) (hr : tlsAnswers w .connect r w') (hret : 0 ≤ r) :
    sslOpen.wp tlsWorld (fun _ => Explained) (fun _ s w => Dialing [] s ∧ Tended b s w)
      { s with sk := r } w' := by
  have hdown : ¬ 0 ≤ s.sk := by simp [hd.2.1]
  obtain ⟨⟨htls, hup, hlive, hrest⟩, htrying, hclean⟩ := h
  have hnone : w.live = false := by
    rw [hlive, Bool.eq_false_iff]
    exact fun hyes => hdown (hup.mp hyes)
  have hbare : Bare b { s with sk := r } w' := by
    rw [show w' = if 0 ≤ r then { w with up := true } else w from hr, if_pos hret]
    exact ⟨htls, hret, rfl, hnone, hrest, htrying, hclean⟩
  obtain ⟨hstk, -, htid, hpend, heki, -⟩ := hd
  refine wp_sslOpen (N := Bare b) (bare_holds b) (tended_lasts b) (fun _ _ h => h.explained)
    (fun _ _ h => h.explained) ?_ ?_ ⟨hstk, hret, htid, hpend, heki, hview⟩ hbare
  · intro s w w' htls hbare hr
    rw [show w' = { w.note .sslNew with live := true } from hr]
    have hproper : (⟨.sslNew, w.live⟩ : TlsCall).Proper := hbare.live
    exact ⟨⟨htls, ⟨fun _ => hbare.socket, fun _ => hbare.up⟩, hbare.up.symm,
      forall_note.mpr ⟨hbare.rest, fun _ => hproper⟩⟩, hbare.trying, (clean_note hproper).trans hbare.clean⟩
  · intro hnone
    exact absurd htls (by simpa using hnone)

end

theorem tended_uniform (b : Bool) : Uniform tlsWorld (fun _ => Explained) (Tended b) where
  deaf := tended_deaf b
  near := fun h hs => h.near hs
  pause := fun _ _ h => h.explained
  mild := fun he h hr => h.mild he hr
  tested := by
    intro s w w' ready h hr
    rw [show w' = w from hr]
    exact h
  sends := fun h hsk hs => h.sends hsk hs
  wire := fun he h hsk hr => h.wire he hsk hr
  handed := by
    intro s w w' frame h hr
    rw [show w' = w from hr]
    exact h
  hangs := fun hs h => ⟨tended_hangs hs h⟩
  refused := by
    intro s w w' r _ h hr hneg
    rw [show w' = if 0 ≤ r then { w with up := true } else w from hr, if_neg (by omega)]
    exact h
  dialed := fun hd hview h hr hret => ⟨tended_dialed hd hview h hr hret⟩

/-! ## Main's own calls -/

/-- Only main's `SSL_pending` at the end of the attempt can find no object: then the socket
is gone, and the attempt began with one. -/
theorem Tended.tried {s : VcAttr} {w : TlsLog} (h : Tended true s w) : Reckoned s (w.note .sslPending) := by
  obtain ⟨⟨htls, hup, hlive, hrest⟩, htrying, hclean⟩ := h
  refine ⟨⟨htls, hup, hlive, forall_note.mpr ⟨hrest, fun hne => absurd rfl hne⟩⟩, ?_⟩
  have hproper : (⟨.sslPending, w.live⟩ : TlsCall).Proper ↔ w.up = true := by
    simp only [TlsCall.Proper, reduceCtorEq, if_false, hlive]
  calc (w.note .sslPending).Clean
    _ ↔ w.Clean ∧ (⟨.sslPending, w.live⟩ : TlsCall).Proper := forall_note
    _ ↔ w.cut = false ∧ w.up = true := and_congr hclean hproper
    _ ↔ (w.note .sslPending).Uncut :=
      and_congr_right fun _ => ⟨fun h _ => h, fun h => h htrying⟩

theorem tended_turns : Turns tlsWorld (Tended false) (Tended true) Reckoned where
  holds :=
    { drift := fun _ hd => hd.elim
      ssl := fun h _ hx => ⟨⟨hx.trans h.1.tls, h.1.socket, h.1.object, h.1.rest⟩, h.2⟩ }
  armed := by
    intro s w w' n v h hr
    rw [show w' = { w with trying := w.up } from hr]
    obtain ⟨⟨htls, hup, hlive, hrest⟩, -, hclean⟩ := h
    split
    · rename_i hsk
      exact ⟨⟨htls, hup, hlive, hrest⟩, hup.mpr hsk.2, hclean⟩
    · exact ⟨⟨htls, hup, hlive, hrest⟩, hclean.trans (and_iff_left id).symm⟩
  unarmed := by
    intro s w w' n h hr
    rw [show w' = w from hr]
    exact h
  tried := by
    intro s w w' more h hr
    rw [show w' = w.note .sslPending from hr]
    exact h.tried
  waited := by
    intro s w w' fds zero r h hr
    rw [show w' = { w with trying := false, cut := w.cut || (w.trying && !w.up) } from hr]
    obtain ⟨⟨htls, hup, hlive, hrest⟩, hclean⟩ := h
    refine ⟨⟨htls, hup, hlive, hrest⟩, rfl, hclean.trans ?_⟩
    simp only [TlsLog.Uncut, Bool.or_eq_false_iff, Bool.and_eq_false_imp, Bool.not_eq_false']
  asked := by
    intro s w w' more hsk h hr
    rw [show w' = w.note .sslPending from hr]
    exact h.call (h.1.proper (by simp) hsk)

/-! ## Whole runs -/

/-- Before main's first call on the object. -/
def noCalls : TlsLog := ⟨false, false, false, false, []⟩

theorem run_explained {s₀ : VcAttr} (hfresh : Fresh s₀) (htls : s₀.ssl.isSome = true) (buf : Mem)
    {p : Proc VcSig VcAttr (Option LoopState)} {w : TlsLog}
    (hreach : tlsWorld.Reach iteration (mainStart buf s₀) noCalls p w) :
    p.wp tlsWorld (fun _ => Explained) (Settled (Tended false)) w := by
  have hstart : Tended false s₀.hung noCalls :=
    ⟨⟨htls, by simp [noCalls, VcAttr.hung], rfl, by simp [noCalls]⟩, rfl,
      by simp [noCalls, TlsLog.Clean]⟩
  exact (tended_uniform false).speech.walk.run_turns (tended_uniform true).speech.walk tended_turns
    (fun _ _ h => h.explained) ((tended_uniform false).speech.ready hfresh hstart) hreach

/-- **The life of the TLS object.**  Apart from `SSL_pending`, every call finds the object
alive, and `SSL_new` finds none.  All calls do in a run in which every attempt to receive
before `select` leaves the socket open; and if one did not, then at the end of its round
there is a call that did not. -/
theorem tls_object_life {s₀ : VcAttr} (hfresh : Fresh s₀) (htls : s₀.ssl.isSome = true) (buf : Mem)
    {p : Proc VcSig VcAttr (Option LoopState)} {w : TlsLog}
    (hreach : tlsWorld.Reach iteration (mainStart buf s₀) noCalls p w) :
    (∀ c ∈ w.calls, c.call ≠ .sslPending → c.Proper) ∧ (w.Uncut → ∀ c ∈ w.calls, c.Proper) ∧
      ∀ ls s, p = .done ls s → ((∀ c ∈ w.calls, c.Proper) ↔ w.Uncut) := by
  have hwp := run_explained hfresh htls buf hreach
  have hlog : Explained w := by
    cases p with
    | done ls s => exact hwp.2.explained
    | fault f => exact hwp.elim
    | pause s e k => exact hwp.pause
  refine ⟨hlog.1, hlog.2, ?_⟩
  rintro ls s rfl
  obtain ⟨-, -, htrying, hclean⟩ := hwp
  exact hclean.trans (and_iff_left fun hyes => by simp [htrying] at hyes).symm

/-! ## An attempt that leaves the socket open, and one that does not -/

/-- A device that takes the connection and every packet; each read over TLS ends with `read`. -/
def readReply (read : SslRead) (w : TlsLog) : (e : Req) → Option (e.Rep × TlsLog)
  | .ioctl .sInter _ => some (some (0 : Int), { w with trying := w.up })
  | .ioctl _ _ => some (some (0 : Int), w)
  | .attrPtr => some (some { PortInfo.zero with isOpen := 1, baud := 9600, byte := 8 }, w)
  | .connect => some ((3 : Int), { w with up := true })
  | .sslSetFd => some (true, w.note .sslSetFd)
  | .sslConnect => some (SslRet.ok, w.note .sslConnect)
  | .sslSend ps => some (SslRet.ok, w.note (.sslSend ps))
  | .sslRecv off len => some (read, w.note (.sslRecv off len))
  | .sslPending => some (false, w.note .sslPending)
  | .select fds zero => some (⟨1, ⟨false, false, false, false, false⟩, 1⟩, w.next (.select fds zero))
  | .close => some ((), w.next .close)
  | .sslNew => some ((), w.next .sslNew)
  | .sslErrStr => some ((), w.next .sslErrStr)
  | .sslShutdown => some ((), w.next .sslShutdown)
  | .sslFree => some ((), w.next .sslFree)
  | _ => none

theorem readReply_legal (read : SslRead) {w : TlsLog} {e : Req} {r : e.Rep} {w' : TlsLog}
    (h : readReply read w e = some (r, w')) : tlsWorld.answers w e r w' := by
  cases e with
  | attrPtr =>
      cases h
      refine ⟨rfl, fun v hv => ?_⟩
      cases hv
      exact Or.inr rfl
  | ioctl c =>
      cases c with
      | _ =>
          cases h
          rfl
  | copyTx | readRx | fdcheck | send | recv | selRd | sslRecvSimple | hand => cases h
  | _ =>
      cases h
      rfl

/-- Main's variables at the start, with TLS. -/
def freshTls : VcAttr :=
  { freshAttr with ssl := some ⟨-1, ⟨false, false⟩, ⟨false, false⟩, ⟨false, false⟩⟩ }

/-- The first round. -/
def readRun (read : SslRead) : Option (Option LoopState × VcAttr × TlsLog) :=
  ((mainStart (fun _ => 0) freshTls).bind (rounds iteration 1)).exec (readReply read) noCalls

/-- The stream breaks off: the last call finds no object. -/
theorem readRun_fail : (readRun .fail).map (fun r => r.2.2.calls.getLast?) =
    some (some ⟨.sslPending, false⟩) := by
  decide +kernel

theorem pending_on_freed : ∃ p w, tlsWorld.Reach iteration (mainStart (fun _ => 0) freshTls) noCalls p w ∧
    ∃ c ∈ w.calls, ¬ c.Proper := by
  obtain ⟨⟨ls, s, w⟩, hrun, hlast⟩ := Option.map_eq_some_iff.mp readRun_fail
  have hreach := Env.Reach.rounds (𝓔 := tlsWorld) (readReply_legal _) 1 .start hrun
  exact ⟨_, w, hreach, _, List.mem_of_getLast? hlast, by decide⟩

/-- Nothing has arrived yet: the attempt ends with the socket open, and main asks
`SSL_pending` before the wait and after it. -/
theorem readRun_want : (readRun (.want false)).map (fun r => (r.2.2.up, r.2.2.cut,
      r.2.2.calls.drop (r.2.2.calls.length - 3))) =
    some (true, false, [⟨.sslRecv 0 HDR_LEN, true⟩, ⟨.sslPending, true⟩, ⟨.sslPending, true⟩]) := by
  decide +kernel

theorem tls_object_life_waiting : Fresh freshTls ∧ freshTls.ssl.isSome = true ∧ ∃ ls s w,
    tlsWorld.Reach iteration (mainStart (fun _ => 0) freshTls) noCalls (.done ls s) w ∧ w.up = true ∧
      w.Uncut ∧ (⟨.sslPending, true⟩ : TlsCall) ∈ w.calls ∧ ∀ c ∈ w.calls, c.Proper := by
  have hfresh : Fresh freshTls := ⟨rfl, rfl, Or.inl rfl⟩
  obtain ⟨⟨ls, s, w⟩, hrun, hout⟩ := Option.map_eq_some_iff.mp readRun_want
  have hreach := Env.Reach.rounds (𝓔 := tlsWorld) (readReply_legal _) 1 .start hrun
  simp only [Prod.mk.injEq] at hout
  obtain ⟨hup, hcut, hlast⟩ := hout
  have huncut : w.Uncut := ⟨hcut, fun _ => hup⟩
  refine ⟨hfresh, rfl, ls, s, w, hreach, hup, huncut, ?_, (tls_object_life hfresh rfl _ hreach).2.1 huncut⟩
  apply List.mem_of_mem_drop (i := w.calls.length - 3)
  rw [hlast]
  decide

end AdvVcom
