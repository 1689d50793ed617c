/-
# `AdvVcom.Daemon.Silence` — how long a silent device is kept

Nothing tells the daemon that its device has gone: TCP keeps a connection to a machine that
is switched off.  main has two means against it, and each has a gap.  `lrecv` counts the
time of the `select`s that came back for something else; a `select` that runs to its end is
not counted, but sends a probe and puts Idle on the stack, and the next one that does gives
the connection up.

The environment `line` answers anything, and keeps the time itself:

    `quiet`     time in `select`, at least a microsecond a call, since the connection was
                made, the socket was last reported ready, OpenSSL last had data for us, or
                a frame last came in

All it promises is that `select` comes back in time.

**Proved here**, for every run, in clear or over TLS:

    without Idle on the stack, `lrecv` has counted all of `quiet`; with it, all but one
    `VC_PULL_TIME`; and no connection is ever quiet for longer than three of them
                                                              (`silence_bounded`)
-/
import AdvVcom.Daemon.Timeout

namespace AdvVcom

open Lib

/-! ## Down, or still idle -/

/-- Neither Net Up nor Pause is on top. -/
def Dormant (s : VcAttr) : Prop := Down s ∨ ∃ st, Up st [.idle] s

theorem Dormant.calm {s : VcAttr} (h : Dormant s) : Calm s := by
  rcases h with h | ⟨st, h⟩
  · exact Or.inl h
  · exact Or.inr ⟨st, Or.inr h⟩

section
variable {𝓔 : Env VcSig VcAttr} {I J S B : VcAttr → 𝓔.World → Prop}
  {H : Mem → Nat → VcAttr → 𝓔.World → Prop} {s : VcAttr} {w : 𝓔.World} {st : St} {top : List St}
  {n : Nat}

/-- What only Net Up and Pause can do is not done. -/
theorem Dormant.skips {op : Op} {Q : Unit → VcAttr → 𝓔.World → Prop} (h : Dormant s)
    (hdown : vcNetdownOps (call CALL_DEPTH) op = none)
    (hidle : vcIdleOps (call CALL_DEPTH) op = none) (hq : Q () s w) :
    (tryCall op).wp 𝓔 I Q s w := by
  rcases h with h | ⟨st, h⟩
  · exact Act.wp_of_done (tryCall_none h.getLast hdown) hq
  · exact Act.wp_of_done (tryCall_none h.getLast_top hidle) hq

/-- Settings, data and a full queue have to wait. -/
theorem Dormant.unserved {Q : Unit → VcAttr → 𝓔.World → Prop} (h : Dormant s) (hq : Q () s w) :
    checkSettings.wp 𝓔 I Q s w ∧ checkXmit.wp 𝓔 I Q s w ∧ checkPause.wp 𝓔 I Q s w := by
  simp only [checkSettings, checkXmit, checkPause, Act.wp_bind, wp_getAttr, Act.wp_ite, Act.wp_pure]
  refine ⟨?_, ?_, ?_⟩
  · split
    · exact h.skips rfl rfl hq
    · exact hq
  · split
    · split
      · exact h.skips rfl rfl hq
      · exact hq
    · exact hq
  · split
    · exact h.skips rfl rfl hq
    · exact hq

variable (K : Walk 𝓔 I J S B H)

include K

theorem Walk.reset_down (h : Raised s) (hb : B s w) :
    (excpInit (call (n + 1))).wp 𝓔 I (fun _ s w => Down s ∧ J s w) s w := by
  obtain ⟨rest, hstk⟩ := h.1
  have h' : Raised { s with stk := [.netdown] } := ⟨⟨[], rfl⟩, h.2⟩
  refine Act.wp_of_eq (excpInit_apply hstk) ?_
  simp only [vcNetdownInit, Act.wp_bind, wp_modifyAttr]
  refine Act.wp_mono (K.hangs rfl h' (K.baseB hb _)).wp ?_
  rintro _ _ w' ⟨rfl, hj⟩
  exact ⟨h'.hung, hj⟩

theorem Walk.upClose_down (h : Up st top s) (hj : J s w) (hview : s.view.isOpen = 0) :
    (upClose (call (n + 1))).wp 𝓔 I (fun _ s w => Down s ∧ J s w) s w := by
  have hall : (closing >>= fun ok => if ok then
        (do
          stkRestart
          call (n + 1) .init)
        else excpInit (call (n + 1)) : M Unit).wp 𝓔 I (fun _ s w => Down s ∧ J s w) s w := by
    rw [Act.wp_bind]
    refine Act.wp_mono (K.closed h hj hview).wp fun ok s w hq => ?_
    cases ok with
    | true => exact K.reset_down hq.1 hq.2
    | false => exact K.reset_down hq.1 hq.2
  simpa only [upClose, vcCommonClose, closing, Act.wp_bind] using hall

/-- The first `select` that runs to its end. -/
theorem Walk.upPoll_dormant (h : Up st [] s) (hj : J s w) :
    (upPoll (call (n + 2))).wp 𝓔 I (fun _ s w => Dormant s ∧ J s w) s w := by
  simp only [upPoll, Act.wp_bind]
  refine Act.wp_of_done (stkPush_done (by simp [h.2.1, STACK_MAX])) ?_
  have h' : Up st [.idle] { s with stk := s.stk ++ [.idle] } := ⟨h.1, by simp [h.2.1], h.2.2⟩
  refine Act.wp_of_eq (call_apply h'.getLast_top rfl) ?_
  simp only [vcIdleInit, Act.wp_bind]
  refine Act.wp_mono (K.idleProbe_went h' (K.lastsJ.base hj _ (by simp [h.2.1]))) fun ok s w hq => ?_
  cases ok with
  | true => exact ⟨Or.inr ⟨st, hq.1⟩, hq.2⟩
  | false => exact Act.wp_mono (K.reset_down hq.1 hq.2) fun _ _ _ hq => ⟨Or.inl hq.1, hq.2⟩

/-- The second one. -/
theorem Walk.idlePoll_down (h : Up st [.idle] s) (hj : J s w) :
    (vcIdlePoll (call (n + 1))).wp 𝓔 I (fun _ s w => Down s ∧ J s w) s w := by
  simp only [vcIdlePoll, Act.wp_bind]
  refine Act.wp_mono (K.clearIdle h hj).wp fun _ s w hq => ?_
  exact K.reset_down hq.1 hq.2

theorem Walk.checkOpen_idle (h : Up st [.idle] s) (hj : J s w) :
    checkOpen.wp 𝓔 I (fun _ s w => Dormant s ∧ J s w) s w := by
  simp only [checkOpen, Act.wp_bind, wp_getAttr, Act.wp_ite, Act.wp_pure]
  split
  · rename_i hne
    have hview : s.view.isOpen = 0 :=
      h.2.2.2.2.resolve_right fun hv => hne (hv.trans h.2.2.2.1.symm)
    rw [if_neg (by simp [hview])]
    refine Act.wp_of_eq (call_apply h.getLast_top rfl) ?_
    exact Act.wp_mono (K.upClose_down h hj hview) fun _ _ _ hq => ⟨Or.inl hq.1, hq.2⟩
  · exact ⟨Or.inr ⟨st, h⟩, hj⟩

/-- While it waits for the answer to its probe, the daemon only looks whether the tty is
still open. -/
theorem Walk.serveAttr_idle (h : Up st [.idle] s) (hj : J s w) :
    serveAttr.wp 𝓔 I (fun _ s w => Dormant s ∧ J s w) s w := by
  simp only [serveAttr, Act.wp_bind]
  refine Act.wp_mono (K.checkOpen_idle h hj) fun _ s w hq => ?_
  exact (hq.1.unserved (hq.1.unserved (hq.1.unserved hq).2.2).2.1).1

/-- The rings are looked at, and nothing else. -/
theorem Walk.checkRings_idle (h : Up st [.idle] s) (hj : J s w) (r : SelRet) :
    (checkRings r).wp 𝓔 I (fun _ s w => Up st [.idle] s ∧ J s w) s w := by
  have htx {s : VcAttr} {w : 𝓔.World} (h : Up st [.idle] s) (hj : J s w) :
      (do vcBufUpdateTx
          tryCall .resume : M Unit).wp 𝓔 I (fun _ s w => Up st [.idle] s ∧ J s w) s w := by
    rw [Act.wp_bind]
    refine Act.wp_mono (K.updTx (Or.inr ⟨st, Or.inr h⟩) hj).wp ?_
    rintro _ _ w ⟨⟨tx, rfl⟩, hj⟩
    have h' : Up st [.idle] { s with tx := tx } := h
    exact Dormant.skips (Or.inr ⟨st, h'⟩) rfl rfl ⟨h', hj⟩
  simp only [checkRings, Act.wp_bind, Act.wp_ite, Act.wp_pure]
  split
  · refine Act.wp_mono (K.updRx (Or.inr ⟨st, Or.inr h⟩) hj).wp ?_
    rintro _ _ w ⟨⟨rx, rfl⟩, hj⟩
    have h' : Up st [.idle] { s with rx := rx } := h
    split
    · simpa only [Act.wp_bind] using htx h' hj
    · exact ⟨h', hj⟩
  · split
    · simpa only [Act.wp_bind] using htx h hj
    · exact ⟨h, hj⟩

/-- A receive attempt: nothing came, the connection is gone, or a frame came in, and what
holds then (`J₀`) holds in the end. -/
theorem Walk.recvDesp_hears {J₀ S₀ B₀ : VcAttr → 𝓔.World → Prop} (K₀ : Walk 𝓔 I J₀ S₀ B₀ H)
    (htop : top = [] ∨ top = [.idle]) (h : Up st top s) (hj : J s w) (buf : Mem) :
    (vcRecvDesp buf).wp 𝓔 I
      (fun _ s w => (Down s ∨ Up st top s) ∧ J s w ∨ Calm s ∧ J₀ s w) s w := by
  simp only [vcRecvDesp, Act.wp_bind, Act.wp_pure]
  refine Act.wp_mono (K.received buf h hj).wp fun r s w hr => ?_
  obtain ⟨outcome, buf'⟩ := r
  cases outcome with
  | select => exact Act.wp_of_done (retCurnt_done hr.1.raised.ne_nil) (Or.inl ⟨Or.inr hr.1, hr.2⟩)
  | reset =>
      exact Act.wp_mono (K.reset_down hr.1 hr.2) fun _ _ _ hq => Or.inl ⟨Or.inl hq.1, hq.2⟩
  | frame len =>
      exact Act.wp_mono (K₀.dispatch_settled (r := (.frame len, buf')) htop hr) fun _ _ _ hq =>
        Or.inr hq

end

/-! ## The line -/

/-- The connection, and how long nothing has been heard on it. -/
structure Line where
  up : Bool
  quiet : Nat
  deriving DecidableEq

namespace Line

/-- A sign of life. -/
def alive (w : Line) : Line := { w with quiet := 0 }

def pending (w : Line) (r : Bool) : Line := if r then w.alive else w

def slept (w : Line) (r : SelRet) (zero : Bool) : Line :=
  if r.fds.skR || r.fds.skW then w.alive
  else if zero then w
  else { w with quiet := w.quiet + (Clock.tick r.used).toNat }

def answer (w : Line) : (e : Req) → e.Rep → Line
  | .connect, (r : Int) => if 0 ≤ r then ⟨true, 0⟩ else w
  | .close, _ => { w with up := false }
  | .hand _, _ => w.alive
  | .sslPending, (r : Bool) => w.pending r
  | .select _ zero, (r : SelRet) => w.slept r zero
  | _, _ => w

end Line

def lineAnswers (w : Line) : (e : Req) → e.Rep → Line → Prop
  | .attrPtr, r, w' => w' = w ∧ ∀ v : PortInfo, r = some v → v.isOpen = 0 ∨ v.isOpen = 1
  | .select fds zero, r, w' => SelRet.used r ≤ VC_PULL_TIME ∧ w' = w.answer (.select fds zero) r
  | e, r, w' => w' = w.answer e r

abbrev line : Env VcSig VcAttr where
  World := Line
  answers := lineAnswers
  drift := fun _ _ _ => False

/-- The longest silence. -/
def SILENCE : Nat := 3 * VC_PULL_TIME.toNat

def Patient (_ : VcAttr) (w : Line) : Prop := w.up = true → w.quiet ≤ SILENCE

/-- The connection has been quiet for no longer than `q`. -/
structure QuietFor (q : Nat) (s : VcAttr) (w : Line) : Prop where
  up : w.up = true ↔ 0 ≤ s.sk
  quiet : w.up = true → w.quiet ≤ q

section
variable {q q' : Nat} {s s' : VcAttr} {w w' : Line} {e : Req} {r : e.Rep}

theorem QuietFor.mono (h : QuietFor q s w) (hq : q ≤ q') : QuietFor q' s w :=
  ⟨h.up, fun hup => Nat.le_trans (h.quiet hup) hq⟩

theorem QuietFor.near (h : QuietFor q s w) (hs : Near s s') : QuietFor q s' w :=
  ⟨by rw [hs.sk]; exact h.up, h.quiet⟩

theorem QuietFor.alive (h : QuietFor q s w) : QuietFor 0 s w.alive := ⟨h.up, fun _ => Nat.le_refl 0⟩

theorem QuietFor.pending (h : QuietFor q s w) (r : Bool) : QuietFor q s (w.pending r) := by
  cases r with
  | true => exact h.alive.mono (Nat.zero_le q)
  | false => exact h

/-- Without a connection, any bound will do. -/
theorem QuietFor.of_down (h : QuietFor q s w) (hs : Down s) (q' : Nat) : QuietFor q' s w := by
  refine ⟨h.up, fun hup => ?_⟩
  have hsk := h.up.mp hup
  have hdown := hs.2.1
  omega

theorem QuietFor.step (h : QuietFor q s w) (he : e.Timeless) (hr : lineAnswers w e r w') :
    QuietFor q s w' := by
  cases e with
  | connect | close | select => exact he.elim
  | attrPtr =>
      rw [show w' = w from hr.1]
      exact h
  | hand frame =>
      rw [show w' = w.alive from hr]
      exact h.alive.mono (Nat.zero_le q)
  | sslPending =>
      rw [show w' = w.pending r from hr]
      exact h.pending r
  | _ =>
      rw [show w' = w from hr]
      exact h

theorem QuietFor.sends {ps : List Pkt} {ok : Bool} (h : QuietFor q s w)
    (hs : Sends line w ps ok w') : QuietFor q s w' := by
  rcases hs with hs | ⟨r, hs, -⟩
  · exact h.step (e := .send ps) trivial hs
  · exact h.step (e := .sslSend ps) trivial hs

end

theorem quietFor_deaf (q : Nat) : Deaf line (QuietFor q) where
  still := id
  proc := by
    intro s w w' e r h he hr
    cases e with
    | ioctl | copyTx | readRx => exact hr
    | _ => exact he.elim
  view := fun _ hr => hr

theorem quietFor_lasts (q : Nat) : Lasts line (QuietFor q) :=
  Lasts.of_kin id (fun h hs => h.near hs.toNear) (fun he h hr => h.step he.timeless hr)
    fun h hr => h.step (e := .fdcheck) trivial hr

section
variable {q : Nat} (hq : q ≤ SILENCE) {s : VcAttr} {w w' : Line}

include hq

theorem quietFor_patient (s : VcAttr) (w : Line) (h : QuietFor q s w) : Patient s w :=
  (h.mono hq).quiet

theorem quietFor_hangs (hs : Raised s) (h : QuietFor q s w) :
    hangUp.wp line Patient (fun _ s' w' => s' = { s with sk := -1 } ∧ QuietFor q s.hung w') s w := by
  refine wp_hangUp (quietFor_lasts q) (quietFor_lasts q).toHolds (quietFor_patient hq) (quietFor_patient hq)
    ?_ (fun _ => h) ?_ hs h
  · intro w w' _ h hr
    exact h.step (e := .sslFree) trivial hr
  · intro w w' _ hr
    rw [show w' = { w with up := false } from hr]
    exact ⟨by simp [VcAttr.hung], by simp⟩

theorem quietFor_dialed {r : Int} (hd : Down s) (hview : s.view.isOpen = 1)
    (hr : lineAnswers w .connect r w') (hret : 0 ≤ r) :
    sslOpen.wp line Patient (fun _ s w => Dialing [] s ∧ QuietFor q s w) { s with sk := r } w' := by
  have hnew : QuietFor q { s with sk := r } w' := by
    rw [show w' = if 0 ≤ r then ⟨true, 0⟩ else w from hr, if_pos hret]
    exact ⟨by simp [hret], fun _ => Nat.zero_le q⟩
  obtain ⟨hstk, -, htid, hpend, heki, -⟩ := hd
  refine wp_sslOpen (quietFor_lasts q).toHolds (quietFor_lasts q) (quietFor_patient hq)
    (quietFor_patient hq) ?_ (fun _ => hnew) ⟨hstk, hret, htid, hpend, heki, hview⟩ hnew
  intro s w w' _ h hr
  exact h.step (e := .sslNew) trivial hr

theorem quietFor_uniform : Uniform line Patient (QuietFor q) where
  deaf := quietFor_deaf q
  near := fun h hs => h.near hs
  pause := quietFor_patient hq
  mild := fun he h hr => h.step he.timeless hr
  tested := fun h hr => h.step (e := .fdcheck) trivial hr
  sends := fun h _ hs => h.sends hs
  wire := by
    intro s w w' e r he h _ hr
    refine h.step ?_ hr
    cases e with
    | recv | sslRecv | sslRecvSimple => trivial
    | _ => exact he.elim
  handed := fun h hr => h.step (e := .hand _) trivial hr
  hangs := fun hs h => ⟨quietFor_hangs hq hs h⟩
  refused := by
    intro s w w' r _ h hr hneg
    rw [show w' = if 0 ≤ r then ⟨true, 0⟩ else w from hr, if_neg (by omega)]
    exact h
  dialed := fun hd hview _ hr hret => ⟨quietFor_dialed hq hd hview hr hret⟩

/-- A frame that has come in is a sign of life. -/
theorem quietFor_speech : Speech line Patient (QuietFor q) (QuietFor q) (QuietFor q) (QuietFor q)
    (fun _ _ => QuietFor 0) :=
  { (quietFor_uniform hq).speech with
    kinH := fun h hs => h.near hs.toNear
    handed := by
      intro st top s w w' buf _ h hr
      rw [show w' = w.alive from hr]
      exact h.alive
    passed := fun _ h _ => h.mono (Nat.zero_le q)
    replied := fun hup h hbuf =>
      ⟨(quietFor_uniform hq).replied hbuf hup (h.mono (Nat.zero_le q))⟩ }

end

theorem quietFor_walk {q : Nat} (hq : q ≤ SILENCE) :
    Walk line Patient (QuietFor q) (QuietFor q) (QuietFor q) (fun _ _ => QuietFor 0) :=
  (quietFor_speech hq).walk

/-! ## One round -/

/-- Between two rounds: main has counted `c`, or it is waiting for the answer to its probe. -/
def Lively (c : Nat) (s : VcAttr) (w : Line) : Prop :=
  Calm s ∧ QuietFor c s w ∨ (∃ st, Up st [.idle] s) ∧ QuietFor (c + VC_PULL_TIME.toNat) s w

section
variable {c : Nat} {s s' : VcAttr} {w w' : Line}

theorem Lively.calm (h : Lively c s w) : Calm s := by
  rcases h with h | ⟨⟨st, h⟩, -⟩
  · exact h.1
  · exact Or.inr ⟨st, Or.inr h⟩

theorem Lively.quietFor (h : Lively c s w) : QuietFor (c + VC_PULL_TIME.toNat) s w := by
  rcases h with h | h
  · exact h.2.mono (Nat.le_add_right ..)
  · exact h.2

theorem Dormant.lively (h : Dormant s) (hw : QuietFor (c + VC_PULL_TIME.toNat) s w) : Lively c s w := by
  rcases h with h | h
  · exact Or.inl ⟨Or.inl h, hw.of_down h c⟩
  · exact Or.inr ⟨h, hw⟩

theorem Down.lively {q : Nat} (h : Down s) (hw : QuietFor q s w) : Lively c s w :=
  Or.inl ⟨Or.inl h, hw.of_down h c⟩

theorem wp_serveAttr_lively (hc : c ≤ VC_PULL_TIME.toNat) (h : Lively c s w) :
    serveAttr.wp line Patient (fun _ => Lively c) s w := by
  have hS : SILENCE = 3 * VC_PULL_TIME.toNat := rfl
  rcases h with h | ⟨⟨st, h⟩, hw⟩
  · exact Act.wp_mono ((quietFor_walk (by omega)).serveAttr_settled h.1 h.2) fun _ _ _ hq => Or.inl hq
  · exact Act.wp_mono ((quietFor_walk (by omega)).serveAttr_idle h hw) fun _ _ _ hq =>
      hq.1.lively hq.2

theorem wp_recvDesp_lively (hc : c ≤ VC_PULL_TIME.toNat) (h : Lively c s w) (hsk : 0 ≤ s.sk)
    (buf : Mem) : (vcRecvDesp buf).wp line Patient (fun _ => Lively c) s w := by
  have hS : SILENCE = 3 * VC_PULL_TIME.toNat := rfl
  rcases h with h | ⟨⟨st, h⟩, hw⟩
  · obtain ⟨st, top, htop, hup⟩ := h.1.up hsk
    exact Act.wp_mono ((quietFor_walk (by omega)).recvDesp_settled htop hup h.2 buf)
      fun _ _ _ hq => Or.inl hq
  · have K₀ := quietFor_walk (Nat.zero_le SILENCE)
    refine Act.wp_mono ((quietFor_walk (by omega)).recvDesp_hears K₀ (Or.inr rfl) h hw buf) ?_
    rintro _ s w (⟨hs | hs, hw⟩ | ⟨hs, hw⟩)
    · exact hs.lively hw
    · exact Or.inr ⟨⟨st, hs⟩, hw⟩
    · exact Or.inl ⟨hs, hw.mono (Nat.zero_le c)⟩

theorem Lively.mono {c' : Nat} (h : Lively c s w) (hc : c ≤ c') : Lively c' s w := by
  rcases h with ⟨hs, hw⟩ | ⟨hs, hw⟩
  · exact Or.inl ⟨hs, hw.mono hc⟩
  · exact Or.inr ⟨hs, hw.mono (Nat.add_le_add_right hc _)⟩

theorem Lively.pending (h : Lively c s w) (r : Bool) : Lively c s (w.pending r) := by
  rcases h with ⟨hs, hw⟩ | ⟨hs, hw⟩
  · exact Or.inl ⟨hs, hw.pending r⟩
  · exact Or.inr ⟨hs, hw.pending r⟩

/-- The TLS object and the view of the tty's settings do not matter. -/
theorem Lively.of_eq (h : Lively c s w) (hs : Near s s') (hstk : s'.stk = s.stk)
    (htid : s'.tid = s.tid) (hpend : s'.xmitPending = s.xmitPending) (heki : s'.eki = s.eki)
    (hview : Legal s') : Lively c s' w := by
  rcases h with ⟨h, hw⟩ | ⟨⟨st, h⟩, hw⟩
  · exact Or.inl ⟨h.of_eq hstk hs.sk htid hpend heki hview, hw.near hs⟩
  · exact Or.inr ⟨⟨st, h.of_eq hstk hs.sk (by rw [heki]) hview⟩, hw.near hs⟩

theorem Lively.patient (h : Lively c s w) (hc : c ≤ 2 * VC_PULL_TIME.toNat) : Patient s w := by
  have hS : SILENCE = 3 * VC_PULL_TIME.toNat := rfl
  exact quietFor_patient (by omega) s w h.quietFor

theorem wp_sslPending_lively {Q : Bool → VcAttr → Line → Prop} (h : Lively c s w)
    (hc : c ≤ 2 * VC_PULL_TIME.toNat) (hQ : ∀ r, Q r s (w.pending r)) :
    sslPending.wp line Patient Q s w := by
  refine Act.wp_request_still (fun _ _ => id) (h.patient hc) fun (r : Bool) w' hr => ?_
  rw [show w' = w.pending r from hr]
  exact hQ r

theorem wp_tlsRecv_lively (hc : c ≤ VC_PULL_TIME.toNat) (h : Lively c s w) (buf : Mem)
    (fds : FdSets) : (tlsRecv buf fds).wp line Patient (fun _ => Lively c) s w := by
  simp only [tlsRecv, Act.wp_bind, wp_getAttr, Act.wp_ite, Act.wp_pure, wp_modifyAttr]
  split
  · rename_i htls
    refine Act.wp_mono (wp_recvDesp_lively hc h htls.2 buf) fun _ s w hq => ?_
    have hsome : (s.ssl.map fun x => { x with recv := { x.recv with read := true } }).isSome =
        s.ssl.isSome := by simp
    have hq' : Lively c { s with ssl := s.ssl.map fun x =>
        { x with recv := { x.recv with read := true } } } w :=
      hq.of_eq ⟨rfl, hsome⟩ rfl rfl rfl rfl hq.calm.legal
    exact wp_sslPending_lively hq' (by omega) fun r => hq'.pending r
  · exact h

/-- What main keeps in `lrecv`. -/
def Tallied (lrecv : UInt32) (s : VcAttr) (w : Line) : Prop :=
  lrecv.toNat ≤ VC_PULL_TIME.toNat ∧ Lively lrecv.toNat s w

/-- The exception of the protocol timeout. -/
theorem wp_reset_lively (hc : c ≤ 2 * VC_PULL_TIME.toNat) (h : Lively c s w) (hsk : 0 ≤ s.sk) :
    (excpInit (call CALL_DEPTH)).wp line Patient (fun _ => Tallied 0) s w := by
  have hS : SILENCE = 3 * VC_PULL_TIME.toNat := rfl
  obtain ⟨st, top, -, hup⟩ := h.calm.up hsk
  exact Act.wp_mono ((quietFor_walk (by omega)).reset_down hup.raised h.quietFor) fun _ _ _ hq =>
    ⟨Nat.zero_le _, hq.1.lively hq.2⟩

theorem toNat_add_tick {lrecv used : UInt32} (hl : lrecv.toNat ≤ VC_PULL_TIME.toNat)
    (hu : used ≤ VC_PULL_TIME) : (Clock.tick used).toNat ≤ VC_PULL_TIME.toNat ∧
      (lrecv + Clock.tick used).toNat = lrecv.toNat + (Clock.tick used).toNat := by
  have hT : VC_PULL_TIME.toNat = 10000000 := rfl
  have hu' : used.toNat ≤ VC_PULL_TIME.toNat := hu
  have htick : (Clock.tick used).toNat ≤ VC_PULL_TIME.toNat := by
    rw [Clock.tick]
    split
    · exact hu'
    · decide
  refine ⟨htick, ?_⟩
  rw [UInt32.toNat_add]
  omega

theorem wp_protoTimeout_lively {lrecv used : UInt32} (hl : lrecv.toNat ≤ VC_PULL_TIME.toNat)
    (hu : used ≤ VC_PULL_TIME) (h : Lively (lrecv.toNat + (Clock.tick used).toNat) s w)
    (hsk : 0 ≤ s.sk) : (protoTimeout lrecv used).wp line Patient Tallied s w := by
  obtain ⟨htick, hadd⟩ := toNat_add_tick hl hu
  show (if lrecv + Clock.tick used > VC_PULL_TIME then
      (excpInit (call CALL_DEPTH) >>= fun _ => pure 0) else
      pure (lrecv + Clock.tick used) : M UInt32).wp line Patient Tallied s w
  rw [Act.wp_ite]
  split
  · rw [Act.wp_bind]
    exact wp_reset_lively (by omega) h hsk
  · rename_i hshort
    have hle : (lrecv + Clock.tick used).toNat ≤ VC_PULL_TIME.toNat := Nat.not_lt.mp hshort
    rw [← hadd] at h
    exact ⟨hle, h⟩

/-- After `select`, with the time it took still to be counted. -/
structure Woke (lrecv : UInt32) (r : SelRet) (zero : Bool) (s : VcAttr) (w : Line) : Prop where
  used : r.used ≤ VC_PULL_TIME
  counted : lrecv.toNat ≤ VC_PULL_TIME.toNat
  lively : Lively (if zero then lrecv.toNat else lrecv.toNat + (Clock.tick r.used).toNat) s w
  ready : (r.fds.skR || r.fds.skW) = true → QuietFor 0 s w

theorem Woke.bounded {lrecv : UInt32} {r : SelRet} {zero : Bool} (h : Woke lrecv r zero s w) :
    Lively (lrecv.toNat + (Clock.tick r.used).toNat) s w ∧
      lrecv.toNat + (Clock.tick r.used).toNat ≤ 2 * VC_PULL_TIME.toNat := by
  have htick := (toNat_add_tick h.counted h.used).1
  have hl := h.counted
  refine ⟨h.lively.mono ?_, by omega⟩
  split
  · exact Nat.le_add_right ..
  · exact Nat.le_refl _

theorem wp_checkSocket_lively {ls : LoopState} {r : SelRet} {zero : Bool}
    (h : Woke ls.lrecv r zero s w) :
    (checkSocket ls r zero).wp line Patient (fun ls => Tallied ls.lrecv) s w := by
  obtain ⟨hall, hmax⟩ := h.bounded
  simp only [checkSocket, Act.wp_bind, wp_getAttr, Act.wp_ite, Act.wp_pure]
  split
  · rename_i hneg
    refine ⟨h.counted, ?_⟩
    rcases hall.calm with hs | ⟨st, hs | hs⟩
    · exact hs.lively hall.quietFor
    · exact absurd hs.2.2.1 (Int.not_le.mpr hneg)
    · exact absurd hs.2.2.1 (Int.not_le.mpr hneg)
  rename_i hnonneg
  have hsk : 0 ≤ s.sk := Int.not_lt.mp hnonneg
  obtain ⟨st, top, htop, hup⟩ := hall.calm.up hsk
  have hrecv {w : Line} (hw : QuietFor 0 s w) : (vcRecvDesp ls.buf >>= fun buf => pure ⟨0, buf⟩ :
      M LoopState).wp line Patient (fun ls => Tallied ls.lrecv) s w := by
    have K₀ := quietFor_walk (Nat.zero_le SILENCE)
    rw [Act.wp_bind]
    refine Act.wp_mono (K₀.recvDesp_settled htop hup hw ls.buf) fun _ s w hq => ?_
    exact ⟨Nat.zero_le _, Or.inl hq⟩
  have htime {w : Line} (hw : Lively (ls.lrecv.toNat + (Clock.tick r.used).toNat) s w) :
      (protoTimeout ls.lrecv r.used >>= fun lrecv => pure { ls with lrecv := lrecv } :
      M LoopState).wp line Patient (fun ls => Tallied ls.lrecv) s w := by
    rw [Act.wp_bind]
    exact wp_protoTimeout_lively h.counted h.used hw hsk
  split
  · rename_i ssl hssl
    rw [Act.wp_bind]
    refine wp_sslPending_lively hall hmax fun pending => ?_
    simp only [Act.wp_ite]
    split
    · -- either `select` or OpenSSL has something for us
      rename_i hinvokes
      refine hrecv ?_
      cases pending with
      | true => exact hall.quietFor.alive
      | false =>
          refine h.ready ?_
          simp only [invokesRecv, Bool.false_and, Bool.or_false, Bool.or_eq_true,
            Bool.and_eq_true] at hinvokes
          rw [Bool.or_eq_true]
          exact hinvokes.imp And.left And.left
    split
    · rename_i hz
      have hsame := h.lively
      rw [if_pos hz] at hsame
      split
      · rename_i hlong
        exact absurd hlong (Nat.not_lt.mpr h.counted)
      · exact ⟨h.counted, hsame.pending pending⟩
    · exact htime (hall.pending pending)
  · rw [Act.wp_ite]
    split
    · rename_i hready
      exact hrecv (h.ready (by rw [hready, Bool.true_or]))
    · exact htime hall

theorem wp_checkRings_lively {lrecv : UInt32} (h : Tallied lrecv s w) (r : SelRet) :
    (checkRings r).wp line Patient (fun _ => Tallied lrecv) s w := by
  have hS : SILENCE = 3 * VC_PULL_TIME.toNat := rfl
  obtain ⟨hc, h⟩ := h
  rcases h with h | ⟨⟨st, h⟩, hw⟩
  · exact Act.wp_mono ((quietFor_walk (by omega)).checkRings_settled h.1 h.2 r) fun _ _ _ hq =>
      ⟨hc, Or.inl hq⟩
  · exact Act.wp_mono ((quietFor_walk (by omega)).checkRings_idle h hw r) fun _ _ _ hq =>
      ⟨hc, Or.inr ⟨⟨st, hq.1⟩, hq.2⟩⟩

/-- A `select` that ran to its end: the probe, or the end of the connection. -/
theorem wp_poll_lively {q : Nat} (hc : c ≤ VC_PULL_TIME.toNat) (hq : q ≤ SILENCE) (hs : Calm s)
    (hw : QuietFor q s w)
    (hfirst : (∀ st, ¬ Up st [.idle] s) → QuietFor (c + VC_PULL_TIME.toNat) s w) :
    (tryCall .poll).wp line Patient (fun _ => Lively c) s w := by
  have hS : SILENCE = 3 * VC_PULL_TIME.toNat := rfl
  rcases hs with hs | ⟨st, hs | hs⟩
  · exact Act.wp_of_done (tryCall_none hs.getLast rfl) (hs.lively hw)
  · have hnot : ∀ st', ¬ Up st' [.idle] s := by
      intro st' hidle
      have hstk := hs.2.1.symm.trans hidle.2.1
      simp at hstk
    have hpoll := (quietFor_walk (q := c + VC_PULL_TIME.toNat) (by omega)).upPoll_dormant (n := 8) hs
      (hfirst hnot)
    have hlively := Act.wp_mono hpoll fun _ _ _ hq => hq.1.lively hq.2
    have hlast := hs.getLast
    rcases hs.1 with rfl | rfl
    · exact Act.wp_of_eq (tryCall_apply hlast rfl) hlively
    · exact Act.wp_of_eq (tryCall_apply hlast rfl) hlively
  · refine Act.wp_of_eq (tryCall_apply hs.getLast_top rfl) ?_
    exact Act.wp_mono ((quietFor_walk hq).idlePoll_down hs hw) fun _ _ _ hq => hq.1.lively hq.2

theorem QuietFor.slept {q : Nat} (h : QuietFor q s w) (r : SelRet) (zero : Bool) :
    QuietFor (if zero then q else q + (Clock.tick r.used).toNat) s (w.slept r zero) := by
  by_cases hready : (r.fds.skR || r.fds.skW) = true
  · rw [Line.slept, if_pos hready]
    exact h.alive.mono (Nat.zero_le _)
  · rw [Line.slept, if_neg hready]
    cases zero with
    | true => exact h
    | false => exact ⟨h.up, fun hup => Nat.add_le_add_right (h.quiet hup) _⟩

theorem Tallied.slept {lrecv : UInt32} {r : SelRet} (h : Tallied lrecv s w)
    (hu : r.used ≤ VC_PULL_TIME) (zero : Bool) : Woke lrecv r zero s (w.slept r zero) := by
  refine ⟨hu, h.1, ?_, fun hready => ?_⟩
  · rcases h.2 with ⟨hs, hw⟩ | ⟨hs, hw⟩
    · exact Or.inl ⟨hs, hw.slept r zero⟩
    · refine Or.inr ⟨hs, (hw.slept r zero).mono ?_⟩
      split
      · exact Nat.le_refl _
      · omega
  · rw [Line.slept, if_pos hready]
    exact h.2.quietFor.alive

theorem wp_updAttr_woke {lrecv : UInt32} {r : SelRet} {zero : Bool} (h : Woke lrecv r zero s w) :
    vcBufUpdateAttr.wp line Patient (fun _ => Woke lrecv r zero) s w := by
  obtain ⟨hall, hmax⟩ := h.bounded
  simp only [vcBufUpdateAttr, Act.wp_bind]
  refine Act.wp_request_still (fun _ _ => id) (hall.patient hmax)
    fun (v : Option PortInfo) w' hr => ?_
  rw [show w' = w from hr.1]
  cases v with
  | none => exact h
  | some v =>
      refine ⟨h.used, h.counted, ?_, fun hready => (h.ready hready).near ⟨rfl, rfl⟩⟩
      exact h.lively.of_eq ⟨rfl, rfl⟩ rfl rfl rfl rfl (hr.2 v rfl)

theorem wp_waitAndServe_lively (ls : LoopState) (fds : FdSets) (zero : Bool)
    (h : Tallied ls.lrecv s w) :
    (waitAndServe ls fds zero).wp line Patient (fun ls => Tallied ls.lrecv) s w := by
  have hS : SILENCE = 3 * VC_PULL_TIME.toNat := rfl
  have hc := h.1
  have hserve {s : VcAttr} {w : Line} (r : SelRet) (h : Woke ls.lrecv r zero s w) :
      (do let ls ← checkSocket ls r zero
          checkRings r
          pure ls : M LoopState).wp line Patient (fun ls => Tallied ls.lrecv) s w := by
    simp only [Act.wp_bind, Act.wp_pure]
    exact Act.wp_mono (wp_checkSocket_lively h) fun ls s w hq => wp_checkRings_lively hq r
  simp only [waitAndServe, Act.wp_bind, Act.wp_ite, Act.wp_pure]
  refine Act.wp_request_still (fun _ _ => id) (h.2.patient (by omega)) fun (r : SelRet) w' hr => ?_
  obtain ⟨hu, hw⟩ := hr
  rw [show w' = w.slept r zero from hw]
  have hwoke := h.slept hu zero
  split
  · obtain ⟨hall, hmax⟩ := hwoke.bounded
    have htick := (toNat_add_tick hc hu).1
    refine Act.wp_mono (wp_poll_lively hc (by omega) hall.calm hall.quietFor fun hnot => ?_)
      fun _ _ _ hq => ⟨hc, hq⟩
    rcases hall with hall | hall
    · exact hall.2.mono (by omega)
    · obtain ⟨st, hidle⟩ := hall.1
      exact absurd hidle (hnot st)
  split
  · refine Act.wp_mono (wp_updAttr_woke hwoke) fun _ s w hq => ?_
    simpa only [Act.wp_bind, Act.wp_pure] using hserve r hq
  · simpa only [Act.wp_bind, Act.wp_pure] using hserve r hwoke

/-- Between two rounds, or after the last. -/
def Heard : Option LoopState → VcAttr → Line → Prop
  | some ls, s, w => Tallied ls.lrecv s w
  | none, s, w => Patient s w

theorem wp_iteration_lively (ls : LoopState) (h : Tallied ls.lrecv s w) :
    (iteration ls).wp line Patient Heard s w := by
  have hc := h.1
  simp only [iteration, Act.wp_bind, wp_getAttr]
  refine Act.wp_mono (wp_serveAttr_lively hc h.2) fun _ s w hq => ?_
  refine Act.wp_of_done (stkCurnt_done (List.getLast?_eq_some_getLast hq.calm.ne_nil)) ?_
  refine Act.wp_request_still (fun _ _ => id) (hq.patient (by omega))
    fun (r : Option Int) w' hr => ?_
  rw [show w' = w from hr]
  cases r with
  | none => exact hq.patient (by omega)
  | some v =>
      simp only [Act.wp_bind]
      refine Act.wp_mono (wp_tlsRecv_lively hc hq ls.buf _) fun r s w hq => ?_
      exact Act.wp_mono (wp_waitAndServe_lively { ls with buf := r.1 } r.2.1 r.2.2 ⟨hc, hq⟩)
        fun _ _ _ hq => hq

end

/-! ## Whole runs -/

/-- Before main makes its first connection. -/
def Line.start : Line := ⟨false, 0⟩

theorem run_heard {s₀ : VcAttr} (hfresh : Fresh s₀) (buf : Mem)
    {p : Proc VcSig VcAttr (Option LoopState)} {w : Line}
    (hreach : line.Reach iteration (mainStart buf s₀) Line.start p w) :
    p.wp line Patient Heard w := by
  have hstart : QuietFor 0 s₀.hung Line.start := ⟨by simp [Line.start, VcAttr.hung], by simp [Line.start]⟩
  have hsetup := (quietFor_speech (Nat.zero_le SILENCE)).ready hfresh hstart
  refine Env.Reach.wp (𝓔 := line) (fun _ _ _ _ _ hd => hd.elim)
    (fun ls _ _ hq => wp_iteration_lively ls hq) (Act.wp_mono (mainStart_settled hsetup) ?_) hreach
  rintro _ s w ⟨rfl, hs, hw⟩
  exact ⟨Nat.zero_le _, Or.inl ⟨hs, hw⟩⟩

/-- **A dead device is noticed.**  As long as `select` comes back in time, no connection is
ever quiet for more than three times `VC_PULL_TIME`.  Between two rounds `lrecv` is at most
one, and has counted the whole silence, except for one more while Idle is on the stack. -/
theorem silence_bounded {s₀ : VcAttr} (hfresh : Fresh s₀) (buf : Mem)
    {p : Proc VcSig VcAttr (Option LoopState)} {w : Line}
    (hreach : line.Reach iteration (mainStart buf s₀) Line.start p w) :
    (w.up = true → w.quiet ≤ 3 * VC_PULL_TIME.toNat) ∧
      ∀ ls s, p = .done (some ls) s → (w.up = true ↔ 0 ≤ s.sk) ∧
        ls.lrecv.toNat ≤ VC_PULL_TIME.toNat ∧
        (w.up = true → w.quiet ≤ ls.lrecv.toNat +
          if s.stk.getLast? = some .idle then VC_PULL_TIME.toNat else 0) := by
  have hwp := run_heard hfresh buf hreach
  refine ⟨?_, ?_⟩
  · cases p with
    | done ls s =>
        cases ls with
        | none => exact hwp
        | some ls =>
            have hle := hwp.1
            exact hwp.2.patient (by omega)
    | fault f => exact hwp.elim
    | pause s e k => exact hwp.pause
  · rintro ls s rfl
    obtain ⟨hle, hlively⟩ := hwp
    refine ⟨hlively.quietFor.up, hle, fun hup => ?_⟩
    rcases hlively with h | ⟨⟨st, h⟩, hw⟩
    · exact Nat.le_trans (h.2.quiet hup) (Nat.le_add_right ..)
    · rw [if_pos h.getLast_top]
      exact hw.quiet hup

/-- A device that takes every packet and never sends one.  The first `select` comes back at
the last moment because of the tty, and the next one does not. -/
def silentReply (w : Line) : (e : Req) → Option (e.Rep × Line)
  | .attrPtr => some (some { PortInfo.zero with isOpen := 1, baud := 9600, byte := 8 }, w)
  | .ioctl _ _ => some (some (0 : Int), w)
  | .connect => some ((3 : Int), ⟨true, 0⟩)
  | .fdcheck => some (true, w)
  | .send _ => some (true, w)
  | .close => some ((), { w with up := false })
  | .select _ zero =>
      let r : SelRet := if w.quiet = 0 then ⟨1, ⟨false, false, true, false, false⟩, VC_PULL_TIME⟩
        else ⟨0, ⟨false, false, false, false, false⟩, VC_PULL_TIME⟩
      some (r, w.slept r zero)
  | _ => none

theorem silentReply_legal {w : Line} {e : Req} {r : e.Rep} {w' : Line}
    (h : silentReply w e = some (r, w')) : line.answers w e r w' := by
  cases e with
  | attrPtr =>
      cases h
      refine ⟨rfl, fun v hv => ?_⟩
      cases hv
      exact Or.inr rfl
  | select fds zero =>
      cases h
      refine ⟨?_, rfl⟩
      split
      · exact Nat.le_refl _
      · exact Nat.le_refl _
  | ioctl | connect | fdcheck | send | close =>
      cases h
      rfl
  | _ => cases h

def silentRun (n : Nat) : Option (Option LoopState × VcAttr × Line) :=
  ((mainStart (fun _ => 0) freshAttr).bind (rounds iteration n)).exec silentReply Line.start

/-- After two rounds the bound is reached, after three the connection is gone. -/
theorem silentRun_quiet :
    (silentRun 2).map (fun r => (r.1.map LoopState.lrecv, r.2.2)) =
        some (some VC_PULL_TIME, ⟨true, 20000000⟩) ∧
      (silentRun 3).map (fun r => r.2.2.up) = some false := by
  decide +kernel

theorem silence_bounded_silent : Fresh freshAttr ∧
    ∃ ls s w, line.Reach iteration (mainStart (fun _ => 0) freshAttr) Line.start (.done (some ls) s) w ∧
      w.up = true ∧ w.quiet = 20000000 ∧ s.stk.getLast? = some .idle := by
  have hfresh : Fresh freshAttr := ⟨rfl, rfl, Or.inl rfl⟩
  obtain ⟨⟨ls, s, w⟩, hrun, hquiet⟩ := Option.map_eq_some_iff.mp silentRun_quiet.1
  have hreach := Env.Reach.rounds (𝓔 := line) silentReply_legal 2 .start hrun
  simp only [Prod.mk.injEq] at hquiet
  obtain ⟨hls, rfl⟩ := hquiet
  obtain ⟨ls, rfl, hlrecv⟩ := Option.map_eq_some_iff.mp hls
  refine ⟨hfresh, ls, s, _, hreach, rfl, rfl, ?_⟩
  -- with `lrecv` at its limit, only Idle explains the rest
  have hbound := ((silence_bounded hfresh _ hreach).2 ls s rfl).2.2 rfl
  rw [hlrecv] at hbound
  split at hbound
  · assumption
  · exact absurd hbound (by decide)

end AdvVcom
