/-
# `AdvVcom.Daemon.Rounds` — whole runs of the daemon

The walk of `Walk` carried through main: every part of a round takes a calm daemon
with the invariant to a calm daemon with the invariant.

**Proved here**, for every environment and every invariant with a `Walk`:

    one round                              (`Walk.round`)
    every configuration of every run        (`Walk.run_turns`, `Walk.run`)

A walk is about the handlers; what main itself does around the wait is in `Turns`, with
an assertion of its own for each stage, or in `Endures` if the invariant does not mind.
`run` says three things of a reachable configuration: the daemon is not dead, a pause
shows `I`, and between two rounds the daemon is calm and has `J`.
-/
import AdvVcom.Daemon.Walk

namespace AdvVcom

open Lib

section
variable {𝓔 : Env VcSig VcAttr} {I J S B : VcAttr → 𝓔.World → Prop}
  {H : Mem → Nat → VcAttr → 𝓔.World → Prop} (K : Walk 𝓔 I J S B H)
  {s : VcAttr} {w : 𝓔.World} {st : St} {top : List St}

theorem Down.getLast (h : Down s) : s.stk.getLast? = some .netdown := by simp [h.1]

theorem Calm.of_eq {s' : VcAttr} (h : Calm s) (hstk : s'.stk = s.stk) (hsk : s'.sk = s.sk)
    (htid : s'.tid = s.tid) (hpend : s'.xmitPending = s.xmitPending) (heki : s'.eki = s.eki)
    (hview : Legal s') : Calm s' := by
  rcases h with h | ⟨st, h | h⟩
  · obtain ⟨h₁, h₂, h₃, h₄, h₅, _⟩ := h
    exact Or.inl ⟨hstk.trans h₁, hsk.trans h₂, htid.trans h₃, hpend.trans h₄, heki.trans h₅, hview⟩
  · exact Or.inr ⟨st, Or.inl (h.of_eq hstk hsk (by rw [heki]) hview)⟩
  · exact Or.inr ⟨st, Or.inr (h.of_eq hstk hsk (by rw [heki]) hview)⟩

theorem Calm.legal (h : Calm s) : Legal s := by
  rcases h with h | ⟨st, h | h⟩
  · exact h.2.2.2.2.2
  · exact h.2.2.2.2
  · exact h.2.2.2.2

/-- With a socket, the daemon is up. -/
theorem Calm.up (h : Calm s) (hsk : 0 ≤ s.sk) : ∃ st top, (top = [] ∨ top = [.idle]) ∧ Up st top s := by
  rcases h with h | ⟨st, h | h⟩
  · have := h.2.1
    omega
  · exact ⟨st, [], Or.inl rfl, h⟩
  · exact ⟨st, [.idle], Or.inr rfl, h⟩

include K

/-! ## Before the wait -/

theorem Walk.checkOpen_settled (h : Calm s) (hj : J s w) :
    checkOpen.wp 𝓔 I (Settled J) s w := by
  simp only [checkOpen, Act.wp_bind, wp_getAttr, Act.wp_ite, Act.wp_pure]
  split
  · rename_i hne
    rcases h with h | ⟨st, h | h⟩
    · -- Net Down has `is_open` 0, so this is an open
      have heki : s.eki.isOpen = 0 := by rw [h.2.2.2.2.1]; rfl
      have hopen : s.view.isOpen ≠ 0 := by rw [← heki]; exact hne
      rw [if_pos hopen]
      exact Act.wp_of_eq (call_apply h.getLast rfl)
        (K.netdownOpen h hj (h.2.2.2.2.2.resolve_left hopen))
    · have hview : s.view.isOpen = 0 := by
        rcases h.2.2.2.2 with hv | hv
        · exact hv
        · exact absurd (hv.trans h.2.2.2.1.symm) hne
      rw [if_neg (by simp [hview])]
      have hclose := K.upClose_settled (n := 8) h hj hview
      have hlast := h.getLast
      rcases h.1 with rfl | rfl
      · exact Act.wp_of_eq (call_apply hlast rfl) hclose
      · exact Act.wp_of_eq (call_apply hlast rfl) hclose
    · have hview : s.view.isOpen = 0 := by
        rcases h.2.2.2.2 with hv | hv
        · exact hv
        · exact absurd (hv.trans h.2.2.2.1.symm) hne
      rw [if_neg (by simp [hview])]
      exact Act.wp_of_eq (call_apply h.getLast_top rfl) (K.upClose_settled h hj hview)
  · exact ⟨h, hj⟩

omit K in
/-- An operation that only Net Up and Pause have. -/
theorem tryCall_up {op : Op} (h : Calm s) (hj : J s w)
    (hdown : vcNetdownOps (call CALL_DEPTH) op = none) (hidle : vcIdleOps (call CALL_DEPTH) op = none)
    (hup : ∀ st, Up st [] s → (tryCall op).wp 𝓔 I (Settled J) s w) :
    (tryCall op).wp 𝓔 I (Settled J) s w := by
  rcases h with h | ⟨st, h | h⟩
  · exact Act.wp_of_done (tryCall_none h.getLast hdown) ⟨Or.inl h, hj⟩
  · exact hup st h
  · exact Act.wp_of_done (tryCall_none h.getLast_top hidle) ⟨Or.inr ⟨st, Or.inr h⟩, hj⟩

theorem Walk.checkSettings_settled (h : Calm s) (hj : J s w) :
    checkSettings.wp 𝓔 I (Settled J) s w := by
  simp only [checkSettings, Act.wp_bind, wp_getAttr, Act.wp_ite, Act.wp_pure]
  split
  · refine tryCall_up h hj rfl rfl fun st hup => ?_
    have hloop := K.ioctlLoop_settled (n := 9) 15 hup hj
    have hlast := hup.getLast
    rcases hup.1 with rfl | rfl
    · exact Act.wp_of_eq (tryCall_apply hlast rfl) hloop
    · exact Act.wp_of_eq (tryCall_apply hlast rfl) hloop
  · exact ⟨h, hj⟩

theorem Walk.checkXmit_settled (h : Calm s) (hj : J s w) :
    checkXmit.wp 𝓔 I (Settled J) s w := by
  simp only [checkXmit, Act.wp_bind, wp_getAttr, Act.wp_ite, Act.wp_pure]
  split
  · rename_i hpend
    split
    · rename_i hrx
      refine tryCall_up h hj rfl rfl fun st hup => ?_
      have hxmit := K.commonXmit (n := 9) hup hj hpend (by simpa using hrx)
      have hlast := hup.getLast
      rcases hup.1 with rfl | rfl
      · exact Act.wp_of_eq (tryCall_apply hlast rfl) hxmit
      · exact Act.wp_of_eq (tryCall_apply hlast rfl) hxmit
    · exact ⟨h, hj⟩
  · exact ⟨h, hj⟩

theorem Walk.checkPause_settled (h : Calm s) (hj : J s w) :
    checkPause.wp 𝓔 I (Settled J) s w := by
  simp only [checkPause, Act.wp_bind, wp_getAttr, Act.wp_ite, Act.wp_pure]
  split
  · refine tryCall_up h hj rfl rfl fun st hup => ?_
    have hlast := hup.getLast
    rcases hup.1 with rfl | rfl
    · exact Act.wp_of_eq (tryCall_apply hlast rfl) (K.netupPause hup hj)
    · exact Act.wp_of_done (tryCall_none hlast rfl) ⟨h, hj⟩
  · exact ⟨h, hj⟩

theorem Walk.serveAttr_settled (h : Calm s) (hj : J s w) :
    serveAttr.wp 𝓔 I (Settled J) s w := by
  simp only [serveAttr, Act.wp_bind]
  refine Act.wp_mono (K.checkOpen_settled h hj) fun _ s w hq => ?_
  refine Act.wp_mono (K.checkSettings_settled hq.1 hq.2) fun _ s w hq => ?_
  refine Act.wp_mono (K.checkXmit_settled hq.1 hq.2) fun _ s w hq => ?_
  exact K.checkPause_settled hq.1 hq.2

/-! ## Receiving -/

theorem Walk.dispatch_settled {r : Outcome × Mem} (htop : top = [] ∨ top = [.idle])
    (h : Came I J B H st top r s w) : (dispatch r.2 r.1).wp 𝓔 I (Settled J) s w := by
  obtain ⟨outcome, buf⟩ := r
  cases outcome with
  | select =>
      obtain ⟨hup, hj⟩ := h
      refine Act.wp_of_done (retCurnt_done hup.raised.ne_nil) ⟨Or.inr ⟨st, ?_⟩, hj⟩
      rcases htop with rfl | rfl
      · exact Or.inl hup
      · exact Or.inr hup
  | reset => exact K.reset h.1 h.2
  | frame len =>
      obtain ⟨hlo, hhi, hup, hhand⟩ := h
      rcases htop with rfl | rfl
      · rw [← hup.2.1] at hhand
        have hrecv := K.upRecv (n := 8) hlo hhi hhand
        have hlast := hup.getLast
        rcases hup.1 with rfl | rfl
        · exact Act.wp_of_eq (tryCall_apply hlast rfl) hrecv
        · exact Act.wp_of_eq (tryCall_apply hlast rfl) hrecv
      · -- Idle steps aside and passes the frame on
        refine Act.wp_of_eq (tryCall_apply hup.getLast_top rfl) ?_
        simp only [vcIdleRecv, Act.wp_bind]
        refine Act.wp_of_done (stkPop_done hup.raised.ne_nil) ?_
        rw [hup.2.1]
        have hrecv := K.upRecv (n := 7) hlo hhi hhand
        have hlast : ([.netdown, st] : List St).getLast? = some st := rfl
        rcases hup.1 with rfl | rfl
        · exact Act.wp_of_eq (call_apply hlast rfl) hrecv
        · exact Act.wp_of_eq (call_apply hlast rfl) hrecv

theorem Walk.recvDesp_settled (htop : top = [] ∨ top = [.idle]) (h : Up st top s) (hj : J s w)
    (buf : Mem) : (vcRecvDesp buf).wp 𝓔 I (Settled J) s w := by
  simp only [vcRecvDesp, Act.wp_bind]
  refine Act.wp_mono (K.received buf h hj).wp fun r s w hr => ?_
  refine Act.wp_mono (K.dispatch_settled htop hr) fun _ s w hq => ?_
  exact hq

/-- `J` during the attempt, if there is one, and `D` after it. -/
theorem Walk.tlsRecv_settled {D : VcAttr → 𝓔.World → Prop}
    (hasked : ∀ {s w w'} {more : Bool}, J s w → 𝓔.answers w .sslPending more w' → D s w')
    (h : Calm s) (hj : if s.ssl.isSome ∧ s.sk ≥ 0 then J s w else D s w) (buf : Mem) (fds : FdSets) :
    (tlsRecv buf fds).wp 𝓔 I (Settled D) s w := by
  simp only [tlsRecv, Act.wp_bind, wp_getAttr, Act.wp_ite, Act.wp_pure]
  split
  · rename_i htls
    rw [if_pos htls] at hj
    obtain ⟨st, top, htop, hup⟩ := h.up htls.2
    refine Act.wp_mono (K.recvDesp_settled htop hup hj buf) fun _ s w hq => ?_
    have hsome : (s.ssl.map fun x => { x with recv := { x.recv with read := true } }).isSome =
        s.ssl.isSome := by simp
    simp only [wp_modifyAttr]
    refine K.lastsJ.wp_request K.pauseJ (e := .sslPending)
      (K.lastsJ.ssl hq.2 _ hsome) fun _ w₁ w₂ hj₁ hr => ?_
    exact ⟨hq.1.of_eq rfl rfl rfl rfl rfl hq.1.legal, hasked hj₁ hr⟩
  · rename_i hno
    rw [if_neg hno] at hj
    exact ⟨h, hj⟩

/-! ## After the wait -/

theorem Walk.protoTimeout_settled (htop : top = [] ∨ top = [.idle]) (h : Up st top s) (hj : J s w)
    (lrecv used : UInt32) : (protoTimeout lrecv used).wp 𝓔 I (Settled J) s w := by
  have hcalm : Calm s := by
    rcases htop with rfl | rfl
    · exact Or.inr ⟨st, Or.inl h⟩
    · exact Or.inr ⟨st, Or.inr h⟩
  simp only [protoTimeout]
  generalize lrecv + (if used > 0 then used else 1) = lrecv'
  simp only [Act.wp_ite, Act.wp_bind, Act.wp_pure]
  split
  · exact Act.wp_mono (K.reset h.raised (K.weakJ _ _ hj)) fun _ s w hq => hq
  · exact ⟨hcalm, hj⟩

theorem Walk.checkSocket_settled
    (hasked : ∀ {s w w'} {more : Bool}, 0 ≤ s.sk → J s w → 𝓔.answers w .sslPending more w' → J s w')
    (h : Calm s) (hj : J s w) (ls : LoopState) (r : SelRet) (zero : Bool) : (checkSocket ls r zero).wp 𝓔 I (Settled J) s w := by
  simp only [checkSocket, Act.wp_bind, wp_getAttr, Act.wp_ite, Act.wp_pure]
  split
  · exact ⟨h, hj⟩
  rename_i hsk
  obtain ⟨st, top, htop, hup⟩ := h.up (Int.not_lt.mp hsk)
  have hrecv (w) (hj : J s w) : (vcRecvDesp ls.buf >>= fun buf => pure ⟨0, buf⟩ : M LoopState).wp 𝓔 I
      (Settled J) s w := by
    rw [Act.wp_bind]
    exact Act.wp_mono (K.recvDesp_settled htop hup hj ls.buf) fun _ s w hq => hq
  have htime (w) (hj : J s w) : (protoTimeout ls.lrecv r.used >>= fun lrecv =>
      pure { ls with lrecv := lrecv } : M LoopState).wp 𝓔 I (Settled J) s w := by
    rw [Act.wp_bind]
    exact Act.wp_mono (K.protoTimeout_settled htop hup hj _ _) fun _ s w hq => hq
  split
  · rw [Act.wp_bind]
    refine K.lastsJ.wp_request K.pauseJ (e := .sslPending) hj fun pending w₀ w₁ hj₀ hr => ?_
    have hj₁ := hasked (Int.not_lt.mp hsk) hj₀ hr
    simp only [Act.wp_ite]
    split
    · exact hrecv w₁ hj₁
    split
    · split
      · rw [Act.wp_bind]
        exact Act.wp_mono (K.reset hup.raised (K.weakJ _ _ hj₁)) fun _ s w hq => hq
      · exact ⟨h, hj₁⟩
    · exact htime w₁ hj₁
  · rw [Act.wp_ite]
    split
    · exact hrecv w hj
    · exact htime w hj

theorem Walk.updRx_settled (h : Calm s) (hj : J s w) : vcBufUpdateRx.wp 𝓔 I (Settled J) s w := by
  refine Act.wp_mono (K.updRx h hj).wp ?_
  rintro _ _ w ⟨⟨rx, rfl⟩, hj⟩
  exact ⟨h.of_eq rfl rfl rfl rfl rfl h.legal, hj⟩

theorem Walk.updTx_settled (h : Calm s) (hj : J s w) : vcBufUpdateTx.wp 𝓔 I (Settled J) s w := by
  refine Act.wp_mono (K.updTx h hj).wp ?_
  rintro _ _ w ⟨⟨tx, rfl⟩, hj⟩
  exact ⟨h.of_eq rfl rfl rfl rfl rfl h.legal, hj⟩

theorem Walk.updAttr_settled (h : Calm s) (hj : J s w) :
    vcBufUpdateAttr.wp 𝓔 I (Settled J) s w := by
  refine Act.wp_mono (K.updAttr h hj).wp ?_
  rintro _ _ w ⟨⟨v, rfl⟩, hlegal, hj⟩
  exact ⟨h.of_eq rfl rfl rfl rfl rfl hlegal, hj⟩

theorem Walk.tryCall_resume (h : Calm s) (hj : J s w) :
    (tryCall .resume).wp 𝓔 I (Settled J) s w := by
  refine tryCall_up h hj rfl rfl fun st hup => ?_
  have hlast := hup.getLast
  rcases hup.1 with rfl | rfl
  · exact Act.wp_of_done (tryCall_none hlast rfl) ⟨h, hj⟩
  · exact Act.wp_of_eq (tryCall_apply hlast rfl) (K.pauseResume hup hj)

theorem Walk.tryCall_poll (h : Calm s) (hj : J s w) :
    (tryCall .poll).wp 𝓔 I (Settled J) s w := by
  rcases h with h | ⟨st, h | h⟩
  · exact Act.wp_of_done (tryCall_none h.getLast rfl) ⟨Or.inl h, hj⟩
  · have hpoll := K.upPoll_settled (n := 8) h hj
    have hlast := h.getLast
    rcases h.1 with rfl | rfl
    · exact Act.wp_of_eq (tryCall_apply hlast rfl) hpoll
    · exact Act.wp_of_eq (tryCall_apply hlast rfl) hpoll
  · exact Act.wp_of_eq (tryCall_apply h.getLast_top rfl) (K.idlePoll h hj)

theorem Walk.checkRings_settled (h : Calm s) (hj : J s w) (r : SelRet) :
    (checkRings r).wp 𝓔 I (Settled J) s w := by
  have htx {s : VcAttr} {w : 𝓔.World} (h : Calm s) (hj : J s w) :
      (do vcBufUpdateTx
          tryCall .resume : M Unit).wp 𝓔 I (Settled J) s w := by
    rw [Act.wp_bind]
    exact Act.wp_mono (K.updTx_settled h hj) fun _ s w hq => K.tryCall_resume hq.1 hq.2
  simp only [checkRings, Act.wp_bind, Act.wp_ite, Act.wp_pure]
  split
  · refine Act.wp_mono (K.updRx_settled h hj) fun _ s w hq => ?_
    split
    · simpa only [Act.wp_bind] using htx hq.1 hq.2
    · exact hq
  · split
    · simpa only [Act.wp_bind] using htx h hj
    · exact ⟨h, hj⟩

/-- Main's own requests in a round: it asks for interrupts; over TLS, with a socket, it tries
to receive and ends the attempt with `SSL_pending`; it waits.  `A` holds during the
attempt, `D` from there to the end of the wait, and `J` the rest of the time. -/
structure Turns (𝓔 : Env VcSig VcAttr) (J A D : VcAttr → 𝓔.World → Prop) : Prop where
  holds : Holds 𝓔 D
  armed : ∀ {s w w' n} {v : Int}, J s w → 𝓔.answers w (.ioctl .sInter n) (some v) w' →
    if s.ssl.isSome ∧ s.sk ≥ 0 then A s w' else D s w'
  unarmed : ∀ {s w w' n}, J s w → 𝓔.answers w (.ioctl .sInter n) (none : Option Int) w' → J s w'
  tried : ∀ {s w w'} {more : Bool}, A s w → 𝓔.answers w .sslPending more w' → D s w'
  waited : ∀ {s w w' fds zero} {r : SelRet}, D s w → 𝓔.answers w (.select fds zero) r w' → J s w'
  asked : ∀ {s w w'} {more : Bool}, 0 ≤ s.sk → J s w → 𝓔.answers w .sslPending more w' → J s w'

/-- An assertion that survives them all. -/
structure Endures (𝓔 : Env VcSig VcAttr) (P : VcAttr → 𝓔.World → Prop) : Prop where
  armed : ∀ {s w w' n} {r : Option Int}, P s w → 𝓔.answers w (.ioctl .sInter n) r w' → P s w'
  asked : ∀ {s w w'} {more : Bool}, P s w → 𝓔.answers w .sslPending more w' → P s w'
  waited : ∀ {s w w' fds zero} {r : SelRet}, P s w → 𝓔.answers w (.select fds zero) r w' → P s w'

omit K in
theorem Endures.turns (h : Endures 𝓔 J) (hJ : Holds 𝓔 J) : Turns 𝓔 J J J where
  holds := hJ
  armed := by
    intro s w w' n v hj hr
    split
    · exact h.armed hj hr
    · exact h.armed hj hr
  unarmed := h.armed
  tried := h.asked
  waited := h.waited
  asked := fun _ => h.asked

variable {A D S' B' : VcAttr → 𝓔.World → Prop} {H' : Mem → Nat → VcAttr → 𝓔.World → Prop}

theorem Walk.waitAndServe_settled (T : Turns 𝓔 J A D) (hDI : ∀ s w, D s w → I s w) (h : Calm s)
    (hd : D s w) (ls : LoopState) (fds : FdSets) (zero : Bool) :
    (waitAndServe ls fds zero).wp 𝓔 I (Settled J) s w := by
  have hserve {s : VcAttr} {w : 𝓔.World} (r : SelRet) (h : Calm s) (hj : J s w) :
      (do let ls ← checkSocket ls r zero
          checkRings r
          pure ls : M LoopState).wp 𝓔 I (Settled J) s w := by
    simp only [Act.wp_bind, Act.wp_pure]
    refine Act.wp_mono (K.checkSocket_settled T.asked h hj ls r zero) fun _ s w hq => ?_
    exact Act.wp_mono (K.checkRings_settled hq.1 hq.2 r) fun _ s w hq => hq
  simp only [waitAndServe, Act.wp_bind, Act.wp_ite]
  refine T.holds.wp_request hDI hd fun (r : SelRet) w₀ w₁ hd₀ hr => ?_
  have hj₁ := T.waited hd₀ hr
  split
  · exact Act.wp_mono (K.tryCall_poll h hj₁) fun _ s w hq => hq
  split
  · refine Act.wp_mono (K.updAttr_settled h hj₁) fun _ s w hq => ?_
    simpa only [Act.wp_bind] using hserve r hq.1 hq.2
  · simpa only [Act.wp_bind] using hserve r h hj₁

/-- **One round.** -/
theorem Walk.round (K' : Walk 𝓔 I A S' B' H') (T : Turns 𝓔 J A D) (hDI : ∀ s w, D s w → I s w)
    (h : Calm s) (hj : J s w) (ls : LoopState) : (iteration ls).wp 𝓔 I (Settled J) s w := by
  simp only [iteration, Act.wp_bind, wp_getAttr]
  refine Act.wp_mono (K.serveAttr_settled h hj) fun _ s w hq => ?_
  obtain ⟨h, hj⟩ := hq
  refine Act.wp_of_done (stkCurnt_done (List.getLast?_eq_some_getLast h.ne_nil)) ?_
  refine K.lastsJ.wp_request K.pauseJ (e := .ioctl .sInter _) hj
    fun (r : Option Int) w₀ w₁ hj₀ hr => ?_
  cases r with
  | none => exact ⟨h, T.unarmed hj₀ hr⟩
  | some v =>
      simp only [Act.wp_bind]
      refine Act.wp_mono (K'.tlsRecv_settled T.tried h (T.armed hj₀ hr) ls.buf _) fun r s w hq => ?_
      exact Act.wp_mono (K.waitAndServe_settled T hDI hq.1 hq.2 _ _ _) fun _ s w hq => hq

/-! ## Whole runs -/

/-- The variables when main starts: an empty stack and no socket. -/
def Fresh (s : VcAttr) : Prop := s.stk = [] ∧ s.sk = -1 ∧ Legal s

/-- `main` before its first handler. -/
def setup : M Unit := do
  vcBufSetupTx
  vcBufSetupRx
  vcBufSetupAttr

/-- What the set-up has to leave behind. -/
def Ready (J : VcAttr → 𝓔.World → Prop) (s : VcAttr) (w : 𝓔.World) : Prop :=
  s.stk = [] ∧ s.sk = -1 ∧ Legal s ∧ J s.hung w

omit K in
theorem mainStart_settled {buf : Mem}
    (h : setup.wp 𝓔 I (fun _ s w => Ready J s w) s w) :
    (mainStart buf).wp 𝓔 I (fun ls s w => ls = some ⟨0, buf⟩ ∧ Calm s ∧ J s w) s w := by
  have hrest {s : VcAttr} {w : 𝓔.World} (hr : Ready J s w) :
      (do stkPush .netdown
          call CALL_DEPTH .init
          pure (some ⟨0, buf⟩) : M (Option LoopState)).wp 𝓔 I
        (fun ls s w => ls = some ⟨0, buf⟩ ∧ Calm s ∧ J s w) s w := by
    obtain ⟨hstk, hsk, hlegal, hj⟩ := hr
    simp only [Act.wp_bind, Act.wp_pure]
    refine Act.wp_of_done (stkPush_done (by simp [hstk, STACK_MAX])) ?_
    have hlast : (s.stk ++ [St.netdown]).getLast? = some .netdown := by simp
    refine Act.wp_of_eq (call_apply hlast rfl) ?_
    -- there is no socket yet, so only the variables are reset
    simp only [vcNetdownInit, hangUp, Act.wp_bind, wp_getAttr, Act.wp_ite, wp_modifyAttr, Act.wp_pure]
    rw [if_neg (by omega)]
    have hhung : { s with stk := s.stk ++ [.netdown], tid := 0, xmitPending := 0, eki := ekiReset } =
        s.hung := by simp [VcAttr.hung, hstk, hsk]
    rw [hhung]
    exact ⟨trivial, Or.inl ⟨rfl, rfl, rfl, rfl, rfl, hlegal⟩, hj⟩
  simp only [setup, Act.wp_bind] at h
  simp only [mainStart, Act.wp_bind]
  refine Act.wp_mono h fun _ s w h => Act.wp_mono h fun _ s w h => Act.wp_mono h fun _ s w hr => ?_
  simpa only [Act.wp_bind, Act.wp_pure] using hrest hr

/-- **Every configuration of every run.** -/
theorem Walk.run_turns (K' : Walk 𝓔 I A S' B' H') (T : Turns 𝓔 J A D) (hDI : ∀ s w, D s w → I s w)
    {s₀ : VcAttr} {w₀ : 𝓔.World} {buf : Mem} (hstart : setup.wp 𝓔 I (fun _ s w => Ready J s w) s₀ w₀)
    {p : Proc VcSig VcAttr (Option LoopState)} {w : 𝓔.World}
    (hreach : 𝓔.Reach iteration (mainStart buf s₀) w₀ p w) : p.wp 𝓔 I (Settled J) w :=
  hreach.wp (fun _ _ _ _ hq hd => ⟨hq.1, K.lastsJ.drift hq.2 hd⟩)
    (fun ls _ _ hq => K.round K' T hDI hq.1 hq.2 ls)
    (Act.wp_mono (mainStart_settled hstart) fun _ _ _ hq => hq.2)

theorem Walk.run (hwaits : Endures 𝓔 J) {s₀ : VcAttr} {w₀ : 𝓔.World} {buf : Mem}
    (hstart : setup.wp 𝓔 I (fun _ s w => Ready J s w) s₀ w₀)
    {p : Proc VcSig VcAttr (Option LoopState)} {w : 𝓔.World}
    (hreach : 𝓔.Reach iteration (mainStart buf s₀) w₀ p w) : p.wp 𝓔 I (Settled J) w :=
  K.run_turns K (hwaits.turns K.lastsJ.toHolds) K.pauseJ hstart hreach

omit K in
theorem Keeps.run (K : Keeps 𝓔 I J S B H) {s₀ : VcAttr} {w₀ : 𝓔.World} {buf : Mem}
    (hstart : setup.wp 𝓔 I (fun _ s w => Ready J s w) s₀ w₀)
    {p : Proc VcSig VcAttr (Option LoopState)} {w : 𝓔.World}
    (hreach : 𝓔.Reach iteration (mainStart buf s₀) w₀ p w) : p.wp 𝓔 I (Settled J) w :=
  K.walk.run
    { armed := fun hj hr => K.stableJ.quiet (e := .ioctl .sInter _) (Or.inl rfl) hj hr
      asked := fun hj hr => K.stableJ.quiet (e := .sslPending) trivial hj hr
      waited := fun hj hr => K.stableJ.quiet (e := .select _ _) trivial hj hr } hstart hreach

end

end AdvVcom
