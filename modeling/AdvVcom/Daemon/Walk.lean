/-
# `AdvVcom.Daemon.Walk` — the walk through the handlers

`Keeps` is for invariants that look neither at the stack nor at the TLS object.  `Walk`
asks for less: the invariant may depend on which connected state is in force (position 1
of the stack) and on the TLS object, and then has to say itself what it makes of the
steps that change them:

    `dialed`      the TLS object is made, on a new socket
    `hangs`       it is freed, and the socket closed
    `chosen`      Net Up or Pause goes on the stack
    `requeued`    one replaces the other, after a queue size has been sent
    `replied`     Sync's answer to one of the three replies it waits for

Every handler is walked through once, for any `Walk`; a `Keeps` is one (`Keeps.walk`).
-/
import AdvVcom.Daemon.Keeps

namespace AdvVcom

open Lib

/-- The connected state that `vc_netdown_open` chooses. -/
def upState (tx : RingBuf) : St := if isRbEmpty tx then .netup else .pause

/-- A successful reply to one of the requests that Sync looks after. -/
def ForSync (buf : Mem) : Prop :=
  hdrCmd buf = VCOM_CMD_IOCTL ∧ attachP1 buf = STATUS_SUCCESS ∧
    (attachP2 buf = VCOM_IOCTL_WAIT_ON_MASK ∨ attachP2 buf = VCOM_IOCTL_GET_MODEMSTATUS ∨
      attachP2 buf = VCOM_IOCTL_SET_WAIT_MASK)

/-- `st` gives way to `st'` when the queue size `n` has been sent. -/
def Requeues (st : St) (n : Int) (st' : St) : Prop :=
  st = .netup ∧ n = 0 ∧ st' = .pause ∨ st = .pause ∧ n = 1024 ∧ st' = .netup

def Pkt.IsCreate : Pkt → Prop
  | .open _ _ _ => True
  | _ => False

/-- WRITE, QUEUEFREE and the IOCTLs except PURGE. -/
def Pkt.Running : Pkt → Prop
  | .xmit _ _ | .qfsize _ _ | .sbaud _ _ | .setlctl _ _ _ _ | .hflow _ _ _ | .setwmask _ _
  | .param _ _ => True
  | _ => False

/-- What may be sent next, between two handlers. -/
def Due (s : VcAttr) (p : Pkt) : Prop :=
  s.eki.isOpen = 0 ∧ p.IsCreate ∨ s.eki.isOpen = 1 ∧ p.Running

structure Walk (𝓔 : Env VcSig VcAttr) (I J S B : VcAttr → 𝓔.World → Prop)
    (H : Mem → Nat → VcAttr → 𝓔.World → Prop) : Prop where
  lastsJ : Lasts 𝓔 J
  lastsS : Lasts 𝓔 S
  lastsB : Lasts 𝓔 B
  baseB : ∀ {s w}, B s w → ∀ l, B { s with stk := l } w
  baseH : ∀ {buf len s w}, H buf len s w → ∀ l, l[1]? = s.stk[1]? → H buf len { s with stk := l } w
  weakJ : ∀ s w, J s w → B s w
  weakS : ∀ s w, S s w → B s w
  pause : ∀ s w, B s w → I s w
  -- the connection comes and goes
  hangs : ∀ {s w}, s.stk = [.netdown] → Raised s → B s w →
    hangUp.Meets 𝓔 I (fun _ s' w' => s' = { s with sk := -1 } ∧ J s.hung w') s w
  refused : ∀ {s w w'} {r : Int}, Down s → J s w → 𝓔.answers w Req.connect r w' → r < 0 → J s w'
  dialed : ∀ {s w w'} {r : Int}, Down s → s.view.isOpen = 1 → J s w →
    𝓔.answers w Req.connect r w' → 0 ≤ r →
    sslOpen.Meets 𝓔 I (fun ok s' w' => Dialing [] s' ∧ if ok then J s' w' else B s' w')
      { s with sk := r } w'
  chosen : ∀ {s w}, Dialing [] s → J s w → J { s with stk := [.netdown, upState s.tx] } w
  opened : ∀ {st s w w'}, Dialing [st] s → st = upState s.tx → J s w →
    Sends 𝓔 w [.open 1 s.devid s.port] true w' →
    S { s with tid := s.tid + 1, eki := { s.eki with isOpen := 1 } } w'
  -- sends
  unready : ∀ {s w w'}, J s w → 0 ≤ s.sk → 𝓔.answers w .fdcheck false w' → B s w'
  unsent : ∀ {s w w' p}, Raised s → J s w → Due s p → Sends 𝓔 w [p] false w' → B s w'
  probed : ∀ {st s w w'}, Up st [.idle] s → J s w →
    Sends 𝓔 w [.param s.tid VCOM_IOCTL_GET_WAIT_MASK] true w' → J { s with tid := s.tid + 1 } w'
  requeued : ∀ {st st' s w w' n}, Up st [] s → J s w → Requeues st n st' →
    Sends 𝓔 w [.qfsize s.tid n] true w' →
    J { s with tid := s.tid + 1, stk := [.netdown, st'] } w'
  synced : ∀ {st s w}, Up st [.sync] s → S s w → syncAll.Meets 𝓔 I (Went J B st [.sync]) s w
  updated : ∀ {st s w}, Up st [] s → J s w →
    ioctlSend.Meets 𝓔 I (fun r => Went J B st [] (r != some false)) s w
  transmitted : ∀ {st s w}, Up st [] s → J s w → s.xmitPending = 0 → isRbEmpty s.rx = false →
    xmitSend.Meets 𝓔 I (Went J B st []) s w
  -- the proc file
  updRx : ∀ {s w}, Calm s → J s w → vcBufUpdateRx.Meets 𝓔 I
    (fun _ s' w' => (∃ rx, s' = { s with rx := rx }) ∧ J s' w') s w
  updTx : ∀ {s w}, Calm s → J s w → vcBufUpdateTx.Meets 𝓔 I
    (fun _ s' w' => (∃ tx, s' = { s with tx := tx }) ∧ J s' w') s w
  updAttr : ∀ {s w}, Calm s → J s w → vcBufUpdateAttr.Meets 𝓔 I
    (fun _ s' w' => (∃ v, s' = { s with view := v }) ∧ Legal s' ∧ J s' w') s w
  clearDown : ∀ {s w}, Down s → J s w →
    (vcBufClear ADV_CLR_RX).Meets 𝓔 I (fun _ s w => Down s ∧ J s w) s w
  clearIdle : ∀ {st s w}, Up st [.idle] s → J s w →
    (vcBufClear ADV_CLR_RX).Meets 𝓔 I (fun _ s w => Raised s ∧ B s w) s w
  closed : ∀ {st top s w}, Up st top s → J s w → s.view.isOpen = 0 →
    closing.Meets 𝓔 I (fun _ s w => Raised s ∧ B s w) s w
  -- frames
  received : ∀ {st top s w} (buf : Mem), Up st top s → J s w →
    (vcRecvFrame buf).Meets 𝓔 I (Came I J B H st top) s w
  passed : ∀ {st s w buf len}, Up st [] s → H buf len s w → hdrCmd buf ≠ VCOM_CMD_DATAREADY →
    hdrCmd buf ≠ VCOM_CMD_WRITE → ¬ ForSync buf → J s w
  replied : ∀ {st s w buf len}, Up st [.sync] s → H buf len s w → ForSync buf →
    (syncReply buf).Meets 𝓔 I (Went J B st [.sync]) s w
  stored : ∀ {st s w buf len}, Up st [] s → H buf len s w → hdrCmd buf = VCOM_CMD_DATAREADY →
    (recvData buf).Meets 𝓔 I (Went J B st []) s w
  answered : ∀ {st s w buf} {len : Nat}, Up st [] s → H buf len s w →
    hdrCmd buf = VCOM_CMD_WRITE → (recvWrite buf len).Meets 𝓔 I (Went J B st []) s w

section
variable {𝓔 : Env VcSig VcAttr} {I J S B : VcAttr → 𝓔.World → Prop}
  {H : Mem → Nat → VcAttr → 𝓔.World → Prop}

/-- What looks neither at the stack nor at the TLS object. -/
theorem Keeps.walk (K : Keeps 𝓔 I J S B H) : Walk 𝓔 I J S B H where
  lastsJ := K.stableJ.lasts
  lastsS := K.stableS.lasts
  lastsB := K.stableB.lasts
  baseB := K.stableB.stk
  baseH := fun h l _ => K.stkH h l
  weakJ := K.weakJ
  weakS := K.weakS
  pause := K.pause
  hangs := fun _ h hb => ⟨K.hangUp_hung h hb⟩
  refused := K.refused
  dialed := by
    intro s w w' r h hview hj hr hret
    have hj' := K.dialed h hj hr hret
    obtain ⟨hstk, -, htid, hpend, heki, -⟩ := h
    have hd : Dialing [] { s with sk := r } := ⟨hstk, hret, htid, hpend, heki, hview⟩
    refine ⟨Act.wp_mono (K.sslOpen_dialing hd hj') fun ok s w hq => ⟨hq.1, ?_⟩⟩
    cases ok with
    | true => exact hq.2
    | false => exact K.weakJ _ _ hq.2
  chosen := fun _ hj => K.stableJ.stk hj _
  opened := fun h _ hj hs => K.opened h hj hs
  unready := (K.stableJ.yields K.stableB K.weakJ).unready
  unsent := fun h hj _ hs => K.unsent h (K.weakJ _ _ hj) hs
  probed := fun h hj hs => K.plain (p := .param _ VCOM_IOCTL_GET_WAIT_MASK) h hj (Or.inl rfl) hs
  requeued := fun h hj _ hs => K.stableJ.stk (K.plain h hj (p := .qfsize _ _) trivial hs) _
  synced := K.synced
  updated := K.updated
  transmitted := K.transmitted
  updRx := K.updRx
  updTx := K.updTx
  updAttr := K.updAttr
  clearDown := K.clearDown
  clearIdle := K.clearIdle
  closed := K.closed
  received := K.received
  passed := fun h hh hdata hwrite _ => K.passed h hh hdata hwrite
  replied := by
    intro st s w buf len h hh hsync
    have hj := K.passed h hh (by rw [hsync.1]; decide) (by rw [hsync.1]; decide)
    exact ⟨K.syncReply_went h hj buf⟩
  stored := K.stored
  answered := K.answered

end

section
variable {𝓔 : Env VcSig VcAttr} {I J S B : VcAttr → 𝓔.World → Prop}
  {H : Mem → Nat → VcAttr → 𝓔.World → Prop} (K : Walk 𝓔 I J S B H)
  {s : VcAttr} {w : 𝓔.World} {st : St} {top : List St} {n : Nat}

include K

theorem Walk.pauseJ (s : VcAttr) (w : 𝓔.World) (h : J s w) : I s w := K.pause s w (K.weakJ s w h)

theorem Walk.yields : Yields 𝓔 J B := ⟨K.lastsJ, K.lastsB, K.weakJ, K.unready⟩

/-! ## Exceptions -/

theorem Walk.netdownInit (hstk : s.stk = [.netdown]) (h : Raised s) (hb : B s w) :
    vcNetdownInit.wp 𝓔 I (Settled J) s w := by
  have hhung : { s with sk := -1, tid := 0, xmitPending := 0, eki := ekiReset } = s.hung := by
    simp [VcAttr.hung, hstk]
  simp only [vcNetdownInit, Act.wp_bind, wp_modifyAttr]
  refine Act.wp_mono (K.hangs hstk h hb).wp ?_
  rintro _ _ w' ⟨rfl, hj⟩
  rw [hhung]
  exact ⟨Or.inl h.hung, hj⟩

theorem Walk.reset (h : Raised s) (hb : B s w) :
    (excpInit (call (n + 1))).wp 𝓔 I (Settled J) s w := by
  obtain ⟨rest, hstk⟩ := h.1
  exact Act.wp_of_eq (excpInit_apply hstk)
    (K.netdownInit rfl ⟨⟨[], rfl⟩, h.2⟩ (K.baseB hb _))

/-- A step whose failure raises an exception. -/
theorem Walk.after_step {m : M Bool} (h : m.Meets 𝓔 I (Went J B st []) s w) :
    (do if ← m then retCurnt else excpInit (call (n + 1)) : M Unit).wp 𝓔 I (Settled J) s w := by
  rw [Act.wp_bind]
  refine Act.wp_mono h.wp fun ok s w hq => ?_
  cases ok with
  | true => exact Act.wp_of_done (retCurnt_done hq.1.raised.ne_nil) ⟨Or.inr ⟨st, Or.inl hq.1⟩, hq.2⟩
  | false => exact K.reset hq.1 hq.2

/-! ## Net Up and Pause -/

theorem Walk.upInit_settled (h : Up st [] s) (hj : J s w) :
    upInit.wp 𝓔 I (Settled J) s w := by
  simp only [upInit, Act.wp_bind]
  refine Act.wp_mono (K.updRx (Or.inr ⟨st, Or.inl h⟩) hj).wp ?_
  rintro _ _ w₁ ⟨⟨rx, rfl⟩, hj₁⟩
  have h₁ : Up st [] { s with rx := rx } := h
  refine Act.wp_mono (K.updTx (Or.inr ⟨st, Or.inl h₁⟩) hj₁).wp ?_
  rintro _ _ w₂ ⟨⟨tx, rfl⟩, hj₂⟩
  exact ⟨Or.inr ⟨st, Or.inl h₁⟩, hj₂⟩

theorem Walk.call_init (h : Up st [] s) (hj : J s w) :
    (call (n + 1) .init).wp 𝓔 I (Settled J) s w := by
  have hinit := K.upInit_settled h hj
  have hlast := h.getLast
  rcases h.1 with rfl | rfl
  · exact Act.wp_of_eq (call_apply hlast rfl) hinit
  · exact Act.wp_of_eq (call_apply hlast rfl) hinit

/-- Both ways out of Sync. -/
theorem Walk.after_sync {m : M Bool} (h : m.wp 𝓔 I (Went J B st [.sync]) s w) :
    (do if ← m then
          stkPop
          call (n + 1) .init
        else excpInit (call (n + 1)) : M Unit).wp 𝓔 I (Settled J) s w := by
  rw [Act.wp_bind]
  refine Act.wp_mono h fun ok s w hq => ?_
  cases ok with
  | true =>
      obtain ⟨hup, hj⟩ := hq
      show (stkPop >>= fun _ => call (n + 1) .init : M Unit).wp 𝓔 I (Settled J) s w
      rw [Act.wp_bind]
      refine Act.wp_of_done (stkPop_done hup.raised.ne_nil) ?_
      rw [hup.2.1]
      exact K.call_init hup.push (K.lastsJ.base hj _ (by rw [hup.2.1]; rfl))
  | false => exact K.reset hq.1 hq.2

theorem Walk.commonOpen (hst : st = upState s.tx) (h : Dialing [st] s) (hj : J s w) :
    (vcCommonOpen (call (n + 2))).wp 𝓔 I (Settled J) s w := by
  have hup : st = .netup ∨ st = .pause := by
    rw [hst, upState]
    split
    · exact Or.inl rfl
    · exact Or.inr rfl
  simp only [vcCommonOpen, Act.wp_bind, wp_getAttr, plen_open]
  rw [if_neg (by decide)]
  simp only [Act.wp_bind]
  refine wp_vcCheckSend K.yields K.pause h.raised.ne_nil h.2.1 hj ?_ ?_ ?_
  · intro w w' x hx hj hs
    have hs' := K.lastsS.ssl (K.opened h hst hj hs) x hx
    simp only [if_true, Act.wp_bind, wp_tidNext, wp_modifyAttr]
    refine Act.wp_of_done (stkPush_done (by simp [h.1, STACK_MAX])) ?_
    have hsync : Up st [.sync] { s with
        ssl := x, tid := s.tid + 1, eki := { s.eki with isOpen := 1 }, stk := s.stk ++ [.sync] } :=
      ⟨hup, by simp [h.1], h.2.1, rfl, Or.inr h.2.2.2.2.2⟩
    exact Act.wp_of_eq (call_apply hsync.getLast_top rfl)
      (K.after_sync (K.synced hsync (K.lastsS.base hs' _ (by simp [h.1]))).wp)
  · intro w w' hj hs
    refine K.unsent h.raised hj (Or.inl ⟨?_, ?_⟩) hs
    · rw [h.2.2.2.2.1]
      rfl
    · trivial
  · intro w x hb
    exact K.reset (s := { s with ssl := x }) h.raised hb

/-! ## Net Down -/

/-- The socket is there: one more state, and OPEN. -/
theorem Walk.after_connect (h : Dialing [] s) (hj : J s w) :
    (do let a ← getAttr
        if isRbEmpty a.tx then stkPush .netup else stkPush .pause
        call (n + 3) .open : M Unit).wp 𝓔 I (Settled J) s w := by
  have hpush (st : St) (hst : st = upState s.tx) :
      (stkPush st).wp 𝓔 I (fun _ s w => (call (n + 3) .open).wp 𝓔 I (Settled J) s w) s w := by
    refine Act.wp_of_done (stkPush_done (by simp [h.1, STACK_MAX])) ?_
    have hstk : s.stk ++ [st] = [.netdown, st] := by simp [h.1]
    have hj' := K.chosen h hj
    rw [← hst, ← hstk] at hj'
    have hd : Dialing [st] { s with stk := s.stk ++ [st] } := ⟨hstk, h.2⟩
    have hopen := K.commonOpen (n := n) (s := { s with stk := s.stk ++ [st] }) hst hd hj'
    have hlast : (s.stk ++ [st]).getLast? = some st := by simp
    rcases (show st = .netup ∨ st = .pause by
      rw [hst, upState]
      split
      · exact Or.inl rfl
      · exact Or.inr rfl) with rfl | rfl
    · exact Act.wp_of_eq (call_apply hlast rfl) hopen
    · exact Act.wp_of_eq (call_apply hlast rfl) hopen
  simp only [Act.wp_bind, wp_getAttr, Act.wp_ite]
  split
  · rename_i hempty
    exact hpush .netup (by rw [upState, if_pos hempty])
  · rename_i hempty
    exact hpush .pause (by rw [upState, if_neg hempty])

theorem Walk.netdownOpen (h : Down s) (hj : J s w) (hview : s.view.isOpen = 1) :
    (vcNetdownOpen (call (n + 3))).wp 𝓔 I (Settled J) s w := by
  simp only [vcNetdownOpen, Act.wp_bind, Act.wp_ite, wp_modifyAttr]
  refine K.lastsJ.wp_request K.pauseJ hj fun (ret : Int) w₁ w₂ hj₁ hr => ?_
  split
  · rename_i hneg
    refine Act.wp_mono (K.clearDown h (K.refused h hj₁ hr hneg)).wp fun _ s w hq => ?_
    obtain ⟨h, hj⟩ := hq
    have hsame : { s with sk := -1 } = s := by rw [← h.2.1]
    rw [hsame]
    exact ⟨Or.inl h, hj⟩
  · rename_i hnonneg
    refine Act.wp_mono (K.dialed h hview hj₁ hr (Int.not_lt.mp hnonneg)).wp fun ok s w hq => ?_
    obtain ⟨hd, hok⟩ := hq
    cases ok with
    | true =>
        have hnext := K.after_connect (n := n) hd hok
        simpa only [if_true, Act.wp_bind, wp_getAttr, Act.wp_ite] using hnext
    | false =>
        have hlast : s.stk.getLast? = some .netdown := by simp [hd.1]
        exact Act.wp_of_eq (call_apply hlast rfl) (K.netdownInit hd.1 hd.raised hok)

/-! ## Settings, data, flow control -/

theorem Walk.ioctlLoop_settled (count : Nat) : ∀ {s : VcAttr} {w : 𝓔.World}, Up st [] s → J s w →
    (ioctlLoop (call (n + 1)) count).wp 𝓔 I (Settled J) s w := by
  induction count with
  | zero =>
      intro s w h hj
      exact Act.wp_of_done (retCurnt_done h.raised.ne_nil) ⟨Or.inr ⟨st, Or.inl h⟩, hj⟩
  | succ count ih =>
      intro s w h hj
      simp only [ioctlLoop, Act.wp_bind]
      refine Act.wp_mono (K.updated h hj).wp fun r s w hq => ?_
      cases r with
      | none =>
          exact Act.wp_of_done (retCurnt_done hq.1.raised.ne_nil) ⟨Or.inr ⟨st, Or.inl hq.1⟩, hq.2⟩
      | some sent =>
          cases sent with
          | true => exact ih hq.1 hq.2
          | false => exact K.reset hq.1 hq.2

theorem Walk.commonXmit (h : Up st [] s) (hj : J s w) (hpend : s.xmitPending = 0)
    (hrx : isRbEmpty s.rx = false) : (vcCommonXmit (call (n + 1))).wp 𝓔 I (Settled J) s w :=
  K.after_step (K.transmitted h hj hpend hrx)

/-- Pause and resume: a queue size, and the other state on top. -/
theorem Walk.after_queue {st' : St} {k : Int} (hq : Requeues st k st') (h : Up st [] s) (hj : J s w) :
    (do if ← sendNext (.qfsize · k) then
          stkRpls st'
          call (n + 1) .init
        else excpInit (call (n + 1)) : M Unit).wp 𝓔 I (Settled J) s w := by
  have hst' : st' = .netup ∨ st' = .pause := by
    rcases hq with ⟨-, -, rfl⟩ | ⟨-, -, rfl⟩
    · exact Or.inr rfl
    · exact Or.inl rfl
  rw [Act.wp_bind]
  refine wp_sendNext (by simp) (wp_vcCheckSend K.yields K.pause h.raised.ne_nil
    h.2.2.1 hj ?_ ?_ ?_)
  · intro w w' x hx hj hs
    have hj' := K.lastsJ.ssl (K.requeued h hj hq hs) x hx
    rw [if_pos rfl, if_pos rfl, Act.wp_bind]
    refine Act.wp_of_done (stkRpls_done h.raised.ne_nil) ?_
    have hstk : s.stk.dropLast ++ [st'] = [.netdown, st'] := by rw [h.2.1]; rfl
    have hup : Up st' [] { s with ssl := x, tid := s.tid + 1, stk := [.netdown, st'] } :=
      ⟨hst', rfl, h.2.2⟩
    simp only [hstk]
    exact K.call_init hup hj'
  · intro w w' hj hs
    refine K.unsent h.raised hj (Or.inr ⟨h.2.2.2.1, ?_⟩) hs
    trivial
  · intro w x hb
    exact K.reset (s := { s with ssl := x }) h.raised hb

theorem Walk.netupPause (h : Up .netup [] s) (hj : J s w) :
    (vcNetupPause (call (n + 1))).wp 𝓔 I (Settled J) s w :=
  K.after_queue (Or.inl ⟨rfl, rfl, rfl⟩) h hj

theorem Walk.pauseResume (h : Up .pause [] s) (hj : J s w) :
    (vcPauseResume (call (n + 1))).wp 𝓔 I (Settled J) s w :=
  K.after_queue (Or.inr ⟨rfl, rfl, rfl⟩) h hj

/-! ## Close -/

theorem Walk.upClose_settled (h : Up st top s) (hj : J s w) (hview : s.view.isOpen = 0) :
    (upClose (call (n + 1))).wp 𝓔 I (Settled J) s w := by
  have hall : (closing >>= fun ok => if ok then
        (do
          stkRestart
          call (n + 1) .init)
        else excpInit (call (n + 1)) : M Unit).wp 𝓔 I (Settled J) s w := by
    rw [Act.wp_bind]
    refine Act.wp_mono (K.closed h hj hview).wp fun ok s w hq => ?_
    -- both ways go back to Net Down
    cases ok with
    | true => exact K.reset hq.1 hq.2
    | false => exact K.reset hq.1 hq.2
  simpa only [upClose, vcCommonClose, closing, Act.wp_bind] using hall

/-! ## Idle -/

theorem Walk.idleProbe_went (h : Up st [.idle] s) (hj : J s w) :
    idleProbe.wp 𝓔 I (Went J B st [.idle]) s w := by
  simp only [idleProbe, Act.wp_bind, wp_getAttr]
  refine wp_packSend (by simp) (wp_vcCheckSend K.yields K.pause
    h.raised.ne_nil h.2.2.1 hj ?_ ?_ ?_)
  · intro w w' x hx hj hs
    exact ⟨h, K.lastsJ.ssl (K.probed h hj hs) x hx⟩
  · intro w w' hj hs
    refine K.unsent h.raised hj (Or.inr ⟨h.2.2.2.1, ?_⟩) hs
    trivial
  · intro w x hb
    exact ⟨h.raised, hb⟩

theorem Walk.upPoll_settled (h : Up st [] s) (hj : J s w) :
    (upPoll (call (n + 2))).wp 𝓔 I (Settled J) s w := by
  simp only [upPoll, Act.wp_bind]
  refine Act.wp_of_done (stkPush_done (by simp [h.2.1, STACK_MAX])) ?_
  have h' : Up st [.idle] { s with stk := s.stk ++ [.idle] } := ⟨h.1, by simp [h.2.1], h.2.2⟩
  refine Act.wp_of_eq (call_apply h'.getLast_top rfl) ?_
  simp only [vcIdleInit, Act.wp_bind]
  refine Act.wp_mono (K.idleProbe_went h' (K.lastsJ.base hj _ (by simp [h.2.1]))) fun ok s w hq => ?_
  cases ok with
  | true => exact ⟨Or.inr ⟨st, Or.inr hq.1⟩, hq.2⟩
  | false => exact K.reset hq.1 hq.2

theorem Walk.idlePoll (h : Up st [.idle] s) (hj : J s w) :
    (vcIdlePoll (call (n + 1))).wp 𝓔 I (Settled J) s w := by
  simp only [vcIdlePoll, Act.wp_bind]
  refine Act.wp_mono (K.clearIdle h hj).wp fun _ s w hq => ?_
  exact K.reset hq.1 hq.2

/-! ## Receive -/

/-- An answer to an ioctl: Sync on top for the three that need it, and off again. -/
theorem Walk.checkIoctl_came {buf : Mem} {len : Nat} (hlo : HDR_LEN ≤ len) (h : Up st [] s)
    (hh : H buf len s w) (hcmd : hdrCmd buf = VCOM_CMD_IOCTL) :
    (vcCheckIoctl (call (n + 2)) buf len).wp 𝓔 I
      (fun ok s w => if ok then Calm s ∧ J s w else Raised s ∧ B s w) s w := by
  have hpass (hnot : ¬ ForSync buf) : J s w :=
    K.passed h hh (by rw [hcmd]; decide) (by rw [hcmd]; decide) hnot
  have hlong : ¬ vcPackSize .param > (len : Int) := by
    have hsize : vcPackSize .param = 20 := rfl
    simp only [HDR_LEN] at hlo
    omega
  simp only [vcCheckIoctl, checkIoctlRet, Act.wp_ite, Act.wp_bind, Act.wp_pure]
  rw [if_neg hlong]
  split
  · rename_i hbad
    exact ⟨h.raised, K.weakJ _ _ (hpass fun hsync => hbad hsync.2.1)⟩
  rename_i hok
  split
  · rename_i hsub
    refine Act.wp_of_done (stkPush_done (by simp [h.2.1, STACK_MAX])) ?_
    have h' : Up st [.sync] { s with stk := s.stk ++ [.sync] } := ⟨h.1, by simp [h.2.1], h.2.2⟩
    have hh' := K.baseH hh (s.stk ++ [.sync]) (by simp [h.2.1])
    exact Act.wp_of_eq (call_apply h'.getLast_top rfl)
      (K.after_sync (K.replied h' hh' ⟨hcmd, not_not.mp hok, hsub⟩).wp)
  · rename_i hsub
    exact ⟨Or.inr ⟨st, Or.inl h⟩, hpass fun hsync => hsub hsync.2.2⟩

theorem Walk.commonRecv {buf : Mem} {len : Nat} (hlo : HDR_LEN ≤ len) (hhi : len ≤ RBUF_SIZE)
    (h : Up st [] s) (hh : H buf len s w) :
    (vcCommonRecv (call (n + 2)) buf len).wp 𝓔 I (Settled J) s w := by
  have hlen : ¬ (len : Int) % 2 ^ 64 < HDR_SIZE := by
    simp only [HDR_LEN, RBUF_SIZE] at hlo hhi
    simp only [HDR_SIZE]
    omega
  have hret (hj : J s w) : retCurnt.wp 𝓔 I (Settled J) s w :=
    Act.wp_of_done (retCurnt_done h.raised.ne_nil) ⟨Or.inr ⟨st, Or.inl h⟩, hj⟩
  simp only [vcCommonRecv]
  rw [if_neg hlen]
  split
  · rename_i hcmd
    have hj := K.passed h hh (by rw [hcmd]; decide) (by rw [hcmd]; decide) fun hsync =>
      absurd (hcmd.symm.trans hsync.1) (by decide)
    simp only [Act.wp_bind, wp_getAttr, Act.wp_ite]
    split
    · exact hret hj
    · exact K.reset h.raised (K.weakJ _ _ hj)
  split
  · rename_i hcmd
    rw [Act.wp_bind]
    refine Act.wp_mono (K.checkIoctl_came hlo h hh hcmd) fun ok s w hq => ?_
    cases ok with
    | true => exact Act.wp_of_done (retCurnt_done hq.1.ne_nil) hq
    | false => exact K.reset hq.1 hq.2
  split
  · rename_i hcmd
    exact K.after_step (K.stored h hh hcmd)
  split
  · rename_i hcmd
    exact K.after_step (K.answered h hh hcmd)
  · rename_i hioctl hdata hwrite
    exact hret (K.passed h hh hdata hwrite fun hsync => hioctl hsync.1)

theorem Walk.upRecv {buf : Mem} {len : Nat} (hlo : HDR_LEN ≤ len) (hhi : len ≤ RBUF_SIZE)
    (h : (hand (buf.slice 0 len)).wp 𝓔 I (fun _ s w => Up st [] s ∧ H buf len s w) s w) :
    (upRecv (call (n + 2)) buf len).wp 𝓔 I (Settled J) s w := by
  simp only [AdvVcom.upRecv, Act.wp_bind, Int.toNat_natCast]
  exact Act.wp_mono h fun _ s w hq => K.commonRecv hlo hhi hq.1 hq.2

end

end AdvVcom
