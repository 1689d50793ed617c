/-
# `AdvVcom.Daemon.Magic` — frames that are not the protocol's

The first word of every frame is to be `VCOM_MAGIC`.  `vc_check_hdr` compares it, but only
CREATE and WRITE replies are checked with it: `vc_check_ioctl` looks at the length and the
status, `vc_check_recv` at the status and the two lengths.

    CREATE       vc_check_open          vc_check_hdr
    WRITE        vc_check_xmit (twice)  vc_check_hdr
    IOCTL        vc_check_ioctl         the daemon acts on three sub-commands
    DATAREADY    vc_check_recv          the daemon stores the payload
    others                              ignored

**Proved here**, for every connected state and every frame with another first word,
whatever the replies the daemon gets meanwhile:

    the frame either ends the connection or does nothing, exactly if it is none of those
    that get past `vc_check_ioctl` to Sync or past `vc_check_recv` to the TX ring
                                                        (`alien_frame_iff`)
-/
import AdvVcom.Daemon.Stack

namespace AdvVcom

open Lib

/-! ## What a frame may do -/

/-- A packet, a copy into the TX page, a move of a ring (the driver serves the tty at every
`IOCSTXTAIL`, whatever its argument), or a modem-control value other than `mctrl`. -/
def Req.Acts (mctrl : Int) : Req → Prop
  | .send _ | .sslSend _ | .copyTx _ _ => True
  | .ioctl c arg => c = .sTxTail ∨ c = .sRxHead ∨ c = .sClr ∨ c = .sMCtrl ∧ arg ≠ mctrl
  | _ => False

/-- The requests made so far. -/
def asked (log : List Req) (e : Req) (_ : e.Rep) : List Req := log ++ [e]

/-- The connection has been reset. -/
def HungUp (s : VcAttr) : Prop := s.stk = [.netdown] ∧ s.sk = -1

/-- Nothing has been done from `s` to `s'`, with the driver's modem-control value at `mctrl`. -/
def Harmless (mctrl : Int) (s s' : VcAttr) (log : List Req) : Prop :=
  (∀ e ∈ log, ¬ e.Acts mctrl) ∧ s'.xmitPending = s.xmitPending

/-- Whatever the replies, the frame of `len` bytes in `buf` resets the connection or does
nothing. -/
def Unacted (mctrl : Int) (buf : Mem) (len : Nat) (s : VcAttr) : Prop :=
  (dispatch buf (.frame len)).Logs asked (fun _ s' log => HungUp s' ∨ Harmless mctrl s s' log) s []

/-- A reply that Sync does not act on, and data that is not stored. -/
def Ignored (mctrl : Int) (buf : Mem) (s : VcAttr) : Prop :=
  (hdrCmd buf = VCOM_CMD_IOCTL → attachP1 buf = STATUS_SUCCESS →
    attachP2 buf ≠ VCOM_IOCTL_WAIT_ON_MASK ∧ attachP2 buf ≠ VCOM_IOCTL_SET_WAIT_MASK ∧
      (attachP2 buf = VCOM_IOCTL_GET_MODEMSTATUS → ((attachUint buf).toNat : Int) = mctrl)) ∧
  (hdrCmd buf = VCOM_CMD_DATAREADY → ∀ datalen, vcCheckRecv buf = some datalen →
    getRbRoom s.tx < datalen)

/-! ## The steps, whatever the replies -/

section
variable {L : Type} {note : L → (e : Req) → e.Rep → L} {l : L} {s : VcAttr} {rest : List St}

@[simp] theorem logs_getAttr (Q : VcAttr → VcAttr → L → Prop) :
    getAttr.Logs (S := VcSig) note Q s l ↔ Q s s l := Iff.rfl

@[simp] theorem logs_modifyAttr (g : VcAttr → VcAttr) (Q : Unit → VcAttr → L → Prop) :
    (modifyAttr g).Logs (S := VcSig) note Q s l ↔ Q () (g s) l := Iff.rfl

@[simp] theorem may_getAttr (Q : VcAttr → VcAttr → L → Prop) :
    getAttr.May (S := VcSig) note Q s l ↔ Q s s l := Iff.rfl

@[simp] theorem may_modifyAttr (g : VcAttr → VcAttr) (Q : Unit → VcAttr → L → Prop) :
    (modifyAttr g).May (S := VcSig) note Q s l ↔ Q () (g s) l := Iff.rfl

/-- An exception always ends the connection. -/
theorem logs_excpInit (n : Nat) (hstk : s.stk = .netdown :: rest) (hsk : 0 ≤ s.sk)
    {Q : Unit → VcAttr → L → Prop} (hQ : ∀ s' l', HungUp s' → Q () s' l') :
    (excpInit (call (n + 1))).Logs note Q s l := by
  refine Act.logs_of_eq (excpInit_apply hstk) ?_
  simp only [vcNetdownInit, hangUp, Act.logs_bind, logs_getAttr, logs_modifyAttr, Act.logs_ite]
  rw [if_pos hsk]
  split
  · exact fun _ _ _ => hQ _ _ ⟨rfl, rfl⟩
  · exact fun _ => hQ _ _ ⟨rfl, rfl⟩

end

/-! ## Runs in which a frame is acted upon -/

/-- The connection is still there, and something has been done. -/
def Acted (mctrl : Int) (s : VcAttr) (log : List Req) : Prop :=
  0 ≤ s.sk ∧ ∃ e ∈ log, e.Acts mctrl

theorem Acted.not_harmless {mctrl : Int} {s₀ s : VcAttr} {log : List Req} (h : Acted mctrl s log) :
    ¬ (HungUp s ∨ Harmless mctrl s₀ s log) := by
  obtain ⟨hsk, e, he, hacts⟩ := h
  rintro (hhung | hharmless)
  · rw [hhung.2] at hsk
    exact absurd hsk (by decide)
  · exact hharmless.1 e he hacts

section
variable (mctrl : Int) {s : VcAttr} {log : List Req} {st : St} {buf : Mem} {len : Int}

theorem may_vcCheckSend (ps : List Pkt) {Q : Bool → VcAttr → List Req → Prop}
    (hQ : ∀ x log', (∃ e ∈ log', e.Acts mctrl) → Q true { s with ssl := x } log') :
    (vcCheckSend ps).May asked Q s log := by
  simp only [vcCheckSend, Act.may_bind, may_getAttr, Act.may_ite]
  split
  · refine Act.May.told SslRet.ok ?_
    exact hQ _ _ ⟨.sslSend ps, List.mem_append_right _ (List.mem_singleton_self _), trivial⟩
  · refine Act.May.told true (Act.May.told true ?_)
    exact hQ s.ssl _ ⟨.send ps, List.mem_append_right _ (List.mem_singleton_self _), trivial⟩

theorem may_sendNext {p : UInt32 → Pkt} (hlen : 0 < (p s.tid).plen 1024)
    {Q : Bool → VcAttr → List Req → Prop}
    (hQ : ∀ x log', (∃ e ∈ log', e.Acts mctrl) →
      Q true { s with ssl := x, tid := s.tid + 1 } log') : (sendNext p).May asked Q s log := by
  simp only [sendNext, packSend, Act.may_bind, may_getAttr, Act.may_ite]
  rw [if_neg (Int.not_le.mpr hlen)]
  exact may_vcCheckSend mctrl _ fun x log' h => hQ x log' h

/-- Back in Net Up or Pause, the rings are looked at; the answers do not matter. -/
theorem may_init (n : Nat) (hst : st = .netup ∨ st = .pause) (hstk : s.stk = [.netdown, st])
    (h : ∃ e ∈ log, e.Acts mctrl) {Q : Unit → VcAttr → List Req → Prop}
    (hQ : ∀ log', (∃ e ∈ log', e.Acts mctrl) → Q () s log') :
    (call (n + 1) .init).May asked Q s log := by
  obtain ⟨e, he, hacts⟩ := h
  have hinit : upInit.May asked Q s log := by
    simp only [upInit, vcBufUpdateRx, vcBufUpdateTx, Act.may_bind]
    refine Act.May.told none (Act.May.told none (hQ _ ⟨e, ?_, hacts⟩))
    exact List.mem_append_left _ (List.mem_append_left _ he)
  have hlast : s.stk.getLast? = some st := by simp [hstk]
  rcases hst with rfl | rfl
  · exact Act.may_of_eq (call_apply hlast rfl) hinit
  · exact Act.may_of_eq (call_apply hlast rfl) hinit

/-- Sync acts on the three replies it waits for. -/
theorem may_syncReply {Q : Bool → VcAttr → List Req → Prop}
    (hsub : attachP2 buf = VCOM_IOCTL_WAIT_ON_MASK ∨ attachP2 buf = VCOM_IOCTL_SET_WAIT_MASK ∨
      attachP2 buf = VCOM_IOCTL_GET_MODEMSTATUS ∧ ((attachUint buf).toNat : Int) ≠ mctrl)
    (hQ : ∀ x t log', (∃ e ∈ log', e.Acts mctrl) → Q true { s with ssl := x, tid := t } log') :
    (syncReply buf).May asked Q s log := by
  unfold syncReply
  rcases hsub with hsub | hsub | ⟨hsub, hmodem⟩
  · rw [if_pos hsub]
    simp only [syncEvent, Act.may_bind]
    refine may_sendNext mctrl (by simp) fun x log' _ => ?_
    rw [if_pos rfl]
    exact may_sendNext mctrl (by simp) fun x log' h => hQ x _ log' h
  · rw [if_neg (by rw [hsub]; decide), if_pos hsub]
    exact may_sendNext mctrl (by simp) fun x log' h => hQ x _ log' h
  · rw [if_neg (by rw [hsub]; decide), if_neg (by rw [hsub]; decide), if_pos hsub]
    simp only [Act.may_bind]
    refine Act.May.told (some 0) (hQ s.ssl s.tid _ ⟨.ioctl .sMCtrl (attachUint buf).toNat, ?_, ?_⟩)
    · exact List.mem_append_right _ (List.mem_singleton_self _)
    · exact Or.inr (Or.inr (Or.inr ⟨rfl, hmodem⟩))

/-- The reply as `vc_common_recv` deals with it. -/
theorem may_ioctl (n : Nat) (hup : Up st [] s) (hcmd : hdrCmd buf = VCOM_CMD_IOCTL)
    (hlen : vcPackSize .param ≤ len) (hbig : HDR_SIZE ≤ len % 2 ^ 64)
    (hstatus : attachP1 buf = STATUS_SUCCESS)
    (hsub : attachP2 buf = VCOM_IOCTL_WAIT_ON_MASK ∨ attachP2 buf = VCOM_IOCTL_SET_WAIT_MASK ∨
      attachP2 buf = VCOM_IOCTL_GET_MODEMSTATUS ∧ ((attachUint buf).toNat : Int) ≠ mctrl) :
    (vcCommonRecv (call (n + 2)) buf len).May asked (fun _ => Acted mctrl) s log := by
  have hsync : attachP2 buf = VCOM_IOCTL_WAIT_ON_MASK ∨ attachP2 buf = VCOM_IOCTL_GET_MODEMSTATUS ∨
      attachP2 buf = VCOM_IOCTL_SET_WAIT_MASK := by
    rcases hsub with h | h | ⟨h, -⟩
    · exact Or.inl h
    · exact Or.inr (Or.inr h)
    · exact Or.inr (Or.inl h)
  have hstk := hup.2.1
  unfold vcCommonRecv
  rw [if_neg (Int.not_lt.mpr hbig), if_neg (by rw [hcmd]; decide), if_pos hcmd]
  rw [vcCheckIoctl, if_neg (Int.not_lt.mpr hlen), checkIoctlRet]
  rw [if_neg (not_not_intro hstatus), if_pos hsync]
  simp only [Act.may_bind]
  refine Act.may_of_done (stkPush_done (by simp [hstk, STACK_MAX])) ?_
  have hlast : (s.stk ++ [St.sync]).getLast? = some .sync := by simp
  refine Act.may_of_eq (call_apply hlast rfl) ?_
  simp only [vcSyncRecv, Act.may_bind]
  refine may_syncReply mctrl hsub fun x t log' hacts => ?_
  rw [if_pos rfl]
  simp only [Act.may_bind]
  refine Act.may_of_done (stkPop_done (by simp)) ?_
  refine may_init mctrl n hup.1 (by simp [hstk]) hacts fun log'' hacts => ?_
  rw [Act.may_pure, if_pos rfl]
  exact Act.may_of_done (retCurnt_done (by simp [hstk])) ⟨hup.2.2.1, hacts⟩

/-- Data for which there is room is stored. -/
theorem may_data (n : Nat) {datalen : Int} (hup : Up st [] s)
    (hcmd : hdrCmd buf = VCOM_CMD_DATAREADY) (hbig : HDR_SIZE ≤ len % 2 ^ 64)
    (hdata : vcCheckRecv buf = some datalen) (hroom : datalen ≤ getRbRoom s.tx) :
    (vcCommonRecv (call n) buf len).May asked (fun _ => Acted mctrl) s log := by
  have hend (log : List Req) : (ioctl .sTxTail datalen).May asked
      (fun _ s log => retCurnt.May asked (fun _ => Acted mctrl) s log) s log := by
    refine Act.May.told (some 0) (Act.may_of_done (retCurnt_done hup.raised.ne_nil) ?_)
    refine ⟨hup.2.2.1, .ioctl .sTxTail datalen, ?_, Or.inl rfl⟩
    exact List.mem_append_right _ (List.mem_singleton_self _)
  unfold vcCommonRecv
  rw [if_neg (Int.not_lt.mpr hbig), if_neg (by rw [hcmd]; decide), if_neg (by rw [hcmd]; decide),
    if_pos hcmd]
  simp only [recvData, Act.may_bind, may_getAttr, hdata, Act.may_ite, Act.may_pure, if_true]
  rw [if_neg (Int.not_lt.mpr hroom)]
  split
  · exact Act.May.told () (hend _)
  · exact Act.May.told () (Act.May.told () (hend _))

end

/-! ## Every frame -/

section
variable {mctrl : Int} {s s₀ : VcAttr} {st : St} {buf : Mem} {len : Int} {log : List Req}

/-- Looking at the rings is harmless. -/
theorem logs_init (n : Nat) (hst : st = .netup ∨ st = .pause) (hstk : s.stk = [.netdown, st])
    (h : ∀ e ∈ log, ¬ e.Acts mctrl) {Q : Unit → VcAttr → List Req → Prop}
    (hQ : ∀ rx tx log', (∀ e ∈ log', ¬ e.Acts mctrl) → Q () { s with rx := rx, tx := tx } log') :
    (call (n + 1) .init).Logs asked Q s log := by
  have hasks {log : List Req} {c : Ioc} (h : ∀ e ∈ log, ¬ e.Acts mctrl)
      (hc : c = .gRxHead ∨ c = .gRxTail ∨ c = .gTxHead ∨ c = .gTxTail) (r : Option Int) :
      ∀ e ∈ asked log (.ioctl c 0) r, ¬ e.Acts mctrl := by
    intro e he
    rcases List.mem_append.mp he with he | he
    · exact h e he
    · rw [List.mem_singleton.mp he]
      rcases hc with rfl | rfl | rfl | rfl
      · simp [Req.Acts]
      · simp [Req.Acts]
      · simp [Req.Acts]
      · simp [Req.Acts]
  have htx {s' : VcAttr} {log : List Req} {rx : RingBuf} (hs : s' = { s with rx := rx })
      (h : ∀ e ∈ log, ¬ e.Acts mctrl) : vcBufUpdateTx.Logs asked Q s' log := by
    subst hs
    simp only [vcBufUpdateTx, Act.logs_bind]
    intro head
    have h₁ := hasks h (c := .gTxHead) (by simp) head
    cases head with
    | none => exact hQ rx s.tx _ h₁
    | some head =>
        intro tail
        have h₂ := hasks h₁ (c := .gTxTail) (by simp) tail
        cases tail with
        | none => exact hQ rx s.tx _ h₂
        | some tail => exact hQ rx _ _ h₂
  have hinit : upInit.Logs asked Q s log := by
    simp only [upInit, vcBufUpdateRx, Act.logs_bind]
    intro head
    have h₁ := hasks h (c := .gRxHead) (by simp) head
    cases head with
    | none => exact htx rfl h₁
    | some head =>
        intro tail
        have h₂ := hasks h₁ (c := .gRxTail) (by simp) tail
        cases tail with
        | none => exact htx rfl h₂
        | some tail => exact htx rfl h₂
  have hlast : s.stk.getLast? = some st := by simp [hstk]
  rcases hst with rfl | rfl
  · exact Act.logs_of_eq (call_apply hlast rfl) hinit
  · exact Act.logs_of_eq (call_apply hlast rfl) hinit

/-- A modem status that is the driver's already. -/
theorem logs_modem (n : Nat) (hup : Up st [] s) (hpend : s.xmitPending = s₀.xmitPending)
    (hlog : ∀ e ∈ log, ¬ e.Acts mctrl) (hsub : attachP2 buf = VCOM_IOCTL_GET_MODEMSTATUS)
    (hmodem : ((attachUint buf).toNat : Int) = mctrl) :
    (call (n + 2) (.recv buf len)).Logs asked (fun _ s' log =>
      s'.stk ≠ [] ∧ (HungUp s' ∨ Harmless mctrl s₀ s' log)) { s with stk := s.stk ++ [.sync] } log := by
  have hstk := hup.2.1
  have hlast : (s.stk ++ [St.sync]).getLast? = some .sync := by simp
  refine Act.logs_of_eq (call_apply hlast rfl) ?_
  simp only [vcSyncRecv, syncReply, Act.logs_bind]
  rw [if_neg (by rw [hsub]; decide), if_neg (by rw [hsub]; decide), if_pos hsub]
  simp only [Act.logs_bind]
  intro r
  cases r with
  | none =>
      have hpushed : s.stk ++ [.sync] = [.netdown, st, .sync] := by rw [hstk]; rfl
      refine logs_excpInit (s := { s with stk := s.stk ++ [.sync] }) n hpushed hup.2.2.1
        fun s' l' h => ⟨?_, Or.inl h⟩
      rw [h.1]
      exact List.cons_ne_nil _ _
  | some v =>
      have htold : ∀ e ∈ log ++ [Req.ioctl .sMCtrl (attachUint buf).toNat], ¬ e.Acts mctrl := by
        intro e he
        rcases List.mem_append.mp he with he | he
        · exact hlog e he
        · rw [List.mem_singleton.mp he]
          simp [Req.Acts, hmodem]
      refine (Act.logs_bind _ _ _ _ _).mpr (Act.logs_of_done (stkPop_done (by simp)) ?_)
      refine logs_init n hup.1 (by simp [hstk]) htold fun rx tx log' h => ⟨by simp [hstk], Or.inr ?_⟩
      exact ⟨h, hpend⟩

/-- The branches of `vc_common_recv`, for a frame with another first word. -/
theorem vcCommonRecv_unacted (n : Nat) (hup : Up st [] s) (hlen : vcPackSize .param ≤ len)
    (hbig : HDR_SIZE ≤ len % 2 ^ 64) (hpid : hdrPid buf ≠ VCOM_MAGIC)
    (hpend : s.xmitPending = s₀.xmitPending) (hlog : ∀ e ∈ log, ¬ e.Acts mctrl)
    (h : Ignored mctrl buf s) : (vcCommonRecv (call (n + 2)) buf len).Logs asked
      (fun _ s' log => HungUp s' ∨ Harmless mctrl s₀ s' log) s log := by
  have hexcp {s : VcAttr} {log : List Req} (hup : Up st [] s) :
      (excpInit (call (n + 2))).Logs asked
        (fun _ s' log => HungUp s' ∨ Harmless mctrl s₀ s' log) s log :=
    logs_excpInit (n + 1) hup.2.1 hup.2.2.1 fun _ _ h => Or.inl h
  have hret : retCurnt.Logs asked (fun _ s' log => HungUp s' ∨ Harmless mctrl s₀ s' log) s log :=
    Act.logs_of_done (retCurnt_done hup.raised.ne_nil) (Or.inr ⟨hlog, hpend⟩)
  have hparam (cmd : Nat) (p1 p2 : UInt32) : vcCheckParam buf cmd p1 p2 len = false := by
    simp [vcCheckParam, vcCheckHdr, hpid]
  obtain ⟨hioctl, hdata⟩ := h
  unfold vcCommonRecv
  rw [if_neg (Int.not_lt.mpr hbig)]
  simp only [Act.logs_ite, Act.logs_bind, logs_getAttr]
  split
  · rw [vcCheckOpen, hparam, if_neg (by decide)]
    exact hexcp hup
  split
  · rename_i hcmd
    rw [vcCheckIoctl, if_neg (Int.not_lt.mpr hlen), checkIoctlRet]
    simp only [Act.logs_ite, Act.logs_bind, Act.logs_pure, if_true]
    split
    · exact hexcp hup
    · rename_i hstatus
      obtain ⟨hwait, hmask, hmodem⟩ := hioctl hcmd (not_not.mp hstatus)
      split
      · rename_i hsync
        have hsub : attachP2 buf = VCOM_IOCTL_GET_MODEMSTATUS :=
          (hsync.resolve_left hwait).resolve_right hmask
        refine Act.logs_of_done (stkPush_done (by simp [hup.2.1, STACK_MAX])) ?_
        refine (logs_modem n hup hpend hlog hsub (hmodem hsub)).mono fun _ s' log' hq => ?_
        exact Act.logs_of_done (retCurnt_done hq.1) hq.2
      · exact hret
  split
  · rename_i hcmd
    simp only [recvData, Act.logs_bind, logs_getAttr]
    cases hrecv : vcCheckRecv buf with
    | none => exact hexcp hup
    | some datalen =>
        simp only [Act.logs_ite]
        rw [if_pos (hdata hcmd datalen hrecv)]
        exact hexcp hup
  split
  · simp only [recvWrite, vcCheckXmit, Act.logs_bind, logs_getAttr, logs_modifyAttr, hparam]
    exact hexcp hup
  · exact hret

/-- Those that are not ignored are acted upon. -/
theorem vcCommonRecv_acted (n : Nat) (hup : Up st [] s) (hlen : vcPackSize .param ≤ len)
    (hbig : HDR_SIZE ≤ len % 2 ^ 64) (h : ¬ Ignored mctrl buf s) :
    (vcCommonRecv (call (n + 2)) buf len).May asked (fun _ => Acted mctrl) s log := by
  by_cases hdata : hdrCmd buf = VCOM_CMD_DATAREADY → ∀ datalen, vcCheckRecv buf = some datalen →
      getRbRoom s.tx < datalen
  · have hioctl : ¬ (hdrCmd buf = VCOM_CMD_IOCTL → attachP1 buf = STATUS_SUCCESS →
        attachP2 buf ≠ VCOM_IOCTL_WAIT_ON_MASK ∧ attachP2 buf ≠ VCOM_IOCTL_SET_WAIT_MASK ∧
          (attachP2 buf = VCOM_IOCTL_GET_MODEMSTATUS → ((attachUint buf).toNat : Int) = mctrl)) :=
      fun hioctl => h ⟨hioctl, hdata⟩
    push Not at hioctl
    obtain ⟨hcmd, hstatus, hrest⟩ := hioctl
    refine may_ioctl mctrl n hup hcmd hlen hbig hstatus ?_
    by_cases hwait : attachP2 buf = VCOM_IOCTL_WAIT_ON_MASK
    · exact Or.inl hwait
    by_cases hmask : attachP2 buf = VCOM_IOCTL_SET_WAIT_MASK
    · exact Or.inr (Or.inl hmask)
    · exact Or.inr (Or.inr (hrest hwait hmask))
  · simp only [Classical.not_imp, not_forall] at hdata
    obtain ⟨hcmd, datalen, hrecv, hroom⟩ := hdata
    exact may_data mctrl (n + 2) hup hcmd hbig hrecv (Int.not_lt.mp hroom)

/-- The frame gets to Net Up or Pause; Idle gives way to the state below it first. -/
theorem dispatch_common {top : List St} (hup : Up st top s) (htop : top = [] ∨ top = [.idle])
    (buf : Mem) (len : Nat) : ∃ n, dispatch buf (.frame len) s =
      upRecv (call (n + 2)) buf len { s with stk := [.netdown, st] } := by
  have hstk := hup.2.1
  have hcommon {s : VcAttr} (n : Nat) (hlast : s.stk.getLast? = some st) :
      call (n + 1) (.recv buf len) s = upRecv (call n) buf len s := by
    rcases hup.1 with rfl | rfl
    · exact call_apply hlast rfl
    · exact call_apply hlast rfl
  rcases htop with rfl | rfl
  · refine ⟨8, ?_⟩
    rw [← hstk]
    rcases hup.1 with rfl | rfl
    · exact tryCall_apply hup.getLast rfl
    · exact tryCall_apply hup.getLast rfl
  · refine ⟨7, ?_⟩
    have hpop : (vcIdleRecv (call CALL_DEPTH) buf len) s =
        call CALL_DEPTH (.recv buf len) { s with stk := [.netdown, st] } := by
      rw [vcIdleRecv, Act.bind_apply, stkPop_done hup.raised.ne_nil, hstk]
      rfl
    exact (tryCall_apply hup.getLast_top rfl).trans (hpop.trans (hcommon 9 rfl))

end

theorem hdrLen_lt (buf : Mem) : hdrLen buf < 65536 := by
  have h₁ := (buf 10).toNat_lt
  have h₂ := (buf (10 + 1)).toNat_lt
  simp only [hdrLen, Mem.be16]
  omega

section
variable {s : VcAttr} {st : St} {top : List St} {buf : Mem} {mctrl : Int}

theorem frame_fits (buf : Mem) : vcPackSize .param ≤ ((HDR_LEN + hdrLen buf : Nat) : Int) ∧
    (HDR_SIZE : Int) ≤ ((HDR_LEN + hdrLen buf : Nat) : Int) % 2 ^ 64 := by
  have hlt := hdrLen_lt buf
  simp only [vcPackSize, HDR_SIZE, Attach.sizeof, HDR_LEN]
  omega

theorem ignored_of_unacted (hup : Up st top s) (htop : top = [] ∨ top = [.idle])
    (h : Unacted mctrl buf (HDR_LEN + hdrLen buf) s) : Ignored mctrl buf s := by
  obtain ⟨n, hdispatch⟩ := dispatch_common hup htop buf (HDR_LEN + hdrLen buf)
  have hup₁ : Up st [] { s with stk := [.netdown, st] } := ⟨hup.1, rfl, hup.2.2⟩
  obtain ⟨hlen, hbig⟩ := frame_fits buf
  by_contra hnot
  have hmay : (dispatch buf (.frame (HDR_LEN + hdrLen buf))).May asked (fun _ => Acted mctrl) s [] := by
    refine Act.may_of_eq hdispatch ?_
    simp only [upRecv, Act.may_bind]
    exact Act.May.told () (vcCommonRecv_acted n hup₁ hlen hbig hnot)
  obtain ⟨_, s', log, hq, hacted⟩ := Act.Logs.may h hmay
  exact hacted.not_harmless hq

theorem unacted_of_ignored (hup : Up st top s) (htop : top = [] ∨ top = [.idle])
    (hpid : hdrPid buf ≠ VCOM_MAGIC) (h : Ignored mctrl buf s) :
    Unacted mctrl buf (HDR_LEN + hdrLen buf) s := by
  obtain ⟨n, hdispatch⟩ := dispatch_common hup htop buf (HDR_LEN + hdrLen buf)
  have hup₁ : Up st [] { s with stk := [.netdown, st] } := ⟨hup.1, rfl, hup.2.2⟩
  obtain ⟨hlen, hbig⟩ := frame_fits buf
  refine Act.logs_of_eq hdispatch ?_
  simp only [upRecv, Act.logs_bind]
  refine fun _ => vcCommonRecv_unacted n hup₁ hlen hbig hpid rfl ?_ h
  intro e he
  rw [List.mem_singleton.mp he]
  exact id

end

/-- **Frames that are not the protocol's.**  In Net Up, Pause and Idle a frame whose first word
is not the magic number resets the connection or does nothing, exactly if it is neither a
successful reply that Sync acts on nor data for which there is room. -/
theorem alien_frame_iff {s : VcAttr} {st : St} {top : List St} (hup : Up st top s)
    (htop : top = [] ∨ top = [.idle]) {buf : Mem} (hpid : hdrPid buf ≠ VCOM_MAGIC) (mctrl : Int) :
    Unacted mctrl buf (HDR_LEN + hdrLen buf) s ↔ Ignored mctrl buf s :=
  ⟨ignored_of_unacted hup htop, unacted_of_ignored hup htop hpid⟩

/-- A connection in Net Up, with room in the TX ring. -/
def openAttr : VcAttr :=
  { freshAttr with
    stk := [.netdown, .netup], sk := 3, tx := ⟨0, 0, 0, 4096⟩
    eki := { PortInfo.zero with isOpen := 1 } }

theorem openAttr_up : Up .netup [] openAttr := ⟨Or.inl rfl, rfl, by decide, rfl, Or.inl rfl⟩

/-- A frame with no magic number: command, payload length, two parameters and the payload. -/
def alienFrame (cmd p1 p2 : List UInt8) (payload : List UInt8) : Mem :=
  Mem.ofList ([0, 0, 0, 0, 0, 0, 0, 1] ++ cmd ++ [0, UInt8.ofNat payload.length] ++ p1 ++ p2 ++ payload)

/-- One byte of data. -/
def alienData : Mem := alienFrame [8, 0] [0, 0, 0, 0] [0, 0, 0, 1] [0x41]

/-- The answer to a request for the modem status. -/
def alienModem : Mem := alienFrame [0, 0x0e] [0, 0, 0, 0] [0, 0, 0, 0x1a] [0x30, 0, 0, 0]

/-- An answer with a status other than success. -/
def alienFailure : Mem := alienFrame [0, 0x0e] [0xc0, 0, 0, 0x0d] [0, 0, 0, 0x1a] []

theorem alien_failure_resets : hdrPid alienFailure ≠ VCOM_MAGIC ∧
    Unacted 0 alienFailure (HDR_LEN + hdrLen alienFailure) openAttr := by
  have hpid : hdrPid alienFailure ≠ VCOM_MAGIC := by decide
  refine ⟨hpid, (alien_frame_iff openAttr_up (Or.inl rfl) hpid 0).mpr ⟨?_, ?_⟩⟩
  · exact fun _ hstatus => absurd hstatus (by decide)
  · exact fun hcmd => absurd hcmd (by decide)

/-- The byte is stored, and the modem status goes to the driver. -/
theorem alien_frames_acted :
    (hdrPid alienData ≠ VCOM_MAGIC ∧
      ¬ Unacted 0 alienData (HDR_LEN + hdrLen alienData) openAttr) ∧
    (hdrPid alienModem ≠ VCOM_MAGIC ∧
      ¬ Unacted 0 alienModem (HDR_LEN + hdrLen alienModem) openAttr) := by
  refine ⟨⟨by decide, fun h => ?_⟩, by decide, fun h => ?_⟩
  · have hroom := (ignored_of_unacted openAttr_up (Or.inl rfl) h).2 (by decide) 1 (by decide +kernel)
    exact absurd hroom (by decide)
  · have hmodem := ((ignored_of_unacted openAttr_up (Or.inl rfl) h).1 (by decide) (by decide)).2.2
    exact absurd (hmodem (by decide)) (by decide)

end AdvVcom
