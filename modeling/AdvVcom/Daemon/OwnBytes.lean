/-
# `AdvVcom.Daemon.OwnBytes` — a frame is handled by its own bytes

The receive buffer is static and reused: behind a frame of `len` bytes lies whatever
earlier frames left there.  The handling of a frame is a process, the tree of all it
may ask and become; two buffers that agree on the first `len` bytes are treated alike
when these trees are equal, requests with their arguments and variables included.

Every branch but one reads below `len`.  The exception is Sync's GET_MODEMSTATUS,
which reads the four bytes at 20 without a look at the length:

**Proved here**, for every connected daemon and every frame,

    own bytes only  ⟺  not a GET_MODEMSTATUS shorter than 24 bytes    (`ownBytes_iff`)
    a frame of 20 bytes whose handling differs                         (`modem_reads_on`)
-/
import AdvVcom.Daemon.Receive

namespace AdvVcom

open Lib

/-- What lies behind the frame has no effect on its handling. -/
def OwnBytes (buf : Mem) (len : Nat) (s : VcAttr) : Prop :=
  ∀ buf', SameBelow len buf buf' → dispatch buf' (.frame len) s = dispatch buf (.frame len) s

/-- A modem status that ends before the value it should carry. -/
def ShortModem (buf : Mem) (len : Nat) : Prop :=
  hdrCmd buf = VCOM_CMD_IOCTL ∧ attachP1 buf = STATUS_SUCCESS ∧
    attachP2 buf = VCOM_IOCTL_GET_MODEMSTATUS ∧ len < 24

/-- A daemon that may be handed a frame: connected, with a snapshot of a TX ring that
is in range. -/
structure Connected (s : VcAttr) : Prop where
  up : ∃ st top, (top = [] ∨ top = [.idle]) ∧ Up st top s
  tx : s.tx.InRange

/-! ## Reads of the frame -/

section
variable {buf buf' : Mem} {len : Nat}

theorem SameBelow.mono {n : Nat} (h : SameBelow len buf buf') (hn : n ≤ len) :
    SameBelow n buf buf' :=
  fun i hi => h i (by omega)

theorem SameBelow.slice {off n : Nat} (h : SameBelow len buf buf') (hn : off + n ≤ len) :
    buf'.slice off n = buf.slice off n :=
  Mem.slice_congr fun i _ hi => h i (by omega)

theorem SameBelow.be32 {off : Nat} (h : SameBelow len buf buf') (hoff : off + 4 ≤ len) :
    buf'.be32 off = buf.be32 off :=
  Mem.be32_congr fun i _ hi => h i (by omega)

theorem SameBelow.attachUint (h : SameBelow len buf buf') (hlen : 24 ≤ len) :
    attachUint buf' = attachUint buf :=
  Mem.le32_congr fun i _ hi => h i (by omega)

/-- The replies with two parameters are read within the header. -/
theorem SameBelow.vcCheckParam (h : SameBelow HDR_LEN buf buf') (cmd : Nat) (p1 p2 : UInt32)
    (buflen : Int) : vcCheckParam buf' cmd p1 p2 buflen = vcCheckParam buf cmd p1 p2 buflen := by
  have hpid : hdrPid buf' = hdrPid buf := h.be32 (by decide)
  have h₁ : attachP1 buf' = attachP1 buf := h.be32 (by decide)
  have h₂ : attachP2 buf' = attachP2 buf := h.be32 (by decide)
  simp only [AdvVcom.vcCheckParam, vcCheckHdr, hpid, h.hdrCmd, h.hdrLen, h₁, h₂]

theorem SameBelow.vcCheckRecv (h : SameBelow HDR_LEN buf buf') :
    vcCheckRecv buf' = vcCheckRecv buf := by
  have h₁ : attachP1 buf' = attachP1 buf := h.be32 (by decide)
  have h₂ : attachP2 buf' = attachP2 buf := h.be32 (by decide)
  unfold AdvVcom.vcCheckRecv
  rw [h.hdrLen, h₁, h₂]

end

/-! ## Handlers -/

section
variable {buf buf' : Mem} {s : VcAttr} {n : Nat}

theorem getAttr_bind {α : Type} (f : VcAttr → M α) (s : VcAttr) : (getAttr >>= f) s = f s s := rfl

/-- The data of a DATAREADY frame: the copies end where the payload ends. -/
theorem recvData_own (h : SameBelow (HDR_LEN + hdrLen buf) buf buf') (htx : s.tx.InRange) :
    recvData buf' s = recvData buf s := by
  have hcheck : vcCheckRecv buf' = vcCheckRecv buf := (h.mono (Nat.le_add_right _ _)).vcCheckRecv
  have hlroom := htx.lroom_nonneg
  rw [recvData, recvData, getAttr_bind, getAttr_bind, hcheck]
  cases hd : vcCheckRecv buf with
  | none => rfl
  | some d =>
      have hlen := vcCheckRecv_eq hd
      have h₁ : buf'.slice 20 d.toNat = buf.slice 20 d.toNat :=
        h.slice (by simp only [HDR_LEN]; omega)
      simp only [h₁]
      split
      · rfl
      split
      · rfl
      · rename_i _ hwrap
        have h₂ : buf'.slice 20 (getRbLroom s.tx).toNat = buf.slice 20 (getRbLroom s.tx).toNat :=
          h.slice (by simp only [HDR_LEN]; omega)
        have h₃ : buf'.slice (20 + (getRbLroom s.tx).toNat) (d - getRbLroom s.tx).toNat =
            buf.slice (20 + (getRbLroom s.tx).toNat) (d - getRbLroom s.tx).toNat :=
          h.slice (by simp only [HDR_LEN]; omega)
        rw [h₂, h₃]

theorem recvWrite_own (h : SameBelow HDR_LEN buf buf') (len : Int) :
    recvWrite buf' len = recvWrite buf len := by
  have hxmit (datalen : Int) (stat : UInt32) :
      vcCheckXmit buf' datalen stat len = vcCheckXmit buf datalen stat len :=
    h.vcCheckParam VCOM_CMD_WRITE stat (UInt32.ofInt datalen) len
  simp only [recvWrite, hxmit]

/-- The modem status is the same in both buffers, if it is looked at. -/
def SameModem (buf buf' : Mem) : Prop :=
  attachP1 buf = STATUS_SUCCESS → attachP2 buf = VCOM_IOCTL_GET_MODEMSTATUS →
    attachUint buf' = attachUint buf

theorem syncReply_own (h₂ : attachP2 buf' = attachP2 buf)
    (hmodem : attachP2 buf = VCOM_IOCTL_GET_MODEMSTATUS → attachUint buf' = attachUint buf) :
    syncReply buf' = syncReply buf := by
  simp only [syncReply, h₂]
  split
  · rfl
  split
  · rfl
  split
  · rename_i hsub
    rw [hmodem hsub]
  · rfl

theorem checkIoctlRet_own (h : SameBelow HDR_LEN buf buf') (hmodem : SameModem buf buf')
    (hstk : s.stk.length < STACK_MAX) (len : Int) :
    checkIoctlRet (call (n + 1)) buf' len s = checkIoctlRet (call (n + 1)) buf len s := by
  have h₁ : attachP1 buf' = attachP1 buf := h.be32 (by decide)
  have h₂ : attachP2 buf' = attachP2 buf := h.be32 (by decide)
  simp only [checkIoctlRet, h₁, h₂]
  split
  · rfl
  rename_i hstatus
  split
  · have hsync : syncReply buf' = syncReply buf := syncReply_own h₂ (hmodem (not_not.mp hstatus))
    have hlast : (s.stk ++ [St.sync]).getLast? = some .sync := by simp
    rw [Act.bind_apply, Act.bind_apply, stkPush_done hstk]
    show (call (n + 1) (.recv buf' len) _).bind _ = (call (n + 1) (.recv buf len) _).bind _
    rw [call_apply hlast rfl, call_apply hlast rfl, vcSyncRecv, vcSyncRecv, hsync]
  · rfl

theorem vcCommonRecv_own (h : SameBelow (HDR_LEN + hdrLen buf) buf buf')
    (hmodem : hdrCmd buf = VCOM_CMD_IOCTL → SameModem buf buf') (hstk : s.stk.length < STACK_MAX) (htx : s.tx.InRange) (len : Int) :
    vcCommonRecv (call (n + 1)) buf' len s = vcCommonRecv (call (n + 1)) buf len s := by
  have hhdr : SameBelow HDR_LEN buf buf' := h.mono (Nat.le_add_right _ _)
  have hopen (port : UInt32) : vcCheckOpen buf' port len = vcCheckOpen buf port len :=
    hhdr.vcCheckParam VCOM_CMD_CREATE STATUS_SUCCESS port len
  simp only [vcCommonRecv, hhdr.hdrCmd]
  split
  · rfl
  split
  · simp only [hopen]
  split
  · rename_i hcmd
    rw [Act.bind_apply, Act.bind_apply, vcCheckIoctl, vcCheckIoctl]
    split
    · rfl
    · rw [checkIoctlRet_own hhdr (hmodem hcmd) hstk]
  split
  · rw [Act.bind_apply, Act.bind_apply, recvData_own h htx]
  split
  · rw [recvWrite_own hhdr]
  · rfl

/-- The mark is the frame. -/
theorem upRecv_own {len : Nat} (hlen : len = HDR_LEN + hdrLen buf)
    (h : SameBelow (HDR_LEN + hdrLen buf) buf buf')
    (hmodem : hdrCmd buf = VCOM_CMD_IOCTL → SameModem buf buf') (hstk : s.stk.length < STACK_MAX)
    (htx : s.tx.InRange) : upRecv (call (n + 1)) buf' len s = upRecv (call (n + 1)) buf len s := by
  have hmark : buf'.slice 0 len = buf.slice 0 len := h.slice (by omega)
  have hrest := vcCommonRecv_own (n := n) h hmodem hstk htx len
  simp only [upRecv, Int.toNat_natCast, hmark, Act.bind_apply]
  exact congrArg (fun p => Proc.pause (S := VcSig) s (Req.hand (buf.slice 0 len)) fun _ => p) hrest

end

/-! ## The dispatch -/

section
variable {s : VcAttr} {buf buf' : Mem} {len : Nat}

/-- A frame goes to the operation of Net Up or Pause, past Idle. -/
theorem dispatch_frame (h : Connected s) : ∃ n l, l.length < STACK_MAX ∧ ∀ buf len,
    dispatch buf (.frame len) s = upRecv (call (n + 1)) buf len { s with stk := l } := by
  obtain ⟨⟨st, top, htop, hup⟩, -⟩ := h
  rcases htop with rfl | rfl
  · refine ⟨9, s.stk, by simp [hup.2.1, STACK_MAX], fun buf len => ?_⟩
    have hlast := hup.getLast
    rcases hup.1 with rfl | rfl
    · exact tryCall_apply hlast rfl
    · exact tryCall_apply hlast rfl
  · refine ⟨8, [.netdown, st], by simp [STACK_MAX], fun buf len => ?_⟩
    show tryCall (.recv buf len) s = _
    rw [tryCall_apply hup.getLast_top rfl, vcIdleRecv, Act.bind_apply,
      stkPop_done hup.raised.ne_nil, hup.2.1]
    have hlast : ([.netdown, st] : List St).getLast? = some st := rfl
    rcases hup.1 with rfl | rfl
    · exact call_apply hlast rfl
    · exact call_apply hlast rfl

/-- The first thing a process asks; the mark is no question. -/
def firstReq {α : Type} : Proc VcSig VcAttr α → Option Req
  | .pause _ (.hand _) k => firstReq (k ())
  | .pause _ e _ => some e
  | _ => none

theorem firstReq_bind {α β : Type} {p : Proc VcSig VcAttr α} {e : Req} (f : α → M β)
    (h : firstReq p = some e) : firstReq (p.bind f) = some e := by
  induction p with
  | done a s => cases h
  | fault x => cases h
  | pause s e' k ih =>
      cases e' with
      | hand frame => exact ih () h
      | _ => exact h

/-- A modem status goes to the driver, whatever the length of the frame. -/
theorem dispatch_modem (h : Connected s) (hlen : HDR_LEN ≤ len) (hmax : len ≤ RBUF_SIZE)
    (hcmd : hdrCmd buf = VCOM_CMD_IOCTL) (hstatus : attachP1 buf = STATUS_SUCCESS)
    (hsub : attachP2 buf = VCOM_IOCTL_GET_MODEMSTATUS) :
    firstReq (dispatch buf (.frame len) s) = some (.ioctl .sMCtrl (attachUint buf).toNat) := by
  obtain ⟨n, l, hl, hdispatch⟩ := dispatch_frame h
  simp only [HDR_LEN, RBUF_SIZE] at hlen hmax
  have hhdr : ¬ (len : Int) % 2 ^ 64 < HDR_SIZE := by
    simp only [HDR_SIZE]
    omega
  have hparam : ¬ vcPackSize .param > (len : Int) := by
    show ¬ (20 : Int) > len
    omega
  rw [hdispatch]
  show firstReq (vcCommonRecv (call (n + 1)) buf len { s with stk := l }) = _
  rw [vcCommonRecv, if_neg hhdr]
  simp only [hcmd]
  rw [if_neg (by decide), if_pos trivial, Act.bind_apply]
  refine firstReq_bind _ ?_
  rw [vcCheckIoctl, if_neg hparam, checkIoctlRet]
  simp only [hstatus, hsub]
  rw [if_neg (by decide), if_pos (by decide), Act.bind_apply, stkPush_done hl]
  show firstReq ((call (n + 1) (.recv buf len) _).bind _) = _
  refine firstReq_bind _ ?_
  have hlast : (l ++ [St.sync]).getLast? = some .sync := by simp
  rw [call_apply hlast rfl, vcSyncRecv, Act.bind_apply]
  refine firstReq_bind _ ?_
  rw [syncReply]
  simp only [hsub]
  rw [if_neg (by decide), if_neg (by decide), if_pos trivial]
  rfl

/-- A change of its top byte changes a little-endian value. -/
theorem attachUint_ne (buf : Mem) :
    attachUint (Function.update buf 23 (buf 23 + 1)) ≠ attachUint buf := by
  intro h
  have hnat (m : Mem) : (attachUint m).toNat = ((m 23).toNat * 256 + (m 22).toNat) * 65536 +
      ((m 21).toNat * 256 + (m 20).toNat) := by
    have h₀ := (m 20).toNat_lt
    have h₁ := (m 21).toNat_lt
    have h₂ := (m 22).toNat_lt
    have h₃ := (m 23).toNat_lt
    simp only [attachUint, Mem.le32, UInt32.toNat_ofNat', Nat.reduceAdd]
    omega
  have htop : buf 23 + 1 ≠ buf 23 := by
    intro heq
    have hone : UInt8.toNat 1 = 1 := rfl
    have hnext := congrArg UInt8.toNat heq
    rw [UInt8.toNat_add, hone] at hnext
    omega
  have h' := congrArg UInt32.toNat h
  rw [hnat, hnat] at h'
  simp only [Function.update_self, Function.update_of_ne (show (22 : Nat) ≠ 23 by decide),
    Function.update_of_ne (show (21 : Nat) ≠ 23 by decide),
    Function.update_of_ne (show (20 : Nat) ≠ 23 by decide)] at h'
  exact htop (UInt8.toNat_inj.mp (by omega))

/-- **Own bytes only, but for a short modem status.** -/
theorem ownBytes_iff (h : Connected s) (hlen : len = HDR_LEN + hdrLen buf) (hmax : len ≤ RBUF_SIZE) :
    OwnBytes buf len s ↔ ¬ ShortModem buf len := by
  constructor
  · rintro hown ⟨hcmd, hstatus, hsub, hshort⟩
    -- the byte at 23 lies behind the frame and is the top byte of the value
    have hsame : SameBelow len buf (Function.update buf 23 (buf 23 + 1)) :=
      fun i hi => Function.update_of_ne (by omega) _ _
    have hhdr : SameBelow HDR_LEN buf (Function.update buf 23 (buf 23 + 1)) :=
      hsame.mono (by omega)
    have h₁ := dispatch_modem h (by omega) hmax hcmd hstatus hsub
    have h₂ := dispatch_modem h (by omega) hmax (hhdr.hdrCmd.trans hcmd)
      ((hhdr.be32 (by decide)).trans hstatus) ((hhdr.be32 (by decide)).trans hsub)
    rw [hown _ hsame, h₁] at h₂
    simp only [Option.some.injEq, Req.ioctl.injEq, true_and] at h₂
    exact attachUint_ne buf (UInt32.toNat_inj.mp (Int.ofNat_inj.mp h₂.symm))
  · intro hlong buf' hsame
    have hmodem : hdrCmd buf = VCOM_CMD_IOCTL → SameModem buf buf' := by
      intro hcmd hstatus hsub
      refine hsame.attachUint ?_
      by_contra hshort
      exact hlong ⟨hcmd, hstatus, hsub, by omega⟩
    obtain ⟨n, l, hl, hdispatch⟩ := dispatch_frame h
    rw [hdispatch, hdispatch]
    rw [hlen] at hsame
    exact upRecv_own (s := { s with stk := l }) hlen hsame hmodem hl h.tx

end

/-! ## A frame that is too short -/

/-- A GET_MODEMSTATUS answer with `len` bytes behind its header, in a buffer that holds
`rest` from there on. -/
def modemFrame (len : Nat) (rest : UInt8) : Mem := fun i =>
  ((be32Bytes VCOM_MAGIC ++ be32Bytes 0 ++ be16Bytes VCOM_CMD_IOCTL ++ be16Bytes len ++
    be32Bytes STATUS_SUCCESS ++ be32Bytes VCOM_IOCTL_GET_MODEMSTATUS)[i]?).getD rest

/-- A daemon in Net Up with empty rings. -/
def upAttr : VcAttr :=
  { sk := 3, xmitPending := 0, ssl := none, port := 1, tid := 7, devid := 0,
    stk := [.netdown, .netup], eki := { PortInfo.zero with isOpen := 1 },
    view := { PortInfo.zero with isOpen := 1 }, tx := ⟨0, 0, 0, 4096⟩, rx := ⟨0, 0, 0, 4096⟩ }

theorem upAttr_connected : Connected upAttr :=
  ⟨⟨.netup, [], Or.inl rfl, Or.inl rfl, rfl, by decide, rfl, Or.inr rfl⟩,
    ⟨rfl, by decide, by decide, by decide, by decide⟩⟩

theorem ownBytes_whole : OwnBytes (modemFrame 4 0) 24 upAttr :=
  (ownBytes_iff upAttr_connected (by decide) (by decide)).mpr fun h => absurd h.2.2.2 (by decide)

/-- The modem lines the driver is told are those of an earlier frame. -/
theorem modem_reads_on : Connected upAttr ∧ 20 = HDR_LEN + hdrLen (modemFrame 0 0) ∧
    SameBelow 20 (modemFrame 0 0) (modemFrame 0 0xff) ∧
    firstReq (dispatch (modemFrame 0 0) (.frame 20) upAttr) = some (.ioctl .sMCtrl 0) ∧
    firstReq (dispatch (modemFrame 0 0xff) (.frame 20) upAttr) = some (.ioctl .sMCtrl 0xffffffff) ∧
    ¬ OwnBytes (modemFrame 0 0) 20 upAttr := by
  have hsame : SameBelow 20 (modemFrame 0 0) (modemFrame 0 0xff) := by
    show ∀ i < 20, modemFrame 0 0xff i = modemFrame 0 0 i
    decide
  have h₁ : firstReq (dispatch (modemFrame 0 0) (.frame 20) upAttr) = some (.ioctl .sMCtrl 0) := by
    decide +kernel
  have h₂ : firstReq (dispatch (modemFrame 0 0xff) (.frame 20) upAttr) =
      some (.ioctl .sMCtrl 0xffffffff) := by
    decide +kernel
  refine ⟨upAttr_connected, by decide, hsame, h₁, h₂, fun hown => ?_⟩
  rw [hown _ hsame, h₁] at h₂
  cases h₂

end AdvVcom
