/-
# `AdvVcom.Daemon.Framing` — packing and cutting are inverse

The sender packs a call into bytes; the receiver cuts the stream by a header of 20 bytes and
the length in it (`frames`, the rule of `vc_recv_desp`) and reads the fields of each frame.
A `Packing` is a call of a packer with a buffer that is long enough for it, whatever the
buffer held before.

    0    4    8   10   12   16   20
    pid  tid  cmd len  p1   p2   payload       `readPacket`, by command and sub-command

**Proved here.**

    cutting the packets of any calls gives those packets, reading them gives the fields,
    and the fields the arguments; so do the packets of `_set_ms`
                                                              (`packing_framing_inverse`)
-/
import AdvVcom.Daemon.Stream
import AdvVcom.Proto.Determined

namespace AdvVcom

open Lib Lib.Mem Lib.Frames

/-! ## Calls with a buffer -/

/-- The length of the packet; `int` arguments as the packer gets them. -/
def PackCall.size : PackCall → Int
  | .xmit _ datalen _ => 20 + datalen
  | .purge _ _ | .sbaud _ _ | .setwmask _ _ => 24
  | .setlctl _ _ _ _ => 23
  | .hflow _ _ _ => 36
  | _ => 20

/-- The data of `vc_pack_xmit` has a 16-bit length. -/
def PackCall.Ranged : PackCall → Prop
  | .xmit _ datalen _ => 0 ≤ datalen ∧ datalen ≤ 65535
  | _ => True

structure Packing where
  call : PackCall
  pbuf : Mem
  buflen : Int
  ranged : call.Ranged
  fits : call.size ≤ buflen

/-- The `plen` bytes that go out. -/
def wireBytes (r : Int × Mem) : List UInt8 := r.2.slice 0 r.1.toNat

def Packing.bytes (k : Packing) : List UInt8 := wireBytes (k.call.pack k.buflen k.pbuf)

/-! ## Reading a frame -/

/-- What follows the parameters. -/
inductive Payload where
  | none
  /-- A little-endian word. -/
  | word (x : UInt32)
  /-- A word in network order. -/
  | mask (x : UInt32)
  | hflow (chflow flowrep xonlimit : UInt32)
  | lctrl (sbit pair dbit : UInt8)
  | raw (bs : List UInt8)
  deriving DecidableEq

structure Reading where
  pid : UInt32
  tid : UInt32
  cmd : Nat
  len : Nat
  p1 : UInt32
  p2 : UInt32
  payload : Payload
  deriving DecidableEq

def payloadAt (m : Mem) (cmd len : Nat) (p1 : UInt32) : Payload :=
  if cmd = VCOM_CMD_WRITE then .raw (m.slice 20 len)
  else if cmd = VCOM_CMD_IOCTL ∧ len ≠ 0 then
    if p1 = VCOM_IOCTL_PURGE ∨ p1 = VCOM_IOCTL_SET_BAUD_RATE then .word (m.le32 20)
    else if p1 = VCOM_IOCTL_SET_WAIT_MASK then .mask (m.be32 20)
    else if p1 = VCOM_IOCTL_SET_HANDFLOW then .hflow (m.be32 20) (m.be32 24) (m.be32 28)
    else if p1 = VCOM_IOCTL_SET_LINE_CONTROL then .lctrl (m 20) (m 21) (m 22)
    else .none
  else .none

def readPacket (f : List UInt8) : Reading :=
  let m := Mem.ofList f
  { pid := hdrPid m
    tid := hdrTid m
    cmd := hdrCmd m
    len := hdrLen m
    p1 := attachP1 m
    p2 := attachP2 m
    payload := payloadAt m (hdrCmd m) (hdrLen m) (attachP1 m) }

/-- The fields of a call's packet. -/
def PackCall.reading : PackCall → Reading
  | .open tid dev port => ⟨VCOM_MAGIC, tid, VCOM_CMD_CREATE, 0, dev.toUInt32 <<< 16, port, .none⟩
  | .close tid => ⟨VCOM_MAGIC, tid, VCOM_CMD_CLOSE, 0, 0, 0, .none⟩
  | .xmit tid datalen data =>
      ⟨VCOM_MAGIC, tid, VCOM_CMD_WRITE, datalen.toNat, UInt32.ofInt datalen, 0,
        .raw (data.slice 0 datalen.toNat)⟩
  | .qfsize tid fsize =>
      ⟨VCOM_MAGIC, tid, VCOM_CMD_QUEUEFREE, 0, 0, UInt32.ofInt (int32 fsize), .none⟩
  | .purge tid pflags =>
      ⟨VCOM_MAGIC, tid, VCOM_CMD_IOCTL, 4, VCOM_IOCTL_PURGE, 0, .word pflags⟩
  | .sbaud tid baud =>
      ⟨VCOM_MAGIC, tid, VCOM_CMD_IOCTL, 4, VCOM_IOCTL_SET_BAUD_RATE, 0, .word baud⟩
  | .setlctl tid pair dbit sbit =>
      ⟨VCOM_MAGIC, tid, VCOM_CMD_IOCTL, 3, VCOM_IOCTL_SET_LINE_CONTROL, 0, .lctrl sbit pair dbit⟩
  | .hflow tid chflow flowrep =>
      ⟨VCOM_MAGIC, tid, VCOM_CMD_IOCTL, 16, VCOM_IOCTL_SET_HANDFLOW, 0, .hflow chflow flowrep 512⟩
  | .setwmask tid mask =>
      ⟨VCOM_MAGIC, tid, VCOM_CMD_IOCTL, 4, VCOM_IOCTL_SET_WAIT_MASK, 0, .mask mask⟩
  | .getwmask tid => ⟨VCOM_MAGIC, tid, VCOM_CMD_IOCTL, 0, VCOM_IOCTL_GET_WAIT_MASK, 0, .none⟩
  | .param tid subcmd => ⟨VCOM_MAGIC, tid, VCOM_CMD_IOCTL, 0, subcmd, 0, .none⟩

/-! ## From the fields back to the call -/

/-- The packet with these fields, by name and arguments. -/
def Reading.pkt (r : Reading) : Option Pkt :=
  if r.pid ≠ VCOM_MAGIC then none
  else if r.cmd = VCOM_CMD_CREATE then some (.open r.tid (r.p1 >>> 16).toUInt16 r.p2)
  else if r.cmd = VCOM_CMD_CLOSE then some (.close r.tid)
  else if r.cmd = VCOM_CMD_QUEUEFREE then some (.qfsize r.tid (int32 r.p2.toNat))
  else if r.cmd ≠ VCOM_CMD_WRITE ∧ r.cmd ≠ VCOM_CMD_IOCTL then none
  else
    match r.payload with
    | .raw bs => some (.xmit r.tid bs)
    | .word x =>
        if r.p1 = VCOM_IOCTL_PURGE then some (.purge r.tid x) else some (.sbaud r.tid x)
    | .mask x => some (.setwmask r.tid x)
    | .hflow chflow flowrep _ => some (.hflow r.tid chflow flowrep)
    | .lctrl sbit pair dbit => some (.setlctl r.tid pair dbit sbit)
    | .none => some (.param r.tid r.p1)

/-- The call, with an `int` as the packer gets it and the data as bytes. -/
def PackCall.pkt : PackCall → Pkt
  | .open tid dev port => .open tid dev port
  | .close tid => .close tid
  | .xmit tid datalen data => .xmit tid (data.slice 0 datalen.toNat)
  | .qfsize tid fsize => .qfsize tid (int32 fsize)
  | .purge tid pflags => .purge tid pflags
  | .sbaud tid baud => .sbaud tid baud
  | .setlctl tid pair dbit sbit => .setlctl tid pair dbit sbit
  | .hflow tid chflow flowrep => .hflow tid chflow flowrep
  | .setwmask tid mask => .setwmask tid mask
  | .getwmask tid => .param tid VCOM_IOCTL_GET_WAIT_MASK
  | .param tid subcmd => .param tid subcmd

theorem shiftRight_shiftLeft (dev : UInt16) : ((dev.toUInt32 <<< 16) >>> 16).toUInt16 = dev := by
  have hdev := dev.toNat_lt
  apply UInt16.toNat_inj.mp
  simp [UInt32.toNat_shiftLeft, UInt32.toNat_shiftRight, Nat.shiftLeft_eq,
    Nat.shiftRight_eq_div_pow]
  omega

theorem int32_ofInt (x : Int) : int32 (UInt32.ofInt (int32 x)).toNat = int32 x := by
  have hx := int32_range x
  generalize int32 x = y at hx
  have hy : ((UInt32.ofInt y).toNat : Int) = y % 4294967296 := by
    simp only [UInt32.ofInt, UInt32.toNat_ofNat']
    omega
  rw [hy, int32, Int.bmod_def]
  split
  · omega
  · omega

theorem PackCall.reading_pkt (c : PackCall) : c.reading.pkt = some c.pkt := by
  cases c with
  | «open» tid dev port => exact congrArg (fun d => some (Pkt.open tid d port)) (shiftRight_shiftLeft dev)
  | qfsize tid fsize => exact congrArg (fun n => some (Pkt.qfsize tid n)) (int32_ofInt fsize)
  | close | xmit | purge | sbaud | setlctl | hflow | setwmask | getwmask | param => rfl

/-! ## What a packer leaves in its buffer -/

section
variable {pbuf : Mem} {plen buflen : Int} {tid : UInt32} {cmd len : Nat} {p1 p2 : UInt32}
  {fields : Mem → Mem}

/-- The header and the parameters, as they were stored. -/
theorem packed_header (hcmd : cmd < 65536) (hlen : len < 65536) :
    hdrPid (setParam (vcInitHdr pbuf tid cmd len) p1 p2) = VCOM_MAGIC ∧
      hdrTid (setParam (vcInitHdr pbuf tid cmd len) p1 p2) = tid ∧
      hdrCmd (setParam (vcInitHdr pbuf tid cmd len) p1 p2) = cmd ∧
      hdrLen (setParam (vcInitHdr pbuf tid cmd len) p1 p2) = len ∧
      attachP1 (setParam (vcInitHdr pbuf tid cmd len) p1 p2) = p1 ∧
      attachP2 (setParam (vcInitHdr pbuf tid cmd len) p1 p2) = p2 := by
  simp only [hdrPid, hdrTid, hdrCmd, hdrLen, attachP1, attachP2, setParam, vcInitHdr]
  refine ⟨?_, ?_, ?_, ?_, ?_, be32_blit _ _ p2⟩
  · rw [be32_blit_behind (by omega), be32_blit_behind (by omega), be32_blit_behind (by omega),
      be32_blit_behind (by omega), be32_blit_behind (by omega), be32_blit]
  · rw [be32_blit_behind (by omega), be32_blit_behind (by omega), be32_blit_behind (by omega),
      be32_blit_behind (by omega), be32_blit]
  · rw [be16_blit_behind (by omega), be16_blit_behind (by omega), be16_blit_behind (by omega),
      be16_blit _ _ hcmd]
  · rw [be16_blit_behind (by omega), be16_blit_behind (by omega), be16_blit _ _ hlen]
  · rw [be32_blit_behind (by omega), be32_blit]

/-- A packet: its fields, and the bytes behind them in `m`. -/
structure Packed (f : List UInt8) (tid : UInt32) (cmd len : Nat) (p1 p2 : UInt32) (m : Mem) :
    Prop where
  length : f.length = 20 + len
  reads : readPacket f = ⟨VCOM_MAGIC, tid, cmd, len, p1, p2, payloadAt (ofList f) cmd len p1⟩
  body : ∀ i, i < 20 + len → ofList f i = m i

/-- The fields behind the parameters do not touch them. -/
theorem packWith_packed (hplen : plen = 20 + len) (hfit : plen ≤ buflen) (hcmd : cmd < 65536)
    (hlen : len < 65536) (hfields : ∀ m i, i < 20 → fields m i = m i) :
    Packed (wireBytes (packWith plen buflen tid cmd len p1 p2 fields pbuf)) tid cmd len p1 p2
      (fields (setParam (vcInitHdr pbuf tid cmd len) p1 p2)) := by
  have hroom : ¬ plen > buflen := Int.not_lt.mpr hfit
  have hnat : plen.toNat = 20 + len := by omega
  simp only [wireBytes, packWith, if_neg hroom, hnat]
  generalize hm : setParam (vcInitHdr pbuf tid cmd len) p1 p2 = m
  have hhead : hdrPid m = VCOM_MAGIC ∧ hdrTid m = tid ∧ hdrCmd m = cmd ∧ hdrLen m = len ∧
      attachP1 m = p1 ∧ attachP2 m = p2 := by
    rw [← hm]
    exact packed_header hcmd hlen
  obtain ⟨hpid, htid, hcmd', hlen', hp1, hp2⟩ := hhead
  have hbody (i : Nat) (hi : i < 20 + len) : ofList ((fields m).slice 0 (20 + len)) i = fields m i :=
    ofList_slice hi
  have hfront (i : Nat) (hi : i < 20) : ofList ((fields m).slice 0 (20 + len)) i = m i := by
    rw [hbody i (by omega), hfields m i hi]
  have hword (off : Nat) (hoff : off + 4 ≤ 20) :
      (ofList ((fields m).slice 0 (20 + len))).be32 off = m.be32 off :=
    be32_congr fun i _ hi => hfront i (by omega)
  have hshort (off : Nat) (hoff : off + 2 ≤ 20) :
      (ofList ((fields m).slice 0 (20 + len))).be16 off = m.be16 off :=
    be16_congr fun i _ hi => hfront i (by omega)
  refine ⟨length_slice _ _ _, ?_, hbody⟩
  simp only [hdrPid, hdrTid, hdrCmd, hdrLen, attachP1, attachP2] at *
  simp only [readPacket, hdrPid, hdrTid, hdrCmd, hdrLen, attachP1, attachP2,
    hword 0 (by omega), hword 4 (by omega), hword 12 (by omega), hword 16 (by omega),
    hshort 8 (by omega), hshort 10 (by omega),
    hpid, htid, hcmd', hlen', hp1, hp2]

/-- `f` is a frame with the fields `r`. -/
def Reads (f : List UInt8) (r : Reading) : Prop := f.length = 20 + r.len ∧ readPacket f = r

theorem Packed.reads_as {f : List UInt8} {m : Mem} {payload : Payload}
    (h : Packed f tid cmd len p1 p2 m) (hpayload : payloadAt (ofList f) cmd len p1 = payload) :
    Reads f ⟨VCOM_MAGIC, tid, cmd, len, p1, p2, payload⟩ :=
  ⟨h.length, by rw [h.reads, hpayload]⟩

theorem Packed.be32 {f : List UInt8} {m : Mem} (h : Packed f tid cmd len p1 p2 m) (off : Nat)
    (hoff : off + 4 ≤ 20 + len) : (ofList f).be32 off = m.be32 off :=
  be32_congr fun i _ hi => h.body i (by omega)

theorem Packed.le32 {f : List UInt8} {m : Mem} (h : Packed f tid cmd len p1 p2 m) (off : Nat)
    (hoff : off + 4 ≤ 20 + len) : (ofList f).le32 off = m.le32 off :=
  le32_congr fun i _ hi => h.body i (by omega)

/-- No payload. -/
theorem packWith_param_reads (hfit : vcPackSize .param ≤ buflen) (hcmd : cmd < 65536)
    (hwrite : cmd ≠ VCOM_CMD_WRITE) :
    Reads (wireBytes (packWith (vcPackSize .param) buflen tid cmd 0 p1 p2 id pbuf))
      ⟨VCOM_MAGIC, tid, cmd, 0, p1, p2, .none⟩ := by
  have hpacked : Packed (wireBytes (packWith (vcPackSize .param) buflen tid cmd 0 p1 p2 id pbuf))
      tid cmd 0 p1 p2 _ := packWith_packed rfl hfit hcmd (by decide) fun _ _ _ => rfl
  refine hpacked.reads_as ?_
  rw [payloadAt, if_neg hwrite, if_neg fun h => h.2 rfl]

/-- One little-endian word. -/
theorem packWith_word_reads {x : UInt32} (hfit : vcPackSize .uint32 ≤ buflen)
    (hp1 : p1 = VCOM_IOCTL_PURGE ∨ p1 = VCOM_IOCTL_SET_BAUD_RATE) :
    Reads (wireBytes (packWith (vcPackSize .uint32) buflen tid VCOM_CMD_IOCTL 4 p1 p2
        (fun m => m.blit 20 (le32Bytes x)) pbuf))
      ⟨VCOM_MAGIC, tid, VCOM_CMD_IOCTL, 4, p1, p2, .word x⟩ := by
  have hpacked : Packed (wireBytes (packWith (vcPackSize .uint32) buflen tid VCOM_CMD_IOCTL 4 p1 p2
      (fun m => m.blit 20 (le32Bytes x)) pbuf)) tid VCOM_CMD_IOCTL 4 p1 p2 _ :=
    packWith_packed rfl hfit (by decide) (by decide) fun _ _ hi => blit_below hi
  refine hpacked.reads_as ?_
  rw [payloadAt, if_neg (by decide), if_pos (by decide), if_pos hp1, hpacked.le32 20 (by omega),
    le32_blit]

end

theorem vcPackSetwmask_reads {pbuf : Mem} {tid mask : UInt32} {buflen : Int} (hfit : 24 ≤ buflen) :
    Reads (wireBytes (vcPackSetwmask pbuf tid mask buflen))
      ⟨VCOM_MAGIC, tid, VCOM_CMD_IOCTL, 4, VCOM_IOCTL_SET_WAIT_MASK, 0, .mask mask⟩ := by
  have hpacked : Packed (wireBytes (vcPackSetwmask pbuf tid mask buflen)) tid VCOM_CMD_IOCTL 4
      VCOM_IOCTL_SET_WAIT_MASK 0 _ :=
    packWith_packed rfl hfit (by decide) (by decide) fun _ _ hi => blit_below hi
  refine hpacked.reads_as ?_
  rw [payloadAt, if_neg (by decide), if_pos (by decide), if_neg (by decide), if_pos rfl,
    hpacked.be32 20 (by omega), be32_blit]

theorem vcPackHflow_reads {pbuf : Mem} {tid chflow flowrep : UInt32} {buflen : Int}
    (hfit : 36 ≤ buflen) :
    Reads (wireBytes (vcPackHflow pbuf tid chflow flowrep buflen))
      ⟨VCOM_MAGIC, tid, VCOM_CMD_IOCTL, 16, VCOM_IOCTL_SET_HANDFLOW, 0,
        .hflow chflow flowrep 512⟩ := by
  have hpacked : Packed (wireBytes (vcPackHflow pbuf tid chflow flowrep buflen)) tid VCOM_CMD_IOCTL
      16 VCOM_IOCTL_SET_HANDFLOW 0 _ :=
    packWith_packed rfl hfit (by decide) (by decide) fun m i hi => by
      rw [blit_below (by omega), blit_below (by omega), blit_below (by omega), blit_below (by omega)]
  refine hpacked.reads_as ?_
  rw [payloadAt, if_neg (by decide), if_pos (by decide), if_neg (by decide), if_neg (by decide),
    if_pos rfl, hpacked.be32 20 (by omega), hpacked.be32 24 (by omega), hpacked.be32 28 (by omega),
    be32_blit]
  rw [be32_blit_behind (by omega), be32_blit_behind (by omega), be32_blit_behind (by omega), be32_blit]
  rw [be32_blit_behind (by omega), be32_blit_behind (by omega), be32_blit]

theorem vcPackSetlctl_reads {pbuf : Mem} {tid : UInt32} {pair dbit sbit : UInt8} {buflen : Int}
    (hfit : 23 ≤ buflen) :
    Reads (wireBytes (vcPackSetlctl pbuf tid pair dbit sbit buflen))
      ⟨VCOM_MAGIC, tid, VCOM_CMD_IOCTL, 3, VCOM_IOCTL_SET_LINE_CONTROL, 0,
        .lctrl sbit pair dbit⟩ := by
  have hpacked : Packed (wireBytes (vcPackSetlctl pbuf tid pair dbit sbit buflen)) tid VCOM_CMD_IOCTL
      3 VCOM_IOCTL_SET_LINE_CONTROL 0 _ :=
    packWith_packed rfl hfit (by decide) (by decide) fun m i hi => by
      rw [blit_below (by omega), blit_below (by omega), blit_below (by omega)]
  refine hpacked.reads_as ?_
  rw [payloadAt, if_neg (by decide), if_pos (by decide), if_neg (by decide), if_neg (by decide),
    if_neg (by decide), if_pos rfl, hpacked.body 20 (by omega), hpacked.body 21 (by omega),
    hpacked.body 22 (by omega)]
  simp [blit]

theorem vcPackXmit_reads {pbuf : Mem} {tid : UInt32} {datalen : Int} {data : Mem} {buflen : Int}
    (hlo : 0 ≤ datalen) (hhi : datalen ≤ 65535) (hfit : 20 + datalen ≤ buflen) :
    Reads (wireBytes (vcPackXmit pbuf tid datalen (some data) buflen))
      ⟨VCOM_MAGIC, tid, VCOM_CMD_WRITE, datalen.toNat, UInt32.ofInt datalen, 0,
        .raw (data.slice 0 datalen.toNat)⟩ := by
  have hsum : vcPackSize .param + datalen = 20 + datalen := rfl
  have hplen : int32 (vcPackSize .param + datalen) = 20 + datalen.toNat := by
    rw [int32_eq (by omega) (by omega)]
    omega
  have hshort : (datalen % 65536).toNat = datalen.toNat := by omega
  have hlong : (datalen % 2 ^ 64).toNat = datalen.toNat := by omega
  have hpacked : Packed (wireBytes (vcPackXmit pbuf tid datalen (some data) buflen)) tid
      VCOM_CMD_WRITE datalen.toNat (UInt32.ofInt datalen) 0
      ((setParam (vcInitHdr pbuf tid VCOM_CMD_WRITE datalen.toNat) (UInt32.ofInt datalen) 0).blit 20
        (data.slice 0 datalen.toNat)) := by
    rw [vcPackXmit, hshort, hlong]
    exact packWith_packed hplen (by omega) (by decide) (by omega) fun m i hi => blit_below hi
  refine hpacked.reads_as ?_
  rw [payloadAt, if_pos rfl, slice_congr fun i _ hi => hpacked.body i hi]
  have hdata := slice_blit_self (setParam (vcInitHdr pbuf tid VCOM_CMD_WRITE datalen.toNat)
    (UInt32.ofInt datalen) 0) 20 (data.slice 0 datalen.toNat)
  rw [length_slice] at hdata
  rw [hdata]

/-- **Every packet reads back.** -/
theorem Packing.reads (k : Packing) : Reads k.bytes k.call.reading := by
  obtain ⟨c, pbuf, buflen, hranged, hfits⟩ := k
  cases c with
  | «open» | close | qfsize | getwmask | param =>
      exact packWith_param_reads hfits (by decide) (by decide)
  | purge => exact packWith_word_reads hfits (Or.inl rfl)
  | sbaud => exact packWith_word_reads hfits (Or.inr rfl)
  | setwmask => exact vcPackSetwmask_reads hfits
  | hflow => exact vcPackHflow_reads hfits
  | setlctl => exact vcPackSetlctl_reads hfits
  | xmit tid datalen data =>
      obtain ⟨hlo, hhi⟩ := hranged
      have hint : int32 datalen = datalen := int32_eq (by omega) (by omega)
      simp only [Packing.bytes, PackCall.pack, hint]
      exact vcPackXmit_reads hlo hhi hfits

/-- A packet is one frame for the receiver. -/
theorem Reads.isFrame {f : List UInt8} {r : Reading} (h : Reads f r) : IsFrame HDR_LEN bodyLen f := by
  obtain ⟨hlen, hread⟩ := h
  have hbody : bodyLen (f.take HDR_LEN) = r.len := by
    have hr : hdrLen (ofList f) = r.len := congrArg Reading.len hread
    rw [← hr]
    simp only [bodyLen, hdrLen]
    refine be16_congr fun i _ hi => ?_
    have hlt : i < HDR_LEN := by simp only [HDR_LEN]; omega
    simp [ofList, hlt]
  have hhdr : HDR_LEN = 20 := rfl
  refine ⟨?_, ?_⟩
  · omega
  · omega

/-! ## `_set_ms` -/

theorem slice_splice (m m' : Mem) (a b : Nat) :
    (m.splice a m').slice 0 (a + b) = m.slice 0 a ++ m'.slice 0 b := by
  rw [slice_add]
  congr 1
  · refine slice_congr fun i _ hi => ?_
    have hlt : i < a := by omega
    simp [splice, hlt]
  · simp [slice, splice]

/-- The buffer of `_set_ms` holds the packets `ks`, one after the other. -/
structure Queued (s : MsBuf) (ks : List Packing) : Prop where
  nonneg : 0 ≤ s.plen
  bytes : s.buf.slice 0 s.plen.toNat = (ks.map Packing.bytes).flatten

/-- One more packet of two parameters. -/
theorem Queued.append {s : MsBuf} {ks : List Packing} {buflen : Int} {subcmd : UInt32}
    (h : Queued s ks) (hroom : s.plen + 20 ≤ buflen) :
    ∃ k : Packing, k.call = .param s.tid subcmd ∧
      (appendPacket (fun m tid n => packIoctlParam m tid subcmd n) buflen s).plen = s.plen + 20 ∧
      (appendPacket (fun m tid n => packIoctlParam m tid subcmd n) buflen s).tid = s.tid + 1 ∧
      Queued (appendPacket (fun m tid n => packIoctlParam m tid subcmd n) buflen s) (ks ++ [k]) := by
  have hnn := h.nonneg
  have hfits : (PackCall.param s.tid subcmd).size ≤ buflen - s.plen := by
    show (20 : Int) ≤ _
    omega
  refine ⟨⟨.param s.tid subcmd, s.buf.shift s.plen.toNat, buflen - s.plen, trivial, hfits⟩, rfl, ?_⟩
  have hlen : (packIoctlParam (s.buf.shift s.plen.toNat) s.tid subcmd (buflen - s.plen)).1 = 20 := by
    have hroom' : ¬ vcPackSize .param > buflen - s.plen := Int.not_lt.mpr hfits
    simp only [packIoctlParam, packWith, if_neg hroom']
    rfl
  have happend : appendPacket (fun m tid n => packIoctlParam m tid subcmd n) buflen s =
      { plen := s.plen + 20, tid := s.tid + 1,
        buf := s.buf.splice s.plen.toNat
          (packIoctlParam (s.buf.shift s.plen.toNat) s.tid subcmd (buflen - s.plen)).2 } := by
    simp only [appendPacket, hlen]
    rfl
  rw [happend]
  refine ⟨rfl, rfl, by simp only; omega, ?_⟩
  have hsum : (s.plen + 20).toNat = s.plen.toNat + 20 := by omega
  rw [hsum, slice_splice, h.bytes, List.map_append, List.flatten_append]
  simp only [List.map_cons, List.map_nil, List.flatten_cons, List.flatten_nil, List.append_nil,
    Packing.bytes, PackCall.pack, wireBytes, hlen]
  rfl

/-- The packet for one line, if it differs. -/
def lineCalls (ekiMs uartMs bit set clr tid : UInt32) : List PackCall :=
  if ekiMs &&& bit = uartMs &&& bit then []
  else [.param tid (if uartMs &&& bit ≠ 0 then set else clr)]

theorem lineCalls_length_le (ekiMs uartMs bit set clr tid : UInt32) :
    (lineCalls ekiMs uartMs bit set clr tid).length ≤ 1 := by
  unfold lineCalls
  split
  · exact Nat.zero_le 1
  · exact Nat.le_refl 1

/-- One step of `_set_ms`, whose packers differ in their sub-command only. -/
def lineStep (ekiMs uartMs bit set clr : UInt32) (buflen : Int) : MsBuf → MsBuf :=
  setMsStep ekiMs uartMs bit (fun m tid n => packIoctlParam m tid set n)
    (fun m tid n => packIoctlParam m tid clr n) buflen

theorem Queued.line {s : MsBuf} {ks : List Packing} {buflen : Int} (h : Queued s ks)
    (hroom : s.plen + 20 ≤ buflen) (ekiMs uartMs bit set clr : UInt32) :
    ∃ ks', ks'.map Packing.call = lineCalls ekiMs uartMs bit set clr s.tid ∧
      (lineStep ekiMs uartMs bit set clr buflen s).plen = s.plen + 20 * ks'.length ∧
      (lineStep ekiMs uartMs bit set clr buflen s).tid = s.tid + UInt32.ofNat ks'.length ∧
      Queued (lineStep ekiMs uartMs bit set clr buflen s) (ks ++ ks') := by
  simp only [lineStep, setMsStep, lineCalls]
  split
  · exact ⟨[], rfl, by simp, by simp, by simpa using h⟩
  split
  · obtain ⟨k, hcall, hplen, htid, hq⟩ := h.append hroom
    exact ⟨[k], by simp [hcall], by simpa using hplen, htid, hq⟩
  · obtain ⟨k, hcall, hplen, htid, hq⟩ := h.append hroom
    exact ⟨[k], by simp [hcall], by simpa using hplen, htid, hq⟩

/-- The calls of `_set_ms`, RTS first. -/
theorem lineCalls_pkts (ekiMs uartMs tid : UInt32) :
    (lineCalls ekiMs uartMs ADV_MS_RTS VCOM_IOCTL_SET_RTS VCOM_IOCTL_CLR_RTS tid).map PackCall.pkt ++
      (lineCalls ekiMs uartMs ADV_MS_DTR VCOM_IOCTL_SET_DTR VCOM_IOCTL_CLR_DTR
        (tid + UInt32.ofNat (lineCalls ekiMs uartMs ADV_MS_RTS VCOM_IOCTL_SET_RTS VCOM_IOCTL_CLR_RTS
          tid).length)).map PackCall.pkt =
      setMsPkts ekiMs uartMs tid := by
  by_cases hrts : ekiMs &&& ADV_MS_RTS = uartMs &&& ADV_MS_RTS
  · by_cases hdtr : ekiMs &&& ADV_MS_DTR = uartMs &&& ADV_MS_DTR
    · simp only [lineCalls, setMsPkts, if_pos hrts, if_pos hdtr]
      rfl
    · simp only [lineCalls, setMsPkts, if_pos hrts, if_neg hdtr]
      simp [PackCall.pkt, dtrPkt]
  · by_cases hdtr : ekiMs &&& ADV_MS_DTR = uartMs &&& ADV_MS_DTR
    · simp only [lineCalls, setMsPkts, if_neg hrts, if_pos hdtr]
      rfl
    · simp only [lineCalls, setMsPkts, if_neg hrts, if_neg hdtr]
      rfl

/-- What `_set_ms` leaves in its buffer. -/
theorem setMs_queued (ekiMs uartMs tid : UInt32) {buflen : Int} (hroom : 40 ≤ buflen) (pbuf : Mem) :
    ∃ ks, Queued (setMs ekiMs uartMs tid buflen pbuf) ks ∧
      ks.map (fun k => k.call.pkt) = setMsPkts ekiMs uartMs tid := by
  have hstart : Queued { plen := 0, tid := tid, buf := pbuf } [] := ⟨Int.le_refl 0, rfl⟩
  have hroom₀ : (0 : Int) + 20 ≤ buflen := by omega
  obtain ⟨rts, hrts, hplen, htid, hq⟩ := hstart.line hroom₀ ekiMs uartMs ADV_MS_RTS
    VCOM_IOCTL_SET_RTS VCOM_IOCTL_CLR_RTS
  have hone : rts.length ≤ 1 := by
    rw [← List.length_map (f := Packing.call), hrts]
    exact lineCalls_length_le _ _ _ _ _ _
  have hroom₁ : (0 : Int) + 20 * rts.length + 20 ≤ buflen := by omega
  rw [← show _ = (0 : Int) + 20 * rts.length from hplen] at hroom₁
  obtain ⟨dtr, hdtr, -, -, hq'⟩ := hq.line hroom₁ ekiMs uartMs ADV_MS_DTR VCOM_IOCTL_SET_DTR
    VCOM_IOCTL_CLR_DTR
  refine ⟨rts ++ dtr, hq', ?_⟩
  rw [← lineCalls_pkts, ← hrts, List.length_map]
  rw [htid] at hdtr
  rw [← hdtr, List.map_append, List.map_map, List.map_map]
  rfl

/-! ## The round trip -/

/-- Behind the parameters the buffer is as it was. -/
theorem setParam_behind {pbuf : Mem} {tid : UInt32} {cmd len : Nat} {p1 p2 : UInt32} {i : Nat}
    (hi : 20 ≤ i) : setParam (vcInitHdr pbuf tid cmd len) p1 p2 i = pbuf i := by
  have hout (off : Nat) (bs : List UInt8) (hb : off + bs.length ≤ 20) (m : Mem) :
      m.blit off bs i = m i := blit_above (by omega)
  simp only [setParam, vcInitHdr]
  rw [hout 16 _ (by simp), hout 12 _ (by simp), hout 10 _ (by simp), hout 8 _ (by simp),
    hout 4 _ (by simp), hout 0 _ (by simp)]

/-- A null pointer: the data is already in the buffer. -/
theorem vcPackXmit_null (pbuf : Mem) (tid : UInt32) (datalen buflen : Int) :
    vcPackXmit pbuf tid datalen none buflen =
      vcPackXmit pbuf tid datalen (some (pbuf.shift 20)) buflen := by
  simp only [vcPackXmit, packWith]
  split
  · rfl
  refine Prod.ext rfl (funext fun i => ?_)
  generalize (datalen % 2 ^ 64).toNat = n
  rcases Nat.lt_or_ge i 20 with hlt | hge
  · exact (blit_below hlt).symm
  · have hsame : setParam (vcInitHdr pbuf tid VCOM_CMD_WRITE (datalen % 65536).toNat)
        (UInt32.ofInt datalen) 0 i = pbuf i := setParam_behind hge
    by_cases hin : i - 20 < n
    · have hi : 20 + (i - 20) = i := by omega
      simp [blit, hge, slice, shift, hin, hi, hsame]
    · simp [blit, hge, slice, hin]

theorem Packing.readPacket_bytes (k : Packing) : readPacket k.bytes = k.call.reading := k.reads.2

theorem frames_packings (ks : List Packing) :
    frames (ks.map Packing.bytes).flatten = ks.map Packing.bytes := by
  have hall : ∀ f ∈ ks.map Packing.bytes, IsFrame HDR_LEN bodyLen f := by
    intro f hf
    obtain ⟨k, -, rfl⟩ := List.mem_map.mp hf
    exact k.reads.isFrame
  have hcut := cut_flatten (by decide) hall []
  have hnil : cut HDR_LEN bodyLen [] = [] := by
    rw [cut, dif_neg]
    simp [HDR_LEN]
  rw [List.append_nil, hnil, List.append_nil] at hcut
  exact hcut

/-- **Packing and framing are inverse.**  The packets of any calls, written one after the
other, are cut into those packets; each reads back as the fields of its call, and these give
the call.  A null pointer for the data stands for the bytes in the buffer, and the one or two
packets of `_set_ms` are cut and read in the same way. -/
theorem packing_framing_inverse :
    (∀ ks : List Packing,
      frames (ks.map Packing.bytes).flatten = ks.map Packing.bytes ∧
      (frames (ks.map Packing.bytes).flatten).map readPacket = ks.map (fun k => k.call.reading) ∧
      (frames (ks.map Packing.bytes).flatten).map (fun f => (readPacket f).pkt) =
        ks.map (fun k => some k.call.pkt)) ∧
    (∀ (pbuf : Mem) (tid : UInt32) (datalen buflen : Int),
      vcPackXmit pbuf tid datalen none buflen =
        vcPackXmit pbuf tid datalen (some (pbuf.shift 20)) buflen) ∧
    ∀ (ekiMs uartMs tid : UInt32) (room : Nat) (pbuf : Mem),
      let s := setMs ekiMs uartMs tid (40 + room) pbuf
      (frames (wireBytes (s.plen, s.buf))).flatten = wireBytes (s.plen, s.buf) ∧
      (frames (wireBytes (s.plen, s.buf))).map (fun f => (readPacket f).pkt) =
        (setMsPkts ekiMs uartMs tid).map some := by
  have hread (ks : List Packing) : (ks.map Packing.bytes).map (fun f => (readPacket f).pkt) =
      ks.map (fun k => some k.call.pkt) := by
    simp only [List.map_map, Function.comp_def, Packing.readPacket_bytes, PackCall.reading_pkt]
  refine ⟨fun ks => ⟨frames_packings ks, ?_, ?_⟩, vcPackXmit_null, ?_⟩
  · rw [frames_packings]
    simp only [List.map_map, Function.comp_def, Packing.readPacket_bytes]
  · rw [frames_packings]
    exact hread ks
  · intro ekiMs uartMs tid room pbuf s
    obtain ⟨ks, hq, hpkts⟩ := setMs_queued ekiMs uartMs tid (show (40 : Int) ≤ 40 + room by omega) pbuf
    have hbytes : wireBytes (s.plen, s.buf) = (ks.map Packing.bytes).flatten := hq.bytes
    rw [hbytes, frames_packings]
    refine ⟨rfl, ?_⟩
    rw [hread, ← hpkts, List.map_map]
    rfl

end AdvVcom
