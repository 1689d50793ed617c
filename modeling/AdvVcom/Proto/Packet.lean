/-
# `AdvVcom.Proto.Packet` — the packets of the VCOM protocol

`struct vc_proto_packet` is packed, so a packet is its bytes:

    0    4    8   10   12   16   20
    pid  tid  cmd len  p1   p2   ext …

`pid`, `tid`, `cmd`, `len`, `p1`, `p2` are in network order.  What follows depends
on the overlay of the union: one word (`uint32`), four words (`hflow`), three
bytes (`lctrl`) or raw data.

A packer writes the fields of its overlay one after the other into a buffer it
does not clear, and returns the length of the packet, or 0 if the buffer is too
short.  Here it takes the buffer as it was and returns the length and the buffer
as it is then; bytes it does not assign keep their old value.

`Pkt` is a packet by name and arguments, `PackCall` a call of a packer with
arbitrary C arguments; every `Pkt` is one of those calls (`Pkt.call`).
-/
import AdvVcom.Lib.Bytes
import AdvVcom.Shared

namespace AdvVcom

open Lib

/-! ## Numbers -/

def VCOM_MAGIC : UInt32 := 0x4d414441

def STATUS_SUCCESS : UInt32 := 0x00000000
def STATUS_DEVICE_BUSY : UInt32 := 0x80000011

def VCOM_CMD_CREATE : Nat := 0x0000
def VCOM_CMD_CLOSE : Nat := 0x0002
def VCOM_CMD_WRITE : Nat := 0x0004
def VCOM_CMD_IOCTL : Nat := 0x000e
def VCOM_CMD_QUEUEFREE : Nat := 0x0900
def VCOM_CMD_DATAREADY : Nat := 0x0800

def VCOM_IOCTL_SET_BAUD_RATE : UInt32 := 0x01
def VCOM_IOCTL_SET_LINE_CONTROL : UInt32 := 0x03
def VCOM_IOCTL_SET_DTR : UInt32 := 0x09
def VCOM_IOCTL_CLR_DTR : UInt32 := 0x0a
def VCOM_IOCTL_SET_RTS : UInt32 := 0x0c
def VCOM_IOCTL_CLR_RTS : UInt32 := 0x0d
def VCOM_IOCTL_GET_WAIT_MASK : UInt32 := 0x10
def VCOM_IOCTL_SET_WAIT_MASK : UInt32 := 0x11
def VCOM_IOCTL_WAIT_ON_MASK : UInt32 := 0x12
def VCOM_IOCTL_PURGE : UInt32 := 0x13
def VCOM_IOCTL_SET_HANDFLOW : UInt32 := 0x19
def VCOM_IOCTL_GET_MODEMSTATUS : UInt32 := 0x1a

/-- The overlays of the packet union, with `sizeof`. -/
inductive Attach where
  | param | uint32 | hflow | lctrl
  deriving DecidableEq

def Attach.sizeof : Attach → Nat
  | .param => 8
  | .uint32 => 12
  | .hflow => 24
  | .lctrl => 11

/-- `sizeof(struct vc_proto_hdr)`. -/
def HDR_SIZE : Nat := 12

def vcPackSize (a : Attach) : Int := HDR_SIZE + a.sizeof

def vcExtSize (a : Attach) : Nat := a.sizeof - Attach.param.sizeof

/-! ## Packers -/

def vcInitHdr (pbuf : Mem) (tid : UInt32) (cmd len : Nat) : Mem :=
  (((pbuf.blit 0 (be32Bytes VCOM_MAGIC)).blit 4 (be32Bytes tid)).blit 8 (be16Bytes cmd)).blit 10
    (be16Bytes len)

/-- `attach.param.p1` and `attach.param.p2`. -/
def setParam (pbuf : Mem) (p1 p2 : UInt32) : Mem :=
  (pbuf.blit 12 (be32Bytes p1)).blit 16 (be32Bytes p2)

/-- What the packers share: the test of the buffer's length, the header, the two
parameters, and then the fields of the overlay. -/
def packWith (plen buflen : Int) (tid : UInt32) (cmd len : Nat) (p1 p2 : UInt32)
    (fields : Mem → Mem) (pbuf : Mem) : Int × Mem :=
  if plen > buflen then (0, pbuf)
  else (plen, fields (setParam (vcInitHdr pbuf tid cmd len) p1 p2))

def vcPackQfsize (pbuf : Mem) (tid : UInt32) (fsize buflen : Int) : Int × Mem :=
  packWith (vcPackSize .param) buflen tid VCOM_CMD_QUEUEFREE (vcExtSize .param)
    0 (UInt32.ofInt fsize) id pbuf

def vcPackClose (pbuf : Mem) (tid : UInt32) (buflen : Int) : Int × Mem :=
  packWith (vcPackSize .param) buflen tid VCOM_CMD_CLOSE (vcExtSize .param) 0 0 id pbuf

/-- `data` is `none` for a null pointer: then the caller has put the bytes in place.
`memcpy` takes its length as a `size_t`. -/
def vcPackXmit (pbuf : Mem) (tid : UInt32) (datalen : Int) (data : Option Mem) (buflen : Int) :
    Int × Mem :=
  packWith (int32 (vcPackSize .param + datalen)) buflen tid VCOM_CMD_WRITE
    (datalen % 65536).toNat (UInt32.ofInt datalen) 0
    (fun m => match data with
      | some src => m.blit 20 (src.slice 0 (datalen % 2 ^ 64).toNat)
      | none => m) pbuf

/-- `dev` is a 16-bit number, shifted into the upper half of `p1`. -/
def vcPackOpen (pbuf : Mem) (tid : UInt32) (dev : UInt16) (port : UInt32) (buflen : Int) :
    Int × Mem :=
  packWith (vcPackSize .param) buflen tid VCOM_CMD_CREATE (vcExtSize .param)
    (dev.toUInt32 <<< 16) port id pbuf

def vcPackPurge (pbuf : Mem) (tid pflags : UInt32) (buflen : Int) : Int × Mem :=
  packWith (vcPackSize .uint32) buflen tid VCOM_CMD_IOCTL (vcExtSize .uint32)
    VCOM_IOCTL_PURGE 0 (fun m => m.blit 20 (le32Bytes pflags)) pbuf

def vcPackSbaud (pbuf : Mem) (tid baud : UInt32) (buflen : Int) : Int × Mem :=
  packWith (vcPackSize .uint32) buflen tid VCOM_CMD_IOCTL (vcExtSize .uint32)
    VCOM_IOCTL_SET_BAUD_RATE 0 (fun m => m.blit 20 (le32Bytes baud)) pbuf

/-- `_pack_ioctl_param`. -/
def packIoctlParam (pbuf : Mem) (tid subcmd : UInt32) (buflen : Int) : Int × Mem :=
  packWith (vcPackSize .param) buflen tid VCOM_CMD_IOCTL (vcExtSize .param) subcmd 0 id pbuf

def vcPackWomask (pbuf : Mem) (tid : UInt32) (buflen : Int) : Int × Mem :=
  packIoctlParam pbuf tid VCOM_IOCTL_WAIT_ON_MASK buflen

def vcPackSetrts (pbuf : Mem) (tid : UInt32) (buflen : Int) : Int × Mem :=
  packIoctlParam pbuf tid VCOM_IOCTL_SET_RTS buflen

def vcPackSetdtr (pbuf : Mem) (tid : UInt32) (buflen : Int) : Int × Mem :=
  packIoctlParam pbuf tid VCOM_IOCTL_SET_DTR buflen

def vcPackClrrts (pbuf : Mem) (tid : UInt32) (buflen : Int) : Int × Mem :=
  packIoctlParam pbuf tid VCOM_IOCTL_CLR_RTS buflen

def vcPackClrdtr (pbuf : Mem) (tid : UInt32) (buflen : Int) : Int × Mem :=
  packIoctlParam pbuf tid VCOM_IOCTL_CLR_DTR buflen

def vcPackGetmodem (pbuf : Mem) (tid : UInt32) (buflen : Int) : Int × Mem :=
  packIoctlParam pbuf tid VCOM_IOCTL_GET_MODEMSTATUS buflen

/-- The limit at offset 28 is assigned twice, the one at 32 not at all. -/
def vcPackHflow (pbuf : Mem) (tid chflow flowrep : UInt32) (buflen : Int) : Int × Mem :=
  packWith (vcPackSize .hflow) buflen tid VCOM_CMD_IOCTL (vcExtSize .hflow)
    VCOM_IOCTL_SET_HANDFLOW 0
    (fun m => (((m.blit 20 (be32Bytes chflow)).blit 24 (be32Bytes flowrep)).blit 28
      (be32Bytes 1024)).blit 28 (be32Bytes 512)) pbuf

def vcPackSetwmask (pbuf : Mem) (tid mask : UInt32) (buflen : Int) : Int × Mem :=
  packWith (vcPackSize .uint32) buflen tid VCOM_CMD_IOCTL (vcExtSize .uint32)
    VCOM_IOCTL_SET_WAIT_MASK 0 (fun m => m.blit 20 (be32Bytes mask)) pbuf

def vcPackGetwmask (pbuf : Mem) (tid : UInt32) (buflen : Int) : Int × Mem :=
  packWith (vcPackSize .param) buflen tid VCOM_CMD_IOCTL (vcExtSize .param)
    VCOM_IOCTL_GET_WAIT_MASK 0 id pbuf

/-- The overlay has `sbit` at 20, `pair` at 21 and `dbit` at 22. -/
def vcPackSetlctl (pbuf : Mem) (tid : UInt32) (pair dbit sbit : UInt8) (buflen : Int) :
    Int × Mem :=
  packWith (vcPackSize .lctrl) buflen tid VCOM_CMD_IOCTL (vcExtSize .lctrl)
    VCOM_IOCTL_SET_LINE_CONTROL 0
    (fun m => ((m.blit 21 [pair]).blit 22 [dbit]).blit 20 [sbit]) pbuf

/-! ## Packets by name -/

/-- A call of a packer, without the buffer and its length. -/
inductive PackCall where
  | open (tid : UInt32) (dev : UInt16) (port : UInt32)
  | close (tid : UInt32)
  | xmit (tid : UInt32) (datalen : Int) (data : Mem)
  | qfsize (tid : UInt32) (fsize : Int)
  | purge (tid pflags : UInt32)
  | sbaud (tid baud : UInt32)
  | setlctl (tid : UInt32) (pair dbit sbit : UInt8)
  | hflow (tid chflow flowrep : UInt32)
  | setwmask (tid mask : UInt32)
  | getwmask (tid : UInt32)
  | param (tid subcmd : UInt32)

/-- An `int` argument holds 32 bits. -/
def PackCall.pack (buflen : Int) (pbuf : Mem) : PackCall → Int × Mem
  | .open tid dev port => vcPackOpen pbuf tid dev port buflen
  | .close tid => vcPackClose pbuf tid buflen
  | .xmit tid datalen data => vcPackXmit pbuf tid (int32 datalen) (some data) buflen
  | .qfsize tid fsize => vcPackQfsize pbuf tid (int32 fsize) buflen
  | .purge tid pflags => vcPackPurge pbuf tid pflags buflen
  | .sbaud tid baud => vcPackSbaud pbuf tid baud buflen
  | .setlctl tid pair dbit sbit => vcPackSetlctl pbuf tid pair dbit sbit buflen
  | .hflow tid chflow flowrep => vcPackHflow pbuf tid chflow flowrep buflen
  | .setwmask tid mask => vcPackSetwmask pbuf tid mask buflen
  | .getwmask tid => vcPackGetwmask pbuf tid buflen
  | .param tid subcmd => packIoctlParam pbuf tid subcmd buflen

/-- A packet the daemon sends. -/
inductive Pkt where
  | open (tid : UInt32) (dev : UInt16) (port : UInt32)
  | close (tid : UInt32)
  | xmit (tid : UInt32) (data : List UInt8)
  | qfsize (tid : UInt32) (fsize : Int)
  | purge (tid pflags : UInt32)
  | sbaud (tid baud : UInt32)
  | setlctl (tid : UInt32) (pair dbit sbit : UInt8)
  | hflow (tid chflow flowrep : UInt32)
  | setwmask (tid mask : UInt32)
  | param (tid subcmd : UInt32)
  deriving DecidableEq, Repr

def Pkt.call : Pkt → PackCall
  | .open tid dev port => .open tid dev port
  | .close tid => .close tid
  | .xmit tid data => .xmit tid data.length (fun i => data.getD i 0)
  | .qfsize tid fsize => .qfsize tid fsize
  | .purge tid pflags => .purge tid pflags
  | .sbaud tid baud => .sbaud tid baud
  | .setlctl tid pair dbit sbit => .setlctl tid pair dbit sbit
  | .hflow tid chflow flowrep => .hflow tid chflow flowrep
  | .setwmask tid mask => .setwmask tid mask
  | .param tid subcmd => .param tid subcmd

/-- What the packer returns for a buffer of `buflen` bytes. -/
def Pkt.plen (p : Pkt) (buflen : Int) : Int := (p.call.pack buflen fun _ => 0).1

/-! ## Reading a received packet -/

def hdrPid (m : Mem) : UInt32 := m.be32 0
def hdrTid (m : Mem) : UInt32 := m.be32 4
def hdrCmd (m : Mem) : Nat := m.be16 8
def hdrLen (m : Mem) : Nat := m.be16 10
def attachP1 (m : Mem) : UInt32 := m.be32 12
def attachP2 (m : Mem) : UInt32 := m.be32 16

/-- `le32toh(attach.uint32.uint)`. -/
def attachUint (m : Mem) : UInt32 := m.le32 20

/-- `vc_check_hdr` returned 0. -/
def vcCheckHdr (hdr : Mem) (cmd len : Nat) : Bool :=
  hdrPid hdr == VCOM_MAGIC && hdrCmd hdr == cmd && hdrLen hdr == len

/-- The replies that carry two parameters: their length, header and parameters. -/
def vcCheckParam (pbuf : Mem) (cmd : Nat) (p1 p2 : UInt32) (buflen : Int) : Bool :=
  decide (vcPackSize .param ≤ buflen) && vcCheckHdr pbuf cmd (vcExtSize .param) &&
    attachP1 pbuf == p1 && attachP2 pbuf == p2

/-- `vc_check_xmit` returned 0. -/
def vcCheckXmit (pbuf : Mem) (datalen : Int) (stat : UInt32) (buflen : Int) : Bool :=
  vcCheckParam pbuf VCOM_CMD_WRITE stat (UInt32.ofInt datalen) buflen

/-- `vc_check_open` returned 0; it does not look at the device id it is given. -/
def vcCheckOpen (pbuf : Mem) (port : UInt32) (buflen : Int) : Bool :=
  vcCheckParam pbuf VCOM_CMD_CREATE STATUS_SUCCESS port buflen

/-- `vc_check_recv`: the payload length, if it returned 0. -/
@[irreducible] def vcCheckRecv (pbuf : Mem) : Option Int :=
  let plen : Int := hdrLen pbuf
  let status := int32 (attachP1 pbuf).toNat
  let alen := int32 (attachP2 pbuf).toNat
  if status ≠ 0 then none
  else if plen ≠ alen then none
  else some alen

end AdvVcom
