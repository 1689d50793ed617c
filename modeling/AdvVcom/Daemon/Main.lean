/-
# `AdvVcom.Daemon.Main` — receiving a frame, and the main loop

`vcom_client.c` from `recv_second_chance` on.  A frame is a 20-byte header and
`ntohs(hdr.len)` bytes behind it, read in two goes into one static buffer; each go
may need a second read.  `vcRecvFrame` is `vc_recv_desp` up to the point where it
either gives up or has a frame, `vcRecvDesp` adds what it does then.

`iteration` is the body of main's `while(1)`, cut into the parts its comments and
blank lines separate.  What main keeps between rounds besides `struct vc_attr` is
`lrecv` and the receive buffer.
-/
import AdvVcom.Daemon.Handlers

namespace AdvVcom

open Lib

/-! ## One read with a second chance -/

def RBUF_SIZE : Nat := 4096

def SSL_OPS_FAIL : Int := -1
def SSL_OPS_SELECT : Int := -2

/-- `sizeof(struct vc_proto_hdr) + sizeof(struct vc_attach_param)`. -/
def HDR_LEN : Nat := 20

def RecvRet.ret : RecvRet → Int
  | .data bs => bs.length
  | .eof => 0
  | .err => -1

/-- The buffer after the bytes have been stored. -/
def RecvRet.store (buf : Mem) (off : Nat) : RecvRet → Mem
  | .data bs => buf.blit off bs
  | .eof | .err => buf

def SslRead.ret : SslRead → Int
  | .data bs => bs.length
  | .want _ => SSL_OPS_SELECT
  | .fail => SSL_OPS_FAIL

def SslRead.store (buf : Mem) (off : Nat) : SslRead → Mem
  | .data bs => buf.blit off bs
  | .want _ | .fail => buf

/-- `recv_second_chance`, with 0 when nothing comes in 10 ms. -/
def recvSecondChance (off len : Nat) : M RecvRet := do
  if ← selRd then recv off len else pure .eof

/-- `vc_frame_recv_tcp`: the return code, and the buffer. -/
def vcFrameRecvTcp (buf : Mem) (off rlen : Nat) : M (Int × Mem) := do
  let r ← recv off rlen
  let buf := r.store buf off
  let len := r.ret
  if len ≤ 0 then pure (-1, buf)
  else if len = rlen then pure (len, buf)
  else if len < rlen then
    let r' ← recvSecondChance (off + len.toNat) (rlen - len.toNat)
    let buf := r'.store buf (off + len.toNat)
    if len + r'.ret = rlen then pure (len + r'.ret, buf) else pure (-2, buf)
  else pure (-2, buf)

/-- `vc_frame_recv_ssl`. -/
def vcFrameRecvSsl (buf : Mem) (off rlen : Nat) : M (Int × Mem) := do
  let r ← sslRecvDirect off rlen
  setRecv r.event
  let buf := r.store buf off
  let len := r.ret
  if len = SSL_OPS_SELECT then pure (len, buf)
  else if 0 < len ∧ len = rlen then pure (len, buf)
  else if 0 < len ∧ len < rlen then
    let r' ← sslRecvSimple (off + len.toNat) (rlen - len.toNat)
    setRecv r'.event
    let buf := r'.store buf (off + len.toNat)
    if len + r'.ret = rlen then pure (len + r'.ret, buf)
    else
      sslErrStr
      stkLog
      pure (SSL_OPS_FAIL, buf)
  else
    sslErrStr
    stkLog
    pure (SSL_OPS_FAIL, buf)

/-! ## One frame -/

/-- How `vc_recv_desp` ends: nothing to read yet, an exception, or a frame of `len`
bytes in the buffer. -/
inductive Outcome where
  | select
  | reset
  | frame (len : Nat)
  deriving DecidableEq, Repr

/-- The header: `none` to go on. -/
def recvHeader (buf : Mem) : M (Option Outcome × Mem) := do
  let a ← getAttr
  if a.ssl.isSome then
    let (ret, buf) ← vcFrameRecvSsl buf 0 HDR_LEN
    if ret = SSL_OPS_SELECT then pure (some .select, buf)
    else if ret ≤ 0 then pure (some .reset, buf)
    else pure (none, buf)
  else
    let (ret, buf) ← vcFrameRecvTcp buf 0 HDR_LEN
    if ret < 0 then pure (some .reset, buf) else pure (none, buf)

/-- The payload of `packetLen` bytes. -/
def recvPayload (buf : Mem) (packetLen : Nat) : M (Outcome × Mem) := do
  if packetLen > RBUF_SIZE - HDR_LEN then pure (.reset, buf)
  else
    let a ← getAttr
    if a.ssl.isSome then
      let (ret, buf) ← vcFrameRecvSsl buf HDR_LEN packetLen
      if ret ≤ 0 then pure (.reset, buf) else pure (.frame (HDR_LEN + packetLen), buf)
    else
      let (ret, buf) ← vcFrameRecvTcp buf HDR_LEN packetLen
      if ret < 0 then pure (.reset, buf) else pure (.frame (HDR_LEN + packetLen), buf)

/-- What follows the header. -/
def recvBody (buf : Mem) : M (Outcome × Mem) :=
  let packetLen := hdrLen buf
  if packetLen > 0 then recvPayload buf packetLen else pure (.frame HDR_LEN, buf)

/-- `vc_recv_desp` up to the call of the current state. -/
def vcRecvFrame (buf : Mem) : M (Outcome × Mem) := do
  match ← recvHeader buf with
  | (some outcome, buf) => pure (outcome, buf)
  | (none, buf) =>
      if hdrCmd buf = VCOM_CMD_DATAREADY then vcBufUpdateTx
      recvBody buf

/-- What becomes of the outcome. -/
def dispatch (buf : Mem) : Outcome → M Unit
  | .select => retCurnt
  | .reset => excpInit (call CALL_DEPTH)
  | .frame len => tryCall (.recv buf len)

def vcRecvDesp (buf : Mem) : M Mem := do
  let (outcome, buf) ← vcRecvFrame buf
  dispatch buf outcome
  pure buf

/-! ## The main loop -/

def VC_PULL_TIME : UInt32 := 10000000

/-- What main keeps from round to round. -/
structure LoopState where
  lrecv : UInt32
  buf : Mem

/-- The tty was opened or closed. -/
def checkOpen : M Unit := do
  let a ← getAttr
  if a.view.isOpen ≠ a.eki.isOpen then
    if a.view.isOpen ≠ 0 then call CALL_DEPTH .open else call CALL_DEPTH .close

def settingsDiffer (a : VcAttr) : Bool :=
  a.view.baud != a.eki.baud || a.view.pair != a.eki.pair || a.view.flowctl != a.eki.flowctl ||
    a.view.byte != a.eki.byte || a.view.stop != a.eki.stop || a.view.ms != a.eki.ms

def checkSettings : M Unit := do
  let a ← getAttr
  if settingsDiffer a then tryCall .ioctl

def checkXmit : M Unit := do
  let a ← getAttr
  if a.xmitPending = 0 then
    if !isRbEmpty a.rx then tryCall .xmit

def checkPause : M Unit := do
  let a ← getAttr
  if !isRbEmpty a.tx then tryCall .pause

/-- The sets after `FD_SET` in main and the `event` operation of the current state. -/
def eventSets (st : St) (a : VcAttr) : FdSets :=
  let base : FdSets := { fdR := false, fdW := false, fdE := true, skR := true, skW := false }
  match st with
  | .netup => { base with fdR := a.xmitPending == 0 }
  | .pause => { base with fdR := a.xmitPending == 0, fdW := true }
  | _ => base

/-- `ssl_set_fds`. -/
def sslSetFds (s : SslInfo) (fds : FdSets) : FdSets :=
  { fds with
    skW := fds.skW || s.recv.write || s.connect.write || s.send.write
    skR := fds.skR || s.recv.read || s.connect.read || s.send.read }

/-- The receive attempt before `select` in TLS mode; whether `select` must not wait. -/
def tlsRecv (buf : Mem) (fds : FdSets) : M (Mem × FdSets × Bool) := do
  let a ← getAttr
  if a.ssl.isSome ∧ a.sk ≥ 0 then
    let buf ← vcRecvDesp buf
    let a ← getAttr
    let fds := match a.ssl with
      | some s => sslSetFds s fds
      | none => fds
    modifyAttr fun a => { a with ssl := a.ssl.map fun s =>
      { s with recv := { s.recv with read := true } } }
    let zero ← sslPending
    pure (buf, fds, zero)
  else pure (buf, fds, false)

/-- `ssl_handle_fds(...) & invoke_ssl_recv`. -/
def invokesRecv (s : SslInfo) (fds : FdSets) (pending : Bool) : Bool :=
  fds.skR && s.recv.read || fds.skW && s.recv.write || pending && (s.recv.read || s.recv.write)

/-- Time without a receive, and the exception when it is too long. -/
def protoTimeout (lrecv used : UInt32) : M UInt32 := do
  let lrecv := lrecv + (if used > 0 then used else 1)
  if lrecv > VC_PULL_TIME then
    excpInit (call CALL_DEPTH)
    pure 0
  else pure lrecv

/-- The socket after `select`. -/
def checkSocket (ls : LoopState) (r : SelRet) (zero : Bool) : M LoopState := do
  let a ← getAttr
  if a.sk < 0 then pure ls
  else
    match a.ssl with
    | some s =>
        let pending ← sslPending
        if invokesRecv s r.fds pending then
          let buf ← vcRecvDesp ls.buf
          pure ⟨0, buf⟩
        else if zero then
          -- no time is added, but what has been added before is judged again
          if ls.lrecv > VC_PULL_TIME then
            excpInit (call CALL_DEPTH)
            pure { ls with lrecv := 0 }
          else pure ls
        else
          let lrecv ← protoTimeout ls.lrecv r.used
          pure { ls with lrecv := lrecv }
    | none =>
        if r.fds.skR then
          let buf ← vcRecvDesp ls.buf
          pure ⟨0, buf⟩
        else
          let lrecv ← protoTimeout ls.lrecv r.used
          pure { ls with lrecv := lrecv }

/-- The proc file after `select`. -/
def checkRings (r : SelRet) : M Unit := do
  if r.fds.fdR then vcBufUpdateRx
  if r.fds.fdW then
    vcBufUpdateTx
    tryCall .resume

/-- From `select` to the end of the round. -/
def waitAndServe (ls : LoopState) (fds : FdSets) (zero : Bool) : M LoopState := do
  let r ← select fds zero
  if r.ret = 0 ∧ ¬ zero then
    tryCall .poll
    pure ls
  else
    if r.fds.fdE then vcBufUpdateAttr
    let ls ← checkSocket ls r zero
    checkRings r
    pure ls

/-- The first half of a round: everything the daemon's variables already call for. -/
def serveAttr : M Unit := do
  checkOpen
  checkSettings
  checkXmit
  checkPause

/-- One round of `while(1)`; `none` is the `break`. -/
def iteration (ls : LoopState) : M (Option LoopState) := do
  serveAttr
  let a ← getAttr
  let st ← stkCurnt
  let fds := eventSets st a
  match ← ioctl .sInter (ADV_INT_RX + ADV_INT_TX) with
  | none => pure none
  | some _ =>
      let (buf, fds, zero) ← tlsRecv ls.buf fds
      let ls ← waitAndServe { ls with buf := buf } fds zero
      pure (some ls)

/-! ## Start -/

/-- `vc_buf_setup`, which gives up at the first ioctl that fails. -/
def vcBufSetupTx : M Unit := do
  match ← ioctl .gTxBegin 0 with
  | none => pure ()
  | some begin =>
      match ← ioctl .gTxSize 0 with
      | none => pure ()
      | some size =>
          modifyAttr fun a => { a with tx := { a.tx with begin := begin, size := size } }
          vcBufUpdateTx

def vcBufSetupRx : M Unit := do
  match ← ioctl .gRxBegin 0 with
  | none => pure ()
  | some begin =>
      match ← ioctl .gRxSize 0 with
      | none => pure ()
      | some size =>
          modifyAttr fun a => { a with rx := { a.rx with begin := begin, size := size } }
          vcBufUpdateRx

def vcBufSetupAttr : M Unit := do
  match ← ioctl .gAttrBegin 0 with
  | none => pure ()
  | some _ => vcBufUpdateAttr

/-- main before the loop. -/
def mainStart (buf : Mem) : M (Option LoopState) := do
  vcBufSetupTx
  vcBufSetupRx
  vcBufSetupAttr
  stkPush .netdown
  call CALL_DEPTH .init
  pure (some ⟨0, buf⟩)

end AdvVcom
