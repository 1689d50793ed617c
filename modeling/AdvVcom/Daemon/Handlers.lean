/-
# `AdvVcom.Daemon.Handlers` — the operations of the five states

The functions of `vcom.h` and `state_mach/`, one definition for each.  They call
each other through the state on top of the stack (`stk_curnt(stk)->op(attr)`), so
each takes as a parameter how such a call is made; `call` ties the knot:

    call (n+1) op  =  the operation `op` of the current state, calling by `call n`

with a fault when the operation is not defined or the nesting is exhausted.  The
source recurses without a bound; four levels are as deep as it gets (main,
NetDown's open, NetUp's open, Sync's init, NetUp's init), and that no run exhausts
the bound is part of what is proved about the stack.
-/
import AdvVcom.Daemon.Port

namespace AdvVcom

open Lib

/-- The operations of `struct vc_ops` that change anything; `event` only fills the
sets for `select` and is `eventSets`. -/
inductive Op where
  | open | close | ioctl | xmit
  | recv (buf : Mem) (len : Int)
  | poll | init | pause | resume

/-- How an operation of the current state is called. -/
abbrev Caller := Op → M Unit

/-! ## Helpers of `vcom.h` -/

/-- `stk_excp(stk); return stk_curnt(stk)->init(attr);` -/
def excpInit (call : Caller) : M Unit := do
  stkExcp
  call .init

/-- `return stk_curnt(stk);` -/
def retCurnt : M Unit := do
  let _ ← stkCurnt
  pure ()

def tidNext : M Unit := modifyAttr fun a => { a with tid := a.tid + 1 }

/-- What an operation waits for after it returned. -/
def SslRet.event : SslRet → WaitEvent
  | .want write => ⟨!write, write⟩
  | .ok | .fail => ⟨false, false⟩

def SslRead.event : SslRead → WaitEvent
  | .want write => ⟨!write, write⟩
  | .data _ | .fail => ⟨false, false⟩

def setSend (ev : WaitEvent) : M Unit :=
  modifyAttr fun a => { a with ssl := a.ssl.map fun s => { s with send := ev } }

def setConnect (ev : WaitEvent) : M Unit :=
  modifyAttr fun a => { a with ssl := a.ssl.map fun s => { s with connect := ev } }

def setRecv (ev : WaitEvent) : M Unit :=
  modifyAttr fun a => { a with ssl := a.ssl.map fun s => { s with recv := ev } }

/-- `vc_check_send` returned 0: the packets went out as a whole. -/
def vcCheckSend (ps : List Pkt) : M Bool := do
  let a ← getAttr
  if a.ssl.isSome then
    let r ← sslSendSimple ps
    setSend r.event
    if r = .ok then pure true
    else
      sslErrStr
      stkLog
      pure false
  else
    let ready ← fdcheck
    if ready then send ps else pure false

/-- Pack one packet into a buffer of `buflen` bytes and send it: 0 from the packer
and a failed send are both `false`. -/
def packSend (p : Pkt) (buflen : Int) : M Bool :=
  if p.plen buflen ≤ 0 then pure false else vcCheckSend [p]

def vcBufUpdateRx : M Unit := do
  match ← ioctl .gRxHead 0 with
  | none => pure ()
  | some head =>
      match ← ioctl .gRxTail 0 with
      | none => pure ()
      | some tail => modifyAttr fun a => { a with rx := { a.rx with head := head, tail := tail } }

def vcBufUpdateTx : M Unit := do
  match ← ioctl .gTxHead 0 with
  | none => pure ()
  | some head =>
      match ← ioctl .gTxTail 0 with
      | none => pure ()
      | some tail => modifyAttr fun a => { a with tx := { a.tx with head := head, tail := tail } }

def vcBufUpdateAttr : M Unit := do
  match ← attrPtr with
  | none => pure ()
  | some view => modifyAttr fun a => { a with view := view }

def vcBufClear (clrflags : Int) : M Unit := do
  match ← ioctl .sClr clrflags with
  | none => pure ()
  | some _ =>
      if hasFlag clrflags ADV_CLR_RX then
        let _ ← ioctl .sRxHead 0
        vcBufUpdateRx
      if hasFlag clrflags ADV_CLR_TX then vcBufUpdateTx

/-! ## `vc_client_common.c`

Where a function raises the same exception in several places, the part before it is
a definition of its own that returns whether all went well. -/

def vcCommonOpen (call : Caller) : M Unit := do
  let a ← getAttr
  let p := Pkt.open 0x001 a.devid a.port
  if p.plen 1024 = 0 then excpInit call
  else if ← vcCheckSend [p] then
    tidNext
    modifyAttr fun a => { a with eki := { a.eki with isOpen := 1 } }
    stkPush .sync
    call .init
  else excpInit call

def XMIT_LEN : Int := 1024

/-- The two parts of the payload, when the snapshot of the ring wraps; one part
otherwise. -/
def readXmit (rx : RingBuf) (llen len : Int) : M (List UInt8) := do
  if llen = len then readRx (getRbHead rx) llen
  else
    let first ← readRx (getRbHead rx) llen
    let second ← readRx 0 (len - llen)
    pure (first ++ second)

/-- `vc_common_xmit` up to its exceptions: `false` raises one. -/
def xmitSend : M Bool := do
  let a ← getAttr
  let llen := if getRbLlength a.rx > XMIT_LEN then XMIT_LEN else getRbLlength a.rx
  let len := if getRbLength a.rx > XMIT_LEN then XMIT_LEN else getRbLength a.rx
  let data ← readXmit a.rx llen len
  if (vcPackXmit (fun _ => 0) a.tid len none (XMIT_LEN + vcPackSize .param)).1 ≤ 0 then pure false
  else if ← vcCheckSend [.xmit a.tid data] then
    modifyAttr fun a => { a with xmitPending := len }
    tidNext
    pure true
  else pure false

def vcCommonXmit (call : Caller) : M Unit := do
  if ← xmitSend then retCurnt else excpInit call

/-- The packet `_set_ms` and `_sync_ms` build for one line. -/
def rtsPkt (tid ms : UInt32) : Pkt :=
  .param tid (if ms &&& ADV_MS_RTS ≠ 0 then VCOM_IOCTL_SET_RTS else VCOM_IOCTL_CLR_RTS)

def dtrPkt (tid ms : UInt32) : Pkt :=
  .param tid (if ms &&& ADV_MS_DTR ≠ 0 then VCOM_IOCTL_SET_DTR else VCOM_IOCTL_CLR_DTR)

/-- The packets of `_set_ms`, for the lines that differ. -/
def setMsPkts (ekiMs uartMs tid : UInt32) : List Pkt :=
  if ekiMs &&& ADV_MS_RTS = uartMs &&& ADV_MS_RTS then
    if ekiMs &&& ADV_MS_DTR = uartMs &&& ADV_MS_DTR then [] else [dtrPkt tid uartMs]
  else
    if ekiMs &&& ADV_MS_DTR = uartMs &&& ADV_MS_DTR then [rtsPkt tid uartMs]
    else [rtsPkt tid uartMs, dtrPkt (tid + 1) uartMs]

/-- `vc_check_comset`. -/
def vcCheckComset (a : VcAttr) : Bool :=
  a.view.pair != a.eki.pair || a.view.stop != a.eki.stop || a.view.byte != a.eki.byte

/-- The hand-flow packet for a flow control. -/
def hflowPkt (tid : UInt32) (flowctl : Int) : Pkt :=
  if flowctl = ADV_FLOW_RTSCTS then .hflow tid 0x09000000 0x80000080
  else if flowctl = ADV_FLOW_XONXOFF then .hflow tid 0x01000000 0x43000080
  else .hflow tid 0x01000000 0x40000080

/-- One round of `vc_common_ioctl` up to the send: the packets, and the variables
with the record already updated. -/
def ioctlRound (a : VcAttr) : List Pkt × VcAttr :=
  if a.view.baud ≠ a.eki.baud then
    ([.sbaud a.tid (UInt32.ofInt a.view.baud)],
      { a with eki := { a.eki with baud := a.view.baud } })
  else if vcCheckComset a then
    ([.setlctl a.tid (UInt8.ofInt a.view.pair) (UInt8.ofInt a.view.byte) (UInt8.ofInt a.view.stop)],
      { a with eki :=
          { a.eki with pair := a.view.pair, stop := a.view.stop, byte := a.view.byte } })
  else if a.view.flowctl ≠ a.eki.flowctl then
    ([hflowPkt a.tid a.view.flowctl],
      { a with eki := { a.eki with flowctl := a.view.flowctl } })
  else if a.view.ms ≠ a.eki.ms then
    let ps := setMsPkts a.eki.ms a.view.ms a.tid
    (ps, { a with
      tid := a.tid + UInt32.ofNat ps.length
      eki := { a.eki with ms := a.view.ms } })
  else ([], a)

/-- The sum of the lengths the packers return. -/
def plenOf (ps : List Pkt) : Int := (ps.map fun p => p.plen 1024).sum

/-- One round: `none` if there is nothing to send. -/
def ioctlSend : M (Option Bool) := do
  let a ← getAttr
  let (ps, a') := ioctlRound a
  modifyAttr fun _ => a'
  if plenOf ps ≤ 0 then pure none
  else if ← vcCheckSend ps then
    tidNext
    pure (some true)
  else pure (some false)

/-- The `do … while(--loop_count > 0)` loop. -/
def ioctlLoop (call : Caller) : Nat → M Unit
  | 0 => retCurnt
  | count + 1 => do
      match ← ioctlSend with
      | none => retCurnt
      | some true => ioctlLoop call count
      | some false => excpInit call

def vcCommonIoctl (call : Caller) : M Unit := ioctlLoop call 15

/-- `check_ioctl_ret` returned 0. -/
def checkIoctlRet (call : Caller) (pbuf : Mem) (buflen : Int) : M Bool := do
  let status := attachP1 pbuf
  let subcmd := attachP2 pbuf
  if status ≠ STATUS_SUCCESS then pure false
  else
    if subcmd = VCOM_IOCTL_WAIT_ON_MASK ∨ subcmd = VCOM_IOCTL_GET_MODEMSTATUS ∨
        subcmd = VCOM_IOCTL_SET_WAIT_MASK then
      stkPush .sync
      call (.recv pbuf buflen)
    pure true

/-- `vc_check_ioctl` with `check_ioctl_ret` as its callback. -/
def vcCheckIoctl (call : Caller) (pbuf : Mem) (buflen : Int) : M Bool :=
  if vcPackSize .param > buflen then pure false else checkIoctlRet call pbuf buflen

/-- `VCOM_CMD_DATAREADY`: the payload into the mapped TX page, at the tail of the
snapshot; `false` raises an exception. -/
def recvData (packet : Mem) : M Bool := do
  let a ← getAttr
  let lroom := getRbLroom a.tx
  let room := getRbRoom a.tx
  let tail := getRbTail a.tx
  match vcCheckRecv packet with
  | none => pure false
  | some datalen =>
      if room < datalen then pure false
      else
        if lroom ≥ datalen then copyTx tail (packet.slice 20 datalen.toNat)
        else
          copyTx tail (packet.slice 20 lroom.toNat)
          copyTx 0 (packet.slice (20 + lroom.toNat) (datalen - lroom).toNat)
        let _ ← ioctl .sTxTail datalen
        pure true

/-- `VCOM_CMD_WRITE`: the answer to the one WRITE that is out; `false` raises an
exception. -/
def recvWrite (packet : Mem) (len : Int) : M Bool := do
  let a ← getAttr
  let xmitLen := a.xmitPending
  modifyAttr fun a => { a with xmitPending := 0 }
  if vcCheckXmit packet xmitLen STATUS_SUCCESS len then
    let _ ← ioctl .sRxHead xmitLen
    vcBufUpdateRx
    pure true
  else pure (vcCheckXmit packet xmitLen STATUS_DEVICE_BUSY len)

def vcCommonRecv (call : Caller) (buf : Mem) (len : Int) : M Unit := do
  -- the comparison with `sizeof` is unsigned
  if len % 2 ^ 64 < HDR_SIZE then excpInit call
  else
    let cmd := hdrCmd buf
    if cmd = VCOM_CMD_CREATE then
      let a ← getAttr
      if vcCheckOpen buf a.port len then retCurnt else excpInit call
    else if cmd = VCOM_CMD_IOCTL then
      if ← vcCheckIoctl call buf len then retCurnt else excpInit call
    else if cmd = VCOM_CMD_DATAREADY then
      if ← recvData buf then retCurnt else excpInit call
    else if cmd = VCOM_CMD_WRITE then
      if ← recvWrite buf len then retCurnt else excpInit call
    else retCurnt

def vcCommonPurge (pflags : UInt32) : M Unit := do
  let a ← getAttr
  if ← packSend (.purge a.tid pflags) 1024 then tidNext

/-- `vc_common_close` up to the point where it starts over. -/
def closeSend : M Bool := do
  modifyAttr fun a => { a with eki :=
    { a.eki with isOpen := 0, stop := ADV_STOP_UNDEF, flowctl := ADV_FLOW_UNDEF,
                 pair := ADV_PAIR_UNDEF } }
  let a ← getAttr
  if ← packSend (.close a.tid) 1024 then
    tidNext
    pure true
  else pure false

def vcCommonClose (call : Caller) : M Unit := do
  if ← closeSend then
    stkRestart
    call .init
  else excpInit call

/-! ## Sync -/

/-- Pack, send and count one packet; the helpers of Sync and of the queue sizes
all do this. -/
def sendNext (p : UInt32 → Pkt) : M Bool := do
  let a ← getAttr
  if ← packSend (p a.tid) 1024 then
    tidNext
    pure true
  else pure false

/-- `_sync_ms`. -/
def syncMs (uartMs : UInt32) : M Bool := do
  if ← sendNext (rtsPkt · uartMs) then sendNext (dtrPkt · uartMs) else pure false

/-- `_sync_event`. -/
def syncEvent : M Bool := do
  if ← sendNext (.setwmask · 0x38010000) then sendNext (.param · VCOM_IOCTL_GET_MODEMSTATUS)
  else pure false

/-- `_reg_sync_event`. -/
def regSyncEvent : M Bool := sendNext (.param · VCOM_IOCTL_WAIT_ON_MASK)

/-- `_sync_queue`. -/
def syncQueue : M Bool := do
  let a ← getAttr
  sendNext (.qfsize · (if isRbEmpty a.tx then 1024 else 0))

/-- The steps of `vc_sync_init`; the first that fails raises an exception. -/
def syncAll : M Bool := do
  let a ← getAttr
  let uartMs := a.view.ms
  if ← syncMs uartMs then
    modifyAttr fun a => { a with eki := { a.eki with ms := uartMs } }
    if ← syncEvent then syncQueue else pure false
  else pure false

def vcSyncInit (call : Caller) : M Unit := do
  if ← syncAll then
    stkPop
    call .init
  else excpInit call

/-- The `switch` of `vc_sync_recv`. -/
def syncReply (pbuf : Mem) : M Bool := do
  let subcmd := attachP2 pbuf
  if subcmd = VCOM_IOCTL_WAIT_ON_MASK then syncEvent
  else if subcmd = VCOM_IOCTL_SET_WAIT_MASK then regSyncEvent
  else if subcmd = VCOM_IOCTL_GET_MODEMSTATUS then
    let modem := attachUint pbuf
    let r ← ioctl .sMCtrl modem.toNat
    pure r.isSome
  else pure true

def vcSyncRecv (call : Caller) (pbuf : Mem) : M Unit := do
  if ← syncReply pbuf then
    stkPop
    call .init
  else excpInit call

/-! ## Net Down -/

/-- The socket and the TLS object on it are closed, if there is a socket. -/
def hangUp : M Unit := do
  let a ← getAttr
  if a.sk ≥ 0 then
    if a.ssl.isSome then
      sslShutdown
      sslFree
    closeSk
    modifyAttr fun a => { a with sk := -1 }

def vcNetdownClose : M Unit := do
  vcBufClear (ADV_CLR_RX + ADV_CLR_TX)
  hangUp

/-- `eki` after `vc_netdown_init`. -/
def ekiReset : PortInfo :=
  { PortInfo.zero with stop := ADV_STOP_UNDEF, flowctl := ADV_FLOW_UNDEF, pair := ADV_PAIR_UNDEF }

def vcNetdownInit : M Unit := do
  hangUp
  modifyAttr fun a => { a with tid := 0, xmitPending := 0, eki := ekiReset }

/-- The TLS handshake on a new socket: `false` after a failure. -/
def sslOpen : M Bool := do
  let a ← getAttr
  if a.ssl.isSome then
    modifyAttr fun a => { a with ssl := a.ssl.map fun s => { s with sk := a.sk } }
    sslNew
    if ← sslSetFd then
      let r ← sslConnectSimple
      setConnect r.event
      if r = .ok then pure true
      else
        sslErrStr
        stkLog
        pure false
    else pure false
  else pure true

def vcNetdownOpen (call : Caller) : M Unit := do
  let ret ← connect
  if ret < 0 then
    vcBufClear ADV_CLR_RX
    modifyAttr fun a => { a with sk := -1 }
  else
    modifyAttr fun a => { a with sk := ret }
    if ← sslOpen then
      let a ← getAttr
      if isRbEmpty a.tx then stkPush .netup else stkPush .pause
      call .open
    else call .init

/-! ## Net Up and Pause

The two tables share all bodies but `pause` and `resume`; so do the three `close`
operations. -/

def upInit : M Unit := do
  vcBufUpdateRx
  vcBufUpdateTx

def upClose (call : Caller) : M Unit := do
  vcBufClear (ADV_CLR_RX + ADV_CLR_TX)
  vcCommonPurge 0x0000000f
  vcCommonClose call

def upPoll (call : Caller) : M Unit := do
  stkPush .idle
  call .init

/-- The mark is the first thing that is done with a frame; Idle passes a frame on to here. -/
def upRecv (call : Caller) (buf : Mem) (len : Int) : M Unit := do
  hand (buf.slice 0 len.toNat)
  vcCommonRecv call buf len

def vcNetupOpen (call : Caller) : M Unit := vcCommonOpen call
def vcNetupClose (call : Caller) : M Unit := upClose call
def vcNetupXmit (call : Caller) : M Unit := vcCommonXmit call
def vcNetupInit : M Unit := upInit
def vcNetupRecv (call : Caller) (buf : Mem) (len : Int) : M Unit := upRecv call buf len
def vcNetupIoctl (call : Caller) : M Unit := vcCommonIoctl call
def vcNetupPoll (call : Caller) : M Unit := upPoll call

/-- `_pause_queue`. -/
def pauseQueue : M Bool := sendNext (.qfsize · 0)

def vcNetupPause (call : Caller) : M Unit := do
  if ← pauseQueue then
    stkRpls .pause
    call .init
  else excpInit call

def vcPauseOpen (call : Caller) : M Unit := vcCommonOpen call
def vcPauseClose (call : Caller) : M Unit := upClose call
def vcPauseXmit (call : Caller) : M Unit := vcCommonXmit call
def vcPauseInit : M Unit := upInit
def vcPauseRecv (call : Caller) (buf : Mem) (len : Int) : M Unit := upRecv call buf len
def vcPauseIoctl (call : Caller) : M Unit := vcCommonIoctl call
def vcPausePoll (call : Caller) : M Unit := upPoll call

/-- `_resume_queue`. -/
def resumeQueue : M Bool := sendNext (.qfsize · 1024)

def vcPauseResume (call : Caller) : M Unit := do
  if ← resumeQueue then
    stkRpls .netup
    call .init
  else excpInit call

/-! ## Idle -/

def vcIdleOpen (call : Caller) : M Unit := do
  stkPop
  call .open

def vcIdleClose (call : Caller) : M Unit := upClose call

def vcIdlePoll (call : Caller) : M Unit := do
  vcBufClear ADV_CLR_RX
  excpInit call

def vcIdleRecv (call : Caller) (buf : Mem) (len : Int) : M Unit := do
  stkPop
  call (.recv buf len)

/-- The buffer has room for exactly the packet. -/
def idleProbe : M Bool := do
  let a ← getAttr
  if ← packSend (.param a.tid VCOM_IOCTL_GET_WAIT_MASK) (vcPackSize .param) then
    tidNext
    pure true
  else pure false

def vcIdleInit (call : Caller) : M Unit := do
  if ← idleProbe then pure () else excpInit call

/-! ## The operation tables -/

def vcNetdownOps (call : Caller) : Op → Option (M Unit)
  | .open => some (vcNetdownOpen call)
  | .close => some vcNetdownClose
  | .init => some vcNetdownInit
  | _ => none

def vcNetupOps (call : Caller) : Op → Option (M Unit)
  | .open => some (vcNetupOpen call)
  | .close => some (vcNetupClose call)
  | .xmit => some (vcNetupXmit call)
  | .init => some vcNetupInit
  | .recv buf len => some (vcNetupRecv call buf len)
  | .ioctl => some (vcNetupIoctl call)
  | .poll => some (vcNetupPoll call)
  | .pause => some (vcNetupPause call)
  | .resume => none

def vcPauseOps (call : Caller) : Op → Option (M Unit)
  | .open => some (vcPauseOpen call)
  | .close => some (vcPauseClose call)
  | .xmit => some (vcPauseXmit call)
  | .init => some vcPauseInit
  | .recv buf len => some (vcPauseRecv call buf len)
  | .ioctl => some (vcPauseIoctl call)
  | .poll => some (vcPausePoll call)
  | .resume => some (vcPauseResume call)
  | .pause => none

def vcIdleOps (call : Caller) : Op → Option (M Unit)
  | .open => some (vcIdleOpen call)
  | .close => some (vcIdleClose call)
  | .init => some (vcIdleInit call)
  | .poll => some (vcIdlePoll call)
  | .recv buf len => some (vcIdleRecv call buf len)
  | _ => none

/-- `open` and `close` exit: "this function was designed never to be called". -/
def vcSyncOps (call : Caller) : Op → Option (M Unit)
  | .init => some (vcSyncInit call)
  | .recv buf _ => some (vcSyncRecv call buf)
  | .open => some (die .exit)
  | .close => some (do
      vcBufClear (ADV_CLR_RX + ADV_CLR_TX)
      stkExcp
      die .exit)
  | _ => none

def vcOps (call : Caller) : St → Op → Option (M Unit)
  | .netdown => vcNetdownOps call
  | .netup => vcNetupOps call
  | .pause => vcPauseOps call
  | .idle => vcIdleOps call
  | .sync => vcSyncOps call

/-- `stk_curnt(stk)->op(attr)`, to a nesting of `n` calls. -/
def call : Nat → Op → M Unit
  | 0, _ => die .fuel
  | n + 1, op => do
      let st ← stkCurnt
      match vcOps (call n) st op with
      | some handler => handler
      | none => die .noOp

/-- More than any handler nests. -/
def CALL_DEPTH : Nat := 10

/-- `try_ops`: nothing happens if the operation is not defined. -/
def tryCall (op : Op) : M Unit := do
  let st ← stkCurnt
  match vcOps (call CALL_DEPTH) st op with
  | some handler => handler
  | none => pure ()

end AdvVcom
