/-
# `AdvVcom.Daemon.Port` — the daemon's variables and what it asks for

The daemon is one thread over one `struct vc_attr`.  It is written down as a
process (`Lib.Proc`) that pauses at every system call and every access to memory
it shares with the driver; the reply is the environment's.

    the proc file    `ioctl`, `attrPtr` (IOCGATTRPTR and the slot it points to),
                     `copyTx`, `readRx` (the mapped pages)
    the socket       `connect`, `close`, `fdcheck`, `send`, `recv`, `selRd`
    the TLS object   `sslNew` … `sslFree`
    waiting          `select`
    `hand`           no call at all: it marks that the `recv` operation of Net Up or
                     Pause has been entered, and with which frame, so that an
                     environment can say what a peer sends

The helpers `ssl_connect_simple`, `ssl_send_simple` and `ssl_recv_simple` retry
inside a time limit; each is one request here, answered by what it returns in the
end.  Monitor output, `printf` and `sleep` are left out.

The state stack is a list, bottom first.  The source's stack functions print a
message or exit when they are called on a full or an empty stack; here that is a
fault, and so are a call through an undefined operation and the two `exit`s.
-/
import AdvVcom.Lib.Proc
import AdvVcom.Proto.Packet

namespace AdvVcom

open Lib

/-! ## Variables -/

/-- The states, by the operation table each has. -/
inductive St where
  | netdown | netup | pause | idle | sync
  deriving DecidableEq, Repr

/-- `wait_event`. -/
structure WaitEvent where
  read : Bool
  write : Bool
  deriving DecidableEq, Repr

/-- `ssl_info`: what the three operations in use wait for. -/
structure SslInfo where
  sk : Int
  recv : WaitEvent
  send : WaitEvent
  connect : WaitEvent
  deriving DecidableEq, Repr

/-- `struct vc_attr`.  `view` is `attr[attr_ptr]`, the slot the daemon reads. -/
structure VcAttr where
  sk : Int
  xmitPending : Int
  ssl : Option SslInfo
  port : UInt32
  tid : UInt32
  devid : UInt16
  stk : List St
  eki : PortInfo
  view : PortInfo
  tx : RingBuf
  rx : RingBuf
  deriving DecidableEq, Repr

def STACK_MAX : Nat := 10

/-! ## Requests -/

/-- What `ssl_connect_simple` and `ssl_send_simple` return: what the caller compares
with (1, or the length of the packet), what they still wait for, or anything else. -/
inductive SslRet where
  | ok
  | want (write : Bool)
  | fail
  deriving DecidableEq, Repr

/-- A TLS read. -/
inductive SslRead where
  | data (bs : List UInt8)
  | want (write : Bool)
  | fail
  deriving DecidableEq, Repr

/-- What `recv` returns: a positive number of bytes, 0 or -1. -/
inductive RecvRet where
  | data (bs : List UInt8)
  | eof
  | err
  deriving DecidableEq, Repr

/-- The sets given to `select`, for the two descriptors the daemon has. -/
structure FdSets where
  fdR : Bool
  fdW : Bool
  fdE : Bool
  skR : Bool
  skW : Bool
  deriving DecidableEq, Repr

/-- What `select` returns: its code, the sets, and the time it used in µs. -/
structure SelRet where
  ret : Int
  fds : FdSets
  used : UInt32
  deriving DecidableEq, Repr

inductive Req where
  | ioctl (c : Ioc) (arg : Int)
  | attrPtr
  | copyTx (off : Int) (bs : List UInt8)
  | readRx (off len : Int)
  | connect
  | close
  | fdcheck
  | send (ps : List Pkt)
  | recv (off len : Nat)
  | selRd
  | sslNew
  | sslSetFd
  | sslConnect
  | sslSend (ps : List Pkt)
  | sslRecv (off len : Nat)
  | sslRecvSimple (off len : Nat)
  | sslErrStr
  | sslPending
  | sslShutdown
  | sslFree
  | select (fds : FdSets) (zero : Bool)
  | hand (frame : List UInt8)
  deriving DecidableEq, Repr

/-- `none` from `ioctl` and `attrPtr` is a failed call; `send` says whether the
whole packet went out. -/
def Req.Rep : Req → Type
  | .ioctl _ _ => Option Int
  | .attrPtr => Option PortInfo
  | .readRx _ _ => List UInt8
  | .connect => Int
  | .fdcheck | .send _ | .selRd | .sslSetFd | .sslPending => Bool
  | .recv _ _ => RecvRet
  | .sslConnect | .sslSend _ => SslRet
  | .sslRecv _ _ | .sslRecvSimple _ _ => SslRead
  | .select _ _ => SelRet
  | .copyTx _ _ | .close | .sslNew | .sslErrStr | .sslShutdown | .sslFree | .hand _ => Unit

inductive Fault where
  | stackFull | stackEmpty | noOp | exit | fuel
  deriving DecidableEq, Repr

abbrev VcSig : Sig := ⟨Req, Req.Rep, Fault⟩

abbrev M := Act VcSig VcAttr

/-! ## The requests, as the code makes them -/

def ioctl (c : Ioc) (arg : Int) : M (Option Int) := Act.request (S := VcSig) (.ioctl c arg)
def attrPtr : M (Option PortInfo) := Act.request (S := VcSig) .attrPtr
def copyTx (off : Int) (bs : List UInt8) : M Unit := Act.request (S := VcSig) (.copyTx off bs)
def readRx (off len : Int) : M (List UInt8) := Act.request (S := VcSig) (.readRx off len)
def connect : M Int := Act.request (S := VcSig) .connect
def closeSk : M Unit := Act.request (S := VcSig) .close
def fdcheck : M Bool := Act.request (S := VcSig) .fdcheck
def send (ps : List Pkt) : M Bool := Act.request (S := VcSig) (.send ps)
def recv (off len : Nat) : M RecvRet := Act.request (S := VcSig) (.recv off len)
def selRd : M Bool := Act.request (S := VcSig) .selRd
def sslNew : M Unit := Act.request (S := VcSig) .sslNew
def sslSetFd : M Bool := Act.request (S := VcSig) .sslSetFd
def sslConnectSimple : M SslRet := Act.request (S := VcSig) .sslConnect
def sslSendSimple (ps : List Pkt) : M SslRet := Act.request (S := VcSig) (.sslSend ps)
def sslRecvDirect (off len : Nat) : M SslRead := Act.request (S := VcSig) (.sslRecv off len)
def sslRecvSimple (off len : Nat) : M SslRead := Act.request (S := VcSig) (.sslRecvSimple off len)
def sslErrStr : M Unit := Act.request (S := VcSig) .sslErrStr
def sslPending : M Bool := Act.request (S := VcSig) .sslPending
def sslShutdown : M Unit := Act.request (S := VcSig) .sslShutdown
def sslFree : M Unit := Act.request (S := VcSig) .sslFree
def select (fds : FdSets) (zero : Bool) : M SelRet := Act.request (S := VcSig) (.select fds zero)
def hand (frame : List UInt8) : M Unit := Act.request (S := VcSig) (.hand frame)

def getAttr : M VcAttr := Act.get
def modifyAttr (g : VcAttr → VcAttr) : M Unit := Act.modify g
def die {α : Type} (f : Fault) : M α := Act.die (S := VcSig) f

/-! ## The state stack -/

def stkPush (st : St) : M Unit := do
  let a ← getAttr
  if a.stk.length ≥ STACK_MAX then die .stackFull
  else modifyAttr fun a => { a with stk := a.stk ++ [st] }

def stkPop : M Unit := do
  let a ← getAttr
  if a.stk.isEmpty then die .stackEmpty
  else modifyAttr fun a => { a with stk := a.stk.dropLast }

/-- Down to the bottom state. -/
def stkExcp : M Unit := do
  let a ← getAttr
  if a.stk.isEmpty then die .stackEmpty
  else modifyAttr fun a => { a with stk := a.stk.take 1 }

def stkRestart : M Unit := stkExcp

def stkRpls (st : St) : M Unit := do
  let a ← getAttr
  if a.stk.isEmpty then die .stackEmpty
  else modifyAttr fun a => { a with stk := a.stk.dropLast ++ [st] }

def stkCurnt : M St := do
  let a ← getAttr
  match a.stk.getLast? with
  | some st => pure st
  | none => die .stackEmpty

/-- `_stk_log` asks the current state for its name. -/
def stkLog : M Unit := do
  let _ ← stkCurnt
  pure ()

end AdvVcom
