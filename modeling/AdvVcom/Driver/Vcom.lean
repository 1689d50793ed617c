/-
# `AdvVcom.Driver.Vcom` — the kernel driver of one port

`struct adv_vcom` and every function that reads or changes it: the rings of
`advvcom.h`, the uart operations of `adv_uart.c` and the proc file of
`adv_main.c`.

The names of the two rings are the daemon's: `rx` carries bytes from the tty to
the device and `tx` from the device to the tty.  The uart layer sees them the
other way round (`adv_serial_port->tx = &vcomdata->rx`), so `advUartXmit` fills
`rx` and `advUartRecvChars` drains `tx`.

The driver copies bytes and never looks at one, so the cells of a page have an
arbitrary type `β`.  Three things outside the driver are parameters: what the
tty has put into its transmit fifo (`Kfifo`), how many of the bytes offered
`tty_insert_flip_string` takes (`accept`), and what the user's pointer points to
(`UserInt`).  Waking up sleepers changes nothing that is modelled here.

`Vcom.log` is a record kept beside the state, newest entry last: every access of
the driver to a ring page, with its offset and length.
-/
import AdvVcom.Shared

namespace AdvVcom

open Lib.Ring

variable {β : Type}

/-! ## Rings (`advvcom.h`, kernel side) -/

/-- The kernel's `struct ring_buf`; `enabled` and `clean` are the bits of
`status`, `data` is the page. -/
structure KRing (β : Type) extends RingBuf where
  enabled : Bool
  clean : Bool
  data : Int → β

def moveRbHead (buf : KRing β) (length : Int) : KRing β :=
  if buf.clean then { buf with clean := false, head := buf.tail }
  else { buf with head := (int32 (buf.head + length)).tmod buf.size }

def moveRbTail (buf : KRing β) (length : Int) : KRing β :=
  { buf with tail := (int32 (buf.tail + length)).tmod buf.size }

/-! ## Attributes -/

def ADV_ATTRBUF_NUM : Nat := 2

/-- `struct adv_port_att`; `attr` is the source's `_attr`, `slots` the page the
daemon reads. -/
structure PortAtt where
  attr : PortInfo
  mctrl : UInt32
  newbie : Bool
  throttled : Bool
  usrPtr : Nat
  slots : Nat → PortInfo

def flushAttrInfo (a : PortAtt) : Nat × PortAtt :=
  let a' :=
    if a.newbie then { a with newbie := false }
    else { a with usrPtr := (a.usrPtr + 1) % ADV_ATTRBUF_NUM }
  (a'.usrPtr, { a' with slots := Function.update a'.slots a'.usrPtr a'.attr })

/-! ## The tty's transmit fifo -/

/-- A kfifo of `size` cells holding `bytes`, the first of them `out` cells after
the start. -/
structure Kfifo (β : Type) where
  bytes : List β
  out : Nat
  size : Nat
  size_pos : 0 < size

def Kfifo.isEmpty (f : Kfifo β) : Bool := f.bytes.isEmpty

/-- `kfifo_out_linear_ptr`: how many of at most `n` bytes lie in one piece. -/
def Kfifo.outLinear (f : Kfifo β) (n : Nat) : Nat :=
  min n (min f.bytes.length (f.size - f.out % f.size))

/-- `uart_xmit_advance`. -/
def Kfifo.advance (f : Kfifo β) (n : Nat) : Kfifo β :=
  { f with bytes := f.bytes.drop n, out := f.out + n }

/-! ## The port -/

/-- An access of the driver to a ring page. -/
inductive Access (β : Type) where
  /-- `memcpy` of `xs` to offset `off` of the RX page. -/
  | copied (off : Int) (xs : List β)
  /-- `tty_insert_flip_string` of `len` bytes from offset `off` of the TX page,
  of which the tty took `taken`. -/
  | offered (off len : Int) (taken : List β)

/-- `port->icount`, the counters the driver touches. -/
structure Icount where
  cts : UInt32
  dsr : UInt32
  dcd : UInt32
  rng : UInt32
  deriving DecidableEq

structure Vcom (β : Type) where
  tx : KRing β
  rx : KRing β
  attr : PortAtt
  fifo : Kfifo β
  icount : Icount
  log : List (Access β)

/-- `adv_main_init`; `page` is what a fresh page happens to hold, and `mctrl` what `kmalloc`
left in that field, which nothing sets. -/
def advMainInit (mctrl : UInt32) (page : Int → β) (fifo : Kfifo β) : Vcom β where
  tx := { head := 0, tail := 0, begin := 0, size := PAGE_SIZE,
          enabled := false, clean := false, data := page }
  rx := { head := 0, tail := 0, begin := PAGE_SIZE, size := PAGE_SIZE,
          enabled := false, clean := false, data := page }
  attr := { attr := .zero, mctrl := mctrl, newbie := true, throttled := false,
            usrPtr := 0, slots := fun _ => .zero }
  fifo := fifo
  icount := ⟨0, 0, 0, 0⟩
  log := []

/-! ## From the tty to the RX ring (`adv_uart_xmit`) -/

/-- One pass of the loop after its tests: `mcplen` bytes go to the tail. -/
def xmitCopy (v : Vcom β) (mcplen : Nat) : Vcom β :=
  let xs := v.fifo.bytes.take mcplen
  let txTail := getRbTail v.rx.toRingBuf
  { v with
    rx := moveRbTail { v.rx with data := put v.rx.data txTail xs } mcplen
    fifo := v.fifo.advance mcplen
    log := v.log ++ [.copied txTail xs] }

/-- The `while` loop.  A pass that goes on takes at least one byte out of the
fifo, so as many passes as there are bytes are enough. -/
def xmitLoop : Nat → Vcom β → Vcom β
  | 0, v => v
  | fuel + 1, v =>
      if v.fifo.isEmpty then v
      else
        let txLsize := getRbLroom v.rx.toRingBuf
        if txLsize = 0 then v
        else
          -- the third argument of `kfifo_out_linear_ptr` is unsigned
          let mcplen := v.fifo.outLinear (txLsize % 2 ^ 32).toNat
          if mcplen = 0 then v else xmitLoop fuel (xmitCopy v mcplen)

def advUartXmit (v : Vcom β) : Vcom β :=
  if getRbRoom v.rx.toRingBuf = 0 then v else xmitLoop v.fifo.bytes.length v

def advUartUpdateXmit (v : Vcom β) : Vcom β :=
  if v.attr.attr.isOpen ≠ 0 then
    if isRbEmpty v.rx.toRingBuf then advUartXmit v else v
  else v

def advUartStartTx (v : Vcom β) : Vcom β :=
  advUartXmit { v with rx := { v.rx with enabled := true } }

def advUartStopTx (v : Vcom β) : Vcom β :=
  { v with rx := { v.rx with enabled := false } }

/-! ## From the TX ring to the tty (`adv_uart_recv_chars`) -/

/-- `tty_insert_flip_string` when it takes `k` of the bytes offered; its length
argument is a `size_t`. -/
def ttyInsert (k : Nat) (rxLl : Int) : Nat := min k (rxLl % 2 ^ 64).toNat

/-- The `while` loop; `accept` says how much the tty takes at each attempt. -/
def recvLoop : Nat → List Nat → Int → Vcom β → Vcom β
  | 0, _, _, v => v
  | maxRetry + 1, accept, count, v =>
      if count > 0 then
        let rxLl := getRbLlength v.tx.toRingBuf
        let rxHd := getRbHead v.tx.toRingBuf
        let n := ttyInsert (accept.headD 0) rxLl
        let ret := int32 n
        let v' := { v with log := v.log ++ [.offered rxHd rxLl (cells v.tx.data rxHd n)] }
        if ret > 0 then
          recvLoop maxRetry accept.tail (int32 (count - ret))
            { v' with tx := moveRbHead v.tx ret }
        else v'
      else v

/-- `adv_uart_recv_chars` from where it takes the ring's lock. -/
def recvCharsLocked (accept : List Nat) (v : Vcom β) : Vcom β :=
  if v.tx.enabled then recvLoop 3 accept (getRbLength v.tx.toRingBuf) v else v

def advUartRecvChars (accept : List Nat) (v : Vcom β) : Vcom β :=
  if v.attr.throttled then v else recvCharsLocked accept v

def advUartStopRx (v : Vcom β) : Vcom β :=
  { v with tx := { v.tx with enabled := false } }

def advUartThrottle (v : Vcom β) : Vcom β :=
  { v with attr := { v.attr with throttled := true } }

def advUartUnthrottle (accept : List Nat) (v : Vcom β) : Vcom β :=
  advUartRecvChars accept { v with attr := { v.attr with throttled := false } }

/-! ## Opening, closing and settings -/

def advUartStartup (v : Vcom β) : Vcom β :=
  { v with
    attr := { v.attr with attr := { v.attr.attr with isOpen := 1 }, throttled := false }
    tx := { v.tx with enabled := true }
    rx := { v.rx with enabled := true } }

def advUartShutdown (v : Vcom β) : Vcom β :=
  { v with attr := { v.attr with attr := { v.attr.attr with isOpen := 0 } } }

def advUartSetMctrl (rts dtr : Bool) (v : Vcom β) : Vcom β :=
  let status := (if rts then ADV_MS_RTS else 0) ||| (if dtr then ADV_MS_DTR else 0)
  { v with attr := { v.attr with attr := { v.attr.attr with ms := status } } }

/-- What `adv_uart_set_termios` reads from a `ktermios`: the rate
`uart_get_baud_rate` settles on, and flags of `c_cflag` and `c_iflag`. -/
structure Termios where
  baud : Int
  csize : Nat
  crtscts : Bool
  ixoff : Bool
  parenb : Bool
  parodd : Bool
  cmspar : Bool
  cstopb : Bool
  baud_ge : 50 ≤ baud
  baud_le : baud ≤ 921600

def Termios.info (t : Termios) (info : PortInfo) : PortInfo :=
  { info with
    baud := t.baud
    byte := if t.csize = 5 then 5 else if t.csize = 6 then 6 else if t.csize = 7 then 7 else 8
    flowctl :=
      if t.crtscts then ADV_FLOW_RTSCTS else if t.ixoff then ADV_FLOW_XONXOFF else ADV_FLOW_NONE
    pair :=
      match t.parodd, t.cmspar, t.parenb with
      | false, false, true => ADV_PAIR_EVEN
      | true, false, true => ADV_PAIR_ODD
      | false, true, true => ADV_PAIR_SPACE
      | true, true, true => ADV_PAIR_MARK
      | _, _, false => ADV_PAIR_NONE
    stop := if t.cstopb then ADV_STOP_2 else ADV_STOP_1 }

def advUartSetTermios (t : Termios) (v : Vcom β) : Vcom β :=
  { v with attr := { v.attr with attr := t.info v.attr.attr } }

/-- `adv_uart_ms`: the new modem inputs, and a count for each that changed. -/
def advUartMs (status : UInt32) (v : Vcom β) : Vcom β :=
  let delta := status ^^^ v.attr.mctrl
  let bump (bit n : UInt32) : UInt32 := if delta &&& bit ≠ 0 then n + 1 else n
  { v with
    attr := { v.attr with mctrl := status }
    icount :=
      { cts := bump ADV_MS_CTS v.icount.cts
        dsr := bump ADV_MS_DSR v.icount.dsr
        dcd := bump ADV_MS_CAR v.icount.dcd
        rng := bump ADV_MS_RNG v.icount.rng } }

/-! ## The proc file (`adv_main.c`) -/

def advMainInterrupt (accept : List Nat) (mask : Int) (v : Vcom β) : Vcom β :=
  let v := if hasFlag mask ADV_INT_RX then advUartUpdateXmit v else v
  if hasFlag mask ADV_INT_TX then advUartRecvChars accept v else v

def advMainClear (mask : Int) (v : Vcom β) : Vcom β :=
  let v := if hasFlag mask ADV_CLR_RX then { v with rx := { v.rx with clean := true } } else v
  if hasFlag mask ADV_CLR_TX then { v with tx := moveRbHead { v.tx with clean := true } 0 } else v

def EFAULT : Int := 14
def ENOTTY : Int := 25

/-- The `int` a user's pointer points to: what `__get_user` reads there (`none`
if it faults), whether `__put_user` can write it, and what `access_ok` says. -/
structure UserInt where
  accessOk : Bool
  value : Option Int
  writable : Bool

/-- An `int` of the daemon's own, holding `n`. -/
def ownInt (n : Int) : UserInt := { accessOk := true, value := some n, writable := true }

/-- `__get_user`: the return code, and the value (zero after a fault). -/
def getUser (arg : UserInt) : Int × Int :=
  match arg.value with
  | some n => (0, int32 n)
  | none => (-EFAULT, 0)

/-- What an ioctl returns, what it wrote to the user's `int`, and the new state. -/
structure IoctlResult (β : Type) where
  ret : Int
  put : Option Int
  vcom : Vcom β

/-- `__put_user` of `x` as the last thing a command does. -/
def putUser (arg : UserInt) (x : Int) (v : Vcom β) : IoctlResult β :=
  if arg.writable then ⟨0, some x, v⟩ else ⟨-EFAULT, none, v⟩

theorem putUser_vcom (arg : UserInt) (x : Int) (v : Vcom β) : (putUser arg x v).vcom = v := by
  unfold putUser
  split
  · rfl
  · rfl

/-- The body of `adv_proc_ioctl`'s `switch`. -/
def iocSwitch (accept : List Nat) (arg : UserInt) (v : Vcom β) : Ioc → IoctlResult β
  | .gTxHead => putUser arg (getRbHead v.tx.toRingBuf) v
  | .gTxTail => putUser arg (getRbTail v.tx.toRingBuf) v
  | .gTxSize => putUser arg v.tx.size v
  | .gTxBegin => putUser arg v.tx.begin v
  | .gRxHead => putUser arg (getRbHead v.rx.toRingBuf) v
  | .gRxTail => putUser arg (getRbTail v.rx.toRingBuf) v
  | .gRxSize => putUser arg v.rx.size v
  | .gRxBegin => putUser arg v.rx.begin v
  | .gAttrBegin => putUser arg (2 * PAGE_SIZE) v
  | .gAttrPtr =>
      let (ptr, attr) := flushAttrInfo v.attr
      putUser arg ptr { v with attr := attr }
  | .sTxTail =>
      let (ret, tmp) := getUser arg
      ⟨ret, none, advUartRecvChars accept { v with tx := moveRbTail v.tx tmp }⟩
  | .sRxHead =>
      let (ret, tmp) := getUser arg
      ⟨ret, none, { v with rx := moveRbHead v.rx tmp }⟩
  | .sInter =>
      let (ret, tmp) := getUser arg
      ⟨ret, none, advMainInterrupt accept tmp v⟩
  | .sMCtrl =>
      let (ret, tmp) := getUser arg
      ⟨ret, none, advUartMs (UInt32.ofInt tmp) v⟩
  | .sClr =>
      let (ret, tmp) := getUser arg
      ⟨ret, none, advMainClear tmp v⟩

/-- An ioctl command word, taken apart as `_IOC_TYPE`, `_IOC_NR`, `_IOC_SIZE` and
the two bits of `_IOC_DIR`. -/
structure CmdWord where
  type : Nat
  nr : Nat
  size : Nat
  read : Bool
  write : Bool
  deriving DecidableEq

def ADVVCOM_IOC_MAGIC : Nat := 65
def ADVVCOM_IOCMAX : Nat := 15

def Ioc.word : Ioc → CmdWord
  | .gTxHead => ⟨ADVVCOM_IOC_MAGIC, 1, 4, true, false⟩
  | .gTxTail => ⟨ADVVCOM_IOC_MAGIC, 2, 4, true, false⟩
  | .gTxSize => ⟨ADVVCOM_IOC_MAGIC, 3, 4, true, false⟩
  | .gRxHead => ⟨ADVVCOM_IOC_MAGIC, 4, 4, true, false⟩
  | .gRxTail => ⟨ADVVCOM_IOC_MAGIC, 5, 4, true, false⟩
  | .gRxSize => ⟨ADVVCOM_IOC_MAGIC, 6, 4, true, false⟩
  | .sTxTail => ⟨ADVVCOM_IOC_MAGIC, 7, 4, false, true⟩
  | .sRxHead => ⟨ADVVCOM_IOC_MAGIC, 8, 4, false, true⟩
  | .gTxBegin => ⟨ADVVCOM_IOC_MAGIC, 9, 4, true, false⟩
  | .gRxBegin => ⟨ADVVCOM_IOC_MAGIC, 10, 4, true, false⟩
  | .gAttrBegin => ⟨ADVVCOM_IOC_MAGIC, 11, 4, true, false⟩
  | .gAttrPtr => ⟨ADVVCOM_IOC_MAGIC, 12, 4, true, false⟩
  | .sInter => ⟨ADVVCOM_IOC_MAGIC, 13, 4, false, true⟩
  | .sMCtrl => ⟨ADVVCOM_IOC_MAGIC, 14, 4, false, true⟩
  | .sClr => ⟨ADVVCOM_IOC_MAGIC, 15, 4, false, true⟩

/-- The `case` labels of the `switch`. -/
def Ioc.all : List Ioc :=
  [.gTxHead, .gTxTail, .gTxSize, .gTxBegin, .gRxHead, .gRxTail, .gRxSize, .gRxBegin,
    .sTxTail, .sRxHead, .gAttrBegin, .gAttrPtr, .sInter, .sMCtrl, .sClr]

def advProcIoctl (accept : List Nat) (cmd : CmdWord) (arg : UserInt) (v : Vcom β) :
    IoctlResult β :=
  if cmd.type ≠ ADVVCOM_IOC_MAGIC then ⟨-ENOTTY, none, v⟩
  else if cmd.nr > ADVVCOM_IOCMAX then ⟨-ENOTTY, none, v⟩
  else if (cmd.read || cmd.write) && !arg.accessOk then ⟨-EFAULT, none, v⟩
  else
    match Ioc.all.find? (fun c => c.word = cmd) with
    | some c => iocSwitch accept arg v c
    | none => ⟨-EFAULT, none, v⟩

/-- The `switch` finds the command whose word it is given. -/
theorem find_word_iff {cmd : CmdWord} {c : Ioc} :
    Ioc.all.find? (fun c => c.word = cmd) = some c ↔ cmd = c.word := by
  constructor
  · intro h
    have hc : c.word = cmd := by simpa using List.find?_some h
    exact hc.symm
  · rintro rfl
    cases c <;> rfl

theorem Ioc.word_inj {c d : Ioc} : c.word = d.word ↔ c = d := by
  constructor
  · intro h
    have hc : Ioc.all.find? (fun e => e.word = d.word) = some c := find_word_iff.mpr h.symm
    have hd : Ioc.all.find? (fun e => e.word = d.word) = some d := find_word_iff.mpr rfl
    exact Option.some.inj (hc.symm.trans hd)
  · rintro rfl
    rfl

/-- A command of the driver passes the tests on its word. -/
theorem advProcIoctl_word (accept : List Nat) (c : Ioc) (arg : UserInt) (v : Vcom β) :
    advProcIoctl accept c.word arg v =
      if arg.accessOk then iocSwitch accept arg v c else ⟨-EFAULT, none, v⟩ := by
  have hword : c.word.type = ADVVCOM_IOC_MAGIC ∧ ¬ c.word.nr > ADVVCOM_IOCMAX ∧
      (c.word.read || c.word.write) = true := by
    cases c <;> decide
  obtain ⟨htype, hnr, hdir⟩ := hword
  have hfind : Ioc.all.find? (fun d => d.word = c.word) = some c := find_word_iff.mpr rfl
  simp only [advProcIoctl, htype, ne_eq, not_true_eq_false, if_false, hnr, hdir, hfind]
  cases arg.accessOk <;> simp

/-- Any other word is refused. -/
theorem advProcIoctl_other {accept : List Nat} {cmd : CmdWord} {arg : UserInt} {v : Vcom β}
    (h : ∀ c : Ioc, cmd ≠ c.word) : (advProcIoctl accept cmd arg v).vcom = v := by
  have hnone : Ioc.all.find? (fun c => c.word = cmd) = none := by
    cases hf : Ioc.all.find? (fun c => c.word = cmd) with
    | none => rfl
    | some c => exact absurd (find_word_iff.mp hf) (h c)
  simp only [advProcIoctl, hnone]
  split <;> try rfl
  split <;> try rfl
  split <;> rfl

/-- The bits of `adv_proc_poll`'s mask. -/
structure PollMask where
  pollin : Bool
  pollout : Bool
  pollpri : Bool
  deriving DecidableEq

def advProcPoll (v : Vcom β) : PollMask where
  pollin := v.rx.enabled && !isRbEmpty v.rx.toRingBuf
  pollout := v.tx.enabled && isRbEmpty v.tx.toRingBuf && !v.attr.throttled
  pollpri :=
    let usr := v.attr.slots v.attr.usrPtr
    decide (v.attr.attr ≠ usr) &&
      (v.attr.attr.isOpen == 1 || v.attr.attr.isOpen != usr.isOpen)

/-! ## Everything that can happen to a port

A call is atomic here although the source takes and drops locks inside some of
them.  Where that makes a difference the parts are calls of their own: `xmit` is
`adv_uart_xmit` by a caller that has made its tests earlier, `recvLocked` is
`adv_uart_recv_chars` by a caller that has found the port not throttled earlier,
and an ioctl with two effects is two ioctls with one effect each. -/

inductive Call (β : Type) where
  | ioctl (accept : List Nat) (cmd : CmdWord) (arg : UserInt)
  /-- A store of the proc file's user to the mapped TX page. -/
  | pokeTx (off : Int) (xs : List β)
  /-- A store of the proc file's user to the mapped RX page. -/
  | pokeRx (off : Int) (xs : List β)
  /-- The tty layer writes to its fifo, or flushes it. -/
  | ttyFifo (fifo : Kfifo β)
  | xmit
  | startTx
  | stopTx
  | updateXmit
  | recvChars (accept : List Nat)
  | recvLocked (accept : List Nat)
  | stopRx
  | throttle
  | unthrottle (accept : List Nat)
  | startup
  | shutdown
  | setMctrl (rts dtr : Bool)
  | setTermios (t : Termios)

def Call.run : Call β → Vcom β → Vcom β
  | .ioctl accept cmd arg, v => (advProcIoctl accept cmd arg v).vcom
  | .pokeTx off xs, v => { v with tx := { v.tx with data := put v.tx.data off xs } }
  | .pokeRx off xs, v => { v with rx := { v.rx with data := put v.rx.data off xs } }
  | .ttyFifo fifo, v => { v with fifo := fifo }
  | .xmit, v => advUartXmit v
  | .startTx, v => advUartStartTx v
  | .stopTx, v => advUartStopTx v
  | .updateXmit, v => advUartUpdateXmit v
  | .recvChars accept, v => advUartRecvChars accept v
  | .recvLocked accept, v => recvCharsLocked accept v
  | .stopRx, v => advUartStopRx v
  | .throttle, v => advUartThrottle v
  | .unthrottle accept, v => advUartUnthrottle accept v
  | .startup, v => advUartStartup v
  | .shutdown, v => advUartShutdown v
  | .setMctrl rts dtr, v => advUartSetMctrl rts dtr v
  | .setTermios t, v => advUartSetTermios t v

end AdvVcom
