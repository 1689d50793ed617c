/-
# `AdvVcom.System.World` — driver and daemon on one port

The environment of the daemon is now the driver itself.  Its requests to the proc
file are answered by `adv_proc_ioctl` and the two mapped pages; while it is paused the
tty's side of the driver makes any calls it likes (`Call.OfTty`).  The daemon is the
only user of the proc file.  The device and the network are free to do anything: fail
at any time, send any frame, answer a WRITE wrongly, late or not at all.

Beside the driver's state the world keeps three records that nothing reads:

    `UpLink`     the WRITEs of this connection and their answers
    `DownLink`   the DATAREADY payloads accepted since the last clear of TX, and every
                 copy into the TX page with the indices at that moment
    `Sessions`   which bytes left a ring, how, and in which session

To tell bytes apart that have the same value, a cell of a ring page is a byte with its
history.  The driver copies cells and never looks at one (`Vcom` is generic in them),
so the history changes nothing that happens.
-/
import AdvVcom.Driver.Moves
import AdvVcom.Daemon.Aloof

namespace AdvVcom

open Lib Lib.Ring

/-! ## Cells -/

/-- A byte, the session in which it was put into a ring, and whether it was in a ring
when a session ended. -/
structure Cell where
  byte : UInt8
  born : Nat
  old : Bool
  deriving DecidableEq

def Cell.aged (c : Cell) : Cell := { c with old := true }

/-- What a ring holds, without the history. -/
def KRing.bytes (r : KRing Cell) : List UInt8 := r.content.map Cell.byte

def KRing.aged (r : KRing Cell) : KRing Cell :=
  { r with data := remap Cell.aged r.data PAGE_SIZE r.head r.tail }

/-- A session ends: what is in the rings is old from now on. -/
def Vcom.aged (v : Vcom Cell) : Vcom Cell := { v with tx := v.tx.aged, rx := v.rx.aged }

/-- The bytes in the tty's fifo belong to session `n` when they enter a ring. -/
def Vcom.stamped (n : Nat) (v : Vcom Cell) : Vcom Cell :=
  { v with fifo := { v.fifo with bytes := v.fifo.bytes.map fun c => ⟨c.byte, n, false⟩ } }

/-- The tty is open. -/
def Vcom.inSession {β : Type} (v : Vcom β) : Bool := v.attr.attr.isOpen == 1

/-- The bytes put into the RX ring after the first `n` accesses. -/
def Vcom.appendedSince {β : Type} (n : Nat) (v : Vcom β) : List β :=
  (v.log.drop n).flatMap Access.appended

/-- The bytes put into the tty after the first `n` accesses. -/
def Vcom.insertedSince {β : Type} (n : Nat) (v : Vcom β) : List β :=
  (v.log.drop n).flatMap Access.inserted

/-! ## From the tty to the device -/

structure UpLink where
  /-- OPEN has gone out; no reset and no close since. -/
  live : Bool
  /-- Accesses and ring content when OPEN went out. -/
  openLog : Nat
  atOpen : List UInt8
  /-- The payloads of the WRITEs answered with SUCCESS that the head has moved over. -/
  acked : List UInt8
  /-- The payloads of the WRITEs whose answer no `recv` operation has been given yet. -/
  unanswered : List (List UInt8)
  /-- The payloads of the WRITEs answered with SUCCESS that the head has not moved over. -/
  acking : List UInt8

/-- The payloads of all WRITEs answered with SUCCESS, one behind the other. -/
def UpLink.confirmed (u : UpLink) : List UInt8 := u.acked ++ u.acking

def UpLink.sent (v : Vcom Cell) (u : UpLink) : Pkt → UpLink
  | .open _ _ _ =>
      { live := true, openLog := v.log.length, atOpen := v.rx.bytes, acked := [],
        unanswered := [], acking := [] }
  | .xmit _ data => { u with unanswered := u.unanswered ++ [data] }
  | _ => u

/-- A `recv` operation is given a WRITE frame from the device: it answers the oldest WRITE
that is out; SUCCESS or not is in its first parameter. -/
def UpLink.answered (u : UpLink) (f : List UInt8) : UpLink :=
  if hdrCmd (Mem.ofList f) = VCOM_CMD_WRITE then
    { u with
      unanswered := u.unanswered.tail
      acking := if attachP1 (Mem.ofList f) = STATUS_SUCCESS then u.acking ++ u.unanswered.headD []
        else u.acking }
  else u

def UpLink.next (v : Vcom Cell) (u : UpLink) : (e : Req) → e.Rep → UpLink
  | .send ps, ok => if show Bool from ok then ps.foldl (UpLink.sent v) u else u
  | .sslSend ps, r => if (show SslRet from r) = .ok then ps.foldl (UpLink.sent v) u else u
  | .ioctl .sRxHead _, _ => { u with acked := u.acked ++ u.acking, acking := [] }
  | .ioctl .sClr mask, _ => if hasFlag mask ADV_CLR_RX then { u with live := false } else u
  | .close, _ => { u with live := false }
  | .hand f, _ => u.answered f
  | _, _ => u

/-! ## From the device to the tty -/

/-- A copy of `len` bytes to offset `off` of the TX page, and the indices of the ring
when it was made. -/
structure Store where
  off : Int
  len : Nat
  head : Int
  tail : Int

/-- The copy stays in the page and off the cells from head to tail. -/
def Store.Free (c : Store) : Prop :=
  0 ≤ c.off ∧ c.off + c.len ≤ PAGE_SIZE ∧
    ∀ i : Nat, (i : Int) < dist PAGE_SIZE c.head c.tail →
      slot PAGE_SIZE c.head i < c.off ∨ c.off + c.len ≤ slot PAGE_SIZE c.head i

structure DownLink where
  /-- The number of accesses at the last clear. -/
  clearLog : Nat
  /-- The payloads accepted since then, one behind the other. -/
  accepted : List UInt8
  /-- The payload handed on and not accepted yet. -/
  incoming : List UInt8
  stores : List Store

def DownLink.next (v : Vcom Cell) (d : DownLink) : Req → DownLink
  | .hand f =>
      if hdrCmd (Mem.ofList f) = VCOM_CMD_DATAREADY then { d with incoming := f.drop HDR_LEN } else d
  | .copyTx off bs => { d with stores := d.stores ++ [⟨off, bs.length, v.tx.head, v.tx.tail⟩] }
  | .ioctl .sTxTail _ => { d with accepted := d.accepted ++ d.incoming, incoming := [] }
  | .ioctl .sClr mask =>
      if hasFlag mask ADV_CLR_TX then { d with clearLog := v.log.length, accepted := [] } else d
  | _ => d

/-! ## Sessions -/

/-- How bytes leave a ring, and whether the tty was open then. -/
inductive Event where
  /-- Sent to the device in a WRITE. -/
  | wrote (inSession : Bool) (cs : List Cell)
  /-- Inserted into the tty. -/
  | inserted (inSession : Bool) (cs : List Cell)
  /-- Thrown out of RX because of a close; `seen` sessions had begun when the daemon
  looked at the attributes for the last time. -/
  | discarded (seen : Nat) (cs : List Cell)
  deriving DecidableEq

/-- No old byte is used in a session, and none is lost to an earlier one's close. -/
def Event.Isolated : Event → Prop
  | .wrote inSession cs | .inserted inSession cs => inSession = true → ∀ c ∈ cs, c.old = false
  | .discarded seen cs => ∀ c ∈ cs, c.born ≤ seen

structure Sessions where
  /-- The number of `adv_uart_startup`s. -/
  count : Nat
  /-- The cells the daemon has read from the RX page since its last send. -/
  staged : List Cell
  /-- `count` when the daemon last looked at the attributes. -/
  seen : Nat
  /-- The clear under way was asked for by a `close` operation. -/
  byClose : Bool
  events : List Event

/-- What went into the tty from `v` to `v'` is an event. -/
def Sessions.noted (v v' : Vcom Cell) (t : Sessions) : Sessions :=
  if (v'.insertedSince v.log.length).isEmpty then t
  else { t with events := t.events ++ [.inserted v.inSession (v'.insertedSince v.log.length)] }

def Sessions.sent (v : Vcom Cell) (t : Sessions) : Pkt → Sessions
  | .xmit _ _ => { t with staged := [], events := t.events ++ [.wrote v.inSession t.staged] }
  | _ => t

/-- `vc_buf_clear` with both flags comes from a `close` operation only. -/
def Sessions.next (v : Vcom Cell) (t : Sessions) (v' : Vcom Cell) : Req → Sessions
  | .send ps | .sslSend ps => ps.foldl (Sessions.sent v) t
  | .readRx off len => { t with staged := t.staged ++ cells v.rx.data off len.toNat }
  | .attrPtr => { t with seen := t.count }
  | .ioctl .sClr mask => { t with byClose := hasFlag mask ADV_CLR_TX }
  | .ioctl .sRxHead _ =>
      if v.rx.clean && t.byClose then
        { t with events := t.events ++ [.discarded t.seen v.rx.content] }
      else t
  | .ioctl _ _ => t.noted v v'
  | .close => { t with staged := [] }
  | _ => t

/-! ## The environment -/

structure Sys where
  v : Vcom Cell
  up : UpLink
  down : DownLink
  ses : Sessions

/-- The port as `adv_main_init` leaves it. -/
def Sys.init (mctrl : UInt32) (page : Int → Cell) (fifo : Kfifo Cell) : Sys where
  v := (advMainInit mctrl page fifo).stamped 0
  up := ⟨false, 0, [], [], [], []⟩
  down := ⟨0, [], [], []⟩
  ses := ⟨0, [], 0, false, []⟩

/-- How the driver answers; what the daemon stores in the TX page is `fresh`. -/
def driverAnswers (fresh : UInt8 → Cell) (v : Vcom Cell) : (e : Req) → e.Rep → Vcom Cell → Prop
  | .ioctl c n, r, v' => ∃ accept,
      r = (if (advProcIoctl accept c.word (ownInt n) v).ret < 0 then none
        else some ((advProcIoctl accept c.word (ownInt n) v).put.getD 0)) ∧
      v' = (advProcIoctl accept c.word (ownInt n) v).vcom
  | .attrPtr, r, v' =>
      r = (advProcIoctl [] (Ioc.word .gAttrPtr) (ownInt 0) v).put.map (fun ptr =>
        (advProcIoctl [] (Ioc.word .gAttrPtr) (ownInt 0) v).vcom.attr.slots ptr.toNat) ∧
      v' = (advProcIoctl [] (Ioc.word .gAttrPtr) (ownInt 0) v).vcom
  | .copyTx off bs, _, v' => v' = (Call.pokeTx off (bs.map fresh)).run v
  | .readRx off len, r, v' => r = (cells v.rx.data off len.toNat).map Cell.byte ∧ v' = v
  | _, _, v' => v' = v

structure sysAnswers (w : Sys) (e : Req) (r : e.Rep) (w' : Sys) : Prop where
  driver : driverAnswers (⟨·, w.ses.count, false⟩) w.v e r w'.v
  up : w'.up = w.up.next w.v e r
  down : w'.down = w.down.next w.v e
  ses : w'.ses = w.ses.next w.v w'.v e

/-- A call of the tty layer. -/
def Sys.tty (w : Sys) (c : Call Cell) : Sys :=
  match c with
  | .startup =>
      { w with
        v := (advUartStartup w.v).stamped (w.ses.count + 1)
        ses := { w.ses with count := w.ses.count + 1 } }
  | .shutdown =>
      { w with
        v := (advUartShutdown w.v).aged
        ses := { w.ses with staged := w.ses.staged.map Cell.aged } }
  | c => { w with v := (c.run w.v).stamped w.ses.count, ses := w.ses.noted w.v (c.run w.v) }

/-- Driver and daemon, with `adv_uart_startup` only where `C` allows it. -/
abbrev systemWith (C : VcAttr → Sys → Prop) : Env VcSig VcAttr where
  World := Sys
  answers := sysAnswers
  drift := fun s w w' => ∃ c : Call Cell, c.OfTty ∧ (c = .startup → C s w) ∧ w' = w.tty c

/-- Driver and daemon, without any restriction on the tty. -/
abbrev system : Env VcSig VcAttr := systemWith fun _ _ => True

end AdvVcom
