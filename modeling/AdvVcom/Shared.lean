/-
# `AdvVcom.Shared` — what the driver and the daemon have in common

Both sides are compiled against the same headers: the attribute record of a
port (`advtype.h`), the ioctl commands of the proc file (`advioctl.h`) and the
index arithmetic of a ring (`advvcom.h`).  The kernel's `struct ring_buf` has
more fields than the daemon's; what the index arithmetic reads is the part they
share, `RingBuf`.

C's `int` is `Int` here, and every sum or difference is wrapped to 32 bits by
`int32` (both sides run on machines where it wraps; the kernel is built so that
the compiler may rely on it).  On an in-range ring no wrap happens, and the five
inline functions are the distances and windows of `Lib.Ring`:

**Proved here.**

    length = dist, room = size − dist − 1              (`RingBuf.InRange.length_eq`, `.room_eq`)
    0 ≤ length < size, 0 ≤ room < size                 (`.length_nonneg` …, `.room_nonneg`)
    head + llength and tail + lroom stay in the page   (`.head_add_llength_le`, `.tail_add_lroom_le`)
-/
import AdvVcom.Lib.Ring
import Mathlib.Algebra.Group.Nat.Defs
import Mathlib.Algebra.Ring.Int.Defs

namespace AdvVcom

/-! ## C integers -/

/-- The value a C `int` holds after a computation with the exact result `x`. -/
def int32 (x : Int) : Int := Int.bmod x (2 ^ 32)

theorem int32_eq {x : Int} (hlo : -2147483648 ≤ x) (hhi : x < 2147483648) : int32 x = x := by
  unfold int32; rw [Int.bmod_def]; split <;> omega

theorem int32_range (x : Int) : -2147483648 ≤ int32 x ∧ int32 x < 2147483648 := by
  unfold int32; rw [Int.bmod_def]; split <;> omega

/-! ## `advtype.h` -/

def ADV_PAIR_NONE : Int := 0
def ADV_PAIR_ODD : Int := 1
def ADV_PAIR_EVEN : Int := 2
def ADV_PAIR_MARK : Int := 3
def ADV_PAIR_SPACE : Int := 4
def ADV_PAIR_UNDEF : Int := 5

def ADV_FLOW_NONE : Int := 0
def ADV_FLOW_XONXOFF : Int := 1
def ADV_FLOW_RTSCTS : Int := 2
def ADV_FLOW_UNDEF : Int := 4

def ADV_STOP_1 : Int := 0
def ADV_STOP_2 : Int := 2
def ADV_STOP_UNDEF : Int := 3

def ADV_MS_DTR : UInt32 := 0x002
def ADV_MS_RTS : UInt32 := 0x004
def ADV_MS_CTS : UInt32 := 0x010
def ADV_MS_DSR : UInt32 := 0x020
def ADV_MS_RNG : UInt32 := 0x040
def ADV_MS_CAR : UInt32 := 0x080

/-- `struct adv_port_info`: the settings of a port, as the driver publishes them. -/
structure PortInfo where
  isOpen : Int
  baud : Int
  flowctl : Int
  byte : Int
  pair : Int
  stop : Int
  ms : UInt32
  deriving DecidableEq, Repr, Inhabited

/-- A record cleared by `memset`. -/
def PortInfo.zero : PortInfo := ⟨0, 0, 0, 0, 0, 0, 0⟩

/-! ## `advioctl.h` -/

/-- The commands of the proc file: `g` reads an `int` from the driver, `s` hands
it one. -/
inductive Ioc where
  | gTxHead | gTxTail | gTxSize | gTxBegin
  | gRxHead | gRxTail | gRxSize | gRxBegin
  | gAttrBegin | gAttrPtr
  | sTxTail | sRxHead | sInter | sMCtrl | sClr
  deriving DecidableEq, Repr

/-- `mask & f` for a mask `f` of one bit. -/
def hasFlag (mask f : Int) : Bool := mask / f % 2 == 1

def ADV_INT_RX : Int := 1
def ADV_INT_TX : Int := 2
def ADV_CLR_RX : Int := 1
def ADV_CLR_TX : Int := 2

/-! ## `advvcom.h`: the index arithmetic of a ring -/

def PAGE_SIZE : Int := 4096

structure RingBuf where
  head : Int
  tail : Int
  begin : Int
  size : Int
  deriving DecidableEq, Repr, Inhabited

def isRbEmpty (buf : RingBuf) : Bool := buf.tail == buf.head

def getRbLength (buf : RingBuf) : Int :=
  if buf.tail ≥ buf.head then int32 (buf.tail - buf.head)
  else int32 (int32 (buf.size - buf.head) + buf.tail)

def getRbLlength (buf : RingBuf) : Int :=
  let a := int32 (buf.size - buf.head)
  let b := getRbLength buf
  if a < b then a else b

def getRbRoom (buf : RingBuf) : Int :=
  int32 (int32 (buf.size - getRbLength buf) - 1)

def getRbLroom (buf : RingBuf) : Int :=
  let a := int32 (buf.size - buf.tail)
  let b := getRbRoom buf
  if a < b then a else b

def getRbTail (buf : RingBuf) : Int := buf.tail

def getRbHead (buf : RingBuf) : Int := buf.head

/-! ## In-range rings -/

/-- A ring of one page whose indices lie in the page. -/
structure RingBuf.InRange (buf : RingBuf) : Prop where
  size_eq : buf.size = PAGE_SIZE
  head_nonneg : 0 ≤ buf.head
  head_lt : buf.head < PAGE_SIZE
  tail_nonneg : 0 ≤ buf.tail
  tail_lt : buf.tail < PAGE_SIZE

namespace RingBuf.InRange

open Lib.Ring

variable {buf : RingBuf} (h : buf.InRange)
include h

theorem length_eq : getRbLength buf = dist PAGE_SIZE buf.head buf.tail := by
  obtain ⟨hs, hh, hh', ht, ht'⟩ := h
  simp only [getRbLength, Lib.Ring.dist, hs, PAGE_SIZE] at *
  have hsub : int32 (4096 - buf.head) = 4096 - buf.head := int32_eq (by omega) (by omega)
  rw [hsub]
  split
  · exact int32_eq (by omega) (by omega)
  · exact int32_eq (by omega) (by omega)

theorem length_nonneg : 0 ≤ getRbLength buf := by
  rw [h.length_eq]; exact dist_nonneg h.head_lt h.tail_nonneg

theorem length_lt : getRbLength buf < PAGE_SIZE := by
  rw [h.length_eq]; exact dist_lt h.head_nonneg h.tail_lt

theorem room_eq : getRbRoom buf = PAGE_SIZE - dist PAGE_SIZE buf.head buf.tail - 1 := by
  have hlo := h.length_nonneg
  have hhi := h.length_lt
  rw [← h.length_eq]
  simp only [getRbRoom, h.size_eq, PAGE_SIZE] at *
  have hsub : int32 (4096 - getRbLength buf) = 4096 - getRbLength buf :=
    int32_eq (by omega) (by omega)
  rw [hsub, int32_eq (by omega) (by omega)]

theorem llength_eq : getRbLlength buf =
    min (PAGE_SIZE - buf.head) (dist PAGE_SIZE buf.head buf.tail) := by
  have hh := h.head_nonneg
  have hh' := h.head_lt
  simp only [getRbLlength, h.size_eq, h.length_eq, PAGE_SIZE] at *
  rw [int32_eq (by omega) (by omega)]
  split <;> omega

theorem lroom_eq : getRbLroom buf =
    min (PAGE_SIZE - buf.tail) (PAGE_SIZE - dist PAGE_SIZE buf.head buf.tail - 1) := by
  have ht := h.tail_nonneg
  have ht' := h.tail_lt
  simp only [getRbLroom, h.size_eq, h.room_eq, PAGE_SIZE] at *
  rw [int32_eq (by omega) (by omega)]
  split <;> omega

theorem llength_nonneg : 0 ≤ getRbLlength buf := by
  have hd := dist_nonneg h.head_lt h.tail_nonneg
  have hh := h.head_lt
  rw [h.llength_eq]; omega

theorem head_add_llength_le : buf.head + getRbLlength buf ≤ PAGE_SIZE := by
  rw [h.llength_eq]; omega

theorem lroom_nonneg : 0 ≤ getRbLroom buf := by
  have hd := dist_lt h.head_nonneg h.tail_lt
  have ht := h.tail_lt
  rw [h.lroom_eq]; omega

theorem tail_add_lroom_le : buf.tail + getRbLroom buf ≤ PAGE_SIZE := by
  rw [h.lroom_eq]; omega

end RingBuf.InRange

end AdvVcom
