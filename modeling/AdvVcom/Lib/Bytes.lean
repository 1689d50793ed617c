/-
# `AdvVcom.Lib.Bytes` — flat memory, block copies and fixed-width integers

Memory is a function from addresses to bytes; a block copy (`blit`) overwrites
an interval and leaves the rest.  Integers are laid out big-endian or
little-endian by the four encoders below and read back by the decoders.

The two-run lemmas (`*_congr`) say which interval a read depends on: they are
what a statement of the form "these two memories are treated alike" needs.
-/
import Mathlib.Data.List.Basic
import Mathlib.Data.List.Range
import Mathlib.Tactic.Common

namespace Lib

abbrev Mem := Nat → UInt8

namespace Mem

/-- Copy the bytes `bs` to address `off`. -/
def blit (m : Mem) (off : Nat) (bs : List UInt8) : Mem :=
  fun i => if off ≤ i then (bs[i - off]?).getD (m i) else m i

/-- The `n` bytes from address `off` on. -/
def slice (m : Mem) (off n : Nat) : List UInt8 :=
  (List.range n).map fun i => m (off + i)

@[simp] theorem length_slice (m : Mem) (off n : Nat) : (m.slice off n).length = n := by
  simp [slice]

theorem blit_below {m : Mem} {off i : Nat} {bs : List UInt8} (h : i < off) :
    m.blit off bs i = m i := by
  simp [blit, Nat.not_le.mpr h]

theorem blit_above {m : Mem} {off i : Nat} {bs : List UInt8} (h : off + bs.length ≤ i) :
    m.blit off bs i = m i := by
  have hnone : bs[i - off]? = none := List.getElem?_eq_none (by omega)
  simp [blit, hnone]

/-- Inside the copied block the old memory does not show. -/
theorem blit_inside {m m' : Mem} {off i : Nat} {bs : List UInt8}
    (h : off ≤ i) (h' : i < off + bs.length) : m.blit off bs i = m'.blit off bs i := by
  have hlt : i - off < bs.length := by omega
  simp [blit, h, List.getElem?_eq_getElem hlt]

/-- At one address, a block copy makes two memories agree or leaves them agreeing. -/
theorem blit_congr {m m' : Mem} {off i : Nat} {bs : List UInt8}
    (h : m i = m' i ∨ (off ≤ i ∧ i < off + bs.length)) : m.blit off bs i = m'.blit off bs i := by
  rcases h with h | ⟨hlo, hhi⟩
  · simp only [blit, h]
  · exact blit_inside hlo hhi

/-- Where a block copy starts where two memories agreed so far, they agree further. -/
theorem blit_extend {m m' : Mem} {off : Nat} {bs : List UInt8}
    (h : ∀ i, i < off → m i = m' i) {i : Nat} (hi : i < off + bs.length) :
    m.blit off bs i = m'.blit off bs i := by
  refine blit_congr ?_
  rcases Nat.lt_or_ge i off with hlt | hge
  · exact Or.inl (h i hlt)
  · exact Or.inr ⟨hge, hi⟩

theorem slice_congr {m m' : Mem} {off n : Nat}
    (h : ∀ i, off ≤ i → i < off + n → m i = m' i) : m.slice off n = m'.slice off n := by
  refine List.map_congr_left fun i hi => ?_
  have := List.mem_range.mp hi
  exact h _ (by omega) (by omega)

theorem slice_add (m : Mem) (off a b : Nat) :
    m.slice off (a + b) = m.slice off a ++ m.slice (off + a) b := by
  simp [slice, List.range_add, Nat.add_assoc, Function.comp_def]

theorem slice_blit_self (m : Mem) (off : Nat) (bs : List UInt8) :
    (m.blit off bs).slice off bs.length = bs := by
  refine List.ext_getElem (by simp) fun i h₁ h₂ => ?_
  simp [slice, blit, List.getElem?_eq_getElem h₂]

@[simp] theorem blit_nil (m : Mem) (off : Nat) : m.blit off [] = m := by
  funext i
  simp [blit]

/-- Two copies behind each other are one. -/
theorem blit_blit (m : Mem) (off : Nat) (bs cs : List UInt8) :
    (m.blit off bs).blit (off + bs.length) cs = m.blit off (bs ++ cs) := by
  funext i
  simp only [blit]
  by_cases hoff : off ≤ i
  · by_cases hbs : off + bs.length ≤ i
    · have hbs' : bs.length ≤ i - off := by omega
      rw [if_pos hbs, if_pos hoff, if_pos hoff, List.getElem?_append_right hbs',
        List.getElem?_eq_none hbs', Option.getD_none, Nat.sub_add_eq]
    · rw [if_neg hbs, if_pos hoff, if_pos hoff, List.getElem?_append_left (by omega)]
  · rw [if_neg (by omega), if_neg hoff, if_neg hoff]

/-- A copy covers a shorter one. -/
theorem blit_over (m : Mem) (off : Nat) {bs cs : List UInt8} (h : bs.length ≤ cs.length) :
    (m.blit off bs).blit off cs = m.blit off cs := by
  funext i
  rcases Nat.lt_or_ge i off with hlt | hge
  · rw [blit_below hlt, blit_below hlt, blit_below hlt]
  rcases Nat.lt_or_ge i (off + cs.length) with hlt | hge'
  · exact blit_inside hge hlt
  · rw [blit_above hge', blit_above hge', blit_above (by omega)]

/-- The copies `ws`, one after the other. -/
def write (m : Mem) (ws : List (Nat × List UInt8)) : Mem :=
  ws.foldl (fun m w => m.blit w.1 w.2) m

/-- A memory that begins with `bs`. -/
def ofList (bs : List UInt8) : Mem := fun i => bs.getD i 0

theorem ofList_slice {m : Mem} {n i : Nat} (h : i < n) : ofList (m.slice 0 n) i = m i := by
  simp [ofList, slice, List.getElem?_range h]

/-- The memory seen from address `off` on. -/
def shift (m : Mem) (off : Nat) : Mem := fun i => m (off + i)

/-- `m` below `off`, and `m'` from there on. -/
def splice (m : Mem) (off : Nat) (m' : Mem) : Mem := fun i => if i < off then m i else m' (i - off)

/-! ## Integers -/

/-- `ntohs` of the two bytes at `off`. -/
def be16 (m : Mem) (off : Nat) : Nat :=
  (m off).toNat * 256 + (m (off + 1)).toNat

/-- `ntohl` of the four bytes at `off`. -/
def be32 (m : Mem) (off : Nat) : UInt32 :=
  UInt32.ofNat (((m off).toNat * 256 + (m (off + 1)).toNat) * 65536
    + ((m (off + 2)).toNat * 256 + (m (off + 3)).toNat))

/-- `le32toh` of the four bytes at `off`. -/
def le32 (m : Mem) (off : Nat) : UInt32 :=
  UInt32.ofNat (((m (off + 3)).toNat * 256 + (m (off + 2)).toNat) * 65536
    + ((m (off + 1)).toNat * 256 + (m off).toNat))

theorem be16_congr {m m' : Mem} {off : Nat}
    (h : ∀ i, off ≤ i → i < off + 2 → m i = m' i) : m.be16 off = m'.be16 off := by
  simp [be16, h off (by omega) (by omega), h (off + 1) (by omega) (by omega)]

theorem be32_congr {m m' : Mem} {off : Nat}
    (h : ∀ i, off ≤ i → i < off + 4 → m i = m' i) : m.be32 off = m'.be32 off := by
  simp [be32, h off (by omega) (by omega), h (off + 1) (by omega) (by omega),
    h (off + 2) (by omega) (by omega), h (off + 3) (by omega) (by omega)]

theorem le32_congr {m m' : Mem} {off : Nat}
    (h : ∀ i, off ≤ i → i < off + 4 → m i = m' i) : m.le32 off = m'.le32 off := by
  simp [le32, h off (by omega) (by omega), h (off + 1) (by omega) (by omega),
    h (off + 2) (by omega) (by omega), h (off + 3) (by omega) (by omega)]

end Mem

/-- `htons`. -/
def be16Bytes (x : Nat) : List UInt8 := [UInt8.ofNat (x / 256), UInt8.ofNat x]

/-- `htonl`. -/
def be32Bytes (x : UInt32) : List UInt8 :=
  [UInt8.ofNat (x.toNat / 16777216), UInt8.ofNat (x.toNat / 65536),
   UInt8.ofNat (x.toNat / 256), UInt8.ofNat x.toNat]

/-- `htole32`. -/
def le32Bytes (x : UInt32) : List UInt8 :=
  [UInt8.ofNat x.toNat, UInt8.ofNat (x.toNat / 256),
   UInt8.ofNat (x.toNat / 65536), UInt8.ofNat (x.toNat / 16777216)]

@[simp] theorem length_be16Bytes (x : Nat) : (be16Bytes x).length = 2 := rfl

@[simp] theorem length_be32Bytes (x : UInt32) : (be32Bytes x).length = 4 := rfl

@[simp] theorem length_le32Bytes (x : UInt32) : (le32Bytes x).length = 4 := rfl

namespace Mem

/-! ## Reading back what was stored -/

theorem be16_blit (m : Mem) (off : Nat) {x : Nat} (hx : x < 65536) :
    (m.blit off (be16Bytes x)).be16 off = x := by
  simp [be16, blit, be16Bytes]
  omega

theorem be32_blit (m : Mem) (off : Nat) (x : UInt32) :
    (m.blit off (be32Bytes x)).be32 off = x := by
  have hx := x.toNat_lt
  apply UInt32.toNat_inj.mp
  simp [be32, blit, be32Bytes, UInt32.toNat_ofNat']
  omega

theorem le32_blit (m : Mem) (off : Nat) (x : UInt32) :
    (m.blit off (le32Bytes x)).le32 off = x := by
  have hx := x.toNat_lt
  apply UInt32.toNat_inj.mp
  simp [le32, blit, le32Bytes, UInt32.toNat_ofNat']
  omega

/-- A store behind a field does not touch it. -/
theorem be16_blit_behind {m : Mem} {off off' : Nat} {bs : List UInt8} (h : off + 2 ≤ off') :
    (m.blit off' bs).be16 off = m.be16 off :=
  be16_congr fun _ _ hi => blit_below (by omega)

theorem be32_blit_behind {m : Mem} {off off' : Nat} {bs : List UInt8} (h : off + 4 ≤ off') :
    (m.blit off' bs).be32 off = m.be32 off :=
  be32_congr fun _ _ hi => blit_below (by omega)

end Mem

end Lib
