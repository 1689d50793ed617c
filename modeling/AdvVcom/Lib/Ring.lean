/-
# `AdvVcom.Lib.Ring` — windows of a circular buffer

A circular buffer of `n` cells is a memory indexed from `0` to `n - 1`; the
`i`-th cell after position `h` is `slot n h i`, which wraps at most once.  The
`len` cells from `h` on are `window mem n h len`; the number of cells from `h`
up to (not including) `t` is `dist n h t`.  One cell is always left free by the
users of such a buffer, so that `h = t` means empty: a window that is in use has
`len < n`.

Positions are integers because the programs that use such buffers compute them
as integers; every lemma asks for the range it needs.

`cells` is a block read and `put` a block copy; neither wraps.  A copy into a
ring is one `put`, or two when it crosses the end.  What a ring with head `h` and tail `t` holds is
`content mem n h t`.
-/
import Mathlib.Data.List.Basic
import Mathlib.Data.List.Range
import Mathlib.Tactic.Common

namespace Lib.Ring

variable {α : Type}

/-! ## Positions -/

/-- The position `i` cells after `h`. -/
def slot (n h i : Int) : Int := if h + i < n then h + i else h + i - n

/-- How many cells there are from `h` up to `t`. -/
def dist (n h t : Int) : Int := if h ≤ t then t - h else n - h + t

section
variable {n h t i j : Int}

theorem slot_nonneg (hh : 0 ≤ h) (hi : 0 ≤ i) : 0 ≤ slot n h i := by
  unfold slot; split <;> omega

theorem slot_lt (hn : h < n) (hi : i ≤ n) : slot n h i < n := by
  unfold slot; split <;> omega

theorem slot_zero (hn : h < n) : slot n h 0 = h := by
  unfold slot; split <;> omega

theorem slot_slot (hn : h < n) (hj : 0 ≤ j) (hij : i + j ≤ n) :
    slot n (slot n h i) j = slot n h (i + j) := by
  unfold slot; split <;> split <;> (try split) <;> omega

theorem dist_nonneg (hh : h < n) (ht : 0 ≤ t) : 0 ≤ dist n h t := by
  unfold dist; split <;> omega

theorem dist_lt (hh : 0 ≤ h) (ht : t < n) : dist n h t < n := by
  unfold dist; split <;> omega

theorem slot_dist (ht : 0 ≤ t) (htn : t < n) :
    slot n h (dist n h t) = t := by
  unfold slot dist; split <;> split <;> omega

theorem dist_slot (hi : 0 ≤ i) (hin : i < n) :
    dist n h (slot n h i) = i := by
  unfold slot dist; split <;> split <;> omega

theorem dist_self : dist n h h = 0 := by
  unfold dist; split <;> omega

theorem dist_eq_zero (hn : h < n) (ht : 0 ≤ t) :
    dist n h t = 0 ↔ t = h := by
  unfold dist; split <;> omega

/-- Moving the near end forward by `i` shortens the distance by `i`. -/
theorem dist_slot_left (htn : t < n)
    (hi : 0 ≤ i) (hid : i ≤ dist n h t) : dist n (slot n h i) t = dist n h t - i := by
  unfold slot dist at *; split at hid <;> split <;> split <;> omega

/-- Moving the far end forward by `i` lengthens it, as long as it fits. -/
theorem dist_slot_right (hn : h < n)
    (hi : 0 ≤ i) (hid : dist n h t + i < n) : dist n h (slot n t i) = dist n h t + i := by
  unfold slot dist at *; split at hid <;> split <;> split <;> omega

end

/-! ## Windows -/

/-- The `len` cells from position `h` on. -/
def window (mem : Int → α) (n h : Int) (len : Nat) : List α :=
  (List.range len).map fun i : Nat => mem (slot n h i)

section
variable {mem mem' : Int → α} {n h : Int} {a b len : Nat}

@[simp] theorem length_window : (window mem n h len).length = len := by
  simp [window]

@[simp] theorem window_zero : window mem n h 0 = [] := rfl

theorem window_congr (hm : ∀ i : Nat, i < len → mem' (slot n h i) = mem (slot n h i)) :
    window mem' n h len = window mem n h len :=
  List.map_congr_left fun i hi => hm i (List.mem_range.mp hi)

theorem window_add (hn : h < n) (hab : (a : Int) + b ≤ n) :
    window mem n h (a + b) = window mem n h a ++ window mem n (slot n h a) b := by
  simp only [window, List.range_add, List.map_append, List.map_map]
  congr 1
  refine List.map_congr_left fun i hi => ?_
  have hib := List.mem_range.mp hi
  simp only [Function.comp, Int.natCast_add]
  rw [slot_slot hn (by omega) (by omega)]

theorem take_window (hn : h < n) (ha : a ≤ len) (hlen : (len : Int) ≤ n) :
    (window mem n h len).take a = window mem n h a := by
  obtain ⟨b, rfl⟩ := Nat.exists_eq_add_of_le ha
  rw [window_add hn (by omega), List.take_left' length_window]

end

/-! ## Block reads and block copies -/

/-- The `k` cells from `off` on, without wrapping. -/
def cells (mem : Int → α) (off : Int) (k : Nat) : List α :=
  (List.range k).map fun i : Nat => mem (off + i)

/-- Copy `xs` to the cells from `off` on, without wrapping. -/
def put (mem : Int → α) (off : Int) (xs : List α) : Int → α :=
  fun p => if off ≤ p then (xs[(p - off).toNat]?).getD (mem p) else mem p

section
variable {mem : Int → α} {n h t off : Int} {xs : List α} {len : Nat}

@[simp] theorem length_cells : (cells mem off len).length = len := by
  simp [cells]

theorem window_eq_cells (hfit : h + len ≤ n) : window mem n h len = cells mem h len := by
  refine List.map_congr_left fun i hi => ?_
  have hi' := List.mem_range.mp hi
  rw [slot, if_pos (by omega)]

theorem put_inside {i : Nat} (hi : i < xs.length) :
    put mem off xs (off + i) = xs[i] := by
  have hle : off ≤ off + i := by omega
  have hsub : (off + i - off).toNat = i := by omega
  rw [put, if_pos hle, hsub, List.getElem?_eq_getElem hi, Option.getD_some]

theorem put_outside {p : Int} (hp : p < off ∨ off + xs.length ≤ p) :
    put mem off xs p = mem p := by
  unfold put
  split
  · have hnone : xs[(p - off).toNat]? = none := List.getElem?_eq_none (by omega)
    rw [hnone]; rfl
  · rfl

end

/-! ## Contents -/

/-- The cells from the head `h` up to the tail `t`. -/
def content (mem : Int → α) (n h t : Int) : List α := window mem n h (dist n h t).toNat

section
variable {mem : Int → α} {n h t : Int} {xs : List α} {k : Nat}

theorem length_content : (content mem n h t).length = (dist n h t).toNat := length_window

theorem content_self : content mem n h h = [] := by
  simp [content, dist_self]

/-- Moving the head over `k` cells takes them off the front. -/
theorem content_advance (hh : 0 ≤ h) (hn : h < n) (ht : t < n) (hk : (k : Int) ≤ dist n h t) :
    content mem n h t = window mem n h k ++ content mem n (slot n h k) t := by
  have hd := dist_lt hh ht
  have hsplit : (dist n h t).toNat = k + (dist n h t - k).toNat := by omega
  rw [content, content, dist_slot_left ht (by omega) hk, hsplit]
  exact window_add hn (by omega)

/-- Moving the tail over `k` cells adds what is in them. -/
theorem content_extend (hn : h < n) (ht : 0 ≤ t) (htn : t < n)
    (hk : dist n h t + k < n) :
    content mem n h (slot n t k) = content mem n h t ++ window mem n t k := by
  have hd := dist_nonneg hn ht
  have hsum : (dist n h t + k).toNat = (dist n h t).toNat + k := by omega
  rw [content, content, dist_slot_right hn (by omega) hk, hsum, window_add hn (by omega)]
  rw [Int.toNat_of_nonneg hd, slot_dist ht htn]

/-- A copy behind the tail does not touch the content, if it fits the free cells. -/
theorem content_put (hn : h < n) (ht : 0 ≤ t) (hk : dist n h t + xs.length < n) :
    content (put mem t xs) n h t = content mem n h t := by
  refine window_congr fun i hi => put_outside ?_
  have hd := dist_nonneg hn ht
  unfold slot dist at *
  split at hk <;> split <;> omega

/-- What was copied is what is read back. -/
theorem window_put_self (hfit : t + xs.length ≤ n) :
    window (put mem t xs) n t xs.length = xs := by
  rw [window_eq_cells hfit]
  refine List.ext_getElem length_cells fun i h₁ h₂ => ?_
  simp only [cells, List.getElem_map, List.getElem_range]
  exact put_inside h₂

end

/-! ## Changing the content in place -/

/-- The cells from `h` up to `t` changed by `g`. -/
def remap (g : α → α) (mem : Int → α) (n h t : Int) : Int → α :=
  fun p => if dist n h p < dist n h t then g (mem p) else mem p

section
variable {g : α → α} {mem : Int → α} {n h t : Int} {k : Nat}

theorem content_remap (hh : 0 ≤ h) (ht : t < n) :
    content (remap g mem n h t) n h t = (content mem n h t).map g := by
  have hd := dist_lt hh ht
  simp only [content, window, List.map_map]
  refine List.map_congr_left fun i hi => ?_
  have hik := List.mem_range.mp hi
  simp only [remap, Function.comp]
  rw [dist_slot (by omega) (by omega), if_pos (by omega)]

/-- The free cells behind the tail stay as they are. -/
theorem window_remap (hn : h < n) (ht : 0 ≤ t) (htn : t < n) (hk : dist n h t + k ≤ n) :
    window (remap g mem n h t) n t k = window mem n t k := by
  have hd := dist_nonneg hn ht
  refine window_congr fun i hi => ?_
  have hslot : slot n t i = slot n h (dist n h t + i) := by
    rw [← slot_slot hn (by omega) (by omega), slot_dist ht htn]
  rw [hslot, remap, dist_slot (by omega) (by omega), if_neg (by omega)]

end

end Lib.Ring
