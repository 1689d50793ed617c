/-
# `AdvVcom.Lib.Block` — blocks of memory with a size

A block is a list that carries its length.  A range is read, written, moved or printed to
as `memcpy`, `memmove` and `snprintf` do it; a range that leaves the block gives `none`.

A block often shows the front of a text that is longer than the block itself.  Moving what
stands behind a place up to the end of the block, and writing into the gap, inserts into
the text: what is pushed out at the end was part of it, and is not shown any longer.

**Proved here.**

    a write replaces a part of the text shown          (`Shows.write`, `Shows.print`)
    a move opens a gap in it                           (`Shows.move`)
    a move that starts at the wrong length is outside  (`move_eq_none`)
-/
import Mathlib.Data.List.Basic
import Mathlib.Tactic.Common

namespace Lib

structure Block (α : Type) (n : Nat) where
  cells : List α
  size : cells.length = n

namespace Block
variable {α : Type} {n : Nat} {b : Block α n} {off len : Nat} {bs : List α}

/-- `memset` over the whole block. -/
def fill (n : Nat) (c : α) : Block α n := ⟨List.replicate n c, List.length_replicate⟩

def read (b : Block α n) (off len : Nat) : Option (List α) :=
  if off + len ≤ n then some ((b.cells.drop off).take len) else none

/-- `memcpy` into the block. -/
def write (b : Block α n) (off : Nat) (bs : List α) : Option (Block α n) :=
  if h : off + bs.length ≤ n then
    some ⟨b.cells.take off ++ bs ++ b.cells.drop (off + bs.length), by
      have := b.size
      simp only [List.length_append, List.length_take, List.length_drop]
      omega⟩
  else none

/-- `memmove` inside the block. -/
def move (b : Block α n) (dst src len : Nat) : Option (Block α n) :=
  (b.read src len).bind (b.write dst)

/-- `snprintf` from `off` on with the room that is left, and `z` behind what is printed. -/
def print (z : α) (b : Block α n) (off : Nat) (text : List α) : Option (Block α n) :=
  if off = n then some b else b.write off (text.take (n - off - 1) ++ [z])

theorem read_eq (h : off + len ≤ n) : b.read off len = some ((b.cells.drop off).take len) :=
  if_pos h

theorem read_eq_none (h : n < off + len) : b.read off len = none := if_neg (Nat.not_le.mpr h)

theorem write_eq (b : Block α n) (h : off + bs.length ≤ n) :
    ∃ b', b.write off bs = some b' ∧
      b'.cells = b.cells.take off ++ bs ++ b.cells.drop (off + bs.length) :=
  ⟨_, dif_pos h, rfl⟩

theorem write_eq_none (h : n < off + bs.length) : b.write off bs = none :=
  dif_neg (Nat.not_le.mpr h)

theorem move_eq_none {dst src : Nat} (h : n < dst + len) : b.move dst src len = none := by
  unfold move read
  split
  · rename_i hsrc
    have hlen : ((b.cells.drop src).take len).length = len := by
      have := b.size
      rw [List.length_take, List.length_drop]
      omega
    exact write_eq_none (hlen.symm ▸ h)
  · rfl

/-- What is printed ends with `z`, unless there is no room at all. -/
theorem mem_of_print {z : α} {b' : Block α n} {text : List α}
    (h : b.print z off text = some b') (hz : off = n → z ∈ b.cells) : z ∈ b'.cells := by
  unfold print at h
  split at h
  · rename_i hoff
    cases h
    exact hz hoff
  · unfold write at h
    split at h
    · cases h
      simp
    · cases h

/-! ## The front of a text -/

/-- The block shows as much of the text as it has room for. -/
def Shows (b : Block α n) (text : List α) : Prop := b.cells = text.take n

section
variable {p q r : List α}

theorem shows_fill (c : α) : (fill n c).Shows (List.replicate n c) := by
  rw [Shows, List.take_of_length_le (Nat.le_of_eq List.length_replicate)]
  rfl

theorem shows_append (hp : p.length ≤ n) :
    b.Shows (p ++ r) ↔ b.cells = p ++ r.take (n - p.length) := by
  rw [Shows, List.take_append, List.take_of_length_le hp]

theorem Shows.le_length {text : List α} (h : b.Shows text) : n ≤ text.length := by
  have hsize := b.size
  rw [h, List.length_take] at hsize
  omega

/-- How many equal cells stand at the end does not matter. -/
theorem Shows.replicate {a k : Nat} {c : α} (h : b.Shows (p ++ List.replicate a c))
    (hk : n ≤ p.length + k) : b.Shows (p ++ List.replicate k c) := by
  have ha := h.le_length
  rw [List.length_append, List.length_replicate] at ha
  rw [Shows, h, List.take_append, List.take_append, List.take_replicate, List.take_replicate,
    Nat.min_eq_left (by omega), Nat.min_eq_left (by omega)]

theorem Shows.read (h : b.Shows (p ++ r)) (hp : p.length ≤ n) : b.read 0 p.length = some p := by
  rw [read_eq (by omega), (shows_append hp).mp h, List.drop_zero, List.take_left]

/-- A part of the text is replaced by one of its length. -/
theorem Shows.write {q' : List α} (h : b.Shows (p ++ q ++ r)) (hlen : q'.length = q.length)
    (hroom : p.length + q.length ≤ n) :
    ∃ b', b.write p.length q' = some b' ∧ b'.Shows (p ++ q' ++ r) := by
  obtain ⟨b', hwrite, hcells⟩ := write_eq b (hlen.symm ▸ hroom)
  have hb := (shows_append (by rwa [List.length_append])).mp h
  have htail : b.cells.drop (p.length + q.length) = r.take (n - (p ++ q).length) := by
    rw [hb, ← List.length_append, List.drop_left]
  have hhead : b.cells.take p.length = p := by
    rw [hb, List.append_assoc, List.take_left]
  refine ⟨b', hwrite, ?_⟩
  rw [shows_append (by rwa [List.length_append, hlen]), hcells, hlen, htail, hhead,
    List.length_append, List.length_append, hlen]

/-- What is printed, and `z`, replaces as much of the text. -/
theorem Shows.print (h : b.Shows (p ++ r)) (hp : p.length < n) (z : α) (text : List α) :
    ∃ b', b.print z p.length text = some b' ∧
      b'.Shows (p ++ (text.take (n - p.length - 1) ++ [z]) ++
        r.drop (text.take (n - p.length - 1) ++ [z]).length) := by
  have hle := h.le_length
  have hnew : (text.take (n - p.length - 1) ++ [z]).length ≤ n - p.length := by
    rw [List.length_append, List.length_take, List.length_singleton]
    omega
  rw [List.length_append] at hle
  rw [Block.print, if_neg (Nat.ne_of_lt hp)]
  generalize text.take (n - p.length - 1) ++ [z] = new at hnew ⊢
  have hold : new.length = (r.take new.length).length := by
    rw [List.length_take]
    omega
  rw [← List.take_append_drop new.length r, ← List.append_assoc] at h
  exact h.write hold (by omega)

/-- Behind a text that is printed over blanks there are blanks. -/
theorem Shows.print_over {a k : Nat} {c : α} (h : b.Shows (p ++ (q ++ List.replicate a c)))
    (hp : p.length < n) (hq : q.length ≤ 1) (hk : n ≤ k) (z : α) (text : List α) :
    ∃ b', b.print z p.length text = some b' ∧
      b'.Shows (p ++ text.take (n - p.length - 1) ++ z :: List.replicate k c) := by
  obtain ⟨b', hprint, hshows⟩ := h.print hp z text
  refine ⟨b', hprint, ?_⟩
  have hnew : q.length ≤ (text.take (n - p.length - 1) ++ [z]).length := by
    rw [List.length_append, List.length_singleton]
    omega
  rw [List.drop_append, List.drop_of_length_le hnew, List.nil_append, List.drop_replicate] at hshows
  have hblank := hshows.replicate (Nat.le_trans hk (Nat.le_add_left _ _))
  rwa [← List.append_assoc, List.append_assoc _ [z]] at hblank

/-- What stands behind `p` moves up by `k`. -/
theorem Shows.move (h : b.Shows (p ++ r)) {k : Nat} (hroom : p.length + k ≤ n) :
    ∃ b' gap, b.move (p.length + k) p.length (n - p.length - k) = some b' ∧ gap.length = k ∧
      b'.Shows (p ++ gap ++ r) := by
  have hp : p.length ≤ n := by omega
  have hb := (shows_append hp).mp h
  have hsize := b.size
  have hread : b.read p.length (n - p.length - k) = some (r.take (n - p.length - k)) := by
    rw [read_eq (by omega), hb, List.drop_left, List.take_take, Nat.min_eq_left (Nat.sub_le _ _)]
  have hlen : (r.take (n - p.length - k)).length = n - p.length - k := by
    rw [hb, List.length_append, List.length_take] at hsize
    rw [List.length_take]
    omega
  have hfits : p.length + k + (r.take (n - p.length - k)).length ≤ n := by omega
  obtain ⟨b', hwrite, hcells⟩ := write_eq b hfits
  have hgap : ((b.cells.drop p.length).take k).length = k := by
    rw [List.length_take, List.length_drop, hsize]
    omega
  have hhead : b.cells.take (p.length + k) = p ++ (b.cells.drop p.length).take k := by
    rw [List.take_add, hb, List.take_left, List.drop_left]
  have hend : b.cells.drop (p.length + k + (n - p.length - k)) = [] :=
    List.drop_of_length_le (by omega)
  refine ⟨b', (b.cells.drop p.length).take k, ?_, hgap, ?_⟩
  · rw [Block.move, hread]
    exact hwrite
  · rw [shows_append (by rwa [List.length_append, hgap]), hcells, hlen, hhead, hend,
      List.append_nil, List.length_append, hgap, Nat.sub_sub]

end

end Block

end Lib
