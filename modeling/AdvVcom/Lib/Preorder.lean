/-
# `AdvVcom.Lib.Preorder` — trees listed node by node

A tree is listed in pre-order: a node, then its children one after the other.  The number
of children each node has (`need`) is all that is required to find the end of a tree in
such a list: a counter of the trees still to come starts at one, a node takes one from it
and adds its children.

`skip need k xs` is what is left behind the first `k` trees.

**Proved here.**

    trees are skipped one lot after the other               (`skip_add`)
    what is left is a part of the list                      (`skip_suffix`)
-/
import Mathlib.Tactic.Common

namespace Lib.Preorder

variable {α : Type} (need : α → Nat)

def skip : Nat → List α → Option (List α)
  | 0, xs => some xs
  | _ + 1, [] => none
  | k + 1, x :: xs => skip (k + need x) xs

variable {need}

theorem skip_zero (xs : List α) : skip need 0 xs = some xs := by
  cases xs <;> rfl

theorem skip_add (j k : Nat) (xs : List α) :
    skip need (j + k) xs = (skip need j xs).bind (skip need k) := by
  induction xs generalizing j with
  | nil =>
      cases j with
      | zero => rw [Nat.zero_add, skip_zero, Option.bind_some]
      | succ j => rw [Nat.succ_add]; rfl
  | cons x xs ih =>
      cases j with
      | zero => rw [Nat.zero_add, skip_zero, Option.bind_some]
      | succ j =>
          rw [Nat.succ_add, skip, skip, ← ih (j + need x)]
          congr 1
          omega

theorem skip_suffix {k : Nat} {xs ys : List α} (h : skip need k xs = some ys) :
    ∃ zs, xs = zs ++ ys ∧ k ≤ zs.length := by
  induction xs generalizing k with
  | nil =>
      cases k with
      | zero => exact ⟨[], by simpa [skip] using h, Nat.le_refl 0⟩
      | succ k => cases h
  | cons x xs ih =>
      cases k with
      | zero => exact ⟨[], by simpa [skip] using h, Nat.le_refl 0⟩
      | succ k =>
          obtain ⟨zs, rfl, hlen⟩ := ih h
          exact ⟨x :: zs, rfl, by rw [List.length_cons]; omega⟩

end Lib.Preorder
