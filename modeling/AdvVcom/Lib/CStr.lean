/-
# `AdvVcom.Lib.CStr` — strings that end at a mark

A C string is the part of a memory before the first zero.  Here it is a list, the
memory a list it begins, and the zero any element `z`.  A row of strings is closed by
a `z` behind each of them, which is how an argument vector lies in memory.

`strstr` gives the first place of a pattern, `after` what stands behind it.  A
pattern of two elements is the case the users of this file have: an option is a dash
and a letter, and what stands behind it is its value.

**Proved here.**

    a string in front of its mark is read back              (`upto_append`)
    a pattern is not found before its first element         (`after_append_of_not_mem`)
    a pattern `[p, q]` is not found across `p :: x`         (`after_pair_ne`)
    what is found is shorter by the pattern                 (`length_of_after`)
-/
import Mathlib.Tactic.Common

namespace Lib.CStr

/-- The byte of an ASCII character. -/
def ascii (c : Char) : UInt8 := UInt8.ofNat c.toNat

/-- The bytes of a literal, without the zero. -/
def asciis (s : String) : List UInt8 := s.toList.map ascii

variable {α : Type}

/-- The strings `row`, each closed by `z`. -/
def closed (z : α) (row : List (List α)) : List α := row.flatMap (· ++ [z])

theorem closed_cons {z : α} {s : List α} (row : List (List α)) :
    closed z (s :: row) = s ++ z :: closed z row := by
  simp [closed]

/-- What can be read off each element of a list. -/
theorem forall_mem_of_all {l : List α} {P : α → Prop} [DecidablePred P]
    (h : (l.all fun c => decide (P c)) = true) : ∀ c ∈ l, P c :=
  fun c hc => of_decide_eq_true (List.all_eq_true.mp h c hc)

variable [DecidableEq α]

/-- The string that begins the memory `mem`. -/
def upto (z : α) (mem : List α) : List α := mem.takeWhile (· ≠ z)

/-- The first place where `pat` occurs in a string. -/
def strstr (pat : List α) : List α → Option Nat
  | [] => if pat = [] then some 0 else none
  | c :: s => if pat.isPrefixOf (c :: s) then some 0 else (strstr pat s).map (· + 1)

/-- What stands behind the first occurrence of `pat`. -/
def after (pat s : List α) : Option (List α) :=
  (strstr pat s).map fun k => s.drop (k + pat.length)

section
variable {z p q c : α} {s t mem pat : List α}

theorem upto_append (hs : z ∉ s) : upto z (s ++ z :: mem) = s := by
  have hall : ∀ x ∈ s, decide (x ≠ z) = true := fun x hx =>
    decide_eq_true fun he => hs (he ▸ hx)
  rw [upto, List.takeWhile_append_of_pos hall, List.takeWhile_cons_of_neg (by simp),
    List.append_nil]

/-- What stands behind the mark does not matter. -/
theorem upto_append_of_mem (hs : z ∈ s) : upto z (s ++ t) = upto z s := by
  induction s with
  | nil => cases hs
  | cons c s ih =>
      by_cases hc : c = z
      · simp [upto, hc]
      · have hrest : z ∈ s := (List.mem_cons.mp hs).resolve_left (Ne.symm hc)
        rw [List.cons_append, upto, upto, List.takeWhile_cons_of_pos (by simpa using hc),
          List.takeWhile_cons_of_pos (by simpa using hc)]
        exact congrArg (c :: ·) (ih hrest)

/-! ## Searching -/

theorem strstr_le {k : Nat} (h : strstr pat s = some k) : k + pat.length ≤ s.length := by
  induction s generalizing k with
  | nil =>
      simp only [strstr] at h
      split at h
      · rename_i hnil
        cases h
        simp [hnil]
      · cases h
  | cons c s ih =>
      simp only [strstr] at h
      split at h
      · rename_i hprefix
        cases h
        have hlen := (List.isPrefixOf_iff_prefix.mp hprefix).length_le
        omega
      · obtain ⟨j, hj, rfl⟩ := Option.map_eq_some_iff.mp h
        have hle := ih hj
        rw [List.length_cons]
        omega

theorem length_of_after (h : after pat s = some t) : t.length + pat.length ≤ s.length := by
  obtain ⟨k, hk, rfl⟩ := Option.map_eq_some_iff.mp h
  have hle := strstr_le hk
  rw [List.length_drop]
  omega

theorem after_nil (hpat : pat ≠ []) : after pat ([] : List α) = none := by
  simp [after, strstr, hpat]

/-- A pattern that begins the string is found there. -/
theorem after_append : after pat (pat ++ s) = some s := by
  have hzero : strstr pat (pat ++ s) = some 0 := by
    cases hps : pat ++ s with
    | nil => simp [strstr, (List.append_eq_nil_iff.mp hps).1]
    | cons c t =>
        have hprefix : pat.isPrefixOf (c :: t) = true := by
          rw [List.isPrefixOf_iff_prefix, ← hps]
          exact List.prefix_append pat s
        rw [strstr, if_pos hprefix]
  simp [after, hzero]

/-- A pattern that does not begin the string is looked for in the rest. -/
theorem after_cons (h : ¬ pat.isPrefixOf (c :: s)) : after pat (c :: s) = after pat s := by
  rw [after, strstr, if_neg h, after, Option.map_map]
  congr 1
  funext k
  simp only [Function.comp]
  rw [Nat.add_right_comm, List.drop_succ_cons]

theorem after_cons_ne (hc : c ≠ p) : after (p :: pat) (c :: s) = after (p :: pat) s := by
  refine after_cons ?_
  simp [List.isPrefixOf, hc.symm]

theorem after_append_of_not_mem (hs : p ∉ s) :
    after (p :: pat) (s ++ t) = after (p :: pat) t := by
  induction s with
  | nil => rfl
  | cons c s ih =>
      have hne : c ≠ p := (List.ne_of_not_mem_cons hs).symm
      rw [List.cons_append, after_cons_ne hne, ih (List.not_mem_of_not_mem_cons hs)]

theorem after_eq_none (hs : p ∉ s) : after (p :: pat) s = none := by
  have happ : after (p :: pat) (s ++ []) = after (p :: pat) [] := after_append_of_not_mem hs
  rw [List.append_nil] at happ
  rw [happ, after_nil (List.cons_ne_nil _ _)]

/-- The pair `[p, q]` is not found across `p` and something else. -/
theorem after_pair_ne (hq : c ≠ q) (hp : c ≠ p) : after [p, q] (p :: c :: s) = after [p, q] s := by
  rw [after_cons, after_cons_ne hp]
  simp [List.isPrefixOf, hq.symm]

end

end Lib.CStr
