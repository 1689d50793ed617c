/-
# `AdvVcom.Lib.Getopt` — options on a command line

`getopt(3)` as the GNU C library has it, for one-letter options.  An argument that
begins with a dash holds one option or several; an option with a value takes the rest
of its argument, or the next argument if nothing is left.  Arguments that are no options
are passed over wherever they stand, and the argument `--` ends the options.

The letters are of any type, with a mark for the dash and one for the colon of the
option string.

**Proved here.**

    a row of arguments, each a dash, a letter and a value, is read back
    as it was written                                        (`getopt_row`)
-/
import Mathlib.Tactic.Common

namespace Lib.Getopt

variable {α : Type} [DecidableEq α]

/-- What one call reports: an option without or with its value, or `?` for a letter that
is no option and for a value that is missing. -/
inductive Got (α : Type) where
  | flag (c : α)
  | value (c : α) (v : List α)
  | bad
  deriving DecidableEq, Repr

/-- The option string: whether the option `c` has a value, and `none` if there is no such
option. -/
def takes (colon : α) : List α → α → Option Bool
  | [], _ => none
  | x :: spec, c =>
      if x = c ∧ c ≠ colon then some (spec.head? = some colon) else takes colon spec c

/-- The options of one argument behind its dash: those that are complete, and the letter
of the last one if its value is the next argument. -/
def cluster (spec : α → Option Bool) : List α → List (Got α) × Option α
  | [] => ([], none)
  | c :: cs =>
      match spec c with
      | none =>
          let (gs, last) := cluster spec cs
          (.bad :: gs, last)
      | some false =>
          let (gs, last) := cluster spec cs
          (.flag c :: gs, last)
      | some true => if cs = [] then ([], some c) else ([.value c cs], none)

/-- The reports of all calls, up to the one that returns -1. -/
def getopt (dash : α) (spec : α → Option Bool) : List (List α) → List (Got α)
  | [] => []
  | (x :: c :: cs) :: argv =>
      if x = dash then
        if c = dash ∧ cs = [] then []
        else
          match cluster spec (c :: cs), argv with
          | (gs, none), argv => gs ++ getopt dash spec argv
          | (gs, some _), [] => gs ++ [.bad]
          | (gs, some o), v :: argv => gs ++ .value o v :: getopt dash spec argv
      else getopt dash spec argv
  | _ :: argv => getopt dash spec argv

/-- **A row of options with their values.** -/
theorem getopt_row {dash : α} {spec : α → Option Bool} {opts : List (α × List α)}
    (h : ∀ f ∈ opts, spec f.1 = some true ∧ f.2 ≠ []) :
    getopt dash spec (opts.map fun f => dash :: f.1 :: f.2) =
      opts.map fun f => .value f.1 f.2 := by
  induction opts with
  | nil => rfl
  | cons f opts ih =>
      obtain ⟨htakes, hvalue⟩ := h f List.mem_cons_self
      have hrest := ih fun x hx => h x (List.mem_cons_of_mem _ hx)
      have hone : cluster spec (f.1 :: f.2) = ([.value f.1 f.2], none) := by
        rw [cluster, htakes]
        simp only [if_neg hvalue]
      have hmore : ¬ (f.1 = dash ∧ f.2 = []) := fun hend => hvalue hend.2
      rw [List.map_cons, List.map_cons, ← hrest, getopt.eq_def]
      simp only [if_true, if_neg hmore, hone, List.singleton_append]

end Lib.Getopt
