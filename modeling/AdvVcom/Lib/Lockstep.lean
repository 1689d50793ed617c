/-
# `AdvVcom.Lib.Lockstep` — one process in the place of another

Two processes with different variables run in lockstep if they make the same requests in
the same order, whatever the replies are, and come to the same result.  At every pause
their variables are related by `R`, and at the end by `P`.  What is shown of the one, with
the simpler variables, then holds of the other.

The second process may die where it likes: it is only asked about while it does not.

**Proved here.**

    pieces in lockstep make wholes in lockstep  (`Sim.bind`)
    what is shown of the second holds of the first, in a world that does not
    move by itself                              (`Sim.wp`)
-/
import AdvVcom.Lib.Proc

namespace Lib

section
variable {S : Sig} {σ τ α β : Type}

inductive Sim (R : σ → τ → Prop) (P : α → σ → τ → Prop) : Proc S σ α → Proc S τ α → Prop
  | done {a : α} {s : σ} {t : τ} : P a s t → Sim R P (.done a s) (.done a t)
  | fault {p : Proc S σ α} {f : S.Fault} : Sim R P p (.fault f)
  | pause {s : σ} {t : τ} {e : S.Req} {k : S.Rep e → Proc S σ α} {k' : S.Rep e → Proc S τ α} :
      R s t → (∀ r, Sim R P (k r) (k' r)) → Sim R P (.pause s e k) (.pause t e k')

variable {R : σ → τ → Prop} {P : α → σ → τ → Prop} {P' : β → σ → τ → Prop}

theorem Sim.bind {p : Proc S σ α} {q : Proc S τ α} {f : α → Act S σ β} {g : α → Act S τ β}
    (h : Sim R P p q) (hfg : ∀ a s t, P a s t → Sim R P' (f a s) (g a t)) :
    Sim R P' (p.bind f) (q.bind g) := by
  induction h with
  | done hP => exact hfg _ _ _ hP
  | fault => exact .fault
  | pause hR _ ih => exact .pause hR ih

end

/-- A world that does not move by itself, for processes with any variables. -/
structure Still (S : Sig) where
  World : Type
  answers : World → (e : S.Req) → S.Rep e → World → Prop

@[reducible] def Still.env {S : Sig} (E : Still S) (σ : Type) : Env S σ :=
  ⟨E.World, E.answers, fun _ _ _ => False⟩

section
variable {S : Sig} {σ τ α : Type} {E : Still S}

theorem Still.drifts {s : σ} {w w' : E.World} (h : (E.env σ).Drifts s w w') : w' = w := by
  induction h with
  | refl => rfl
  | tail _ hdrift _ => exact hdrift.elim

/-- The rule for a request in such a world. -/
theorem Still.wp_request {I : σ → E.World → Prop} {e : S.Req} {Q : S.Rep e → σ → E.World → Prop}
    {s : σ} {w : E.World} (hI : I s w) (hQ : ∀ r w', E.answers w e r w' → Q r s w') :
    (Act.request e : Act S σ (S.Rep e)).wp (E.env σ) I Q s w :=
  Act.wp_request_still (fun _ _ h => h) hI hQ

/-- What is shown of the second process holds of the first, in terms of its own variables. -/
theorem Sim.wp {R : σ → τ → Prop} {P : α → σ → τ → Prop} {p : Proc S σ α} {q : Proc S τ α}
    (h : Sim R P p q) {I : τ → E.World → Prop} {Q : α → τ → E.World → Prop}
    {I' : σ → E.World → Prop} {Q' : α → σ → E.World → Prop} {w : E.World}
    (hq : q.wp (E.env τ) I Q w) (hI : ∀ s t w, R s t → I t w → I' s w)
    (hQ : ∀ a s t w, P a s t → Q a t w → Q' a s w) : p.wp (E.env σ) I' Q' w := by
  induction h generalizing w with
  | done hP => exact hQ _ _ _ _ hP hq
  | fault => exact hq.elim
  | pause hR _ ih =>
      intro w' hw'
      cases Still.drifts hw'
      obtain ⟨hpause, hk⟩ := hq w Relation.ReflTransGen.refl
      exact ⟨hI _ _ _ hR hpause, fun r w'' hr => ih r (hk r w'' hr)⟩

end

end Lib
