/-
# `AdvVcom.Lib.Progress` — loops that have to get somewhere

`Proc` says what a loop never does.  Here is how to say what it must do within so many
rounds, whatever the environment answers and however it drifts: `Dodges n` is a run that
has begun `n` rounds and has not found `G` when it began one.  A rank that every round
lowers bounds `n`.

Such a statement needs an environment that does its part, and so it is about a smaller
environment than the safety of the same loop.  What is known in the larger one is known in
the smaller one.

**Proved here.**

    a rank that every round lowers bounds the rounds      (`Env.Dodges.le_rank`)
    a smaller environment, and two facts at once          (`Act.wp_embed`, `Act.wp_and`)
-/
import AdvVcom.Lib.Proc

namespace Lib

section
variable {S : Sig} {σ α : Type} (𝓔 : Env S σ)

/-- `n` rounds have begun, none of them where `G` holds. -/
inductive Env.Dodges (body : α → Act S σ (Option α)) (G : σ → 𝓔.World → Prop) (a₀ : α) (s₀ : σ)
    (w₀ : 𝓔.World) : Nat → Proc S σ (Option α) → 𝓔.World → Prop
  | start : Env.Dodges body G a₀ s₀ w₀ 0 (.done (some a₀) s₀) w₀
  | answer {n : Nat} {s : σ} {e : S.Req} {k : S.Rep e → Proc S σ (Option α)} {r : S.Rep e}
      {w w' : 𝓔.World} : Env.Dodges body G a₀ s₀ w₀ n (.pause s e k) w → 𝓔.answers w e r w' →
      Env.Dodges body G a₀ s₀ w₀ n (k r) w'
  | drift {n : Nat} {p : Proc S σ (Option α)} {s : σ} {w w' : 𝓔.World} :
      Env.Dodges body G a₀ s₀ w₀ n p w → p.state? = some s → 𝓔.drift s w w' →
      Env.Dodges body G a₀ s₀ w₀ n p w'
  | again {n : Nat} {a : α} {s : σ} {w : 𝓔.World} :
      Env.Dodges body G a₀ s₀ w₀ n (.done (some a) s) w → ¬ G s w →
      Env.Dodges body G a₀ s₀ w₀ (n + 1) (body a s) w

variable {𝓔} {I : σ → 𝓔.World → Prop} {body : α → Act S σ (Option α)} {G : σ → 𝓔.World → Prop}
  {J : α → σ → 𝓔.World → Prop} {rank : σ → 𝓔.World → Nat}

/-- How a round ends after `n` rounds, with `R` to be spent. -/
def Env.Pays (G : σ → 𝓔.World → Prop) (J : α → σ → 𝓔.World → Prop) (rank : σ → 𝓔.World → Nat)
    (R n : Nat) (o : Option α) (s : σ) (w : 𝓔.World) : Prop :=
  ∃ a, o = some a ∧ (G s w ∨ J a s w ∧ rank s w + n ≤ R)

/-- What holds along the run: the round under way will have paid for itself. -/
theorem Env.Dodges.pays (hG : ∀ s w w', G s w → 𝓔.drift s w w' → G s w')
    (hJ : ∀ a s w w', J a s w → 𝓔.drift s w w' → J a s w' ∧ rank s w' ≤ rank s w)
    (hround : ∀ a s w, J a s w → ¬ G s w → (body a).wp 𝓔 I (fun o s' w' =>
      ∃ a', o = some a' ∧ (G s' w' ∨ J a' s' w' ∧ rank s' w' < rank s w)) s w)
    {a₀ : α} {s₀ : σ} {w₀ w : 𝓔.World} (hstart : J a₀ s₀ w₀) {n : Nat} {p : Proc S σ (Option α)}
    (h : 𝓔.Dodges body G a₀ s₀ w₀ n p w) :
    p.wp 𝓔 I (Env.Pays G J rank (rank s₀ w₀) n) w := by
  induction h with
  | start => exact ⟨a₀, rfl, Or.inr ⟨hstart, Nat.le_refl _⟩⟩
  | answer _ hr ih => exact (ih _ Relation.ReflTransGen.refl).2 _ _ hr
  | @drift n p s w w' _ hs hd ih =>
      cases p with
      | done o s' =>
          cases hs
          obtain ⟨a, rfl, hg | ⟨hj, hle⟩⟩ := ih
          · exact ⟨a, rfl, Or.inl (hG _ _ _ hg hd)⟩
          · obtain ⟨hj', hrank⟩ := hJ a _ _ _ hj hd
            exact ⟨a, rfl, Or.inr ⟨hj', by omega⟩⟩
      | fault x => exact ih
      | pause s' e k =>
          cases hs
          exact fun w'' hw'' => ih w'' (Relation.ReflTransGen.head hd hw'')
  | @again n a s w _ hg ih =>
      obtain ⟨_, ha, hdone⟩ := ih
      cases ha
      obtain ⟨hj, hle⟩ := hdone.resolve_left hg
      refine Proc.wp_mono (hround a _ _ hj hg) ?_
      rintro o s' w' ⟨a', rfl, hg' | ⟨hj', hlt⟩⟩
      · exact ⟨a', rfl, Or.inl hg'⟩
      · exact ⟨a', rfl, Or.inr ⟨hj', by omega⟩⟩

/-- **The rank rule.** -/
theorem Env.Dodges.le_rank (hG : ∀ s w w', G s w → 𝓔.drift s w w' → G s w')
    (hJ : ∀ a s w w', J a s w → 𝓔.drift s w w' → J a s w' ∧ rank s w' ≤ rank s w)
    (hpos : ∀ a s w, J a s w → ¬ G s w → 0 < rank s w)
    (hround : ∀ a s w, J a s w → ¬ G s w → (body a).wp 𝓔 I (fun o s' w' =>
      ∃ a', o = some a' ∧ (G s' w' ∨ J a' s' w' ∧ rank s' w' < rank s w)) s w)
    {a₀ : α} {s₀ : σ} {w₀ w : 𝓔.World} (hstart : J a₀ s₀ w₀) {n : Nat} {p : Proc S σ (Option α)}
    (h : 𝓔.Dodges body G a₀ s₀ w₀ n p w) : n ≤ rank s₀ w₀ := by
  induction h with
  | start => exact Nat.zero_le _
  | answer _ _ ih => exact ih
  | drift _ _ _ ih => exact ih
  | @again n a s w hrun hg ih =>
      obtain ⟨_, ha, hdone⟩ := hrun.pays hG hJ hround hstart
      cases ha
      obtain ⟨hj, hle⟩ := hdone.resolve_left hg
      have hrank := hpos a _ _ hj hg
      omega

/-- A round against a reply function the environment allows. -/
theorem Env.Dodges.exec {reply : 𝓔.World → (e : S.Req) → Option (S.Rep e × 𝓔.World)}
    (hlegal : ∀ {w e r w'}, reply w e = some (r, w') → 𝓔.answers w e r w') {a₀ : α} {s₀ : σ}
    {w₀ w w' : 𝓔.World} {n : Nat} {p : Proc S σ (Option α)} {o : Option α} {s : σ}
    (h : 𝓔.Dodges body G a₀ s₀ w₀ n p w) (hrun : p.exec reply w = some (o, s, w')) :
    𝓔.Dodges body G a₀ s₀ w₀ n (.done o s) w' := by
  induction p generalizing w with
  | done o s =>
      cases hrun
      exact h
  | fault x => cases hrun
  | pause s e k ih =>
      cases hr : reply w e with
      | none =>
          rw [Proc.exec, hr] at hrun
          cases hrun
      | some rw =>
          rw [Proc.exec, hr] at hrun
          exact ih rw.1 (h.answer (hlegal hr)) hrun

end

/-! ## Smaller environments -/

section
variable {S : Sig} {σ α : Type} {𝓔 : Env S σ} {I I' : σ → 𝓔.World → Prop}

/-- What holds in `𝓔` holds in an environment that does, seen through `π`, only what `𝓔`
may do. -/
theorem Act.wp_embed (𝓔 𝓔' : Env S σ) {I : σ → 𝓔.World → Prop} {m : Act S σ α}
    {Q : α → σ → 𝓔.World → Prop} {s : σ} {w : 𝓔'.World} (π : 𝓔'.World → 𝓔.World)
    (hans : ∀ {w e r w'}, 𝓔'.answers w e r w' → 𝓔.answers (π w) e r (π w'))
    (hdrift : ∀ {s w w'}, 𝓔'.drift s w w' → 𝓔.drift s (π w) (π w')) (h : m.wp 𝓔 I Q s (π w)) :
    m.wp 𝓔' (fun s w => I s (π w)) (fun a s w => Q a s (π w)) s w := by
  unfold Act.wp at h ⊢
  generalize m s = p at h
  induction p generalizing w with
  | done a s => exact h
  | fault x => exact h
  | pause s e k ih =>
      intro w' hw'
      have hmoved : 𝓔.Drifts s (π w) (π w') := by
        induction hw' with
        | refl => exact Relation.ReflTransGen.refl
        | tail _ hd ih' => exact ih'.tail (hdrift hd)
      obtain ⟨hI, hk⟩ := h (π w') hmoved
      exact ⟨hI, fun r w'' hr => ih r (hk r (π w'') (hans hr))⟩

theorem Act.wp_and {m : Act S σ α} {Q Q' : α → σ → 𝓔.World → Prop} {s : σ} {w : 𝓔.World}
    (h : m.wp 𝓔 I Q s w) (h' : m.wp 𝓔 I' Q' s w) :
    m.wp 𝓔 I (fun a s w => Q a s w ∧ Q' a s w) s w := by
  unfold Act.wp at h h' ⊢
  generalize m s = p at h h'
  induction p generalizing w with
  | done a s => exact ⟨h, h'⟩
  | fault x => exact h
  | pause s e k ih =>
      intro w' hw'
      obtain ⟨hI, hk⟩ := h w' hw'
      exact ⟨hI, fun r w'' hr => ih r (hk r w'' hr) ((h' w' hw').2 r w'' hr)⟩

end

end Lib
