/-
# `AdvVcom.Lib.Lower` — requests carried out by programs

A request may stand for a program of its own: a helper that makes calls of a finer kind,
waits, and tries again.  `Proc.lower` puts the programs in the place of the requests, and
what was one pause becomes many, with drift at each of them.

The process above is right about the one below if, in the finer environment `𝓕` seen
through `π`, such a program does nothing but what the environment `𝓔` above may do while
the process is paused at the request, and at its end answers it (`Env.Serves`).  Then
every run below is a run above: at each moment both are done alike, dead alike, or waiting.

**Proved here.**

    every run below is one above                     (`Env.Reach.raise`)
    running against a reply function up to a request (`Env.Reach.runTo`)
-/
import AdvVcom.Lib.Proc

namespace Lib

section
variable {S S' : Sig} {σ α : Type}

/-- `p` with every request carried out by `impl`.  What follows the request goes on with
the variables it had there: what `impl` made of them is for `p` to repeat. -/
def Proc.lower (impl : (e : S.Req) → Act S' σ (S.Rep e)) (dies : S.Fault → S'.Fault) :
    Proc S σ α → Proc S' σ α
  | .done a s => .done a s
  | .fault f => .fault (dies f)
  | .pause s e k => (impl e s).bind fun r _ => (k r).lower impl dies

/-- Both done alike, dead alike, or waiting. -/
inductive Proc.Alike (dies : S.Fault → S'.Fault) : Proc S σ α → Proc S' σ α → Prop
  | done (a : α) (s : σ) : Proc.Alike dies (.done a s) (.done a s)
  | fault (f : S.Fault) : Proc.Alike dies (.fault f) (.fault (dies f))
  | pause (s : σ) (e : S.Req) (k : S.Rep e → Proc S σ α) (s' : σ) (e' : S'.Req)
      (k' : S'.Rep e' → Proc S' σ α) : Proc.Alike dies (.pause s e k) (.pause s' e' k')

variable (𝓔 : Env S σ) (𝓕 : Env S' σ) (π : 𝓕.World → 𝓔.World)

/-- Above, nothing but drift since the request was made in `c`. -/
def Env.Waiting (s : σ) (c : 𝓔.World) (_ : σ) (w : 𝓕.World) : Prop := 𝓔.Drifts s c (π w)

/-- Above, drift and then the answer. -/
def Env.Answered (s : σ) (c : 𝓔.World) (e : S.Req) (r : S.Rep e) (_ : σ) (w : 𝓕.World) : Prop :=
  ∃ c', 𝓔.Drifts s c c' ∧ 𝓔.answers c' e r (π w)

/-- The program for `e` does what the environment above may do. -/
def Env.Serves (impl : (e : S.Req) → Act S' σ (S.Rep e)) : Prop :=
  ∀ e s w, (impl e).wp 𝓕 (Env.Waiting 𝓔 𝓕 π s (π w)) (Env.Answered 𝓔 𝓕 π s (π w) e) s w

variable {𝓔 𝓕 π} {impl : (e : S.Req) → Act S' σ (S.Rep e)} {dies : S.Fault → S'.Fault}

/-- How a configuration below goes with one above: inside a program, what is left of the
program will still do its part. -/
inductive Env.Within (𝓔 : Env S σ) (𝓕 : Env S' σ) (π : 𝓕.World → 𝓔.World)
    (impl : (e : S.Req) → Act S' σ (S.Rep e)) (dies : S.Fault → S'.Fault) :
    Proc S σ α → 𝓔.World → Proc S' σ α → 𝓕.World → Prop
  | done (a : α) (s : σ) (w : 𝓕.World) : Env.Within 𝓔 𝓕 π impl dies (.done a s) (π w) (.done a s) w
  | fault (f : S.Fault) (w : 𝓕.World) :
      Env.Within 𝓔 𝓕 π impl dies (.fault f) (π w) (.fault (dies f)) w
  | pause {s s' : σ} {e : S.Req} {k : S.Rep e → Proc S σ α} {e' : S'.Req}
      {q : S'.Rep e' → Proc S' σ (S.Rep e)} {c : 𝓔.World} {w : 𝓕.World} :
      (Proc.pause s' e' q).wp 𝓕 (Env.Waiting 𝓔 𝓕 π s c) (Env.Answered 𝓔 𝓕 π s c e) w →
      Env.Within 𝓔 𝓕 π impl dies (.pause s e k) c
        (.pause s' e' fun r => (q r).bind fun r _ => (k r).lower impl dies) w

theorem Act.wp.weaken {I I' : σ → 𝓔.World → Prop} {m : Act S σ α}
    {Q Q' : α → σ → 𝓔.World → Prop} {s : σ} {c : 𝓔.World} (h : m.wp 𝓔 I Q s c)
    (hI : ∀ s w, I s w → I' s w) (hQ : ∀ a s w, Q a s w → Q' a s w) : m.wp 𝓔 I' Q' s c := by
  unfold Act.wp at h ⊢
  generalize m s = p at h
  induction p generalizing c with
  | done a s => exact hQ a s c h
  | fault f => exact h
  | pause s e k ih =>
      intro c' hc'
      obtain ⟨hi, hk⟩ := h c' hc'
      exact ⟨hI s c' hi, fun r c'' hr => ih r (hk r c'' hr)⟩

/-! ## Runs -/

section
variable {β : Type} {body : β → Act S σ (Option β)} {p₀ : Proc S σ (Option β)} {c₀ c : 𝓔.World}

/-- Drift while the process shows `s`. -/
theorem Env.Reach.drifts {p : Proc S σ (Option β)} {s : σ} {c' : 𝓔.World}
    (h : 𝓔.Reach body p₀ c₀ p c) (hs : p.state? = some s) (hd : 𝓔.Drifts s c c') :
    𝓔.Reach body p₀ c₀ p c' := by
  induction hd with
  | refl => exact h
  | tail _ hd ih => exact ih.step (.drift hs hd)

/-- What is left of the program for `e`, and what follows it. -/
theorem Env.Within.of_program {s : σ} {e : S.Req} {k : S.Rep e → Proc S σ (Option β)}
    (hnext : ∀ r w, 𝓔.Reach body p₀ c₀ (k r) (π w) → ∃ p c, 𝓔.Reach body p₀ c₀ p c ∧
      Env.Within 𝓔 𝓕 π impl dies p c ((k r).lower impl dies) w)
    (h : 𝓔.Reach body p₀ c₀ (.pause s e k) c) {q : Proc S' σ (S.Rep e)} {w : 𝓕.World}
    (hq : q.wp 𝓕 (Env.Waiting 𝓔 𝓕 π s c) (Env.Answered 𝓔 𝓕 π s c e) w) :
    ∃ p c, 𝓔.Reach body p₀ c₀ p c ∧
      Env.Within 𝓔 𝓕 π impl dies p c (q.bind fun r _ => (k r).lower impl dies) w := by
  cases q with
  | done r s' =>
      obtain ⟨c', hd, hr⟩ := hq
      exact hnext r w ((h.drifts rfl hd).step (.answer hr))
  | fault f => exact hq.elim
  | pause s' e' q => exact ⟨_, c, h, .pause hq⟩

variable (hserves : Env.Serves 𝓔 𝓕 π impl)

include hserves

theorem Env.Within.of_lower (p : Proc S σ (Option β)) {w : 𝓕.World}
    (h : 𝓔.Reach body p₀ c₀ p (π w)) :
    ∃ p' c, 𝓔.Reach body p₀ c₀ p' c ∧ Env.Within 𝓔 𝓕 π impl dies p' c (p.lower impl dies) w := by
  induction p generalizing w with
  | done a s => exact ⟨_, _, h, .done a s w⟩
  | fault f => exact ⟨_, _, h, .fault f w⟩
  | pause s e k ih => exact Env.Within.of_program (fun r w hr => ih r hr) h (hserves e s w)

/-- One step below. -/
theorem Env.Within.step (hdrift : ∀ {s w w'}, 𝓕.drift s w w' → 𝓔.Drifts s (π w) (π w'))
    {p : Proc S σ (Option β)} {p' p'' : Proc S' σ (Option β)} {w w' : 𝓕.World}
    (h : 𝓔.Reach body p₀ c₀ p c) (hin : Env.Within 𝓔 𝓕 π impl dies p c p' w)
    (hstep : 𝓕.Step (fun a s => (body a s).lower impl dies) p' w p'' w') :
    ∃ p c, 𝓔.Reach body p₀ c₀ p c ∧ Env.Within 𝓔 𝓕 π impl dies p c p'' w' := by
  cases hin with
  | done a s =>
      cases hstep with
      | drift hs hd =>
          cases hs
          exact ⟨_, _, h.drifts rfl (hdrift hd), .done a _ w'⟩
      | again => exact Env.Within.of_lower hserves _ (h.step .again)
  | fault f =>
      cases hstep with
      | drift hs _ => cases hs
  | pause hq =>
      cases hstep with
      | answer hr =>
          refine Env.Within.of_program (fun r w hr => Env.Within.of_lower hserves _ hr) h ?_
          exact (hq _ Relation.ReflTransGen.refl).2 _ _ hr
      | drift hs hd =>
          cases hs
          exact ⟨_, c, h, .pause fun w'' hw'' => hq w'' (Relation.ReflTransGen.head hd hw'')⟩

theorem Env.Reach.within (hdrift : ∀ {s w w'}, 𝓕.drift s w w' → 𝓔.Drifts s (π w) (π w'))
    {p : Proc S' σ (Option β)} {w₀ w : 𝓕.World}
    (h : 𝓕.Reach (fun a s => (body a s).lower impl dies) (p₀.lower impl dies) w₀ p w) :
    ∃ p' c, 𝓔.Reach body p₀ (π w₀) p' c ∧ Env.Within 𝓔 𝓕 π impl dies p' c p w := by
  induction h with
  | start => exact Env.Within.of_lower hserves p₀ .start
  | step _ hstep ih =>
      obtain ⟨p', c, hreach, hin⟩ := ih
      exact Env.Within.step hserves hdrift hreach hin hstep

/-- **Every run below is one above.** -/
theorem Env.Reach.raise (hdrift : ∀ {s w w'}, 𝓕.drift s w w' → 𝓔.Drifts s (π w) (π w'))
    {p : Proc S' σ (Option β)} {w₀ w : 𝓕.World}
    (h : 𝓕.Reach (fun a s => (body a s).lower impl dies) (p₀.lower impl dies) w₀ p w) :
    ∃ p', 𝓔.Reach body p₀ (π w₀) p' (π w) ∧ Proc.Alike dies p' p := by
  obtain ⟨p', c, hreach, hin⟩ := h.within hserves hdrift
  cases hin with
  | done a s => exact ⟨_, hreach, .done a s⟩
  | fault f => exact ⟨_, hreach, .fault f⟩
  | pause hq => exact ⟨_, hreach.drifts rfl hq.pause, .pause _ _ _ _ _ _⟩

end

end

/-! ## Runs up to a request -/

section
variable {S : Sig} {σ α W : Type}

/-- The variables at the first request of `stop`, against a reply function. -/
def Proc.runTo (stop : S.Req → Bool) (reply : W → (e : S.Req) → Option (S.Rep e × W)) :
    Proc S σ α → W → Option (σ × W)
  | .done _ _, _ => none
  | .fault _, _ => none
  | .pause s e k, w =>
      if stop e then some (s, w)
      else
        match reply w e with
        | some (r, w') => (k r).runTo stop reply w'
        | none => none

theorem Env.Reach.runTo {𝓔 : Env S σ} {body : α → Act S σ (Option α)} {stop : S.Req → Bool}
    {reply : 𝓔.World → (e : S.Req) → Option (S.Rep e × 𝓔.World)}
    (hlegal : ∀ {w e r w'}, reply w e = some (r, w') → 𝓔.answers w e r w')
    {p₀ p : Proc S σ (Option α)} {w₀ w w' : 𝓔.World} {s : σ} (h : 𝓔.Reach body p₀ w₀ p w)
    (hrun : p.runTo stop reply w = some (s, w')) :
    ∃ e k, stop e = true ∧ 𝓔.Reach body p₀ w₀ (.pause s e k) w' := by
  induction p generalizing w with
  | done b s₁ => simp [Proc.runTo] at hrun
  | fault x => simp [Proc.runTo] at hrun
  | pause s₁ e k ih =>
      rw [Proc.runTo] at hrun
      split at hrun
      next hstop =>
        cases hrun
        exact ⟨e, k, hstop, h⟩
      next =>
        cases hr : reply w e with
        | none => simp [hr] at hrun
        | some rw =>
            rw [hr] at hrun
            exact ih rw.1 (h.step (.answer (hlegal hr))) hrun

end

end Lib
