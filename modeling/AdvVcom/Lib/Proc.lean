/-
# `AdvVcom.Lib.Proc` — processes that pause at every request

A process with private variables `σ` runs until it has to ask its environment
something: a system call, a read of shared memory, a message.  There it
*pauses*, its variables visible, and what happens next depends on the reply.
`Proc S σ α` is the tree of all such pauses; `Act S σ α` is a process that
still waits for its variables, and is a monad, so that straight-line code can
be written down as straight-line code.

An environment `Env S σ` says which replies a world may give and how the world
may move on its own (`drift`) while the process is paused.  Nothing is assumed
about when drift happens, so a statement about every reachable configuration is
a statement about every interleaving of the process with its environment at the
granularity of requests.

**Proved here.**

    wp is compositional                              (`wp_bind`, `wp_mono`)
    a loop whose body re-establishes Q keeps it       (`Env.Reach.wp`)
    running against a reply function                  (`Proc.exec_bind`)
    what holds whatever the replies are               (`Proc.Always.wp`)
    what only the first request can tell apart        (`Act.Begins.wp`)
    what a run leaves in a log, whatever the replies  (`Act.logs_bind`, `Proc.Logs.exec`)
    what a run can leave there, with the right ones   (`Act.may_bind`, `Act.Logs.may`)
-/
import Mathlib.Logic.Relation
import Mathlib.Logic.Basic

namespace Lib

/-- What a process may ask, what it is told in return, and how it may die. -/
structure Sig where
  Req : Type
  Rep : Req → Type
  Fault : Type

/-- A process: finished, dead, or paused at the request `e` with variables `s`. -/
inductive Proc (S : Sig) (σ α : Type) where
  | done (a : α) (s : σ)
  | fault (f : S.Fault)
  | pause (s : σ) (e : S.Req) (k : S.Rep e → Proc S σ α)

/-- A process that has not been given its variables yet. -/
def Act (S : Sig) (σ α : Type) : Type := σ → Proc S σ α

section
variable {S : Sig} {σ α β γ : Type}

/-! ## The monad -/

def Proc.bind : Proc S σ α → (α → Act S σ β) → Proc S σ β
  | .done a s, f => f a s
  | .fault x, _ => .fault x
  | .pause s e k, f => .pause s e fun r => (k r).bind f

theorem Proc.bind_done (p : Proc S σ α) : p.bind (fun a s => .done a s) = p := by
  induction p with
  | done a s => rfl
  | fault x => rfl
  | pause s e k ih =>
      simp only [Proc.bind]
      congr 1
      funext r
      exact ih r

namespace Act

instance : Monad (Act S σ) where
  pure a := fun s => .done a s
  bind m f := fun s => (m s).bind f

/-- Read the variables. -/
def get : Act S σ σ := fun s => .done s s

/-- Write the variables. -/
def modify (g : σ → σ) : Act S σ Unit := fun s => .done () (g s)

/-- Pause at a request and hand back the reply. -/
def request (e : S.Req) : Act S σ (S.Rep e) := fun s => .pause s e fun r => .done r s

/-- Die. -/
def die (f : S.Fault) : Act S σ α := fun _ => .fault f

theorem bind_apply (m : Act S σ α) (f : α → Act S σ β) (s : σ) :
    (m >>= f) s = (m s).bind f := rfl

end Act

/-! ## Environments and runs -/

/-- The variables a configuration shows: none once the process is dead. -/
def Proc.state? : Proc S σ α → Option σ
  | .done _ s => some s
  | .fault _ => none
  | .pause s _ _ => some s

end

/-- `answers w e r w'`: in `w` the request `e` may be answered by `r`, leaving
`w'`.  `drift s w w'`: while the process shows `s` the world may move to `w'`. -/
structure Env (S : Sig) (σ : Type) where
  World : Type
  answers : World → (e : S.Req) → S.Rep e → World → Prop
  drift : σ → World → World → Prop

section
variable {S : Sig} {σ α β : Type} (𝓔 : Env S σ)

/-- Any number of drift steps under the variables `s`. -/
def Env.Drifts (s : σ) : 𝓔.World → 𝓔.World → Prop :=
  Relation.ReflTransGen (𝓔.drift s)

/-- One step of the process `body` looping in its environment.  A round that
ends in `none` has left the loop. -/
inductive Env.Step (body : α → Act S σ (Option α)) :
    Proc S σ (Option α) → 𝓔.World → Proc S σ (Option α) → 𝓔.World → Prop
  | answer {s : σ} {e : S.Req} {k : S.Rep e → Proc S σ (Option α)} {r : S.Rep e}
      {w w' : 𝓔.World} :
      𝓔.answers w e r w' → Env.Step body (.pause s e k) w (k r) w'
  | drift {p : Proc S σ (Option α)} {s : σ} {w w' : 𝓔.World} :
      p.state? = some s → 𝓔.drift s w w' → Env.Step body p w p w'
  | again {a : α} {s : σ} {w : 𝓔.World} :
      Env.Step body (.done (some a) s) w (body a s) w

/-- The configurations reachable from `p₀` in `w₀`. -/
inductive Env.Reach (body : α → Act S σ (Option α)) (p₀ : Proc S σ (Option α))
    (w₀ : 𝓔.World) : Proc S σ (Option α) → 𝓔.World → Prop
  | start : Env.Reach body p₀ w₀ p₀ w₀
  | step {p p' : Proc S σ (Option α)} {w w' : 𝓔.World} :
      Env.Reach body p₀ w₀ p w → 𝓔.Step body p w p' w' → Env.Reach body p₀ w₀ p' w'

/-! ## Weakest preconditions

`wp 𝓔 I p Q w`: started in `w`, the process `p` never dies, shows only
configurations satisfying `I` at its pauses, whatever drift happens there, and
satisfies `Q` when it is done. -/

def Proc.wp (I : σ → 𝓔.World → Prop) :
    Proc S σ α → (α → σ → 𝓔.World → Prop) → 𝓔.World → Prop
  | .done a s, Q, w => Q a s w
  | .fault _, _, _ => False
  | .pause s e k, Q, w =>
      ∀ w', 𝓔.Drifts s w w' →
        I s w' ∧ ∀ r w'', 𝓔.answers w' e r w'' → (k r).wp I Q w''

/-- The same for a process that still waits for its variables. -/
def Act.wp (I : σ → 𝓔.World → Prop) (m : Act S σ α)
    (Q : α → σ → 𝓔.World → Prop) (s : σ) (w : 𝓔.World) : Prop :=
  (m s).wp 𝓔 I Q w

/-- `wp` as a proposition that does not unfold by itself, for structures that collect
such facts. -/
structure Act.Meets (I : σ → 𝓔.World → Prop) (m : Act S σ α)
    (Q : α → σ → 𝓔.World → Prop) (s : σ) (w : 𝓔.World) : Prop where
  wp : m.wp 𝓔 I Q s w

variable {𝓔} {I : σ → 𝓔.World → Prop}

theorem Proc.wp_bind (p : Proc S σ α) (f : α → Act S σ β)
    (Q : β → σ → 𝓔.World → Prop) (w : 𝓔.World) :
    (p.bind f).wp 𝓔 I Q w ↔ p.wp 𝓔 I (fun a s w => (f a s).wp 𝓔 I Q w) w := by
  induction p generalizing w with
  | done a s => exact Iff.rfl
  | fault x => exact Iff.rfl
  | pause s e k ih =>
      simp only [Proc.bind, Proc.wp]
      exact forall_congr' fun w' => imp_congr_right fun _ => and_congr_right fun _ =>
        forall_congr' fun r => forall_congr' fun w'' => imp_congr_right fun _ => ih r w''

theorem Proc.wp_mono {p : Proc S σ α} {Q Q' : α → σ → 𝓔.World → Prop} {w : 𝓔.World}
    (h : p.wp 𝓔 I Q w) (hQ : ∀ a s w, Q a s w → Q' a s w) : p.wp 𝓔 I Q' w := by
  induction p generalizing w with
  | done a s => exact hQ a s w h
  | fault x => exact h
  | pause s e k ih =>
      intro w' hw'
      obtain ⟨hI, hk⟩ := h w' hw'
      exact ⟨hI, fun r w'' hr => ih r (hk r w'' hr)⟩

namespace Act

@[simp] theorem wp_bind (m : Act S σ α) (f : α → Act S σ β)
    (Q : β → σ → 𝓔.World → Prop) (s : σ) (w : 𝓔.World) :
    (m >>= f).wp 𝓔 I Q s w ↔ m.wp 𝓔 I (fun a s w => (f a).wp 𝓔 I Q s w) s w :=
  Proc.wp_bind (m s) f Q w

@[simp] theorem wp_pure (a : α) (Q : α → σ → 𝓔.World → Prop) (s : σ) (w : 𝓔.World) :
    (pure a : Act S σ α).wp 𝓔 I Q s w ↔ Q a s w := Iff.rfl

@[simp] theorem wp_get (Q : σ → σ → 𝓔.World → Prop) (s : σ) (w : 𝓔.World) :
    (get : Act S σ σ).wp 𝓔 I Q s w ↔ Q s s w := Iff.rfl

@[simp] theorem wp_modify (g : σ → σ) (Q : Unit → σ → 𝓔.World → Prop) (s : σ)
    (w : 𝓔.World) : (modify g : Act S σ Unit).wp 𝓔 I Q s w ↔ Q () (g s) w := Iff.rfl

@[simp] theorem wp_die (f : S.Fault) (Q : α → σ → 𝓔.World → Prop) (s : σ) (w : 𝓔.World) :
    (die f : Act S σ α).wp 𝓔 I Q s w ↔ False := Iff.rfl

@[simp] theorem wp_ite (c : Prop) [Decidable c] (m n : Act S σ α)
    (Q : α → σ → 𝓔.World → Prop) (s : σ) (w : 𝓔.World) :
    (if c then m else n).wp 𝓔 I Q s w ↔
      if c then m.wp 𝓔 I Q s w else n.wp 𝓔 I Q s w := by
  split <;> exact Iff.rfl

theorem wp_mono {m : Act S σ α} {Q Q' : α → σ → 𝓔.World → Prop} {s : σ} {w : 𝓔.World}
    (h : m.wp 𝓔 I Q s w) (hQ : ∀ a s w, Q a s w → Q' a s w) : m.wp 𝓔 I Q' s w :=
  Proc.wp_mono h hQ

/-- Where two pieces of code run alike, one may stand for the other. -/
theorem wp_of_eq {m m' : Act S σ α} {Q : α → σ → 𝓔.World → Prop} {s s' : σ} {w : 𝓔.World}
    (hm : m s = m' s') (h : m'.wp 𝓔 I Q s' w) : m.wp 𝓔 I Q s w := by
  unfold Act.wp
  rw [hm]
  exact h

theorem wp_of_done {m : Act S σ α} {Q : α → σ → 𝓔.World → Prop} {a : α} {s s' : σ}
    {w : 𝓔.World} (hm : m s = .done a s') (h : Q a s' w) : m.wp 𝓔 I Q s w :=
  wp_of_eq (show m s = (pure a : Act S σ α) s' from hm) h

/-- The rule for a request: name an assertion `P` that holds on arrival, that
drift cannot break, and from which every answer leads on. -/
theorem wp_request_of {e : S.Req} {Q : S.Rep e → σ → 𝓔.World → Prop} {s : σ}
    {w : 𝓔.World} (P : 𝓔.World → Prop) (hP : P w)
    (hdrift : ∀ w w', P w → 𝓔.drift s w w' → P w')
    (hI : ∀ w, P w → I s w)
    (hQ : ∀ w r w', P w → 𝓔.answers w e r w' → Q r s w') :
    (request e : Act S σ (S.Rep e)).wp 𝓔 I Q s w := by
  intro w' hw'
  have hP' : P w' := by
    induction hw' with
    | refl => exact hP
    | tail _ hstep ih => exact hdrift _ _ ih hstep
  exact ⟨hI w' hP', fun r w'' hr => hQ w' r w'' hP' hr⟩

/-- Where nothing drifts, a request is answered in the world it is made in. -/
theorem wp_request_still {e : S.Req} {Q : S.Rep e → σ → 𝓔.World → Prop} {s : σ} {w : 𝓔.World}
    (hstill : ∀ w w', ¬ 𝓔.drift s w w') (hI : I s w)
    (hQ : ∀ r w', 𝓔.answers w e r w' → Q r s w') :
    (request e : Act S σ (S.Rep e)).wp 𝓔 I Q s w := by
  refine wp_request_of (fun w' => w' = w) rfl (fun _ _ _ hd => absurd hd (hstill _ _)) ?_ ?_
  · rintro w rfl
    exact hI
  · rintro w r w' rfl hr
    exact hQ r w' hr

end Act

/-! ## Soundness: a loop that re-establishes its postcondition -/

theorem Env.Step.wp {body : α → Act S σ (Option α)}
    {Q : Option α → σ → 𝓔.World → Prop}
    (hstab : ∀ a s w w', Q a s w → 𝓔.drift s w w' → Q a s w')
    (hbody : ∀ a s w, Q (some a) s w → (body a).wp 𝓔 I Q s w)
    {p p' : Proc S σ (Option α)} {w w' : 𝓔.World} (h : 𝓔.Step body p w p' w')
    (hp : p.wp 𝓔 I Q w) : p'.wp 𝓔 I Q w' := by
  cases h with
  | answer hans => exact (hp _ Relation.ReflTransGen.refl).2 _ _ hans
  | drift hs hd =>
      cases p with
      | done a s =>
          cases hs
          exact hstab a _ _ _ hp hd
      | fault x => exact hp
      | pause s e k =>
          cases hs
          exact fun w'' hw'' => hp w'' (Relation.ReflTransGen.head hd hw'')
  | again => exact hbody _ _ _ hp

/-- **The loop rule.**  If the start satisfies `wp` for `Q`, drift keeps `Q`, and
the body re-establishes `Q` from `Q`, then every reachable configuration still
satisfies `wp` for `Q`: it is not dead, its pause shows `I`, and a finished round
shows `Q`. -/
theorem Env.Reach.wp {body : α → Act S σ (Option α)}
    {Q : Option α → σ → 𝓔.World → Prop} {p₀ : Proc S σ (Option α)} {w₀ : 𝓔.World}
    (hstab : ∀ a s w w', Q a s w → 𝓔.drift s w w' → Q a s w')
    (hbody : ∀ a s w, Q (some a) s w → (body a).wp 𝓔 I Q s w)
    (hstart : p₀.wp 𝓔 I Q w₀) {p : Proc S σ (Option α)} {w : 𝓔.World}
    (h : 𝓔.Reach body p₀ w₀ p w) : p.wp 𝓔 I Q w := by
  induction h with
  | start => exact hstart
  | step _ hstep ih => exact hstep.wp hstab hbody ih

theorem Proc.wp.pause {Q : α → σ → 𝓔.World → Prop} {s : σ} {e : S.Req}
    {k : S.Rep e → Proc S σ α} {w : 𝓔.World} (h : (Proc.pause s e k).wp 𝓔 I Q w) : I s w :=
  (h w Relation.ReflTransGen.refl).1

end

/-! ## Deterministic replies

`exec` runs a process against a reply function; `none` means that the process
died or that a request was left unanswered. -/

section
variable {S : Sig} {σ α β W : Type}

def Proc.exec (reply : W → (e : S.Req) → Option (S.Rep e × W)) :
    Proc S σ α → W → Option (α × σ × W)
  | .done a s, w => some (a, s, w)
  | .fault _, _ => none
  | .pause _ e k, w =>
      match reply w e with
      | some (r, w') => (k r).exec reply w'
      | none => none

variable {reply : W → (e : S.Req) → Option (S.Rep e × W)}

theorem Proc.exec_bind (p : Proc S σ α) (f : α → Act S σ β) (w : W) :
    (p.bind f).exec reply w =
      match p.exec reply w with
      | some (a, s, w') => (f a s).exec reply w'
      | none => none := by
  induction p generalizing w with
  | done a s => rfl
  | fault x => rfl
  | pause s e k ih =>
      simp only [Proc.bind, Proc.exec]
      cases reply w e with
      | none => rfl
      | some rw => exact ih rw.1 rw.2

theorem Act.exec_request {e : S.Req} {r : S.Rep e} {f : S.Rep e → Act S σ β} {s : σ} {w w' : W}
    (h : reply w e = some (r, w')) :
    ((Act.request e >>= f) s).exec reply w = (f r s).exec reply w' := by
  simp only [Act.bind_apply, request, Proc.bind, Proc.exec, h]

theorem Act.exec_bind {m : Act S σ α} {f : α → Act S σ β} {s s' : σ} {a : α} {w w' : W}
    (h : (m s).exec reply w = some (a, s', w')) :
    ((m >>= f) s).exec reply w = (f a s').exec reply w' := by
  rw [Act.bind_apply, Proc.exec_bind, h]

/-- A run against legal replies is a run in the environment. -/
theorem Env.Reach.exec {𝓔 : Env S σ} {body : α → Act S σ (Option α)}
    {reply : 𝓔.World → (e : S.Req) → Option (S.Rep e × 𝓔.World)}
    (hlegal : ∀ {w e r w'}, reply w e = some (r, w') → 𝓔.answers w e r w')
    {p₀ p : Proc S σ (Option α)} {w₀ w w' : 𝓔.World} {a : Option α} {s : σ}
    (h : 𝓔.Reach body p₀ w₀ p w) (hrun : p.exec reply w = some (a, s, w')) :
    𝓔.Reach body p₀ w₀ (.done a s) w' := by
  induction p generalizing w with
  | done b s₁ =>
      simp only [Proc.exec, Option.some.injEq, Prod.mk.injEq] at hrun
      obtain ⟨rfl, rfl, rfl⟩ := hrun
      exact h
  | fault x => simp [Proc.exec] at hrun
  | pause s₁ e k ih =>
      simp only [Proc.exec] at hrun
      cases hr : reply w e with
      | none => simp [hr] at hrun
      | some rw =>
          obtain ⟨r, w₁⟩ := rw
          rw [hr] at hrun
          exact ih r (h.step (.answer (hlegal hr))) hrun

/-- `n` more rounds, if the loop is not left before. -/
def rounds (body : α → Act S σ (Option α)) : Nat → Option α → Act S σ (Option α)
  | n + 1, some a => do
      let a ← body a
      rounds body n a
  | _, a => pure a

/-- Whole rounds against legal replies. -/
theorem Env.Reach.rounds {𝓔 : Env S σ} {body : α → Act S σ (Option α)}
    {reply : 𝓔.World → (e : S.Req) → Option (S.Rep e × 𝓔.World)}
    (hlegal : ∀ {w e r w'}, reply w e = some (r, w') → 𝓔.answers w e r w')
    {p₀ : Proc S σ (Option α)} {w₀ w' : 𝓔.World} {a' : Option α} {s' : σ} (n : Nat) :
    ∀ {p : Proc S σ (Option α)} {w : 𝓔.World}, 𝓔.Reach body p₀ w₀ p w →
      (p.bind (Lib.rounds body n)).exec reply w = some (a', s', w') →
      𝓔.Reach body p₀ w₀ (.done a' s') w' := by
  induction n with
  | zero =>
      intro p w h hrun
      have hrest : Lib.rounds body 0 = pure := funext fun a => by cases a <;> rfl
      have hdone : p.bind pure = p := Proc.bind_done p
      rw [hrest, hdone] at hrun
      exact h.exec hlegal hrun
  | succ n ih =>
      intro p w h hrun
      rw [Proc.exec_bind] at hrun
      cases hp : p.exec reply w with
      | none => simp [hp] at hrun
      | some r =>
          obtain ⟨a, s, w₁⟩ := r
          rw [hp] at hrun
          have hmid := h.exec hlegal hp
          cases a with
          | none => exact hmid.exec hlegal hrun
          | some a => exact ih (hmid.step .again) hrun

end

/-! ## Whatever the replies

`Always A p Q`: whatever it is told, `p` makes only requests that `A` allows with the
variables it has there, does not die, and ends in `Q`.  No environment is mentioned,
so one proof about a piece of code serves in every environment whose answers to the
requests in `A` do no harm (`Proc.Always.wp`). -/

section
variable {S : Sig} {σ α β : Type}

def Proc.Always (A : σ → S.Req → Prop) : Proc S σ α → (α → σ → Prop) → Prop
  | .done a s, Q => Q a s
  | .fault _, _ => False
  | .pause s e k, Q => A s e ∧ ∀ r, (k r).Always A Q

def Act.Always (A : σ → S.Req → Prop) (m : Act S σ α) (Q : α → σ → Prop) (s : σ) : Prop :=
  (m s).Always A Q

variable {A : σ → S.Req → Prop}

theorem Proc.always_bind (p : Proc S σ α) (f : α → Act S σ β) (Q : β → σ → Prop) :
    (p.bind f).Always A Q ↔ p.Always A (fun a s => (f a s).Always A Q) := by
  induction p with
  | done a s => exact Iff.rfl
  | fault x => exact Iff.rfl
  | pause s e k ih =>
      simp only [Proc.bind, Proc.Always]
      exact and_congr_right fun _ => forall_congr' fun r => ih r

theorem Proc.Always.mono {A' : σ → S.Req → Prop} {p : Proc S σ α} {Q Q' : α → σ → Prop}
    (h : p.Always A Q) (hA : ∀ s e, A s e → A' s e) (hQ : ∀ a s, Q a s → Q' a s) :
    p.Always A' Q' := by
  induction p with
  | done a s => exact hQ a s h
  | fault x => exact h
  | pause s e k ih => exact ⟨hA s e h.1, fun r => ih r (h.2 r)⟩

namespace Act

@[simp] theorem always_bind (m : Act S σ α) (f : α → Act S σ β) (Q : β → σ → Prop) (s : σ) :
    (m >>= f).Always A Q s ↔ m.Always A (fun a s => (f a).Always A Q s) s :=
  Proc.always_bind (m s) f Q

@[simp] theorem always_pure (a : α) (Q : α → σ → Prop) (s : σ) :
    (pure a : Act S σ α).Always A Q s ↔ Q a s := Iff.rfl

theorem always_request {e : S.Req} {Q : S.Rep e → σ → Prop} {s : σ} (hA : A s e)
    (hQ : ∀ r, Q r s) : (request e : Act S σ (S.Rep e)).Always A Q s := ⟨hA, hQ⟩

@[simp] theorem always_ite (c : Prop) [Decidable c] (m n : Act S σ α) (Q : α → σ → Prop)
    (s : σ) : (if c then m else n).Always A Q s ↔
      if c then m.Always A Q s else n.Always A Q s := by
  split <;> exact Iff.rfl

theorem always_of_done {m : Act S σ α} {Q : α → σ → Prop} {a : α} {s s' : σ}
    (hm : m s = .done a s') (h : Q a s') : m.Always A Q s := by
  unfold Act.Always
  rw [hm]
  exact h

theorem Always.mono {A' : σ → S.Req → Prop} {m : Act S σ α} {Q Q' : α → σ → Prop} {s : σ}
    (h : m.Always A Q s) (hA : ∀ s e, A s e → A' s e) (hQ : ∀ a s, Q a s → Q' a s) :
    m.Always A' Q' s :=
  Proc.Always.mono h hA hQ

end Act

variable {𝓔 : Env S σ} {I : σ → 𝓔.World → Prop}

/-- The transfer: an assertion `G` about the world that neither drift nor an answer
to a request of `A` breaks holds all along. -/
theorem Proc.Always.wp {p : Proc S σ α} {Q : α → σ → Prop} {w : 𝓔.World}
    (h : p.Always A Q) (G : 𝓔.World → Prop) (hG : G w)
    (hdrift : ∀ s e w w', A s e → G w → 𝓔.drift s w w' → G w')
    (hI : ∀ s e w, A s e → G w → I s w)
    (hans : ∀ s e r w w', A s e → G w → 𝓔.answers w e r w' → G w') :
    p.wp 𝓔 I (fun a s w => Q a s ∧ G w) w := by
  induction p generalizing w with
  | done a s => exact ⟨h, hG⟩
  | fault x => exact h
  | pause s e k ih =>
      obtain ⟨hA, hk⟩ := h
      intro w' hw'
      have hG' : G w' := by
        induction hw' with
        | refl => exact hG
        | tail _ hd hmid => exact hdrift s e _ _ hA hmid hd
      exact ⟨hI s e w' hA hG', fun r w'' hr => ih r (hk r) (hans s e r w' w'' hA hG' hr)⟩

theorem Act.Always.wp {m : Act S σ α} {Q : α → σ → Prop} {s : σ} {w : 𝓔.World}
    (h : m.Always A Q s) (G : 𝓔.World → Prop) (hG : G w)
    (hdrift : ∀ s e w w', A s e → G w → 𝓔.drift s w w' → G w')
    (hI : ∀ s e w, A s e → G w → I s w)
    (hans : ∀ s e r w w', A s e → G w → 𝓔.answers w e r w' → G w') :
    m.wp 𝓔 I (fun a s w => Q a s ∧ G w) s w :=
  Proc.Always.wp h G hG hdrift hI hans

end

/-! ## The first request

`Begins A m D`: the first request of `m` is one of `A`, and if it makes none it ends in `D`.
Two worlds in which the requests of `A` have the same answers are then as good as one. -/

section
variable {S : Sig} {σ α β : Type}

def Proc.Begins (A : S.Req → Prop) : Proc S σ α → (α → σ → Prop) → Prop
  | .done a s, D => D a s
  | .fault _, _ => False
  | .pause _ e _, _ => A e

def Act.Begins (A : S.Req → Prop) (m : Act S σ α) (D : α → σ → Prop) (s : σ) : Prop :=
  (m s).Begins A D

variable {A : S.Req → Prop}

namespace Act

@[simp] theorem begins_bind (m : Act S σ α) (f : α → Act S σ β) (D : β → σ → Prop) (s : σ) :
    (m >>= f).Begins A D s ↔ m.Begins A (fun a s => (f a).Begins A D s) s := by
  simp only [Act.Begins, bind_apply]
  cases m s with
  | done a s' => exact Iff.rfl
  | fault x => exact Iff.rfl
  | pause s' e k => exact Iff.rfl

@[simp] theorem begins_pure (a : α) (D : α → σ → Prop) (s : σ) :
    (pure a : Act S σ α).Begins A D s ↔ D a s := Iff.rfl

@[simp] theorem begins_ite (c : Prop) [Decidable c] (m n : Act S σ α) (D : α → σ → Prop)
    (s : σ) : (if c then m else n).Begins A D s ↔
      if c then m.Begins A D s else n.Begins A D s := by
  split <;> exact Iff.rfl

theorem begins_request {e : S.Req} {D : S.Rep e → σ → Prop} {s : σ} (hA : A e) :
    (request e : Act S σ (S.Rep e)).Begins A D s := hA

theorem begins_of_eq {m m' : Act S σ α} {D : α → σ → Prop} {s s' : σ} (hm : m s = m' s')
    (h : m'.Begins A D s') : m.Begins A D s := by
  unfold Act.Begins
  rw [hm]
  exact h

theorem begins_of_done {m : Act S σ α} {D : α → σ → Prop} {a : α} {s s' : σ}
    (hm : m s = .done a s') (h : D a s') : m.Begins A D s :=
  begins_of_eq (show m s = (pure a : Act S σ α) s' from hm) h

theorem Begins.mono {m : Act S σ α} {D D' : α → σ → Prop} {s : σ} (h : m.Begins A D s)
    (hD : ∀ a s, D a s → D' a s) : m.Begins A D' s := by
  unfold Act.Begins at h ⊢
  cases hm : m s with
  | done a s' =>
      rw [hm] at h
      exact hD a s' h
  | fault x =>
      rw [hm] at h
      exact h
  | pause s' e k =>
      rw [hm] at h
      exact h

variable {𝓔 : Env S σ} {I : σ → 𝓔.World → Prop}

/-- Where nothing drifts, a world that answers the requests of `A` as `w₀` does may stand
for it, as far as `Q` does not tell them apart either. -/
theorem Begins.wp {m : Act S σ α} {D : α → σ → Prop} {Q : α → σ → 𝓔.World → Prop} {s : σ}
    {w w₀ : 𝓔.World} (h : m.Begins A D s) (hstill : ∀ s w', ¬ 𝓔.drift s w w') (hI : ∀ s, I s w)
    (hsame : ∀ e r w', A e → 𝓔.answers w e r w' → 𝓔.answers w₀ e r w')
    (hdone : ∀ a s, D a s → Q a s w₀ → Q a s w) (hm : m.wp 𝓔 I Q s w₀) : m.wp 𝓔 I Q s w := by
  unfold Act.wp Act.Begins at *
  cases hp : m s with
  | done a s' =>
      rw [hp] at h hm
      exact hdone a s' h hm
  | fault x =>
      rw [hp] at h
      exact h.elim
  | pause s' e k =>
      rw [hp] at h hm
      intro w' hw'
      cases hw'.cases_head with
      | inl hw =>
          rw [← hw]
          exact ⟨hI s', fun r w'' hr =>
            (hm w₀ Relation.ReflTransGen.refl).2 r w'' (hsame e r w'' h hr)⟩
      | inr hstep =>
          obtain ⟨c, hd, -⟩ := hstep
          exact absurd hd (hstill s' c)

end Act

end

/-! ## A log

`Logs note p Q l`: whatever it is told, if `p` ends, then what `note` has made of the log
`l` by then satisfies `Q`.  A process that dies satisfies it, so nothing is said about
whether it ends. -/

section
variable {S : Sig} {σ α β L W : Type}

def Proc.Logs (note : L → (e : S.Req) → S.Rep e → L) :
    Proc S σ α → (α → σ → L → Prop) → L → Prop
  | .done a s, Q, l => Q a s l
  | .fault _, _, _ => True
  | .pause _ e k, Q, l => ∀ r, (k r).Logs note Q (note l e r)

def Act.Logs (note : L → (e : S.Req) → S.Rep e → L) (m : Act S σ α)
    (Q : α → σ → L → Prop) (s : σ) (l : L) : Prop := (m s).Logs note Q l

variable {note : L → (e : S.Req) → S.Rep e → L}

theorem Proc.logs_bind (p : Proc S σ α) (f : α → Act S σ β) (Q : β → σ → L → Prop) (l : L) :
    (p.bind f).Logs note Q l ↔ p.Logs note (fun a s l => (f a s).Logs note Q l) l := by
  induction p generalizing l with
  | done a s => exact Iff.rfl
  | fault x => exact Iff.rfl
  | pause s e k ih =>
      simp only [Proc.bind, Proc.Logs]
      exact forall_congr' fun r => ih r (note l e r)

theorem Proc.Logs.mono {p : Proc S σ α} {Q Q' : α → σ → L → Prop} {l : L}
    (h : p.Logs note Q l) (hQ : ∀ a s l, Q a s l → Q' a s l) : p.Logs note Q' l := by
  induction p generalizing l with
  | done a s => exact hQ a s l h
  | fault x => trivial
  | pause s e k ih => exact fun r => ih r (h r)

namespace Act

@[simp] theorem logs_bind (m : Act S σ α) (f : α → Act S σ β) (Q : β → σ → L → Prop) (s : σ)
    (l : L) : (m >>= f).Logs note Q s l ↔ m.Logs note (fun a s l => (f a).Logs note Q s l) s l :=
  Proc.logs_bind (m s) f Q l

@[simp] theorem logs_pure (a : α) (Q : α → σ → L → Prop) (s : σ) (l : L) :
    (pure a : Act S σ α).Logs note Q s l ↔ Q a s l := Iff.rfl

@[simp] theorem logs_request (e : S.Req) (Q : S.Rep e → σ → L → Prop) (s : σ) (l : L) :
    (request e : Act S σ (S.Rep e)).Logs note Q s l ↔ ∀ r, Q r s (note l e r) := Iff.rfl

@[simp] theorem logs_get (Q : σ → σ → L → Prop) (s : σ) (l : L) :
    (get : Act S σ σ).Logs note Q s l ↔ Q s s l := Iff.rfl

@[simp] theorem logs_modify (g : σ → σ) (Q : Unit → σ → L → Prop) (s : σ) (l : L) :
    (modify g : Act S σ Unit).Logs note Q s l ↔ Q () (g s) l := Iff.rfl

@[simp] theorem logs_die (f : S.Fault) (Q : α → σ → L → Prop) (s : σ) (l : L) :
    (die f : Act S σ α).Logs note Q s l ↔ True := Iff.rfl

@[simp] theorem logs_ite (c : Prop) [Decidable c] (m n : Act S σ α) (Q : α → σ → L → Prop)
    (s : σ) (l : L) : (if c then m else n).Logs note Q s l ↔
      if c then m.Logs note Q s l else n.Logs note Q s l := by
  split <;> exact Iff.rfl

theorem logs_of_eq {m m' : Act S σ α} {Q : α → σ → L → Prop} {s s' : σ} {l : L} (h : m s = m' s')
    (hm : m'.Logs note Q s' l) : m.Logs note Q s l := by
  unfold Logs
  rw [h]
  exact hm

theorem logs_of_done {m : Act S σ α} {Q : α → σ → L → Prop} {a : α} {s s' : σ} {l : L}
    (h : m s = .done a s') (hq : Q a s' l) : m.Logs note Q s l :=
  logs_of_eq (show m s = (pure a : Act S σ α) s' from h) hq

theorem Logs.mono {m : Act S σ α} {Q Q' : α → σ → L → Prop} {s : σ} {l : L}
    (h : m.Logs note Q s l) (hQ : ∀ a s l, Q a s l → Q' a s l) : m.Logs note Q' s l :=
  Proc.Logs.mono h hQ

end Act

/-- Replies that do not look at the log, and keep it. -/
def logged (note : L → (e : S.Req) → S.Rep e → L)
    (reply : (e : S.Req) → Option (S.Rep e)) (l : L) (e : S.Req) : Option (S.Rep e × L) :=
  (reply e).map fun r => (r, note l e r)

/-- One run is enough to refute it. -/
theorem Proc.Logs.exec {reply : (e : S.Req) → Option (S.Rep e)} {p : Proc S σ α}
    {Q : α → σ → L → Prop} {l l' : L} {a : α} {s : σ} (h : p.Logs note Q l)
    (hrun : p.exec (logged note reply) l = some (a, s, l')) : Q a s l' := by
  induction p generalizing l with
  | done a₀ s₀ =>
      simp only [Proc.exec, Option.some.injEq, Prod.mk.injEq] at hrun
      obtain ⟨rfl, rfl, rfl⟩ := hrun
      exact h
  | fault x => exact nomatch hrun
  | pause s₀ e k ih =>
      simp only [Proc.exec, logged] at hrun
      cases hr : reply e with
      | none =>
          rw [hr] at hrun
          exact nomatch hrun
      | some r =>
          rw [hr] at hrun
          exact ih r (h r) hrun

/-- There are replies with which `p` ends, and then the log satisfies `Q`. -/
def Proc.May (note : L → (e : S.Req) → S.Rep e → L) :
    Proc S σ α → (α → σ → L → Prop) → L → Prop
  | .done a s, Q, l => Q a s l
  | .fault _, _, _ => False
  | .pause _ e k, Q, l => ∃ r, (k r).May note Q (note l e r)

def Act.May (note : L → (e : S.Req) → S.Rep e → L) (m : Act S σ α)
    (Q : α → σ → L → Prop) (s : σ) (l : L) : Prop := (m s).May note Q l

theorem Proc.may_bind (p : Proc S σ α) (f : α → Act S σ β) (Q : β → σ → L → Prop) (l : L) :
    (p.bind f).May note Q l ↔ p.May note (fun a s l => (f a s).May note Q l) l := by
  induction p generalizing l with
  | done a s => exact Iff.rfl
  | fault x => exact Iff.rfl
  | pause s e k ih =>
      simp only [Proc.bind, Proc.May]
      exact exists_congr fun r => ih r (note l e r)

/-- What can be left in the log is among what is left there in any case. -/
theorem Proc.Logs.may {p : Proc S σ α} {Q Q' : α → σ → L → Prop} {l : L} (h : p.Logs note Q l)
    (h' : p.May note Q' l) : ∃ a s l, Q a s l ∧ Q' a s l := by
  induction p generalizing l with
  | done a s => exact ⟨a, s, l, h, h'⟩
  | fault x => exact h'.elim
  | pause s e k ih =>
      obtain ⟨r, hr⟩ := h'
      exact ih r (h r) hr

namespace Act

@[simp] theorem may_bind (m : Act S σ α) (f : α → Act S σ β) (Q : β → σ → L → Prop) (s : σ)
    (l : L) : (m >>= f).May note Q s l ↔ m.May note (fun a s l => (f a).May note Q s l) s l :=
  Proc.may_bind (m s) f Q l

@[simp] theorem may_pure (a : α) (Q : α → σ → L → Prop) (s : σ) (l : L) :
    (pure a : Act S σ α).May note Q s l ↔ Q a s l := Iff.rfl

@[simp] theorem may_request (e : S.Req) (Q : S.Rep e → σ → L → Prop) (s : σ) (l : L) :
    (request e : Act S σ (S.Rep e)).May note Q s l ↔ ∃ r, Q r s (note l e r) := Iff.rfl

@[simp] theorem may_ite (c : Prop) [Decidable c] (m n : Act S σ α) (Q : α → σ → L → Prop)
    (s : σ) (l : L) : (if c then m else n).May note Q s l ↔
      if c then m.May note Q s l else n.May note Q s l := by
  split <;> exact Iff.rfl

theorem may_of_eq {m m' : Act S σ α} {Q : α → σ → L → Prop} {s s' : σ} {l : L} (h : m s = m' s')
    (hm : m'.May note Q s' l) : m.May note Q s l := by
  unfold May
  rw [h]
  exact hm

theorem may_of_done {m : Act S σ α} {Q : α → σ → L → Prop} {a : α} {s s' : σ} {l : L}
    (h : m s = .done a s') (hq : Q a s' l) : m.May note Q s l :=
  may_of_eq (show m s = (pure a : Act S σ α) s' from h) hq

/-- With this reply. -/
theorem May.told {e : S.Req} {Q : S.Rep e → σ → L → Prop} {s : σ} {l : L} (r : S.Rep e)
    (h : Q r s (note l e r)) : (request e : Act S σ (S.Rep e)).May note Q s l := ⟨r, h⟩

theorem Logs.may {m : Act S σ α} {Q Q' : α → σ → L → Prop} {s : σ} {l : L}
    (h : m.Logs note Q s l) (h' : m.May note Q' s l) : ∃ a s l, Q a s l ∧ Q' a s l :=
  Proc.Logs.may h h'

end Act

end

end Lib
