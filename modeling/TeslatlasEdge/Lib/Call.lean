/-
Module: TeslatlasEdge.Lib.Call
Purpose: Programs made of atomic sections.  A call is a tree of labelled steps; each step transforms
  the shared state in one go and then chooses the rest of the call.  Running a call alone gives a
  sequential computation; stepping several calls in any order gives their interleavings.
Trusted boundary: none
Main exports: Call, Call.run, Call.atomic, Call.attempt, Call.Along, Call.Steps, Call.run_invariant
-/
import TeslatlasEdge.Lib.Effect

namespace TeslatlasEdge.Lib

/-- A call: finished with a result, or about to perform one atomic section.  Both the effect of the
section and the rest of the call are functions of the state the section starts in. -/
inductive Call (ℓ ε σ α : Type) where
  | done (result : Except ε α)
  | step (label : ℓ) (act : σ → σ) (next : σ → Call ℓ ε σ α)

namespace Call

variable {ℓ ε σ α β : Type}

protected def bind : Call ℓ ε σ α → (α → Call ℓ ε σ β) → Call ℓ ε σ β
  | .done (.ok a), f => f a
  | .done (.error e), _ => .done (.error e)
  | .step label act next, f => .step label act fun s => (next s).bind f

instance : Monad (Call ℓ ε σ) where
  pure a := .done (.ok a)
  bind := Call.bind

/-- Leave the call with an error, outside any section. -/
def fail (e : ε) : Call ℓ ε σ α := .done (.error e)

/-- One section; its error ends the call. -/
def atomic (label : ℓ) (m : EStateM ε σ α) : Call ℓ ε σ α :=
  .step label (fun s => finalState (m s)) fun s => .done (answer (m s))

/-- One section whose error is handed to the rest of the call. -/
def attempt (label : ℓ) (m : EStateM ε σ α) : Call ℓ ε σ (Except ε α) :=
  .step label (fun s => finalState (m s)) fun s => .done (.ok (answer (m s)))

/-- Run a call with no interference. -/
def run : Call ℓ ε σ α → EStateM ε σ α
  | .done (.ok a) => fun s => .ok a s
  | .done (.error e) => fun s => .error e s
  | .step _ act next => fun s => (next s).run (act s)

@[simp] theorem run_pure (a : α) : (pure a : Call ℓ ε σ α).run = pure a := rfl

@[simp] theorem run_fail (e : ε) : (fail e : Call ℓ ε σ α).run = throw e := rfl

/-- A section that is a call of its own runs as it is. -/
@[simp] theorem run_atomic (label : ℓ) (m : EStateM ε σ α) : (atomic label m).run = m := by
  funext s
  simp only [atomic, run]
  cases m s <;> rfl

/-- A section whose error is handed on has only normal exits. -/
theorem post_attempt {label : ℓ} {m : EStateM ε σ α} {s : σ} {onOk : Except ε α → σ → Prop}
    {onError : ε → σ → Prop} :
    Post (attempt label m).run s onOk onError ↔
      Post m s (fun a s' => onOk (.ok a) s') (fun e s' => onOk (.error e) s') := by
  simp only [Post, attempt, run]
  cases m s <;> rfl

/-- A sequence of calls runs one after the other. -/
@[simp] theorem run_bind (c : Call ℓ ε σ α) (f : α → Call ℓ ε σ β) :
    (c >>= f).run = c.run >>= fun a => (f a).run := by
  change (Call.bind c f).run = EStateM.bind c.run fun a => (f a).run
  induction c with
  | done result => cases result <;> rfl
  | step label act next ih =>
      funext s
      simp only [Call.bind, run]
      rw [ih s]
      rfl

/-! ### Conditions along a solo run -/

/-- Every section of a solo run from `s` starts in a state that meets the condition on its label. -/
def Along (P : ℓ → σ → Prop) : Call ℓ ε σ α → σ → Prop
  | .done _, _ => True
  | .step label act next, s => P label s ∧ (next s).Along P (act s)

/-- A solo run can be checked section by section. -/
instance decidableAlong {P : ℓ → σ → Prop} [decides : ∀ label s, Decidable (P label s)] :
    ∀ (c : Call ℓ ε σ α) (s : σ), Decidable (c.Along P s)
  | .done _, _ => instDecidableTrue
  | .step label act next, s =>
      @instDecidableAnd _ _ (decides label s) (decidableAlong (next s) (act s))

/-- Every section the call could ever perform, from whatever states, satisfies `P`. -/
def Steps (P : ℓ → (σ → σ) → Prop) : Call ℓ ε σ α → Prop
  | .done _ => True
  | .step label act next => P label act ∧ ∀ s, (next s).Steps P

variable {P : ℓ → (σ → σ) → Prop}

theorem Steps.pure (a : α) : (Pure.pure a : Call ℓ ε σ α).Steps P := trivial

theorem Steps.fail (e : ε) : (Call.fail e : Call ℓ ε σ α).Steps P := trivial

/-- The sections of a sequence are those of its parts. -/
theorem Steps.bind {c : Call ℓ ε σ α} {f : α → Call ℓ ε σ β} (first : c.Steps P)
    (second : ∀ a, (f a).Steps P) : (c >>= f).Steps P := by
  change (Call.bind c f).Steps P
  induction c with
  | done result =>
      cases result with
      | ok a => exact second a
      | error e => exact trivial
  | step label act next ih => exact ⟨first.1, fun s => ih s (first.2 s)⟩

theorem Steps.atomic {label : ℓ} {m : EStateM ε σ α}
    (holds : P label fun s => finalState (m s)) : (Call.atomic label m).Steps P :=
  ⟨holds, fun _ => trivial⟩

theorem Steps.attempt {label : ℓ} {m : EStateM ε σ α}
    (holds : P label fun s => finalState (m s)) : (Call.attempt label m).Steps P :=
  ⟨holds, fun _ => trivial⟩

/-- What is weaker than what holds of every section holds of every section. -/
theorem Steps.mono {Q : ℓ → (σ → σ) → Prop} {c : Call ℓ ε σ α} (holds : c.Steps P)
    (weaker : ∀ label act, P label act → Q label act) : c.Steps Q := by
  induction c with
  | done result => trivial
  | step label act next ih => exact ⟨weaker _ _ holds.1, fun s => ih s (holds.2 s)⟩

/-- The section `act`, entered under the condition `C` on its label, keeps `I`. -/
def Keeps (C : ℓ → σ → Prop) (I : σ → Prop) (label : ℓ) (act : σ → σ) : Prop :=
  ∀ s, C label s → I s → I (act s)

/-- An invariant every section keeps holds after a solo run whose sections all meet the
condition. -/
theorem run_invariant {C : ℓ → σ → Prop} {I : σ → Prop} {c : Call ℓ ε σ α}
    (keeps : c.Steps (Keeps C I)) :
    ∀ {s : σ}, c.Along C s → I s → Post c.run s (fun _ => I) (fun _ => I) := by
  induction c with
  | done result =>
      intro s _ holds
      cases result <;> exact holds
  | step label act next ih =>
      intro s along holds
      exact ih s (keeps.2 s) along.2 (keeps.1 s along.1 holds)

/-- An invariant every section keeps holds at every section of a solo run whose sections all meet the
condition. -/
theorem Along.invariant {C : ℓ → σ → Prop} {I : σ → Prop} {c : Call ℓ ε σ α}
    (keeps : c.Steps (Keeps C I)) :
    ∀ {s : σ}, c.Along C s → I s → c.Along (fun label s => C label s ∧ I s) s := by
  induction c with
  | done result => exact fun _ _ => trivial
  | step label act next ih =>
      intro s along holds
      exact ⟨⟨along.1, holds⟩, ih s (keeps.2 s) along.2 (keeps.1 s along.1 holds)⟩

/-- Weaker conditions are met along a run that meets stronger ones. -/
theorem Along.mono {C D : ℓ → σ → Prop} (weaker : ∀ label s, C label s → D label s)
    {c : Call ℓ ε σ α} : ∀ {s : σ}, c.Along C s → c.Along D s := by
  induction c with
  | done result => exact fun _ => trivial
  | step label act next ih => exact fun along => ⟨weaker _ _ along.1, ih _ along.2⟩

/-- Conditions that every section meets in any state are met along every run. -/
theorem Along.of_steps {C : ℓ → σ → Prop} {c : Call ℓ ε σ α}
    (steps : c.Steps fun label _ => ∀ s, C label s) : ∀ {s : σ}, c.Along C s := by
  induction c with
  | done result => exact trivial
  | step label act next ih => exact fun {s} => ⟨steps.1 s, ih s (steps.2 s)⟩

/-- A solo run through two calls meets the condition when each part of it does. -/
theorem Along.bind {C : ℓ → σ → Prop} {c : Call ℓ ε σ α} {f : α → Call ℓ ε σ β} :
    ∀ {s : σ}, c.Along C s →
      Post c.run s (fun a s' => (f a).Along C s') (fun _ _ => True) → (c >>= f).Along C s := by
  change ∀ {s : σ}, c.Along C s →
    Post c.run s (fun a s' => (f a).Along C s') (fun _ _ => True) → (Call.bind c f).Along C s
  induction c with
  | done result =>
      intro s _ rest
      cases result with
      | ok a => exact rest
      | error e => exact trivial
  | step label act next ih => exact fun along rest => ⟨along.1, ih _ along.2 rest⟩

/-- A call is followed by a pure answer. -/
theorem Along.answering {C : ℓ → σ → Prop} {c : Call ℓ ε σ α} {f : α → β} {s : σ}
    (along : c.Along C s) : (c >>= fun a => Pure.pure (f a)).Along C s :=
  along.bind (Post.trivial.mono (fun _ _ _ => trivial) fun _ _ _ => trivial)

/-- Two conditions that are met along a run are met together. -/
theorem Along.and {C D : ℓ → σ → Prop} {c : Call ℓ ε σ α} : ∀ {s : σ}, c.Along C s → c.Along D s →
    c.Along (fun label s => C label s ∧ D label s) s := by
  induction c with
  | done result => exact fun _ _ => trivial
  | step label act next ih => exact fun first second =>
      ⟨⟨first.1, second.1⟩, ih _ first.2 second.2⟩

end Call

end TeslatlasEdge.Lib
