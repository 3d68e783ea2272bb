/-
Module: TeslatlasEdge.Lib.Effect
Purpose: Reasoning about computations that carry a state through both their normal and their error
  exit.  An error keeps the state it was raised in, so a property of a computation speaks about the
  state at either exit.
Trusted boundary: none
Main exports: Post, Post.bind, Preserves, Preserves.bind
-/
import Mathlib

namespace TeslatlasEdge.Lib

variable {ε σ α β : Type}

/-- The state a computation ends in, on either exit. -/
def finalState : EStateM.Result ε σ α → σ
  | .ok _ s => s
  | .error _ s => s

/-- What a computation answered, without the state. -/
def answer : EStateM.Result ε σ α → Except ε α
  | .ok a _ => .ok a
  | .error e _ => .error e

@[simp] theorem finalState_ok (a : α) (s : σ) :
    finalState (.ok a s : EStateM.Result ε σ α) = s := rfl

@[simp] theorem finalState_error (e : ε) (s : σ) :
    finalState (.error e s : EStateM.Result ε σ α) = s := rfl

@[simp] theorem answer_ok (a : α) (s : σ) :
    answer (.ok a s : EStateM.Result ε σ α) = .ok a := rfl

@[simp] theorem answer_error (e : ε) (s : σ) :
    answer (.error e s : EStateM.Result ε σ α) = .error e := rfl

/-- `Post m s onOk onError`: run from `s`, the computation `m` leaves through its normal exit with
`onOk` or through its error exit with `onError`. -/
def Post (m : EStateM ε σ α) (s : σ) (onOk : α → σ → Prop) (onError : ε → σ → Prop) : Prop :=
  match m s with
  | .ok a s' => onOk a s'
  | .error e s' => onError e s'

section Post

variable {m : EStateM ε σ α} {f : α → EStateM ε σ β} {s : σ}
variable {onOk onOk' : α → σ → Prop} {onError onError' : ε → σ → Prop}

/-- Weaker conditions hold at the exits when stronger ones do. -/
theorem Post.mono (holds : Post m s onOk onError) (ok : ∀ a s', onOk a s' → onOk' a s')
    (error : ∀ e s', onError e s' → onError' e s') : Post m s onOk' onError' := by
  unfold Post at *
  split at holds
  · exact ok _ _ holds
  · exact error _ _ holds

theorem Post.monoOk (holds : Post m s onOk onError) (ok : ∀ a s', onOk a s' → onOk' a s') :
    Post m s onOk' onError :=
  holds.mono ok fun _ _ same => same

/-- Two pairs of conditions at the exits hold together. -/
theorem Post.and {onOk₂ : α → σ → Prop} {onError₂ : ε → σ → Prop}
    (first : Post m s onOk onError) (second : Post m s onOk₂ onError₂) :
    Post m s (fun a s' => onOk a s' ∧ onOk₂ a s') (fun e s' => onError e s' ∧ onError₂ e s') := by
  unfold Post at *
  split at first
  · rename_i equation
    rw [equation] at second
    exact ⟨first, second⟩
  · rename_i equation
    rw [equation] at second
    exact ⟨first, second⟩

@[simp] theorem post_pure {a : α} :
    Post (pure a : EStateM ε σ α) s onOk onError ↔ onOk a s := Iff.rfl

@[simp] theorem post_throw {e : ε} :
    Post (throw e : EStateM ε σ α) s onOk onError ↔ onError e s := Iff.rfl

@[simp] theorem post_get {onOk : σ → σ → Prop} :
    Post (get : EStateM ε σ σ) s onOk onError ↔ onOk s s := Iff.rfl

@[simp] theorem post_modify {g : σ → σ} {onOk : PUnit → σ → Prop} :
    Post (modify g : EStateM ε σ PUnit) s onOk onError ↔ onOk ⟨⟩ (g s) := Iff.rfl

/-- A sequence meets its conditions when its first part leaves its second to meet them. -/
theorem post_bind {onOk : β → σ → Prop} :
    Post (m >>= f) s onOk onError ↔
      Post m s (fun a s' => Post (f a) s' onOk onError) onError := by
  unfold Post
  simp only [bind, EStateM.bind]
  cases m s <;> rfl

theorem post_map {g : α → β} {onOk : β → σ → Prop} :
    Post (g <$> m) s onOk onError ↔ Post m s (fun a s' => onOk (g a) s') onError := by
  unfold Post
  simp only [Functor.map, EStateM.map]
  cases m s <;> rfl

/-- The rule of sequence: a condition between the parts is what the one leaves and the other starts
on. -/
theorem Post.bind {middle : α → σ → Prop} {onOk : β → σ → Prop}
    (first : Post m s middle onError)
    (second : ∀ a s', middle a s' → Post (f a) s' onOk onError) :
    Post (m >>= f) s onOk onError :=
  post_bind.mpr (first.monoOk second)

/-- Either branch has to meet the conditions, under what the test says. -/
theorem post_ite {c : Prop} [Decidable c] {m n : EStateM ε σ α} :
    Post (if c then m else n) s onOk onError ↔
      (c → Post m s onOk onError) ∧ (¬ c → Post n s onOk onError) := by
  by_cases holds : c <;> simp [holds]

/-- `EStateM` recovers from an error in the state the error was raised in. -/
theorem post_tryCatch {handler : ε → EStateM ε σ α} :
    Post (tryCatch m handler) s onOk onError ↔
      Post m s onOk (fun e s' => Post (handler e) s' onOk onError) := by
  unfold Post
  simp only [tryCatch, tryCatchThe, MonadExceptOf.tryCatch, EStateM.tryCatch]
  cases m s <;> rfl

theorem Post.trivial : Post m s (fun _ _ => True) (fun _ _ => True) := by
  unfold Post
  split <;> exact True.intro

/-- The conditions of a program are about its runs: what it returns and what it throws. -/
theorem post_iff_exits :
    Post m s onOk onError ↔
      (∀ a s', m s = .ok a s' → onOk a s') ∧ (∀ e s', m s = .error e s' → onError e s') := by
  unfold Post
  cases m s with
  | ok a s' => simp
  | error e s' => simp

theorem post_iff_of_run {a : α} {s' : σ} (run : m s = .ok a s') :
    Post m s onOk onError ↔ onOk a s' := by
  unfold Post
  rw [run]

/-- What a run that returns has left. -/
theorem Post.of_ok {a : α} {s' : σ} (holds : Post m s onOk onError) (run : m s = .ok a s') :
    onOk a s' := (post_iff_exits.mp holds).1 a s' run

/-- What a run that throws has left. -/
theorem Post.of_error {e : ε} {s' : σ} (holds : Post m s onOk onError)
    (run : m s = .error e s') : onError e s' := (post_iff_exits.mp holds).2 e s' run

/-- An invariant at both exits holds of the state a run leaves. -/
theorem Post.final {I : σ → Prop} (holds : Post m s (fun _ => I) (fun _ => I)) :
    I (finalState (m s)) := by
  unfold Post at holds
  cases run : m s with
  | ok a s' =>
      rw [run] at holds
      exact holds
  | error e s' =>
      rw [run] at holds
      exact holds

end Post

/-- `I` holds at either exit of `m` whenever it holds at entry, and only allowed errors are
raised. -/
def Preserves (I : σ → Prop) (allowed : ε → Prop) (m : EStateM ε σ α) : Prop :=
  ∀ s, I s → Post m s (fun _ => I) (fun e s' => allowed e ∧ I s')

namespace Preserves

variable {I : σ → Prop} {allowed permitted : ε → Prop} {m n : EStateM ε σ α}
  {f : α → EStateM ε σ β}

theorem pure (a : α) : Preserves I allowed (Pure.pure a : EStateM ε σ α) := fun _ holds => holds

theorem throw {e : ε} (may : allowed e) :
    Preserves I allowed (MonadExcept.throw e : EStateM ε σ α) := fun _ holds => ⟨may, holds⟩

/-- A sequence of programs that preserve an invariant preserves it. -/
theorem bind (first : Preserves I allowed m) (second : ∀ a, Preserves I allowed (f a)) :
    Preserves I allowed (m >>= f) :=
  fun s holds => (first s holds).bind fun a s' kept => second a s' kept

/-- A branch between programs that preserve an invariant preserves it. -/
theorem ite {c : Prop} [Decidable c] (yes : Preserves I allowed m) (no : Preserves I allowed n) :
    Preserves I allowed (if c then m else n) := by
  split
  · exact yes
  · exact no

/-- A program that recovers from its errors preserves what its parts preserve. -/
theorem tryCatch {handler : ε → EStateM ε σ α} (body : Preserves I allowed m)
    (recovers : ∀ e, allowed e → Preserves I allowed (handler e)) :
    Preserves I allowed (MonadExcept.tryCatch m handler) :=
  fun s holds => post_tryCatch.mpr <|
    (body s holds).mono (fun _ _ kept => kept) fun e s' kept => recovers e kept.1 s' kept.2

/-- More errors may be allowed. -/
theorem weaken (keeps : Preserves I allowed m) (weaker : ∀ e, allowed e → permitted e) :
    Preserves I permitted m :=
  fun s holds => (keeps s holds).mono (fun _ _ kept => kept) fun e _ kept => ⟨weaker e kept.1, kept.2⟩

/-- A program that preserves an invariant leaves it to the state of every run. -/
theorem final (keeps : Preserves I allowed m) {s : σ} (holds : I s) : I (finalState (m s)) :=
  ((keeps s holds).mono (fun _ _ kept => kept) fun _ _ kept => kept.2).final

end Preserves

end TeslatlasEdge.Lib
