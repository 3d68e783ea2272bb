/-
Module: TeslatlasEdge.Lib.System
Purpose: Transition systems and the maps between them.  A view of a concrete system refines an
  abstract one when each concrete step is a step of the view or leaves it as it was; what holds of
  every state the abstract system reaches then holds of every view.
Trusted boundary: none
Main exports: System, System.Reachable, System.Reachable.invariant, System.Later, System.Refines
-/
import Mathlib.Logic.Relation

namespace TeslatlasEdge.Lib

variable {σ τ υ : Type}

/-- States to start in, and the steps between states. -/
structure System (σ : Type) where
  starts : σ → Prop
  moves : σ → σ → Prop

namespace System

/-- The states a system can get to. -/
inductive Reachable (S : System σ) : σ → Prop where
  | start {s : σ} (begins : S.starts s) : Reachable S s
  | step {s t : σ} (before : Reachable S s) (moved : S.moves s t) : Reachable S t

/-- What holds at the start and is kept by every step of a reachable state always holds. -/
theorem Reachable.invariant {S : System σ} {I : σ → Prop} (start : ∀ s, S.starts s → I s)
    (keeps : ∀ s t, S.Reachable s → I s → S.moves s t → I t) {s : σ} (reach : S.Reachable s) :
    I s := by
  induction reach with
  | start begins => exact start _ begins
  | step before moved ih => exact keeps _ _ before ih moved

/-- The second state comes after the first, or is it. -/
abbrev Later (S : System σ) : σ → σ → Prop := Relation.ReflTransGen S.moves

/-- What comes after a reachable state is reachable. -/
theorem Reachable.later {S : System σ} {s t : σ} (reach : S.Reachable s) (later : S.Later s t) :
    S.Reachable t := by
  induction later with
  | refl => exact reach
  | tail _ moved ih => exact ih.step moved

/-- Every run has a start. -/
theorem Reachable.origin {S : System σ} {s : σ} (reach : S.Reachable s) :
    ∃ s₀, S.starts s₀ ∧ S.Later s₀ s := by
  induction reach with
  | start begins => exact ⟨_, begins, .refl⟩
  | step _ moved ih =>
      obtain ⟨s₀, begins, later⟩ := ih
      exact ⟨s₀, begins, later.tail moved⟩

/-- Every step of the concrete system is a step of the abstract one, or is not seen there. -/
structure Refines (C : System σ) (A : System τ) (view : σ → τ) : Prop where
  starts : ∀ s, C.starts s → A.starts (view s)
  moves : ∀ s t, C.Reachable s → C.moves s t → view t = view s ∨ A.moves (view s) (view t)

namespace Refines

variable {C : System σ} {B : System τ} {A : System υ} {view : σ → τ} {view' : τ → υ}

/-- The view of a reachable state is reachable. -/
theorem reachable (refines : C.Refines B view) {s : σ} (reach : C.Reachable s) :
    B.Reachable (view s) := by
  induction reach with
  | start begins => exact .start (refines.starts _ begins)
  | step before moved ih =>
      rcases refines.moves _ _ before moved with same | moves
      · rwa [same]
      · exact ih.step moves

/-- Refinements compose. -/
theorem trans (first : C.Refines B view) (second : B.Refines A view') :
    C.Refines A (view' ∘ view) := by
  refine ⟨fun s begins => second.starts _ (first.starts s begins), fun s t reach moved => ?_⟩
  rcases first.moves s t reach moved with same | moves
  · exact .inl (congrArg view' same)
  · exact second.moves _ _ (first.reachable reach) moves

end Refines

end System

end TeslatlasEdge.Lib
