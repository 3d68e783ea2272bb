/-
Module: TeslatlasEdge.Lib.Window
Purpose: The longest prefix of a list that meets a condition which every prefix inherits.  It is found
  by stopping at the first item that does not fit, and items appended behind an item that does not fit
  leave it alone.
Trusted boundary: none
Main exports: PrefixClosed, Window, Window.of_stop, Window.append
-/
import Mathlib

namespace TeslatlasEdge.Lib

variable {α : Type}

/-- A condition on lists that every prefix inherits. -/
def PrefixClosed (admits : List α → Prop) : Prop :=
  ∀ front back, admits (front ++ back) → admits front

/-- The longest prefix of a list that meets a condition. -/
structure Window (admits : List α → Prop) (items taken : List α) : Prop where
  front : taken <+: items
  admitted : admits taken
  longest : ∀ other, other <+: items → admits other → other.length ≤ taken.length

namespace Window

variable {admits : List α → Prop} {items taken : List α}

/-- A prefix after which the next item does not fit is the longest. -/
theorem of_stop (closed : PrefixClosed admits) (front : taken <+: items) (admitted : admits taken)
    (stop : ∀ item, taken ++ [item] <+: items → ¬ admits (taken ++ [item])) :
    Window admits items taken := by
  refine ⟨front, admitted, fun other within holds => ?_⟩
  by_contra longer
  have below : taken <+: other :=
    List.prefix_of_prefix_length_le front within (not_le.mp longer).le
  obtain ⟨rest, rfl⟩ := below
  cases rest with
  | nil => simp at longer
  | cons item rest =>
      have split : taken ++ item :: rest = (taken ++ [item]) ++ rest := by simp
      rw [split] at within holds
      exact stop item ((List.prefix_append _ _).trans within) (closed _ _ holds)

/-- Items behind one that does not fit change nothing. -/
theorem append (closed : PrefixClosed admits) (window : Window admits items taken)
    (short : taken ≠ items) (more : List α) : Window admits (items ++ more) taken := by
  refine of_stop closed (window.front.trans (List.prefix_append _ _)) window.admitted ?_
  intro item within holds
  obtain ⟨rest, rfl⟩ := window.front
  cases rest with
  | nil => exact short (List.append_nil _).symm
  | cons next rest =>
      have same : item = next := by
        have := (List.prefix_append_right_inj taken).mp
          (by simpa only [List.append_assoc] using within)
        exact (List.cons_prefix_cons.mp this).1
      subst same
      have inside : taken ++ [item] <+: taken ++ item :: rest :=
        (List.prefix_append_right_inj taken).mpr (by simp)
      have bound := window.longest _ inside holds
      simp at bound

end Window

end TeslatlasEdge.Lib
