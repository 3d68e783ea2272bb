/-
Module: TeslatlasEdge.Lib.Codes
Purpose: Texts that can be read back: blocks of one length laid end to end, the digits of a number at
  a fixed base, and decimal strings of one length.
Trusted boundary: none
Main exports: injOn_flatMap, mod_pow_eq_of_digits, ofDigitChars_inj, ofDigitChars_lt
-/
import Mathlib

namespace TeslatlasEdge.Lib

/-! ### Blocks -/

section

variable {α β : Type} {code : α → List β} {width : Nat}

/-- Blocks of one positive length laid end to end tell which blocks they are. -/
theorem injOn_flatMap {good : Set α} (positive : 0 < width)
    (length : ∀ a ∈ good, (code a).length = width) (injective : good.InjOn code) :
    {items : List α | ∀ a ∈ items, a ∈ good}.InjOn (List.flatMap code) := by
  intro left inLeft right inRight same
  have nonempty : ∀ (a : α) (items : List α), a ∈ good → ([] : List β) ≠ (a :: items).flatMap code := by
    intro a items here empty
    have lengths := congrArg List.length empty
    rw [List.flatMap_cons, List.length_append, length a here] at lengths
    simp only [List.length_nil] at lengths
    omega
  induction left generalizing right with
  | nil =>
      cases right with
      | nil => rfl
      | cons b right => exact absurd same (nonempty b right (inRight b List.mem_cons_self))
  | cons a left ih =>
      have hereLeft := inLeft a List.mem_cons_self
      cases right with
      | nil => exact absurd same.symm (nonempty a left hereLeft)
      | cons b right =>
          have hereRight := inRight b List.mem_cons_self
          rw [List.flatMap_cons, List.flatMap_cons] at same
          have aligned : (code a).length = (code b).length := by
            rw [length a hereLeft, length b hereRight]
          obtain ⟨head, tail⟩ := List.append_inj same aligned
          have rest := ih (fun c inside => inLeft c (List.mem_cons_of_mem _ inside))
            (fun c inside => inRight c (List.mem_cons_of_mem _ inside)) tail
          rw [injective hereLeft hereRight head, rest]

end

/-! ### Digits -/

/-- Numbers with the same low digits agree up to the next power of the base. -/
theorem mod_pow_eq_of_digits {b m n k : Nat} (digits : ∀ i < k, m / b ^ i % b = n / b ^ i % b) :
    m % b ^ k = n % b ^ k := by
  induction k with
  | zero => rw [Nat.pow_zero, Nat.mod_one, Nat.mod_one]
  | succ k ih =>
      rw [Nat.mod_pow_succ, Nat.mod_pow_succ, ih fun i below => digits i (by omega),
        digits k (by omega)]

/-! ### Decimal strings -/

/-- A decimal digit is zero plus a number below ten. -/
theorem toNat_of_isDigit {c : Char} (digit : c.isDigit = true) :
    '0'.toNat ≤ c.toNat ∧ c.toNat < '0'.toNat + 10 := by
  simp only [Char.isDigit, Bool.and_eq_true, decide_eq_true_eq, ge_iff_le] at digit
  obtain ⟨low, high⟩ := digit
  have low : '0'.toNat ≤ c.toNat := low
  have high : c.toNat ≤ '9'.toNat := high
  exact ⟨low, Nat.lt_succ_of_le high⟩

/-- Digit strings of one length with the same value are the same. -/
theorem ofDigitChars_inj {left right : List Char} {a b : Nat}
    (digitsLeft : ∀ c ∈ left, c.isDigit = true) (digitsRight : ∀ c ∈ right, c.isDigit = true)
    (length : left.length = right.length)
    (same : Nat.ofDigitChars 10 left a = Nat.ofDigitChars 10 right b) : a = b ∧ left = right := by
  induction left generalizing right a b with
  | nil =>
      obtain rfl := List.length_eq_zero_iff.mp length.symm
      exact ⟨same, rfl⟩
  | cons c left ih =>
      cases right with
      | nil => cases length
      | cons d right =>
          rw [Nat.ofDigitChars_cons, Nat.ofDigitChars_cons] at same
          obtain ⟨front, rfl⟩ := ih (fun e inside => digitsLeft e (List.mem_cons_of_mem _ inside))
            (fun e inside => digitsRight e (List.mem_cons_of_mem _ inside))
            (Nat.succ.inj length) same
          have boundLeft := toNat_of_isDigit (digitsLeft c List.mem_cons_self)
          have boundRight := toNat_of_isDigit (digitsRight d List.mem_cons_self)
          have values : a = b ∧ c.toNat = d.toNat := by omega
          exact ⟨values.1, by rw [Char.toNat_inj.mp values.2]⟩

/-- The value of a digit string stays below the power of ten its length gives. -/
theorem ofDigitChars_lt {digits : List Char} {a b : Nat} (all : ∀ c ∈ digits, c.isDigit = true)
    (small : a < b) : Nat.ofDigitChars 10 digits a < b * 10 ^ digits.length := by
  induction digits generalizing a b with
  | nil => simpa only [Nat.ofDigitChars_nil, List.length_nil, Nat.pow_zero, Nat.mul_one] using small
  | cons c digits ih =>
      have bound := toNat_of_isDigit (all c List.mem_cons_self)
      rw [Nat.ofDigitChars_cons, List.length_cons, Nat.pow_succ', ← Nat.mul_assoc]
      exact ih (fun d inside => all d (List.mem_cons_of_mem _ inside)) (by omega)

end TeslatlasEdge.Lib
