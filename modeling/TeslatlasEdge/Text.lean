/-
Module: TeslatlasEdge.Text
Purpose: Character strings, byte strings, decimal and hexadecimal notation, and the machine integers
  the spool computes with.
Trusted boundary: human-reviewed model of the Rust standard library and of `hex::encode`
Main exports: Str, Bytes, I64, u64Max, checkedAdd, saturatingAdd, pad20, parseU64, hexEncode,
  validDigest
-/
import Mathlib

namespace TeslatlasEdge

/-- A Rust string, as its characters. -/
abbrev Str := List Char

abbrev Bytes := List UInt8

instance Str.lawfulBEq : LawfulBEq Str := inferInstanceAs (LawfulBEq (List Char))

/-- The UTF-8 bytes of a string. -/
def Str.bytes (s : Str) : Bytes := s.flatMap String.utf8EncodeChar

/-! ### Machine integers -/

/-- `u64::MAX`; `usize` has the same width on every supported target. -/
def u64Max : Nat := 2 ^ 64 - 1

/-- `u64::checked_add`. -/
def checkedAdd (a b : Nat) : Option Nat := if a + b ≤ u64Max then some (a + b) else none

/-- `u64::saturating_add` and `usize::saturating_add`. -/
def saturatingAdd (a b : Nat) : Nat := min (a + b) u64Max

/-- `u64::saturating_sub` is truncated subtraction. -/
def saturatingSub (a b : Nat) : Nat := a - b

/-- A signed 64-bit integer. -/
abbrev I64 := { x : Int // -2 ^ 63 ≤ x ∧ x < 2 ^ 63 }

namespace I64

/-- The nearest `i64`. -/
def clamp (x : Int) : I64 :=
  ⟨max (-2 ^ 63) (min x (2 ^ 63 - 1)), by omega⟩

/-- `i64::saturating_add`. -/
def saturatingAdd (a b : I64) : I64 := clamp (a.val + b.val)

/-- Adding a positive amount never moves a deadline before its start. -/
theorem le_saturatingAdd {a b : I64} (positive : 0 ≤ b.val) :
    a.val ≤ (saturatingAdd a b).val := by
  obtain ⟨a, low, high⟩ := a
  change a ≤ max (-2 ^ 63) (min (a + b.val) (2 ^ 63 - 1))
  omega

end I64

/-- `u64::to_be_bytes`. -/
def beBytes (n : Nat) : Bytes :=
  (List.range 8).map fun i => UInt8.ofNat (n / 256 ^ (7 - i))

/-! ### Decimal notation -/

/-- `{:020}`: decimal digits, zero-padded on the left to at least twenty. -/
def pad20 (n : Nat) : Str :=
  List.replicate (20 - (Nat.toDigits 10 n).length) '0' ++ Nat.toDigits 10 n

/-- The optional plus sign that `str::parse` skips. -/
def stripPlus : Str → Str
  | '+' :: rest => rest
  | s => s

/-- `str::parse::<u64>`: an optional plus sign, then at least one digit, within range. -/
def parseU64 (s : Str) : Option Nat :=
  let digits := stripPlus s
  if digits ≠ [] ∧ digits.all Char.isDigit then
    let n := Nat.ofDigitChars 10 digits 0
    if n ≤ u64Max then some n else none
  else none

/-- Padding gives every number of the range the same length. -/
theorem pad20_length {n : Nat} (bounded : n ≤ u64Max) : (pad20 n).length = 20 := by
  have short : (Nat.toDigits 10 n).length ≤ 20 :=
    (Nat.length_toDigits_le_iff (by omega) (by omega)).mpr (by unfold u64Max at bounded; omega)
  simp only [pad20, List.length_append, List.length_replicate]
  omega

/-- A padded number has digits alone. -/
theorem isDigit_of_mem_pad20 {n : Nat} {c : Char} (inside : c ∈ pad20 n) : c.isDigit = true := by
  rcases List.mem_append.mp inside with padding | digit
  · rw [List.eq_of_mem_replicate padding]
    rfl
  · exact Nat.isDigit_of_mem_toDigits (by omega) (by omega) digit

/-- The digits of a padded number tell it. -/
theorem ofDigitChars_pad20 (n : Nat) : Nat.ofDigitChars 10 (pad20 n) 0 = n := by
  rw [pad20, Nat.ofDigitChars_append, Nat.ofDigitChars_replicate_zero, Nat.mul_zero]
  exact Nat.ofDigitChars_toDigits (by omega) (by omega)

theorem stripPlus_of_digits {s : Str} (digits : ∀ c ∈ s, c.isDigit = true) : stripPlus s = s := by
  unfold stripPlus
  split
  · exact absurd (digits '+' List.mem_cons_self) (by decide)
  · rfl

/-- What `parse::<u64>` reads: digits, after a plus sign or none, of a number in range. -/
theorem parseU64_eq_some {s : Str} {n : Nat} :
    parseU64 s = some n ↔
      stripPlus s ≠ [] ∧ (∀ c ∈ stripPlus s, c.isDigit = true) ∧
        Nat.ofDigitChars 10 (stripPlus s) 0 = n ∧ n ≤ u64Max := by
  simp only [parseU64, List.all_eq_true]
  constructor
  · intro parsed
    split at parsed
    · rename_i shape
      split at parsed
      · rename_i bounded
        cases parsed
        exact ⟨shape.1, shape.2, rfl, bounded⟩
      · cases parsed
    · cases parsed
  · rintro ⟨nonempty, digits, rfl, bounded⟩
    rw [if_pos ⟨nonempty, digits⟩, if_pos bounded]

/-- A padded number is read back. -/
theorem parseU64_pad20 {n : Nat} (bounded : n ≤ u64Max) : parseU64 (pad20 n) = some n := by
  have digits : ∀ c ∈ pad20 n, c.isDigit = true := fun c inside => isDigit_of_mem_pad20 inside
  have nonempty : pad20 n ≠ [] := by
    intro empty
    have length := pad20_length bounded
    rw [empty] at length
    cases length
  rw [parseU64_eq_some, stripPlus_of_digits digits]
  exact ⟨nonempty, digits, ofDigitChars_pad20 n, bounded⟩

/-- Different numbers are padded to different texts. -/
theorem pad20_injective {m n : Nat} (same : pad20 m = pad20 n) : m = n := by
  rw [← ofDigitChars_pad20 m, same, ofDigitChars_pad20]

/-! ### Hexadecimal digests -/

def hexDigit (n : Nat) : Char :=
  if n < 10 then Char.ofNat (48 + n) else Char.ofNat (87 + n)

/-- `hex::encode`. -/
def hexEncode (bytes : Bytes) : Str :=
  bytes.flatMap fun b => [hexDigit (b.toNat / 16), hexDigit (b.toNat % 16)]

/-- `byte.is_ascii_digit() || (b'a'..=b'f').contains(&byte)`. -/
def isLowerHex (c : Char) : Bool := c.isDigit || ('a' ≤ c && c ≤ 'f')

/-- Sixty-four lowercase hexadecimal digits. -/
def validDigest (value : Str) : Bool := value.length == 64 && value.all isLowerHex

theorem isLowerHex_hexDigit {n : Nat} (small : n < 16) : isLowerHex (hexDigit n) = true := by
  interval_cases n <;> decide

theorem hexDigit_injective {m n : Nat} (first : m < 16) (second : n < 16)
    (same : hexDigit m = hexDigit n) : m = n := by
  interval_cases m <;> interval_cases n <;> first | rfl | exact absurd same (by decide)

/-- Different bytes have different hexadecimal texts. -/
theorem hexEncode_injective {left right : Bytes} (same : hexEncode left = hexEncode right) :
    left = right := by
  induction left generalizing right with
  | nil =>
      cases right with
      | nil => rfl
      | cons b right => simp [hexEncode] at same
  | cons a left ih =>
      cases right with
      | nil => simp [hexEncode] at same
      | cons b right =>
          simp only [hexEncode, List.flatMap_cons, List.cons_append, List.nil_append,
            List.cons.injEq] at same
          obtain ⟨high, low, rest⟩ := same
          have bounds : a.toNat < 256 ∧ b.toNat < 256 := ⟨a.toNat_lt, b.toNat_lt⟩
          have upper := hexDigit_injective (by omega) (by omega) high
          have lower := hexDigit_injective (by omega) (by omega) low
          have equal : a = b := UInt8.toNat_inj.mp (by omega)
          rw [equal, ih rest]

/-- The hexadecimal text of thirty-two bytes passes for a digest. -/
theorem validDigest_hexEncode {bytes : Bytes} (length : bytes.length = 32) :
    validDigest (hexEncode bytes) = true := by
  have pairs : ∀ bs : Bytes, (hexEncode bs).length = 2 * bs.length := by
    intro bs
    induction bs with
    | nil => rfl
    | cons b bs ih =>
        simp only [hexEncode, List.flatMap_cons, List.length_append] at ih ⊢
        rw [ih]
        simp only [List.length_cons, List.length_nil]
        omega
  have digits : ∀ c ∈ hexEncode bytes, isLowerHex c = true := by
    intro c inside
    obtain ⟨b, -, here⟩ := List.mem_flatMap.mp inside
    have bound : b.toNat < 256 := b.toNat_lt
    simp only [List.mem_cons, List.not_mem_nil, or_false] at here
    rcases here with rfl | rfl
    · exact isLowerHex_hexDigit (by omega)
    · exact isLowerHex_hexDigit (by omega)
  simp only [validDigest, pairs, length, Bool.and_eq_true, beq_iff_eq, List.all_eq_true]
  exact ⟨trivial, digits⟩

end TeslatlasEdge
