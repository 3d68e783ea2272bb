/-
Module: TeslatlasEdge.Credentials.Reference
Purpose: The laws the store relies on in the crates `uuid` and `base64`, and a concrete host that
  keeps them: SHA-256, hyphenated identifiers in lowercase, and unpadded base64 in the alphabet safe
  for URLs.
Trusted boundary: human-reviewed.  Identifiers are read in their hyphenated form only.
Main exports: TokenHost.Lawful, referenceTokenHost, referenceTokenHost_lawful
-/
import TeslatlasEdge.Credentials.Store
import TeslatlasEdge.Lib.Sha256

namespace TeslatlasEdge.Credentials

/-- What the store relies on: identifiers and secrets read back, and neither text has a dot. -/
structure TokenHost.Lawful (host : TokenHost) : Prop where
  readsUuid : ∀ id, host.parseUuid (host.formatUuid id) = some id
  plainUuid : ∀ id, ∀ c ∈ host.formatUuid id, isLowerHex c = true ∨ c = '-'
  uuidLength : ∀ id, (host.formatUuid id).length = 36
  readsSecret : ∀ secret : Secret, host.decodeSecret (host.encodeSecret secret.val) = some secret.val
  plainSecret : ∀ secret : Secret, '.' ∉ host.encodeSecret secret.val

/-! ### Identifiers -/

def hexValue (c : Char) : Option Nat :=
  if c.isDigit then some (c.toNat - 48)
  else if 'a' ≤ c ∧ c ≤ 'f' then some (c.toNat - 87)
  else none

/-- `hex::decode`. -/
def unhex : Str → Option Bytes
  | [] => some []
  | [_] => none
  | high :: low :: rest => do
      let high ← hexValue high
      let low ← hexValue low
      let bytes ← unhex rest
      pure (UInt8.ofNat (16 * high + low) :: bytes)

/-- A digit has the value it stands for. -/
theorem hexValue_hexDigit {n : Nat} (small : n < 16) : hexValue (hexDigit n) = some n := by
  interval_cases n <;> decide

/-- What is encoded in hexadecimal digits decodes to itself. -/
theorem unhex_hexEncode (bytes : Bytes) : unhex (hexEncode bytes) = some bytes := by
  induction bytes with
  | nil => rfl
  | cons b bytes ih =>
      have bound : b.toNat < 256 := b.toNat_lt
      have whole : UInt8.ofNat (16 * (b.toNat / 16) + b.toNat % 16) = b := by
        rw [Nat.div_add_mod, UInt8.ofNat_toNat]
      change unhex (hexDigit (b.toNat / 16) :: hexDigit (b.toNat % 16) :: hexEncode bytes) = _
      simp only [unhex, hexValue_hexDigit (show b.toNat / 16 < 16 by omega),
        hexValue_hexDigit (show b.toNat % 16 < 16 by omega), ih, Option.bind_eq_bind,
        Option.bind_some, whole]
      rfl

/-- Digits in groups of eight, four, four, four and the rest. -/
def hyphenate (digits : Str) : Str :=
  digits.take 8 ++ '-' :: ((digits.drop 8).take 4 ++ '-' :: ((digits.drop 12).take 4 ++
    '-' :: ((digits.drop 16).take 4 ++ '-' :: digits.drop 20)))

def notHyphen (c : Char) : Bool := c != '-'

theorem filter_hyphenate {digits : Str} (plain : ∀ c ∈ digits, notHyphen c = true) :
    (hyphenate digits).filter notHyphen = digits := by
  have whole {part : Str} (sub : part.Sublist digits) : part.filter notHyphen = part :=
    List.filter_eq_self.mpr fun c inside => plain c (sub.subset inside)
  have piece (n : Nat) : ((digits.drop n).take 4).filter notHyphen = (digits.drop n).take 4 :=
    whole ((List.take_sublist _ _).trans (List.drop_sublist _ _))
  have hyphen (rest : Str) : ('-' :: rest).filter notHyphen = rest.filter notHyphen := rfl
  simp only [hyphenate, List.filter_append, hyphen, piece, whole (List.take_sublist _ _),
    whole (List.drop_sublist _ _)]
  rw [show digits.drop 20 = (digits.drop 16).drop 4 by rw [List.drop_drop], List.take_append_drop,
    show digits.drop 16 = (digits.drop 12).drop 4 by rw [List.drop_drop], List.take_append_drop,
    show digits.drop 12 = (digits.drop 8).drop 4 by rw [List.drop_drop], List.take_append_drop,
    List.take_append_drop]

def formatHyphenated (id : Uuid) : Str := hyphenate (hexEncode id.val)

def parseHyphenated (text : Str) : Option Uuid := do
  let digits := text.filter notHyphen
  if hyphenate digits = text then
    let bytes ← unhex digits
    if length : bytes.length = 16 then some ⟨bytes, length⟩ else none
  else none

theorem length_hexEncode (bytes : Bytes) : (hexEncode bytes).length = 2 * bytes.length := by
  induction bytes with
  | nil => rfl
  | cons b bytes ih =>
      change (hexEncode bytes).length + 1 + 1 = _
      rw [ih, List.length_cons]
      omega

theorem lowerHex_of_mem_hexEncode {bytes : Bytes} {c : Char} (inside : c ∈ hexEncode bytes) :
    isLowerHex c = true := by
  obtain ⟨b, -, here⟩ := List.mem_flatMap.mp inside
  have bound : b.toNat < 256 := b.toNat_lt
  simp only [List.mem_cons, List.not_mem_nil, or_false] at here
  rcases here with rfl | rfl
  · exact isLowerHex_hexDigit (by omega)
  · exact isLowerHex_hexDigit (by omega)

/-- A printed identifier parses to itself. -/
theorem parseHyphenated_formatHyphenated (id : Uuid) :
    parseHyphenated (formatHyphenated id) = some id := by
  have plain : ∀ c ∈ hexEncode id.val, notHyphen c = true := by
    intro c inside
    have digit := lowerHex_of_mem_hexEncode inside
    unfold notHyphen
    by_contra hyphen
    simp only [bne_iff_ne, ne_eq, not_not] at hyphen
    subst hyphen
    exact absurd digit (by decide)
  simp only [parseHyphenated, formatHyphenated, filter_hyphenate plain, if_true, unhex_hexEncode,
    Option.bind_eq_bind, Option.bind_some, id.property, dif_pos]

/-! ### Secrets -/

def base64Alphabet : Str :=
  "ABCDEFGHIJKLMNOPQRSTUVWXYZabcdefghijklmnopqrstuvwxyz0123456789-_".toList

def base64Char (n : Nat) : Char := base64Alphabet.getD n 'A'

def base64Value (c : Char) : Option Nat := base64Alphabet.idxOf? c

def base64Encode : Bytes → Str
  | a :: b :: c :: rest =>
      base64Char (a.toNat / 4) :: base64Char (a.toNat % 4 * 16 + b.toNat / 16) ::
        base64Char (b.toNat % 16 * 4 + c.toNat / 64) :: base64Char (c.toNat % 64) ::
        base64Encode rest
  | [a, b] =>
      [base64Char (a.toNat / 4), base64Char (a.toNat % 4 * 16 + b.toNat / 16),
        base64Char (b.toNat % 16 * 4)]
  | [a] => [base64Char (a.toNat / 4), base64Char (a.toNat % 4 * 16)]
  | [] => []

def base64Decode : Str → Option Bytes
  | w :: x :: y :: z :: rest => do
      let w ← base64Value w
      let x ← base64Value x
      let y ← base64Value y
      let z ← base64Value z
      let bytes ← base64Decode rest
      pure (UInt8.ofNat (w * 4 + x / 16) :: UInt8.ofNat (x % 16 * 16 + y / 4) ::
        UInt8.ofNat (y % 4 * 64 + z) :: bytes)
  | [w, x, y] => do
      let w ← base64Value w
      let x ← base64Value x
      let y ← base64Value y
      if y % 4 = 0 then
        some [UInt8.ofNat (w * 4 + x / 16), UInt8.ofNat (x % 16 * 16 + y / 4)]
      else none
  | [w, x] => do
      let w ← base64Value w
      let x ← base64Value x
      if x % 16 = 0 then some [UInt8.ofNat (w * 4 + x / 16)] else none
  | [_] => none
  | [] => some []

/-- So has a digit to the base 64. -/
theorem base64Value_base64Char {n : Nat} (small : n < 64) :
    base64Value (base64Char n) = some n := by
  interval_cases n <;> decide

theorem base64Char_ne_dot {n : Nat} (small : n < 64) : base64Char n ≠ '.' := by
  interval_cases n <;> decide

/-- A byte is determined by its value. -/
theorem ofNat_eq_of_eq {n : Nat} {b : UInt8} (same : n = b.toNat) : UInt8.ofNat n = b := by
  rw [same, UInt8.ofNat_toNat]

/-- What is encoded in base 64 decodes to itself. -/
theorem base64Decode_base64Encode (bytes : Bytes) :
    base64Decode (base64Encode bytes) = some bytes := by
  induction bytes using base64Encode.induct with
  | case1 a b c rest ih =>
      have ha : a.toNat < 256 := a.toNat_lt
      have hb : b.toNat < 256 := b.toNat_lt
      have hc : c.toNat < 256 := c.toNat_lt
      simp only [base64Encode, base64Decode, ih, Option.bind_eq_bind, Option.bind_some,
        base64Value_base64Char (show a.toNat / 4 < 64 by omega),
        base64Value_base64Char (show a.toNat % 4 * 16 + b.toNat / 16 < 64 by omega),
        base64Value_base64Char (show b.toNat % 16 * 4 + c.toNat / 64 < 64 by omega),
        base64Value_base64Char (show c.toNat % 64 < 64 by omega)]
      rw [ofNat_eq_of_eq (b := a) (by omega), ofNat_eq_of_eq (b := b) (by omega),
        ofNat_eq_of_eq (b := c) (by omega)]
      rfl
  | case2 a b =>
      have ha : a.toNat < 256 := a.toNat_lt
      have hb : b.toNat < 256 := b.toNat_lt
      simp only [base64Encode, base64Decode, Option.bind_eq_bind, Option.bind_some,
        base64Value_base64Char (show a.toNat / 4 < 64 by omega),
        base64Value_base64Char (show a.toNat % 4 * 16 + b.toNat / 16 < 64 by omega),
        base64Value_base64Char (show b.toNat % 16 * 4 < 64 by omega), Nat.mul_mod_left, if_true]
      rw [ofNat_eq_of_eq (b := a) (by omega), ofNat_eq_of_eq (b := b) (by omega)]
  | case3 a =>
      have ha : a.toNat < 256 := a.toNat_lt
      simp only [base64Encode, base64Decode, Option.bind_eq_bind, Option.bind_some,
        base64Value_base64Char (show a.toNat / 4 < 64 by omega),
        base64Value_base64Char (show a.toNat % 4 * 16 < 64 by omega), Nat.mul_mod_left, if_true]
      rw [ofNat_eq_of_eq (b := a) (by omega)]
  | case4 => rfl

/-- The separator of a token is no digit of its secret. -/
theorem dot_not_mem_base64Encode (bytes : Bytes) : '.' ∉ base64Encode bytes := by
  have sextet {n : Nat} (small : n < 64) : '.' ≠ base64Char n := (base64Char_ne_dot small).symm
  induction bytes using base64Encode.induct with
  | case1 a b c rest ih =>
      have ha : a.toNat < 256 := a.toNat_lt
      have hb : b.toNat < 256 := b.toNat_lt
      have hc : c.toNat < 256 := c.toNat_lt
      simp only [base64Encode, List.mem_cons, not_or]
      exact ⟨sextet (by omega), sextet (by omega), sextet (by omega), sextet (by omega), ih⟩
  | case2 a b =>
      have ha : a.toNat < 256 := a.toNat_lt
      have hb : b.toNat < 256 := b.toNat_lt
      simp only [base64Encode, List.mem_cons, not_or]
      exact ⟨sextet (by omega), sextet (by omega), sextet (by omega), List.not_mem_nil⟩
  | case3 a =>
      have ha : a.toNat < 256 := a.toNat_lt
      simp only [base64Encode, List.mem_cons, not_or]
      exact ⟨sextet (by omega), sextet (by omega), List.not_mem_nil⟩
  | case4 => exact List.not_mem_nil

/-! ### The host -/

def referenceTokenHost : TokenHost :=
  { sha256 := fun message => ⟨Lib.Sha256.digest message, Lib.Sha256.length_digest message⟩
    formatUuid := formatHyphenated
    parseUuid := parseHyphenated
    encodeSecret := base64Encode
    decodeSecret := base64Decode }

/-- The reference host meets what the results ask of one. -/
theorem referenceTokenHost_lawful : referenceTokenHost.Lawful where
  readsUuid := parseHyphenated_formatHyphenated
  plainUuid := by
    intro id c inside
    change c ∈ hyphenate (hexEncode id.val) at inside
    by_cases hyphen : c = '-'
    · exact .inr hyphen
    · refine .inl (@lowerHex_of_mem_hexEncode id.val c ?_)
      simp only [hyphenate, List.mem_append, List.mem_cons, hyphen, false_or] at inside
      rcases inside with inside | inside | inside | inside | inside
      · exact List.mem_of_mem_take inside
      · exact List.mem_of_mem_drop (List.mem_of_mem_take inside)
      · exact List.mem_of_mem_drop (List.mem_of_mem_take inside)
      · exact List.mem_of_mem_drop (List.mem_of_mem_take inside)
      · exact List.mem_of_mem_drop inside
  uuidLength := by
    intro id
    change (hyphenate (hexEncode id.val)).length = 36
    simp only [hyphenate, List.length_append, List.length_cons, List.length_take, List.length_drop,
      length_hexEncode, id.property]
    rfl
  readsSecret := fun secret => base64Decode_base64Encode secret.val
  plainSecret := fun secret => dot_not_mem_base64Encode secret.val

end TeslatlasEdge.Credentials
