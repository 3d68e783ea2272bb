/-
Module: TeslatlasEdge.Json
Purpose: JSON trees, the length of their compact text, and the exchange of text for values.  A tree
  is generic in its non-integer numbers: in a text they are decimal literals, in a value they are
  64-bit floats.  Printing and parsing act on these leaves only; every other leaf is carried over
  unchanged.
Trusted boundary: human-reviewed model of `serde_json`; the float printer and parser are parameters
Main exports: Json, Json.size, Json.map, Json.depth, FloatCodec, Json.print, Json.parse,
  Json.reparse_eq_self_iff, Json.structFields
-/
import TeslatlasEdge.Text

namespace TeslatlasEdge

/-- A JSON tree with non-integer numbers of type `φ`. -/
inductive Json (φ : Type) where
  | null
  | bool (value : Bool)
  | int (value : Int)
  | float (value : φ)
  | str (value : Str)
  | arr (items : List (Json φ))
  | obj (fields : List (Str × Json φ))

/-- The bit pattern of a finite `f64`. -/
abbrev F64 := UInt64

/-- JSON text: non-integer numbers are the decimal literals as written. -/
abbrev JsonText := Json Str

/-- `serde_json::Value`. -/
abbrev Value := Json F64

/-- The float printer and parser of `serde_json`.  The parser is not assumed to undo the printer: it
does only in a build with `float_roundtrip`, which a dependency may select. -/
structure FloatCodec where
  print : F64 → Str
  parse : Str → F64

namespace Json

variable {φ ψ χ : Type}

/-! ### Acting on the non-integer numbers -/

mutual

/-- Replace every non-integer number. -/
def map (f : φ → ψ) : Json φ → Json ψ
  | .null => .null
  | .bool b => .bool b
  | .int n => .int n
  | .float x => .float (f x)
  | .str s => .str s
  | .arr items => .arr (mapItems f items)
  | .obj fields => .obj (mapFields f fields)

def mapItems (f : φ → ψ) : List (Json φ) → List (Json ψ)
  | [] => []
  | item :: items => map f item :: mapItems f items

def mapFields (f : φ → ψ) : List (Str × Json φ) → List (Str × Json ψ)
  | [] => []
  | (key, value) :: fields => (key, map f value) :: mapFields f fields

end

mutual

/-- The non-integer numbers of a tree, from left to right. -/
def floats : Json φ → List φ
  | .float x => [x]
  | .arr items => itemFloats items
  | .obj fields => fieldFloats fields
  | .null | .bool _ | .int _ | .str _ => []

def itemFloats : List (Json φ) → List φ
  | [] => []
  | item :: items => floats item ++ itemFloats items

def fieldFloats : List (Str × Json φ) → List φ
  | [] => []
  | (_, value) :: fields => floats value ++ fieldFloats fields

end

mutual

/-- Two changes of the floats one after the other are their composition. -/
theorem map_map (f : φ → ψ) (g : ψ → χ) : ∀ tree : Json φ, map g (map f tree) = map (g ∘ f) tree
  | .null | .bool _ | .int _ | .str _ | .float _ => by simp only [map, Function.comp]
  | .arr items => by simp only [map, mapItems_mapItems f g items]
  | .obj fields => by simp only [map, mapFields_mapFields f g fields]

theorem mapItems_mapItems (f : φ → ψ) (g : ψ → χ) :
    ∀ items : List (Json φ), mapItems g (mapItems f items) = mapItems (g ∘ f) items
  | [] => rfl
  | item :: items => by
      simp only [mapItems, map_map f g item, mapItems_mapItems f g items]

theorem mapFields_mapFields (f : φ → ψ) (g : ψ → χ) :
    ∀ fields : List (Str × Json φ), mapFields g (mapFields f fields) = mapFields (g ∘ f) fields
  | [] => rfl
  | (key, value) :: fields => by
      simp only [mapFields, map_map f g value, mapFields_mapFields f g fields]

end

mutual

/-- A leaf map fixes a tree exactly when it fixes each of its non-integer numbers. -/
theorem map_eq_self_iff (f : φ → φ) :
    ∀ tree : Json φ, map f tree = tree ↔ ∀ x ∈ floats tree, f x = x
  | .null | .bool _ | .int _ | .str _ => by simp [map, floats]
  | .float x => by simp [map, floats]
  | .arr items => by
      simp only [map, floats, Json.arr.injEq]
      exact mapItems_eq_self_iff f items
  | .obj fields => by
      simp only [map, floats, Json.obj.injEq]
      exact mapFields_eq_self_iff f fields

theorem mapItems_eq_self_iff (f : φ → φ) :
    ∀ items : List (Json φ), mapItems f items = items ↔ ∀ x ∈ itemFloats items, f x = x
  | [] => by simp [mapItems, itemFloats]
  | item :: items => by
      simp only [mapItems, itemFloats, List.cons.injEq, List.mem_append, or_imp, forall_and]
      exact and_congr (map_eq_self_iff f item) (mapItems_eq_self_iff f items)

theorem mapFields_eq_self_iff (f : φ → φ) :
    ∀ fields : List (Str × Json φ),
      mapFields f fields = fields ↔ ∀ x ∈ fieldFloats fields, f x = x
  | [] => by simp [mapFields, fieldFloats]
  | (key, value) :: fields => by
      simp only [mapFields, fieldFloats, List.cons.injEq, Prod.mk.injEq, true_and, List.mem_append,
        or_imp, forall_and]
      exact and_congr (map_eq_self_iff f value) (mapFields_eq_self_iff f fields)

end

/-! ### Nesting -/

mutual

/-- How deep the arrays and objects of a tree are nested. -/
def depth : Json φ → Nat
  | .arr items => itemsDepth items + 1
  | .obj fields => fieldsDepth fields + 1
  | .null | .bool _ | .int _ | .float _ | .str _ => 0

def itemsDepth : List (Json φ) → Nat
  | [] => 0
  | item :: items => max (depth item) (itemsDepth items)

def fieldsDepth : List (Str × Json φ) → Nat
  | [] => 0
  | (_, value) :: fields => max (depth value) (fieldsDepth fields)

end

/-- `remaining_depth` of a fresh `serde_json::Deserializer`: a text nested this deep is refused. -/
def recursionLimit : Nat := 128

mutual

/-- Printing and parsing leave the nesting alone. -/
theorem depth_map (f : φ → ψ) : ∀ tree : Json φ, (map f tree).depth = tree.depth
  | .null | .bool _ | .int _ | .float _ | .str _ => rfl
  | .arr items => by rw [map, depth, depth, itemsDepth_mapItems f items]
  | .obj fields => by rw [map, depth, depth, fieldsDepth_mapFields f fields]

theorem itemsDepth_mapItems (f : φ → ψ) :
    ∀ items : List (Json φ), itemsDepth (mapItems f items) = itemsDepth items
  | [] => rfl
  | item :: items => by
      rw [mapItems, itemsDepth, itemsDepth, depth_map f item, itemsDepth_mapItems f items]

theorem fieldsDepth_mapFields (f : φ → ψ) :
    ∀ fields : List (Str × Json φ), fieldsDepth (mapFields f fields) = fieldsDepth fields
  | [] => rfl
  | (key, value) :: fields => by
      rw [mapFields, fieldsDepth, fieldsDepth, depth_map f value, fieldsDepth_mapFields f fields]

end

/-- Members side by side are as deep as the deeper ones. -/
theorem fieldsDepth_append (fields others : List (Str × Json φ)) :
    fieldsDepth (fields ++ others) = max (fieldsDepth fields) (fieldsDepth others) := by
  induction fields with
  | nil => simp [fieldsDepth]
  | cons member fields ih => simp only [List.cons_append, fieldsDepth, ih, max_assoc]

/-- `serde_json::to_vec` on a value. -/
def print (codec : FloatCodec) (value : Value) : JsonText := value.map codec.print

/-- `serde_json::from_slice::<Value>` on a text without repeated keys. -/
def parse (codec : FloatCodec) (text : JsonText) : Value := text.map codec.parse

/-- A value printed and read back. -/
def reparse (codec : FloatCodec) (value : Value) : Value := parse codec (print codec value)

/-- Reading back a printed value returns it exactly when the codec returns each of its non-integer
numbers. -/
theorem reparse_eq_self_iff (codec : FloatCodec) (value : Value) :
    reparse codec value = value ↔ ∀ x ∈ value.floats, codec.parse (codec.print x) = x := by
  rw [reparse, parse, print, map_map]
  exact map_eq_self_iff _ _

/-! ### The length of compact text -/

/-- Bytes that one character takes inside a JSON string. -/
def escapedLength (c : Char) : Nat :=
  if c = '"' ∨ c = '\\' ∨ c = '\n' ∨ c = '\r' ∨ c = '\t' ∨ c.toNat = 8 ∨ c.toNat = 12 then 2
  else if c.toNat < 32 then 6
  else c.utf8Size

/-- Length of a quoted string. -/
def strSize (s : Str) : Nat := 2 + (s.map escapedLength).sum

/-- Length of an integer literal. -/
def intSize : Int → Nat
  | .ofNat n => (Nat.toDigits 10 n).length
  | .negSucc n => 1 + (Nat.toDigits 10 (n + 1)).length

mutual

/-- Byte length of the compact text `serde_json::to_vec` writes. -/
def size : JsonText → Nat
  | .null => 4
  | .bool true => 4
  | .bool false => 5
  | .int n => intSize n
  | .float literal => literal.length
  | .str s => strSize s
  | .arr items => 2 + itemsSize items
  | .obj fields => 2 + fieldsSize fields

/-- Items with the commas between them. -/
def itemsSize : List JsonText → Nat
  | [] => 0
  | [item] => size item
  | item :: other :: items => size item + 1 + itemsSize (other :: items)

/-- Members with their colons and the commas between them. -/
def fieldsSize : List (Str × JsonText) → Nat
  | [] => 0
  | [(key, value)] => strSize key + 1 + size value
  | (key, value) :: other :: fields =>
      strSize key + 1 + size value + 1 + fieldsSize (other :: fields)

end

/-! ### The length of indented text -/

mutual

/-- Byte length of the text `serde_json::to_vec_pretty` writes for a tree that stands at a given
depth: every item and every member on a line of its own, two spaces for each level. -/
def prettySize (depth : Nat) : JsonText → Nat
  | .arr [] => 2
  | .arr (item :: items) => 2 * depth + 2 + prettyItemsSize (depth + 1) (item :: items)
  | .obj [] => 2
  | .obj (member :: fields) => 2 * depth + 2 + prettyFieldsSize (depth + 1) (member :: fields)
  | .null => 4
  | .bool true => 4
  | .bool false => 5
  | .int n => intSize n
  | .float literal => literal.length
  | .str s => strSize s

/-- Items, each with the bracket or comma and the line break before it. -/
def prettyItemsSize (depth : Nat) : List JsonText → Nat
  | [] => 0
  | item :: items => 2 + 2 * depth + prettySize depth item + prettyItemsSize depth items

/-- Members, each with the brace or comma and the line break before it. -/
def prettyFieldsSize (depth : Nat) : List (Str × JsonText) → Nat
  | [] => 0
  | (key, value) :: fields =>
      2 + 2 * depth + strSize key + 2 + prettySize depth value + prettyFieldsSize depth fields

end

/-! ### Reading a struct out of a value -/

/-- The member of an object with a given key. -/
def field (name : Str) (fields : List (Str × Json φ)) : Option (Json φ) :=
  (fields.find? fun member => member.1 = name).map (·.2)

/-- The members a derived `Deserialize` reads: an object without unknown keys, or an array that
lists the fields in declaration order. -/
def structFields (names : List Str) : Json φ → Option (List (Str × Json φ))
  | .obj fields => if fields.all fun member => names.contains member.1 then some fields else none
  | .arr items => if items.length ≤ names.length then some (names.zip items) else none
  | _ => none

/-- `u16`. -/
def asU16 : Json φ → Option Nat
  | .int n => if 0 ≤ n ∧ n < 2 ^ 16 then some n.toNat else none
  | _ => none

/-- `i64`. -/
def asI64 : Json φ → Option I64
  | .int n => if range : -2 ^ 63 ≤ n ∧ n < 2 ^ 63 then some ⟨n, range⟩ else none
  | _ => none

/-- `String`. -/
def asStr : Json φ → Option Str
  | .str s => some s
  | _ => none

/-- `Option<String>` with `#[serde(default)]`: an absent or null member is `None`. -/
def asOptionalStr : Option (Json φ) → Option (Option Str)
  | none | some .null => some none
  | some (.str s) => some (some s)
  | some _ => none

/-- `Vec<T>`. -/
def asList {α : Type} (element : Json φ → Option α) : Json φ → Option (List α)
  | .arr items => items.mapM element
  | _ => none

end Json

/-! ### Lengths of numbers and digests -/

/-- A number of the range has at most twenty digits. -/
theorem length_toDigits_le {n : Nat} (bounded : n ≤ u64Max) : (Nat.toDigits 10 n).length ≤ 20 :=
  (Nat.length_toDigits_le_iff (by omega) (by omega)).mpr (by unfold u64Max at bounded; omega)

/-- The text of a number of the range is at most twenty characters long. -/
theorem intSize_nat_le {n : Nat} (bounded : n ≤ u64Max) : Json.intSize n ≤ 20 :=
  length_toDigits_le bounded

theorem intSize_i64_le (n : I64) : Json.intSize n.val ≤ 20 := by
  obtain ⟨n, low, high⟩ := n
  cases n with
  | ofNat n =>
      refine length_toDigits_le ?_
      rw [Int.ofNat_eq_natCast] at high
      unfold u64Max
      omega
  | negSucc n =>
      have short : (Nat.toDigits 10 (n + 1)).length ≤ 19 :=
        (Nat.length_toDigits_le_iff (by omega) (by omega)).mpr (by omega)
      simp only [Json.intSize]
      omega

/-- No number is written as nothing. -/
theorem intSize_pos (n : Int) : 1 ≤ Json.intSize n := by
  cases n with
  | ofNat n => exact Nat.length_toDigits_pos
  | negSucc n => simp only [Json.intSize]; omega

theorem escapedLength_lowerHex {c : Char} (hex : isLowerHex c = true) :
    Json.escapedLength c = 1 := by
  have range : 48 ≤ c.toNat ∧ c.toNat ≤ 102 ∧ c.toNat ≠ 92 := by
    simp only [isLowerHex, Char.isDigit, Bool.or_eq_true, Bool.and_eq_true, decide_eq_true_eq,
      ge_iff_le, UInt32.le_iff_toNat_le, Char.le_def] at hex
    change 48 ≤ c.val.toNat ∧ c.val.toNat ≤ 102 ∧ c.val.toNat ≠ 92
    have bounds : ('0').val.toNat = 48 ∧ ('9').val.toNat = 57 ∧ ('a').val.toNat = 97 ∧
        ('f').val.toNat = 102 := by decide
    omega
  have plain : ¬ (c = '"' ∨ c = '\\' ∨ c = '\n' ∨ c = '\r' ∨ c = '\t' ∨ c.toNat = 8 ∨
      c.toNat = 12) := by
    rintro (rfl | rfl | rfl | rfl | rfl | low | low)
    all_goals first | exact absurd range (by decide) | omega
  have ascii : c.val.toNat ≤ 127 := le_trans range.2.1 (by decide)
  rw [Json.escapedLength, if_neg plain, if_neg (by omega), Char.utf8Size]
  exact if_pos (UInt32.le_iff_toNat_le.mpr ascii)

/-- A digest is written in sixty-six characters, the quotes included. -/
theorem strSize_digest {value : Str} (valid : validDigest value = true) :
    Json.strSize value = 66 := by
  simp only [validDigest, Bool.and_eq_true, beq_iff_eq, List.all_eq_true] at valid
  have ones : value.map Json.escapedLength = value.map fun _ => 1 :=
    List.map_congr_left fun c inside => escapedLength_lowerHex (valid.2 c inside)
  rw [Json.strSize, ones, List.map_const', List.sum_replicate, valid.1]
  rfl

end TeslatlasEdge
