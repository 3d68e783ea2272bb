/-
Module: TeslatlasEdge.Canonical
Purpose: JSON trees up to the order of object members: an object is read as a map from keys to
  values.  Documents that repeat no key have one such reading, and a tree whose members stand in
  key order is the one representative of it that `serde_json` holds.
Trusted boundary: none
Main exports: Canon, Json.canonical, Json.NoRepeats, Json.InKeyOrder, canonical_orderedInsert
-/
import TeslatlasEdge.Json

namespace TeslatlasEdge

/-- A JSON tree with objects as maps and numbers of type `ν`. -/
inductive Canon (ν : Type) where
  | null
  | bool (value : Bool)
  | number (value : ν)
  | str (value : Str)
  | arr (items : List (Canon ν))
  | obj (members : Str → Option (Canon ν))

namespace Json

variable {φ ψ ν : Type}

mutual

/-- A tree with its objects read as maps and its numbers through `number`.  Of members with one
key the first counts. -/
def canonical (number : Int ⊕ φ → ν) : Json φ → Canon ν
  | .null => .null
  | .bool b => .bool b
  | .int n => .number (number (.inl n))
  | .float x => .number (number (.inr x))
  | .str s => .str s
  | .arr items => .arr (canonicalItems number items)
  | .obj fields => .obj (canonicalFields number fields)

def canonicalItems (number : Int ⊕ φ → ν) : List (Json φ) → List (Canon ν)
  | [] => []
  | item :: items => canonical number item :: canonicalItems number items

def canonicalFields (number : Int ⊕ φ → ν) : List (Str × Json φ) → Str → Option (Canon ν)
  | [], _ => none
  | (name, value) :: fields, key =>
      if key = name then some (canonical number value) else canonicalFields number fields key

end

mutual

/-- No object of the tree holds a key twice. -/
def NoRepeats : Json φ → Prop
  | .arr items => ItemsNoRepeats items
  | .obj fields => FieldsNoRepeats fields
  | .null | .bool _ | .int _ | .float _ | .str _ => True

def ItemsNoRepeats : List (Json φ) → Prop
  | [] => True
  | item :: items => NoRepeats item ∧ ItemsNoRepeats items

def FieldsNoRepeats : List (Str × Json φ) → Prop
  | [] => True
  | (key, value) :: fields =>
      key ∉ fields.map (·.1) ∧ NoRepeats value ∧ FieldsNoRepeats fields

end

mutual

/-- The members of every object of the tree stand in strictly ascending order of their keys. -/
def InKeyOrder : Json φ → Prop
  | .arr items => ItemsInKeyOrder items
  | .obj fields => FieldsInKeyOrder fields
  | .null | .bool _ | .int _ | .float _ | .str _ => True

def ItemsInKeyOrder : List (Json φ) → Prop
  | [] => True
  | item :: items => InKeyOrder item ∧ ItemsInKeyOrder items

def FieldsInKeyOrder : List (Str × Json φ) → Prop
  | [] => True
  | (key, value) :: fields =>
      (∀ other ∈ fields.map (·.1), key < other) ∧ InKeyOrder value ∧ FieldsInKeyOrder fields

end

/-! ### Members by key -/

/-- The first member under a key is the one that counts. -/
theorem canonicalFields_append (number : Int ⊕ φ → ν) (front back : List (Str × Json φ))
    (key : Str) :
    canonicalFields number (front ++ back) key =
      (canonicalFields number front key).or (canonicalFields number back key) := by
  induction front with
  | nil => rfl
  | cons member front ih =>
      obtain ⟨name, value⟩ := member
      rw [List.cons_append, canonicalFields, canonicalFields]
      by_cases here : key = name
      · rw [if_pos here, if_pos here]
        rfl
      · rw [if_neg here, if_neg here]
        exact ih

/-! ### Inserting a member in key order -/

/-- Inserting a member adds its key. -/
theorem mem_keys_orderedInsert {key name : Str} {value : Json φ} {fields : List (Str × Json φ)} :
    name ∈ (List.orderedInsert (fun a b => a.1 ≤ b.1) (key, value) fields).map (·.1) ↔
      name = key ∨ name ∈ fields.map (·.1) := by
  have same := (List.perm_orderedInsert (fun a b : Str × Json φ => a.1 ≤ b.1)
    (key, value) fields).map (·.1)
  rw [same.mem_iff, List.map_cons, List.mem_cons]

/-- Where a new member is inserted makes no difference to the map. -/
theorem canonical_orderedInsert (number : Int ⊕ φ → ν) {key : Str} {value : Json φ}
    {fields : List (Str × Json φ)} (fresh : key ∉ fields.map (·.1)) :
    canonicalFields number (List.orderedInsert (fun a b => a.1 ≤ b.1) (key, value) fields) =
      canonicalFields number ((key, value) :: fields) := by
  induction fields with
  | nil => rfl
  | cons member fields ih =>
      obtain ⟨other, item⟩ := member
      simp only [List.map_cons, List.mem_cons, not_or] at fresh
      rw [List.orderedInsert_cons]
      split
      · rfl
      · funext name
        simp only [canonicalFields, ih fresh.2]
        by_cases first : name = other
        · have second : name ≠ key := fun same => fresh.1 (same.symm.trans first)
          rw [if_pos first, if_neg second, if_pos first]
        · rw [if_neg first, if_neg first]

/-- Inserting a member under a fresh key keeps the order. -/
theorem inKeyOrder_orderedInsert {key : Str} {value : Json φ} {fields : List (Str × Json φ)}
    (ordered : FieldsInKeyOrder fields) (item : InKeyOrder value)
    (fresh : key ∉ fields.map (·.1)) :
    FieldsInKeyOrder (List.orderedInsert (fun a b => a.1 ≤ b.1) (key, value) fields) := by
  induction fields with
  | nil => exact ⟨fun _ inside => absurd inside List.not_mem_nil, item, trivial⟩
  | cons member fields ih =>
      obtain ⟨other, otherItem⟩ := member
      simp only [List.map_cons, List.mem_cons, not_or] at fresh
      obtain ⟨first, here, rest⟩ := ordered
      rw [List.orderedInsert_cons]
      split
      · rename_i before
        have less : key < other := lt_of_le_of_ne before fresh.1
        refine ⟨?_, item, first, here, rest⟩
        intro name inside
        rcases List.mem_cons.mp inside with rfl | later
        · exact less
        · exact less.trans (first name later)
      · rename_i after
        refine ⟨?_, here, ih rest fresh.2⟩
        intro name inside
        rcases mem_keys_orderedInsert.mp inside with rfl | later
        · exact lt_of_not_ge after
        · exact first name later

end Json

end TeslatlasEdge
