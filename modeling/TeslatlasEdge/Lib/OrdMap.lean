/-
Module: TeslatlasEdge.Lib.OrdMap
Purpose: Finite maps whose entries are kept in strictly increasing key order, over Mathlib's
  association lists.  Iteration follows the key order, and two maps with the same lookups are equal.
Trusted boundary: none
Main exports: OrdMap, OrdMap.get?, OrdMap.insert, OrdMap.erase, OrdMap.filter, OrdMap.values,
  OrdMap.sumOf, OrdMap.ext_get?
-/
import Mathlib

namespace TeslatlasEdge.Lib

/-- An ordered map: an association list whose keys strictly increase. -/
structure OrdMap (κ ν : Type) [LinearOrder κ] where
  toAList : AList (fun _ : κ => ν)
  sorted : toAList.entries.Pairwise (fun a b => a.1 < b.1)

namespace OrdMap

variable {κ ν : Type} [LinearOrder κ]

def empty : OrdMap κ ν := ⟨∅, List.Pairwise.nil⟩

instance : Inhabited (OrdMap κ ν) := ⟨empty⟩

def toList (m : OrdMap κ ν) : List (Σ _ : κ, ν) := m.toAList.entries

def get? (m : OrdMap κ ν) (k : κ) : Option ν := m.toAList.lookup k

def contains (m : OrdMap κ ν) (k : κ) : Bool := (m.get? k).isSome

def keys (m : OrdMap κ ν) : List κ := m.toAList.keys

/-- The values in key order. -/
def values (m : OrdMap κ ν) : List ν := m.toList.map (·.2)

def size (m : OrdMap κ ν) : Nat := m.toList.length

def isEmpty (m : OrdMap κ ν) : Bool := m.toList.isEmpty

private theorem pairwise_lt_of_le {l : List (Σ _ : κ, ν)}
    (ordered : l.Pairwise (fun a b => a.1 ≤ b.1)) (distinct : l.NodupKeys) :
    l.Pairwise (fun a b => a.1 < b.1) := by
  have both := ordered.and (List.nodupKeys_iff_pairwise.mp distinct)
  exact both.imp fun step => lt_of_le_of_ne step.1 step.2

private theorem keysLe_total : Std.Total (fun a b : (Σ _ : κ, ν) => a.1 ≤ b.1) :=
  ⟨fun a b => le_total a.1 b.1⟩

private theorem keysLe_trans : IsTrans (Σ _ : κ, ν) (fun a b => a.1 ≤ b.1) :=
  ⟨fun _ _ _ first second => le_trans first second⟩

/-- Insert or replace. -/
def insert (m : OrdMap κ ν) (k : κ) (v : ν) : OrdMap κ ν where
  toAList :=
    { entries := List.orderedInsert (fun a b => a.1 ≤ b.1) ⟨k, v⟩ (m.toAList.erase k).entries
      nodupKeys := by
        rw [List.perm_nodupKeys (List.perm_orderedInsert _ _ _)]
        exact (m.toAList.insert k v).nodupKeys }
  sorted := by
    have strict : (m.toAList.erase k).entries.Pairwise (fun a b => a.1 < b.1) :=
      m.sorted.sublist (List.kerase_sublist k _)
    have := keysLe_total (κ := κ) (ν := ν)
    have := keysLe_trans (κ := κ) (ν := ν)
    refine pairwise_lt_of_le ((strict.imp le_of_lt).orderedInsert _ _) ?_
    rw [List.perm_nodupKeys (List.perm_orderedInsert _ _ _)]
    exact (m.toAList.insert k v).nodupKeys

def erase (m : OrdMap κ ν) (k : κ) : OrdMap κ ν where
  toAList := m.toAList.erase k
  sorted := m.sorted.sublist (List.kerase_sublist k _)

/-- Keep the entries that satisfy a test on key and value. -/
def filter (m : OrdMap κ ν) (keep : κ → ν → Bool) : OrdMap κ ν where
  toAList :=
    { entries := m.toList.filter fun p => keep p.1 p.2
      nodupKeys := m.toAList.nodupKeys.sublist List.filter_sublist }
  sorted := m.sorted.sublist List.filter_sublist

/-- The sum of a measure over the values. -/
def sumOf (m : OrdMap κ ν) (f : ν → Nat) : Nat := (m.values.map f).sum

/-! ### Lookups -/

theorem mem_toList_iff {m : OrdMap κ ν} {k : κ} {v : ν} :
    (⟨k, v⟩ : Σ _ : κ, ν) ∈ m.toList ↔ m.get? k = some v := by
  rw [get?, toList, ← AList.mem_lookup_iff]
  rfl

theorem get?_empty (k : κ) : (empty : OrdMap κ ν).get? k = none := rfl

/-- Inserting puts the new entry beside the entries under other keys. -/
theorem insert_perm (m : OrdMap κ ν) (k : κ) (v : ν) :
    (m.insert k v).toList.Perm (⟨k, v⟩ :: (m.erase k).toList) :=
  List.perm_orderedInsert _ _ _

/-- Inserting changes what is found under the key, and nothing else. -/
theorem get?_insert (m : OrdMap κ ν) (k k' : κ) (v : ν) :
    (m.insert k v).get? k' = if k' = k then some v else m.get? k' := by
  have same : (m.insert k v).get? k' = (m.toAList.insert k v).lookup k' :=
    AList.perm_lookup (insert_perm m k v)
  rw [same]
  split
  · subst k'
    exact AList.lookup_insert _
  · exact AList.lookup_insert_ne ‹_›

/-- Erasing leaves nothing under the key, and everything else. -/
theorem get?_erase (m : OrdMap κ ν) (k k' : κ) :
    (m.erase k).get? k' = if k' = k then none else m.get? k' := by
  split
  · subst k'
    exact AList.lookup_erase _ _
  · exact AList.lookup_erase_ne ‹_›

theorem get?_of_get?_erase {m : OrdMap κ ν} {k k' : κ} {v : ν}
    (found : (m.erase k).get? k' = some v) : m.get? k' = some v := by
  rw [get?_erase] at found
  split at found
  · cases found
  · exact found

/-- Filtering keeps an entry, or drops it, by its key and value. -/
theorem get?_filter (m : OrdMap κ ν) (keep : κ → ν → Bool) (k : κ) :
    (m.filter keep).get? k = (m.get? k).filter (keep k) := by
  apply Option.ext
  intro v
  have inFilter : (⟨k, v⟩ : Σ _ : κ, ν) ∈ (m.filter keep).toList ↔
      (⟨k, v⟩ : Σ _ : κ, ν) ∈ m.toList ∧ keep k v = true := List.mem_filter
  rw [mem_toList_iff, mem_toList_iff] at inFilter
  rw [inFilter, Option.filter_eq_some_iff]

/-- Maps with the same lookups are equal: both are sorted lists of the same entries. -/
theorem ext_get? {m n : OrdMap κ ν} (same : ∀ k, m.get? k = n.get? k) : m = n := by
  have perm : m.toAList.entries.Perm n.toAList.entries :=
    List.lookup_ext m.toAList.nodupKeys n.toAList.nodupKeys fun k v => by
      have := same k
      simp only [get?, AList.lookup] at this
      rw [this]
  have entries : m.toAList.entries = n.toAList.entries :=
    perm.eq_of_pairwise (fun a b _ _ ab ba => absurd ab (not_lt.mpr ba.le)) m.sorted n.sorted
  cases m
  cases n
  congr
  exact AList.ext entries

theorem contains_iff {m : OrdMap κ ν} {k : κ} : m.contains k = true ↔ ∃ v, m.get? k = some v := by
  rw [contains, Option.isSome_iff_exists]

theorem contains_eq_false_iff {m : OrdMap κ ν} {k : κ} :
    m.contains k = false ↔ m.get? k = none := by
  rw [contains, Option.isSome_eq_false_iff, Option.isNone_iff_eq_none]

theorem mem_keys_iff {m : OrdMap κ ν} {k : κ} : k ∈ m.keys ↔ ∃ v, m.get? k = some v := by
  rw [keys, ← AList.mem_keys, ← AList.lookup_isSome, Option.isSome_iff_exists]
  rfl

/-- The values are what is found under some key. -/
theorem mem_values_iff {m : OrdMap κ ν} {v : ν} : v ∈ m.values ↔ ∃ k, m.get? k = some v := by
  simp only [values, List.mem_map, Sigma.exists, mem_toList_iff]
  constructor
  · rintro ⟨k, v', found, rfl⟩
    exact ⟨k, found⟩
  · rintro ⟨k, found⟩
    exact ⟨k, v, found, rfl⟩

/-- The values stand in key order. -/
theorem values_pairwise {m : OrdMap κ ν} {R : ν → ν → Prop}
    (related : ∀ k v k' v', m.get? k = some v → m.get? k' = some v' → k < k' → R v v') :
    m.values.Pairwise R := by
  rw [values, List.pairwise_map]
  refine m.sorted.imp_of_mem ?_
  rintro ⟨k, v⟩ ⟨k', v'⟩ inside inside' before
  exact related k v k' v' (mem_toList_iff.mp inside) (mem_toList_iff.mp inside') before

theorem isEmpty_iff {m : OrdMap κ ν} : m.isEmpty = true ↔ ∀ k, m.get? k = none := by
  rw [isEmpty, List.isEmpty_iff, List.eq_nil_iff_forall_not_mem]
  constructor
  · intro none k
    rw [Option.eq_none_iff_forall_not_mem]
    intro v found
    exact none _ (mem_toList_iff.mpr found)
  · rintro none ⟨k, v⟩ inside
    rw [mem_toList_iff, none] at inside
    cases inside

/-- Erasing a key that is not there changes nothing. -/
theorem erase_of_get?_none {m : OrdMap κ ν} {k : κ} (absent : m.get? k = none) :
    m.erase k = m := by
  apply ext_get?
  intro k'
  rw [get?_erase]
  split
  · subst k'
    exact absent.symm
  · rfl

/-! ### Sizes and sums -/

/-- A present key splits the entries into that entry and the rest. -/
theorem toList_perm_of_get? {m : OrdMap κ ν} {k : κ} {v : ν} (found : m.get? k = some v) :
    m.toList.Perm (⟨k, v⟩ :: (m.erase k).toList) := by
  have here : k ∈ m.toAList.entries.keys := by
    rw [List.mem_keys]
    exact ⟨v, mem_toList_iff.mpr found⟩
  obtain ⟨v', before, after, -, split, erased⟩ := List.exists_of_kerase here
  have same : v' = v := by
    have inside : (⟨k, v'⟩ : Σ _ : κ, ν) ∈ m.toList := by
      rw [toList, split]
      simp
    rw [mem_toList_iff, found] at inside
    exact (Option.some.inj inside).symm
  subst same
  rw [toList, split]
  change List.Perm _ (_ :: List.kerase k m.toAList.entries)
  rw [erased]
  exact List.perm_middle

/-- A new key makes a map larger by one. -/
theorem size_insert_of_get?_none {m : OrdMap κ ν} {k : κ} (v : ν) (absent : m.get? k = none) :
    (m.insert k v).size = m.size + 1 := by
  have perm := (insert_perm m k v).length_eq
  rw [erase_of_get?_none absent] at perm
  exact perm

/-- Erasing a key that is there makes a map smaller by one. -/
theorem size_erase_of_get? {m : OrdMap κ ν} {k : κ} {v : ν} (found : m.get? k = some v) :
    (m.erase k).size + 1 = m.size :=
  (toList_perm_of_get? found).length_eq.symm

/-- Erasing makes no map larger. -/
theorem size_erase_le (m : OrdMap κ ν) (k : κ) : (m.erase k).size ≤ m.size := by
  cases found : m.get? k with
  | none => rw [erase_of_get?_none found]
  | some v =>
      have smaller := size_erase_of_get? found
      omega

/-- Inserting makes a map larger by one at most. -/
theorem size_insert_le (m : OrdMap κ ν) (k : κ) (v : ν) : (m.insert k v).size ≤ m.size + 1 := by
  have perm : (m.insert k v).size = (m.erase k).size + 1 := (insert_perm m k v).length_eq
  have smaller := m.size_erase_le k
  omega

/-- A map that extends another without being larger is the same map. -/
theorem eq_of_size_le {m n : OrdMap κ ν} (extends_ : ∀ k v, m.get? k = some v → n.get? k = some v)
    (small : n.size ≤ m.size) : n = m := by
  have sublist : m.toList.Subperm n.toList := by
    apply List.subperm_of_subset
    · exact m.toAList.nodupKeys.nodup
    · rintro ⟨k, v⟩ inside
      exact mem_toList_iff.mpr (extends_ k v (mem_toList_iff.mp inside))
  have perm : m.toList.Perm n.toList := sublist.perm_of_length_le small
  apply ext_get?
  intro k
  exact (AList.perm_lookup perm).symm

theorem values_insert_perm {m : OrdMap κ ν} {k : κ} (v : ν) (absent : m.get? k = none) :
    (m.insert k v).values.Perm (v :: m.values) := by
  have perm := (insert_perm m k v).map (fun p => p.2)
  rwa [erase_of_get?_none absent, List.map_cons] at perm

theorem values_perm_of_get? {m : OrdMap κ ν} {k : κ} {v : ν} (found : m.get? k = some v) :
    m.values.Perm (v :: (m.erase k).values) := by
  have perm := (toList_perm_of_get? found).map (fun p => p.2)
  rwa [List.map_cons] at perm

/-- A new entry adds its share to a sum. -/
theorem sumOf_insert_of_get?_none {m : OrdMap κ ν} {k : κ} (v : ν) (f : ν → Nat)
    (absent : m.get? k = none) : (m.insert k v).sumOf f = m.sumOf f + f v := by
  have perm := ((insert_perm m k v).map (fun p => f p.2)).sum_eq
  rw [erase_of_get?_none absent, List.map_cons, List.sum_cons] at perm
  simp only [sumOf, values, List.map_map]
  rw [Nat.add_comm]
  exact perm

/-- Erasing an entry takes its share from a sum. -/
theorem sumOf_erase_of_get? {m : OrdMap κ ν} {k : κ} {v : ν} (f : ν → Nat)
    (found : m.get? k = some v) : (m.erase k).sumOf f + f v = m.sumOf f := by
  have perm := ((toList_perm_of_get? found).map (fun p => f p.2)).sum_eq
  rw [List.map_cons, List.sum_cons] at perm
  simp only [sumOf, values, List.map_map]
  rw [Nat.add_comm]
  exact perm.symm

end OrdMap

end TeslatlasEdge.Lib
