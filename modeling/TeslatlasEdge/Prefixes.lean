/-
Module: TeslatlasEdge.Prefixes
Purpose: Which acknowledgements match a batch: those that name, each once, the identities of the
  first items of the batch in sequence order.
Trusted boundary: none
Main exports: HubBatchV2.front, HubAckV2.Names, HubAckV2.fits_iff
-/
import TeslatlasEdge.Delivery

namespace TeslatlasEdge

open Lib

/-- The first items of the batch in sequence order. -/
def HubBatchV2.front (batch : HubBatchV2) (k : Nat) : List MergedItem :=
  (mergedItems batch.records batch.gaps).take k

/-- The acknowledgement accepts the first `k` items of the batch and no other. -/
structure HubAckV2.Names (ack : HubAckV2) (batch : HubBatchV2) (k : Nat) : Prop where
  records : ∀ id, id ∈ ack.acceptedRecordIds ↔
    ∃ item ∈ batch.front k, item.isRecord = true ∧ item.id = id
  gaps : ∀ id, id ∈ ack.acceptedGapNoticeIds ↔
    ∃ item ∈ batch.front k, item.isRecord = false ∧ item.id = id

/-! ### Merged items -/

section Merged

variable {records : List HubBatchRecordV2} {gaps : List GapNoticeV2}

/-- The merged items are the records and the gaps. -/
theorem mergedItems_perm :
    (mergedItems records gaps).Perm
      (records.map (fun record => ⟨record.spoolSeq, true, record.recordId⟩) ++
        gaps.map fun gap => ⟨gap.spoolSeq, false, gap.noticeId⟩) :=
  List.perm_insertionSort _ _

/-- There are as many of them as of both. -/
theorem length_mergedItems : (mergedItems records gaps).length = records.length + gaps.length := by
  rw [mergedItems_perm.length_eq, List.length_append, List.length_map, List.length_map]

/-- A merged item is a record or a gap of the batch. -/
theorem mem_mergedItems {item : MergedItem} :
    item ∈ mergedItems records gaps ↔
      (∃ record ∈ records, item = ⟨record.spoolSeq, true, record.recordId⟩) ∨
        ∃ gap ∈ gaps, item = ⟨gap.spoolSeq, false, gap.noticeId⟩ := by
  rw [mergedItems_perm.mem_iff, List.mem_append, List.mem_map, List.mem_map]
  simp only [eq_comm]

/-- No two items of a batch have one kind and one identity. -/
theorem HubBatchV2.Distinct.tagged {batch : HubBatchV2} (distinct : batch.Distinct) :
    ((mergedItems batch.records batch.gaps).map fun item => (item.isRecord, item.id)).Nodup := by
  refine (mergedItems_perm.map _).nodup_iff.mpr ?_
  rw [List.map_append, List.map_map, List.map_map, List.nodup_append]
  refine ⟨?_, ?_, ?_⟩
  · have records := distinct.recordIds.map (f := fun id => (true, id))
      fun _ _ same => (Prod.mk.inj same).2
    rwa [List.map_map] at records
  · have gaps := distinct.noticeIds.map (f := fun id => (false, id))
      fun _ _ same => (Prod.mk.inj same).2
    rwa [List.map_map] at gaps
  · intro a inside b inside' same
    obtain ⟨record, -, rfl⟩ := List.mem_map.mp inside
    obtain ⟨gap, -, rfl⟩ := List.mem_map.mp inside'
    cases same

/-- The identities of one kind in a front are as many as its items of that kind. -/
theorem HubBatchV2.Distinct.kind {batch : HubBatchV2} (distinct : batch.Distinct) (k : Nat)
    (kind : Bool) :
    (((batch.front k).filter fun item => item.isRecord = kind).map (·.id)).Nodup := by
  have sub : ((batch.front k).filter fun item => item.isRecord = kind).Sublist
      (mergedItems batch.records batch.gaps) :=
    List.filter_sublist.trans (List.take_sublist _ _)
  have tagged := distinct.tagged.sublist (sub.map _)
  refine List.pairwise_map.mpr ((List.pairwise_map.mp tagged).imp_of_mem ?_)
  intro a b inside inside' different same
  have mine := (List.mem_filter.mp inside).2
  have yours := (List.mem_filter.mp inside').2
  simp only [decide_eq_true_eq] at mine yours
  exact different (Prod.ext (mine.trans yours.symm) same)

/-- The identities of one kind in a front are those of its items of that kind. -/
theorem mem_front_kind {batch : HubBatchV2} {k : Nat} {kind : Bool} {id : RecordId} :
    id ∈ ((batch.front k).filter fun item => item.isRecord = kind).map (·.id) ↔
      ∃ item ∈ batch.front k, item.isRecord = kind ∧ item.id = id := by
  simp only [List.mem_map, List.mem_filter, decide_eq_true_eq, and_assoc]

theorem length_front_kinds (items : List MergedItem) :
    (items.filter fun item => item.isRecord = true).length +
      (items.filter fun item => item.isRecord = false).length = items.length := by
  induction items with
  | nil => rfl
  | cons item rest ih =>
      cases kind : item.isRecord <;> simp [kind] at ih ⊢ <;> omega

end Merged

/-! ### The loop over the merged items -/

section Loop

variable {accepted : MergedItem → Bool} {items : List MergedItem}

/-- Once an item is passed over, a match needs that nothing later is accepted. -/
theorem matchPrefix_after_gap {matched : Nat} {result : Nat} :
    matchPrefix accepted items matched true = some result ↔
      (∀ item ∈ items, accepted item = false) ∧ result = matched := by
  induction items with
  | nil =>
      change some matched = some result ↔ _
      rw [Option.some.injEq, eq_comm]
      exact ⟨fun same => ⟨fun _ none => absurd none List.not_mem_nil, same⟩, And.right⟩
  | cons item rest ih =>
      cases taken : accepted item with
      | true => simp [matchPrefix, taken]
      | false => simp [matchPrefix, taken, ih]

/-- The loop finds a result when the accepted items come first, and then it is their number. -/
theorem matchPrefix_eq_some {matched : Nat} {result : Nat}
    (small : matched + items.length ≤ u64Max) :
    matchPrefix accepted items matched false = some result ↔
      ∃ k ≤ items.length, (∀ item ∈ items.take k, accepted item = true) ∧
        (∀ item ∈ items.drop k, accepted item = false) ∧ result = matched + k := by
  induction items generalizing matched with
  | nil =>
      change some matched = some result ↔ _
      simp only [List.length_nil, Nat.le_zero, List.take_nil, List.drop_nil, List.not_mem_nil,
        false_imp_iff, implies_true, true_and, exists_eq_left, Nat.add_zero, Option.some.injEq]
      exact eq_comm
  | cons item rest ih =>
      rw [List.length_cons] at small
      cases taken : accepted item with
      | true =>
          have counted : saturatingAdd matched 1 = matched + 1 := by
            unfold saturatingAdd
            omega
          simp only [matchPrefix, taken, if_true, Bool.false_eq_true, if_false, counted]
          rw [ih (by omega)]
          constructor
          · rintro ⟨k, inside, front, behind, rfl⟩
            refine ⟨k + 1, by simpa using inside, ?_, behind, by omega⟩
            rw [List.take_succ_cons, List.forall_mem_cons]
            exact ⟨taken, front⟩
          · rintro ⟨k, inside, front, behind, rfl⟩
            cases k with
            | zero =>
                have refused := behind item (by simp)
                rw [taken] at refused
                cases refused
            | succ k =>
                rw [List.take_succ_cons, List.forall_mem_cons] at front
                exact ⟨k, by simpa using inside, front.2, behind, by omega⟩
      | false =>
          simp only [matchPrefix, taken, if_false, Bool.false_eq_true]
          rw [matchPrefix_after_gap]
          constructor
          · rintro ⟨none, rfl⟩
            refine ⟨0, by omega, by simp, ?_, by omega⟩
            rw [List.drop_zero, List.forall_mem_cons]
            exact ⟨taken, none⟩
          · rintro ⟨k, -, front, behind, rfl⟩
            cases k with
            | zero =>
                rw [List.drop_zero, List.forall_mem_cons] at behind
                exact ⟨behind.2, by omega⟩
            | succ k =>
                have first := front item (by simp)
                rw [taken] at first
                cases first

end Loop

/-! ### Acknowledgements -/

section Acknowledgements

variable {ack : HubAckV2} {batch : HubBatchV2}

/-- Identities listed once each are as many as the items they belong to. -/
theorem HubBatchV2.Distinct.length_kind (distinct : batch.Distinct) {k : Nat} {kind : Bool}
    {ids : List RecordId} (nodup : ids.Nodup)
    (same : ∀ id, id ∈ ids ↔ ∃ item ∈ batch.front k, item.isRecord = kind ∧ item.id = id) :
    ids.length = ((batch.front k).filter fun item => item.isRecord = kind).length := by
  have perm := (List.perm_ext_iff_of_nodup nodup (distinct.kind k kind)).mpr fun id =>
    (same id).trans mem_front_kind.symm
  rw [perm.length_eq, List.length_map]

theorem HubAckV2.accepts_record {item : MergedItem} (kind : item.isRecord = true) :
    ack.accepts item = true ↔ item.id ∈ ack.acceptedRecordIds := by
  rw [HubAckV2.accepts, if_pos kind, List.contains_iff_mem]

theorem HubAckV2.accepts_gap {item : MergedItem} (kind : item.isRecord = false) :
    ack.accepts item = true ↔ item.id ∈ ack.acceptedGapNoticeIds := by
  rw [HubAckV2.accepts, if_neg (by rw [kind]; exact Bool.false_ne_true), List.contains_iff_mem]

/-- What the checks against the batch come to, apart from its identity. -/
def HubAckV2.Covers (ack : HubAckV2) (batch : HubBatchV2) : Prop :=
  (∀ id ∈ ack.acceptedRecordIds, ∃ record ∈ batch.records, record.recordId = id) ∧
    (∀ id ∈ ack.acceptedGapNoticeIds, ∃ gap ∈ batch.gaps, gap.noticeId = id) ∧
    v2AckIsMergedPrefix batch ack = true

/-- Accepting just the front of a batch names the front. -/
theorem HubAckV2.Names.of_accepts {k : Nat}
    (records : ∀ id ∈ ack.acceptedRecordIds, ∃ record ∈ batch.records, record.recordId = id)
    (gaps : ∀ id ∈ ack.acceptedGapNoticeIds, ∃ gap ∈ batch.gaps, gap.noticeId = id)
    (front : ∀ item ∈ batch.front k, ack.accepts item = true)
    (behind : ∀ item ∈ (mergedItems batch.records batch.gaps).drop k,
      ack.accepts item = false) : ack.Names batch k := by
  have placed : ∀ item ∈ mergedItems batch.records batch.gaps, ack.accepts item = true →
      item ∈ batch.front k := by
    intro item inside accepted
    rw [← List.take_append_drop k (mergedItems batch.records batch.gaps), List.mem_append] at inside
    rcases inside with here | later
    · exact here
    · rw [behind item later] at accepted
      cases accepted
  refine ⟨fun id => ⟨fun listed => ?_, ?_⟩, fun id => ⟨fun listed => ?_, ?_⟩⟩
  · obtain ⟨record, inside, rfl⟩ := records id listed
    exact ⟨_, placed _ (mem_mergedItems.mpr (.inl ⟨record, inside, rfl⟩))
      ((accepts_record rfl).mpr listed), rfl, rfl⟩
  · rintro ⟨item, inside, kind, rfl⟩
    exact (accepts_record kind).mp (front item inside)
  · obtain ⟨gap, inside, rfl⟩ := gaps id listed
    exact ⟨_, placed _ (mem_mergedItems.mpr (.inr ⟨gap, inside, rfl⟩))
      ((accepts_gap rfl).mpr listed), rfl, rfl⟩
  · rintro ⟨item, inside, kind, rfl⟩
    exact (accepts_gap kind).mp (front item inside)

/-- An acknowledgement that names the front of a batch accepts the front and nothing behind. -/
theorem HubAckV2.Names.accepts {k : Nat} (names : ack.Names batch k) (distinct : batch.Distinct) :
    (∀ item ∈ batch.front k, ack.accepts item = true) ∧
      ∀ item ∈ (mergedItems batch.records batch.gaps).drop k, ack.accepts item = false := by
  have front : ∀ item, ack.accepts item = true ↔
      ∃ other ∈ batch.front k, other.isRecord = item.isRecord ∧ other.id = item.id := by
    intro item
    cases kind : item.isRecord with
    | true => exact (accepts_record kind).trans (names.records _)
    | false => exact (accepts_gap kind).trans (names.gaps _)
  refine ⟨fun item inside => (front item).mpr ⟨item, inside, rfl, rfl⟩, fun item inside => ?_⟩
  rw [Bool.eq_false_iff]
  intro accepted
  obtain ⟨other, there, kind, id⟩ := (front item).mp accepted
  have tagged := distinct.tagged
  rw [← List.take_append_drop k (mergedItems batch.records batch.gaps), List.map_append,
    List.nodup_append] at tagged
  exact tagged.2.2 _ (List.mem_map_of_mem there) _ (List.mem_map_of_mem inside)
    (Prod.ext kind id)

/-- An acknowledgement covers a batch exactly when it names a front of it. -/
theorem HubAckV2.covers_iff (distinct : batch.Distinct)
    (small : batch.records.length + batch.gaps.length ≤ u64Max)
    (records : ack.acceptedRecordIds.Nodup) (gaps : ack.acceptedGapNoticeIds.Nodup) :
    ack.Covers batch ↔ ∃ k, ack.Names batch k := by
  have bounded : 0 + (mergedItems batch.records batch.gaps).length ≤ u64Max := by
    rw [length_mergedItems]
    omega
  constructor
  · rintro ⟨known, noticed, matching⟩
    unfold v2AckIsMergedPrefix at matching
    split at matching
    · cases matching
    · rename_i result found
      obtain ⟨k, -, front, behind, -⟩ := (matchPrefix_eq_some bounded).mp found
      exact ⟨k, .of_accepts known noticed front behind⟩
  · rintro ⟨k, names⟩
    refine ⟨fun id listed => ?_, fun id listed => ?_, ?_⟩
    · obtain ⟨item, inside, kind, rfl⟩ := (names.records id).mp listed
      rcases mem_mergedItems.mp (List.mem_of_mem_take inside) with
        ⟨record, there, rfl⟩ | ⟨gap, there, rfl⟩
      · exact ⟨record, there, rfl⟩
      · cases kind
    · obtain ⟨item, inside, kind, rfl⟩ := (names.gaps id).mp listed
      rcases mem_mergedItems.mp (List.mem_of_mem_take inside) with
        ⟨record, there, rfl⟩ | ⟨gap, there, rfl⟩
      · cases kind
      · exact ⟨gap, there, rfl⟩
    · rw [v2AckIsMergedPrefix]
      obtain ⟨front, behind⟩ := names.accepts distinct
      -- the number of accepted items is that of the identities
      have total := length_front_kinds (batch.front k)
      rw [← distinct.length_kind records names.records, ← distinct.length_kind gaps names.gaps,
        HubBatchV2.front, List.length_take] at total
      rw [HubBatchV2.front] at front
      generalize mergedItems batch.records batch.gaps = items at bounded front behind total ⊢
      have found : matchPrefix ack.accepts items 0 false = some (0 + min k items.length) := by
        refine (matchPrefix_eq_some bounded).mpr ⟨min k items.length, min_le_right _ _, ?_, ?_, rfl⟩
        · rwa [List.take_eq_take_min] at front
        · rcases le_total k items.length with inside | beyond
          · rwa [min_eq_left inside]
          · rw [min_eq_right beyond, List.drop_length]
            exact fun _ none => absurd none List.not_mem_nil
      rw [found]
      simp only [List.dedup_eq_self.mpr records, List.dedup_eq_self.mpr gaps, saturatingAdd,
        decide_eq_true_eq]
      omega

/-- The acknowledgements that pass all checks are those that name a front, each item once. -/
theorem HubAckV2.fits_iff (distinct : batch.Distinct)
    (small : batch.records.length + batch.gaps.length ≤ u64Max)
    (digest : validDigest batch.batchId = true) :
    ack.wellFormed = true ∧ ack.matchesBatch batch = true ↔
      ack.version = 2 ∧ ack.acceptedRecordIds.Nodup ∧ ack.acceptedGapNoticeIds.Nodup ∧
        ack.batchId = batch.batchId ∧ ∃ k, ack.Names batch k := by
  have checks : ack.wellFormed = true ∧ ack.matchesBatch batch = true ↔
      ack.version = 2 ∧ ack.acceptedRecordIds.Nodup ∧ ack.acceptedGapNoticeIds.Nodup ∧
        ack.batchId = batch.batchId ∧ ack.Covers batch := by
    simp only [HubAckV2.wellFormed, HubAckV2.matchesBatch, HubAckV2.Covers, Bool.and_eq_true,
      decide_eq_true_eq, List.all_eq_true, List.contains_iff_mem, List.mem_map, dedup_length_eq_iff]
    constructor
    · rintro ⟨⟨⟨⟨version, -⟩, records⟩, gaps⟩, ⟨⟨same, known⟩, noticed⟩, matching⟩
      exact ⟨version, records, gaps, same.symm, known, noticed, matching⟩
    · rintro ⟨version, records, gaps, same, known, noticed, matching⟩
      exact ⟨⟨⟨⟨version, by rwa [same]⟩, records⟩, gaps⟩, ⟨⟨same.symm, known⟩, noticed⟩, matching⟩
  rw [checks]
  refine and_congr_right fun _ => and_congr_right fun records => and_congr_right fun gaps =>
    and_congr_right fun _ => covers_iff distinct small records gaps

end Acknowledgements

end TeslatlasEdge
