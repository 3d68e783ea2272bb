/-
Module: TeslatlasEdge.Spool.Windows
Purpose: While every pending file reads back, a v2 batch is the longest prefix of the pending items
  within the limits of a batch, and building it changes nothing.
Trusted boundary: none
Main exports: FitsV2, ReadsBackAll, pendingItems, BatchOf.window, post_buildBatchV2_intact
-/
import TeslatlasEdge.Lib.Window
import TeslatlasEdge.Spool.Sizes

namespace TeslatlasEdge

open Lib
open Section

/-! ### The limits of a batch -/

def BatchItemV2.bytes (host : Host) (item : BatchItemV2) : Nat := encodedSize host item.toJson

/-- The limits of a v2 batch. -/
structure FitsV2 (inner : Inner) (items : List BatchItemV2) : Prop where
  count : items.length ≤ inner.config.batchMaxRecords
  records : (items.filterMap BatchItemV2.record?).length ≤ 256
  gaps : (items.filterMap BatchItemV2.gap?).length ≤ 256
  bytes : (items.map (·.bytes inner.host)).sum ≤ inner.config.batchMaxBytes

/-- What begins a batch within the limits is within the limits. -/
theorem fitsV2_prefixClosed (inner : Inner) : PrefixClosed (FitsV2 inner) := by
  rintro front back ⟨count, records, gaps, bytes⟩
  simp only [List.length_append, List.filterMap_append, List.map_append, List.sum_append]
    at count records gaps bytes
  exact ⟨by omega, by omega, by omega, by omega⟩

/-- The scan adds up lengths exactly as long as the sum stays in range. -/
theorem bodyBytesOf_eq (host : Host) (items : List BatchItemV2) {start : Nat}
    (bounded : start ≤ u64Max) :
    bodyBytesOf host items start = min (start + (items.map (·.bytes host)).sum) u64Max := by
  induction items generalizing start with
  | nil => simp [bodyBytesOf, bounded]
  | cons item rest ih =>
      have next : saturatingAdd start (item.bytes host) ≤ u64Max := min_le_right _ _
      have step := ih next
      rw [bodyBytesOf, List.foldl_cons]
      change bodyBytesOf host rest (saturatingAdd start (item.bytes host)) = _
      rw [step, List.map_cons, List.sum_cons, saturatingAdd]
      omega

theorem sum_le_of_forall_le {items : List BatchItemV2} {host : Host} {bound : Nat}
    (modest : ∀ item ∈ items, item.bytes host ≤ bound) :
    (items.map (·.bytes host)).sum ≤ items.length * bound := by
  have total := List.sum_le_card_nsmul (items.map (·.bytes host)) bound (by simpa using modest)
  simpa using total

/-! ### The pending items -/

variable {inner : Inner} {m : Machine}

/-- A candidate has one item to deliver. -/
theorem Delivers.unique {disk : Disk} {counted : OrdMap Nat RecordId} {candidate : BatchCandidateV2}
    {item other : BatchItemV2} (mine : Delivers inner disk counted candidate item)
    (yours : Delivers inner disk counted candidate other) : item = other := by
  cases mine with
  | gap notice =>
      cases yours
      rfl
  | backing expired read =>
      cases yours with
      | backing => rfl
      | record live =>
          rw [expired] at live
          cases live
  | record live read =>
      cases yours with
      | backing expired =>
          rw [expired] at live
          cases live
      | record _ read' =>
          rw [read] at read'
          obtain rfl := Except.ok.inj read'
          rfl

/-- Every pending file reads back through `read_entry`. -/
def ReadsBackAll (inner : Inner) (m : Machine) : Prop :=
  ∀ entry, m.state.Holds entry → ∃ stored, decodeEntry inner entry (m.disk.read entry.path) = .ok stored

/-- The items a list of candidates stands for. -/
abbrev ItemsOf (inner : Inner) (m : Machine) : List BatchCandidateV2 → List BatchItemV2 → Prop :=
  List.Forall₂ (Delivers inner m.disk m.state.countedPendingExpirations)

/-- Where every file reads back, every candidate delivers an item. -/
theorem ReadsBackAll.delivers (intact : ReadsBackAll inner m) (keyed : m.state.Keyed)
    {candidate : BatchCandidateV2} (inside : candidate ∈ candidates m.state) :
    ∃ item, Delivers inner m.disk m.state.countedPendingExpirations candidate item := by
  cases candidate with
  | gap notice => exact ⟨_, .gap notice⟩
  | record entry =>
      obtain ⟨stored, read⟩ := intact entry (keyed.holds (mem_candidates_record.mp inside))
      cases counted : m.state.countedPendingExpirations.contains entry.spoolSeq with
      | true => exact ⟨_, .backing counted read⟩
      | false => exact ⟨_, .record counted read⟩

theorem exists_forall₂ {α β : Type} {R : α → β → Prop} {left : List α}
    (each : ∀ a ∈ left, ∃ b, R a b) : ∃ right, List.Forall₂ R left right := by
  induction left with
  | nil => exact ⟨[], .nil⟩
  | cons a rest ih =>
      obtain ⟨b, here⟩ := each a List.mem_cons_self
      obtain ⟨bs, there⟩ := ih fun x inside => each x (List.mem_cons_of_mem _ inside)
      exact ⟨b :: bs, .cons here there⟩

/-- While every file reads back, the candidates stand for items. -/
theorem ReadsBackAll.items (intact : ReadsBackAll inner m) (keyed : m.state.Keyed) :
    ∃ queue, ItemsOf inner m (candidates m.state) queue :=
  exists_forall₂ fun _ inside => intact.delivers keyed inside

/-! ### Batches are windows -/

/-- Items of a length that 512 of them cannot overflow a counter. -/
def Modest (host : Host) (items : List BatchItemV2) : Prop :=
  ∀ item ∈ items, item.bytes host ≤ 2 ^ 40

/-- A batch is a prefix of the queue as it stands. -/
theorem BatchOf.items_eq {batch : HubBatchV2} {items queue : List BatchItemV2}
    (built : BatchOf inner m batch items) (stands : ItemsOf inner m (candidates m.state) queue) :
    items = queue.take items.length := by
  have taken := List.forall₂_take items.length stands
  have unique : Relator.RightUnique (Delivers inner m.disk m.state.countedPendingExpirations) :=
    fun _ _ _ mine yours => mine.unique yours
  exact unique.forall₂ built.delivers taken

/-- It is the longest prefix the limits admit. -/
theorem BatchOf.window {batch : HubBatchV2} {items queue : List BatchItemV2}
    (built : BatchOf inner m batch items) (stands : ItemsOf inner m (candidates m.state) queue)
    (modest : Modest inner.host queue) : Window (FitsV2 inner) queue items := by
  have front : items <+: queue := by
    rw [built.items_eq stands]
    exact List.take_prefix _ _
  have counts : batch.records.length + batch.gaps.length = items.length := by
    rw [built.records, built.gaps, length_records_gaps]
  have few : items.length ≤ 512 := by
    have records := built.recordCount
    have gaps := built.gapCount
    omega
  have total : (items.map (·.bytes inner.host)).sum ≤ items.length * 2 ^ 40 :=
    sum_le_of_forall_le fun item inside => modest item (front.subset inside)
  have summed : bodyBytesOf inner.host items 0 = (items.map (·.bytes inner.host)).sum := by
    rw [bodyBytesOf_eq _ _ (Nat.zero_le _)]
    unfold u64Max
    omega
  refine Window.of_stop (fitsV2_prefixClosed inner) front ?_ fun item within fits => ?_
  · refine ⟨built.count, ?_, ?_, ?_⟩
    · rw [← built.records]
      exact built.recordCount
    · rw [← built.gaps]
      exact built.gapCount
    · rw [← summed]
      exact built.bytes
  · -- the candidate behind the next item has stopped the scan
    obtain ⟨rest, rfl⟩ := within
    have position : items.length < (candidates m.state).length := by
      rw [List.Forall₂.length_eq stands]
      simp
    have delivers := List.Forall₂.get stands position (by simp)
    have next : (items ++ [item] ++ rest).get ⟨items.length, by simp⟩ = item := by simp
    rw [next] at delivers
    have stops := built.stops _ (List.getElem?_eq_getElem position)
    obtain ⟨count, records, gaps, bytes⟩ := fits
    simp only [List.length_append, List.length_singleton, List.filterMap_append, List.map_append,
      List.sum_append, List.map_singleton, List.sum_singleton] at count records gaps bytes
    rw [← built.records] at records
    rw [← built.gaps] at gaps
    rcases stops with full | ⟨other, delivers', full | long⟩
    · simp only [saturatingAdd] at full
      omega
    · obtain rfl := delivers.unique delivers'
      cases item <;>
        simp [ScanV2.categoryFull, BatchItemV2.record?, BatchItemV2.gap?, List.filterMap_cons]
          at full records gaps <;> omega
    · obtain rfl := delivers.unique delivers'
      simp only [summed, saturatingAdd] at long
      change _ < min (_ + item.bytes inner.host) _ at long
      omega

/-! ### Building a batch of intact files -/

/-- A candidate that has an item to deliver is given as that item, and nothing is changed. -/
theorem post_candidateItem_delivers {counted : OrdMap Nat RecordId} {candidate : BatchCandidateV2}
    {item : BatchItemV2} (delivers : Delivers inner m.disk counted candidate item) :
    Post (candidateItem inner counted candidate).run m (fun answer m' => m' = m ∧ answer = some item)
      (fun _ _ => False) := by
  cases delivers with
  | gap notice => exact ⟨rfl, rfl⟩
  | backing expired read =>
      simp only [candidateItem, expired, if_true, Call.run_bind, Call.run_atomic, post_bind,
        post_readEntry, read, Call.run_pure, post_pure]
      exact ⟨trivial, trivial⟩
  | record live read =>
      simp only [candidateItem, live, Bool.false_eq_true, if_false, Call.run_bind, post_bind,
        Call.post_attempt]
      rw [post_readEntry, read]
      exact ⟨rfl, rfl⟩

/-- Scanning candidates whose files read back changes nothing, and fails only on a first item that
is too large by itself. -/
theorem post_scanV2_intact {counted : OrdMap Nat RecordId} {remaining : List BatchCandidateV2}
    {items : List BatchItemV2} {scan : ScanV2}
    (stands : List.Forall₂ (Delivers inner m.disk counted) remaining items)
    (modest : Modest inner.host items) :
    Post (scanV2 inner counted remaining scan).run m
      (fun result m' => m' = m ∧ result.quarantined = scan.quarantined)
      (fun error m' => m' = m ∧ error = .batchItemTooLarge ∧ scan.records = [] ∧ scan.gaps = [] ∧
        ∃ item, items.head? = some item ∧ inner.config.batchMaxBytes < item.bytes inner.host) := by
  induction stands generalizing scan with
  | nil => exact ⟨rfl, rfl⟩
  | @cons candidate item remaining items delivers stands ih =>
      simp only [scanV2]
      split
      · exact ⟨rfl, rfl⟩
      · simp only [Call.run_bind, post_bind]
        refine (post_candidateItem_delivers delivers).mono ?_ fun _ _ never => never.elim
        rintro answer m' ⟨rfl, rfl⟩
        simp only
        split
        · exact ⟨rfl, rfl⟩
        · split
          · exact ⟨rfl, rfl⟩
          · rename_i short
            split
            · rename_i large
              have empty : scan.records = [] ∧ scan.gaps = [] := by
                by_contra some
                rw [not_and_or] at some
                apply short
                refine ⟨some, lt_min ?_ ?_⟩
                · exact lt_of_lt_of_le large (Nat.le_add_left _ _)
                · have bound := modest item List.mem_cons_self
                  have large' : inner.config.batchMaxBytes < item.bytes inner.host := large
                  unfold u64Max
                  omega
              exact ⟨rfl, rfl, empty.1, empty.2, item, rfl, large⟩
            · refine (ih fun other inside => modest other (List.mem_cons_of_mem _ inside)).mono ?_ ?_
              · rintro result m₁ ⟨rfl, same⟩
                refine ⟨rfl, same.trans ?_⟩
                cases item <;> rfl
              · rintro error m₁ ⟨-, -, noRecords, noGaps, -⟩
                cases item with
                | record => simp [ScanV2.push] at noRecords
                | gap => simp [ScanV2.push] at noGaps

/-- Building a batch while every file reads back changes nothing, and fails only on an integrity
flag, a repeated sequence or a first item that is too large by itself. -/
theorem post_buildBatchV2_intact {restarts : Nat} {queue : List BatchItemV2}
    (keyed : m.state.Keyed) (pathed : m.state.Pathed)
    (stands : ItemsOf inner m (candidates m.state) queue) (modest : Modest inner.host queue) :
    Post (buildBatchV2 inner (restarts + 1)).run m
      (fun batch m' => m' = m ∧ ∃ items, BatchOf inner m batch items)
      (fun error m' => m' = m ∧
        (error = .corruptRecord ∧ (m.state.unresolvedIntegrity = true ∨
            repeatsSequence (candidates m.state) = true) ∨
          error = .batchItemTooLarge ∧ ∃ item, queue.head? = some item ∧
            inner.config.batchMaxBytes < item.bytes inner.host)) := by
  have built := @post_buildBatchV2 inner noOffers m (restarts + 1) keyed pathed
  suffices same : Post (buildBatchV2 inner (restarts + 1)).run m (fun _ m' => m' = m)
      (fun error m' => m' = m ∧
        (error = .corruptRecord ∧ (m.state.unresolvedIntegrity = true ∨
            repeatsSequence (candidates m.state) = true) ∨
          error = .batchItemTooLarge ∧ ∃ item, queue.head? = some item ∧
            inner.config.batchMaxBytes < item.bytes inner.host)) by
    refine (built.and same).mono ?_ fun _ _ facts => facts.2
    rintro batch m' ⟨⟨-, items, whole⟩, rfl⟩
    exact ⟨rfl, items, whole⟩
  simp only [buildBatchV2, Call.run_bind, Call.run_atomic, post_bind, post_state, post_ite,
    post_throw, post_pure]
  refine ⟨fun unresolved => ⟨trivial, .inl ⟨trivial, .inl unresolved⟩⟩, fun _ => ?_⟩
  change Post (if repeatsSequence (candidates m.state) = true then _ else _ :
    SpoolCall HubBatchV2).run m _ _
  split
  · rename_i repeats
    exact ⟨rfl, .inl ⟨rfl, .inr repeats⟩⟩
  · simp only [Call.run_bind, post_bind]
    refine (post_scanV2_intact stands modest).mono ?_ ?_
    · rintro result m' ⟨rfl, clean⟩
      rw [clean]
      exact rfl
    · rintro error m' ⟨rfl, rfl, -, -, item, first, large⟩
      exact ⟨rfl, .inr ⟨rfl, item, first, large⟩⟩

end TeslatlasEdge
