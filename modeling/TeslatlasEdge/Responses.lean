/-
Module: TeslatlasEdge.Responses
Purpose: The length of a whole v2 response: its items, the fixed text around them and the commas
  between them.
Trusted boundary: none
Main exports: Weighs, encodedSize_batch, post_nextBatchV2_weighs, response_bounded
-/
import TeslatlasEdge.Delivery

namespace TeslatlasEdge

open Lib
open Section

/-! ### The text around the items -/

/-- Items take their own sizes and a comma between two of them. -/
theorem Json.itemsSize_eq (items : List JsonText) :
    Json.itemsSize items = (items.map Json.size).sum + (items.length - 1) := by
  induction items with
  | nil => rfl
  | cons item rest ih =>
      cases rest with
      | nil => simp [Json.itemsSize]
      | cons other rest =>
          simp only [Json.itemsSize, List.map_cons, List.sum_cons, List.length_cons] at ih ⊢
          rw [ih]
          omega

theorem Json.mapItems_map {φ ψ α : Type} (f : φ → ψ) (g : α → Json φ) (values : List α) :
    Json.mapItems f (values.map g) = values.map fun value => Json.map f (g value) := by
  induction values with
  | nil => rfl
  | cons value rest ih => rw [List.map_cons, Json.mapItems, ih, List.map_cons]

/-- The items of an array, with the commas between them. -/
theorem itemsSize_print (host : Host) {α : Type} (g : α → Value) (values : List α) :
    Json.itemsSize (Json.mapItems host.codec.print (values.map g)) =
      (values.map fun value => encodedSize host (g value)).sum + (values.length - 1) := by
  rw [Json.mapItems_map, Json.itemsSize_eq, List.map_map, List.length_map]
  rfl

/-- The fixed text of a response takes one hundred and fourteen bytes. -/
theorem encodedSize_batch (host : Host) {batch : HubBatchV2} (version : batch.version = 2)
    (digest : validDigest batch.batchId = true) :
    encodedSize host batch.toJson = 114 +
      ((batch.records.map fun record => encodedSize host record.toJson).sum +
        (batch.records.length - 1)) +
      ((batch.gaps.map fun notice => encodedSize host notice.toJson).sum +
        (batch.gaps.length - 1)) := by
  have records := itemsSize_print host HubBatchRecordV2.toJson batch.records
  have gaps := itemsSize_print host GapNoticeV2.toJson batch.gaps
  have keys : Json.strSize "version".toList = 9 ∧ Json.strSize "batch_id".toList = 10 ∧
      Json.strSize "records".toList = 9 ∧ Json.strSize "gaps".toList = 6 := by decide
  have number : Json.intSize (2 : Nat) = 1 := by decide
  simp only [encodedSize, HubBatchV2.toJson, Json.print, Json.map, Json.mapFields, Json.size,
    Json.fieldsSize, version, number, strSize_digest digest] at records gaps ⊢
  omega

/-- The bytes of items are those of the records and those of the gaps. -/
theorem sum_bytes (host : Host) (items : List BatchItemV2) :
    (items.map (·.bytes host)).sum =
      ((items.filterMap BatchItemV2.record?).map fun record => encodedSize host record.toJson).sum +
      ((items.filterMap BatchItemV2.gap?).map fun notice => encodedSize host notice.toJson).sum := by
  induction items with
  | nil => rfl
  | cons item rest ih =>
      cases item <;>
        simp only [List.map_cons, List.sum_cons, List.filterMap_cons, BatchItemV2.record?,
          BatchItemV2.gap?, BatchItemV2.bytes, BatchItemV2.toJson] at ih ⊢ <;> omega

/-! ### What a scan has added up -/

/-- The scan holds these items, and their lengths as it has added them up are within the limit. -/
structure Weighs (inner : Inner) (scan : ScanV2) (items : List BatchItemV2) : Prop where
  records : scan.records = items.filterMap BatchItemV2.record?
  gaps : scan.gaps = items.filterMap BatchItemV2.gap?
  total : scan.bodyBytes = bodyBytesOf inner.host items 0
  bytes : scan.bodyBytes ≤ inner.config.batchMaxBytes
  count : items.length ≤ inner.config.batchMaxRecords

variable {inner : Inner} {m : Machine}

/-- A scan weighs one item more after pushing it. -/
theorem Weighs.push {scan : ScanV2} {items : List BatchItemV2} (weighs : Weighs inner scan items)
    {item : BatchItemV2}
    (room : ¬ saturatingAdd scan.records.length scan.gaps.length ≥ inner.config.batchMaxRecords)
    (short : ¬ ((scan.records ≠ [] ∨ scan.gaps ≠ []) ∧
      saturatingAdd scan.bodyBytes (encodedSize inner.host item.toJson) >
        inner.config.batchMaxBytes))
    (small : ¬ encodedSize inner.host item.toJson > inner.config.batchMaxBytes) :
    Weighs inner (scan.push (encodedSize inner.host item.toJson) item) (items ++ [item]) := by
  have pushed : (scan.push (encodedSize inner.host item.toJson) item).bodyBytes =
      saturatingAdd scan.bodyBytes (encodedSize inner.host item.toJson) := by
    cases item <;> rfl
  refine ⟨?_, ?_, ?_, ?_, ?_⟩
  · cases item <;>
      simp [ScanV2.push, List.filterMap_append, BatchItemV2.record?, List.filterMap_cons,
        weighs.records]
  · cases item <;>
      simp [ScanV2.push, List.filterMap_append, BatchItemV2.gap?, List.filterMap_cons, weighs.gaps]
  · rw [pushed, weighs.total, bodyBytesOf, bodyBytesOf, List.foldl_append]
    rfl
  · rw [pushed]
    by_cases some : scan.records ≠ [] ∨ scan.gaps ≠ []
    · exact not_lt.mp fun long => short ⟨some, long⟩
    · simp only [not_or, not_not] at some
      have counted := length_records_gaps items
      rw [← weighs.records, ← weighs.gaps, some.1, some.2] at counted
      have empty : items = [] := List.length_eq_zero_iff.mp (by simpa using counted.symm)
      have zero : scan.bodyBytes = 0 := by
        rw [weighs.total, empty]
        rfl
      rw [zero]
      simp only [saturatingAdd]
      omega
  · have counted := length_records_gaps items
    have bounded := inner.config.batchMaxRecords_le
    rw [← weighs.records, ← weighs.gaps] at counted
    rw [List.length_append, List.length_singleton]
    simp only [saturatingAdd] at room
    omega

/-- A scan keeps weighing what it took. -/
theorem post_scanV2_weighs {counted : OrdMap Nat RecordId} {remaining : List BatchCandidateV2}
    {scan : ScanV2} (weighs : ∃ items, Weighs inner scan items) :
    Post (scanV2 inner counted remaining scan).run m
      (fun result _ => ∃ items, Weighs inner result items) (fun _ _ => True) := by
  induction remaining generalizing m scan with
  | nil => exact weighs
  | cons candidate rest ih =>
      simp only [scanV2]
      split
      · exact weighs
      · rename_i room
        simp only [Call.run_bind, post_bind]
        refine Post.trivial.mono (fun item m₁ _ => ?_) fun _ _ _ => True.intro
        cases item with
        | none =>
            obtain ⟨items, weighs⟩ := weighs
            exact ih ⟨items, weighs.records, weighs.gaps, weighs.total, weighs.bytes, weighs.count⟩
        | some item =>
            simp only
            split
            · exact weighs
            · split
              · exact weighs
              · rename_i short
                split
                · trivial
                · rename_i small
                  obtain ⟨items, weighs⟩ := weighs
                  exact ih ⟨_, weighs.push room short small⟩

/-- A batch is a scan that weighs its items, under a well-formed identity. -/
theorem post_buildBatchV2_weighs {restarts : Nat} :
    Post (buildBatchV2 inner restarts).run m
      (fun batch _ => batch.version = 2 ∧ validDigest batch.batchId = true ∧
        ∃ scan items, Weighs inner scan items ∧ batch.records = scan.records ∧
          batch.gaps = scan.gaps)
      (fun _ _ => True) := by
  induction restarts generalizing m with
  | zero => exact True.intro
  | succ restarts ih =>
      simp only [buildBatchV2, Call.run_bind, Call.run_atomic, post_bind, post_state, post_ite,
        post_throw, post_pure]
      refine ⟨fun _ => True.intro, fun _ => ?_⟩
      split
      · exact True.intro
      · simp only [Call.run_bind, post_bind]
        refine (post_scanV2_weighs ⟨[], rfl, rfl, rfl, Nat.zero_le _, Nat.zero_le _⟩).monoOk ?_
        rintro scan m₁ ⟨items, weighs⟩
        split
        · exact ih
        · exact ⟨rfl, validDigest_hexEncode (inner.host.sha256 _).property, scan, items, weighs, rfl,
            rfl⟩

/-- So is what a pull answers. -/
theorem post_nextBatchV2_weighs {restarts : Nat} {nowMs : I64} :
    Post (nextBatchV2 inner restarts nowMs).run m
      (fun batch _ => batch.version = 2 ∧ validDigest batch.batchId = true ∧
        ∃ scan items, Weighs inner scan items ∧ batch.records = scan.records ∧
          batch.gaps = scan.gaps)
      (fun _ _ => True) := by
  simp only [nextBatchV2, expireDue, Call.run_bind, post_bind]
  exact Post.trivial.mono (fun _ _ _ => post_buildBatchV2_weighs) fun _ _ _ => True.intro

/-! ### The whole response -/

/-- The items of a response, summed up without overflow, bound the whole of it. -/
theorem encodedSize_batch_le {host : Host} {batch : HubBatchV2} {items : List BatchItemV2}
    {limit : Nat} (version : batch.version = 2) (digest : validDigest batch.batchId = true)
    (records : batch.records = items.filterMap BatchItemV2.record?)
    (gaps : batch.gaps = items.filterMap BatchItemV2.gap?)
    (bytes : (items.map (·.bytes host)).sum ≤ limit) :
    encodedSize host batch.toJson ≤
      limit + 114 + (batch.records.length + batch.gaps.length - 1) := by
  have total := sum_bytes host items
  rw [← records, ← gaps] at total
  rw [encodedSize_batch host version digest]
  omega

/-- Items of moderate length are summed up without overflow. -/
theorem BatchOf.sum_le {batch : HubBatchV2} {items : List BatchItemV2}
    (built : BatchOf inner m batch items) (modest : Modest inner.host items) :
    (items.map (·.bytes inner.host)).sum ≤ inner.config.batchMaxBytes := by
  have counts : batch.records.length + batch.gaps.length = items.length := by
    rw [built.records, built.gaps, length_records_gaps]
  have records := built.recordCount
  have gaps := built.gapCount
  have total : (items.map (·.bytes inner.host)).sum ≤ items.length * 2 ^ 40 :=
    sum_le_of_forall_le modest
  have bytes := built.bytes
  rw [bodyBytesOf_eq _ _ (Nat.zero_le _)] at bytes
  unfold u64Max at bytes
  omega

/-- A response is no longer than its byte limit, the fixed text and the commas. -/
theorem response_bounded {key : EncryptionKey} {host : Host} {w : World}
    (reach : Reach (UnderKey key host) w) {process : Process} (running : w.process = some process)
    (bounded : process.inner.config.batchMaxBytes < u64Max ∨
      (DistinctNotices host w.Offered ∧ ShortFloats host.codec))
    {faults : Faults} {restarts : Nat} {nowMs : I64} {batch : HubBatchV2} {m' : Machine}
    (ran : (nextBatchV2 process.inner restarts nowMs).run (w.machine process faults) =
      .ok batch m') :
    encodedSize process.inner.host batch.toJson ≤ process.inner.config.batchMaxBytes + 114 +
        (batch.records.length + batch.gaps.length - 1) ∧
      (process.inner.config.WithinLimits →
        encodedSize process.inner.host batch.toJson ≤ 4195441) := by
  obtain ⟨version, digest, scan, items, weighs, records, gaps⟩ :=
    post_nextBatchV2_weighs.of_ok ran
  rw [weighs.records] at records
  rw [weighs.gaps] at gaps
  have whole : encodedSize process.inner.host batch.toJson ≤
      process.inner.config.batchMaxBytes + 114 +
        (batch.records.length + batch.gaps.length - 1) := by
    rcases bounded with below | ⟨distinct, short⟩
    · apply encodedSize_batch_le version digest records gaps
      have total := weighs.total
      have bytes := weighs.bytes
      rw [bodyBytesOf_eq _ _ (Nat.zero_le _)] at total
      omega
    · obtain ⟨rfl, rfl, backing⟩ := (reach.kept distinct).running process running
      obtain ⟨sound, ready⟩ := backing faults
      obtain ⟨chain, delivered, built⟩ := (@post_nextBatchV2 process.inner noOffers _ restarts nowMs
        ready.keyed ready.numbered ready.pathed).of_ok ran
      have later := chain.offering.sound distinct sound
      have modest := later.modest (chain.keyed ready.keyed) short
        (fun _ inside => List.mem_of_mem_take inside) built.delivers
      exact encodedSize_batch_le version digest built.records built.gaps (built.sum_le modest)
  refine ⟨whole, fun limits => ?_⟩
  have counted := length_records_gaps items
  rw [← records, ← gaps] at counted
  have count := weighs.count
  have few := limits.batchMaxRecords.2
  have small := limits.batchMaxBytes.2
  omega

theorem response_bounded_cutPull :
    ∃ (process : Process) (batch : HubBatchV2), batch.records.length = 1 ∧ batch.gaps.length = 1 ∧
      encodedSize process.inner.host batch.toJson ≤ process.inner.config.batchMaxBytes + 114 +
        (batch.records.length + batch.gaps.length - 1) := by
  obtain ⟨w, process, batch, after, reach, running, ran, -, apart, records, gaps, -⟩ := cutPull_reached
  have stepped := World.step_pulled running ran
  exact ⟨process, batch, records, gaps,
    (response_bounded (reach.mono fun _ _ untouched => untouched.underKey) running
      (.inr ⟨apart.distinctNotices.offering stepped.offered, integerCodec_shortFloats⟩) ran).1⟩

end TeslatlasEdge
