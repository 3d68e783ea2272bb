/-
Module: TeslatlasEdge.Acknowledgement
Purpose: What a v2 acknowledgement does.  While files read back and writes succeed it is accepted when
  it names the first items of the current batch, and then these items and nothing else go.
Trusted boundary: none
Main exports: Sound.oneEach, Sound.acknowledged, acknowledgeV2_accepts_prefixes
-/
import TeslatlasEdge.Prefixes
import TeslatlasEdge.Spool.Removal
import TeslatlasEdge.Spool.Working

namespace TeslatlasEdge

open Lib
open Section

variable {inner : Inner} {m m' : Machine}

/-! ### One item for each sequence -/

/-- In a sound machine an identity belongs to one entry and a notice to one gap. -/
theorem Sound.oneEach {offered : Nat → Envelope → Prop} {since : List Disk}
    (sound : Sound inner.key inner.host offered since m) (ready : Ready inner.key m)
    (distinct : DistinctNotices inner.host offered)
    (single : repeatsSequence (candidates m.state) = false) : m.state.OneEach inner.host := by
  have separate := nodup_map_of_ordered (candidates_ordered single) fun _ _ _ _ same => same
  have gapCandidate : ∀ noticeId gap, m.state.gaps.get? noticeId = some gap →
      BatchCandidateV2.gap gap.notice ∈ candidates m.state := fun noticeId gap found =>
    mem_candidates_gap.mpr ⟨gap, OrdMap.mem_values_iff.mpr ⟨noticeId, found⟩, rfl⟩
  refine ⟨ready.keyed, ready.numbered.single, fun noticeId gap otherId other found found' same => ?_,
    fun entry noticeId gap held found same => ?_, fun entry other held held' same => ?_⟩
  · have equal := List.inj_on_of_nodup_map separate (gapCandidate _ _ found)
      (gapCandidate _ _ found') same
    rw [← ready.pathed.gapKeyed _ _ found, ← ready.pathed.gapKeyed _ _ found',
      BatchCandidateV2.gap.inj equal]
  · have here := mem_candidates_record.mpr (OrdMap.mem_values_iff.mpr ⟨_, held⟩)
    have equal := List.inj_on_of_nodup_map separate here (gapCandidate _ _ found) same
    cases equal
  · exact sound.lawful.notice_seq distinct
      (sound.backed.noticeOf held inner.host entry.expiresAtMs .retentionExpired)
      (sound.backed.noticeOf held' inner.host other.expiresAtMs .retentionExpired) same

/-! ### The receipt of a matching acknowledgement -/

section Receipt

variable {ack : HubAckV2} {batch : HubBatchV2} {items : List BatchItemV2}

/-- The occurrences an acknowledgement accepts, in the order of the batch. -/
def HubAckV2.admissions (ack : HubAckV2) (batch : HubBatchV2) : List ReceiptAdmission :=
  (batch.records.filter fun record => ack.acceptedRecordIds.contains record.recordId).map
    fun record =>
      { spoolSeq := record.spoolSeq
        stableRecordId := record.recordId
        legacyRecordId := record.legacyRecordId }

/-- A receipt's admissions are those of the records the acknowledgement names. -/
theorem HubAckV2.admissions_eq {admissions : List ReceiptAdmission}
    (related : List.Forall₂ (fun (record : HubBatchRecordV2) admission => admission =
        { spoolSeq := record.spoolSeq
          stableRecordId := record.recordId
          legacyRecordId := record.legacyRecordId : ReceiptAdmission })
      (batch.records.filter fun record => ack.acceptedRecordIds.contains record.recordId)
      admissions) : admissions = ack.admissions batch := by
  have same := map_eq_of_forall₂ (g := id) related fun _ _ equal => equal.symm
  rw [List.map_id] at same
  exact same.symm

theorem HubAckV2.mem_admissions {admission : ReceiptAdmission} :
    admission ∈ ack.admissions batch ↔ ∃ record ∈ batch.records,
      record.recordId ∈ ack.acceptedRecordIds ∧ admission =
        { spoolSeq := record.spoolSeq
          stableRecordId := record.recordId
          legacyRecordId := record.legacyRecordId } := by
  simp only [HubAckV2.admissions, List.mem_map, List.mem_filter, List.contains_iff_mem, and_assoc]
  exact exists_congr fun record => and_congr_right fun _ => and_congr_right fun _ => eq_comm

/-- The delivered notices an acknowledgement accepts, in its own order. -/
theorem HubAckV2.Names.notices {k : Nat} (names : ack.Names batch k) :
    ∃ notices : List GapNoticeV2, notices.map (·.noticeId) = ack.acceptedGapNoticeIds ∧
      ∀ notice ∈ notices, notice ∈ batch.gaps := by
  obtain ⟨notices, related⟩ := @exists_forall₂ RecordId GapNoticeV2
    (fun id notice => notice ∈ batch.gaps ∧ notice.noticeId = id) ack.acceptedGapNoticeIds
    fun id listed => by
      obtain ⟨item, inside, kind, rfl⟩ := (names.gaps id).mp listed
      rcases mem_mergedItems.mp (List.mem_of_mem_take inside) with
        ⟨record, -, rfl⟩ | ⟨gap, there, rfl⟩
      · cases kind
      · exact ⟨gap, there, rfl⟩
  refine ⟨notices, ?_, fun notice inside => ?_⟩
  · have same := map_eq_of_forall₂ (f := id) related fun _ _ facts => facts.2.symm
    rw [List.map_id] at same
    exact same.symm
  · obtain ⟨id, -, facts⟩ := exists_of_mem_forall₂ related inside
    exact facts.1

/-- The accepted sequences are those of the front. -/
theorem HubAckV2.Names.sequences {k : Nat} (names : ack.Names batch k) (distinct : batch.Distinct)
    {notices : List GapNoticeV2} (named : notices.map (·.noticeId) = ack.acceptedGapNoticeIds)
    (known : ∀ notice ∈ notices, notice ∈ batch.gaps) (s : Nat) :
    s ∈ (ack.admissions batch).map (·.spoolSeq) ++ notices.map (·.spoolSeq) ↔
      s ∈ (batch.front k).map (·.spoolSeq) := by
  have tagged := distinct.tagged
  have front : ∀ item ∈ mergedItems batch.records batch.gaps,
      (∃ other ∈ batch.front k, other.isRecord = item.isRecord ∧ other.id = item.id) →
      item ∈ batch.front k := by
    rintro item inside ⟨other, there, kind, id⟩
    have equal := List.inj_on_of_nodup_map tagged (List.mem_of_mem_take there) inside
      (Prod.ext kind id)
    rwa [← equal]
  simp only [List.mem_append, List.mem_map]
  constructor
  · rintro (⟨admission, inside, rfl⟩ | ⟨notice, inside, rfl⟩)
    · obtain ⟨record, there, accepted, rfl⟩ := HubAckV2.mem_admissions.mp inside
      refine ⟨_, front _ (mem_mergedItems.mpr (.inl ⟨record, there, rfl⟩)) ?_, rfl⟩
      exact (names.records _).mp accepted
    · have accepted : notice.noticeId ∈ ack.acceptedGapNoticeIds := by
        rw [← named]
        exact List.mem_map_of_mem inside
      refine ⟨_, front _ (mem_mergedItems.mpr (.inr ⟨notice, known notice inside, rfl⟩)) ?_, rfl⟩
      exact (names.gaps _).mp accepted
  · rintro ⟨item, inside, rfl⟩
    rcases mem_mergedItems.mp (List.mem_of_mem_take inside) with
      ⟨record, there, rfl⟩ | ⟨gap, there, rfl⟩
    · have accepted := (names.records record.recordId).mpr ⟨_, inside, rfl, rfl⟩
      exact .inl ⟨_, HubAckV2.mem_admissions.mpr ⟨record, there, accepted, rfl⟩, rfl⟩
    · have accepted := (names.gaps gap.noticeId).mpr ⟨_, inside, rfl, rfl⟩
      rw [← named, List.mem_map] at accepted
      obtain ⟨notice, listed, same⟩ := accepted
      have equal := List.inj_on_of_nodup_map distinct.noticeIds (known notice listed) there same
      exact .inr ⟨notice, listed, by rw [equal]⟩

/-- No sequence is accepted twice. -/
theorem HubBatchV2.Distinct.accepted (distinct : batch.Distinct) {notices : List GapNoticeV2}
    (nodup : (notices.map (·.noticeId)).Nodup) (known : ∀ notice ∈ notices, notice ∈ batch.gaps) :
    ((ack.admissions batch).map (·.spoolSeq) ++ notices.map (·.spoolSeq)).Nodup := by
  obtain ⟨records, gaps, apart⟩ := List.nodup_append.mp distinct.sequences
  refine List.nodup_append.mpr ⟨?_, ?_, ?_⟩
  · rw [HubAckV2.admissions, List.map_map]
    exact records.sublist (List.filter_sublist.map _)
  · refine (List.nodup_map_iff_inj_on (List.Nodup.of_map _ nodup)).mpr ?_
    intro a inside b inside' same
    exact List.inj_on_of_nodup_map gaps (known a inside) (known b inside') same
  · intro a inside b inside'
    obtain ⟨admission, here, rfl⟩ := List.mem_map.mp inside
    obtain ⟨notice, there, rfl⟩ := List.mem_map.mp inside'
    obtain ⟨record, listed, -, rfl⟩ := HubAckV2.mem_admissions.mp here
    exact apart _ (List.mem_map_of_mem listed) _ (List.mem_map_of_mem (known notice there))

/-- Delivered notices stand for held gaps or for counted entries. -/
theorem Sound.shows {offered : Nat → Envelope → Prop} {since : List Disk}
    (sound : Sound inner.key inner.host offered since m) (ready : Ready inner.key m)
    (distinct : DistinctNotices inner.host offered) (built : BatchOf inner m batch items)
    {notice : GapNoticeV2} (inside : notice ∈ batch.gaps) : m.state.Shows inner.host notice := by
  have one := sound.oneEach ready distinct built.single
  rcases built.gap_source ready.keyed inside with ⟨noticeId, gap, found, rfl⟩ |
    ⟨entry, held, counted, rfl⟩
  · rw [← ready.pathed.gapKeyed noticeId gap found] at found
    exact .inl ⟨gap, found, rfl⟩
  · refine .inr ⟨?_, entry, held, counted, rfl, rfl⟩
    cases found : m.state.gaps.get?
        (gapNotice inner.host entry entry.expiresAtMs .retentionExpired).noticeId with
    | none => rfl
    | some gap =>
        have same := sound.lawful.notice_seq distinct (sound.heldNotice found)
          (sound.backed.noticeOf held inner.host entry.expiresAtMs .retentionExpired)
          (ready.pathed.gapKeyed _ gap found)
        exact absurd same.symm (one.apart entry _ gap held found)

/-- Delivered records stand for held entries that are not counted as expired. -/
theorem BatchOf.holdsLive (built : BatchOf inner m batch items) (keyed : m.state.Keyed)
    {admission : ReceiptAdmission} (inside : admission ∈ ack.admissions batch) :
    m.state.HoldsLive admission := by
  obtain ⟨record, listed, -, rfl⟩ := HubAckV2.mem_admissions.mp inside
  obtain ⟨entry, held, live, stable, legacy, sequence, -⟩ := built.record_source keyed listed
  refine ⟨entry, held, ?_, live⟩
  rw [Entry.admission, stable, legacy, sequence]

/-- Completing the receipt of an acknowledgement that names a front removes the front. -/
theorem Sound.removed_receipt {offered : Nat → Envelope → Prop} {since : List Disk} {k : Nat}
    (sound : Sound inner.key inner.host offered since m) (ready : Ready inner.key m)
    (distinct : DistinctNotices inner.host offered) (built : BatchOf inner m batch items)
    (single : batch.Distinct) (gaps : ack.acceptedGapNoticeIds.Nodup)
    (names : ack.Names batch k) (sequence : Nat) :
    Removed (· ∈ (batch.front k).map (·.spoolSeq)) m.state
      (m.state.complete inner.host (ack.receipt (ack.admissions batch) sequence)) := by
  obtain ⟨notices, named, known⟩ := names.notices
  have one := sound.oneEach ready distinct built.single
  have removed := @removed_complete inner.host m.state one
    (ack.receipt (ack.admissions batch) sequence) notices named
    (single.accepted (by rwa [named]) known) (fun _ inside => built.holdsLive ready.keyed inside)
    (fun _ inside => sound.shows ready distinct built (known _ inside))
  exact removed.congr (names.sequences single named known)

end Receipt

/-! ### The call -/

/-- The acknowledgement names, each once, the first items of the batch. -/
def HubAckV2.AcceptsFront (ack : HubAckV2) (batch : HubBatchV2) : Prop :=
  ack.version = 2 ∧ ack.acceptedRecordIds.Nodup ∧ ack.acceptedGapNoticeIds.Nodup ∧
    ack.batchId = batch.batchId ∧ ∃ k, ack.Names batch k

/-- The acknowledgement of the first items of a batch. -/
def HubBatchV2.ackFront (batch : HubBatchV2) (k : Nat) : HubAckV2 :=
  { version := 2
    batchId := batch.batchId
    acceptedRecordIds := ((batch.front k).filter fun item => item.isRecord = true).map (·.id)
    acceptedGapNoticeIds := ((batch.front k).filter fun item => item.isRecord = false).map (·.id) }

/-- The acknowledgement made from a front names the front. -/
theorem HubBatchV2.ackFront_names (batch : HubBatchV2) (k : Nat) :
    (batch.ackFront k).Names batch k :=
  ⟨fun _ => mem_front_kind, fun _ => mem_front_kind⟩

theorem length_le_of_known {ids known : List RecordId} (nodup : ids.Nodup)
    (within : ∀ id ∈ ids, id ∈ known) : ids.length ≤ known.length :=
  (List.subperm_of_subset nodup within).length_le

/-- The identity of a batch has the form of a digest. -/
theorem BatchOf.digest {batch : HubBatchV2} {items : List BatchItemV2}
    (built : BatchOf inner m batch items) : validDigest batch.batchId = true := by
  rw [built.batchId]
  exact validDigest_hexEncode (inner.host.sha256 _).property

/-- The receipt of an acknowledgement that names a front fits its file. -/
theorem Sound.receipt_length_le {offered : Nat → Envelope → Prop} {since : List Disk}
    (sound : Sound inner.key inner.host offered since m) (keyed : m.state.Keyed)
    {ack : HubAckV2} {batch : HubBatchV2} {items : List BatchItemV2}
    (built : BatchOf inner m batch items) (accepts : ack.AcceptsFront batch) {sequence : Nat}
    (bounded : sequence ≤ u64Max) :
    (inner.key.encrypt (.receipt (ack.receipt (ack.admissions batch) sequence))).length ≤
      maxEncryptedReceiptBytes := by
  obtain ⟨-, records, gaps, same, k, names⟩ := accepts
  refine HubAckV2.receipt_length_le inner.key bounded (by rw [same]; exact built.digest) ?_ ?_ ?_ ?_
  · refine (@length_le_of_known _ (batch.records.map (·.recordId)) records
      fun id listed => ?_).trans (by rw [List.length_map]; exact built.recordCount)
    obtain ⟨item, inside, kind, rfl⟩ := (names.records id).mp listed
    rcases mem_mergedItems.mp (List.mem_of_mem_take inside) with
      ⟨record, there, rfl⟩ | ⟨gap, -, rfl⟩
    · exact List.mem_map_of_mem there
    · cases kind
  · refine (@length_le_of_known _ (batch.gaps.map (·.noticeId)) gaps
      fun id listed => ?_).trans (by rw [List.length_map]; exact built.gapCount)
    obtain ⟨item, inside, kind, rfl⟩ := (names.gaps id).mp listed
    rcases mem_mergedItems.mp (List.mem_of_mem_take inside) with
      ⟨record, -, rfl⟩ | ⟨gap, there, rfl⟩
    · cases kind
    · exact List.mem_map_of_mem there
  · rw [HubAckV2.admissions, List.length_map]
    exact (List.length_filter_le _ _).trans built.recordCount
  · intro admission inside
    obtain ⟨entry, held, rfl, -⟩ := built.holdsLive keyed inside
    obtain ⟨record, admitted, -⟩ := sound.backed.entry entry held
    exact (sound.lawful.origin _ _ admitted).2.1.le

/-- What a fresh acknowledgement of the current batch comes to while writes succeed. -/
theorem Sound.acknowledged {offered : Nat → Envelope → Prop} {since : List Disk}
    (sound : Sound inner.key inner.host offered since m) (ready : Ready inner.key m)
    (distinct : DistinctNotices inner.host offered) (faithful : FaithfulIds inner.host offered)
    (works : m.Works) (room : m.state.nextReceiptSequence < u64Max) {restarts : Nat}
    {batch : HubBatchV2} {items : List BatchItemV2} (built : BatchOf inner m batch items)
    (ran : (buildBatchV2 inner restarts).run m = .ok batch m) {ack : HubAckV2}
    (fresh : m.state.receipts.get? ack.batchId = none) :
    Post (acknowledgeV2 inner restarts ack).run m
      (fun result m' => ack.AcceptsFront batch ∧ m'.Works ∧
        result = ackResultV2 (ack.receipt (ack.admissions batch) m.state.nextReceiptSequence) ∧
        m'.state.SameHoldings (m.state.complete inner.host
          (ack.receipt (ack.admissions batch) m.state.nextReceiptSequence)) ∧
        m'.state.nextReceiptSequence = m.state.nextReceiptSequence + 1 ∧
        ∀ batchId entry, m'.state.receipts.get? batchId = some entry →
          batchId = ack.batchId ∨ m.state.receipts.get? batchId = some entry)
      (fun error m' => ¬ ack.AcceptsFront batch ∧ error = .invalidAcknowledgement ∧ m' = m) := by
  have single : batch.Distinct := sound.distinct_batch ready.keyed distinct faithful built
  have count : batch.records.length + batch.gaps.length ≤ u64Max := by
    have records := built.recordCount
    have gaps := built.gapCount
    unfold u64Max
    omega
  have fits : ack.wellFormed = true ∧ ack.matchesBatch batch = true ↔ ack.AcceptsFront batch :=
    HubAckV2.fits_iff single count built.digest
  unfold acknowledgeV2
  split
  · rename_i malformed
    exact ⟨fun accepts => malformed (fits.mpr accepts).1, rfl, rfl⟩
  · rename_i wellFormed
    rw [not_not] at wellFormed
    simp only [Call.run_bind, Call.run_atomic, post_bind, post_state, post_pure, fresh]
    rw [post_iff_of_run ran]
    split
    · rename_i mismatch
      exact ⟨fun accepts => mismatch (fits.mpr accepts).2, rfl, rfl⟩
    · rename_i matching
      have accepts := fits.mp ⟨wellFormed, not_not.mp matching⟩
      simp only [Call.run_bind, Call.run_atomic, Call.run_pure, post_bind, post_pure]
      have found := @post_receiptAdmissionsV2_held m batch ack fun record inside => by
          obtain ⟨entry, held, -, stable, legacy, sequence, -⟩ :=
            built.record_source ready.keyed inside
          exact ⟨entry, by rw [legacy]; exact held, sequence.symm, stable.symm⟩
      refine ((post_receiptAdmissionsV2 ready.keyed).and found).mono ?_ fun _ _ facts => facts.2.elim
      rintro admissions m₁ ⟨⟨rfl, -, related, held⟩, -⟩
      obtain rfl := HubAckV2.admissions_eq related
      have drawn := built.drawn ready.keyed wellFormed matching related
        m₁.state.nextReceiptSequence
      have notices := built.noticed ready matching
      have committed := @post_commitReceipt inner noOffers _ _ ready.keyed ready.numbered
        ready.receipts ready.settled ⟨held, notices⟩ drawn fresh fun _ => rfl
      have returns := post_commitReceipt_works works ready.receipts.batchId room
        (sound.receipt_length_le ready.keyed built accepts room.le)
      refine (committed.and returns).mono ?_ fun _ _ facts => facts.2.elim
      rintro receipt m₂ ⟨⟨-, rfl, -, same⟩, works₂, allocated, receipts⟩
      exact ⟨accepts, works₂, rfl, same, allocated, receipts⟩

/-- A batch is acknowledged exactly by its prefixes: the acknowledgement is accepted when it names,
each once, the first items of the current batch, and then just these items go; otherwise it is refused
and nothing changes. -/
theorem acknowledgeV2_accepts_prefixes {key : EncryptionKey} {host : Host} {w : World}
    (reach : Reach (UnderKey key host) w) (distinct : DistinctNotices host w.Offered)
    (faithful : FaithfulIds host w.Offered) (short : ShortFloats host.codec) {process : Process}
    (running : w.process = some process) (unlatched : process.storageWriteFailed = false)
    (intact : ReadsBackAll process.inner (w.machine process .none)) {restarts : Nat}
    {batch : HubBatchV2}
    (ran : (buildBatchV2 process.inner restarts).run (w.machine process .none) = .ok batch m')
    {ack : HubAckV2} (fresh : process.state.receipts.get? ack.batchId = none)
    (room : process.state.nextReceiptSequence < u64Max) :
    ((∃ result m₁, (acknowledgeV2 process.inner restarts ack).run (w.machine process .none) =
        .ok result m₁) ↔
      ack.version = 2 ∧ ack.acceptedRecordIds.Nodup ∧ ack.acceptedGapNoticeIds.Nodup ∧
        ack.batchId = batch.batchId ∧ ∃ k, ack.Names batch k) ∧
    (∀ result m₁, (acknowledgeV2 process.inner restarts ack).run (w.machine process .none) =
        .ok result m₁ →
      ∃ k, ack.Names batch k ∧
        Removed (· ∈ (batch.front k).map (·.spoolSeq)) process.state m₁.state) ∧
    ∀ error m₁, (acknowledgeV2 process.inner restarts ack).run (w.machine process .none) =
        .error error m₁ →
      error = .invalidAcknowledgement ∧ m₁ = w.machine process .none := by
  obtain ⟨rfl, rfl, backing⟩ := (reach.kept distinct).running process running
  obtain ⟨sound, ready⟩ := backing .none
  obtain ⟨rfl, -, items, built, -⟩ := sound.built ready short intact (fun _ _ => Iff.rfl) ran
  have works : (w.machine process .none).Works := ⟨rfl, unlatched⟩
  have post := sound.acknowledged ready distinct faithful works room built ran fresh
  refine ⟨⟨?_, fun accepts => ?_⟩, fun result m₁ answered => ?_, fun error m₁ failed => ?_⟩
  · rintro ⟨result, m₁, answered⟩
    exact (post.of_ok answered).1
  · cases answered : (acknowledgeV2 process.inner restarts ack).run (w.machine process .none) with
    | ok result m₁ => exact ⟨result, m₁, rfl⟩
    | error error m₁ => exact absurd accepts (post.of_error answered).1
  · obtain ⟨⟨-, -, gaps, -, k, names⟩, -, -, same, -⟩ := post.of_ok answered
    have single := sound.distinct_batch ready.keyed distinct faithful built
    exact ⟨k, names, (sound.removed_receipt ready distinct built single gaps names _).of_sameHoldings
      same⟩
  · exact (post.of_error failed).2

/-! ### An acknowledgement of a proper prefix -/

theorem acknowledgeV2_accepts_prefixes_cutPull :
    ∃ (w : World) (process : Process) (batch : HubBatchV2) (result : HubAckResultV2) (m₁ : Machine),
      batch.records.length = 1 ∧ batch.gaps.length = 1 ∧ (batch.front 1).length = 1 ∧
      process.state.entries.size = 2 ∧ process.state.gaps.size = 1 ∧
      (acknowledgeV2 process.inner 2 (batch.ackFront 1)).run (w.machine process .none) =
        .ok result m₁ ∧
      ∃ k, (batch.ackFront 1).Names batch k ∧
        Removed (· ∈ (batch.front k).map (·.spoolSeq)) process.state m₁.state := by
  obtain ⟨w, process, batch, after, reach, running, ran, -, apart, -, -, -, process', built, after',
    rebuilt, intact, unlatched, fresh, room, single, records, gaps, pending⟩ := cutPull_reached
  obtain ⟨running', ran'⟩ := World.build_eq_some rebuilt
  have step := @Reach.step _ w _ (.call _ _) reach trivial (World.step_pulled running ran)
  have reach' := step.mono fun _ _ untouched => untouched.underKey
  have one : (built.front 1).length = 1 := by
    rw [HubBatchV2.front, List.length_take, length_mergedItems, records, gaps]
    rfl
  have unseen : process'.state.receipts.get? (built.ackFront 1).batchId = none := fresh
  obtain ⟨accepted, removed, -⟩ := acknowledgeV2_accepts_prefixes reach' apart.distinctNotices
    apart.faithfulIds integerCodec_shortFloats running' unlatched intact ran' unseen room
  obtain ⟨result, m₁, answered⟩ :=
    accepted.mpr ⟨rfl, single.kind _ _, single.kind _ _, rfl, 1, built.ackFront_names 1⟩
  exact ⟨_, process', built, result, m₁, records, gaps, one, pending.1, pending.2, answered,
    removed result m₁ answered⟩

end TeslatlasEdge
