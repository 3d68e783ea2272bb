/-
Module: TeslatlasEdge.Spool.CallChains
Purpose: Every public call, run alone, is a chain of elementary effects on each of its exits.
Trusted boundary: none
Main exports: ReceiptsHeld, post_pruneReceipts, post_commitReceipt, post_acknowledge,
  post_acknowledgeV2, Request.post_chain
-/
import TeslatlasEdge.Spool.Completion
import TeslatlasEdge.Spool.Scans

namespace TeslatlasEdge

open Lib
open Section

variable {inner : Inner} {offered : Nat → Envelope → Prop} {m m' : Machine}

/-! ### Receipts in memory -/

/-- The receipts in memory stand under their batch and have been durable. -/
structure ReceiptsHeld (key : EncryptionKey) (m : Machine) : Prop where
  batchId : ∀ batchId entry, m.state.receipts.get? batchId = some entry →
    entry.receipt.batchId = batchId
  durable : ∀ batchId entry, m.state.receipts.get? batchId = some entry →
    Receipted key m.timeline entry.receipt

/-- An effect leaves the receipts alone, enters a durable one, or forgets one. -/
theorem Effect.receipts (effect : Effect inner offered m m') :
    m'.state.receipts = m.state.receipts ∨
      (∃ receipt, Receipted inner.key m.timeline receipt ∧
        m'.state.receipts = m.state.receipts.insert receipt.batchId
          { receipt := receipt
            path := .receipt (receiptFileName receipt.sequence receipt.batchId) }) ∨
      ∃ batchId, m'.state.receipts = m.state.receipts.erase batchId := by
  cases effect with
  | fault | writeFailed | orphaned | unsynced | setAside => exact .inl rfl
  | wrote within open_ write => cases write <;> exact .inl rfl
  | removed within removal =>
      simp only [Machine.update, Machine.discard_state]
      cases removal with
      | expired | acknowledged | backing =>
          left
          simp only [State.release]
          split <;> rfl
      | gap | receipt => exact .inl rfl
  | updated update =>
      cases update with
      | insertReceipt receipted => exact .inr (.inl ⟨_, receipted, rfl⟩)
      | forgetReceipt => exact .inr (.inr ⟨_, rfl⟩)
      | forgetReplaced | forgetAdmitted | forgetBacking | allocate | pruneHistory
      | dropQuarantined => exact .inl rfl

theorem Effect.receiptsHeld (effect : Effect inner offered m m')
    (held : ReceiptsHeld inner.key m) : ReceiptsHeld inner.key m' := by
  have later := effect.timeline
  have kept : ∀ batchId entry, m'.state.receipts.get? batchId = some entry →
      m.state.receipts.get? batchId = some entry ∨
        (entry.receipt.batchId = batchId ∧ Receipted inner.key m.timeline entry.receipt) := by
    intro batchId entry found
    rcases effect.receipts with same | ⟨receipt, receipted, inserted⟩ | ⟨gone, erased⟩
    · rw [same] at found
      exact .inl found
    · rw [inserted, OrdMap.get?_insert] at found
      split at found
      · rename_i here
        obtain rfl := Option.some.inj found
        exact .inr ⟨here.symm, receipted⟩
      · exact .inl found
    · rw [erased, OrdMap.get?_erase] at found
      split at found
      · cases found
      · exact .inl found
  refine ⟨fun batchId entry found => ?_, fun batchId entry found => ?_⟩
  · rcases kept batchId entry found with old | new
    · exact held.batchId batchId entry old
    · exact new.1
  · rcases kept batchId entry found with old | new
    · exact (held.durable batchId entry old).mono later
    · exact new.2.mono later

/-- Along a chain every receipt of the state is on the disk. -/
theorem Chain.receiptsHeld (chain : Chain inner offered m m') (held : ReceiptsHeld inner.key m) :
    ReceiptsHeld inner.key m' :=
  Chain.invariant (I := ReceiptsHeld inner.key) (fun _ _ held effect => effect.receiptsHeld held)
    chain held

/-! ### Pruning -/

/-- The receipt to prune is retained, and there are more than may be. -/
theorem oldestReceipt_eq_some {m : Machine} {oldest : ReceiptEntry}
    (held : ReceiptsHeld inner.key m)
    (found : oldestReceipt m.state.receipts = some oldest) :
    m.state.receipts.get? oldest.receipt.batchId = some oldest ∧
      maxAckReceipts < m.state.receipts.size ∧
      ∀ batchId entry, m.state.receipts.get? batchId = some entry →
        oldest.receipt.sequence ≤ entry.receipt.sequence := by
  unfold oldestReceipt at found
  split at found
  · cases found
  · rename_i full
    obtain ⟨batchId, inside⟩ := OrdMap.mem_values_iff.mp (List.argmin_mem found)
    refine ⟨?_, not_le.mp full, fun batchId' entry found' => ?_⟩
    · rw [held.batchId batchId oldest inside]
      exact inside
    · exact List.le_of_mem_argmin (f := fun entry : ReceiptEntry => entry.receipt.sequence)
        (OrdMap.mem_values_iff.mpr ⟨batchId', found'⟩) found

/-- Noting that v1 receipts are being pruned, whether or not the note becomes durable. -/
theorem post_noteHistoryPruned :
    Post (do
        modifyState fun state => { state with v1AckHistoryPruned := true }
        persistCurrentSequenceState inner) m
      (fun _ m' => Chain inner offered m m' ∧
        m'.state = { m.state with v1AckHistoryPruned := true })
      (fun _ m' => Chain inner offered m m') := by
  simp only [post_bind, post_modifyState, persistCurrentSequenceState, persistSequenceState,
    post_state]
  have write : Write inner offered m .sequence (inner.key.encrypt (.sequence
      { version := 1
        nextSpoolSequence := m.state.nextSpoolSequence
        expiredRecordsTotal := m.state.expiredRecords
        countedPendingExpirations := m.state.countedPendingExpirations
        v1AckHistoryPruned := true })) _ :=
    .sequence (Counting.same m.state) fun _ => rfl
  -- A failed write sets the latch first, and the state is changed under the latch.
  apply post_writeAtomic
  · exact fun latched => .single (.updated (.pruneHistory latched))
  · intro open_ faults within
    exact ⟨.single (@Effect.wrote inner offered m faults _ _ _ within open_ write), rfl⟩
  · intro _ faulty _ faults within
    have failed := @Effect.writeFailed inner offered m faults within faulty
    exact (Relation.ReflTransGen.single failed).tail (.updated (.pruneHistory rfl))
  · intro _ faulty _ faults within
    exact .tail (.single (@Effect.orphaned inner offered m faults _ within faulty))
      (.updated (.pruneHistory rfl))
  · intro open_ faulty _ faults within
    have failed := @Effect.unsynced inner offered m faults _ _ _ within faulty open_ write
    exact (Relation.ReflTransGen.single failed).tail (.updated (.pruneHistory rfl))

/-- One pass of pruning takes the oldest receipt away. -/
theorem post_pruneReceipt {oldest : ReceiptEntry} (held : ReceiptsHeld inner.key m)
    (found : oldestReceipt m.state.receipts = some oldest) :
    Post (pruneReceipt inner oldest).run m
      (fun _ m' => Chain inner offered m m' ∧ m'.state.SameHoldings m.state)
      (fun _ m' => Chain inner offered m m') := by
  have finish : ∀ {m₁ : Machine}, Chain inner offered m m₁ →
      m₁.state.receipts = m.state.receipts → m₁.state.SameHoldings m.state →
      (oldest.receipt.version = 1 → m₁.state.v1AckHistoryPruned = true) →
      Post (do
          Call.atomic (.removeReceipt oldest) (removeFile oldest.path)
          Call.atomic (.forgetReceipt oldest) <| modifyState fun state =>
            { state with receipts := state.receipts.erase oldest.receipt.batchId }
          Call.atomic .sync syncDirectory : SpoolCall Unit).run m₁
        (fun _ m' => Chain inner offered m m' ∧ m'.state.SameHoldings m.state)
        (fun _ m' => Chain inner offered m m') := by
    intro m₁ chain same holdings history
    obtain ⟨stands, full, first⟩ := oldestReceipt_eq_some held found
    rw [← same] at stands full first
    simp only [Call.run_bind, Call.run_atomic, post_bind, post_modifyState]
    apply post_removeFile
    · intro faults within
      have removed : Chain inner offered m _ :=
        chain.tail (.removed within (.receipt stands full first history))
      have gone : ({ (m₁.discard oldest.path).update id with faults := faults } :
          Machine).disk.read oldest.path = none := by
        change (m₁.discard oldest.path).disk.read oldest.path = none
        rw [Machine.discard_read, if_pos rfl]
      have stands' : ({ (m₁.discard oldest.path).update id with faults := faults } :
          Machine).state.receipts.get? oldest.receipt.batchId = some oldest := by
        change (m₁.discard oldest.path).state.receipts.get? oldest.receipt.batchId = some oldest
        rw [Machine.discard_state]
        exact stands
      have history' : oldest.receipt.version = 1 →
          ({ (m₁.discard oldest.path).update id with faults := faults } :
            Machine).state.v1AckHistoryPruned = true := by
        change _ → (m₁.discard oldest.path).state.v1AckHistoryPruned = true
        rw [Machine.discard_state]
        exact history
      have forgotten : Chain inner offered m _ :=
        removed.tail (.updated (.forgetReceipt stands' gone history'))
      refine (@post_syncDirectory_chain inner offered _).mono ?_ fun _ _ later =>
        forgotten.trans later
      rintro _ m₂ ⟨later, state, -⟩
      refine ⟨forgotten.trans later, ?_⟩
      rw [state]
      simp only [Machine.update, Machine.discard_state]
      exact { holdings with }
    · intro full _ faults within
      exact chain.tail (.fault within)
  unfold pruneReceipt
  split
  · rename_i version
    simp only [Call.run_bind, Call.run_atomic, post_bind, post_state, post_ite, post_pure]
    refine ⟨fun _ => ?_, fun flagged => ?_⟩
    · rw [← post_bind]
      refine (@post_noteHistoryPruned inner offered m).monoOk ?_
      rintro _ m₁ ⟨noted, same⟩
      have rest := finish noted (by rw [same]) (by rw [same]; exact ⟨rfl, rfl, rfl, rfl, rfl, rfl, rfl⟩)
        fun _ => by rw [same]
      simpa only [Call.run_bind, Call.run_atomic, post_bind, post_modifyState] using rest
    · have rest := finish .refl rfl (.refl _) fun _ => by simpa using flagged
      simpa only [Call.run_bind, Call.run_atomic, post_bind, post_modifyState] using rest
  · rename_i version
    exact finish .refl rfl (.refl _) fun first => absurd first version

theorem post_pruneReceiptsLoop {passes : Nat} (held : ReceiptsHeld inner.key m) :
    Post (pruneReceiptsLoop inner passes).run m
      (fun _ m' => Chain inner offered m m' ∧ m'.state.SameHoldings m.state)
      (fun _ m' => Chain inner offered m m') := by
  induction passes generalizing m with
  | zero => exact .refl
  | succ passes ih =>
      simp only [pruneReceiptsLoop, Call.run_bind, Call.run_atomic, post_bind, post_state,
        post_pure]
      cases found : oldestReceipt m.state.receipts with
      | none => exact ⟨.refl, .refl _⟩
      | some oldest =>
          simp only [Call.run_bind, post_bind]
          refine (post_pruneReceipt held found).monoOk ?_
          rintro _ m₁ ⟨chain, same⟩
          refine (ih (chain.receiptsHeld held)).mono ?_ fun _ _ later => chain.trans later
          rintro _ m₂ ⟨later, same'⟩
          exact ⟨chain.trans later, same'.trans same⟩

/-- Pruning receipts is a chain that leaves what is pending. -/
theorem post_pruneReceipts (held : ReceiptsHeld inner.key m) :
    Post (pruneReceipts inner).run m
      (fun _ m' => Chain inner offered m m' ∧ m'.state.SameHoldings m.state)
      (fun _ m' => Chain inner offered m m') := by
  simp only [pruneReceipts, Call.run_bind, Call.run_atomic, post_bind, post_state, post_pure]
  exact post_pruneReceiptsLoop held

/-! ### Acknowledgement -/

/-- A receipt takes the next number, which has to have a successor. -/
theorem post_allocateReceipt {onOk : Nat → Machine → Prop} {onError : SpoolError → Machine → Prop}
    (allocated : m.state.nextReceiptSequence + 1 ≤ u64Max →
      onOk m.state.nextReceiptSequence (m.update fun state =>
        { state with nextReceiptSequence := state.nextReceiptSequence + 1 }))
    (exhausted : u64Max < m.state.nextReceiptSequence + 1 → onError .invalidConfig m) :
    Post allocateReceipt m onOk onError := by
  simp only [allocateReceipt, post_bind, post_state]
  cases sum : checkedAdd m.state.nextReceiptSequence 1 with
  | none =>
      apply exhausted
      unfold checkedAdd at sum
      split at sum
      · cases sum
      · rename_i excess
        exact not_le.mp excess
  | some next =>
      obtain ⟨rfl, bounded⟩ := checkedAdd_eq_some sum
      exact allocated bounded

/-- The end of an acknowledgement: a receipt over held items becomes durable and its
admissions leave the state. -/
theorem post_commitReceipt {receiptAt : Nat → AckReceipt} (keyed : m.state.Keyed)
    (numbered : m.state.Numbered) (held : ReceiptsHeld inner.key m) (settled : m.Settled inner.key)
    (fits : Accepting inner.host m.state (receiptAt m.state.nextReceiptSequence))
    (drawn : (receiptAt m.state.nextReceiptSequence).DrawnFrom inner.host
      (m.state.Reports inner.host) m.state.Lists m.state.Occupies)
    (absent : m.state.receipts.get? (receiptAt m.state.nextReceiptSequence).batchId = none)
    (sequence : ∀ n, (receiptAt n).sequence = n) :
    Post (commitReceipt inner receiptAt).run m
      (fun receipt m' => Chain inner offered m m' ∧
        receipt = receiptAt m.state.nextReceiptSequence ∧
        Receipted inner.key m'.timeline receipt ∧
        m'.state.SameHoldings (m.state.complete inner.host receipt))
      (fun _ m' => Chain inner offered m m') := by
  simp only [commitReceipt, Call.run_bind, Call.run_atomic, post_bind]
  apply post_allocateReceipt
  · intro bounded
    have allocated : Chain inner offered m _ := .single (.updated (.allocate bounded))
    set receipt := receiptAt m.state.nextReceiptSequence with receipt_eq
    have named : receipt.sequence = m.state.nextReceiptSequence := sequence _
    by_cases large : (inner.key.encrypt (.receipt receipt)).length > maxEncryptedReceiptBytes
    · rw [if_pos large]
      exact allocated
    · rw [if_neg large]
      simp only [Call.run_bind, Call.run_atomic, post_bind, post_modifyState]
      rw [← named]
      set m₁ := m.update fun state =>
        { state with nextReceiptSequence := state.nextReceiptSequence + 1 } with m₁_eq
      have write : Write inner offered m₁
          (.receipt (receiptFileName receipt.sequence receipt.batchId))
          (inner.key.encrypt (.receipt receipt)) id :=
        .receipt ⟨fits.admissions, fits.notices⟩ (by rw [named]; rfl) (not_lt.mp large) settled
          drawn absent
      apply write.post
      · intro open_ faults within
        set m₂ : Machine := { m₁.place (.receipt (receiptFileName receipt.sequence receipt.batchId))
          (inner.key.encrypt (.receipt receipt)) with faults := faults } with m₂_eq
        have placed : Chain inner offered m m₂ := allocated.tail (.wrote within open_ write)
        have receipted : Receipted inner.key m₂.timeline receipt := by
          refine ⟨m₂.disk, List.mem_cons_self, ?_⟩
          exact AList.lookup_insert _
        have inserted : Chain inner offered m _ := placed.tail (.updated
          (.insertReceipt receipted (by rw [named]; rfl) absent))
        refine (((post_completeReceipt (inserted.keyed keyed) (inserted.numbered numbered)
          receipted).and post_completeReceipt_state).mono ?_ fun _ _ later =>
            inserted.trans later.1)
        rintro _ m₃ ⟨⟨completed, -⟩, state⟩
        have whole : Chain inner offered m m₃ := inserted.trans completed
        refine (post_pruneReceipts (whole.receiptsHeld held)).mono ?_ fun _ _ later =>
          whole.trans later
        rintro _ m₄ ⟨pruned, same⟩
        refine ⟨whole.trans pruned, rfl,
          receipted.mono (completed.timeline.trans pruned.timeline), same.trans ?_⟩
        rw [state]
        refine State.SameHoldings.complete ?_ receipt
        exact ⟨rfl, rfl, rfl, rfl, rfl, rfl, rfl⟩
      · intro error m₂ _ chain _ _
        exact allocated.trans chain
  · intro _
    exact .refl

/-! ### The admissions of a receipt -/

/-- Related lists have the same image under functions that agree on related items. -/
theorem map_eq_of_forall₂ {α β γ : Type} {R : α → β → Prop} {left : List α} {right : List β}
    (related : List.Forall₂ R left right) {f : α → γ} {g : β → γ}
    (agree : ∀ a b, R a b → f a = g b) : left.map f = right.map g := by
  rw [← List.forall₂_eq_eq_eq, List.forall₂_map_left_iff, List.forall₂_map_right_iff]
  exact related.imp agree

theorem exists_of_mem_forall₂ {α β : Type} {R : α → β → Prop} {left : List α} {right : List β}
    (related : List.Forall₂ R left right) {b : β} (inside : b ∈ right) : ∃ a ∈ left, R a b := by
  induction related with
  | nil => cases inside
  | cons holds _ ih =>
      rcases List.mem_cons.mp inside with rfl | inside
      · exact ⟨_, List.mem_cons_self, holds⟩
      · obtain ⟨a, here, good⟩ := ih inside
        exact ⟨a, List.mem_cons_of_mem _ here, good⟩

/-- Looking at items one by one gives what each of them gives. -/
theorem post_mapM {α β : Type} {f : α → Section β} {g : α → β → Prop}
    {onError : SpoolError → Machine → Prop} {items : List α}
    (each : ∀ item ∈ items, Post (f item) m (fun b m' => m' = m ∧ g item b) onError) :
    Post (items.mapM f) m (fun result m' => m' = m ∧ List.Forall₂ g items result) onError := by
  induction items with
  | nil => exact ⟨rfl, .nil⟩
  | cons item rest ih =>
      rw [List.mapM_cons]
      refine (each item (by simp)).bind ?_
      rintro b m₁ ⟨rfl, good⟩
      refine (ih fun other inside => each other (by simp [inside])).bind ?_
      rintro bs m₂ ⟨rfl, rest⟩
      exact ⟨rfl, .cons good rest⟩

/-- The admissions of a receipt are those of the delivered records it names. -/
theorem post_receiptAdmissionsV1 {delivered : HubBatchV1} {ack : HubAckV1}
    (keyed : m.state.Keyed) :
    Post (receiptAdmissionsV1 delivered ack) m
      (fun admissions m' => m' = m ∧
        admissions.map (·.legacyRecordId) =
          (delivered.records.map (·.recordId)).filter ack.acceptedRecordIds.contains ∧
        ∀ admission ∈ admissions, ∃ entry, m.state.Holds entry ∧ entry.admission = admission)
      (fun _ m' => m' = m) := by
  simp only [receiptAdmissionsV1, post_bind, post_state]
  refine (post_mapM (g := fun record admission => admission.legacyRecordId = record.recordId ∧
    ∃ entry, m.state.Holds entry ∧ entry.admission = admission) ?_).monoOk ?_
  · intro record _
    cases found : m.state.entries.get? record.recordId with
    | none => exact rfl
    | some entry =>
        have id := keyed _ _ found
        refine ⟨rfl, id, entry, ?_, rfl⟩
        rw [State.Holds, id]
        exact found
  · rintro admissions m₁ ⟨rfl, related⟩
    refine ⟨rfl, ?_, fun admission inside => ?_⟩
    · rw [List.filter_map]
      exact (map_eq_of_forall₂ related fun _ _ facts => facts.1.symm).symm
    · obtain ⟨record, -, facts⟩ := exists_of_mem_forall₂ related inside
      exact facts.2

/-- So they are under the second protocol. -/
theorem post_receiptAdmissionsV2 {delivered : HubBatchV2} {ack : HubAckV2}
    (keyed : m.state.Keyed) :
    Post (receiptAdmissionsV2 delivered ack) m
      (fun admissions m' => m' = m ∧
        admissions.map (·.stableRecordId) =
          (delivered.records.map (·.recordId)).filter ack.acceptedRecordIds.contains ∧
        List.Forall₂ (fun record admission => admission =
            { spoolSeq := record.spoolSeq
              stableRecordId := record.recordId
              legacyRecordId := record.legacyRecordId })
          (delivered.records.filter fun record => ack.acceptedRecordIds.contains record.recordId)
          admissions ∧
        ∀ admission ∈ admissions, ∃ entry, m.state.Holds entry ∧ entry.admission = admission)
      (fun _ m' => m' = m) := by
  simp only [receiptAdmissionsV2, post_bind, post_state]
  refine (post_mapM (g := fun record admission => admission =
      { spoolSeq := record.spoolSeq
        stableRecordId := record.recordId
        legacyRecordId := record.legacyRecordId } ∧
    ∃ entry, m.state.Holds entry ∧ entry.admission = admission) ?_).monoOk ?_
  · intro record _
    cases found : m.state.entries.get? record.legacyRecordId with
    | none => exact rfl
    | some entry =>
        have id := keyed _ _ found
        simp only [post_ite, post_throw, post_pure, implies_true, true_and]
        intro same
        rw [not_or, not_not, not_not] at same
        refine ⟨entry, ?_, ?_⟩
        · rw [State.Holds, id]
          exact found
        · rw [Entry.admission, same.1, same.2, id]
  · rintro admissions m₁ ⟨rfl, related⟩
    refine ⟨rfl, ?_, related.imp fun _ _ facts => facts.1, fun admission inside => ?_⟩
    · rw [List.filter_map]
      exact (map_eq_of_forall₂ related fun _ _ facts => by rw [facts.1]).symm
    · obtain ⟨record, -, facts⟩ := exists_of_mem_forall₂ related inside
      exact facts.2

/-- Delivered occurrences that are still held are all found again. -/
theorem post_receiptAdmissionsV2_held {delivered : HubBatchV2} {ack : HubAckV2}
    (held : ∀ record ∈ delivered.records, ∃ entry,
      m.state.entries.get? record.legacyRecordId = some entry ∧
        entry.spoolSeq = record.spoolSeq ∧ entry.stableRecordId = record.recordId) :
    Post (receiptAdmissionsV2 delivered ack) m (fun _ m' => m' = m) (fun _ _ => False) := by
  simp only [receiptAdmissionsV2, post_bind, post_state]
  refine (post_mapM (g := fun _ _ => True) ?_).monoOk fun _ _ facts => facts.1
  intro record inside
  obtain ⟨entry, found, sequence, stable⟩ := held record (List.mem_filter.mp inside).1
  simp only [found, sequence, stable, ne_eq, not_true_eq_false, or_self, if_false, post_pure,
    and_self]

/-! ### The calls -/

/-- What the calls rely on at their start. -/
structure Ready (key : EncryptionKey) (m : Machine) : Prop where
  keyed : m.state.Keyed
  numbered : m.state.Numbered
  pathed : m.state.Pathed
  receipts : ReceiptsHeld key m
  settled : m.Settled key

/-- Along a chain without admissions a machine stays ready for the next call. -/
theorem Chain.ready (chain : Chain inner noOffers m m') (ready : Ready inner.key m) :
    Ready inner.key m' :=
  ⟨chain.keyed ready.keyed, chain.numbered ready.numbered, chain.pathed ready.pathed,
    chain.receiptsHeld ready.receipts, chain.settled (fun _ _ offer => offer) ready.pathed ready.settled⟩

/-- A v1 batch is built only while no gap is held, so nothing has been quarantined and its records
are held to the end. -/
theorem post_buildBatch_listed (keyed : m.state.Keyed) (pathed : m.state.Pathed) :
    Post (buildBatch inner).run m
      (fun batch m' => batch.batchId = batchId inner.host batch.records ∧
        (batch.records.map (·.recordId)).Nodup ∧
        ∀ record ∈ batch.records, m'.state.Lists record.recordId)
      (fun _ _ => True) := by
  have gapless : Post (buildBatch inner).run m (fun _ m' => m'.state.gaps.isEmpty = true)
      (fun _ _ => True) := by
    simp only [buildBatch, requireNoGaps, Call.run_bind, Call.run_atomic, post_bind, post_state,
      post_ite, post_throw, post_pure, Call.run_pure]
    refine ⟨fun _ => trivial, fun _ => Post.trivial.monoOk fun _ m₁ _ => ⟨fun _ => trivial, ?_⟩⟩
    exact fun clear => not_not.mp (not_or.mp clear).1
  refine (((@post_buildBatch inner noOffers m keyed pathed).and
    (post_buildBatch_scans keyed pathed)).and gapless).mono ?_ fun _ _ _ => trivial
  rintro batch m' ⟨⟨⟨chain, single, -, digest, reads⟩, scans⟩, empty⟩
  refine ⟨digest, single, fun record inside => ?_⟩
  obtain ⟨entry, held, named⟩ := (reads record inside).source
  rcases scans.replaced entry held with kept | ⟨gap, found⟩
  · exact ⟨entry, kept, named⟩
  · rw [OrdMap.isEmpty_iff.mp empty] at found
    cases found

/-- The admissions taken from a batch are those of the acknowledged identities. -/
theorem HubAckV1.accepts_iff {ack : HubAckV1} {records : List HubBatchRecordV1}
    {admissions : List ReceiptAdmission}
    (listed : ¬ (ack.acceptedRecordIds.any fun recordId =>
      ! (records.map (·.recordId)).contains recordId) = true)
    (named : admissions.map (·.legacyRecordId) =
      (records.map (·.recordId)).filter ack.acceptedRecordIds.contains) (recordId : RecordId) :
    recordId ∈ ack.acceptedRecordIds ↔
      ∃ admission ∈ admissions, admission.legacyRecordId = recordId := by
  rw [← List.mem_map, named, List.mem_filter, List.contains_iff_mem]
  refine ⟨fun accepted => ⟨?_, accepted⟩, And.right⟩
  by_contra absent
  apply listed
  rw [List.any_eq_true]
  refine ⟨recordId, accepted, ?_⟩
  rw [Bool.not_eq_true', Bool.eq_false_iff]
  exact fun contains => absent (List.contains_iff_mem.mp contains)

/-- An acknowledgement under the first protocol is a chain without admissions. -/
theorem post_acknowledge {ack : HubAckV1} (ready : Ready inner.key m) :
    Post (acknowledge inner ack).run m
      (fun _ m' => Chain inner noOffers m m') (fun _ m' => Chain inner noOffers m m') := by
  unfold acknowledge
  split
  · exact .refl
  · simp only [Call.run_bind, Call.run_atomic, post_bind, post_state, post_pure]
    cases found : m.state.receipts.get? ack.batchId with
    | some prior =>
        simp only
        split
        · exact .refl
        · simp only [Call.run_bind, Call.run_atomic, Call.run_pure, post_bind, post_pure]
          exact (post_completeReceipt ready.keyed ready.numbered
            (ready.receipts.durable _ _ found)).monoOk fun _ _ facts => facts.1
    | none =>
        simp only [Call.run_bind, Call.run_atomic, post_bind, post_state, post_ite, post_throw,
          post_pure]
        refine ⟨fun _ => .refl, fun _ => ?_⟩
        refine (((@post_buildBatch inner noOffers m ready.keyed ready.pathed).and
          (post_buildBatch_scans ready.keyed ready.pathed)).and
          (post_buildBatch_listed ready.keyed ready.pathed)).mono ?_ fun _ _ facts => facts.1.1
        rintro delivered m₁ ⟨⟨⟨built, -⟩, scans⟩, digest, single, inside⟩
        have ready₁ := built.ready ready
        split
        · exact built
        · rename_i matching
          simp only [not_or, not_not] at matching
          simp only [Call.run_bind, Call.run_atomic, Call.run_pure, post_bind, post_pure]
          refine (post_receiptAdmissionsV1 ready₁.keyed).mono ?_ fun _ _ same => by rwa [same]
          rintro admissions m₂ ⟨rfl, named, held⟩
          have accepted : ∀ recordId, recordId ∈ ack.acceptedRecordIds ↔
              ∃ admission ∈ admissions, admission.legacyRecordId = recordId :=
            HubAckV1.accepts_iff matching.2 named
          refine (@post_commitReceipt inner noOffers _ _ ready₁.keyed ready₁.numbered
            ready₁.receipts ready₁.settled ⟨held, fun _ none => absurd none List.not_mem_nil⟩
            ⟨.inl rfl, fun _ => ⟨delivered.records, matching.1.symm.trans digest, single, inside⟩,
              fun _ => ⟨rfl, accepted⟩, (fun version => by cases version), List.nodup_nil,
              fun version => by cases version⟩
            (by rw [scans.receipts]; exact found)
            fun _ => rfl).mono ?_ fun _ _ later => built.trans later
          rintro _ m₃ ⟨later, -⟩
          exact built.trans later

/-- The records of a batch are those of held entries that are not counted as expired and whose files
read back. -/
theorem BatchOf.record_source {batch : HubBatchV2} {items : List BatchItemV2}
    {record : HubBatchRecordV2} (built : BatchOf inner m batch items) (keyed : m.state.Keyed)
    (inside : record ∈ batch.records) :
    ∃ entry, m.state.Holds entry ∧
      m.state.countedPendingExpirations.contains entry.spoolSeq = false ∧
      record.recordId = entry.stableRecordId ∧ record.legacyRecordId = entry.recordId ∧
      record.spoolSeq = entry.spoolSeq ∧
      ∃ stored, decodeEntry inner entry (m.disk.read entry.path) = .ok stored := by
  rw [built.records, List.mem_filterMap] at inside
  obtain ⟨item, here, same⟩ := inside
  obtain ⟨candidate, there, delivers⟩ := exists_of_mem_forall₂ built.delivers here
  have known := List.mem_of_mem_take there
  cases delivers with
  | gap | backing => cases same
  | record live read =>
      obtain rfl := Option.some.inj same
      exact ⟨_, keyed.holds (mem_candidates_record.mp known), live, rfl, rfl, rfl, _, read⟩

/-- The gaps of a batch are held, or backed by a counted entry. -/
theorem BatchOf.gap_source {batch : HubBatchV2} {items : List BatchItemV2} {notice : GapNoticeV2}
    (built : BatchOf inner m batch items) (keyed : m.state.Keyed) (inside : notice ∈ batch.gaps) :
    (∃ noticeId gap, m.state.gaps.get? noticeId = some gap ∧ gap.notice = notice) ∨
      ∃ entry, m.state.Holds entry ∧
        m.state.countedPendingExpirations.contains entry.spoolSeq = true ∧
        notice = gapNotice inner.host entry entry.expiresAtMs .retentionExpired := by
  rw [built.gaps, List.mem_filterMap] at inside
  obtain ⟨item, here, same⟩ := inside
  obtain ⟨candidate, there, delivers⟩ := exists_of_mem_forall₂ built.delivers here
  have known := List.mem_of_mem_take there
  cases delivers with
  | gap other =>
      obtain rfl := Option.some.inj same
      obtain ⟨gap, held, named⟩ := mem_candidates_gap.mp known
      obtain ⟨noticeId, found⟩ := OrdMap.mem_values_iff.mp held
      exact .inl ⟨noticeId, gap, found, named⟩
  | backing expired =>
      obtain rfl := Option.some.inj same
      exact .inr ⟨_, keyed.holds (mem_candidates_record.mp known), expired, rfl⟩
  | record => cases same

/-- A well-formed acknowledgement names no notice twice. -/
theorem HubAckV2.nodup_notices {ack : HubAckV2} (wellFormed : ack.wellFormed = true) :
    ack.acceptedGapNoticeIds.Nodup := by
  simp only [HubAckV2.wellFormed, Bool.and_eq_true, decide_eq_true_eq] at wellFormed
  exact dedup_length_eq_iff.mp wellFormed.2

/-- The receipt of an acknowledgement that matches a batch is drawn from it. -/
theorem BatchOf.drawn {batch : HubBatchV2} {items : List BatchItemV2} {ack : HubAckV2}
    {admissions : List ReceiptAdmission} (built : BatchOf inner m batch items)
    (keyed : m.state.Keyed) (wellFormed : ack.wellFormed = true)
    (matching : ¬ ¬ ack.matchesBatch batch = true)
    (related : List.Forall₂ (fun (record : HubBatchRecordV2) admission => admission =
        { spoolSeq := record.spoolSeq
          stableRecordId := record.recordId
          legacyRecordId := record.legacyRecordId })
      (batch.records.filter fun record => ack.acceptedRecordIds.contains record.recordId)
      admissions) (sequence : Nat) :
    (ack.receipt admissions sequence).DrawnFrom inner.host (m.state.Reports inner.host)
      m.state.Lists m.state.Occupies := by
  simp only [HubAckV2.matchesBatch, not_not, Bool.and_eq_true, List.all_eq_true,
    List.contains_iff_mem, List.mem_map, decide_eq_true_eq] at matching
  obtain ⟨⟨⟨same, -⟩, notices⟩, -⟩ := matching
  have second : ¬ (ack.receipt admissions sequence).version = 1 := by simp [HubAckV2.receipt]
  refine ⟨.inr rfl, fun first => absurd first second, fun first => absurd first second,
    fun _ => rfl, HubAckV2.nodup_notices wellFormed, fun _ => ⟨batch.records, batch.gaps,
      same.symm.trans built.batchId, fun admission inside => ?_, notices,
      fun notice inside => built.gap_source keyed inside, fun record inside => ?_⟩⟩
  · obtain ⟨record, there, rfl⟩ := exists_of_mem_forall₂ related inside
    obtain ⟨known, accepted⟩ := List.mem_filter.mp there
    exact ⟨record, known, List.contains_iff_mem.mp accepted, rfl⟩
  · obtain ⟨entry, held, -, -, -, sequence, -⟩ := built.record_source keyed inside
    exact ⟨entry, held, sequence.symm⟩

/-- Accepted notices are those of held gaps or of counted entries. -/
theorem BatchOf.noticed {batch : HubBatchV2} {items : List BatchItemV2} {ack : HubAckV2}
    (built : BatchOf inner m batch items) (ready : Ready inner.key m)
    (matching : ¬ ¬ ack.matchesBatch batch = true) :
    ∀ noticeId ∈ ack.acceptedGapNoticeIds,
      (∃ gap, m.state.gaps.get? noticeId = some gap) ∨
        ∃ entry, m.state.Holds entry ∧
          m.state.countedPendingExpirations.contains entry.spoolSeq = true ∧
          entry.retentionNoticeId inner.host = noticeId := by
  intro noticeId accepted
  simp only [HubAckV2.matchesBatch, not_not, Bool.and_eq_true, List.all_eq_true,
    List.contains_iff_mem, List.mem_map] at matching
  obtain ⟨notice, inside, rfl⟩ := matching.1.2 noticeId accepted
  rcases built.gap_source ready.keyed inside with
    ⟨id, gap, found, rfl⟩ | ⟨entry, held, counted, rfl⟩
  · rw [ready.pathed.gapKeyed id gap found]
    exact .inl ⟨gap, found⟩
  · exact .inr ⟨entry, held, counted, rfl⟩

/-- So is one under the second. -/
theorem post_acknowledgeV2 {restarts : Nat} {ack : HubAckV2} (ready : Ready inner.key m) :
    Post (acknowledgeV2 inner restarts ack).run m
      (fun _ m' => Chain inner noOffers m m') (fun _ m' => Chain inner noOffers m m') := by
  unfold acknowledgeV2
  split
  · exact .refl
  · rename_i wellFormed
    rw [not_not] at wellFormed
    simp only [Call.run_bind, Call.run_atomic, post_bind, post_state, post_pure]
    cases found : m.state.receipts.get? ack.batchId with
    | some prior =>
        simp only
        split
        · exact .refl
        · simp only [Call.run_bind, Call.run_atomic, Call.run_pure, post_bind, post_pure]
          exact (post_completeReceipt ready.keyed ready.numbered
            (ready.receipts.durable _ _ found)).monoOk fun _ _ facts => facts.1
    | none =>
        simp only [Call.run_bind, post_bind]
        refine ((@post_buildBatchV2 inner noOffers m _ ready.keyed ready.pathed).and
          (post_buildBatchV2_scans ready.keyed ready.pathed)).mono ?_ fun _ _ facts => facts.1
        rintro delivered m₁ ⟨⟨chain, items, built⟩, scans⟩
        have ready₁ := chain.ready ready
        split
        · exact chain
        · rename_i matching
          simp only [Call.run_bind, Call.run_atomic, Call.run_pure, post_bind, post_pure]
          refine (post_receiptAdmissionsV2 ready₁.keyed).mono ?_ fun _ _ same => by rwa [same]
          rintro admissions m₂ ⟨rfl, -, related, held⟩
          have drawn := built.drawn ready₁.keyed wellFormed matching related m₂.state.nextReceiptSequence
          have notices := built.noticed ready₁ matching
          refine (@post_commitReceipt inner noOffers _ _ ready₁.keyed ready₁.numbered
            ready₁.receipts ready₁.settled ⟨held, notices⟩ drawn
            (by rw [scans.receipts]; exact found) fun _ => rfl).mono ?_
            fun _ _ later => chain.trans later
          rintro _ m₃ ⟨later, -⟩
          exact chain.trans later

/-- A pull is a chain, along which each delivered record was read. -/
theorem post_nextBatch {nowMs : I64} (keyed : m.state.Keyed) (numbered : m.state.Numbered)
    (pathed : m.state.Pathed) :
    Post (nextBatch inner nowMs).run m
      (fun batch m' => Chain inner offered m m' ∧
        ∀ record ∈ batch.records, ReadBetween inner offered m m' record)
      (fun _ m' => Chain inner offered m m') := by
  simp only [nextBatch, expireDue, Call.run_bind, Call.run_atomic, post_bind]
  refine (@post_expireDueLocked inner offered m _ keyed numbered).monoOk ?_
  intro _ m₁ expired
  simp only [requireNoGaps, post_bind, post_state, post_ite, post_throw, post_pure]
  refine ⟨fun _ => expired, fun _ => ⟨fun _ => expired, fun _ => ?_⟩⟩
  refine (post_buildBatch (expired.keyed keyed) (expired.pathed pathed)).mono ?_
    fun _ _ later => expired.trans later
  rintro batch m₂ ⟨later, -, -, -, reads⟩
  exact ⟨expired.trans later, fun record inside => (reads record inside).extend expired .refl⟩

/-- Under the second protocol what is delivered stands in the state the pull leaves. -/
theorem post_nextBatchV2 {restarts : Nat} {nowMs : I64} (keyed : m.state.Keyed)
    (numbered : m.state.Numbered) (pathed : m.state.Pathed) :
    Post (nextBatchV2 inner restarts nowMs).run m
      (fun batch m' => Chain inner offered m m' ∧ ∃ items, BatchOf inner m' batch items)
      (fun _ m' => Chain inner offered m m') := by
  simp only [nextBatchV2, expireDue, Call.run_bind, Call.run_atomic, post_bind]
  refine (@post_expireDueLocked inner offered m _ keyed numbered).monoOk ?_
  intro _ m₁ expired
  refine (post_buildBatchV2 (expired.keyed keyed) (expired.pathed pathed)).mono ?_
    fun _ _ later => expired.trans later
  rintro batch m₂ ⟨later, built⟩
  exact ⟨expired.trans later, built⟩

/-- Writing the sequence file settles the machine on both exits. -/
theorem post_persistCurrentSequenceState_settled :
    Post (persistCurrentSequenceState inner) m
      (fun _ m' => m'.Settled inner.key) (fun _ m' => m'.Settled inner.key) := by
  simp only [persistCurrentSequenceState, persistSequenceState, post_bind, post_state]
  apply post_writeAtomic
  · exact fun latched => .inl latched
  · exact fun _ faults _ => .inr ⟨_, rfl, rfl, rfl⟩
  · exact fun _ _ _ _ _ => .inl rfl
  · exact fun _ _ _ _ _ => .inl rfl
  · exact fun _ _ _ _ _ => .inl rfl

theorem post_enqueueLocked_settled {envelope : Envelope} {admittedAtMs : I64}
    (settled : m.Settled inner.key) :
    Post (enqueueLocked inner envelope admittedAtMs) m
      (fun _ m' => m'.Settled inner.key) (fun _ m' => m'.Settled inner.key) := by
  simp only [enqueueLocked, post_bind, post_state]
  cases m.state.stableIndex.get? (envelope.stableRecordId inner.host) with
  | some existing => exact settled
  | none =>
      cases checkedAdd m.state.nextSpoolSequence 1 with
      | none => exact settled
      | some next =>
          simp only [post_bind, post_ite, post_throw, post_pure]
          refine ⟨fun _ => settled, fun _ => ⟨fun _ => settled, fun _ => ⟨fun _ => settled,
            fun _ => ⟨fun _ => settled, fun _ => ?_⟩⟩⟩⟩
          apply post_writeAtomic
          · exact fun latched => .inl latched
          · intro _ faults _
            rw [post_modifyState]
            exact post_persistCurrentSequenceState_settled
          · exact fun _ _ _ _ _ => .inl rfl
          · exact fun _ _ _ _ _ => .inl rfl
          · exact fun _ _ _ _ _ => .inl rfl

/-- What the answers that later results speak about say of the machine. -/
def Reply.Tells (inner : Inner) (m m' : Machine) : Request → Reply → Prop
  | .enqueue envelope admittedAtMs, .enqueued (.stored _) =>
      m.storageWriteFailed = false ∧
        (∃ entry, m'.state.Holds entry ∧ entry.spoolSeq = m.state.nextSpoolSequence ∧
          entry.recordId = envelope.recordId inner.host ∧
          entry.stableRecordId = envelope.stableRecordId inner.host) ∧
        ∃ d ∈ m'.timeline, d.read (.pending (pendingFileName m.state.nextSpoolSequence
          (envelope.recordId inner.host))) = some (inner.key.encrypt (Plain.ofStoredRecord
            inner.host.codec (storedRecord inner envelope admittedAtMs
              m.state.nextSpoolSequence)))
  | _, .batchV2 delivered => ∃ items, BatchOf inner m' delivered items
  | _, .batch delivered => ∀ record ∈ delivered.records, ReadBetween inner noOffers m m' record
  | _, _ => True

/-- Every call, run alone, is a chain of effects, and leaves the machine ready for the next. -/
theorem Request.post_chain (request : Request) (ready : Ready inner.key m)
    (retention : 0 ≤ inner.config.retentionMs.val)
    (offer : ∀ envelope admittedAtMs, request = .enqueue envelope admittedAtMs →
      offered m.state.nextSpoolSequence envelope) :
    Post (request.call inner).run m
      (fun reply m' => Chain inner offered m m' ∧ Ready inner.key m' ∧
        reply.Tells inner m m' request)
      (fun _ m' => Chain inner offered m m' ∧ Ready inner.key m') := by
  have quiet : ∀ m', Chain inner noOffers m m' → Chain inner offered m m' ∧ Ready inner.key m' :=
    fun m' chain => ⟨chain.offering, chain.ready ready⟩
  have answered : ∀ m', Chain inner noOffers m m' → ∀ {tells : Prop}, tells →
      Chain inner offered m m' ∧ Ready inner.key m' ∧ tells :=
    fun m' chain _ tells => ⟨chain.offering, chain.ready ready, tells⟩
  cases request with
  | enqueue envelope admittedAtMs =>
      simp only [Request.call, TeslatlasEdge.enqueue, Call.run_bind, post_bind, Call.run_pure,
        post_pure]
      cases valid : envelope.validate with
      | error error => exact quiet m .refl
      | ok _ =>
          simp only [Call.run_bind, Call.run_atomic, post_bind, post_get, post_ite, post_throw,
            post_pure]
          refine ⟨fun _ => quiet m .refl, fun unlatched => ?_⟩
          have chained := (@post_enqueueLocked inner offered m envelope admittedAtMs
            (offer envelope admittedAtMs rfl) valid retention).and
            (post_enqueueLocked_settled ready.settled)
          have ready' : ∀ m₁, Chain inner offered m m₁ → m₁.Settled inner.key →
              Ready inner.key m₁ := fun m₁ chain settled =>
            ⟨chain.keyed ready.keyed, chain.numbered ready.numbered, chain.pathed ready.pathed,
              chain.receiptsHeld ready.receipts, settled⟩
          refine chained.mono ?_ fun _ m₁ facts => ⟨facts.1, ready' m₁ facts.1 facts.2⟩
          rintro outcome m₁ ⟨⟨chain, stored⟩, settled⟩
          refine ⟨chain, ready' m₁ chain settled, ?_⟩
          cases outcome with
          | stored recordId => exact ⟨by simpa using unlatched, stored recordId rfl⟩
          | alreadyPresent recordId => trivial
  | nextBatch nowMs =>
      simp only [Request.call, Call.run_bind, post_bind, Call.run_pure, post_pure]
      exact (post_nextBatch ready.keyed ready.numbered ready.pathed).mono
        (fun _ m' facts => answered m' facts.1 facts.2) fun _ => quiet
  | nextBatchV2 restarts nowMs =>
      simp only [Request.call, Call.run_bind, post_bind, Call.run_pure, post_pure]
      exact (post_nextBatchV2 ready.keyed ready.numbered ready.pathed).mono
        (fun _ m' facts => answered m' facts.1 facts.2) fun _ => quiet
  | acknowledge ack =>
      simp only [Request.call, Call.run_bind, post_bind, Call.run_pure, post_pure]
      exact (post_acknowledge ready).mono (fun _ m' chain => answered m' chain trivial)
        fun _ => quiet
  | acknowledgeV2 restarts ack =>
      simp only [Request.call, Call.run_bind, post_bind, Call.run_pure, post_pure]
      exact (post_acknowledgeV2 ready).mono (fun _ m' chain => answered m' chain trivial)
        fun _ => quiet
  | expireDue nowMs =>
      simp only [Request.call, TeslatlasEdge.expireDue, Call.run_bind, Call.run_atomic, post_bind,
        Call.run_pure, post_pure]
      exact (post_expireDueLocked ready.keyed ready.numbered).mono
        (fun _ m' chain => answered m' chain trivial) fun _ => quiet

end TeslatlasEdge
