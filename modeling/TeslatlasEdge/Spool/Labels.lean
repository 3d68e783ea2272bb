/-
Module: TeslatlasEdge.Spool.Labels
Purpose: The label of a section determines what the section does.  A property of a section that
  depends on its label alone therefore holds of every section of every call, whatever the other
  calls do in between.
Trusted boundary: none
Main exports: SectionOf, Labelled, Quiet, Request.sections
-/
import TeslatlasEdge.Runs

namespace TeslatlasEdge

open Lib

/-- The effect of a section with the given label. -/
inductive SectionOf (inner : Inner) : Label → (Machine → Machine) → Prop where
  | observe {act : Machine → Machine} (same : ∀ m, act m = m) : SectionOf inner .observe act
  | enqueue {envelope : Envelope} {admittedAtMs : I64} (valid : envelope.validate = .ok ()) :
      SectionOf inner (.enqueue envelope admittedAtMs) fun m =>
        finalState (enqueueLocked inner envelope admittedAtMs m)
  | expire {nowMs : I64} :
      SectionOf inner (.expire nowMs) fun m => finalState (expireDueLocked inner nowMs m)
  | read {entry : Entry} {act : Machine → Machine} (same : ∀ m, act m = m) :
      SectionOf inner (.read entry) act
  | quarantine {entry : Entry} :
      SectionOf inner (.quarantine entry) fun m => finalState (quarantineRuntimeEntry inner entry m)
  | admissions {act : Machine → Machine} (same : ∀ m, act m = m) : SectionOf inner .admissions act
  | allocate : SectionOf inner .allocate fun m => finalState (allocateReceipt m)
  | writeReceipt {receipt : AckReceipt}
      (small : (inner.key.encrypt (.receipt receipt)).length ≤ maxEncryptedReceiptBytes) :
      SectionOf inner (.writeReceipt receipt) fun m =>
        finalState (writeAtomic (.receipt (receiptFileName receipt.sequence receipt.batchId))
          (inner.key.encrypt (.receipt receipt)) m)
  | insertReceipt {receipt : AckReceipt} :
      SectionOf inner (.insertReceipt receipt) fun m => m.update fun state =>
        { state with
          receipts := state.receipts.insert receipt.batchId
            { receipt := receipt
              path := .receipt (receiptFileName receipt.sequence receipt.batchId) } }
  | complete {receipt : AckReceipt} :
      SectionOf inner (.complete receipt) fun m => finalState (completeReceipt inner receipt m)
  | pruneHistory :
      SectionOf inner .pruneHistory fun m => finalState
        ((do
          if ¬ (← Section.state).v1AckHistoryPruned then
            Section.modifyState fun state => { state with v1AckHistoryPruned := true }
            persistCurrentSequenceState inner : Section Unit) m)
  | removeReceipt {oldest : ReceiptEntry} :
      SectionOf inner (.removeReceipt oldest) fun m => finalState (removeFile oldest.path m)
  | forgetReceipt {oldest : ReceiptEntry} :
      SectionOf inner (.forgetReceipt oldest) fun m => m.update fun state =>
        { state with receipts := state.receipts.erase oldest.receipt.batchId }
  | sync : SectionOf inner .sync fun m => finalState (syncDirectory m)

variable {inner : Inner}

/-- The calls whose sections all do what their labels say. -/
def Labelled (inner : Inner) {α : Type} (call : SpoolCall α) : Prop :=
  call.Steps (SectionOf inner)

/-- The section neither admits nor expires nor quarantines. -/
def Label.quiet : Label → Bool
  | .enqueue _ _ | .expire _ | .quarantine _ => false
  | _ => true

/-- The calls all of whose sections are quiet and do what their labels say. -/
def Quiet (inner : Inner) {α : Type} (call : SpoolCall α) : Prop :=
  call.Steps fun label act => label.quiet = true ∧ SectionOf inner label act

/-- A call that offers nothing only performs labelled sections. -/
theorem Quiet.labelled {α : Type} {call : SpoolCall α} (quiet : Quiet inner call) :
    Labelled inner call :=
  Call.Steps.mono quiet fun _ _ facts => facts.2

/-- A section that looks at the machine without changing it. -/
theorem finalState_eq_of_post {α : Type} {section_ : Section α}
    (looks : ∀ m, Post section_ m (fun _ m' => m' = m) (fun _ m' => m' = m)) (m : Machine) :
    finalState (section_ m) = m :=
  (looks m).final (I := fun m' => m' = m)

theorem labelled_observe {α : Type} {section_ : Section α}
    (looks : ∀ m, Post section_ m (fun _ m' => m' = m) (fun _ m' => m' = m)) :
    Labelled inner (Call.atomic .observe section_) :=
  Call.Steps.atomic (.observe (finalState_eq_of_post looks))

/-- A section that only looks offers nothing. -/
theorem quiet_observe {α : Type} {section_ : Section α}
    (looks : ∀ m, Post section_ m (fun _ m' => m' = m) (fun _ m' => m' = m)) :
    Quiet inner (Call.atomic .observe section_) :=
  Call.Steps.atomic ⟨rfl, .observe (finalState_eq_of_post looks)⟩

/-- Reading an entry leaves the machine as it is. -/
theorem readEntry_looks {entry : Entry} (m : Machine) :
    Post (readEntry inner entry) m (fun _ m' => m' = m) (fun _ m' => m' = m) := by
  simp only [readEntry, post_bind, post_disk]
  cases decodeEntry inner entry (m.disk.read entry.path) <;> exact rfl

theorem requireNoGaps_looks (m : Machine) :
    Post requireNoGaps m (fun _ m' => m' = m) (fun _ m' => m' = m) := by
  simp only [requireNoGaps, post_bind, post_state, post_ite, post_throw, post_pure, implies_true,
    and_self]

/-! ### Admission and expiry -/

/-- An admission performs labelled sections only. -/
theorem labelled_enqueue (envelope : Envelope) (admittedAtMs : I64) :
    Labelled inner (enqueue inner envelope admittedAtMs) := by
  unfold enqueue
  split
  · exact Call.Steps.fail _
  · rename_i valid
    refine Call.Steps.bind (labelled_observe fun m => ?_) fun _ =>
      Call.Steps.atomic (.enqueue valid)
    simp only [post_bind, post_get, post_ite, post_throw, post_pure, implies_true, and_self]

theorem labelled_expireDue (nowMs : I64) : Labelled inner (expireDue inner nowMs) :=
  Call.Steps.atomic .expire

/-! ### Batches -/

theorem labelled_scanV1 (entries : List Entry) (records : List HubBatchRecordV1)
    (bodyBytes : Nat) : Labelled inner (scanV1 inner entries records bodyBytes) := by
  induction entries generalizing records bodyBytes with
  | nil => exact Call.Steps.pure _
  | cons entry rest ih =>
      simp only [scanV1]
      split
      · exact Call.Steps.pure _
      · refine (Call.Steps.attempt (.read (finalState_eq_of_post readEntry_looks))).bind
          fun answer => ?_
        split
        · exact (Call.Steps.atomic .quarantine).bind fun _ => ih _ _
        · exact Call.Steps.fail _
        · generalize encodedSize inner.host _ = encodedBytes
          split
          · exact Call.Steps.pure _
          · split
            · exact Call.Steps.fail _
            · exact ih _ _

theorem labelled_buildBatch : Labelled inner (buildBatch inner) := by
  refine Call.Steps.bind (labelled_observe fun m => ?_) fun ordered =>
    (labelled_scanV1 ordered [] 0).bind fun records =>
      (labelled_observe requireNoGaps_looks).bind fun _ =>
        Call.Steps.pure _
  simp only [post_bind, post_state, post_ite, post_throw, post_pure, implies_true, and_self]

/-- So does a pull under the first protocol. -/
theorem labelled_nextBatch (nowMs : I64) : Labelled inner (nextBatch inner nowMs) := by
  refine (labelled_expireDue nowMs).bind fun _ =>
    (labelled_observe fun m => ?_).bind fun _ =>
      labelled_buildBatch
  simp only [requireNoGaps, post_bind, post_state, post_ite, post_throw, post_pure, implies_true,
    and_self]

theorem labelled_candidateItem (counted : OrdMap Nat RecordId) (candidate : BatchCandidateV2) :
    Labelled inner (candidateItem inner counted candidate) := by
  cases candidate with
  | gap notice => exact Call.Steps.pure _
  | record entry =>
      simp only [candidateItem]
      split
      · exact (Call.Steps.atomic (.read (finalState_eq_of_post readEntry_looks))).bind fun _ =>
          Call.Steps.pure _
      · refine (Call.Steps.attempt (.read (finalState_eq_of_post readEntry_looks))).bind
          fun answer => ?_
        split
        · exact (Call.Steps.atomic .quarantine).bind fun _ => Call.Steps.pure _
        · exact Call.Steps.fail _
        · exact Call.Steps.pure _

theorem labelled_scanV2 (counted : OrdMap Nat RecordId) (remaining : List BatchCandidateV2)
    (scan : ScanV2) : Labelled inner (scanV2 inner counted remaining scan) := by
  induction remaining generalizing scan with
  | nil => exact Call.Steps.pure _
  | cons candidate rest ih =>
      simp only [scanV2]
      split
      · exact Call.Steps.pure _
      · refine (labelled_candidateItem counted candidate).bind fun item => ?_
        cases item with
        | none => exact ih _
        | some item =>
            generalize encodedSize inner.host item.toJson = encodedBytes
            simp only
            split
            · exact Call.Steps.pure _
            · split
              · exact Call.Steps.pure _
              · split
                · exact Call.Steps.fail _
                · exact ih _

theorem labelled_buildBatchV2 (restarts : Nat) : Labelled inner (buildBatchV2 inner restarts) := by
  induction restarts with
  | zero => exact Call.Steps.fail _
  | succ restarts ih =>
      simp only [buildBatchV2]
      refine Call.Steps.bind (labelled_observe fun m => ?_) fun snapshot =>
        Call.Steps.bind (labelled_observe fun m => ?_) fun pendingGaps => ?_
      · simp only [post_bind, post_state, post_ite, post_throw, post_pure, implies_true, and_self]
      · simp only [post_bind, post_state, post_pure]
      · split
        · exact Call.Steps.fail _
        · refine (labelled_scanV2 _ _ _).bind fun scan => ?_
          split
          · exact ih
          · exact Call.Steps.pure _

/-- And one under the second. -/
theorem labelled_nextBatchV2 (restarts : Nat) (nowMs : I64) :
    Labelled inner (nextBatchV2 inner restarts nowMs) :=
  (labelled_expireDue nowMs).bind fun _ => labelled_buildBatchV2 restarts

/-! ### Acknowledgement -/

theorem quiet_pruneReceipt (oldest : ReceiptEntry) : Quiet inner (pruneReceipt inner oldest) := by
  have rest : Quiet inner (do
      Call.atomic (.removeReceipt oldest) (removeFile oldest.path)
      Call.atomic (.forgetReceipt oldest) <| Section.modifyState fun state =>
        { state with receipts := state.receipts.erase oldest.receipt.batchId }
      Call.atomic .sync syncDirectory) :=
    (Call.Steps.atomic ⟨rfl, .removeReceipt⟩).bind fun _ =>
      (Call.Steps.atomic ⟨rfl, .forgetReceipt⟩).bind fun _ => Call.Steps.atomic ⟨rfl, .sync⟩
  unfold pruneReceipt
  split
  · exact (Call.Steps.atomic ⟨rfl, .pruneHistory⟩).bind fun _ => rest
  · exact rest

/-- Pruning the receipts offers nothing. -/
theorem quiet_pruneReceipts : Quiet inner (pruneReceipts inner) := by
  have loop : ∀ passes, Quiet inner (pruneReceiptsLoop inner passes) := by
    intro passes
    induction passes with
    | zero => exact Call.Steps.fail _
    | succ passes ih =>
        simp only [pruneReceiptsLoop]
        refine Call.Steps.bind (quiet_observe fun m => ?_) fun oldest => ?_
        · simp only [post_bind, post_state, post_pure]
        · cases oldest with
          | none => exact Call.Steps.pure _
          | some oldest => exact (quiet_pruneReceipt oldest).bind fun _ => ih
  refine Call.Steps.bind (quiet_observe fun m => ?_) fun held => loop _
  simp only [post_bind, post_state, post_pure]

/-- Committing a receipt offers nothing, whatever number it takes. -/
theorem quiet_commitReceipt {receiptAt : Nat → AckReceipt}
    (numbered : ∀ sequence, (receiptAt sequence).sequence = sequence) :
    Quiet inner (commitReceipt inner receiptAt) := by
  refine Call.Steps.bind (Call.Steps.atomic ⟨rfl, .allocate⟩) fun sequence => ?_
  simp only
  split
  · exact Call.Steps.fail _
  · rename_i small
    rw [not_lt] at small
    have write : SectionOf inner (.writeReceipt (receiptAt sequence)) _ := .writeReceipt small
    have insert : SectionOf inner (.insertReceipt (receiptAt sequence)) _ := .insertReceipt
    rw [numbered sequence] at write insert
    exact (Call.Steps.atomic ⟨rfl, write⟩).bind fun _ =>
      (Call.Steps.atomic ⟨rfl, insert⟩).bind fun _ =>
        (Call.Steps.atomic ⟨rfl, .complete⟩).bind fun _ => quiet_pruneReceipts.bind fun _ =>
          Call.Steps.pure _

theorem receiptAdmissions_looks {α β : Type} (m : Machine) (items : List α)
    (admission : α → Section β)
    (looks : ∀ item m, Post (admission item) m (fun _ m' => m' = m) (fun _ m' => m' = m)) :
    Post (items.mapM admission) m (fun _ m' => m' = m) (fun _ m' => m' = m) := by
  induction items with
  | nil => exact rfl
  | cons item rest ih =>
      simp only [List.mapM_cons, post_bind, post_pure]
      refine (looks item m).monoOk ?_
      rintro _ m' rfl
      exact ih

/-- The part of `acknowledge` after the batch has been rebuilt. -/
theorem quiet_acknowledgeTail {delivered : HubBatchV1} {ack : HubAckV1} : Quiet inner (do
      let admissions ← Call.atomic .admissions (receiptAdmissionsV1 delivered ack)
      let receipt ← commitReceipt inner fun sequence =>
        { version := 1
          sequence := sequence
          batchId := ack.batchId
          acceptedRecordIds := ack.acceptedRecordIds
          acceptedStableRecordIds := []
          acceptedGapNoticeIds := []
          acceptedAdmissions := admissions }
      return ackResult receipt) := by
  refine Call.Steps.bind (Call.Steps.atomic ⟨rfl, .admissions (finalState_eq_of_post fun m => ?_)⟩)
    fun admissions => (quiet_commitReceipt fun _ => rfl).bind fun _ => Call.Steps.pure _
  simp only [receiptAdmissionsV1, post_bind, post_state]
  refine receiptAdmissions_looks m _ _ fun record m' => ?_
  cases m.state.entries.get? record.recordId <;> exact rfl

/-- The part of `acknowledge_v2` after the batch has been rebuilt. -/
theorem quiet_acknowledgeV2Tail {delivered : HubBatchV2} {ack : HubAckV2} : Quiet inner (do
      let admissions ← Call.atomic .admissions (receiptAdmissionsV2 delivered ack)
      let receipt ← commitReceipt inner (ack.receipt admissions)
      return ackResultV2 receipt) := by
  refine Call.Steps.bind (Call.Steps.atomic ⟨rfl, .admissions (finalState_eq_of_post fun m => ?_)⟩)
    fun admissions => (quiet_commitReceipt fun _ => rfl).bind fun _ => Call.Steps.pure _
  simp only [receiptAdmissionsV2, post_bind, post_state]
  refine receiptAdmissions_looks m _ _ fun record m' => ?_
  cases m.state.entries.get? record.legacyRecordId with
  | none => exact rfl
  | some entry =>
      simp only [post_ite, post_throw, post_pure, implies_true, and_self]

/-- So does an acknowledgement under the first protocol. -/
theorem labelled_acknowledge (ack : HubAckV1) : Labelled inner (acknowledge inner ack) := by
  unfold acknowledge
  split
  · exact Call.Steps.fail _
  · refine Call.Steps.bind (labelled_observe fun m => ?_) fun prior => ?_
    · simp only [post_bind, post_state, post_pure]
    · cases prior with
      | some prior =>
          simp only
          split
          · exact Call.Steps.fail _
          · exact (Call.Steps.atomic .complete).bind fun _ => Call.Steps.pure _
      | none =>
          refine Call.Steps.bind (labelled_observe fun m => ?_) fun _ =>
            labelled_buildBatch.bind fun delivered => ?_
          · simp only [post_bind, post_state, post_ite, post_throw, post_pure, implies_true,
              and_self]
          · split
            · exact Call.Steps.fail _
            · exact quiet_acknowledgeTail.labelled

/-- So does one under the second. -/
theorem labelled_acknowledgeV2 (restarts : Nat) (ack : HubAckV2) :
    Labelled inner (acknowledgeV2 inner restarts ack) := by
  unfold acknowledgeV2
  split
  · exact Call.Steps.fail _
  · refine Call.Steps.bind (labelled_observe fun m => ?_) fun prior => ?_
    · simp only [post_bind, post_state, post_pure]
    · cases prior with
      | some prior =>
          simp only
          split
          · exact Call.Steps.fail _
          · exact (Call.Steps.atomic .complete).bind fun _ => Call.Steps.pure _
      | none =>
          refine (labelled_buildBatchV2 restarts).bind fun delivered => ?_
          split
          · exact Call.Steps.fail _
          · exact quiet_acknowledgeV2Tail.labelled

/-- Every section of every call does what its label says. -/
theorem Request.sections (request : Request) : Labelled inner (request.call inner) := by
  cases request with
  | enqueue envelope admittedAtMs =>
      exact (labelled_enqueue envelope admittedAtMs).bind fun _ => Call.Steps.pure _
  | nextBatch nowMs => exact (labelled_nextBatch nowMs).bind fun _ => Call.Steps.pure _
  | nextBatchV2 restarts nowMs =>
      exact (labelled_nextBatchV2 restarts nowMs).bind fun _ => Call.Steps.pure _
  | acknowledge ack => exact (labelled_acknowledge ack).bind fun _ => Call.Steps.pure _
  | acknowledgeV2 restarts ack =>
      exact (labelled_acknowledgeV2 restarts ack).bind fun _ => Call.Steps.pure _
  | expireDue nowMs => exact (labelled_expireDue nowMs).bind fun _ => Call.Steps.pure _

end TeslatlasEdge
