/-
Module: TeslatlasEdge.Spool.Calls
Purpose: The public calls of a running spool as sequences of atomic sections: each section is one
  hold of the state mutex, or one file access made while it is free.
Trusted boundary: human-reviewed embedding.  Each pass of the self-call of `build_batch_v2` and of
  the loop of `prune_receipts` uses up one unit of a given bound.
Main exports: Label, SpoolCall, enqueue, expireDue, nextBatch, buildBatch, nextBatchV2,
  buildBatchV2, acknowledge, acknowledgeV2, pruneReceipts
-/
import TeslatlasEdge.Spool.Sections

namespace TeslatlasEdge

open Lib (OrdMap Call)
open Section

/-- What a section is for. -/
inductive Label where
  | observe
  | enqueue (envelope : Envelope) (admittedAtMs : I64)
  | expire (nowMs : I64)
  | read (entry : Entry)
  | quarantine (entry : Entry)
  | admissions
  | allocate
  | writeReceipt (receipt : AckReceipt)
  | insertReceipt (receipt : AckReceipt)
  | complete (receipt : AckReceipt)
  | pruneHistory
  | removeReceipt (oldest : ReceiptEntry)
  | forgetReceipt (oldest : ReceiptEntry)
  | sync

abbrev SpoolCall := Call Label SpoolError Machine

/-! ### Admission and expiry -/

def enqueue (inner : Inner) (envelope : Envelope) (admittedAtMs : I64) :
    SpoolCall EnqueueOutcome := do
  match envelope.validate with
  | .error _ => Call.fail .corruptRecord
  | .ok () =>
      Call.atomic .observe do
        if (← get).storageWriteFailed then throw .io
      Call.atomic (.enqueue envelope admittedAtMs) (enqueueLocked inner envelope admittedAtMs)

def expireDue (inner : Inner) (nowMs : I64) : SpoolCall Nat :=
  Call.atomic (.expire nowMs) (expireDueLocked inner nowMs)

/-! ### v1 batches -/

/-- Order by admission time, then by identity. -/
def Entry.admittedBefore (left right : Entry) : Prop :=
  left.admittedAtMs.val < right.admittedAtMs.val ∨
    left.admittedAtMs.val = right.admittedAtMs.val ∧ left.recordId ≤ right.recordId

instance : DecidableRel Entry.admittedBefore := fun left right =>
  inferInstanceAs (Decidable (left.admittedAtMs.val < right.admittedAtMs.val ∨
    left.admittedAtMs.val = right.admittedAtMs.val ∧ left.recordId ≤ right.recordId))

/-- The loop of `build_batch`: the records taken so far and their encoded length. -/
def scanV1 (inner : Inner) :
    List Entry → List HubBatchRecordV1 → Nat → SpoolCall (List HubBatchRecordV1)
  | [], records, _ => pure records
  | entry :: rest, records, bodyBytes =>
      if records.length ≥ min inner.config.batchMaxRecords 256 then pure records
      else do
        match ← Call.attempt (.read entry) (readEntry inner entry) with
        | .error .corruptRecord =>
            Call.atomic (.quarantine entry) (quarantineRuntimeEntry inner entry)
            scanV1 inner rest records bodyBytes
        | .error error => Call.fail error
        | .ok stored =>
            let record : HubBatchRecordV1 :=
              { recordId := stored.recordId
                receivedAtMs := stored.admittedAtMs
                envelope := stored.envelope }
            let encodedBytes := encodedSize inner.host record.toJson
            if records ≠ [] ∧ saturatingAdd bodyBytes encodedBytes > inner.config.batchMaxBytes then
              pure records
            else if encodedBytes > inner.config.batchMaxBytes then Call.fail .batchItemTooLarge
            else scanV1 inner rest (records ++ [record]) (saturatingAdd bodyBytes encodedBytes)

/-- v1 delivery is refused while a gap is pending in either form. -/
def requireNoGaps : Section Unit := do
  let state ← state
  if ¬ state.gaps.isEmpty ∨ ¬ state.countedPendingExpirations.isEmpty then
    throw .protocolUpgradeRequired

def buildBatch (inner : Inner) : SpoolCall HubBatchV1 := do
  let ordered ← Call.atomic .observe do
    let state ← state
    if state.unresolvedIntegrity then throw .corruptRecord
    return state.entries.values.insertionSort Entry.admittedBefore
  let records ← scanV1 inner ordered [] 0
  Call.atomic .observe requireNoGaps
  return { version := 1, batchId := batchId inner.host records, records := records }

def nextBatch (inner : Inner) (nowMs : I64) : SpoolCall HubBatchV1 := do
  let _ ← expireDue inner nowMs
  Call.atomic .observe do
    if (← state).unresolvedIntegrity then throw .corruptRecord
    requireNoGaps
  buildBatch inner

/-! ### v2 batches -/

inductive BatchCandidateV2 where
  | record (entry : Entry)
  | gap (notice : GapNoticeV2)

def BatchCandidateV2.spoolSeq : BatchCandidateV2 → Nat
  | .record entry => entry.spoolSeq
  | .gap notice => notice.spoolSeq

inductive BatchItemV2 where
  | record (delivered : HubBatchRecordV2)
  | gap (notice : GapNoticeV2)

def BatchItemV2.toJson : BatchItemV2 → Value
  | .record delivered => delivered.toJson
  | .gap notice => notice.toJson

/-- Two neighbours of a sorted candidate list share their sequence. -/
def repeatsSequence : List BatchCandidateV2 → Bool
  | first :: second :: rest => first.spoolSeq = second.spoolSeq || repeatsSequence (second :: rest)
  | _ => false

/-- The item a candidate becomes, or `none` when its file was damaged and has been quarantined. -/
def candidateItem (inner : Inner) (counted : OrdMap Nat RecordId) :
    BatchCandidateV2 → SpoolCall (Option BatchItemV2)
  | .gap notice => pure (some (.gap notice))
  | .record entry =>
      if counted.contains entry.spoolSeq then do
        let _ ← Call.atomic (.read entry) (readEntry inner entry)
        return some (.gap (gapNotice inner.host entry entry.expiresAtMs .retentionExpired))
      else do
        match ← Call.attempt (.read entry) (readEntry inner entry) with
        | .error .corruptRecord =>
            Call.atomic (.quarantine entry) (quarantineRuntimeEntry inner entry)
            return none
        | .error error => Call.fail error
        | .ok stored =>
            return some <| .record
              { recordId := entry.stableRecordId
                legacyRecordId := entry.recordId
                spoolSeq := entry.spoolSeq
                receivedAtMs := stored.admittedAtMs
                envelope := stored.envelope }

/-- The variables of the loop of `build_batch_v2`. -/
structure ScanV2 where
  records : List HubBatchRecordV2
  gaps : List GapNoticeV2
  bodyBytes : Nat
  quarantined : Bool

namespace ScanV2

def start : ScanV2 := { records := [], gaps := [], bodyBytes := 0, quarantined := false }

/-- The category of the item already holds 256 items. -/
def categoryFull (scan : ScanV2) : BatchItemV2 → Bool
  | .record _ => decide (scan.records.length ≥ 256)
  | .gap _ => decide (scan.gaps.length ≥ 256)

def push (scan : ScanV2) (encodedBytes : Nat) : BatchItemV2 → ScanV2
  | .record record =>
      { scan with
        records := scan.records ++ [record]
        bodyBytes := saturatingAdd scan.bodyBytes encodedBytes }
  | .gap notice =>
      { scan with
        gaps := scan.gaps ++ [notice]
        bodyBytes := saturatingAdd scan.bodyBytes encodedBytes }

end ScanV2

/-- The loop of `build_batch_v2`. -/
def scanV2 (inner : Inner) (counted : OrdMap Nat RecordId) :
    List BatchCandidateV2 → ScanV2 → SpoolCall ScanV2
  | [], scan => pure scan
  | candidate :: rest, scan =>
      if saturatingAdd scan.records.length scan.gaps.length ≥ inner.config.batchMaxRecords then
        pure scan
      else do
        match ← candidateItem inner counted candidate with
        | none => scanV2 inner counted rest { scan with quarantined := true }
        | some item =>
            let encodedBytes := encodedSize inner.host item.toJson
            if scan.categoryFull item then pure scan
            else if (scan.records ≠ [] ∨ scan.gaps ≠ []) ∧
                saturatingAdd scan.bodyBytes encodedBytes > inner.config.batchMaxBytes then
              pure scan
            else if encodedBytes > inner.config.batchMaxBytes then Call.fail .batchItemTooLarge
            else scanV2 inner counted rest (scan.push encodedBytes item)

/-- `build_batch_v2`, which starts over after it has quarantined a file. -/
def buildBatchV2 (inner : Inner) : Nat → SpoolCall HubBatchV2
  | 0 => Call.fail .unrolled
  | restarts + 1 => do
      let (ordered, counted) ← Call.atomic .observe do
        let state ← state
        if state.unresolvedIntegrity then throw .corruptRecord
        return (sortBySeq Entry.spoolSeq state.entries.values, state.countedPendingExpirations)
      let pendingGaps ← Call.atomic .observe do
        return (← state).gaps.values.map (·.notice)
      let candidates := sortBySeq BatchCandidateV2.spoolSeq <|
        ordered.map .record ++ pendingGaps.map .gap
      if repeatsSequence candidates then Call.fail .corruptRecord
      else do
        let scan ← scanV2 inner counted candidates ScanV2.start
        if scan.quarantined then buildBatchV2 inner restarts
        else
          return { version := 2
                   batchId := batchIdV2 inner.host scan.records scan.gaps
                   records := scan.records
                   gaps := scan.gaps }

def nextBatchV2 (inner : Inner) (restarts : Nat) (nowMs : I64) : SpoolCall HubBatchV2 := do
  let _ ← expireDue inner nowMs
  buildBatchV2 inner restarts

/-! ### Receipts -/

/-- The receipt `prune_receipts` drops next. -/
def oldestReceipt (receipts : OrdMap Str ReceiptEntry) : Option ReceiptEntry :=
  if receipts.size ≤ maxAckReceipts then none
  else receipts.values.argmin fun entry => entry.receipt.sequence

/-- One pass of the loop of `prune_receipts`. -/
def pruneReceipt (inner : Inner) (oldest : ReceiptEntry) : SpoolCall Unit := do
  if oldest.receipt.version = 1 then
    Call.atomic .pruneHistory do
      if ¬ (← state).v1AckHistoryPruned then
        modifyState fun state => { state with v1AckHistoryPruned := true }
        persistCurrentSequenceState inner
  Call.atomic (.removeReceipt oldest) (removeFile oldest.path)
  Call.atomic (.forgetReceipt oldest) <| modifyState fun state =>
    { state with receipts := state.receipts.erase oldest.receipt.batchId }
  Call.atomic .sync syncDirectory

/-- The loop of `prune_receipts`. -/
def pruneReceiptsLoop (inner : Inner) : Nat → SpoolCall Unit
  | 0 => Call.fail .unrolled
  | passes + 1 => do
      match ← Call.atomic .observe (do return oldestReceipt (← state).receipts) with
      | none => pure ()
      | some oldest =>
          pruneReceipt inner oldest
          pruneReceiptsLoop inner passes

/-- `prune_receipts`; every pass forgets a receipt, so one more pass than there are receipts is
enough. -/
def pruneReceipts (inner : Inner) : SpoolCall Unit := do
  let held ← Call.atomic .observe (do return (← state).receipts.size)
  pruneReceiptsLoop inner (held + 1)

/-- Take the next receipt sequence. -/
def allocateReceipt : Section Nat := do
  let sequence := (← state).nextReceiptSequence
  match checkedAdd sequence 1 with
  | none => throw .invalidConfig
  | some next =>
      modifyState fun state => { state with nextReceiptSequence := next }
      return sequence

/-- The end of both acknowledgement calls: make the receipt durable, complete it, prune. -/
def commitReceipt (inner : Inner) (receiptAt : Nat → AckReceipt) : SpoolCall AckReceipt := do
  let sequence ← Call.atomic .allocate allocateReceipt
  let receipt := receiptAt sequence
  let encrypted := inner.key.encrypt (.receipt receipt)
  if encrypted.length > maxEncryptedReceiptBytes then Call.fail .capacityExceeded
  else do
    let destination := Path.receipt (receiptFileName sequence receipt.batchId)
    Call.atomic (.writeReceipt receipt) (writeAtomic destination encrypted)
    Call.atomic (.insertReceipt receipt) <| modifyState fun state =>
      { state with
        receipts := state.receipts.insert receipt.batchId
          { receipt := receipt, path := destination } }
    Call.atomic (.complete receipt) (completeReceipt inner receipt)
    pruneReceipts inner
    return receipt

/-! ### Acknowledgement -/

/-- The admissions an acknowledged v1 batch names, in the order of the batch. -/
def receiptAdmissionsV1 (delivered : HubBatchV1) (ack : HubAckV1) :
    Section (List ReceiptAdmission) := do
  let state ← state
  (delivered.records.filter fun record => ack.acceptedRecordIds.contains record.recordId).mapM
    fun record =>
      match state.entries.get? record.recordId with
      | none => throw .invalidAcknowledgement
      | some entry => pure entry.admission

/-- The admissions an acknowledged v2 batch names; each must still be the delivered occurrence. -/
def receiptAdmissionsV2 (delivered : HubBatchV2) (ack : HubAckV2) :
    Section (List ReceiptAdmission) := do
  let state ← state
  (delivered.records.filter fun record => ack.acceptedRecordIds.contains record.recordId).mapM
    fun record =>
      match state.entries.get? record.legacyRecordId with
      | none => throw .invalidAcknowledgement
      | some entry =>
          if entry.spoolSeq ≠ record.spoolSeq ∨ entry.stableRecordId ≠ record.recordId then
            throw .invalidAcknowledgement
          else pure
            { spoolSeq := record.spoolSeq
              stableRecordId := record.recordId
              legacyRecordId := record.legacyRecordId }

def acknowledge (inner : Inner) (ack : HubAckV1) : SpoolCall HubAckResultV1 := do
  if ack.version ≠ 1 ∨ ¬ validDigest ack.batchId ∨
      ack.acceptedRecordIds.dedup.length ≠ ack.acceptedRecordIds.length then
    Call.fail .invalidAcknowledgement
  else do
    match ← Call.atomic .observe (do return (← state).receipts.get? ack.batchId) with
    | some prior =>
        if ¬ sameRecordIds prior.receipt.acceptedRecordIds ack.acceptedRecordIds then
          Call.fail .invalidAcknowledgement
        else do
          Call.atomic (.complete prior.receipt) (completeReceipt inner prior.receipt)
          return ackResult prior.receipt
    | none =>
        Call.atomic .observe do
          if (← state).v1AckHistoryPruned then throw .v1AcknowledgementHistoryPruned
        let delivered ← buildBatch inner
        if delivered.batchId ≠ ack.batchId ∨ ack.acceptedRecordIds.any (fun recordId =>
            ! (delivered.records.map (·.recordId)).contains recordId) then
          Call.fail .invalidAcknowledgement
        else do
          let admissions ← Call.atomic .admissions (receiptAdmissionsV1 delivered ack)
          let receipt ← commitReceipt inner fun sequence =>
            { version := 1
              sequence := sequence
              batchId := ack.batchId
              acceptedRecordIds := ack.acceptedRecordIds
              acceptedStableRecordIds := []
              acceptedGapNoticeIds := []
              acceptedAdmissions := admissions }
          return ackResult receipt

/-- The checks `acknowledge_v2` makes of an acknowledgement on its own. -/
def HubAckV2.wellFormed (ack : HubAckV2) : Bool :=
  ack.version = 2 && validDigest ack.batchId &&
    ack.acceptedRecordIds.dedup.length = ack.acceptedRecordIds.length &&
    ack.acceptedGapNoticeIds.dedup.length = ack.acceptedGapNoticeIds.length

/-- The checks `acknowledge_v2` makes against the batch it has rebuilt. -/
def HubAckV2.matchesBatch (ack : HubAckV2) (delivered : HubBatchV2) : Bool :=
  delivered.batchId = ack.batchId &&
    ack.acceptedRecordIds.all (fun recordId =>
      (delivered.records.map (·.recordId)).contains recordId) &&
    ack.acceptedGapNoticeIds.all (fun noticeId =>
      (delivered.gaps.map (·.noticeId)).contains noticeId) &&
    v2AckIsMergedPrefix delivered ack

/-- The receipt of a fresh v2 acknowledgement. -/
def HubAckV2.receipt (ack : HubAckV2) (admissions : List ReceiptAdmission) (sequence : Nat) :
    AckReceipt :=
  { version := 2
    sequence := sequence
    batchId := ack.batchId
    acceptedRecordIds := []
    acceptedStableRecordIds := ack.acceptedRecordIds
    acceptedGapNoticeIds := ack.acceptedGapNoticeIds
    acceptedAdmissions := admissions }

def acknowledgeV2 (inner : Inner) (restarts : Nat) (ack : HubAckV2) :
    SpoolCall HubAckResultV2 := do
  if ¬ ack.wellFormed then Call.fail .invalidAcknowledgement
  else do
    match ← Call.atomic .observe (do return (← state).receipts.get? ack.batchId) with
    | some prior =>
        if prior.receipt.version ≠ 2 ∨
            ¬ sameRecordIds prior.receipt.acceptedStableRecordIds ack.acceptedRecordIds ∨
            ¬ sameRecordIds prior.receipt.acceptedGapNoticeIds ack.acceptedGapNoticeIds then
          Call.fail .invalidAcknowledgement
        else do
          Call.atomic (.complete prior.receipt) (completeReceipt inner prior.receipt)
          return ackResultV2 prior.receipt
    | none =>
        let delivered ← buildBatchV2 inner restarts
        if ¬ ack.matchesBatch delivered then Call.fail .invalidAcknowledgement
        else do
          let admissions ← Call.atomic .admissions (receiptAdmissionsV2 delivered ack)
          let receipt ← commitReceipt inner (ack.receipt admissions)
          return ackResultV2 receipt

end TeslatlasEdge
