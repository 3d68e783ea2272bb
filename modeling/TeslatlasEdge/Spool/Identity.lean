/-
Module: TeslatlasEdge.Spool.Identity
Purpose: The pure functions of `spool.rs`: gap notices, batch digests, the checks on stored records,
  gap notices and configurations, and the prefix test on acknowledgements.
Trusted boundary: human-reviewed embedding
Main exports: gapNotice, batchId, batchIdV2, validStoredRecord, validGapNotice, validateConfig,
  v2AckIsMergedPrefix, sameRecordIds, validReceipt
-/
import TeslatlasEdge.Spool.Machine

namespace TeslatlasEdge

open Lib (OrdMap)

def maxAckReceipts : Nat := 1024

def maxEncryptedRecordBytes : Nat := 384 * 1024

def maxEncryptedReceiptBytes : Nat := 160 * 1024

def maxEncryptedSequenceStateBytes : Nat := 100 * 1000000 + 1024

def maxEncryptedGapBytes : Nat := 16 * 1024

def maxFormatMarkerBytes : Nat := 8

/-! ### Gap notices -/

def gapEvidence (host : Host) (spoolSeq : Nat) (identity : RecordId) (reason : GapReasonV2) : Str :=
  hexEncode <| Subtype.val <| host.sha256 <|
    domain "teslatlas-edge-gap-evidence-v2" ++ beBytes spoolSeq ++ Str.bytes identity.text ++
      Str.bytes reason.label

def gapNoticeId (host : Host) (spoolSeq : Nat) (reason : GapReasonV2) (evidence : Str) : RecordId :=
  .fromSha256 <| host.sha256 <|
    domain "teslatlas-edge-gap-notice-v2" ++ beBytes spoolSeq ++ Str.bytes reason.label ++
      Str.bytes evidence

def gapNoticeForIdentity (host : Host) (spoolSeq : Nat) (identity : RecordId) (occurredAtMs : I64)
    (reason : GapReasonV2) : GapNoticeV2 :=
  let evidence := gapEvidence host spoolSeq identity reason
  { noticeId := gapNoticeId host spoolSeq reason evidence
    spoolSeq := spoolSeq
    occurredAtMs := occurredAtMs
    reason := reason
    evidenceSha256 := evidence }

def gapNotice (host : Host) (entry : Entry) (occurredAtMs : I64) (reason : GapReasonV2) :
    GapNoticeV2 :=
  gapNoticeForIdentity host entry.spoolSeq entry.stableRecordId occurredAtMs reason

def validGapNotice (host : Host) (notice : GapNoticeV2) : Bool :=
  notice.spoolSeq ≠ 0 && validDigest notice.evidenceSha256 &&
    notice.noticeId == gapNoticeId host notice.spoolSeq notice.reason notice.evidenceSha256

/-- Every gap notice that is made passes its own check. -/
theorem validGapNotice_gapNoticeForIdentity (host : Host) {spoolSeq : Nat} (positive : 1 ≤ spoolSeq)
    (identity : RecordId) (occurredAtMs : I64) (reason : GapReasonV2) :
    validGapNotice host (gapNoticeForIdentity host spoolSeq identity occurredAtMs reason) = true := by
  have nonzero : spoolSeq ≠ 0 := by omega
  have digest : validDigest (gapEvidence host spoolSeq identity reason) = true :=
    validDigest_hexEncode (host.sha256 _).property
  simp [validGapNotice, gapNoticeForIdentity, nonzero, digest]

/-! ### Stored records and configurations -/

def validateConfig (config : SpoolConfig) : Except SpoolError Unit :=
  if config.maxBytes = 0 ∨ config.maxRecords = 0 ∨ config.retentionMs.val ≤ 0 ∨
      config.batchMaxBytes = 0 ∨ config.batchMaxRecords = 0 ∨
      config.batchMaxRecords > config.maxRecords then
    .error .invalidConfig
  else .ok ()

/-- The limits `EdgeConfig::validate_shape` puts on the configuration of a spool. -/
structure SpoolConfig.WithinLimits (config : SpoolConfig) : Prop where
  maxBytes : 1048576 ≤ config.maxBytes ∧ config.maxBytes ≤ 8 * 1024 * 1024 * 1024
  maxRecords : 1 ≤ config.maxRecords ∧ config.maxRecords ≤ 1000000
  retention : 60 * 1000 ≤ config.retentionMs.val ∧
    config.retentionMs.val ≤ 30 * 24 * 60 * 60 * 1000
  batchMaxBytes : 1 ≤ config.batchMaxBytes ∧ config.batchMaxBytes ≤ 4 * 1024 * 1024
  batchMaxRecords : 1 ≤ config.batchMaxRecords ∧ config.batchMaxRecords ≤ 1024
  batchBytesFit : config.batchMaxBytes ≤ config.maxBytes
  batchRecordsFit : config.batchMaxRecords ≤ config.maxRecords

theorem SpoolConfig.WithinLimits.maxBytes_lt {config : SpoolConfig} (limits : config.WithinLimits) :
    config.maxBytes < u64Max :=
  lt_of_le_of_lt limits.maxBytes.2 (by decide)

def validStoredRecord (host : Host) (stored : StoredRecord F64) : Bool :=
  if stored.envelope.validate.toOption = none ∨
      stored.recordId ≠ stored.envelope.recordId host ∨
      stored.expiresAtMs.val < stored.admittedAtMs.val then
    false
  else if stored.version = 1 then
    stored.stableRecordId = none && stored.spoolSeq = none
  else if stored.version = 2 then
    stored.stableRecordId = some (stored.envelope.stableRecordId host) &&
      (stored.spoolSeq.any fun sequence => sequence > 0)
  else false

/-! ### Batch digests -/

def batchId (host : Host) (records : List HubBatchRecordV1) : Str :=
  hexEncode <| Subtype.val <| host.sha256 <|
    domain "teslatlas-edge-batch-v1" ++
      records.flatMap fun record => Str.bytes record.recordId.text ++ [0]

/-- Order by sequence; equal sequences keep their order. -/
def sortBySeq {α : Type} (seq : α → Nat) (items : List α) : List α :=
  items.insertionSort fun a b => seq a ≤ seq b

/-- One item of a merged batch: its sequence, whether it is a record, and its identity. -/
structure MergedItem where
  spoolSeq : Nat
  isRecord : Bool
  id : RecordId
deriving DecidableEq

/-- Records and gaps of a batch in sequence order. -/
def mergedItems (records : List HubBatchRecordV2) (gaps : List GapNoticeV2) : List MergedItem :=
  sortBySeq MergedItem.spoolSeq <|
    records.map (fun record => ⟨record.spoolSeq, true, record.recordId⟩) ++
      gaps.map fun gap => ⟨gap.spoolSeq, false, gap.noticeId⟩

/-- The bytes of one item in the batch digest. -/
def MergedItem.digestBytes (item : MergedItem) : Bytes :=
  (if item.isRecord then 0x72 else 0x67) :: beBytes item.spoolSeq ++ Str.bytes item.id.text ++ [0]

def batchIdV2 (host : Host) (records : List HubBatchRecordV2) (gaps : List GapNoticeV2) : Str :=
  hexEncode <| Subtype.val <| host.sha256 <|
    domain "teslatlas-edge-batch-v2" ++ (mergedItems records gaps).flatMap MergedItem.digestBytes

/-! ### Acknowledgements -/

/-- The loop of `v2_ack_is_merged_prefix`: how many items were matched, unless an accepted item
follows one that is not. -/
def matchPrefix (accepted : MergedItem → Bool) : List MergedItem → Nat → Bool → Option Nat
  | [], matched, _ => some matched
  | item :: items, matched, sawUnaccepted =>
      if accepted item then
        if sawUnaccepted then none
        else matchPrefix accepted items (saturatingAdd matched 1) sawUnaccepted
      else matchPrefix accepted items matched true

def HubAckV2.accepts (ack : HubAckV2) (item : MergedItem) : Bool :=
  if item.isRecord then ack.acceptedRecordIds.contains item.id
  else ack.acceptedGapNoticeIds.contains item.id

def v2AckIsMergedPrefix (batch : HubBatchV2) (ack : HubAckV2) : Bool :=
  match matchPrefix ack.accepts (mergedItems batch.records batch.gaps) 0 false with
  | none => false
  | some matched =>
      matched = saturatingAdd ack.acceptedRecordIds.dedup.length
        ack.acceptedGapNoticeIds.dedup.length

/-- Equal lengths and equal sets. -/
def sameRecordIds (left right : List RecordId) : Bool :=
  left.length = right.length && left.all (right.contains ·) && right.all (left.contains ·)

/-- The check of a list without repetitions. -/
theorem dedup_length_eq_iff {ids : List RecordId} : ids.dedup.length = ids.length ↔ ids.Nodup := by
  refine ⟨fun same => ?_, fun distinct => by rw [List.dedup_eq_self.mpr distinct]⟩
  rw [← List.dedup_eq_self]
  exact ids.dedup_sublist.eq_of_length same

def ackResult (receipt : AckReceipt) : HubAckResultV1 :=
  { version := 1, acknowledgedRecordIds := receipt.acceptedRecordIds, unknownRecordIds := [] }

def ackResultV2 (receipt : AckReceipt) : HubAckResultV2 :=
  { version := 2
    acknowledgedRecordIds := receipt.acceptedStableRecordIds
    acknowledgedGapNoticeIds := receipt.acceptedGapNoticeIds
    unknownRecordIds := []
    unknownGapNoticeIds := [] }

/-- The sets of two lists are equal. -/
def sameSet (left right : List RecordId) : Bool :=
  left.all (right.contains ·) && right.all (left.contains ·)

/-- Everything `recover_receipts` checks of a receipt apart from its file name and its uniqueness. -/
def validReceipt (receipt : AckReceipt) : Bool :=
  let versionShape :=
    if receipt.version = 1 then
      receipt.acceptedStableRecordIds.isEmpty && receipt.acceptedGapNoticeIds.isEmpty
    else if receipt.version = 2 then receipt.acceptedRecordIds.isEmpty
    else false
  let admissionShape :=
    (receipt.acceptedAdmissions.all fun admission => admission.spoolSeq > 0) &&
      if receipt.version = 1 then
        receipt.acceptedAdmissions.length = receipt.acceptedRecordIds.length &&
          sameSet (receipt.acceptedAdmissions.map (·.legacyRecordId)) receipt.acceptedRecordIds
      else if receipt.version = 2 then
        receipt.acceptedAdmissions.length = receipt.acceptedStableRecordIds.length &&
          sameSet (receipt.acceptedAdmissions.map (·.stableRecordId))
            receipt.acceptedStableRecordIds
      else false
  versionShape && admissionShape && validDigest receipt.batchId &&
    receipt.acceptedRecordIds.length ≤ 256 && receipt.acceptedStableRecordIds.length ≤ 256 &&
    receipt.acceptedGapNoticeIds.length ≤ 256 && receipt.sequence ≠ u64Max &&
    receipt.acceptedRecordIds.dedup.length = receipt.acceptedRecordIds.length &&
    receipt.acceptedStableRecordIds.dedup.length = receipt.acceptedStableRecordIds.length &&
    receipt.acceptedGapNoticeIds.dedup.length = receipt.acceptedGapNoticeIds.length &&
    receipt.acceptedAdmissions.dedup.length = receipt.acceptedAdmissions.length

end TeslatlasEdge
