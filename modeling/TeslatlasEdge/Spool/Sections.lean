/-
Module: TeslatlasEdge.Spool.Sections
Purpose: The parts of `spool.rs` that run while the state mutex is held: admission, expiry, gap
  persistence, run-time quarantine and receipt completion, together with the read of one pending
  file.
Trusted boundary: human-reviewed embedding
Main exports: enqueueLocked, expireDueLocked, persistGapLocked, removeAdmittedRecord,
  removeExpiredGapBacking, completeReceipt, readEntry, quarantineRuntimeEntry
-/
import TeslatlasEdge.Spool.Identity

namespace TeslatlasEdge

open Lib (OrdMap)
open Section

/-- Length of the compact JSON of a value. -/
def encodedSize (host : Host) (value : Value) : Nat := (value.print host.codec).size

/-! ### Durable structures -/

def persistSequenceState (inner : Inner) (nextSpoolSequence expiredRecordsTotal : Nat)
    (v1AckHistoryPruned : Bool) (countedPendingExpirations : OrdMap Nat RecordId) : Section Unit :=
  writeAtomic .sequence <| inner.key.encrypt <| .sequence
    { version := 1
      nextSpoolSequence := nextSpoolSequence
      expiredRecordsTotal := expiredRecordsTotal
      countedPendingExpirations := countedPendingExpirations
      v1AckHistoryPruned := v1AckHistoryPruned }

/-- Write the counters and the counted expirations as the state holds them. -/
def persistCurrentSequenceState (inner : Inner) : Section Unit := do
  let state ← state
  persistSequenceState inner state.nextSpoolSequence state.expiredRecords state.v1AckHistoryPruned
    state.countedPendingExpirations

/-- Hold a gap whose file has been written. -/
def State.recordGap (state : State) (notice : GapNoticeV2) (encryptedBytes : Nat) (path : Path) :
    State :=
  { state with
    pendingGapBytes := saturatingAdd state.pendingGapBytes encryptedBytes
    gaps := state.gaps.insert notice.noticeId
      { notice := notice, encryptedBytes := encryptedBytes, path := path } }

/-- Write the gap notice of an entry, unless the identical notice is already held. -/
def persistGapLocked (inner : Inner) (entry : Entry) (occurredAtMs : I64) (reason : GapReasonV2) :
    Section (RecordId × Bool) := do
  let state ← state
  let notice := gapNotice inner.host entry occurredAtMs reason
  let noticeId := notice.noticeId
  if state.gaps.contains noticeId then return (noticeId, false)
  if state.gaps.values.any fun gap => gap.notice.spoolSeq = entry.spoolSeq then
    throw .corruptRecord
  if state.entries.values.any fun pending =>
      pending.spoolSeq = entry.spoolSeq && pending.recordId ≠ entry.recordId then
    throw .corruptRecord
  if state.gaps.size ≥ inner.config.maxRecords then throw .capacityExceeded
  let encrypted := inner.key.encrypt (.gap notice)
  let encryptedBytes := encrypted.length
  if encryptedBytes > maxEncryptedGapBytes ∨
      saturatingAdd state.pendingGapBytes encryptedBytes > inner.config.maxBytes then
    throw .capacityExceeded
  let destination := Path.gap (gapFileName entry.spoolSeq noticeId)
  writeAtomic destination encrypted
  modifyState (·.recordGap notice encryptedBytes destination)
  return (noticeId, true)

/-! ### Removing admitted records -/

/-- The pending entry an admission names, if it is still that exact occurrence. -/
def admittedEntry (state : State) (admission : ReceiptAdmission) : Option Entry :=
  (state.entries.get? admission.legacyRecordId).filter fun entry =>
    entry.spoolSeq = admission.spoolSeq && entry.stableRecordId = admission.stableRecordId &&
      entry.recordId = admission.legacyRecordId

/-- Forget an entry whose file is gone. -/
def State.dropEntry (state : State) (entry : Entry) : State :=
  { state with
    entries := state.entries.erase entry.recordId
    stableIndex := state.stableIndex.erase entry.stableRecordId
    pendingBytes := saturatingSub state.pendingBytes entry.encryptedBytes }

def State.forgetCounted (state : State) (spoolSeq : Nat) : State :=
  { state with countedPendingExpirations := state.countedPendingExpirations.erase spoolSeq }

/-- Forget a gap whose file is gone. -/
def State.dropGap (state : State) (noticeId : RecordId) (gap : GapEntry) : State :=
  { state with
    gaps := state.gaps.erase noticeId
    pendingGapBytes := saturatingSub state.pendingGapBytes gap.encryptedBytes }

def removeAdmittedRecord (admission : ReceiptAdmission) : Section Bool := do
  let state ← state
  let countedIdentityMatches :=
    state.countedPendingExpirations.get? admission.spoolSeq = some admission.stableRecordId
  match admittedEntry state admission with
  | none =>
      if countedIdentityMatches then modifyState (·.forgetCounted admission.spoolSeq)
      return false
  | some entry =>
      removeFile entry.path
      modifyState (·.dropEntry entry)
      if countedIdentityMatches then modifyState (·.forgetCounted admission.spoolSeq)
      return true

/-- The occurrence an entry stands for. -/
def Entry.admission (entry : Entry) : ReceiptAdmission :=
  { spoolSeq := entry.spoolSeq
    stableRecordId := entry.stableRecordId
    legacyRecordId := entry.recordId }

/-- The counted entry whose derived retention gap has the given identity. -/
def expiredBacking (host : Host) (state : State) (noticeId : RecordId) : Option Entry :=
  state.entries.values.find? fun entry =>
    state.countedPendingExpirations.contains entry.spoolSeq &&
      (gapNotice host entry entry.expiresAtMs .retentionExpired).noticeId = noticeId

def removeExpiredGapBacking (inner : Inner) (noticeId : RecordId) : Section Bool := do
  let state ← state
  match expiredBacking inner.host state noticeId with
  | none => return false
  | some entry =>
      let removed ← removeAdmittedRecord entry.admission
      modifyState (·.forgetCounted entry.spoolSeq)
      return removed

/-! ### Receipt completion -/

def completeAdmissions : List ReceiptAdmission → Bool → Section Bool
  | [], removedPending => pure removedPending
  | admission :: rest, removedPending => do
      let removed ← removeAdmittedRecord admission
      completeAdmissions rest (removedPending || removed)

/-- Remove the gap, or the backing of a gap, that an accepted notice names.  The two flags tell
whether a pending file and whether a gap file may have gone. -/
def completeNotice (inner : Inner) (noticeId : RecordId) : Section (Bool × Bool) := do
  match (← state).gaps.get? noticeId with
  | none =>
      let removed ← removeExpiredGapBacking inner noticeId
      return (removed, false)
  | some gap =>
      removeFile gap.path
      modifyState (·.dropGap noticeId gap)
      return (false, true)

def completeNotices (inner : Inner) : List RecordId → Bool × Bool → Section (Bool × Bool)
  | [], flags => pure flags
  | noticeId :: rest, flags => do
      let removed ← completeNotice inner noticeId
      completeNotices inner rest (flags.1 || removed.1, flags.2 || removed.2)

def completeReceipt (inner : Inner) (receipt : AckReceipt) : Section Unit := do
  let removedPending ← completeAdmissions receipt.acceptedAdmissions false
  let flags ← completeNotices inner receipt.acceptedGapNoticeIds (removedPending, false)
  if flags.1 then syncDirectory
  syncDirectory
  persistCurrentSequenceState inner

/-! ### Expiry -/

/-- Count an entry as expired unless a gap or an earlier count already covers its sequence. -/
def countExpired (gaps : List GapEntry) (counted : OrdMap Nat RecordId × Nat) (entry : Entry) :
    OrdMap Nat RecordId × Nat :=
  if (! gaps.any fun gap => gap.notice.spoolSeq = entry.spoolSeq) &&
      ! counted.1.contains entry.spoolSeq then
    (counted.1.insert entry.spoolSeq entry.stableRecordId, counted.2 + 1)
  else counted

/-- Replace each expired entry by its gap while the gap budget allows; an entry that does not fit
stays as the backing of its own gap. -/
def expireEntries (inner : Inner) : List Entry → Bool → Section Bool
  | [], removedBacking => pure removedBacking
  | entry :: rest, removedBacking => do
      let persisted ← tryCatch
        (do
          let _ ← persistGapLocked inner entry entry.expiresAtMs .retentionExpired
          pure true)
        fun error => if error = .capacityExceeded then pure false else throw error
      if persisted then
        let _ ← removeAdmittedRecord entry.admission
        syncDirectory
        modifyState (·.forgetCounted entry.spoolSeq)
        expireEntries inner rest true
      else expireEntries inner rest removedBacking

/-- The entries `expire_due` acts on, in sequence order. -/
def dueEntries (state : State) (nowMs : I64) : List Entry :=
  sortBySeq Entry.spoolSeq <| state.entries.values.filter fun entry =>
    entry.expiresAtMs.val < nowMs.val || state.countedPendingExpirations.contains entry.spoolSeq

def expireDueLocked (inner : Inner) (nowMs : I64) : Section Nat := do
  let state ← state
  let expired := dueEntries state nowMs
  let (counted, expiredCount) :=
    expired.foldl (countExpired state.gaps.values) (state.countedPendingExpirations, 0)
  if expiredCount > 0 then
    match checkedAdd state.expiredRecords expiredCount with
    | none => throw .invalidConfig
    | some total =>
        -- one write covers the counter and every identity it counts
        persistSequenceState inner state.nextSpoolSequence total state.v1AckHistoryPruned counted
        modifyState fun state =>
          { state with expiredRecords := total, countedPendingExpirations := counted }
  let removedBacking ← expireEntries inner expired false
  if removedBacking then persistCurrentSequenceState inner
  return expiredCount

/-! ### Admission -/

inductive EnqueueOutcome where
  | stored (recordId : RecordId)
  | alreadyPresent (recordId : RecordId)
deriving DecidableEq

/-- The record `enqueue` builds for an envelope. -/
def storedRecord (inner : Inner) (envelope : Envelope) (admittedAtMs : I64) (spoolSeq : Nat) :
    StoredRecord F64 :=
  { version := 2
    recordId := envelope.recordId inner.host
    stableRecordId := some (envelope.stableRecordId inner.host)
    spoolSeq := some spoolSeq
    admittedAtMs := admittedAtMs
    expiresAtMs := I64.saturatingAdd admittedAtMs inner.config.retentionMs
    envelope := envelope }

/-- The sizes the record will have in a v1 and in a v2 batch. -/
def deliveryBytes (inner : Inner) (envelope : Envelope) (admittedAtMs : I64) (spoolSeq : Nat) :
    Nat × Nat :=
  (encodedSize inner.host <| HubBatchRecordV1.toJson
      { recordId := envelope.recordId inner.host
        receivedAtMs := admittedAtMs
        envelope := envelope },
    encodedSize inner.host <| HubBatchRecordV2.toJson
      { recordId := envelope.stableRecordId inner.host
        legacyRecordId := envelope.recordId inner.host
        spoolSeq := spoolSeq
        receivedAtMs := admittedAtMs
        envelope := envelope })

/-- The entry of a record whose file has been written. -/
def Entry.ofEnvelope (inner : Inner) (envelope : Envelope) (admittedAtMs : I64) (spoolSeq : Nat)
    (encryptedBytes : Nat) : Entry :=
  { recordId := envelope.recordId inner.host
    stableRecordId := envelope.stableRecordId inner.host
    spoolSeq := spoolSeq
    admittedAtMs := admittedAtMs
    expiresAtMs := I64.saturatingAdd admittedAtMs inner.config.retentionMs
    encryptedBytes := encryptedBytes
    path := .pending (pendingFileName spoolSeq (envelope.recordId inner.host)) }

/-- Hold a record whose file has been written. -/
def State.admitEntry (state : State) (entry : Entry) : State :=
  { state with
    pendingBytes := saturatingAdd state.pendingBytes entry.encryptedBytes
    stableIndex := state.stableIndex.insert entry.stableRecordId entry.recordId
    entries := state.entries.insert entry.recordId entry }

def enqueueLocked (inner : Inner) (envelope : Envelope) (admittedAtMs : I64) :
    Section EnqueueOutcome := do
  let recordId := envelope.recordId inner.host
  let stableRecordId := envelope.stableRecordId inner.host
  let state ← state
  if let some existing := state.stableIndex.get? stableRecordId then
    return .alreadyPresent existing
  let spoolSeq := state.nextSpoolSequence
  match checkedAdd spoolSeq 1 with
  | none => throw .invalidConfig
  | some nextSpoolSequence =>
      let stored := storedRecord inner envelope admittedAtMs spoolSeq
      let bytes := deliveryBytes inner envelope admittedAtMs spoolSeq
      if bytes.1 > inner.config.batchMaxBytes ∨ bytes.2 > inner.config.batchMaxBytes then
        throw .batchItemTooLarge
      let plaintext := Plain.ofStoredRecord inner.host.codec stored
      let predictedBytes := saturatingAdd plaintext.size 64
      if saturatingAdd state.entries.size state.gaps.size ≥ inner.config.maxRecords ∨
          saturatingAdd state.pendingBytes predictedBytes > inner.config.maxBytes then
        throw .capacityExceeded
      let encrypted := inner.key.encrypt plaintext
      let encryptedBytes := encrypted.length
      if encryptedBytes > maxEncryptedRecordBytes then throw .batchItemTooLarge
      if saturatingAdd state.pendingBytes encryptedBytes > inner.config.maxBytes then
        throw .capacityExceeded
      let entry := Entry.ofEnvelope inner envelope admittedAtMs spoolSeq encryptedBytes
      writeAtomic entry.path encrypted
      modifyState fun state => { state.admitEntry entry with nextSpoolSequence := nextSpoolSequence }
      persistCurrentSequenceState inner
      return .stored recordId

/-! ### Pending files at run time -/

/-- The record in the file of an entry, if the file is intact and is that record. -/
def decodeEntry (inner : Inner) (entry : Entry) : Option Blob → Except SpoolError (StoredRecord F64)
  | none => .error .corruptRecord
  | some body =>
      if body.length > maxEncryptedRecordBytes then .error .corruptRecord
      else
        match inner.key.decrypt inner.host body with
        | .error error => .error error.toSpoolError
        | .ok plaintext =>
            match plaintext.toStoredRecord inner.host.codec with
            | none => .error .corruptRecord
            | some stored =>
                if ¬ validStoredRecord inner.host stored ∨ stored.recordId ≠ entry.recordId ∨
                    stored.stableRecordId ≠ some entry.stableRecordId ∨
                    stored.spoolSeq ≠ some entry.spoolSeq then
                  .error .corruptRecord
                else .ok stored

def readEntry (inner : Inner) (entry : Entry) : Section (StoredRecord F64) := do
  match decodeEntry inner entry ((← disk).read entry.path) with
  | .error error => throw error
  | .ok stored => return stored

/-- Forget an entry whose file is in quarantine. -/
def State.dropQuarantined (state : State) (entry : Entry) : State :=
  { state.dropEntry entry with corruptRecords := saturatingAdd state.corruptRecords 1 }

def quarantineRuntimeEntry (inner : Inner) (entry : Entry) : Section Unit := do
  if ¬ (← state).entries.contains entry.recordId then return ()
  let _ ← persistGapLocked inner entry entry.admittedAtMs .integrityQuarantine
  tryCatch (quarantineFileBounded inner entry.path) fun error => do
    if error = .io ∧ ((← disk).read entry.path).isNone then syncDirectory else throw error
  modifyState (·.dropQuarantined entry)

end TeslatlasEdge
