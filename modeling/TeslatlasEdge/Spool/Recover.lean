/-
Module: TeslatlasEdge.Spool.Recover
Purpose: `Spool::open`: reading the four kinds of files back, moving damaged files to quarantine,
  migrating version 1 records, completing receipts, and the format marker.
Trusted boundary: human-reviewed embedding
Main exports: recoverGaps, quarantineRecoveredPending, scanPending, loadRecords,
  recoverSequenceState, recoverReceipts, recover, openSpool
-/
import TeslatlasEdge.Spool.Calls

namespace TeslatlasEdge

open Lib (OrdMap Call)
open Section

/-- One listed file. -/
abbrev NamedBlob := (_ : Str) × Blob

/-- `path.extension() == Some(extension)`; a name that is only a suffix has no extension. -/
def hasExtension (suffix name : Str) : Bool := suffix.isSuffixOf name && name.length > suffix.length

/-- A damaged file has been moved aside. -/
def countCorrupt : Section Unit :=
  modifyState fun state => { state with corruptRecords := saturatingAdd state.corruptRecords 1 }

/-! ### Gaps -/

/-- The notice in a gap file, if the file is one the spool wrote under its own name. -/
def decodeGap (inner : Inner) (file : NamedBlob) : Except SpoolError GapNoticeV2 :=
  if ¬ hasExtension gapSuffix file.1 ∨ file.2.length > maxEncryptedGapBytes then
    .error .corruptRecord
  else
    match inner.key.decrypt inner.host file.2 with
    | .error error => .error error.toSpoolError
    | .ok plaintext =>
        match plaintext.toGapNotice with
        | none => .error .corruptRecord
        | some notice =>
            if ¬ validGapNotice inner.host notice ∨
                file.1 ≠ gapFileName notice.spoolSeq notice.noticeId then
              .error .corruptRecord
            else .ok notice

def recoverGap (inner : Inner) (file : NamedBlob) : Section Unit := do
  match decodeGap inner file with
  | .error error => throw error
  | .ok notice =>
      let state ← state
      if state.gaps.contains notice.noticeId ∨
          state.gaps.values.any (fun gap => gap.notice.spoolSeq = notice.spoolSeq) then
        throw .corruptRecord
      if state.gaps.size ≥ inner.config.maxRecords ∨
          saturatingAdd state.pendingGapBytes file.2.length > inner.config.maxBytes then
        throw .capacityExceeded
      modifyState (·.recordGap notice file.2.length (.gap file.1))

def recoverGaps (inner : Inner) : List NamedBlob → Section Unit
  | [] => pure ()
  | file :: rest => do
      recoverGap inner file
      recoverGaps inner rest

/-! ### Pending files -/

/-- The entry that stands for a damaged file; all that is known of it is its name. -/
def damagedEntry (nowMs : I64) (file : NamedBlob) (spoolSeq : Nat) (recordId : RecordId) : Entry :=
  { recordId := recordId
    stableRecordId := recordId
    spoolSeq := spoolSeq
    admittedAtMs := nowMs
    expiresAtMs := nowMs
    encryptedBytes := file.2.length
    path := .pending file.1 }

def quarantineRecoveredPending (inner : Inner) (nowMs : I64) (file : NamedBlob) :
    Section Unit := do
  match parseV2PendingFileName file.1 with
  | none => throw .corruptRecord
  | some (spoolSeq, recordId) =>
      let _ ← persistGapLocked inner (damagedEntry nowMs file spoolSeq recordId) nowMs
        .integrityQuarantine
      quarantineFileBounded inner (.pending file.1)
      countCorrupt

structure RecoveredRecord where
  stored : StoredRecord F64
  name : Str
  encryptedBytes : Nat

/-- The record in a pending file: `none` when the file is damaged, an error when another key sealed
it. -/
def decodePending (inner : Inner) (file : NamedBlob) : Except SpoolError (Option RecoveredRecord) :=
  if ¬ hasExtension pendingSuffix file.1 ∨ file.2.length > maxEncryptedRecordBytes then .ok none
  else
    match inner.key.decrypt inner.host file.2 with
    | .error .keyMismatch => .error .keyMismatch
    | .error .invalidCiphertext => .ok none
    | .ok plaintext =>
        match plaintext.toStoredRecord inner.host.codec with
        | none => .ok none
        | some stored =>
            if ¬ validStoredRecord inner.host stored ∨
                ¬ ('-' :: stored.recordId.text ++ pendingSuffix).isSuffixOf file.1 then
              .ok none
            else .ok (some ⟨stored, file.1, file.2.length⟩)

def scanPending (inner : Inner) (nowMs : I64) :
    List NamedBlob → List RecoveredRecord → Section (List RecoveredRecord)
  | [], recovered => pure recovered
  | file :: rest, recovered => do
      match decodePending inner file with
      | .error error => throw error
      | .ok none =>
          quarantineRecoveredPending inner nowMs file
          scanPending inner nowMs rest recovered
      | .ok (some record) => scanPending inner nowMs rest (recovered ++ [record])

/-- Order by admission time, then by identity. -/
def RecoveredRecord.admittedBefore (left right : RecoveredRecord) : Prop :=
  left.stored.admittedAtMs.val < right.stored.admittedAtMs.val ∨
    left.stored.admittedAtMs.val = right.stored.admittedAtMs.val ∧
      left.stored.recordId ≤ right.stored.recordId

instance : DecidableRel RecoveredRecord.admittedBefore := fun left right =>
  inferInstanceAs (Decidable (left.stored.admittedAtMs.val < right.stored.admittedAtMs.val ∨
    left.stored.admittedAtMs.val = right.stored.admittedAtMs.val ∧
      left.stored.recordId ≤ right.stored.recordId))

/-- The largest of some sequences, or zero. -/
def maxSequence (sequences : List Nat) : Nat := sequences.foldl max 0

/-- Give a version 1 record its sequence and rewrite its file in place.  The second component is the
next sequence to hand out. -/
def migrateRecord (inner : Inner) (record : RecoveredRecord) (nextMigration : Nat) :
    Section (RecoveredRecord × Nat) := do
  if record.stored.version = 1 then
    match checkedAdd nextMigration 1 with
    | none => throw .invalidConfig
    | some following =>
        let stored : StoredRecord F64 :=
          { record.stored with
            version := 2
            stableRecordId := some (record.stored.envelope.stableRecordId inner.host)
            spoolSeq := some nextMigration }
        let encrypted := inner.key.encrypt (Plain.ofStoredRecord inner.host.codec stored)
        writeAtomic (.pending record.name) encrypted
        return (⟨stored, record.name, encrypted.length⟩, following)
  else return (record, nextMigration)

/-- Move a pending file to its canonical name. -/
def renamePending (name canonical : Str) : Section Unit := do
  if ((← disk).read (.pending canonical)).isSome then throw .capacityExceeded
  match ← nextRenameFault with
  | some full => throw (mapIoError full)
  | none =>
      match (← disk).read (.pending name) with
      | none => throw .io
      | some body =>
          commit fun disk => (disk.remove (.pending name)).put body (.pending canonical)
          syncDirectory

/-- Enter a recovered record into the state. -/
def admitRecovered (inner : Inner) (entry : Entry) : Section Unit := do
  let state ← state
  if state.entries.contains entry.recordId ∨ state.stableIndex.contains entry.stableRecordId ∨
      state.entries.values.any (fun held => held.spoolSeq = entry.spoolSeq) ∨
      state.entries.size ≥ inner.config.maxRecords ∨
      saturatingAdd state.pendingBytes entry.encryptedBytes > inner.config.maxBytes then
    throw .capacityExceeded
  modifyState (·.admitEntry entry)

/-- Load one migrated record.  A durable gap is authoritative for its sequence, so a record whose
sequence has one is moved aside. -/
def loadRecord (inner : Inner) (record : RecoveredRecord) : Section Unit := do
  match record.stored.stableRecordId, record.stored.spoolSeq with
  | some stableRecordId, some spoolSeq =>
      if (← state).gaps.values.any fun gap => gap.notice.spoolSeq = spoolSeq then
        quarantineFileBounded inner (.pending record.name)
        countCorrupt
      else
        let canonical := pendingFileName spoolSeq record.stored.recordId
        if record.name ≠ canonical then renamePending record.name canonical
        admitRecovered inner
          { recordId := record.stored.recordId
            stableRecordId := stableRecordId
            spoolSeq := spoolSeq
            admittedAtMs := record.stored.admittedAtMs
            expiresAtMs := record.stored.expiresAtMs
            encryptedBytes := record.encryptedBytes
            path := .pending canonical }
  | _, _ => throw .corruptRecord

def loadRecords (inner : Inner) : List RecoveredRecord → Nat → Section Unit
  | [], _ => pure ()
  | record :: rest, nextMigration => do
      let (migrated, following) ← migrateRecord inner record nextMigration
      loadRecord inner migrated
      loadRecords inner rest following

/-! ### Counters -/

def validSequenceState (sequence : SequenceState) : Bool :=
  sequence.version = 1 && sequence.nextSpoolSequence ≠ 0 &&
    sequence.countedPendingExpirations.size ≤ 1000000 &&
    sequence.countedPendingExpirations.keys.all fun value =>
      value ≠ 0 && value < sequence.nextSpoolSequence

/-- `recover_sequence_state`, a function of the file. -/
def decodeSequence (inner : Inner) : Option Blob → Except SpoolError (Option SequenceState)
  | none => .ok none
  | some body =>
      if body.length > maxEncryptedSequenceStateBytes then .error .corruptRecord
      else
        match inner.key.decrypt inner.host body with
        | .error error => .error error.toSpoolError
        | .ok plaintext =>
            match plaintext.toSequenceState with
            | none => .error .corruptRecord
            | some sequence =>
                if validSequenceState sequence then .ok (some sequence) else .error .corruptRecord

def recoverSequenceState (inner : Inner) : Section (Option SequenceState) := do
  match decodeSequence inner (← disk).sequence with
  | .error error => throw error
  | .ok sequence => return sequence

/-- The counters of a recovered state: the file's where there is one, and in any case a next
sequence beyond every record and gap that was found. -/
def State.withSequence (state : State) (sequence : Option SequenceState)
    (recordsNext gapsNext : Nat) : State :=
  { state with
    expiredRecords := match sequence with
      | some found => found.expiredRecordsTotal
      | none => (state.gaps.values.filter fun gap =>
          gap.notice.reason = .retentionExpired).length
    v1AckHistoryPruned :=
      state.v1AckHistoryPruned || (sequence.map (·.v1AckHistoryPruned)).getD false
    countedPendingExpirations :=
      (sequence.map (·.countedPendingExpirations)).getD .empty
    nextSpoolSequence :=
      max (max ((sequence.map (·.nextSpoolSequence)).getD 1) recordsNext) gapsNext }

def recoverCounters (inner : Inner) : Section Unit := do
  let sequence ← recoverSequenceState inner
  let state ← state
  match checkedAdd (maxSequence (state.entries.values.map (·.spoolSeq))) 1,
      checkedAdd (maxSequence (state.gaps.values.map (·.notice.spoolSeq))) 1 with
  | some recordsNext, some gapsNext =>
      modifyState fun state => state.withSequence sequence recordsNext gapsNext
      let state ← Section.state
      if state.entries.values.any fun entry =>
          (state.countedPendingExpirations.get? entry.spoolSeq).any
            (· ≠ entry.stableRecordId) then
        throw .corruptRecord
  | _, _ => throw .invalidConfig

/-! ### Receipts -/

/-- The receipt in a receipt file, `none` when the file must be moved aside. -/
def decodeReceipt (inner : Inner) (file : NamedBlob) : Except SpoolError (Option AckReceipt) :=
  if ¬ hasExtension receiptSuffix file.1 ∨ file.2.length > maxEncryptedReceiptBytes then .ok none
  else
    match inner.key.decrypt inner.host file.2 with
    | .error .keyMismatch => .error .keyMismatch
    | .error .invalidCiphertext => .ok none
    | .ok plaintext =>
        match plaintext.toAckReceipt with
        | none => .ok none
        | some receipt =>
            if ¬ validReceipt receipt ∨
                file.1 ≠ receiptFileName receipt.sequence receipt.batchId then .ok none
            else .ok (some receipt)

def recoverReceipt (inner : Inner) (file : NamedBlob) : Section Unit := do
  match decodeReceipt inner file with
  | .error error => throw error
  | .ok none =>
      quarantineFileBounded inner (.receipt file.1)
      countCorrupt
  | .ok (some receipt) =>
      if (← state).receipts.contains receipt.batchId then
        quarantineFileBounded inner (.receipt file.1)
        countCorrupt
      else modifyState fun state =>
        { state with
          nextReceiptSequence := max state.nextReceiptSequence (saturatingAdd receipt.sequence 1)
          receipts := state.receipts.insert receipt.batchId
            { receipt := receipt, path := .receipt file.1 } }

def loadReceipts (inner : Inner) : List NamedBlob → Section Unit
  | [] => pure ()
  | file :: rest => do
      recoverReceipt inner file
      loadReceipts inner rest

/-- Finish the removals every recovered receipt stands for. -/
def replayReceipts (inner : Inner) : List AckReceipt → Bool × Bool → Section (Bool × Bool)
  | [], flags => pure flags
  | receipt :: rest, flags => do
      let removedPending ← completeAdmissions receipt.acceptedAdmissions flags.1
      let flags ← completeNotices inner receipt.acceptedGapNoticeIds (removedPending, flags.2)
      replayReceipts inner rest flags

def recoverReceipts (inner : Inner) : Section Unit := do
  loadReceipts inner (← disk).receipts.entries
  let receipts := (← state).receipts.values.map (·.receipt)
  let flags ← replayReceipts inner receipts (false, false)
  if flags.1 then syncDirectory
  if flags.2 then syncDirectory

/-! ### Recovery -/

/-- A counted expiration whose entry is gone is explained by its gap or by an acknowledgement of its
gap. -/
def countedExplained (host : Host) (state : State) (counted : Nat × RecordId) : Bool :=
  let noticeId :=
    (gapNoticeForIdentity host counted.1 counted.2 ⟨0, by omega⟩ .retentionExpired).noticeId
  (state.entries.values.any fun entry => entry.spoolSeq = counted.1) ||
    state.gaps.contains noticeId ||
    state.receipts.values.any fun entry => entry.receipt.acceptedGapNoticeIds.contains noticeId

/-- Drop the counted expirations whose entry is gone. -/
def State.retainCounted (state : State) : State :=
  { state with
    countedPendingExpirations := state.countedPendingExpirations.filter fun sequence _ =>
      state.entries.values.any fun entry => entry.spoolSeq = sequence }

def retainCounted (inner : Inner) : Section Unit := do
  let state ← state
  if state.countedPendingExpirations.toList.any fun counted =>
      ! countedExplained inner.host state (counted.1, counted.2) then
    throw .corruptRecord
  modifyState State.retainCounted

/-- The part of `recover` that reads the files. -/
def recoverFiles (inner : Inner) (nowMs : I64) : Section Unit := do
  ensureQuarantineCapacity inner 0 false
  let found ← disk
  modifyState fun state =>
    { state with corruptRecords := saturatingAdd state.corruptRecords found.quarantine.length }
  if found.tmp ≠ [] then throw .corruptRecord
  recoverGaps inner found.gaps.entries
  let recovered ← scanPending inner nowMs (← disk).pending.entries []
  let recordMax := maxSequence (recovered.filterMap (·.stored.spoolSeq))
  let gapMax := maxSequence ((← state).gaps.values.map (·.notice.spoolSeq))
  match checkedAdd (max recordMax gapMax) 1 with
  | none => throw .invalidConfig
  | some nextMigration =>
      loadRecords inner (recovered.insertionSort RecoveredRecord.admittedBefore) nextMigration
      recoverCounters inner
      recoverReceipts inner
      retainCounted inner

def recover (inner : Inner) (nowMs : I64) : Section Unit := do
  recoverFiles inner nowMs
  persistCurrentSequenceState inner
  let _ ← expireDueLocked inner nowMs
  (pruneReceipts inner).run

/-! ### Opening -/

inductive SpoolFormat where
  | fresh
  | previous
  | admissionIdentity
  | current
deriving DecidableEq

def spoolFormatMarker : Str := "4\n".toList

def readSpoolFormatMarker (disk : Disk) : Except SpoolError SpoolFormat :=
  match disk.format with
  | none => .ok .fresh
  | some contents =>
      if (Str.bytes contents).length > maxFormatMarkerBytes then .error .corruptRecord
      else if contents = spoolFormatMarker then .ok .current
      else if contents = "3\n".toList then .ok .admissionIdentity
      else if contents = "2\n".toList then .ok .previous
      else .error .corruptRecord

/-- The marker is written with the free `write_atomic`, outside the latch. -/
def writeCurrentSpoolFormatMarker : Section Unit :=
  stageAndRename (fun disk => { disk with format := some spoolFormatMarker })
    (.raw (Str.bytes spoolFormatMarker))

/-- `Spool::open` from the point where the lock is held. -/
def openLocked (inner : Inner) (nowMs : I64) : Section Unit := do
  match readSpoolFormatMarker (← disk) with
  | .error error => throw error
  | .ok format =>
      if format = .previous then
        if ¬ (← disk).receipts.entries.isEmpty then throw .receiptRecoveryRequired
        modifyState fun state => { state with v1AckHistoryPruned := true }
      if format = .current ∨ format = .admissionIdentity then
        if (← recoverSequenceState inner).isNone then throw .sequenceStateMissing
      recover inner nowMs
      if format ≠ .current then writeCurrentSpoolFormatMarker

/-- `Spool::open`; the flag tells whether another process holds the spool lock. -/
def openSpool (inner : Inner) (lockHeld : Bool) (nowMs : I64) : Section Unit := do
  match validateConfig inner.config with
  | .error error => throw error
  | .ok () =>
      if lockHeld then throw .alreadyOpen
      openLocked inner nowMs

end TeslatlasEdge
