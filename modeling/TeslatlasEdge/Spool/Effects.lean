/-
Module: TeslatlasEdge.Spool.Effects
Purpose: The elementary effects a running spool has on its machine.  Every section is a chain of
  these effects, so a property that each effect keeps is kept by every section, at every point where
  the process may stop.
Trusted boundary: none
Main exports: Receipted, Write, Removal, Update, Effect, Chain, Chain.timeline
-/
import TeslatlasEdge.Runs

namespace TeslatlasEdge

open Lib (OrdMap)

/-! ### What effects refer to -/

/-- The receipt has been durable at some point up to now. -/
def Receipted (key : EncryptionKey) (timeline : List Disk) (receipt : AckReceipt) : Prop :=
  ∃ d ∈ timeline, d.receipts.lookup (receiptFileName receipt.sequence receipt.batchId) =
    some (key.encrypt (.receipt receipt))

/-- A receipt that was on the disk once is in every later history. -/
theorem Receipted.mono {key : EncryptionKey} {older newer : List Disk} {receipt : AckReceipt}
    (held : Receipted key older receipt) (later : older <:+ newer) :
    Receipted key newer receipt := by
  obtain ⟨d, inside, found⟩ := held
  exact ⟨d, later.mem inside, found⟩

/-- The notice identity of the gap that replaces an expired entry. -/
def Entry.retentionNoticeId (host : Host) (entry : Entry) : RecordId :=
  (gapNotice host entry entry.expiresAtMs .retentionExpired).noticeId

/-- Forget an entry whose file is gone, together with its counted expiration. -/
def State.release (state : State) (entry : Entry) : State :=
  if state.countedPendingExpirations.get? entry.spoolSeq = some entry.stableRecordId then
    (state.dropEntry entry).forgetCounted entry.spoolSeq
  else state.dropEntry entry

/-- An entry is held under its own identity. -/
def State.Holds (state : State) (entry : Entry) : Prop :=
  state.entries.get? entry.recordId = some entry

/-- A gap is held under a notice identity derived from the entry. -/
def State.Covers (host : Host) (state : State) (entry : Entry) : Prop :=
  ∃ occurredAtMs reason gap,
    state.gaps.get? (gapNotice host entry occurredAtMs reason).noticeId = some gap

/-- Some gap is held for the sequence. -/
def State.HoldsGapFor (state : State) (spoolSeq : Nat) : Prop :=
  ∃ noticeId gap, state.gaps.get? noticeId = some gap ∧ gap.notice.spoolSeq = spoolSeq

/-- The state tells the Hub of the notice: as a gap it holds, or for an entry counted as expired. -/
def State.Reports (host : Host) (state : State) (notice : GapNoticeV2) : Prop :=
  (∃ noticeId gap, state.gaps.get? noticeId = some gap ∧ gap.notice = notice) ∨
    ∃ entry, state.Holds entry ∧
      state.countedPendingExpirations.contains entry.spoolSeq = true ∧
      notice = gapNotice host entry entry.expiresAtMs .retentionExpired

/-- The state holds an entry under the identity. -/
def State.Lists (state : State) (recordId : RecordId) : Prop :=
  ∃ entry, state.Holds entry ∧ entry.recordId = recordId

/-- The state holds an entry under the sequence. -/
def State.Occupies (state : State) (spoolSeq : Nat) : Prop :=
  ∃ entry, state.Holds entry ∧ entry.spoolSeq = spoolSeq

/-- A receipt accepts items of a batch with its identity: of a v1 batch of listed records, or of a
v2 batch whose notices are known and whose records have occupied sequences. -/
structure AckReceipt.DrawnFrom (host : Host) (known : GapNoticeV2 → Prop) (listed : RecordId → Prop)
    (occupied : Nat → Prop) (receipt : AckReceipt) : Prop where
  protocol : receipt.version = 1 ∨ receipt.version = 2
  v1 : receipt.version = 1 → ∃ records, receipt.batchId = TeslatlasEdge.batchId host records ∧
    (records.map (·.recordId)).Nodup ∧ ∀ record ∈ records, listed record.recordId
  /-- A v1 receipt accepts records alone, each as an occurrence under its identity. -/
  records : receipt.version = 1 → receipt.acceptedGapNoticeIds = [] ∧ ∀ recordId,
    recordId ∈ receipt.acceptedRecordIds ↔
      ∃ admission ∈ receipt.acceptedAdmissions, admission.legacyRecordId = recordId
  bare : receipt.version = 2 → receipt.acceptedRecordIds = []
  single : receipt.acceptedGapNoticeIds.Nodup
  v2 : receipt.version = 2 → ∃ records gaps, receipt.batchId = batchIdV2 host records gaps ∧
    (∀ admission ∈ receipt.acceptedAdmissions, ∃ record ∈ records,
      record.recordId ∈ receipt.acceptedStableRecordIds ∧
        admission =
          { spoolSeq := record.spoolSeq
            stableRecordId := record.recordId
            legacyRecordId := record.legacyRecordId }) ∧
    (∀ noticeId ∈ receipt.acceptedGapNoticeIds, ∃ notice ∈ gaps, notice.noticeId = noticeId) ∧
    (∀ notice ∈ gaps, known notice) ∧ ∀ record ∈ records, occupied record.spoolSeq

theorem AckReceipt.DrawnFrom.mono {host : Host} {known known' : GapNoticeV2 → Prop}
    {listed listed' : RecordId → Prop} {occupied occupied' : Nat → Prop} {receipt : AckReceipt}
    (drawn : receipt.DrawnFrom host known listed occupied)
    (weaker : ∀ notice, known notice → known' notice)
    (wider : ∀ recordId, listed recordId → listed' recordId)
    (later : ∀ s, occupied s → occupied' s) :
    receipt.DrawnFrom host known' listed' occupied' := by
  refine ⟨drawn.protocol, fun version => ?_, drawn.records, drawn.bare, drawn.single,
    fun version => ?_⟩
  · obtain ⟨records, digest, single, inside⟩ := drawn.v1 version
    exact ⟨records, digest, single, fun record known => wider _ (inside record known)⟩
  · obtain ⟨records, gaps, digest, admissions, notices, told, held⟩ := drawn.v2 version
    exact ⟨records, gaps, digest, admissions, notices, fun notice inside =>
      weaker notice (told notice inside), fun record inside => later _ (held record inside)⟩

/-- The sequence file holds the next sequence of the state and tells whether v1 receipts have been
pruned, unless a write has failed. -/
def Machine.Settled (key : EncryptionKey) (m : Machine) : Prop :=
  m.storageWriteFailed = true ∨ ∃ sequence,
    m.disk.sequence = some (key.encrypt (.sequence sequence)) ∧
      sequence.nextSpoolSequence = m.state.nextSpoolSequence ∧
      sequence.v1AckHistoryPruned = m.state.v1AckHistoryPruned

/-! ### Effects -/

/-- The counters and identities a write of the sequence file records: those of the state, extended
by entries that are being counted as expired. -/
structure Counting (state : State) (total : Nat) (counted : OrdMap Nat RecordId) : Prop where
  kept : ∀ s identity, state.countedPendingExpirations.get? s = some identity →
    counted.get? s = some identity
  added : ∀ s identity, counted.get? s = some identity →
    state.countedPendingExpirations.get? s = some identity ∨
      ∃ entry, state.Holds entry ∧ entry.spoolSeq = s ∧ entry.stableRecordId = identity
  total_eq : total + state.countedPendingExpirations.size = state.expiredRecords + counted.size

/-- What a receipt about to be written accepts: occurrences that are held, and gaps that are held or
backed by a counted entry. -/
structure Accepting (host : Host) (state : State) (receipt : AckReceipt) : Prop where
  admissions : ∀ admission ∈ receipt.acceptedAdmissions,
    ∃ entry, state.Holds entry ∧ entry.admission = admission
  notices : ∀ noticeId ∈ receipt.acceptedGapNoticeIds,
    (∃ gap, state.gaps.get? noticeId = some gap) ∨
      ∃ entry, state.Holds entry ∧
        state.countedPendingExpirations.contains entry.spoolSeq = true ∧
        entry.retentionNoticeId host = noticeId

/-- A durable write the spool may make: where, what, and how the state records it. -/
inductive Write (inner : Inner) (offered : Nat → Envelope → Prop) (m : Machine) :
    Path → Blob → (State → State) → Prop where
  | sequence {total : Nat} {counted : OrdMap Nat RecordId} {pruned : Bool}
      (fits : Counting m.state total counted)
      (history : m.state.v1AckHistoryPruned = true → pruned = true) :
      Write inner offered m .sequence
        (inner.key.encrypt (.sequence
          { version := 1
            nextSpoolSequence := m.state.nextSpoolSequence
            expiredRecordsTotal := total
            countedPendingExpirations := counted
            v1AckHistoryPruned := pruned }))
        (fun state =>
          { state with
            expiredRecords := total
            countedPendingExpirations := counted
            v1AckHistoryPruned := pruned })
  | pending {envelope : Envelope} {admittedAtMs : I64} {body : Blob} {entry : Entry}
      (offer : offered m.state.nextSpoolSequence envelope)
      (valid : envelope.validate = .ok ())
      (absent : m.state.stableIndex.get? (envelope.stableRecordId inner.host) = none)
      (next : m.state.nextSpoolSequence + 1 ≤ u64Max)
      (content : body = inner.key.encrypt (Plain.ofStoredRecord inner.host.codec
        (storedRecord inner envelope admittedAtMs m.state.nextSpoolSequence)))
      (named : entry = Entry.ofEnvelope inner envelope admittedAtMs m.state.nextSpoolSequence
        body.length)
      (room : saturatingAdd m.state.entries.size m.state.gaps.size < inner.config.maxRecords)
      (small : body.length ≤ maxEncryptedRecordBytes)
      (delivery : (deliveryBytes inner envelope admittedAtMs m.state.nextSpoolSequence).1 ≤
          inner.config.batchMaxBytes ∧
        (deliveryBytes inner envelope admittedAtMs m.state.nextSpoolSequence).2 ≤
          inner.config.batchMaxBytes)
      (bytes : saturatingAdd m.state.pendingBytes body.length ≤ inner.config.maxBytes)
      (retention : 0 ≤ inner.config.retentionMs.val) :
      Write inner offered m entry.path body fun state =>
        { state.admitEntry entry with nextSpoolSequence := state.nextSpoolSequence + 1 }
  | gap {entry : Entry} {occurredAtMs : I64} {reason : GapReasonV2} {notice : GapNoticeV2}
      {body : Blob}
      (held : m.state.Holds entry)
      (named : notice = gapNotice inner.host entry occurredAtMs reason)
      (content : body = inner.key.encrypt (.gap notice))
      (absent : m.state.gaps.get? notice.noticeId = none)
      (single : ¬ m.state.HoldsGapFor entry.spoolSeq)
      (room : m.state.gaps.size < inner.config.maxRecords)
      (small : body.length ≤ maxEncryptedGapBytes)
      (bytes : saturatingAdd m.state.pendingGapBytes body.length ≤ inner.config.maxBytes)
      (counted : reason = .retentionExpired →
        m.state.countedPendingExpirations.contains entry.spoolSeq = true)
      (damaged : reason = .integrityQuarantine →
        ∀ stored, decodeEntry inner entry (m.disk.read entry.path) ≠ .ok stored) :
      Write inner offered m (.gap (gapFileName notice.spoolSeq notice.noticeId)) body fun state =>
        state.recordGap notice body.length (.gap (gapFileName notice.spoolSeq notice.noticeId))
  | receipt {receipt : AckReceipt}
      (fits : Accepting inner.host m.state receipt)
      (allocated : receipt.sequence + 1 = m.state.nextReceiptSequence)
      (small : (inner.key.encrypt (.receipt receipt)).length ≤ maxEncryptedReceiptBytes)
      (settled : m.Settled inner.key)
      (drawn : receipt.DrawnFrom inner.host (m.state.Reports inner.host) m.state.Lists
        m.state.Occupies)
      (absent : m.state.receipts.get? receipt.batchId = none) :
      Write inner offered m (.receipt (receiptFileName receipt.sequence receipt.batchId))
        (inner.key.encrypt (.receipt receipt)) id

/-- A removal the spool may make. -/
inductive Removal (inner : Inner) (m : Machine) : Path → (State → State) → Prop where
  | expired {entry : Entry} (held : m.state.Holds entry)
      (replaced : ∃ gap, m.state.gaps.get? (entry.retentionNoticeId inner.host) = some gap) :
      Removal inner m entry.path (·.release entry)
  | acknowledged {entry : Entry} {receipt : AckReceipt} (held : m.state.Holds entry)
      (receipted : Receipted inner.key m.timeline receipt)
      (accepted : entry.admission ∈ receipt.acceptedAdmissions) :
      Removal inner m entry.path (·.release entry)
  | backing {entry : Entry} {receipt : AckReceipt} (held : m.state.Holds entry)
      (counted : m.state.countedPendingExpirations.contains entry.spoolSeq = true)
      (receipted : Receipted inner.key m.timeline receipt)
      (accepted : entry.retentionNoticeId inner.host ∈ receipt.acceptedGapNoticeIds) :
      Removal inner m entry.path (·.release entry)
  | gap {noticeId : RecordId} {gap : GapEntry} {receipt : AckReceipt}
      (held : m.state.gaps.get? noticeId = some gap)
      (receipted : Receipted inner.key m.timeline receipt)
      (accepted : noticeId ∈ receipt.acceptedGapNoticeIds) :
      Removal inner m gap.path (·.dropGap noticeId gap)
  | receipt {oldest : ReceiptEntry}
      (held : m.state.receipts.get? oldest.receipt.batchId = some oldest)
      (full : maxAckReceipts < m.state.receipts.size)
      (first : ∀ batchId entry, m.state.receipts.get? batchId = some entry →
        oldest.receipt.sequence ≤ entry.receipt.sequence)
      (history : oldest.receipt.version = 1 →
        m.state.v1AckHistoryPruned = true) :
      Removal inner m oldest.path id

/-- A change of the in-memory state alone. -/
inductive Update (inner : Inner) (m : Machine) : (State → State) → Prop where
  | forgetReplaced {entry : Entry}
      (replaced : ∃ gap, m.state.gaps.get? (entry.retentionNoticeId inner.host) = some gap)
      (gone : ∀ other, m.state.Holds other → other.spoolSeq ≠ entry.spoolSeq) :
      Update inner m (·.forgetCounted entry.spoolSeq)
  | forgetAdmitted {admission : ReceiptAdmission} {receipt : AckReceipt}
      (receipted : Receipted inner.key m.timeline receipt)
      (accepted : admission ∈ receipt.acceptedAdmissions)
      (counted : m.state.countedPendingExpirations.get? admission.spoolSeq =
        some admission.stableRecordId)
      (gone : admittedEntry m.state admission = none) :
      Update inner m (·.forgetCounted admission.spoolSeq)
  | forgetBacking {entry : Entry} {receipt : AckReceipt}
      (receipted : Receipted inner.key m.timeline receipt)
      (accepted : entry.retentionNoticeId inner.host ∈ receipt.acceptedGapNoticeIds)
      (gone : ∀ other, m.state.Holds other → other.spoolSeq ≠ entry.spoolSeq) :
      Update inner m (·.forgetCounted entry.spoolSeq)
  | allocate (bounded : m.state.nextReceiptSequence + 1 ≤ u64Max) :
      Update inner m fun state =>
        { state with nextReceiptSequence := state.nextReceiptSequence + 1 }
  | insertReceipt {receipt : AckReceipt}
      (receipted : Receipted inner.key m.timeline receipt)
      (allocated : receipt.sequence + 1 = m.state.nextReceiptSequence)
      (absent : m.state.receipts.get? receipt.batchId = none) :
      Update inner m fun state =>
        { state with
          receipts := state.receipts.insert receipt.batchId
            { receipt := receipt
              path := .receipt (receiptFileName receipt.sequence receipt.batchId) } }
  | pruneHistory (latched : m.storageWriteFailed = true) :
      Update inner m fun state => { state with v1AckHistoryPruned := true }
  | forgetReceipt {oldest : ReceiptEntry}
      (held : m.state.receipts.get? oldest.receipt.batchId = some oldest)
      (gone : m.disk.read oldest.path = none)
      (history : oldest.receipt.version = 1 → m.state.v1AckHistoryPruned = true) :
      Update inner m fun state =>
        { state with receipts := state.receipts.erase oldest.receipt.batchId }
  | dropQuarantined {entry : Entry} (held : m.state.Holds entry)
      (covered : m.state.Covers inner.host entry) (gone : m.disk.read entry.path = none) :
      Update inner m (·.dropQuarantined entry)

/-- One elementary effect.  Failures need a fault to be pending. -/
inductive Effect (inner : Inner) (offered : Nat → Envelope → Prop) (m : Machine) :
    Machine → Prop where
  | fault {faults : Faults} (within : faults.Within m.faults) :
      Effect inner offered m { m with faults := faults }
  | writeFailed {faults : Faults} (within : faults.Within m.faults) (faulty : m.faults ≠ .none) :
      Effect inner offered m { m with storageWriteFailed := true, faults := faults }
  | orphaned {faults : Faults} {body : Blob} (within : faults.Within m.faults)
      (faulty : m.faults ≠ .none) :
      Effect inner offered m { m.orphan body with storageWriteFailed := true, faults := faults }
  | wrote {faults : Faults} {path : Path} {body : Blob} {record : State → State}
      (within : faults.Within m.faults) (open_ : m.storageWriteFailed = false)
      (write : Write inner offered m path body record) :
      Effect inner offered m { (m.place path body).update record with faults := faults }
  | unsynced {faults : Faults} {path : Path} {body : Blob} {record : State → State}
      (within : faults.Within m.faults) (faulty : m.faults ≠ .none)
      (open_ : m.storageWriteFailed = false)
      (write : Write inner offered m path body record) :
      Effect inner offered m
        { m.place path body with storageWriteFailed := true, faults := faults }
  | removed {faults : Faults} {path : Path} {record : State → State}
      (within : faults.Within m.faults) (removal : Removal inner m path record) :
      Effect inner offered m { (m.discard path).update record with faults := faults }
  | setAside {faults : Faults} {entry : Entry} {body : Blob}
      (within : faults.Within m.faults) (held : m.state.Holds entry)
      (covered : m.state.Covers inner.host entry) (found : m.disk.read entry.path = some body)
      (damaged : ∀ stored, decodeEntry inner entry (some body) ≠ .ok stored) :
      Effect inner offered m { m.setAside entry.path body with faults := faults }
  | updated {change : State → State} (update : Update inner m change) :
      Effect inner offered m (m.update change)

/-- A chain of effects. -/
abbrev Chain (inner : Inner) (offered : Nat → Envelope → Prop) : Machine → Machine → Prop :=
  Relation.ReflTransGen (Effect inner offered)

section

variable {inner : Inner} {offered : Nat → Envelope → Prop} {m m' : Machine}

/-- No effect rewrites the past. -/
theorem Effect.timeline (effect : Effect inner offered m m') : m.timeline <:+ m'.timeline := by
  cases effect with
  | fault | writeFailed | updated => exact List.suffix_refl _
  | orphaned | wrote | unsynced | setAside => exact List.suffix_cons _ _
  | removed within removal =>
      simp only [Machine.timeline, Machine.update, Machine.discard]
      split
      · exact List.suffix_cons _ _
      · exact List.suffix_refl _

/-- Along a chain the history grows. -/
theorem Chain.timeline (chain : Chain inner offered m m') : m.timeline <:+ m'.timeline := by
  induction chain with
  | refl => exact List.suffix_refl _
  | tail _ effect ih => exact ih.trans effect.timeline

/-- What each effect keeps, a chain keeps. -/
theorem Chain.invariant {I : Machine → Prop}
    (keeps : ∀ a b, I a → Effect inner offered a b → I b) (chain : Chain inner offered m m')
    (holds : I m) : I m' := by
  induction chain with
  | refl => exact holds
  | tail _ effect ih => exact keeps _ _ ih effect

theorem Write.mono {permitted : Nat → Envelope → Prop}
    (weaker : ∀ s envelope, offered s envelope → permitted s envelope) {path : Path} {body : Blob}
    {record : State → State} (write : Write inner offered m path body record) :
    Write inner permitted m path body record := by
  cases write with
  | sequence fits history => exact .sequence fits history
  | pending offer valid absent next content named room small delivery bytes retention =>
      exact .pending (weaker _ _ offer) valid absent next content named room small delivery bytes
        retention
  | gap held named content absent single room small bytes counted damaged =>
      exact .gap held named content absent single room small bytes counted damaged
  | receipt fits allocated small settled drawn absent =>
      exact .receipt fits allocated small settled drawn absent

/-- The permission for admissions may be widened. -/
theorem Effect.mono {permitted : Nat → Envelope → Prop}
    (weaker : ∀ s envelope, offered s envelope → permitted s envelope)
    (effect : Effect inner offered m m') : Effect inner permitted m m' := by
  cases effect with
  | fault within => exact .fault within
  | writeFailed within faulty => exact .writeFailed within faulty
  | orphaned within faulty => exact .orphaned within faulty
  | wrote within open_ write => exact .wrote within open_ (write.mono weaker)
  | unsynced within faulty open_ write => exact .unsynced within faulty open_ (write.mono weaker)
  | removed within removal => exact .removed within removal
  | setAside within held covered found damaged =>
      exact .setAside within held covered found damaged
  | updated update => exact .updated update

/-- So it may along a chain of effects. -/
theorem Chain.mono {permitted : Nat → Envelope → Prop}
    (weaker : ∀ s envelope, offered s envelope → permitted s envelope)
    (chain : Chain inner offered m m') : Chain inner permitted m m' := by
  induction chain with
  | refl => exact .refl
  | tail _ effect ih => exact ih.tail (effect.mono weaker)

/-- Nothing is on offer. -/
def noOffers : Nat → Envelope → Prop := fun _ _ => False

/-- A chain that admits nothing is a chain under any permission. -/
theorem Chain.offering (chain : Chain inner noOffers m m') : Chain inner offered m m' :=
  chain.mono fun _ _ offer => offer.elim

/-- An effect takes faults and adds none. -/
theorem Effect.faults_within (effect : Effect inner offered m m') : m'.faults.Within m.faults := by
  cases effect with
  | fault within | writeFailed within | orphaned within | wrote within | unsynced within
  | removed within | setAside within => exact within
  | updated => exact .refl _

/-- Releasing an entry takes it out of the entries. -/
theorem State.release_entries (state : State) (entry : Entry) :
    (state.release entry).entries = state.entries.erase entry.recordId := by
  unfold State.release
  split <;> rfl

/-- Releasing an entry leaves the gaps. -/
theorem State.release_gaps (state : State) (entry : Entry) :
    (state.release entry).gaps = state.gaps := by
  unfold State.release
  split <;> rfl

/-- Releasing an entry leaves the next number. -/
theorem State.release_next (state : State) (entry : Entry) :
    (state.release entry).nextSpoolSequence = state.nextSpoolSequence := by
  unfold State.release
  split <;> rfl

/-- An effect leaves the entries alone, removes a held one, or admits the next sequence. -/
theorem Effect.entries (effect : Effect inner offered m m') :
    m'.state.entries = m.state.entries ∨
      (∃ entry, m.state.Holds entry ∧
        m'.state.entries = m.state.entries.erase entry.recordId) ∨
      ∃ envelope admittedAtMs encryptedBytes,
        let entry := Entry.ofEnvelope inner envelope admittedAtMs m.state.nextSpoolSequence
          encryptedBytes
        m.state.stableIndex.get? entry.stableRecordId = none ∧
          offered m.state.nextSpoolSequence envelope ∧
          m'.state.entries = m.state.entries.insert entry.recordId entry := by
  cases effect with
  | fault | writeFailed | orphaned | unsynced | setAside => exact .inl rfl
  | wrote within open_ write =>
      cases write with
      | sequence | gap | receipt => exact .inl rfl
      | pending offer valid absent next content named =>
          subst named
          exact .inr (.inr ⟨_, _, _, absent, offer, rfl⟩)
  | removed within removal =>
      simp only [Machine.update, Machine.discard_state]
      cases removal with
      | expired held | acknowledged held | backing held =>
          exact .inr (.inl ⟨_, held, State.release_entries _ _⟩)
      | gap | receipt => exact .inl rfl
  | updated update =>
      cases update with
      | dropQuarantined held => exact .inr (.inl ⟨_, held, rfl⟩)
      | forgetReplaced | forgetAdmitted | forgetBacking | allocate | insertReceipt | pruneHistory
      | forgetReceipt => exact .inl rfl

/-- While nothing is admitted, no entry is new. -/
theorem Effect.holds_back (effect : Effect inner noOffers m m') {entry : Entry}
    (held : m'.state.Holds entry) : m.state.Holds entry := by
  rcases effect.entries with same | ⟨gone, -, erased⟩ | ⟨_, _, _, -, offer, -⟩
  · rwa [State.Holds, same] at held
  · rw [State.Holds, erased] at held
    exact OrdMap.get?_of_get?_erase held
  · exact offer.elim

/-- Without admissions, what is held in the end was held in the beginning. -/
theorem Chain.holds_back (chain : Chain inner noOffers m m') {entry : Entry}
    (held : m'.state.Holds entry) : m.state.Holds entry := by
  induction chain with
  | refl => exact held
  | tail _ effect ih => exact ih (effect.holds_back held)

/-- Entries are stored under their own identity. -/
def State.Keyed (state : State) : Prop :=
  ∀ id entry, state.entries.get? id = some entry → entry.recordId = id

theorem Chain.keyed (chain : Chain inner offered m m') (keyed : m.state.Keyed) :
    m'.state.Keyed := by
  refine Chain.invariant (I := fun m => m.state.Keyed) ?_ chain keyed
  intro a b keyed effect id entry found
  rcases effect.entries with same | ⟨gone, -, erased⟩ | ⟨_, _, _, -, -, inserted⟩
  · rw [same] at found
    exact keyed id entry found
  · rw [erased, OrdMap.get?_erase] at found
    split at found
    · cases found
    · exact keyed id entry found
  · rw [inserted, OrdMap.get?_insert] at found
    split at found
    · rename_i here
      rw [← Option.some.inj found, here]
    · exact keyed id entry found

/-- Held sequences are positive, below the next one, and belong to one entry each. -/
structure State.Numbered (state : State) : Prop where
  positive : 1 ≤ state.nextSpoolSequence
  above : ∀ entry, state.Holds entry → 1 ≤ entry.spoolSeq
  below : ∀ entry, state.Holds entry → entry.spoolSeq < state.nextSpoolSequence
  single : ∀ entry other, state.Holds entry → state.Holds other →
    entry.spoolSeq = other.spoolSeq → entry = other

theorem State.Numbered.of_same {state state' : State} (numbered : state.Numbered)
    (entries : state'.entries = state.entries)
    (next : state'.nextSpoolSequence = state.nextSpoolSequence) : state'.Numbered := by
  constructor
  · rw [next]
    exact numbered.positive
  · intro entry held
    rw [State.Holds, entries] at held
    exact numbered.above entry held
  · intro entry held
    rw [State.Holds, entries] at held
    rw [next]
    exact numbered.below entry held
  · intro entry other held held'
    rw [State.Holds, entries] at held held'
    exact numbered.single entry other held held'

/-- Entries, gaps and receipts name the files they were written to, and gaps stand under their own
identity. -/
structure State.Pathed (state : State) : Prop where
  entries : ∀ entry, state.Holds entry →
    entry.path = .pending (pendingFileName entry.spoolSeq entry.recordId)
  gapKeyed : ∀ noticeId gap, state.gaps.get? noticeId = some gap → gap.notice.noticeId = noticeId
  gaps : ∀ noticeId gap, state.gaps.get? noticeId = some gap →
    gap.path = .gap (gapFileName gap.notice.spoolSeq gap.notice.noticeId)
  receipts : ∀ batchId entry, state.receipts.get? batchId = some entry →
    entry.path = .receipt (receiptFileName entry.receipt.sequence entry.receipt.batchId)

/-- Forgetting entries, gaps and receipts loses no path. -/
theorem State.Pathed.of_kept {state state' : State} (pathed : state.Pathed)
    (entries : ∀ entry, state'.Holds entry → state.Holds entry)
    (gaps : ∀ noticeId gap, state'.gaps.get? noticeId = some gap →
      state.gaps.get? noticeId = some gap)
    (receipts : ∀ batchId entry, state'.receipts.get? batchId = some entry →
      state.receipts.get? batchId = some entry) : state'.Pathed :=
  ⟨fun entry held => pathed.entries entry (entries entry held),
    fun noticeId gap found => pathed.gapKeyed noticeId gap (gaps noticeId gap found),
    fun noticeId gap found => pathed.gaps noticeId gap (gaps noticeId gap found),
    fun batchId entry found => pathed.receipts batchId entry (receipts batchId entry found)⟩

theorem State.release_receipts (state : State) (entry : Entry) :
    (state.release entry).receipts = state.receipts := by
  unfold State.release
  split <;> rfl

/-- An effect keeps the entries at pending paths. -/
theorem Effect.pathed (effect : Effect inner offered m m') (pathed : m.state.Pathed) :
    m'.state.Pathed := by
  cases effect with
  | fault | writeFailed | orphaned | unsynced | setAside => exact pathed
  | wrote within open_ write =>
      cases write with
      | sequence | receipt => exact pathed.of_kept (fun _ h => h) (fun _ _ h => h) fun _ _ h => h
      | pending offer valid absent next content named =>
          refine ⟨fun entry held => ?_, pathed.gapKeyed, pathed.gaps, pathed.receipts⟩
          change (m.state.entries.insert _ _).get? _ = _ at held
          rw [OrdMap.get?_insert] at held
          split at held
          · rw [← Option.some.inj held, named]
            rfl
          · exact pathed.entries entry held
      | gap =>
          refine ⟨pathed.entries, fun noticeId gap found => ?_, fun noticeId gap found => ?_,
            pathed.receipts⟩
          · change (m.state.gaps.insert _ _).get? _ = _ at found
            rw [OrdMap.get?_insert] at found
            split at found
            · rename_i here
              rw [← Option.some.inj found, here]
            · exact pathed.gapKeyed noticeId gap found
          · change (m.state.gaps.insert _ _).get? _ = _ at found
            rw [OrdMap.get?_insert] at found
            split at found
            · rw [← Option.some.inj found]
            · exact pathed.gaps noticeId gap found
  | removed within removal =>
      simp only [Machine.update, Machine.discard_state]
      cases removal with
      | expired | acknowledged | backing =>
          refine pathed.of_kept (fun entry held => ?_) (fun _ _ found => ?_) fun _ _ found => ?_
          · rw [State.Holds, State.release_entries] at held
            exact OrdMap.get?_of_get?_erase held
          · rwa [State.release_gaps] at found
          · rwa [State.release_receipts] at found
      | gap =>
          exact pathed.of_kept (fun _ held => held)
            (fun _ _ found => OrdMap.get?_of_get?_erase found) fun _ _ found => found
      | receipt => exact pathed
  | updated update =>
      cases update with
      | forgetReplaced | forgetAdmitted | forgetBacking | allocate | pruneHistory =>
          exact pathed.of_kept (fun _ h => h) (fun _ _ h => h) fun _ _ h => h
      | insertReceipt =>
          refine ⟨pathed.entries, pathed.gapKeyed, pathed.gaps, fun batchId entry found => ?_⟩
          change (m.state.receipts.insert _ _).get? _ = _ at found
          rw [OrdMap.get?_insert] at found
          split at found
          · rw [← Option.some.inj found]
          · exact pathed.receipts batchId entry found
      | forgetReceipt =>
          exact pathed.of_kept (fun _ held => held) (fun _ _ found => found)
            fun _ _ found => OrdMap.get?_of_get?_erase found
      | dropQuarantined =>
          exact pathed.of_kept (fun _ held => OrdMap.get?_of_get?_erase held)
            (fun _ _ found => found) fun _ _ found => found

theorem Chain.pathed (chain : Chain inner offered m m') (pathed : m.state.Pathed) :
    m'.state.Pathed :=
  Chain.invariant (I := fun m => m.state.Pathed) (fun _ _ holds effect => effect.pathed holds)
    chain pathed

/-- The file a removal takes away is not the sequence file. -/
theorem Removal.path_ne_sequence {path : Path} {record : State → State}
    (pathed : m.state.Pathed) (removal : Removal inner m path record) : path ≠ .sequence := by
  cases removal with
  | expired held | acknowledged held | backing held =>
      rw [pathed.entries _ held]
      simp
  | gap held =>
      rw [pathed.gaps _ _ held]
      simp
  | receipt held =>
      rw [pathed.receipts _ _ held]
      simp

/-- What a removal records leaves the next number. -/
theorem Removal.next {path : Path} {record : State → State} (removal : Removal inner m path record)
    (state : State) : (record state).nextSpoolSequence = state.nextSpoolSequence := by
  cases removal with
  | expired | acknowledged | backing =>
      simp only [State.release]
      split <;> rfl
  | gap | receipt => rfl

theorem Removal.pruned {path : Path} {record : State → State}
    (removal : Removal inner m path record) (state : State) :
    (record state).v1AckHistoryPruned = state.v1AckHistoryPruned := by
  cases removal with
  | expired | acknowledged | backing =>
      simp only [State.release]
      split <;> rfl
  | gap | receipt => rfl

/-- An update leaves the next number. -/
theorem Update.next {change : State → State} (update : Update inner m change) (state : State) :
    (change state).nextSpoolSequence = state.nextSpoolSequence := by
  cases update <;> rfl

/-- An effect holds on to no new entry, or admits one under the next sequence. -/
theorem Effect.holds (effect : Effect inner offered m m') :
    (m'.state.nextSpoolSequence = m.state.nextSpoolSequence ∧
      ∀ entry, m'.state.Holds entry → m.state.Holds entry) ∨
    ∃ fresh, fresh.spoolSeq = m.state.nextSpoolSequence ∧
      m'.state.nextSpoolSequence = m.state.nextSpoolSequence + 1 ∧
      ∀ entry, m'.state.Holds entry → m.state.Holds entry ∨ entry = fresh := by
  cases effect with
  | fault | writeFailed | orphaned | unsynced | setAside => exact .inl ⟨rfl, fun _ held => held⟩
  | wrote within open_ write =>
      cases write with
      | sequence | gap | receipt => exact .inl ⟨rfl, fun _ held => held⟩
      | @pending envelope admittedAtMs body entry offer valid absent next content named =>
          refine .inr ⟨entry, by rw [named]; rfl, rfl, fun other held => ?_⟩
          change (m.state.entries.insert _ _).get? _ = _ at held
          rw [OrdMap.get?_insert] at held
          split at held
          · exact .inr (Option.some.inj held).symm
          · exact .inl held
  | removed within removal =>
      refine .inl ⟨?_, fun entry held => ?_⟩
      · simp only [Machine.update, Machine.discard_state, removal.next]
      · simp only [Machine.update, Machine.discard_state] at held
        cases removal with
        | expired | acknowledged | backing =>
            rw [State.Holds, State.release_entries] at held
            exact OrdMap.get?_of_get?_erase held
        | gap | receipt => exact held
  | updated update =>
      refine .inl ⟨update.next m.state, fun entry held => ?_⟩
      cases update with
      | dropQuarantined => exact OrdMap.get?_of_get?_erase held
      | forgetReplaced | forgetAdmitted | forgetBacking | allocate | insertReceipt | pruneHistory
      | forgetReceipt => exact held

/-- A state that holds no new entry, or one under the next sequence, is still numbered. -/
theorem State.Numbered.grown {a b : State} (numbered : a.Numbered)
    (grown : (b.nextSpoolSequence = a.nextSpoolSequence ∧
      ∀ entry, b.Holds entry → a.Holds entry) ∨
      ∃ fresh, fresh.spoolSeq = a.nextSpoolSequence ∧
        b.nextSpoolSequence = a.nextSpoolSequence + 1 ∧
        ∀ entry, b.Holds entry → a.Holds entry ∨ entry = fresh) : b.Numbered := by
  rcases grown with ⟨next, kept⟩ | ⟨fresh, sequence, next, kept⟩
  · refine ⟨by rw [next]; exact numbered.positive,
      fun entry held => numbered.above entry (kept entry held), fun entry held => ?_,
      fun entry other held held' => ?_⟩
    · rw [next]
      exact numbered.below entry (kept entry held)
    · exact numbered.single entry other (kept entry held) (kept other held')
  · have below : ∀ entry, a.Holds entry → entry.spoolSeq ≠ fresh.spoolSeq := by
      intro entry held
      rw [sequence]
      exact (numbered.below entry held).ne
    refine ⟨by rw [next]; exact Nat.le_add_left _ _, fun entry held => ?_, fun entry held => ?_,
      fun entry other held held' same => ?_⟩
    · rcases kept entry held with before | rfl
      · exact numbered.above entry before
      · rw [sequence]
        exact numbered.positive
    · rw [next]
      rcases kept entry held with before | rfl
      · exact (numbered.below entry before).trans (Nat.lt_succ_self _)
      · rw [sequence]
        exact Nat.lt_succ_self _
    · rcases kept entry held with before | rfl
      · rcases kept other held' with before' | rfl
        · exact numbered.single entry other before before' same
        · exact absurd same (below entry before)
      · rcases kept other held' with before' | rfl
        · exact absurd same.symm (below other before')
        · rfl

/-- Along a chain the numbers stay below the next one. -/
theorem Chain.numbered (chain : Chain inner offered m m') (numbered : m.state.Numbered) :
    m'.state.Numbered :=
  Chain.invariant (I := fun m => m.state.Numbered)
    (fun _ _ numbered effect => numbered.grown effect.holds) chain numbered

/-- An effect that admits nothing leaves a settled machine settled. -/
theorem Effect.settled (none : ∀ s envelope, ¬ offered s envelope)
    (effect : Effect inner offered m m') (pathed : m.state.Pathed)
    (settled : m.Settled inner.key) : m'.Settled inner.key := by
  cases effect with
  | fault => exact settled
  | writeFailed | orphaned | unsynced => exact .inl rfl
  | wrote within open_ write =>
      cases write with
      | sequence => exact .inr ⟨_, rfl, rfl, rfl⟩
      | pending offer => exact absurd offer (none _ _)
      | gap | receipt => exact settled
  | @removed _ path _ within removal =>
      have other := removal.path_ne_sequence pathed
      have sequence : (m.discard path).disk.sequence = m.disk.sequence := by
        have read := m.discard_read path .sequence
        rwa [if_neg other.symm] at read
      have latch : (m.discard path).storageWriteFailed = m.storageWriteFailed := by
        unfold Machine.discard
        split <;> rfl
      simpa only [Machine.Settled, Machine.update, removal.next, removal.pruned,
        Machine.discard_state, sequence, latch] using settled
  | @setAside _ entry _ within held =>
      have sequence : (m.disk.remove entry.path).sequence = m.disk.sequence := by
        rw [pathed.entries entry held]
        rfl
      simpa only [Machine.Settled, Machine.setAside, sequence] using settled
  | updated update =>
      cases update with
      | pruneHistory latched => exact .inl latched
      | forgetReplaced | forgetAdmitted | forgetBacking | allocate | insertReceipt | forgetReceipt
      | dropQuarantined => exact settled

/-- A chain that admits nothing leaves a settled machine settled. -/
theorem Chain.settled (none : ∀ s envelope, ¬ offered s envelope)
    (chain : Chain inner offered m m') (pathed : m.state.Pathed)
    (settled : m.Settled inner.key) : m'.Settled inner.key := by
  refine (Chain.invariant (I := fun m => m.state.Pathed ∧ m.Settled inner.key) ?_ chain
    ⟨pathed, settled⟩).2
  rintro a b ⟨pathed, settled⟩ effect
  exact ⟨effect.pathed pathed, effect.settled none pathed settled⟩

/-- Without faults nothing fails: the latch stays open and no fault appears. -/
theorem Chain.faultless (chain : Chain inner offered m m') (none : m.faults = .none)
    (open_ : m.storageWriteFailed = false) :
    m'.faults = .none ∧ m'.storageWriteFailed = false := by
  refine Chain.invariant (I := fun m => m.faults = .none ∧ m.storageWriteFailed = false) ?_ chain
    ⟨none, open_⟩
  rintro a b ⟨none, open_⟩ effect
  refine ⟨?_, ?_⟩
  · have within := effect.faults_within
    rw [none] at within
    exact within.eq_none
  · cases effect with
    | fault | wrote | setAside | updated => exact open_
    | writeFailed _ faulty | orphaned _ faulty | unsynced _ faulty => exact absurd none faulty
    | removed =>
        simp only [Machine.update, Machine.discard]
        split <;> exact open_

end

end TeslatlasEdge
