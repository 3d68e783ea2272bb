/-
Module: TeslatlasEdge.Sizing
Purpose: No accepted record can block the head of the queue by its size.  While the limit of a batch
  stays the same, whatever is pending is delivered in the size `enqueue` has checked, or as a gap
  notice, which is shorter than any record.
Trusted boundary: none
Main exports: Deliverable, TellsRewriting, Fixed, no_record_too_large
-/
import TeslatlasEdge.Spool.Contents
import TeslatlasEdge.Delivery

namespace TeslatlasEdge

open Lib
open Section

variable {inner : Inner} {bodies : Blob → Prop} {α : Type}

/-! ### What may be read from a file -/

/-- Whatever opens as the record of an entry fits a batch in both forms. -/
def Fitting (inner : Inner) (bodies : Blob → Prop) : Prop :=
  ∀ body entry stored, bodies body → decodeEntry inner entry (some body) = .ok stored →
    encodedSize inner.host (HubBatchRecordV1.toJson
      { recordId := stored.recordId
        receivedAtMs := stored.admittedAtMs
        envelope := stored.envelope }) ≤ inner.config.batchMaxBytes ∧
    encodedSize inner.host (HubBatchRecordV2.toJson
      { recordId := entry.stableRecordId
        legacyRecordId := entry.recordId
        spoolSeq := entry.spoolSeq
        receivedAtMs := stored.admittedAtMs
        envelope := stored.envelope }) ≤ inner.config.batchMaxBytes

/-- The gap a candidate is, or may be delivered as, fits a batch. -/
def BatchCandidateV2.Small (inner : Inner) : BatchCandidateV2 → Prop
  | .gap notice => encodedSize inner.host notice.toJson ≤ inner.config.batchMaxBytes
  | .record entry =>
      encodedSize inner.host
        (gapNotice inner.host entry entry.expiresAtMs .retentionExpired).toJson ≤
          inner.config.batchMaxBytes

/-! ### Calls -/

/-- A file that does not read back is never reported as an item too large. -/
theorem decodeEntry_ne_batchItemTooLarge {entry : Entry} {file : Option Blob} {error : SpoolError}
    (read : decodeEntry inner entry file = .error error) : error ≠ .batchItemTooLarge := by
  cases file with
  | none =>
      cases read
      decide
  | some body =>
      simp only [decodeEntry] at read
      split at read
      · cases read
        decide
      · split at read
        · rename_i cause _
          cases read
          cases cause <;> decide
        · split at read
          · cases read
            decide
          · split at read
            · cases read
              decide
            · cases read

theorem keeps_readEntry (entry : Entry) : Keeps (Machine.Contains bodies) (readEntry inner entry) := by
  intro m contains
  rw [post_readEntry]
  split
  · exact ⟨decodeEntry_ne_batchItemTooLarge ‹_›, contains⟩
  · exact contains

theorem keeps_quarantineRuntimeEntry (entry : Entry) :
    Keeps (Machine.Contains bodies) (quarantineRuntimeEntry inner entry) :=
  stable_contains.keeps_quarantineRuntimeEntry (gapAllowed_ofBodies _)

/-- The file of the entry is a pending file. -/
def Entry.IsPending (entry : Entry) : Prop := ∃ name, entry.path = .pending name

/-- A record that was read fits a batch in both forms. -/
theorem Fitting.read {m : Machine} {entry : Entry} {stored : StoredRecord F64}
    (fitting : Fitting inner bodies) (contains : m.Contains bodies) (pending : entry.IsPending)
    (read : decodeEntry inner entry (m.disk.read entry.path) = .ok stored) :
    encodedSize inner.host (HubBatchRecordV1.toJson
      { recordId := stored.recordId
        receivedAtMs := stored.admittedAtMs
        envelope := stored.envelope }) ≤ inner.config.batchMaxBytes ∧
    encodedSize inner.host (HubBatchRecordV2.toJson
      { recordId := entry.stableRecordId
        legacyRecordId := entry.recordId
        spoolSeq := entry.spoolSeq
        receivedAtMs := stored.admittedAtMs
        envelope := stored.envelope }) ≤ inner.config.batchMaxBytes := by
  obtain ⟨name, path⟩ := pending
  obtain ⟨body, found, -⟩ := decodeEntry_eq_ok read
  rw [found] at read
  rw [path] at found
  exact fitting body entry stored (contains m.disk List.mem_cons_self name body found) read

/-- A scan of files that fit never reports an item too large. -/
theorem keeps_scanV1 (fitting : Fitting inner bodies) {entries : List Entry}
    (pending : ∀ entry ∈ entries, entry.IsPending) (records : List HubBatchRecordV1)
    (bodyBytes : Nat) : Keeps (Machine.Contains bodies) (scanV1 inner entries records bodyBytes).run := by
  induction entries generalizing records bodyBytes with
  | nil => exact .pure _
  | cons entry rest ih =>
      have later := ih fun other inside => pending other (List.mem_cons_of_mem _ inside)
      rw [scanV1]
      split
      · exact .pure _
      · intro m contains
        rw [Call.run_bind, post_bind, Call.post_attempt, post_readEntry]
        cases read : decodeEntry inner entry (m.disk.read entry.path) with
        | error error =>
            have other := decodeEntry_ne_batchItemTooLarge read
            cases error with
            | corruptRecord =>
                simp only [Call.run_bind, Call.run_atomic]
                exact Preserves.bind (keeps_quarantineRuntimeEntry entry) (fun _ => later _ _) m contains
            | _ => exact ⟨other, contains⟩
        | ok stored =>
            have fits := (fitting.read contains (pending entry List.mem_cons_self) read).1
            simp only
            split
            · exact contains
            · rw [if_neg (not_lt.mpr fits)]
              exact later _ _ m contains

/-- An item that was read fits a batch. -/
theorem post_candidateItem_fits (fitting : Fitting inner bodies) {counted : OrdMap Nat RecordId}
    {candidate : BatchCandidateV2} {m : Machine} (small : candidate.Small inner)
    (pending : ∀ entry, candidate = .record entry → entry.IsPending) (contains : m.Contains bodies) :
    Post (candidateItem inner counted candidate).run m
      (fun item m' => m'.Contains bodies ∧
        ∀ found, item = some found →
          encodedSize inner.host found.toJson ≤ inner.config.batchMaxBytes)
      (fun error m' => error ≠ .batchItemTooLarge ∧ m'.Contains bodies) := by
  cases candidate with
  | gap notice =>
      refine ⟨contains, fun found same => ?_⟩
      obtain rfl := Option.some.inj same
      exact small
  | record entry =>
      rw [candidateItem]
      split
      · rw [Call.run_bind, post_bind, Call.run_atomic]
        refine (keeps_readEntry entry m contains).monoOk fun _ m₁ kept => ⟨kept, fun found same => ?_⟩
        obtain rfl := Option.some.inj same
        exact small
      · rw [Call.run_bind, post_bind, Call.post_attempt, post_readEntry]
        cases read : decodeEntry inner entry (m.disk.read entry.path) with
        | error error =>
            have other := decodeEntry_ne_batchItemTooLarge read
            cases error with
            | corruptRecord =>
                simp only [Call.run_bind, Call.run_atomic, post_bind]
                refine (keeps_quarantineRuntimeEntry entry m contains).monoOk fun _ m₁ kept => ?_
                refine ⟨kept, fun found none => ?_⟩
                cases none
            | _ => exact ⟨other, contains⟩
        | ok stored =>
            refine ⟨contains, fun found same => ?_⟩
            obtain rfl := Option.some.inj same
            exact (fitting.read contains (pending entry rfl) read).2

/-- Nor does one under the second protocol. -/
theorem keeps_scanV2 (fitting : Fitting inner bodies) (counted : OrdMap Nat RecordId)
    {remaining : List BatchCandidateV2} (small : ∀ candidate ∈ remaining, candidate.Small inner)
    (pending : ∀ entry, .record entry ∈ remaining → entry.IsPending) (scan : ScanV2) :
    Keeps (Machine.Contains bodies) (scanV2 inner counted remaining scan).run := by
  induction remaining generalizing scan with
  | nil => exact .pure _
  | cons candidate rest ih =>
      have later := ih (fun other inside => small other (List.mem_cons_of_mem _ inside))
        fun entry inside => pending entry (List.mem_cons_of_mem _ inside)
      rw [scanV2]
      split
      · exact .pure _
      · intro m contains
        rw [Call.run_bind, post_bind]
        refine (post_candidateItem_fits fitting (small candidate List.mem_cons_self)
          (fun entry same => pending entry (same ▸ List.mem_cons_self)) contains).monoOk ?_
        rintro item m₁ ⟨kept, fits⟩
        cases item with
        | none => exact later _ m₁ kept
        | some item =>
            have bound := fits item rfl
            simp only
            split
            · exact kept
            · split
              · exact kept
              · rw [if_neg (not_lt.mpr bound)]
                exact later _ m₁ kept

theorem keeps_mapM {β : Type} {f : α → Section β} (each : ∀ a, Keeps (Machine.Contains bodies) (f a))
    (items : List α) : Keeps (Machine.Contains bodies) (items.mapM f) := by
  induction items with
  | nil => exact .pure _
  | cons item rest ih =>
      rw [List.mapM_cons]
      exact .bind (each item) fun _ => .bind ih fun _ => .pure _

theorem keeps_receiptAdmissionsV1 (delivered : HubBatchV1) (ack : HubAckV1) :
    Keeps (Machine.Contains bodies) (receiptAdmissionsV1 delivered ack) := by
  refine .bind keeps_state fun state => keeps_mapM (fun record => ?_) _
  cases state.entries.get? record.recordId with
  | none => exact .throw (by decide)
  | some entry => exact .pure _

theorem keeps_receiptAdmissionsV2 (delivered : HubBatchV2) (ack : HubAckV2) :
    Keeps (Machine.Contains bodies) (receiptAdmissionsV2 delivered ack) := by
  refine .bind keeps_state fun state => keeps_mapM (fun record => ?_) _
  cases state.entries.get? record.legacyRecordId with
  | none => exact .throw (by decide)
  | some entry => exact .ite (.throw (by decide)) (.pure _)

theorem keeps_completeReceipt (receipt : AckReceipt) :
    Keeps (Machine.Contains bodies) (completeReceipt inner receipt) :=
  stable_contains.keeps_completeReceipt receipt

theorem keeps_commitReceipt (receiptAt : Nat → AckReceipt) :
    Keeps (Machine.Contains bodies) (commitReceipt inner receiptAt).run := by
  have stable := @stable_contains bodies inner
  rw [commitReceipt, Call.run_bind, Call.run_atomic]
  refine .bind stable.keeps_allocateReceipt fun sequence => ?_
  simp only
  split
  · exact .throw (by decide)
  · simp only [Call.run_bind, Call.run_atomic, Call.run_pure]
    have written : OfBodies bodies (.receipt (receiptFileName sequence (receiptAt sequence).batchId))
        (inner.key.encrypt (.receipt (receiptAt sequence))) := .inl fun _ => Path.noConfusion
    exact .bind (stable.keeps_writeAtomic written) fun _ =>
      .bind (stable.keeps_modifyReceipts fun _ => .refl _) fun _ =>
        .bind (keeps_completeReceipt _) fun _ => .bind stable.keeps_pruneReceipts fun _ => .pure _

theorem keeps_requireNoGaps : Keeps (Machine.Contains bodies) requireNoGaps := by
  intro m contains
  simp only [requireNoGaps, post_bind, post_state, post_ite, post_throw, post_pure]
  exact ⟨fun _ => ⟨by decide, contains⟩, fun _ => contains⟩

/-- A pull under the first protocol reports no item too large. -/
theorem post_buildBatch_sized (fitting : Fitting inner bodies) {m : Machine}
    (keyed : m.state.Keyed) (pathed : m.state.Pathed) (contains : m.Contains bodies) :
    Post (buildBatch inner).run m (fun _ m' => m'.Contains bodies)
      (fun error m' => error ≠ .batchItemTooLarge ∧ m'.Contains bodies) := by
  have pending : ∀ entry ∈ m.state.entries.values.insertionSort Entry.admittedBefore,
      entry.IsPending := fun entry inside =>
    ⟨_, pathed.entries entry (keyed.holds (mem_insertionSort.mp inside))⟩
  simp only [buildBatch, Call.run_bind, Call.run_atomic, post_bind, post_state, post_ite,
    post_throw, post_pure, Call.run_pure]
  refine ⟨fun _ => ⟨by decide, contains⟩, fun _ => ?_⟩
  refine (keeps_scanV1 fitting pending [] 0 m contains).monoOk fun records m₁ kept => ?_
  exact keeps_requireNoGaps m₁ kept

/-! ### What `enqueue` writes -/

/-- The envelope as it is read back from what was printed. -/
def ReceiverEnvelope.reread (host : Host) (envelope : Envelope) : Envelope :=
  (envelope.map host.codec.print).map host.codec.parse

/-- The identity of an offered envelope tells whether it was read back with other numbers: the digest
does not collide on the two. -/
def TellsRewriting (host : Host) (offered : Nat → Envelope → Prop) : Prop :=
  ∀ s envelope, offered s envelope → (envelope.reread host).recordId host = envelope.recordId host →
    envelope.reread host = envelope

/-- A body `enqueue` has sealed after it checked both delivery forms against the limit. -/
structure SealedWithin (key : EncryptionKey) (host : Host) (limit : Nat)
    (offered : Nat → Envelope → Prop) (body : Blob) (inner : Inner) (envelope : Envelope)
    (admittedAtMs : I64) (s : Nat) : Prop where
  sameHost : inner.host = host
  offer : offered s envelope
  content : body = key.encrypt
    (Plain.ofStoredRecord host.codec (storedRecord inner envelope admittedAtMs s))
  v1 : (deliveryBytes inner envelope admittedAtMs s).1 ≤ limit
  v2 : (deliveryBytes inner envelope admittedAtMs s).2 ≤ limit

/-- A body that can no longer be read, or that is deliverable within the limit. -/
def Deliverable (key : EncryptionKey) (host : Host) (limit : Nat)
    (offered : Nat → Envelope → Prop) (body : Blob) : Prop :=
  Unreadable key host body ∨ ∃ inner envelope admittedAtMs s,
    SealedWithin key host limit offered body inner envelope admittedAtMs s

variable {offered : Nat → Envelope → Prop}

/-- What is deliverable stays so when more may be offered. -/
theorem Deliverable.mono {key : EncryptionKey} {host : Host} {limit : Nat}
    {permitted : Nat → Envelope → Prop}
    (weaker : ∀ s envelope, offered s envelope → permitted s envelope) {body : Blob}
    (deliverable : Deliverable key host limit offered body) :
    Deliverable key host limit permitted body := by
  rcases deliverable with unreadable | ⟨inner, envelope, admittedAtMs, s, sealed⟩
  · exact .inl unreadable
  · exact .inr ⟨inner, envelope, admittedAtMs, s,
      { sealed with offer := weaker _ _ sealed.offer }⟩

/-- What is deliverable is of the present version. -/
theorem unmigrated_deliverable {limit : Nat} :
    Unmigrated inner (Deliverable inner.key inner.host limit offered) := by
  rintro body plaintext stored (unreadable | ⟨inner', envelope, admittedAtMs, s, sealed⟩) opened parsed
  · exact absurd opened (unreadable plaintext)
  · rw [sealed.content, inner.key.decrypt_encrypt] at opened
    obtain rfl := Except.ok.inj opened
    obtain ⟨text, same, -, rfl⟩ := Plain.toStoredRecord_eq_some.mp parsed
    obtain rfl := Plain.record.inj same
    change (2 : Nat) ≠ 1
    decide

theorem validStoredRecord_recordId {host : Host} {stored : StoredRecord F64}
    (valid : validStoredRecord host stored = true) :
    stored.recordId = stored.envelope.recordId host := by
  by_contra other
  rw [validStoredRecord, if_pos (.inr (.inl other))] at valid
  cases valid

/-- A sealed record reads back under the sequence it was sealed with only. -/
theorem SealedWithin.sequence {limit : Nat} {body : Blob} {inner' : Inner} {envelope : Envelope}
    {admittedAtMs : I64} {s : Nat} {entry : Entry} {stored : StoredRecord F64}
    (sealed : SealedWithin inner.key inner.host limit offered body inner' envelope admittedAtMs s)
    (read : decodeEntry inner entry (some body) = .ok stored) : s = entry.spoolSeq := by
  obtain ⟨-, ⟨plaintext, opened, parsed⟩, -, -, -, sequence⟩ := decodeEntry_some_eq_ok_iff.mp read
  rw [sealed.content, inner.key.decrypt_encrypt] at opened
  obtain rfl := Except.ok.inj opened
  obtain ⟨text, same, -, rfl⟩ := Plain.toStoredRecord_eq_some.mp parsed
  obtain rfl := Plain.record.inj same
  exact Option.some.inj sequence

/-- A record that reads back is delivered in the sizes that were checked. -/
theorem SealedWithin.sizes {limit : Nat} {body : Blob} {inner' : Inner} {envelope : Envelope}
    {admittedAtMs : I64} {s : Nat} {entry : Entry} {stored : StoredRecord F64}
    (sealed : SealedWithin inner.key inner.host limit offered body inner' envelope admittedAtMs s)
    (tells : TellsRewriting inner.host offered)
    (read : decodeEntry inner entry (some body) = .ok stored) :
    encodedSize inner.host (HubBatchRecordV1.toJson
      { recordId := stored.recordId
        receivedAtMs := stored.admittedAtMs
        envelope := stored.envelope }) = (deliveryBytes inner' envelope admittedAtMs s).1 ∧
    encodedSize inner.host (HubBatchRecordV2.toJson
      { recordId := entry.stableRecordId
        legacyRecordId := entry.recordId
        spoolSeq := entry.spoolSeq
        receivedAtMs := stored.admittedAtMs
        envelope := stored.envelope }) = (deliveryBytes inner' envelope admittedAtMs s).2 := by
  have sameSeq := sealed.sequence read
  obtain ⟨-, ⟨plaintext, opened, parsed⟩, valid, -⟩ := decodeEntry_some_eq_ok_iff.mp read
  rw [sealed.content, inner.key.decrypt_encrypt] at opened
  obtain rfl := Except.ok.inj opened
  obtain ⟨text, same, -, rfl⟩ := Plain.toStoredRecord_eq_some.mp parsed
  obtain rfl := Plain.record.inj same
  have identity : (envelope.reread inner.host).recordId inner.host =
      envelope.recordId inner.host := by
    rw [← sealed.sameHost] at valid ⊢
    exact (validStoredRecord_recordId valid).symm
  have same : envelope.reread inner.host = envelope := tells s envelope sealed.offer identity
  simp only [deliveryBytes, encodedSize_recordV1, encodedSize_recordV2, sealed.sameHost, ← sameSeq]
  constructor
  · change _ + _ + ((envelope.reread inner.host).map _).toJson.size = _
    rw [same]
    rfl
  · change _ + _ + _ + ((envelope.reread inner.host).map _).toJson.size = _
    rw [same]
    rfl

/-- Whatever `enqueue` has sealed fits a batch. -/
theorem fitting_deliverable (tells : TellsRewriting inner.host offered) :
    Fitting inner (Deliverable inner.key inner.host inner.config.batchMaxBytes offered) := by
  rintro body entry stored (unreadable | ⟨inner', envelope, admittedAtMs, s, sealed⟩) read
  · obtain ⟨-, ⟨plaintext, opened, -⟩, -⟩ := decodeEntry_some_eq_ok_iff.mp read
    exact absurd opened (unreadable plaintext)
  · obtain ⟨v1, v2⟩ := sealed.sizes tells read
    rw [v1, v2]
    exact ⟨sealed.v1, sealed.v2⟩

/-! ### Sound machines -/

section Sound

variable {m m' : Machine} {since : List Disk}

/-- The bodies a spool with this configuration may have written. -/
abbrev Inner.Bodies (inner : Inner) (offered : Nat → Envelope → Prop) : Blob → Prop :=
  Deliverable inner.key inner.host inner.config.batchMaxBytes offered

theorem Effect.contains (effect : Effect inner offered m m')
    (contains : m.Contains (inner.Bodies offered)) : m'.Contains (inner.Bodies offered) := by
  have written : ∀ {path body record}, Write inner offered m path body record →
      (m.place path body).Contains (inner.Bodies offered) := by
    intro path body record write
    refine contains.place ?_
    cases write with
    | sequence | gap | receipt => exact .inl fun _ => Path.noConfusion
    | pending offer valid absent next content named room small delivery =>
        exact .inr (.inr ⟨inner, _, _, _, rfl, offer, content, delivery.1, delivery.2⟩)
  cases effect with
  | fault | writeFailed | updated => exact contains
  | orphaned => exact contains.orphan _
  | wrote _ _ write => exact written write
  | unsynced _ _ _ write => exact written write
  | removed => exact contains.discard _
  | setAside => exact contains.setAside _ _

/-- Along a chain the pending files keep within what was offered. -/
theorem Chain.contains (chain : Chain inner offered m m')
    (contains : m.Contains (inner.Bodies offered)) : m'.Contains (inner.Bodies offered) :=
  Chain.invariant (I := Machine.Contains (inner.Bodies offered))
    (fun _ _ contains effect => effect.contains contains) chain contains

/-- Once a record has been admitted, the limit leaves room for any gap notice. -/
theorem Machine.Contains.room (contains : m.Contains (inner.Bodies offered)) {s : Nat}
    {record : StoredRecord Str} (admitted : Admitted inner.key m.timeline s record) :
    268 ≤ inner.config.batchMaxBytes := by
  obtain ⟨-, d, inside, found⟩ := admitted
  rcases contains d inside _ _ found with unreadable | ⟨inner', envelope, admittedAtMs, t, sealed⟩
  · exact absurd (inner.key.decrypt_encrypt _ _) (unreadable _)
  · have bound := sealed.v2
    have envelope := le_size_envelope (envelope.map inner'.host.codec.print)
    simp only [deliveryBytes, encodedSize_recordV2] at bound
    omega

/-- Every candidate of a sound machine is small. -/
theorem Sound.small_candidates (sound : Sound inner.key inner.host offered since m)
    (keyed : m.state.Keyed) (contains : m.Contains (inner.Bodies offered)) :
    ∀ candidate ∈ candidates m.state, candidate.Small inner := by
  have small : ∀ notice, NoticeOf inner.key inner.host m.timeline notice →
      encodedSize inner.host (notice.toJson : Value) ≤ inner.config.batchMaxBytes := by
    intro notice known
    have bound := encodedSize_gap_le inner.host (sound.lawful.wellFormed known)
    obtain ⟨record, -, admitted, -⟩ := known
    exact bound.trans (contains.room admitted)
  intro candidate inside
  cases candidate with
  | gap notice =>
      obtain ⟨gap, here, rfl⟩ := mem_candidates_gap.mp inside
      obtain ⟨noticeId, found⟩ := OrdMap.mem_values_iff.mp here
      exact small _ (sound.heldNotice found)
  | record entry =>
      exact small _ (sound.backed.noticeOf (keyed.holds (mem_candidates_record.mp inside)) _ _ _)

/-- Neither does one under the second. -/
theorem post_buildBatchV2_sized {restarts : Nat} (distinct : DistinctNotices inner.host offered)
    (tells : TellsRewriting inner.host offered)
    (sound : Sound inner.key inner.host offered since m) (ready : Ready inner.key m)
    (contains : m.Contains (inner.Bodies offered)) :
    Post (buildBatchV2 inner restarts).run m (fun _ m' => m'.Contains (inner.Bodies offered))
      (fun error m' => error ≠ .batchItemTooLarge ∧ m'.Contains (inner.Bodies offered)) := by
  induction restarts generalizing m with
  | zero => exact ⟨by decide, contains⟩
  | succ restarts ih =>
      have held : ∀ entry, .record entry ∈ candidates m.state → m.state.Holds entry :=
        fun entry inside => ready.keyed.holds (mem_candidates_record.mp inside)
      simp only [buildBatchV2, Call.run_bind, Call.run_atomic, post_bind, post_state, post_ite,
        post_throw, post_pure]
      refine ⟨fun _ => ⟨by decide, contains⟩, fun _ => ?_⟩
      change Post (if repeatsSequence (candidates m.state) = true then _ else _ :
        SpoolCall HubBatchV2).run m _ _
      split
      · exact ⟨by decide, contains⟩
      · simp only [Call.run_bind, post_bind]
        have scanned := @post_scanV2 inner noOffers m m.state.countedPendingExpirations _
          ScanV2.start ready.keyed ready.pathed held (nodup_candidates_entries ready.keyed)
        have sized := keeps_scanV2 (fitting_deliverable tells) m.state.countedPendingExpirations
          (sound.small_candidates ready.keyed contains)
          (fun entry inside => ⟨_, ready.pathed.entries entry (held entry inside)⟩) ScanV2.start m
          contains
        refine (scanned.and sized).mono ?_ fun _ _ facts => facts.2
        rintro result m₁ ⟨⟨chain, -⟩, kept⟩
        split
        · exact ih (chain.offering.sound distinct sound) (chain.ready ready) kept
        · exact kept

/-- No call but `enqueue` finds an item too large. -/
theorem Request.post_sized {request : Request} (distinct : DistinctNotices inner.host offered)
    (tells : TellsRewriting inner.host offered)
    (sound : Sound inner.key inner.host offered since m) (ready : Ready inner.key m)
    (contains : m.Contains (inner.Bodies offered)) (other : request.isEnqueue = false) :
    Post (request.call inner).run m (fun _ m' => m'.Contains (inner.Bodies offered))
      (fun error m' => error ≠ .batchItemTooLarge ∧ m'.Contains (inner.Bodies offered)) := by
  have fitting : Fitting inner (inner.Bodies offered) := fitting_deliverable tells
  have expires := fun nowMs => @post_expireDueLocked inner noOffers m nowMs ready.keyed ready.numbered
  have pull : ∀ {α : Type} {nowMs : I64} {rest : Nat → SpoolCall α},
      (∀ count m₁, Sound inner.key inner.host offered since m₁ → Ready inner.key m₁ →
        m₁.Contains (inner.Bodies offered) → Post (rest count).run m₁
          (fun _ m' => m'.Contains (inner.Bodies offered))
          (fun error m' => error ≠ .batchItemTooLarge ∧ m'.Contains (inner.Bodies offered))) →
      Post (TeslatlasEdge.expireDue inner nowMs >>= rest).run m
        (fun _ m' => m'.Contains (inner.Bodies offered))
        (fun error m' => error ≠ .batchItemTooLarge ∧ m'.Contains (inner.Bodies offered)) := by
    intro α nowMs rest later
    rw [Call.run_bind, post_bind, TeslatlasEdge.expireDue, Call.run_atomic]
    refine ((expires nowMs).and (stable_contains.post_expireDueLocked_keeps contains
      fun _ _ => ⟨gapAllowed_ofBodies _, trivial⟩)).mono ?_ fun _ _ facts => facts.2
    rintro count m₁ ⟨chain, kept⟩
    exact later count m₁ (chain.offering.sound distinct sound) (chain.ready ready) kept
  have completed : ∀ {α : Type} (receipt : AckReceipt) (result : α),
      Post (do
          Call.atomic (.complete receipt) (completeReceipt inner receipt)
          return result : SpoolCall α).run m
        (fun _ m' => m'.Contains (inner.Bodies offered))
        (fun error m' => error ≠ .batchItemTooLarge ∧ m'.Contains (inner.Bodies offered)) := by
    intro α receipt result
    rw [Call.run_bind, Call.run_atomic]
    exact Preserves.bind (keeps_completeReceipt receipt) (fun _ => .pure _) m contains
  cases request with
  | enqueue => cases other
  | expireDue nowMs =>
      rw [Request.call]
      exact pull fun _ _ _ _ kept => kept
  | nextBatchV2 restarts nowMs =>
      rw [Request.call, Call.run_bind, post_bind, TeslatlasEdge.nextBatchV2]
      simp only [Call.run_pure, post_pure]
      exact pull fun _ _ sound₁ ready₁ kept => post_buildBatchV2_sized distinct tells sound₁ ready₁ kept
  | nextBatch nowMs =>
      rw [Request.call, Call.run_bind, post_bind, TeslatlasEdge.nextBatch]
      simp only [Call.run_pure, post_pure]
      refine pull fun _ m₁ _ ready₁ kept => ?_
      simp only [requireNoGaps, Call.run_bind, Call.run_atomic, post_bind, post_state, post_ite,
        post_throw, post_pure]
      refine ⟨fun _ => ⟨by decide, kept⟩, fun _ => ⟨fun _ => ⟨by decide, kept⟩, fun _ => ?_⟩⟩
      exact post_buildBatch_sized fitting ready₁.keyed ready₁.pathed kept
  | acknowledge ack =>
      rw [Request.call, Call.run_bind, post_bind, TeslatlasEdge.acknowledge]
      simp only [Call.run_pure, post_pure]
      split
      · exact ⟨by decide, contains⟩
      · simp only [Call.run_bind, Call.run_atomic, post_bind, post_state, post_pure]
        cases m.state.receipts.get? ack.batchId with
        | some prior =>
            simp only
            split
            · exact ⟨by decide, contains⟩
            · exact completed prior.receipt _
        | none =>
            simp only [Call.run_bind, Call.run_atomic, post_bind, post_state, post_ite, post_throw,
              post_pure]
            refine ⟨fun _ => ⟨by decide, contains⟩, fun _ => ?_⟩
            refine (post_buildBatch_sized fitting ready.keyed ready.pathed contains).monoOk
              fun delivered m₁ kept => ?_
            split
            · exact ⟨by decide, kept⟩
            · simp only [Call.run_bind, Call.run_atomic, Call.run_pure]
              exact Preserves.bind (keeps_receiptAdmissionsV1 delivered ack)
                (fun _ => .bind (keeps_commitReceipt _) fun _ => .pure _) m₁ kept
  | acknowledgeV2 restarts ack =>
      rw [Request.call, Call.run_bind, post_bind, TeslatlasEdge.acknowledgeV2]
      simp only [Call.run_pure, post_pure]
      split
      · exact ⟨by decide, contains⟩
      · simp only [Call.run_bind, Call.run_atomic, post_bind, post_state, post_pure]
        cases m.state.receipts.get? ack.batchId with
        | some prior =>
            simp only
            split
            · exact ⟨by decide, contains⟩
            · exact completed prior.receipt _
        | none =>
            simp only [Call.run_bind, post_bind]
            refine (post_buildBatchV2_sized distinct tells sound ready contains).monoOk
              fun delivered m₁ kept => ?_
            split
            · exact ⟨by decide, kept⟩
            · simp only [Call.run_bind, Call.run_atomic, Call.run_pure]
              exact Preserves.bind (keeps_receiptAdmissionsV2 delivered ack)
                (fun _ => .bind (keeps_commitReceipt _) fun _ => .pure _) m₁ kept

end Sound

/-! ### Runs with one limit -/

/-- The spool is opened under one key and with one limit for the bytes of a batch, and files are
damaged so that the key no longer opens them. -/
def Fixed (key : EncryptionKey) (host : Host) (limit : Nat) (w : World) : Move → Prop
  | .openSpool inner nowMs faults =>
      UnderKey key host w (.openSpool inner nowMs faults) ∧ inner.config.batchMaxBytes = limit
  | move => UnderKey key host w move

theorem Fixed.underKey {key : EncryptionKey} {host : Host} {limit : Nat} {w : World} {move : Move}
    (fixed : Fixed key host limit w move) : UnderKey key host w move := by
  cases move with
  | openSpool => exact fixed.1
  | call | drop | damage | damageReceipt | relist => exact fixed

/-- Every pending file there has been is deliverable within the limit. -/
structure World.Sealed (key : EncryptionKey) (host : Host) (limit : Nat) (w : World) : Prop where
  bodies : ∀ d ∈ w.timeline, ∀ name body, d.read (.pending name) = some body →
    Deliverable key host limit w.Offered body
  configured : ∀ process, w.process = some process → process.inner.config.batchMaxBytes = limit

section Runs

variable {key : EncryptionKey} {host : Host} {limit : Nat} {w w' : World}

/-- Opening a sealed directory seals the state. -/
theorem World.Sealed.opened (sealed : w.Sealed key host limit) {inner : Inner}
    (sameKey : inner.key = key ∧ inner.host = host) (lockHeld : Bool) (nowMs : I64)
    (faults : Faults) :
    Post (openSpool inner lockHeld nowMs) (w.opening faults)
      (fun _ m' => m'.Contains (Deliverable key host limit w.Offered))
      (fun _ m' => m'.Contains (Deliverable key host limit w.Offered)) := by
  obtain ⟨rfl, rfl⟩ := sameKey
  exact (loads_openSpool unmigrated_deliverable lockHeld nowMs (w.opening faults)
    sealed.bodies).mono (fun _ _ kept => kept) fun _ _ kept => kept.2

/-- Serving a request keeps a world sealed. -/
theorem World.Sealed.served (sealed : w.Sealed key host limit) (kept : Kept key host w)
    {process : Process} (running : w.process = some process) {request : Request}
    {reply : Option (Except SpoolError Reply)}
    (logged : w'.log = ⟨process.state.nextSpoolSequence, request, reply⟩ :: w.log)
    (faults : Faults) :
    (finalState (w.serve process request faults)).Contains
      (Deliverable key host limit w'.Offered) := by
  obtain ⟨rfl, rfl, backing⟩ := kept.running process running
  obtain ⟨-, ready⟩ := backing faults
  obtain rfl := sealed.configured process running
  have grown : ∀ s envelope, w.Offered s envelope → w'.Offered s envelope := by
    rintro s envelope ⟨event, inside, facts⟩
    refine ⟨event, ?_, facts⟩
    rw [logged]
    exact List.mem_cons_of_mem _ inside
  have offer : ∀ envelope admittedAtMs, request = .enqueue envelope admittedAtMs →
      w'.Offered (w.machine process faults).state.nextSpoolSequence envelope := by
    intro envelope admittedAtMs same
    refine ⟨⟨process.state.nextSpoolSequence, request, reply⟩, ?_, rfl, admittedAtMs, same⟩
    rw [logged]
    exact List.mem_cons_self
  have contains : (w.machine process faults).Contains (process.inner.Bodies w'.Offered) :=
    fun d inside name body found => (sealed.bodies d inside name body found).mono grown
  refine Post.final ((request.post_chain ready (kept.configured process running) offer).mono ?_ ?_)
  · exact fun _ _ facts => facts.1.contains contains
  · exact fun _ _ facts => facts.1.contains contains

/-- So does every move under the limit. -/
theorem World.Sealed.step {move : Move} (sealed : w.Sealed key host limit) (kept : Kept key host w)
    (may : Fixed key host limit w move) (moved : Step w move w') : w'.Sealed key host limit := by
  have none : ∀ process : Process, Option.none = some process → process.inner.config.batchMaxBytes =
      limit := fun _ same => absurd same (Option.some_ne_none _).symm
  cases moved with
  | @opened inner nowMs faults after closed ran =>
      refine ⟨(sealed.opened may.1 false nowMs faults).of_ok ran, fun process running => ?_⟩
      obtain rfl := Option.some.inj running
      exact may.2
  | @openFailed inner nowMs faults error after closed ran =>
      exact ⟨(sealed.opened may.1 false nowMs faults).of_error ran, none⟩
  | @openStopped inner nowMs faults d older closed stopped =>
      refine ⟨fun e inside => ?_, none⟩
      exact (sealed.opened may.1 false nowMs faults).final e (stopped.reached.mem inside)
  | @openRefused inner nowMs faults process error after running ran =>
      have same := openSpool_locked ran
      rw [same]
      exact sealed
  | @returned request faults process running =>
      refine ⟨sealed.served kept running rfl faults, fun _ running' => ?_⟩
      obtain rfl := Option.some.inj running'
      exact sealed.configured process running
  | @callStopped request faults process d older running stopped =>
      refine ⟨fun e inside => ?_, none⟩
      exact sealed.served kept running rfl faults e (stopped.reached.mem inside)
  | dropped => exact ⟨sealed.bodies, none⟩
  | @damaged name body old present =>
      refine ⟨fun d inside other content found => ?_, sealed.configured⟩
      rcases List.mem_cons.mp inside with rfl | inside
      · have read := Disk.read_put w.disk body (.pending name) (.pending other)
        rw [show (w.disk.put body (.pending name)).read (.pending other) = some content from
          found] at read
        split at read
        · obtain rfl := Option.some.inj read
          exact .inl may
        · exact sealed.bodies w.disk List.mem_cons_self other content read.symm
      · exact sealed.bodies d inside other content found
  | @receiptDamaged name body old closed present =>
      refine ⟨fun d inside other content found => ?_, sealed.configured⟩
      rcases List.mem_cons.mp inside with rfl | inside
      · exact sealed.bodies w.disk List.mem_cons_self other content found
      · exact sealed.bodies d inside other content found
  | @relisted d same =>
      refine ⟨fun e inside other content found => ?_, sealed.configured⟩
      rcases List.mem_cons.mp inside with rfl | inside
      · rw [same.read] at found
        exact sealed.bodies w.disk List.mem_cons_self other content found
      · exact sealed.bodies e (List.mem_cons_of_mem _ inside) other content found

/-- Every world reached under the limit is sealed. -/
theorem Reach.sealed (reach : Reach (Fixed key host limit) w)
    (distinct : DistinctNotices host w.Offered) : w.Sealed key host limit := by
  induction reach with
  | start =>
      refine ⟨fun d inside name body found => ?_, fun _ same => absurd same (Option.some_ne_none _).symm⟩
      rw [List.mem_singleton.mp inside] at found
      cases found
  | @step w w' move before may moved ih =>
      have earlier := distinct.offering moved.offered
      exact (ih earlier).step ((before.mono fun _ _ => Fixed.underKey).kept earlier) may moved

/-- No call that delivers or acknowledges finds an item too large; a record that reads back is
delivered in the sizes `enqueue` has checked for the envelope that was offered under its sequence; and
no gap notice is longer than a record. -/
theorem no_record_too_large (reach : Reach (Fixed key host limit) w)
    (distinct : DistinctNotices host w.Offered) (tells : TellsRewriting host w.Offered)
    {process : Process} (running : w.process = some process) (faults : Faults) :
    (∀ request : Request, request.isEnqueue = false →
      answer (w.serve process request faults) ≠ .error .batchItemTooLarge) ∧
    (∀ entry stored, process.state.Holds entry →
      decodeEntry process.inner entry (w.disk.read entry.path) = .ok stored →
      ∃ inner envelope admittedAtMs s, w.Offered s envelope ∧ s = entry.spoolSeq ∧
        inner.host = host ∧ (deliveryBytes inner envelope admittedAtMs s).1 ≤ limit ∧
        (deliveryBytes inner envelope admittedAtMs s).2 ≤ limit ∧
        encodedSize host (HubBatchRecordV1.toJson
          { recordId := stored.recordId
            receivedAtMs := stored.admittedAtMs
            envelope := stored.envelope }) = (deliveryBytes inner envelope admittedAtMs s).1 ∧
        encodedSize host (HubBatchRecordV2.toJson
          { recordId := entry.stableRecordId
            legacyRecordId := entry.recordId
            spoolSeq := entry.spoolSeq
            receivedAtMs := stored.admittedAtMs
            envelope := stored.envelope }) = (deliveryBytes inner envelope admittedAtMs s).2) ∧
    ∀ s identity occurredAtMs reason (record : HubBatchRecordV2), s ≤ u64Max →
      encodedSize host (gapNoticeForIdentity host s identity occurredAtMs reason).toJson ≤
        encodedSize host record.toJson := by
  have kept := (reach.mono fun _ _ => Fixed.underKey).kept distinct
  obtain ⟨bodies, configured⟩ := reach.sealed distinct
  obtain ⟨rfl, rfl, backing⟩ := kept.running process running
  obtain ⟨sound, ready⟩ := backing faults
  obtain rfl := configured process running
  refine ⟨fun request other failed => ?_, fun entry stored held read => ?_,
    fun s identity occurredAtMs reason record bounded => ?_⟩
  · have sized := Request.post_sized distinct tells sound ready bodies other
    cases ran : w.serve process request faults with
    | ok reply m' =>
        rw [ran] at failed
        cases failed
    | error error m' =>
        rw [ran] at failed
        exact (sized.of_error ran).1 (Except.error.inj failed)
  · obtain ⟨body, found, -⟩ := decodeEntry_eq_ok read
    have path := ready.pathed.entries entry held
    rw [found] at read
    rw [path] at found
    rcases bodies w.disk List.mem_cons_self _ body found with
      unreadable | ⟨inner, envelope, admittedAtMs, s, sealed⟩
    · obtain ⟨-, ⟨plaintext, opened, -⟩, -⟩ := decodeEntry_some_eq_ok_iff.mp read
      exact absurd opened (unreadable plaintext)
    · obtain ⟨v1, v2⟩ := sealed.sizes tells read
      exact ⟨inner, envelope, admittedAtMs, s, sealed.offer, sealed.sequence read, sealed.sameHost,
        sealed.v1, sealed.v2, v1, v2⟩
  · exact encodedSize_gap_le_recordV2 _
      (gapNoticeForIdentity_wellFormed bounded identity occurredAtMs reason) record

end Runs

/-! ### One record -/

theorem singleAdmission_fixed :
    ∀ w, ∀ move ∈ singleAdmission,
      Fixed sampleKey (referenceHost integerCodec) 1048576 w move := by
  intro w move inside
  simp only [singleAdmission, List.mem_cons, List.not_mem_nil, or_false] at inside
  rcases inside with rfl | rfl
  · exact ⟨⟨rfl, rfl⟩, rfl⟩
  · trivial

theorem singleAdmission_plain :
    ((World.fresh.play singleAdmission).any fun w => decide w.OffersOnce &&
      (w.offers.all fun offer => offer.2.payload.floats.isEmpty) && w.process.isSome) = true := by
  decide +kernel

theorem no_record_too_large_singleAdmission :
    ∃ (w : World) (process : Process), w.process = some process ∧
      answer (w.serve process (.nextBatchV2 2 (sampleTime 2)) .none) ≠
        .error .batchItemTooLarge := by
  obtain ⟨w, played, shows⟩ := (Option.any_eq_true _ _).mp singleAdmission_plain
  simp only [Bool.and_eq_true, List.all_eq_true, decide_eq_true_eq] at shows
  obtain ⟨⟨once, plain⟩, runs⟩ := shows
  obtain ⟨process, running⟩ := Option.isSome_iff_exists.mp runs
  have tells : TellsRewriting (referenceHost integerCodec) w.Offered := by
    intro s envelope offer _
    have none := plain _ (World.mem_offers offer)
    refine envelope_readsBack fun x inside => ?_
    rw [List.isEmpty_iff.mp none] at inside
    exact absurd inside List.not_mem_nil
  exact ⟨w, process, running, (no_record_too_large
    (World.reach_of_play .start singleAdmission_fixed played) (once.distinctNotices _) tells running
    .none).1 _ rfl⟩

end TeslatlasEdge
