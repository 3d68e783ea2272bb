/-
Module: TeslatlasEdge.Storage
Purpose: What the spool writes to its files: the four stored structures with their JSON shape, the
  encrypted file bodies of `crypto.rs`, the directory tree, and the names of its files.
Trusted boundary: human-reviewed embedding.  A ciphertext is kept as the plaintext it seals and the
  key that sealed it, so authentication holds by construction: bytes no key sealed never open.
Main exports: StoredRecord, SequenceState, AckReceipt, Plain, Plain.toStoredRecord, Blob,
  EncryptionKey.decrypt, Disk, Path, pendingFileName, parseV2PendingFileName
-/
import TeslatlasEdge.Lib.OrdMap
import TeslatlasEdge.Protocol

namespace TeslatlasEdge

open Lib (OrdMap)

/-! ### Stored structures -/

structure StoredRecord (φ : Type) where
  version : Nat
  recordId : RecordId
  stableRecordId : Option RecordId
  spoolSeq : Option Nat
  admittedAtMs : I64
  expiresAtMs : I64
  envelope : ReceiverEnvelope φ

structure SequenceState where
  version : Nat
  nextSpoolSequence : Nat
  expiredRecordsTotal : Nat
  countedPendingExpirations : OrdMap Nat RecordId
  v1AckHistoryPruned : Bool

structure ReceiptAdmission where
  spoolSeq : Nat
  stableRecordId : RecordId
  legacyRecordId : RecordId
deriving DecidableEq

structure AckReceipt where
  version : Nat
  sequence : Nat
  batchId : Str
  acceptedRecordIds : List RecordId
  acceptedStableRecordIds : List RecordId
  acceptedGapNoticeIds : List RecordId
  acceptedAdmissions : List ReceiptAdmission
deriving DecidableEq

/-- A member that is left out when its list is empty. -/
def listMember {φ : Type} (name : String) : List RecordId → List (Str × Json φ)
  | [] => []
  | ids => [(name.toList, .arr (ids.map RecordId.toJson))]

namespace StoredRecord

variable {φ ψ : Type}

def map (f : φ → ψ) (stored : StoredRecord φ) : StoredRecord ψ :=
  { stored with envelope := stored.envelope.map f }

def toJson (stored : StoredRecord φ) : Json φ :=
  .obj <|
    [("version".toList, .int stored.version),
      ("record_id".toList, stored.recordId.toJson)] ++
    optionalMember "stable_record_id" (stored.stableRecordId.map RecordId.text) ++
    (match stored.spoolSeq with
      | none => []
      | some seq => [("spool_seq".toList, .int seq)]) ++
    [("admitted_at_ms".toList, .int stored.admittedAtMs.val),
      ("expires_at_ms".toList, .int stored.expiresAtMs.val),
      ("envelope".toList, stored.envelope.toJson)]

end StoredRecord

theorem fieldsDepth_optionalMember {φ : Type} (name : String) (label : Option Str) :
    Json.fieldsDepth (optionalMember (φ := φ) name label) = 0 := by
  cases label <;> rfl

/-- An envelope is nested one level deeper than its payload. -/
theorem ReceiverEnvelope.depth_toJson {φ : Type} (envelope : ReceiverEnvelope φ) :
    envelope.toJson.depth = envelope.payload.depth + 1 := by
  simp only [toJson, Json.depth, Json.fieldsDepth_append, Json.fieldsDepth,
    fieldsDepth_optionalMember]
  omega

/-- A stored record is nested one level deeper than its envelope. -/
theorem StoredRecord.depth_toJson {φ : Type} (stored : StoredRecord φ) :
    stored.toJson.depth = stored.envelope.payload.depth + 2 := by
  simp only [toJson, Json.depth, Json.fieldsDepth_append, Json.fieldsDepth,
    fieldsDepth_optionalMember, RecordId.toJson, ReceiverEnvelope.depth_toJson]
  cases stored.spoolSeq <;> simp only [Json.fieldsDepth, Json.depth] <;> omega

def SequenceState.toJson {φ : Type} (sequence : SequenceState) : Json φ :=
  .obj [("version".toList, .int sequence.version),
    ("next_spool_sequence".toList, .int sequence.nextSpoolSequence),
    ("expired_records_total".toList, .int sequence.expiredRecordsTotal),
    ("counted_pending_expirations".toList,
      .obj (sequence.countedPendingExpirations.toList.map fun counted =>
        (Nat.toDigits 10 counted.1, counted.2.toJson))),
    ("v1_ack_history_pruned".toList, .bool sequence.v1AckHistoryPruned)]

def ReceiptAdmission.toJson {φ : Type} (admission : ReceiptAdmission) : Json φ :=
  .obj [("spool_seq".toList, .int admission.spoolSeq),
    ("stable_record_id".toList, admission.stableRecordId.toJson),
    ("legacy_record_id".toList, admission.legacyRecordId.toJson)]

def AckReceipt.toJson {φ : Type} (receipt : AckReceipt) : Json φ :=
  .obj <|
    [("version".toList, .int receipt.version),
      ("sequence".toList, .int receipt.sequence),
      ("batch_id".toList, .str receipt.batchId),
      ("accepted_record_ids".toList, .arr (receipt.acceptedRecordIds.map RecordId.toJson))] ++
    listMember "accepted_stable_record_ids" receipt.acceptedStableRecordIds ++
    listMember "accepted_gap_notice_ids" receipt.acceptedGapNoticeIds ++
    [("accepted_admissions".toList,
      .arr (receipt.acceptedAdmissions.map ReceiptAdmission.toJson))]

/-! ### Plaintexts and file bodies -/

/-- The JSON text of one stored structure. -/
inductive Plain where
  | record (stored : StoredRecord Str)
  | gap (notice : GapNoticeV2)
  | receipt (receipt : AckReceipt)
  | sequence (state : SequenceState)

namespace Plain

def text : Plain → JsonText
  | .record stored => stored.toJson
  | .gap notice => notice.toJson
  | .receipt stored => stored.toJson
  | .sequence state => state.toJson

def size (plain : Plain) : Nat := plain.text.size

/-- `serde_json::to_vec(&stored)`. -/
def ofStoredRecord (codec : FloatCodec) (stored : StoredRecord F64) : Plain :=
  .record (stored.map codec.print)

/-- `serde_json::from_slice::<StoredRecord>`, which gives up on a text that is nested too deep. -/
def toStoredRecord (codec : FloatCodec) : Plain → Option (StoredRecord F64)
  | .record stored =>
      if stored.toJson.depth < Json.recursionLimit then some (stored.map codec.parse) else none
  | _ => none

/-- A plaintext is read as a stored record when it is one and is not nested too deep. -/
theorem toStoredRecord_eq_some {codec : FloatCodec} {plaintext : Plain}
    {stored : StoredRecord F64} :
    plaintext.toStoredRecord codec = some stored ↔
      ∃ record, plaintext = .record record ∧ record.toJson.depth < Json.recursionLimit ∧
        stored = record.map codec.parse := by
  cases plaintext with
  | record record =>
      rw [toStoredRecord]
      constructor
      · intro parsed
        split at parsed
        · rename_i shallow
          exact ⟨record, rfl, shallow, (Option.some.inj parsed).symm⟩
        · cases parsed
      · rintro ⟨other, same, shallow, rfl⟩
        obtain rfl := Plain.record.inj same
        exact if_pos shallow
  | gap | receipt | sequence =>
      refine ⟨fun parsed => (by cases parsed), ?_⟩
      rintro ⟨record, same, -⟩
      cases same

def toGapNotice : Plain → Option GapNoticeV2
  | .gap notice => some notice
  | _ => none

def toAckReceipt : Plain → Option AckReceipt
  | .receipt stored => some stored
  | _ => none

def toSequenceState : Plain → Option SequenceState
  | .sequence state => some state
  | _ => none

end Plain

/-- `EncryptionKey`. -/
structure EncryptionKey where
  bytes : Bytes
  length : bytes.length = 32
deriving DecidableEq

inductive CryptoError where
  | keyMismatch
  | invalidCiphertext
deriving Repr, DecidableEq

def magic : Bytes := Str.bytes "TLEDGE01".toList

/-- Magic, key id and nonce. -/
def headerBytes : Nat := 8 + 8 + 24

/-- The bytes of a file: a ciphertext made by `EncryptionKey::encrypt`, or any other bytes. -/
inductive Blob where
  | encrypted (key : EncryptionKey) (plain : Plain)
  | raw (bytes : Bytes)

namespace Blob

/-- File length: header, plaintext and the sixteen-byte tag. -/
def length : Blob → Nat
  | .encrypted _ plain => headerBytes + plain.size + 16
  | .raw bytes => bytes.length

end Blob

namespace EncryptionKey

def keyId (host : Host) (key : EncryptionKey) : Bytes := (host.sha256 key.bytes).val.take 8

def encrypt (key : EncryptionKey) (plain : Plain) : Blob := .encrypted key plain

def decrypt (host : Host) (key : EncryptionKey) : Blob → Except CryptoError Plain
  | .encrypted sealer plain =>
      if sealer.keyId host ≠ key.keyId host then .error .keyMismatch
      else if sealer = key then .ok plain
      else .error .invalidCiphertext
  | .raw bytes =>
      if bytes.length ≤ headerBytes ∨ bytes.take 8 ≠ magic then .error .invalidCiphertext
      else if (bytes.drop 8).take 8 ≠ key.keyId host then .error .keyMismatch
      else .error .invalidCiphertext

/-- What was encrypted under a key opens under it. -/
theorem decrypt_encrypt (host : Host) (key : EncryptionKey) (plain : Plain) :
    key.decrypt host (key.encrypt plain) = .ok plain := by
  simp [encrypt, decrypt]

end EncryptionKey

/-- What a key opens is what it has sealed. -/
theorem decrypt_eq_ok {host : Host} {key : EncryptionKey} {body : Blob} {plain : Plain}
    (opened : key.decrypt host body = .ok plain) : body = key.encrypt plain := by
  cases body with
  | raw bytes =>
      simp only [EncryptionKey.decrypt] at opened
      split at opened
      · cases opened
      · split at opened <;> cases opened
  | encrypted sealer inside =>
      simp only [EncryptionKey.decrypt] at opened
      split at opened
      · cases opened
      · split at opened
        · rename_i same
          rw [same, Except.ok.inj opened]
          rfl
        · cases opened

/-! ### The spool directory -/

/-- The files of one directory by name, in the order `read_dir` lists them. -/
abbrev Dir := AList fun _ : Str => Blob

/-- The spool directory tree.  Files in `tmp` and `quarantine` carry fresh random names that are
never read, so only their bodies are kept. -/
structure Disk where
  format : Option Str
  sequence : Option Blob
  pending : Dir
  gaps : Dir
  receipts : Dir
  quarantine : List Blob
  tmp : List Blob

namespace Disk

/-- A directory no spool has used. -/
def fresh : Disk :=
  { format := none, sequence := none, pending := ∅, gaps := ∅, receipts := ∅, quarantine := [],
    tmp := [] }

end Disk

/-- The files the program addresses by name. -/
inductive Path where
  | sequence
  | pending (name : Str)
  | gap (name : Str)
  | receipt (name : Str)
deriving DecidableEq

namespace Disk

def read (disk : Disk) : Path → Option Blob
  | .sequence => disk.sequence
  | .pending name => disk.pending.lookup name
  | .gap name => disk.gaps.lookup name
  | .receipt name => disk.receipts.lookup name

/-- A file renamed into place; it replaces a file of the same name. -/
def put (disk : Disk) (body : Blob) : Path → Disk
  | .sequence => { disk with sequence := some body }
  | .pending name => { disk with pending := disk.pending.insert name body }
  | .gap name => { disk with gaps := disk.gaps.insert name body }
  | .receipt name => { disk with receipts := disk.receipts.insert name body }

def remove (disk : Disk) : Path → Disk
  | .sequence => { disk with sequence := none }
  | .pending name => { disk with pending := disk.pending.erase name }
  | .gap name => { disk with gaps := disk.gaps.erase name }
  | .receipt name => { disk with receipts := disk.receipts.erase name }

/-- Placing a file changes what is read there and nowhere else. -/
theorem read_put (disk : Disk) (body : Blob) (path other : Path) :
    (disk.put body path).read other = if other = path then some body else disk.read other := by
  cases path with
  | sequence => cases other <;> simp [put, read]
  | pending name | gap name | receipt name =>
      cases other <;> simp only [put, read, Path.pending.injEq, Path.gap.injEq, Path.receipt.injEq,
        reduceCtorEq, if_false]
      split
      · subst name
        exact AList.lookup_insert _
      · exact AList.lookup_insert_ne ‹_›

/-- Removing a file changes what is read there and nowhere else. -/
theorem read_remove (disk : Disk) (path other : Path) :
    (disk.remove path).read other = if other = path then none else disk.read other := by
  cases path with
  | sequence => cases other <;> simp [remove, read]
  | pending name | gap name | receipt name =>
      cases other <;> simp only [remove, read, Path.pending.injEq, Path.gap.injEq,
        Path.receipt.injEq, reduceCtorEq, if_false]
      split
      · subst name
        exact AList.lookup_erase _ _
      · exact AList.lookup_erase_ne ‹_›

/-- Removing a file brings no other file about. -/
theorem read_of_read_remove (disk : Disk) (path : Path) {other : Path} {body : Blob}
    (found : (disk.remove path).read other = some body) : disk.read other = some body := by
  rw [read_remove] at found
  split at found
  · cases found
  · exact found

end Disk

/-! ### File names -/

def pendingSuffix : Str := ".tles".toList

def receiptSuffix : Str := ".tlea".toList

def gapSuffix : Str := ".tleg".toList

def pendingFileName (spoolSeq : Nat) (recordId : RecordId) : Str :=
  "v2-".toList ++ pad20 spoolSeq ++ '-' :: recordId.text ++ pendingSuffix

def gapFileName (spoolSeq : Nat) (noticeId : RecordId) : Str :=
  pad20 spoolSeq ++ '-' :: noticeId.text ++ gapSuffix

def receiptFileName (sequence : Nat) (batchId : Str) : Str :=
  pad20 sequence ++ '-' :: batchId ++ receiptSuffix

/-- `str::strip_prefix`. -/
def dropPrefix (front s : Str) : Option Str :=
  if front.isPrefixOf s then some (s.drop front.length) else none

/-- `str::strip_suffix`. -/
def dropSuffix (back s : Str) : Option Str :=
  if back.isSuffixOf s then some (s.take (s.length - back.length)) else none

/-- `str::split_once`: the parts before and after the first separator. -/
def splitOnce (separator : Char) (s : Str) : Option (Str × Str) :=
  match s.dropWhile (· ≠ separator) with
  | [] => none
  | _ :: rest => some (s.takeWhile (· ≠ separator), rest)

def parseV2PendingFileName (fileName : Str) : Option (Nat × RecordId) := do
  let tail ← dropPrefix "v2-".toList fileName
  let body ← dropSuffix pendingSuffix tail
  let (sequence, recordId) ← splitOnce '-' body
  if sequence.length ≠ 20 then none
  else do
    let spoolSeq ← parseU64 sequence
    if spoolSeq = 0 then none
    else do
      let recordId ← RecordId.parse recordId
      pure (spoolSeq, recordId)

/-- A prefix is dropped from the texts that begin with it. -/
theorem dropPrefix_eq_some {front s t : Str} : dropPrefix front s = some t ↔ s = front ++ t := by
  rw [dropPrefix]
  split
  · rename_i starts
    obtain ⟨rest, rfl⟩ := List.isPrefixOf_iff_prefix.mp starts
    rw [List.drop_left, Option.some.injEq, List.append_cancel_left_eq]
  · rename_i starts
    refine ⟨(by simp), fun split => absurd ?_ starts⟩
    rw [List.isPrefixOf_iff_prefix, split]
    exact List.prefix_append _ _

/-- A suffix is dropped from the texts that end with it. -/
theorem dropSuffix_eq_some {back s t : Str} : dropSuffix back s = some t ↔ s = t ++ back := by
  rw [dropSuffix]
  split
  · rename_i ends
    obtain ⟨rest, rfl⟩ := List.isSuffixOf_iff_suffix.mp ends
    rw [List.length_append, Nat.add_sub_cancel, List.take_left, Option.some.injEq,
      List.append_cancel_right_eq]
  · rename_i ends
    refine ⟨(by simp), fun split => absurd ?_ ends⟩
    rw [List.isSuffixOf_iff_suffix, split]
    exact List.suffix_append _ _

/-- A text is split where the separator first stands. -/
theorem splitOnce_eq_some {separator : Char} {s left right : Str} :
    splitOnce separator s = some (left, right) ↔
      s = left ++ separator :: right ∧ separator ∉ left := by
  have whole := List.takeWhile_append_dropWhile (p := fun c => decide (c ≠ separator)) (l := s)
  constructor
  · intro found
    rw [splitOnce] at found
    split at found
    · cases found
    · rename_i c rest remains
      simp only [Option.some.injEq, Prod.mk.injEq] at found
      obtain ⟨rfl, rfl⟩ := found
      have here : c = separator := by
        have stop := List.head?_dropWhile_not (fun c => decide (c ≠ separator)) s
        rw [remains] at stop
        simpa using stop
      subst here
      refine ⟨?_, fun inside => ?_⟩
      · rw [← remains, whole]
      · have := List.mem_takeWhile_imp inside
        simp at this
  · rintro ⟨rfl, absent⟩
    have passes : ∀ c ∈ left, decide (c ≠ separator) = true := by
      intro c inside
      rw [decide_eq_true_iff]
      rintro rfl
      exact absent inside
    rw [splitOnce, List.takeWhile_append_of_pos passes, List.dropWhile_append_of_pos passes]
    simp

/-- The names the parser accepts. -/
theorem parseV2PendingFileName_eq_some {fileName : Str} {spoolSeq : Nat} {recordId : RecordId} :
    parseV2PendingFileName fileName = some (spoolSeq, recordId) ↔
      ∃ sequence, fileName = "v2-".toList ++ sequence ++ '-' :: recordId.text ++ pendingSuffix ∧
        '-' ∉ sequence ∧ sequence.length = 20 ∧ parseU64 sequence = some spoolSeq ∧
        spoolSeq ≠ 0 := by
  constructor
  · intro parsed
    simp only [parseV2PendingFileName, Option.bind_eq_bind, Option.bind_eq_some_iff] at parsed
    obtain ⟨tail, front, body, back, ⟨sequence, text⟩, split, parsed⟩ := parsed
    rw [dropPrefix_eq_some] at front
    rw [dropSuffix_eq_some] at back
    rw [splitOnce_eq_some] at split
    split at parsed
    · cases parsed
    · rename_i length
      obtain ⟨value, number, parsed⟩ := Option.bind_eq_some_iff.mp parsed
      split at parsed
      · cases parsed
      · rename_i nonzero
        obtain ⟨parsedId, named, parsed⟩ := Option.bind_eq_some_iff.mp parsed
        cases parsed
        refine ⟨sequence, ?_, split.2, not_not.mp length, number, nonzero⟩
        rw [RecordId.parse] at named
        split at named
        · cases named
          rw [front, back, split.1]
          simp only [List.append_assoc]
        · cases named
  · rintro ⟨sequence, rfl, noDash, length, number, nonzero⟩
    have front : dropPrefix "v2-".toList
        ("v2-".toList ++ sequence ++ '-' :: recordId.text ++ pendingSuffix) =
        some (sequence ++ '-' :: recordId.text ++ pendingSuffix) := by
      rw [dropPrefix_eq_some]
      simp only [List.append_assoc]
    have back := dropSuffix_eq_some.mpr (Eq.refl (sequence ++ '-' :: recordId.text ++ pendingSuffix))
    have parts := splitOnce_eq_some.mpr ⟨Eq.refl (sequence ++ '-' :: recordId.text), noDash⟩
    simp only [parseV2PendingFileName, front, back, parts, number, RecordId.parse_text,
      Option.bind_eq_bind, Option.bind_some, length, not_true, ne_eq, if_false, if_neg nonzero,
      Option.pure_def]

/-- The parser reads back every name the writer builds. -/
theorem parseV2PendingFileName_pendingFileName {spoolSeq : Nat} (positive : 1 ≤ spoolSeq)
    (bounded : spoolSeq ≤ u64Max) (recordId : RecordId) :
    parseV2PendingFileName (pendingFileName spoolSeq recordId) = some (spoolSeq, recordId) := by
  have noDash : '-' ∉ pad20 spoolSeq :=
    fun inside => absurd (isDigit_of_mem_pad20 inside) (by decide)
  rw [parseV2PendingFileName_eq_some]
  exact ⟨pad20 spoolSeq, rfl, noDash, pad20_length bounded, parseU64_pad20 bounded, by omega⟩

/-- The name of a pending file tells its sequence and its identity. -/
theorem pendingFileName_injective {s t : Nat} {i j : RecordId} (positive : 1 ≤ s)
    (bounded : s ≤ u64Max) (positive' : 1 ≤ t) (bounded' : t ≤ u64Max)
    (same : pendingFileName s i = pendingFileName t j) : s = t ∧ i = j := by
  have left := parseV2PendingFileName_pendingFileName positive bounded i
  rw [same, parseV2PendingFileName_pendingFileName positive' bounded' j] at left
  simp only [Option.some.injEq, Prod.mk.injEq] at left
  exact ⟨left.1.symm, left.2.symm⟩

/-- The name of a pending file ends in the identity of its record. -/
theorem pendingFileName_recordId {s t : Nat} {i j : RecordId}
    (same : pendingFileName s i = pendingFileName t j) : i = j := by
  have tails := List.append_inj_left' same rfl
  have ids := (List.append_inj' tails (by simp only [List.length_cons, RecordId.length_text])).2
  exact RecordId.text_injective (List.cons.inj ids).2

/-- The name of a gap file tells its sequence and its identity. -/
theorem gapFileName_injective {s t : Nat} {i j : RecordId} (bounded : s ≤ u64Max)
    (bounded' : t ≤ u64Max) (same : gapFileName s i = gapFileName t j) : s = t ∧ i = j := by
  rw [gapFileName, gapFileName, List.append_assoc, List.append_assoc] at same
  have length : (pad20 s).length = (pad20 t).length := by
    rw [pad20_length bounded, pad20_length bounded']
  obtain ⟨sequence, tail⟩ := List.append_inj same length
  have ids := List.append_inj_left' (List.cons.inj tail).2 rfl
  exact ⟨pad20_injective sequence, RecordId.text_injective ids⟩

/-- The name of a receipt file tells its sequence and its batch. -/
theorem receiptFileName_injective {s t : Nat} {a b : Str} (bounded : s ≤ u64Max)
    (bounded' : t ≤ u64Max) (same : receiptFileName s a = receiptFileName t b) :
    s = t ∧ a = b := by
  rw [receiptFileName, receiptFileName, List.append_assoc, List.append_assoc] at same
  have length : (pad20 s).length = (pad20 t).length := by
    rw [pad20_length bounded, pad20_length bounded']
  obtain ⟨sequence, tail⟩ := List.append_inj same length
  have ids := List.append_inj_left' (List.cons.inj tail).2 rfl
  exact ⟨pad20_injective sequence, ids⟩

end TeslatlasEdge
