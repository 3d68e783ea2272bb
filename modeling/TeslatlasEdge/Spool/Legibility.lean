/-
Module: TeslatlasEdge.Spool.Legibility
Purpose: The file of an admitted record reads back to the record, both in a running spool and in
  `recover`, unless a number was not read back as it was printed, the payload was nested too deep or
  the file has been damaged.
Trusted boundary: none
Main exports: StoredRecord.Parses, Lawful.readsBack, Lawful.decodes, Lawful.decoded, Lawful.decodePending_ne_none
-/
import TeslatlasEdge.Spool.Custody

namespace TeslatlasEdge

open Lib

/-- A printed envelope reads back to itself when its numbers do. -/
theorem envelope_readsBack {codec : FloatCodec} {envelope : Envelope}
    (exact_ : ∀ x ∈ envelope.payload.floats, codec.parse (codec.print x) = x) :
    (envelope.map codec.print).map codec.parse = envelope := by
  have payload : (envelope.payload.map codec.print).map codec.parse = envelope.payload :=
    (Json.reparse_eq_self_iff codec envelope.payload).mpr exact_
  simp only [ReceiverEnvelope.map, payload]

section

variable {inner : Inner} {offered : Nat → Envelope → Prop} {d : Disk} {older : List Disk}

/-- What is written for the record is read as a record again. -/
structure StoredRecord.Parses (host : Host) (record : StoredRecord Str) : Prop where
  shallow : record.toJson.depth < Json.recursionLimit
  valid : validStoredRecord host (record.map host.codec.parse) = true

/-- A file with what was written for a record that parses reads back as the file of its entry. -/
theorem StoredRecord.Parses.decodeEntry {record : StoredRecord Str} (parses : record.Parses inner.host)
    (legible : record.Legible inner.key) {entry : Entry} (legacy : record.recordId = entry.recordId)
    (stable : record.stableRecordId = some entry.stableRecordId)
    (sequence : record.spoolSeq = some entry.spoolSeq) :
    decodeEntry inner entry (some (inner.key.encrypt (.record record))) =
      .ok (record.map inner.host.codec.parse) :=
  decodeEntry_some_eq_ok_iff.mpr ⟨legible.small, ⟨_, inner.key.decrypt_encrypt _ _,
    Plain.toStoredRecord_eq_some.mpr ⟨record, rfl, parses.shallow, rfl⟩⟩, parses.valid, legacy, stable,
    sequence⟩

theorem pendingFileName_extension (s : Nat) (recordId : RecordId) :
    hasExtension pendingSuffix (pendingFileName s recordId) = true := by
  rw [hasExtension, Bool.and_eq_true, List.isSuffixOf_iff_suffix, decide_eq_true_eq]
  refine ⟨⟨"v2-".toList ++ pad20 s ++ '-' :: recordId.text, rfl⟩, ?_⟩
  simp only [pendingFileName, List.length_append, List.length_cons]
  omega

theorem pendingFileName_suffix (s : Nat) (recordId : RecordId) :
    ('-' :: recordId.text ++ pendingSuffix).isSuffixOf (pendingFileName s recordId) = true := by
  rw [List.isSuffixOf_iff_suffix]
  refine ⟨"v2-".toList ++ pad20 s, ?_⟩
  simp only [pendingFileName, List.append_assoc, List.cons_append]

/-- `recover` finds nothing wrong with such a file under its own name. -/
theorem StoredRecord.Parses.decodePending {record : StoredRecord Str}
    (parses : record.Parses inner.host) (legible : record.Legible inner.key) (s : Nat) :
    decodePending inner ⟨pendingFileName s record.recordId, inner.key.encrypt (.record record)⟩ ≠
      .ok none := by
  have small := legible.small
  have suffix : ('-' :: (record.map inner.host.codec.parse).recordId.text ++
      pendingSuffix).isSuffixOf (pendingFileName s record.recordId) = true := pendingFileName_suffix _ _
  unfold TeslatlasEdge.decodePending
  rw [if_neg (by simp only [pendingFileName_extension, not_true_eq_false, false_or]; omega),
    inner.key.decrypt_encrypt]
  simp only [Plain.toStoredRecord, parses.shallow, if_true, parses.valid, suffix, not_true_eq_false,
    or_self, if_false]
  simp

/-- An admitted record, read back from its file. -/
structure ReadsBack (host : Host) (offered : Nat → Envelope → Prop) (s : Nat)
    (record : StoredRecord Str) (envelope : Envelope) : Prop where
  offer : offered s envelope
  content : (record.map host.codec.parse).envelope = envelope
  recordId : record.recordId = envelope.recordId host
  stableRecordId : record.stableRecordId = some (envelope.stableRecordId host)
  spoolSeq : record.spoolSeq = some s
  parses : record.Parses host

/-- Where payloads survive printing and parsing, what was admitted reads back. -/
theorem Lawful.readsBack {key : EncryptionKey} {host : Host}
    (law : Lawful key host offered d older) (exact_ : ExactPayloads host offered) {s : Nat}
    {record : StoredRecord Str} (admitted : Admitted key (d :: older) s record) :
    ∃ envelope, ReadsBack host offered s record envelope := by
  obtain ⟨positive, -, inner, envelope, admittedAtMs, rfl, offer, valid, rfl⟩ :=
    law.origin s record admitted
  have lasting := (law.legible s _ admitted).lasting
  have same := envelope_readsBack (exact_ s envelope offer).numbers
  have shallow : ((storedRecord inner envelope admittedAtMs s).map
      inner.host.codec.print).toJson.depth < Json.recursionLimit := by
    rw [StoredRecord.depth_toJson]
    change (envelope.payload.map _).depth + 2 < _
    rw [Json.depth_map]
    exact (exact_ s envelope offer).shallow
  refine ⟨envelope, offer, same, rfl, rfl, rfl, shallow, ?_⟩
  have parsed : ((storedRecord inner envelope admittedAtMs s).map inner.host.codec.print).map
      inner.host.codec.parse = storedRecord inner envelope admittedAtMs s := by
    simp only [StoredRecord.map, storedRecord, same]
  rw [parsed]
  have ordered : ¬ (storedRecord inner envelope admittedAtMs s).expiresAtMs.val <
      (storedRecord inner envelope admittedAtMs s).admittedAtMs.val := not_lt.mpr lasting
  simp only [storedRecord] at ordered
  simp only [validStoredRecord, storedRecord, valid, Except.toOption, reduceCtorEq, ne_eq,
    not_true_eq_false, ordered, or_self, if_false, if_true, Option.any_some, decide_true,
    Bool.true_and, Nat.reduceEqDiff, decide_eq_true_eq]
  exact positive

/-- An undamaged file of a held admission reads back. -/
theorem Lawful.decodes (law : Lawful inner.key inner.host offered d older)
    (blameless : Blameless inner.key inner.host offered (d :: older)) {entry : Entry}
    {record : StoredRecord Str} {body : Blob}
    (admitted : Admitted inner.key (d :: older) entry.spoolSeq record)
    (legacy : record.recordId = entry.recordId)
    (stable : record.stableRecordId = some entry.stableRecordId)
    (stands : d.read (.pending (pendingFileName entry.spoolSeq entry.recordId)) = some body) :
    decodeEntry inner entry (some body) = .ok (record.map inner.host.codec.parse) := by
  obtain ⟨s, other, admitted', named, content⟩ := law.pending _ _ stands
  have range := law.origin _ _ admitted
  have range' := law.origin _ _ admitted'
  obtain ⟨rfl, -⟩ := pendingFileName_injective range.1 range.2.1.le range'.1 range'.2.1.le named
  obtain rfl := law.once _ _ _ admitted admitted'
  obtain ⟨envelope, reads⟩ := law.readsBack blameless.exact_ admitted
  have content := content.resolve_right (blameless.unharmed d List.mem_cons_self _ _ stands)
  rw [content]
  exact reads.parses.decodeEntry (law.legible _ _ admitted) legacy stable reads.spoolSeq

/-- Whatever the file of an admission reads back to is the admitted record. -/
theorem Lawful.decoded (law : Lawful inner.key inner.host offered d older) {entry : Entry}
    {record : StoredRecord Str} {stored : StoredRecord F64}
    (admitted : Admitted inner.key (d :: older) entry.spoolSeq record)
    (read : decodeEntry inner entry
      (d.read (.pending (pendingFileName entry.spoolSeq entry.recordId))) = .ok stored) :
    stored = record.map inner.host.codec.parse := by
  obtain ⟨body, found, intact⟩ := decodeEntry_eq_ok read
  obtain ⟨plaintext, opened, parsed⟩ := intact.opens
  obtain ⟨s, other, admitted', named, content⟩ := law.pending _ _ found
  have range := law.origin _ _ admitted
  have range' := law.origin _ _ admitted'
  obtain ⟨rfl, -⟩ := pendingFileName_injective range.1 range.2.1.le range'.1 range'.2.1.le named
  obtain rfl := law.once _ _ _ admitted admitted'
  rcases content with content | unreadable
  · have plain := decrypt_eq_ok opened
    rw [content] at plain
    simp only [EncryptionKey.encrypt, Blob.encrypted.injEq, true_and] at plain
    rw [← plain] at parsed
    obtain ⟨sealed, same, -, rfl⟩ := Plain.toStoredRecord_eq_some.mp parsed
    rw [Plain.record.inj same]
  · exact absurd opened (unreadable plaintext)

/-- `recover` finds nothing wrong with an undamaged file. -/
theorem Lawful.decodePending_ne_none (law : Lawful inner.key inner.host offered d older)
    (blameless : Blameless inner.key inner.host offered (d :: older)) {file : NamedBlob}
    (stands : d.read (.pending file.1) = some file.2) :
    decodePending inner file ≠ .ok none := by
  obtain ⟨s, record, admitted, named, content⟩ := law.pending _ _ stands
  obtain ⟨envelope, reads⟩ := law.readsBack blameless.exact_ admitted
  have content := content.resolve_right (blameless.unharmed d List.mem_cons_self _ _ stands)
  obtain ⟨name, body⟩ := file
  simp only at named content
  rw [named, content]
  exact reads.parses.decodePending (law.legible _ _ admitted) s

end

end TeslatlasEdge
