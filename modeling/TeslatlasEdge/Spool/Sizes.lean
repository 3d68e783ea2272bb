/-
Module: TeslatlasEdge.Spool.Sizes
Purpose: How long the JSON texts of delivered items get: a gap notice is shorter than any record, and
  a record read back from a file of bounded size has a bounded text.
Trusted boundary: none
Main exports: ShortFloats, Json.size_map_le, GapNoticeV2.WellFormed, encodedSize_gap_le,
  le_encodedSize_recordV2, Intact.encodedSize_recordV2_le, Intact.encodedSize_recordV1_le
-/
import TeslatlasEdge.Spool.Batches

namespace TeslatlasEdge

open Lib

namespace Json

/-! ### Texts with other literals -/

mutual

/-- Exchanging literals for short ones lengthens a text by a bounded factor. -/
theorem size_map_le {g : Str → Str} (short : ∀ literal, (g literal).length ≤ 24) :
    ∀ text : JsonText, (map g text).size ≤ 25 * text.size + 24
  | .null => by simp only [map, size]; omega
  | .bool true => by simp only [map, size]; omega
  | .bool false => by simp only [map, size]; omega
  | .int n => by simp only [map, size]; omega
  | .str s => by simp only [map, size]; omega
  | .float literal => by
      have bound := short literal
      simp only [map, size]
      omega
  | .arr items => by
      have bound := itemsSize_mapItems_le short items
      simp only [map, size]
      omega
  | .obj fields => by
      have bound := fieldsSize_mapFields_le short fields
      simp only [map, size]
      omega

/-- Printing the numbers of items anew makes them longer by a factor of 25 at most. -/
theorem itemsSize_mapItems_le {g : Str → Str} (short : ∀ literal, (g literal).length ≤ 24) :
    ∀ items : List JsonText, itemsSize (mapItems g items) ≤ 25 * itemsSize items + 24
  | [] => by simp only [mapItems, itemsSize]; omega
  | [item] => by
      have bound := size_map_le short item
      simp only [mapItems, itemsSize]
      exact bound
  | item :: other :: items => by
      have bound := size_map_le short item
      have rest := itemsSize_mapItems_le short (other :: items)
      simp only [mapItems, itemsSize] at rest ⊢
      omega

theorem fieldsSize_mapFields_le {g : Str → Str} (short : ∀ literal, (g literal).length ≤ 24) :
    ∀ fields : List (Str × JsonText), fieldsSize (mapFields g fields) ≤ 25 * fieldsSize fields + 24
  | [] => by simp only [mapFields, fieldsSize]; omega
  | [(key, value)] => by
      have bound := size_map_le short value
      simp only [mapFields, fieldsSize]
      omega
  | (key, value) :: other :: fields => by
      obtain ⟨otherKey, otherValue⟩ := other
      have bound := size_map_le short value
      have rest := fieldsSize_mapFields_le short ((otherKey, otherValue) :: fields)
      simp only [mapFields, fieldsSize] at rest ⊢
      omega

end

/-- A member is shorter than its object. -/
theorem size_le_fieldsSize {key : Str} {value : JsonText} :
    ∀ {fields : List (Str × JsonText)}, (key, value) ∈ fields → value.size ≤ fieldsSize fields
  | [(k, v)], inside => by
      obtain ⟨rfl, rfl⟩ := Prod.mk.inj (List.mem_singleton.mp inside)
      simp only [fieldsSize]
      omega
  | (k, v) :: other :: fields, inside => by
      simp only [fieldsSize]
      rcases List.mem_cons.mp inside with here | later
      · obtain ⟨rfl, rfl⟩ := Prod.mk.inj here
        omega
      · have bound := size_le_fieldsSize later
        omega

end Json

/-! ### Items -/

/-- The float printer of `serde_json` writes at most twenty-four characters. -/
def ShortFloats (codec : FloatCodec) : Prop := ∀ x, (codec.print x).length ≤ 24

/-- A notice with a sequence in range and a digest as its evidence. -/
structure GapNoticeV2.WellFormed (notice : GapNoticeV2) : Prop where
  spoolSeq : notice.spoolSeq ≤ u64Max
  evidence : validDigest notice.evidenceSha256 = true

/-- A notice made for an identity is well formed. -/
theorem gapNoticeForIdentity_wellFormed {host : Host} {spoolSeq : Nat} (bounded : spoolSeq ≤ u64Max)
    (identity : RecordId) (occurredAtMs : I64) (reason : GapReasonV2) :
    (gapNoticeForIdentity host spoolSeq identity occurredAtMs reason).WellFormed :=
  ⟨bounded, validDigest_hexEncode (host.sha256 _).property⟩

/-- The text of a notice has at most two hundred and sixty-eight characters. -/
theorem encodedSize_gap_le (host : Host) {notice : GapNoticeV2} (formed : notice.WellFormed) :
    encodedSize host (notice.toJson : Value) ≤ 268 := by
  have sequence := intSize_nat_le formed.spoolSeq
  have time := intSize_i64_le notice.occurredAtMs
  have reason : Json.strSize notice.reason.label ≤ 22 := by
    cases notice.reason <;> decide
  have keys : Json.strSize "notice_id".toList = 11 ∧ Json.strSize "spool_seq".toList = 11 ∧
      Json.strSize "occurred_at_ms".toList = 16 ∧ Json.strSize "reason".toList = 8 ∧
      Json.strSize "evidence_sha256".toList = 17 := by decide
  simp only [encodedSize, GapNoticeV2.toJson, RecordId.toJson, Json.print, Json.map,
    Json.mapFields, Json.size, Json.fieldsSize, strSize_digest notice.noticeId.valid,
    strSize_digest formed.evidence]
  omega

theorem ReceiverEnvelope.toJson_map {φ ψ : Type} (f : φ → ψ) (envelope : ReceiverEnvelope φ) :
    (envelope.map f).toJson = envelope.toJson.map f := by
  obtain ⟨version, vin, txid, txType, received, timestamp, payload, device, firmware⟩ := envelope
  cases device <;> cases firmware <;> rfl

/-- An envelope is no longer than the record that stores it. -/
theorem StoredRecord.envelope_size_le (stored : StoredRecord Str) :
    stored.envelope.toJson.size ≤ stored.toJson.size := by
  rw [StoredRecord.toJson, Json.size]
  refine le_trans (@Json.size_le_fieldsSize "envelope".toList _ _ ?_) (Nat.le_add_left _ _)
  simp

/-- The field names alone take ninety characters. -/
theorem le_size_envelope (envelope : ReceiverEnvelope Str) : 90 ≤ envelope.toJson.size := by
  have keys : Json.strSize "version".toList = 9 ∧ Json.strSize "vin".toList = 5 ∧
      Json.strSize "txid".toList = 6 ∧ Json.strSize "tx_type".toList = 9 ∧
      Json.strSize "received_at_ms".toList = 16 ∧ Json.strSize "timestamp_ms".toList = 14 ∧
      Json.strSize "payload".toList = 9 := by decide
  have quotes : ∀ text, 2 ≤ Json.strSize text := fun text => Nat.le_add_right _ _
  have vin := quotes envelope.vin
  have txid := quotes envelope.txid
  have txType := quotes envelope.txType
  have version := intSize_pos envelope.version
  have received := intSize_pos envelope.receivedAtMs.val
  have timestamp := intSize_pos envelope.timestampMs.val
  cases device : envelope.deviceClientVersion <;> cases firmware : envelope.firmwareVersion <;>
    simp only [ReceiverEnvelope.toJson, device, firmware, optionalMember, List.append_nil,
      List.cons_append, List.nil_append, Json.size, Json.fieldsSize] <;> omega

/-- The text of a v2 record: its fixed part, its numbers and its envelope. -/
theorem encodedSize_recordV2 (host : Host) (record : HubBatchRecordV2) :
    encodedSize host record.toJson = 209 + Json.intSize record.spoolSeq +
      Json.intSize record.receivedAtMs.val + (record.envelope.map host.codec.print).toJson.size := by
  have keys : Json.strSize "record_id".toList = 11 ∧ Json.strSize "legacy_record_id".toList = 18 ∧
      Json.strSize "spool_seq".toList = 11 ∧ Json.strSize "received_at_ms".toList = 16 ∧
      Json.strSize "envelope".toList = 10 := by decide
  simp only [encodedSize, HubBatchRecordV2.toJson, RecordId.toJson, Json.print, Json.map,
    Json.mapFields, Json.size, Json.fieldsSize, strSize_digest record.recordId.valid,
    strSize_digest record.legacyRecordId.valid, ReceiverEnvelope.toJson_map]
  omega

/-- The size of a delivered record is that of its envelope and a few constants. -/
theorem encodedSize_recordV1 (host : Host) (record : HubBatchRecordV1) :
    encodedSize host record.toJson = 110 + Json.intSize record.receivedAtMs.val +
      (record.envelope.map host.codec.print).toJson.size := by
  have keys : Json.strSize "record_id".toList = 11 ∧
      Json.strSize "received_at_ms".toList = 16 ∧ Json.strSize "envelope".toList = 10 := by decide
  simp only [encodedSize, HubBatchRecordV1.toJson, RecordId.toJson, Json.print, Json.map,
    Json.mapFields, Json.size, Json.fieldsSize, strSize_digest record.recordId.valid,
    ReceiverEnvelope.toJson_map]
  omega

/-- A gap notice is shorter than any v2 record. -/
theorem encodedSize_gap_le_recordV2 (host : Host) {notice : GapNoticeV2}
    (formed : notice.WellFormed) (record : HubBatchRecordV2) :
    encodedSize host (notice.toJson : Value) ≤ encodedSize host record.toJson := by
  have gap := encodedSize_gap_le host formed
  have envelope := le_size_envelope (record.envelope.map host.codec.print)
  have sequence := intSize_pos record.spoolSeq
  have time := intSize_pos record.receivedAtMs.val
  rw [encodedSize_recordV2]
  omega

/-! ### Records read back -/

section

variable {inner : Inner} {entry : Entry} {body : Blob} {stored : StoredRecord F64}

/-- The envelope of a file of bounded size has a bounded text. -/
theorem Intact.envelope_size_le (intact : Intact inner entry body stored)
    (short : ShortFloats inner.host.codec) :
    (stored.envelope.map inner.host.codec.print).toJson.size ≤ 2 ^ 24 := by
  obtain ⟨small, ⟨plaintext, opens, parsed⟩, -⟩ := intact
  obtain rfl := decrypt_eq_ok opens
  obtain ⟨text, rfl, -, rfl⟩ := Plain.toStoredRecord_eq_some.mp parsed
  have whole := text.envelope_size_le
  have bound := Json.size_map_le (g := inner.host.codec.print ∘ inner.host.codec.parse)
    (fun literal => short _) text.envelope.toJson
  have exchange : ((text.map inner.host.codec.parse).envelope.map
      inner.host.codec.print).toJson =
      text.envelope.toJson.map (inner.host.codec.print ∘ inner.host.codec.parse) := by
    rw [ReceiverEnvelope.toJson_map]
    change (text.envelope.map _).toJson.map _ = _
    rw [ReceiverEnvelope.toJson_map, Json.map_map]
  rw [exchange]
  simp only [EncryptionKey.encrypt, Blob.length, Plain.size, Plain.text, headerBytes,
    maxEncryptedRecordBytes] at small
  omega

/-- What a file gives under the first protocol is bounded by the file's size. -/
theorem Intact.encodedSize_recordV1_le (intact : Intact inner entry body stored)
    (short : ShortFloats inner.host.codec) :
    encodedSize inner.host (HubBatchRecordV1.toJson
      { recordId := stored.recordId
        receivedAtMs := stored.admittedAtMs
        envelope := stored.envelope }) ≤ 2 ^ 25 := by
  have envelope := intact.envelope_size_le short
  have time := intSize_i64_le stored.admittedAtMs
  rw [encodedSize_recordV1]
  simp only
  omega

/-- So is what it gives under the second. -/
theorem Intact.encodedSize_recordV2_le (intact : Intact inner entry body stored)
    (short : ShortFloats inner.host.codec) (bounded : entry.spoolSeq ≤ u64Max) :
    encodedSize inner.host (HubBatchRecordV2.toJson
      { recordId := entry.stableRecordId
        legacyRecordId := entry.recordId
        spoolSeq := entry.spoolSeq
        receivedAtMs := stored.admittedAtMs
        envelope := stored.envelope }) ≤ 2 ^ 25 := by
  have envelope := intact.envelope_size_le short
  have time := intSize_i64_le stored.admittedAtMs
  have sequence := intSize_nat_le bounded
  rw [encodedSize_recordV2]
  simp only
  omega

end

end TeslatlasEdge
