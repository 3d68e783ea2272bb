/-
Module: TeslatlasEdge.Protocol
Purpose: The receiver envelope and the Hub delivery messages of `protocol.rs`: their fields, JSON
  shape, validation, identities and strict parsing.
Trusted boundary: human-reviewed embedding; SHA-256, JCS and the float codec are parameters
Main exports: Host, RecordId, ReceiverEnvelope, ReceiverEnvelope.parseAt, GapNoticeV2, HubBatchV1,
  HubBatchV2, HubAckV1, HubAckV2
-/
import TeslatlasEdge.Json

namespace TeslatlasEdge

/-- The third-party functions the program calls. -/
structure Host where
  /-- `Sha256::digest`. -/
  sha256 : Bytes → { digest : Bytes // digest.length = 32 }
  /-- `serde_jcs::to_vec`. -/
  jcs : Value → Bytes
  /-- Printing and parsing of non-integer numbers in `serde_json`. -/
  codec : FloatCodec

inductive ProtocolError where
  | inputTooLarge
  | duplicateJsonKey
  | invalidJson
  | unsupportedVersion
  | invalidVin
  | invalidTransactionId
  | invalidTransactionType
  | invalidTimestamp
  | invalidPayload
  | invalidVersionLabel
  | invalidAcknowledgement
deriving Repr, DecidableEq

def maxReceiverBodyBytes : Nat := 256 * 1024

def maxHubAckBodyBytes : Nat := 128 * 1024

def minTimestampMs : Int := 946684800000

def maxEventClockLeadMs : I64 := ⟨5 * 60 * 1000, by omega⟩

def maxReceiverClockLeadMs : I64 := ⟨5 * 60 * 1000, by omega⟩

/-! ### Record identities -/

/-- `RecordId`: sixty-four lowercase hexadecimal digits. -/
structure RecordId where
  text : Str
  valid : validDigest text = true
deriving DecidableEq

namespace RecordId

/-- Different identities have different texts. -/
theorem text_injective : Function.Injective RecordId.text := by
  rintro ⟨left, _⟩ ⟨right, _⟩ same
  cases same
  rfl

/-- Identities compare as the strings they are. -/
instance : LinearOrder RecordId := LinearOrder.lift' RecordId.text text_injective

def parse (value : Str) : Option RecordId :=
  if valid : validDigest value = true then some ⟨value, valid⟩ else none

def fromSha256 (digest : { digest : Bytes // digest.length = 32 }) : RecordId :=
  ⟨hexEncode digest.val, validDigest_hexEncode digest.property⟩

/-- An identity is read back from its text. -/
theorem parse_text (id : RecordId) : parse id.text = some id := by
  rw [parse, dif_pos id.valid]

/-- The text of an identity is sixty-four characters long. -/
theorem length_text (id : RecordId) : id.text.length = 64 := by
  have valid := id.valid
  simp only [validDigest, Bool.and_eq_true, beq_iff_eq] at valid
  exact valid.1

end RecordId

/-- A domain separator: the bytes of a label and one zero byte. -/
def domain (label : String) : Bytes := Str.bytes label.toList ++ [0]

/-! ### Receiver envelopes -/

structure ReceiverEnvelope (φ : Type) where
  version : Nat
  vin : Str
  txid : Str
  txType : Str
  receivedAtMs : I64
  timestampMs : I64
  payload : Json φ
  deviceClientVersion : Option Str
  firmwareVersion : Option Str

/-- An envelope as the program holds it. -/
abbrev Envelope := ReceiverEnvelope F64

/-- A member that is left out when it is `None`. -/
def optionalMember {φ : Type} (name : String) : Option Str → List (Str × Json φ)
  | none => []
  | some label => [(name.toList, .str label)]

/-- `valid_vin`.  A byte test on a string holds exactly when every character is in the ASCII
range tested, so characters and bytes count the same. -/
def validVin (vin : Str) : Bool :=
  vin.length == 17 &&
    vin.all fun c => c.isDigit || (c.isUpper && c != 'I' && c != 'O' && c != 'Q')

def boundedVisibleAscii (value : Str) (minimum maximum : Nat) : Bool :=
  decide (minimum ≤ value.length ∧ value.length ≤ maximum) &&
    value.all fun c => decide (0x21 ≤ c.toNat ∧ c.toNat ≤ 0x7e)

namespace ReceiverEnvelope

variable {φ ψ : Type}

def map (f : φ → ψ) (envelope : ReceiverEnvelope φ) : ReceiverEnvelope ψ :=
  { envelope with payload := envelope.payload.map f }

def toJson (envelope : ReceiverEnvelope φ) : Json φ :=
  .obj <|
    [("version".toList, .int envelope.version),
      ("vin".toList, .str envelope.vin),
      ("txid".toList, .str envelope.txid),
      ("tx_type".toList, .str envelope.txType),
      ("received_at_ms".toList, .int envelope.receivedAtMs.val),
      ("timestamp_ms".toList, .int envelope.timestampMs.val),
      ("payload".toList, envelope.payload)] ++
    optionalMember "device_client_version" envelope.deviceClientVersion ++
    optionalMember "firmware_version" envelope.firmwareVersion

def recordId (host : Host) (envelope : Envelope) : RecordId :=
  .fromSha256 <| host.sha256 <|
    domain "teslatlas-edge-record-v1" ++ host.jcs envelope.toJson

/-- The identity that leaves out only the receiver's arrival time. -/
def stableIdentity (envelope : ReceiverEnvelope φ) : Json φ :=
  .obj <|
    [("version".toList, .int 2),
      ("vin".toList, .str envelope.vin),
      ("txid".toList, .str envelope.txid),
      ("tx_type".toList, .str envelope.txType),
      ("timestamp_ms".toList, .int envelope.timestampMs.val),
      ("payload".toList, envelope.payload)] ++
    optionalMember "device_client_version" envelope.deviceClientVersion ++
    optionalMember "firmware_version" envelope.firmwareVersion

def stableRecordId (host : Host) (envelope : Envelope) : RecordId :=
  .fromSha256 <| host.sha256 <|
    domain "teslatlas-edge-record-v2" ++ host.jcs envelope.stableIdentity

def normalizedType (txType : Str) : Str := (txType.filter Char.isAlphanum).map Char.toLower

def acceptedTypes : List Str :=
  ["v", "data", "vehicledata", "connectivity", "alerts", "errors"].map String.toList

def isObject : Json φ → Bool
  | .obj _ => true
  | _ => false

def validate (envelope : ReceiverEnvelope φ) : Except ProtocolError Unit := do
  if envelope.version ≠ 1 then throw .unsupportedVersion
  if ¬ validVin envelope.vin then throw .invalidVin
  if ¬ boundedVisibleAscii envelope.txid 1 128 then throw .invalidTransactionId
  if ¬ boundedVisibleAscii envelope.txType 1 64 then throw .invalidTransactionType
  if normalizedType envelope.txType ∉ acceptedTypes then throw .invalidTransactionType
  if envelope.receivedAtMs.val < minTimestampMs ∨ envelope.timestampMs.val < minTimestampMs ∨
      envelope.timestampMs.val > (I64.saturatingAdd envelope.receivedAtMs maxEventClockLeadMs).val then
    throw .invalidTimestamp
  if ¬ isObject envelope.payload then throw .invalidPayload
  if (envelope.deviceClientVersion.toList ++ envelope.firmwareVersion.toList).any
      fun label => ! boundedVisibleAscii label 1 64 then
    throw .invalidVersionLabel

def fieldNames : List Str :=
  ["version", "vin", "txid", "tx_type", "received_at_ms", "timestamp_ms", "payload",
    "device_client_version", "firmware_version"].map String.toList

/-- `serde_json::from_value::<ReceiverEnvelope>`. -/
def fromValue (value : Value) : Option Envelope := do
  let fields ← Json.structFields fieldNames value
  let version ← (Json.field "version".toList fields).bind Json.asU16
  let vin ← (Json.field "vin".toList fields).bind Json.asStr
  let txid ← (Json.field "txid".toList fields).bind Json.asStr
  let txType ← (Json.field "tx_type".toList fields).bind Json.asStr
  let receivedAtMs ← (Json.field "received_at_ms".toList fields).bind Json.asI64
  let timestampMs ← (Json.field "timestamp_ms".toList fields).bind Json.asI64
  let payload ← Json.field "payload".toList fields
  let deviceClientVersion ←
    Json.asOptionalStr (Json.field "device_client_version".toList fields)
  let firmwareVersion ← Json.asOptionalStr (Json.field "firmware_version".toList fields)
  pure { version, vin, txid, txType, receivedAtMs, timestampMs, payload, deviceClientVersion,
         firmwareVersion }

end ReceiverEnvelope

/-! ### Strict JSON admission -/

mutual

/-- `UniqueValue`: rebuild a document, refusing an object that repeats a key. -/
def uniqueValue (codec : FloatCodec) : JsonText → Except ProtocolError Value
  | .null => .ok .null
  | .bool b => .ok (.bool b)
  | .int n => .ok (.int n)
  | .float literal => .ok (.float (codec.parse literal))
  | .str s => .ok (.str s)
  | .arr items => do
      let values ← uniqueItems codec items
      pure (.arr values)
  | .obj fields => do
      let values ← uniqueFields codec [] fields
      pure (.obj values)

def uniqueItems (codec : FloatCodec) : List JsonText → Except ProtocolError (List Value)
  | [] => .ok []
  | item :: items => do
      let value ← uniqueValue codec item
      let values ← uniqueItems codec items
      pure (value :: values)

/-- Members in document order; the resulting map is ordered by key. -/
def uniqueFields (codec : FloatCodec) (seen : List Str) :
    List (Str × JsonText) → Except ProtocolError (List (Str × Value))
  | [] => .ok []
  | (key, item) :: fields =>
      if seen.contains key then .error .duplicateJsonKey
      else do
        let value ← uniqueValue codec item
        let values ← uniqueFields codec (key :: seen) fields
        pure (List.orderedInsert (fun a b => a.1 ≤ b.1) (key, value) values)

end

namespace ReceiverEnvelope

def parse (host : Host) (input : JsonText) : Except ProtocolError Envelope := do
  if input.size > maxReceiverBodyBytes then throw .inputTooLarge
  let unique ← uniqueValue host.codec input
  match fromValue unique with
  | none => throw .invalidJson
  | some envelope =>
      envelope.validate
      pure envelope

def parseAt (host : Host) (input : JsonText) (nowMs : I64) : Except ProtocolError Envelope := do
  let envelope ← parse host input
  if envelope.receivedAtMs.val > (I64.saturatingAdd nowMs maxReceiverClockLeadMs).val then
    throw .invalidTimestamp
  pure envelope

end ReceiverEnvelope

/-! ### Hub messages -/

def RecordId.toJson {φ : Type} (id : RecordId) : Json φ := .str id.text

/-- `Deserialize for RecordId`. -/
def RecordId.fromJson {φ : Type} (value : Json φ) : Option RecordId :=
  value.asStr.bind RecordId.parse

structure HubBatchRecordV1 where
  recordId : RecordId
  receivedAtMs : I64
  envelope : Envelope

structure HubBatchV1 where
  version : Nat
  batchId : Str
  records : List HubBatchRecordV1

structure HubAckV1 where
  version : Nat
  batchId : Str
  acceptedRecordIds : List RecordId
deriving DecidableEq

structure HubAckResultV1 where
  version : Nat
  acknowledgedRecordIds : List RecordId
  unknownRecordIds : List RecordId
deriving DecidableEq

structure HubBatchRecordV2 where
  recordId : RecordId
  legacyRecordId : RecordId
  spoolSeq : Nat
  receivedAtMs : I64
  envelope : Envelope

inductive GapReasonV2 where
  | retentionExpired
  | integrityQuarantine
deriving Repr, DecidableEq

structure GapNoticeV2 where
  noticeId : RecordId
  spoolSeq : Nat
  occurredAtMs : I64
  reason : GapReasonV2
  evidenceSha256 : Str
deriving DecidableEq

structure HubBatchV2 where
  version : Nat
  batchId : Str
  records : List HubBatchRecordV2
  gaps : List GapNoticeV2

structure HubAckV2 where
  version : Nat
  batchId : Str
  acceptedRecordIds : List RecordId
  acceptedGapNoticeIds : List RecordId
deriving DecidableEq

structure HubAckResultV2 where
  version : Nat
  acknowledgedRecordIds : List RecordId
  acknowledgedGapNoticeIds : List RecordId
  unknownRecordIds : List RecordId
  unknownGapNoticeIds : List RecordId
deriving DecidableEq

/-- The label of a gap reason on the wire and in digests. -/
def GapReasonV2.label : GapReasonV2 → Str
  | .retentionExpired => "retention_expired".toList
  | .integrityQuarantine => "integrity_quarantine".toList

def HubBatchRecordV1.toJson (record : HubBatchRecordV1) : Value :=
  .obj [("record_id".toList, record.recordId.toJson),
    ("received_at_ms".toList, .int record.receivedAtMs.val),
    ("envelope".toList, record.envelope.toJson)]

def HubBatchRecordV2.toJson (record : HubBatchRecordV2) : Value :=
  .obj [("record_id".toList, record.recordId.toJson),
    ("legacy_record_id".toList, record.legacyRecordId.toJson),
    ("spool_seq".toList, .int record.spoolSeq),
    ("received_at_ms".toList, .int record.receivedAtMs.val),
    ("envelope".toList, record.envelope.toJson)]

def GapNoticeV2.toJson {φ : Type} (notice : GapNoticeV2) : Json φ :=
  .obj [("notice_id".toList, notice.noticeId.toJson),
    ("spool_seq".toList, .int notice.spoolSeq),
    ("occurred_at_ms".toList, .int notice.occurredAtMs.val),
    ("reason".toList, .str notice.reason.label),
    ("evidence_sha256".toList, .str notice.evidenceSha256)]

def HubBatchV2.toJson (batch : HubBatchV2) : Value :=
  .obj [("version".toList, .int batch.version),
    ("batch_id".toList, .str batch.batchId),
    ("records".toList, .arr (batch.records.map HubBatchRecordV2.toJson)),
    ("gaps".toList, .arr (batch.gaps.map GapNoticeV2.toJson))]

def HubAckV1.toJson {φ : Type} (ack : HubAckV1) : Json φ :=
  .obj [("version".toList, .int ack.version),
    ("batch_id".toList, .str ack.batchId),
    ("accepted_record_ids".toList, .arr (ack.acceptedRecordIds.map RecordId.toJson))]

def HubAckV2.toJson {φ : Type} (ack : HubAckV2) : Json φ :=
  .obj [("version".toList, .int ack.version),
    ("batch_id".toList, .str ack.batchId),
    ("accepted_record_ids".toList, .arr (ack.acceptedRecordIds.map RecordId.toJson)),
    ("accepted_gap_notice_ids".toList, .arr (ack.acceptedGapNoticeIds.map RecordId.toJson))]

namespace HubAckV1

/-- `serde_json::from_value::<HubAckV1>`. -/
def fromValue (value : Value) : Option HubAckV1 := do
  let fields ← Json.structFields
    (["version", "batch_id", "accepted_record_ids"].map String.toList) value
  let version ← (Json.field "version".toList fields).bind Json.asU16
  let batchId ← (Json.field "batch_id".toList fields).bind Json.asStr
  let acceptedRecordIds ←
    (Json.field "accepted_record_ids".toList fields).bind (Json.asList RecordId.fromJson)
  pure { version, batchId, acceptedRecordIds }

def parse (codec : FloatCodec) (input : JsonText) : Except ProtocolError HubAckV1 := do
  if input.size > maxHubAckBodyBytes then throw .inputTooLarge
  let unique ← uniqueValue codec input
  match fromValue unique with
  | none => throw .invalidAcknowledgement
  | some ack =>
      if ack.version ≠ 1 ∨ ¬ validDigest ack.batchId ∨ ack.acceptedRecordIds.length > 256 ∨
          ack.acceptedRecordIds.dedup.length ≠ ack.acceptedRecordIds.length then
        throw .invalidAcknowledgement
      pure ack

end HubAckV1

namespace HubAckV2

/-- `serde_json::from_value::<HubAckV2>`. -/
def fromValue (value : Value) : Option HubAckV2 := do
  let fields ← Json.structFields
    (["version", "batch_id", "accepted_record_ids", "accepted_gap_notice_ids"].map String.toList)
    value
  let version ← (Json.field "version".toList fields).bind Json.asU16
  let batchId ← (Json.field "batch_id".toList fields).bind Json.asStr
  let acceptedRecordIds ←
    (Json.field "accepted_record_ids".toList fields).bind (Json.asList RecordId.fromJson)
  let acceptedGapNoticeIds ←
    (Json.field "accepted_gap_notice_ids".toList fields).bind (Json.asList RecordId.fromJson)
  pure { version, batchId, acceptedRecordIds, acceptedGapNoticeIds }

def parse (codec : FloatCodec) (input : JsonText) : Except ProtocolError HubAckV2 := do
  if input.size > maxHubAckBodyBytes then throw .inputTooLarge
  let unique ← uniqueValue codec input
  match fromValue unique with
  | none => throw .invalidAcknowledgement
  | some ack =>
      if ack.version ≠ 2 ∨ ¬ validDigest ack.batchId ∨ ack.acceptedRecordIds.length > 256 ∨
          ack.acceptedGapNoticeIds.length > 256 ∨
          ack.acceptedRecordIds.dedup.length ≠ ack.acceptedRecordIds.length ∨
          ack.acceptedGapNoticeIds.dedup.length ≠ ack.acceptedGapNoticeIds.length then
        throw .invalidAcknowledgement
      pure ack

end HubAckV2

end TeslatlasEdge
