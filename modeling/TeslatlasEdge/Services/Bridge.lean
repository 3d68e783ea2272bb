/-
Module: TeslatlasEdge.Services.Bridge
Purpose: The producer that the patch adds to the telemetry receiver.  It makes an envelope of a record
  a vehicle has sent, posts the envelope to the edge, and acknowledges the record once the post has
  succeeded.
Trusted boundary: human-reviewed embedding.  What the receiver decodes from a record is given with the
  record; how much longer `json.Marshal` writes a document than the compact text is given with the
  bridge.
Main exports: VehicleRecord, marshalEnvelope, validateBearer, loadBearerFile, requestTimeout, Bridge,
  newProducer, runtimeBearer, bridge_post_reaches_spool_iff
-/
import TeslatlasEdge.Admission
import TeslatlasEdge.Lib.OrdMap
import TeslatlasEdge.Services.Visits

namespace TeslatlasEdge

open Lib

/-! ### Records -/

/-- `timestamppb.Timestamp`. -/
structure Timestamp where
  seconds : I64
  nanos : Int

/-- `CheckValid`: a time from the year 1 to the year 9999. -/
def Timestamp.isValid (timestamp : Timestamp) : Bool :=
  decide (-62135596800 ≤ timestamp.seconds.val ∧ timestamp.seconds.val ≤ 253402300799) &&
    decide (0 ≤ timestamp.nanos ∧ timestamp.nanos < 1000000000)

/-- `AsTime().UnixMilli()`. -/
def Timestamp.unixMilli (timestamp : Timestamp) : Int :=
  timestamp.seconds.val * 1000 + timestamp.nanos / 1000000

/-- `telemetry.Record`, with what the receiver decodes from it: the creation time of a message that
carries one, and the payload if it decodes to a JSON document. -/
structure VehicleRecord where
  vin : Str
  txid : Str
  txType : Str
  receivedTimestamp : I64
  createdAt : Option Timestamp
  payload : Option JsonText

/-- `payloadTimestampMS`. -/
def VehicleRecord.payloadTimestampMs (record : VehicleRecord) : Int :=
  match record.createdAt with
  | none => 0
  | some timestamp => if timestamp.isValid then timestamp.unixMilli else 0

/-! ### Envelopes -/

def maxEnvelopeBytes : Nat := 256 * 1024

/-- The document of the `Envelope` of a record. -/
def VehicleRecord.document (record : VehicleRecord) (payload : JsonText) : JsonText :=
  .obj [("version".toList, .int 1), ("vin".toList, .str record.vin),
    ("txid".toList, .str record.txid), ("tx_type".toList, .str record.txType),
    ("received_at_ms".toList, .int record.receivedTimestamp.val),
    ("timestamp_ms".toList, .int record.payloadTimestampMs), ("payload".toList, payload)]

/-- `marshalEnvelope`, where `json.Marshal` writes a document longer by `padding` than the compact
text. -/
def marshalEnvelope (padding : JsonText → Nat) (record : VehicleRecord) : Option Body :=
  record.payload.bind fun payload =>
    let body := Body.document (record.document payload) (padding (record.document payload))
    if body.length > maxEnvelopeBytes then none else some body

/-! ### The producer -/

/-- `Producer`. -/
structure Bridge where
  bearer : Bytes
  timeoutMs : Int
  reliableAckTxTypes : List Str
  padding : JsonText → Nat

/-- The request `post` makes. -/
def Bridge.request (bridge : Bridge) (body : Body) : HttpRequest :=
  { authorization := some (Str.bytes "Bearer ".toList ++ bridge.bearer), body := body }

/-- `post` succeeds on a status from `200` to `299`. -/
def postSucceeds (status : Status) : Bool := decide (200 ≤ status.code ∧ status.code < 300)

/-! ### The bearer of the edge -/

/-- The characters of ASCII bytes. -/
def asciiText (contents : Bytes) : Option Str :=
  if contents.all fun byte => decide (byte.toNat < 128) then
    some (contents.map fun byte => Char.ofNat byte.toNat)
  else none

/-- What `run_until_shutdown` makes of the bearer file; other bytes than ASCII are refused one way or
the other. -/
def runtimeBearer (contents : Bytes) : Option ReceiverBearer :=
  (asciiText contents).bind ReceiverBearer.make

/-! ### Reading an envelope back -/

section

variable {host : Host} {codec : FloatCodec}

theorem field_cons {φ : Type} (name key : Str) (value : Json φ) (fields : List (Str × Json φ)) :
    Json.field name ((key, value) :: fields) =
      if key = name then some value else Json.field name fields := by
  unfold Json.field
  rw [List.find?_cons]
  by_cases same : key = name
  · rw [if_pos same]
    simp [same]
  · rw [if_neg same]
    simp [same]

/-- A field inserted in its place is found under its name, and the others as before. -/
theorem field_orderedInsert {φ : Type} (name key : Str) (value : Json φ)
    {fields : List (Str × Json φ)} (absent : key ∉ fields.map (·.1)) :
    Json.field name (List.orderedInsert (fun a b => a.1 ≤ b.1) (key, value) fields) =
      if key = name then some value else Json.field name fields := by
  induction fields with
  | nil => exact field_cons name key value []
  | cons member rest ih =>
      obtain ⟨other, held⟩ := member
      rw [List.map_cons, List.mem_cons, not_or] at absent
      rw [List.orderedInsert]
      split
      · exact field_cons name key value _
      · rw [field_cons, field_cons, ih absent.2]
        by_cases same : other = name
        · rw [if_pos same, if_neg fun mine => absent.1 (mine.trans same.symm), if_pos same]
        · rw [if_neg same, if_neg same]

/-- An accepted object has the members of the document, each read by itself. -/
theorem uniqueFields_field {seen : List Str} {fields : List (Str × JsonText)} :
    ∀ {values : List (Str × Value)}, uniqueFields codec seen fields = .ok values →
      (∀ name, name ∈ values.map (·.1) ↔ name ∈ fields.map (·.1)) ∧
      ∀ name, Json.field name values =
        (Json.field name fields).bind fun doc => (uniqueValue codec doc).toOption := by
  induction fields generalizing seen with
  | nil =>
      intro values read
      cases read
      exact ⟨fun _ => Iff.rfl, fun _ => rfl⟩
  | cons member fields ih =>
      obtain ⟨key, doc⟩ := member
      intro values read
      rw [uniqueFields] at read
      split at read
      · cases read
      · cases reads : uniqueValue codec doc with
        | error error =>
            rw [reads] at read
            cases read
        | ok value =>
            cases rest : uniqueFields codec (key :: seen) fields with
            | error error =>
                rw [reads, rest] at read
                cases read
            | ok others =>
                rw [reads, rest] at read
                obtain rfl := Except.ok.inj read
                obtain ⟨keys, members⟩ := ih rest
                have absent : key ∉ others.map (·.1) := by
                  rw [keys key]
                  rcases uniqueFields_refuses codec (key :: seen) fields with
                    ⟨⟨fresh, -⟩, -⟩ | ⟨-, failed⟩
                  · exact fun inside => fresh key inside List.mem_cons_self
                  · rw [rest] at failed
                    cases failed
                refine ⟨fun name => ?_, fun name => ?_⟩
                · rw [Json.mem_keys_orderedInsert, keys name, List.map_cons, List.mem_cons]
                · rw [field_orderedInsert name key value absent, field_cons, members name]
                  by_cases same : key = name
                  · rw [if_pos same, if_pos same, Option.bind_some, reads]
                    rfl
                  · rw [if_neg same, if_neg same]

/-- The envelope says what the record says. -/
structure VehicleRecord.Carries (codec : FloatCodec) (record : VehicleRecord) (envelope : Envelope) :
    Prop where
  version : envelope.version = 1
  vin : envelope.vin = record.vin
  txid : envelope.txid = record.txid
  txType : envelope.txType = record.txType
  receivedAt : envelope.receivedAtMs = record.receivedTimestamp
  timestamp : envelope.timestampMs.val = record.payloadTimestampMs
  payload : ∃ payload, record.payload = some payload ∧
    uniqueValue codec payload = .ok envelope.payload
  unlabelled : envelope.deviceClientVersion = none ∧ envelope.firmwareVersion = none

theorem asI64_int (n : I64) : Json.asI64 (φ := F64) (.int n.val) = some n := dif_pos n.property

theorem asI64_eq_some {n : Int} {value : I64} (read : Json.asI64 (φ := F64) (.int n) = some value) :
    value.val = n := by
  simp only [Json.asI64] at read
  split at read
  · obtain rfl := Option.some.inj read
    rfl
  · cases read

/-- The envelope of a record repeats no key where its payload repeats none. -/
theorem uniqueValue_document {record : VehicleRecord} {payload : JsonText} {inner : Value}
    (unique : uniqueValue codec payload = .ok inner) :
    ∃ value, uniqueValue codec (record.document payload) = .ok value := by
  rw [uniqueValue_ok_iff]
  have nested := (uniqueValue_ok_iff codec payload).mp ⟨inner, unique⟩
  simp only [VehicleRecord.document, Json.NoRepeats, Json.FieldsNoRepeats, List.map_cons, List.map_nil]
  exact ⟨by decide, trivial, by decide, trivial, by decide, trivial, by decide, trivial, by decide,
    trivial, by decide, trivial, by decide, nested, trivial⟩

/-- What the strict parser reads from the document of a record. -/
theorem fromValue_document {record : VehicleRecord} {payload : JsonText} {value : Value}
    (carried : record.payload = some payload)
    (read : uniqueValue codec (record.document payload) = .ok value) {envelope : Envelope} :
    ReceiverEnvelope.fromValue value = some envelope ↔ record.Carries codec envelope := by
  unfold VehicleRecord.document at read
  rw [uniqueValue] at read
  generalize listed : ([("version".toList, Json.int 1), ("vin".toList, .str record.vin),
    ("txid".toList, .str record.txid), ("tx_type".toList, .str record.txType),
    ("received_at_ms".toList, .int record.receivedTimestamp.val),
    ("timestamp_ms".toList, .int record.payloadTimestampMs), ("payload".toList, payload)] :
      List (Str × JsonText)) = fields at read
  cases reads : uniqueFields codec [] fields with
  | error error =>
      rw [reads] at read
      cases read
  | ok values =>
      rw [reads] at read
      obtain rfl := Except.ok.inj read
      obtain ⟨keys, members⟩ := uniqueFields_field reads
      have known : values.all (fun member => ReceiverEnvelope.fieldNames.contains member.1) = true := by
        rw [List.all_eq_true]
        intro member inside
        have key := (keys member.1).mp (List.mem_map_of_mem inside)
        have names : ∀ name ∈ fields.map (·.1), ReceiverEnvelope.fieldNames.contains name = true := by
          rw [← listed]
          simp only [List.map_cons, List.map_nil]
          decide
        exact names member.1 key
      have version : Json.field "version".toList values = some (.int 1) := by
        rw [members, ← listed]
        rfl
      have vin : Json.field "vin".toList values = some (.str record.vin) := by
        rw [members, ← listed]
        rfl
      have txid : Json.field "txid".toList values = some (.str record.txid) := by
        rw [members, ← listed]
        rfl
      have txType : Json.field "tx_type".toList values = some (.str record.txType) := by
        rw [members, ← listed]
        rfl
      have receivedAt : Json.field "received_at_ms".toList values =
          some (.int record.receivedTimestamp.val) := by
        rw [members, ← listed]
        rfl
      have timestamp : Json.field "timestamp_ms".toList values =
          some (.int record.payloadTimestampMs) := by
        rw [members, ← listed]
        rfl
      have inner : Json.field "payload".toList values = (uniqueValue codec payload).toOption := by
        rw [members, ← listed]
        rfl
      have device : Json.field "device_client_version".toList values = none := by
        rw [members, ← listed]
        rfl
      have firmware : Json.field "firmware_version".toList values = none := by
        rw [members, ← listed]
        rfl
      have one : Json.asU16 (φ := F64) (.int 1) = some 1 := rfl
      simp only [ReceiverEnvelope.fromValue, Json.structFields, known, if_true, version, vin, txid,
        txType, receivedAt, timestamp, inner, device, firmware, Option.bind_eq_bind, Option.bind_some,
        one, Json.asStr, asI64_int, Json.asOptionalStr, Option.pure_def]
      constructor
      · intro made
        obtain ⟨time, ranged, made⟩ := Option.bind_eq_some_iff.mp made
        obtain ⟨data, unique, made⟩ := Option.bind_eq_some_iff.mp made
        obtain rfl := Option.some.inj made
        refine ⟨rfl, rfl, rfl, rfl, rfl, asI64_eq_some ranged, ⟨payload, carried, ?_⟩, rfl, rfl⟩
        cases taken : uniqueValue codec payload with
        | error error =>
            rw [taken] at unique
            cases unique
        | ok value =>
            rw [taken] at unique
            exact congrArg Except.ok (Option.some.inj unique)
      · intro carries
        obtain ⟨version, vin, txid, txType, receivedAt, timestamp, data, device, firmware⟩ := envelope
        obtain ⟨rfl, rfl, rfl, rfl, rfl, same, ⟨payload', carried', unique⟩, rfl, rfl⟩ := carries
        obtain rfl := Option.some.inj (carried.symm.trans carried')
        rw [← same, asI64_int, unique]
        rfl

theorem bind_eq_ok {ε α β : Type} {first : Except ε α} {next : α → Except ε β} {result : β} :
    (first >>= next) = .ok result ↔ ∃ value, first = .ok value ∧ next value = .ok result := by
  cases first with
  | error error =>
      refine ⟨(fun failed => by cases failed), ?_⟩
      rintro ⟨_, failed, _⟩
      cases failed
  | ok value =>
      refine ⟨fun done => ⟨value, rfl, done⟩, ?_⟩
      rintro ⟨other, same, done⟩
      obtain rfl := Except.ok.inj same
      exact done

/-- When the strict parser accepts a document. -/
theorem parse_eq_ok {doc : JsonText} {envelope : Envelope} :
    ReceiverEnvelope.parse host doc = .ok envelope ↔
      doc.size ≤ maxReceiverBodyBytes ∧ ∃ value, uniqueValue host.codec doc = .ok value ∧
        ReceiverEnvelope.fromValue value = some envelope ∧ envelope.validate = .ok () := by
  unfold ReceiverEnvelope.parse
  by_cases large : doc.size > maxReceiverBodyBytes
  · rw [if_pos large]
    exact ⟨(fun parsed => by cases parsed), fun fits => absurd fits.1 (not_le.mpr large)⟩
  · rw [if_neg large, bind_eq_ok, and_iff_right (not_lt.mp large)]
    apply exists_congr
    intro value
    apply and_congr_right
    intro _
    cases ReceiverEnvelope.fromValue value with
    | none => exact ⟨(fun failed => by cases failed), fun failed => by cases failed.1⟩
    | some other =>
        simp only [bind_eq_ok]
        constructor
        · rintro ⟨done, checked, same⟩
          obtain rfl := Except.ok.inj same
          exact ⟨rfl, checked⟩
        · rintro ⟨same, checked⟩
          obtain rfl := Option.some.inj same
          exact ⟨(), checked, rfl⟩

theorem parseAt_eq_ok {doc : JsonText} {nowMs : I64} {envelope : Envelope} :
    ReceiverEnvelope.parseAt host doc nowMs = .ok envelope ↔
      ReceiverEnvelope.parse host doc = .ok envelope ∧
        envelope.receivedAtMs.val ≤ (I64.saturatingAdd nowMs maxReceiverClockLeadMs).val := by
  unfold ReceiverEnvelope.parseAt
  rw [bind_eq_ok]
  constructor
  · rintro ⟨other, parsed, timely⟩
    split at timely
    · cases timely
    · rename_i ahead
      obtain rfl := Except.ok.inj timely
      exact ⟨parsed, not_lt.mp ahead⟩
  · rintro ⟨parsed, timely⟩
    refine ⟨envelope, parsed, ?_⟩
    rw [if_neg (not_lt.mpr timely)]
    rfl

/-- The receiver accepts the document of a record if the envelope is valid and not ahead of the clock,
and reads it as it is. -/
theorem parseAt_document {record : VehicleRecord} {payload : JsonText} {nowMs : I64}
    {envelope : Envelope} (carried : record.payload = some payload)
    (fits : (record.document payload).size ≤ maxReceiverBodyBytes) :
    ReceiverEnvelope.parseAt host (record.document payload) nowMs = .ok envelope ↔
      record.Carries host.codec envelope ∧ envelope.validate = .ok () ∧
        envelope.receivedAtMs.val ≤ (I64.saturatingAdd nowMs maxReceiverClockLeadMs).val := by
  rw [parseAt_eq_ok, parse_eq_ok, and_iff_right fits, ← and_assoc]
  apply and_congr_left
  intro _
  constructor
  · rintro ⟨value, unique, read, checked⟩
    exact ⟨(fromValue_document carried unique).mp read, checked⟩
  · rintro ⟨carries, checked⟩
    obtain ⟨payload', carried', inner⟩ := carries.payload
    obtain rfl := Option.some.inj (carried.symm.trans carried')
    obtain ⟨value, unique⟩ := uniqueValue_document inner
    exact ⟨value, unique, (fromValue_document carried unique).mpr carries, checked⟩
end

/-! ### One bearer file -/

theorem toNat_ofNat_ascii {n : Nat} (ascii : n < 128) : (Char.ofNat n).toNat = n := by
  rw [Char.toNat_ofNat, if_pos (.inl (by omega))]

/-- The edge accepts a bearer file only if it consists of the bearer alone. -/
theorem runtimeBearer_eq_some {contents : Bytes} {bearer : ReceiverBearer}
    (runs : runtimeBearer contents = some bearer) :
    bearer.text = contents.map (fun byte => Char.ofNat byte.toNat) ∧ 16 ≤ contents.length ∧
      contents.length ≤ 4096 ∧ ∀ byte ∈ contents, 0x21 ≤ byte.toNat ∧ byte.toNat ≤ 0x7e := by
  obtain ⟨text, read, made⟩ := Option.bind_eq_some_iff.mp runs
  unfold asciiText at read
  split at read
  · rename_i ascii
    obtain rfl := Option.some.inj read
    unfold ReceiverBearer.make at made
    split at made
    · rename_i valid
      obtain rfl := Option.some.inj made
      rw [boundedVisibleAscii, Bool.and_eq_true, decide_eq_true_eq, List.length_map,
        List.all_eq_true] at valid
      refine ⟨rfl, valid.1.1, valid.1.2, fun byte inside => ?_⟩
      have small := of_decide_eq_true (List.all_eq_true.mp ascii byte inside)
      have visible := of_decide_eq_true (valid.2 _ (List.mem_map_of_mem inside))
      rwa [toNat_ofNat_ascii small] at visible
    · cases made
  · cases read

/-- What the bridge marshals is the document of the record, with padding. -/
theorem marshalEnvelope_eq_some {padding : JsonText → Nat} {record : VehicleRecord} {body : Body}
    (marshalled : marshalEnvelope padding record = some body) :
    ∃ payload extra, record.payload = some payload ∧ body = .document (record.document payload) extra ∧
      body.length ≤ maxReceiverBodyBytes := by
  obtain ⟨payload, carried, marshalled⟩ := Option.bind_eq_some_iff.mp marshalled
  simp only at marshalled
  split at marshalled
  · cases marshalled
  · rename_i fits
    obtain rfl := Option.some.inj marshalled
    exact ⟨payload, _, carried, rfl, not_lt.mp fits⟩

section

variable {host : Host} {bridge : Bridge} {bearer : ReceiverBearer} {record : VehicleRecord}
  {body : Body}

/-- The body of a post is read as the record it was made of. -/
theorem parseEnvelope_marshalled (marshalled : marshalEnvelope bridge.padding record = some body)
    {nowMs : I64} {envelope : Envelope} :
    body.parseEnvelope host nowMs = .ok envelope ↔
      record.Carries host.codec envelope ∧ envelope.validate = .ok () ∧
        envelope.receivedAtMs.val ≤ (I64.saturatingAdd nowMs maxReceiverClockLeadMs).val := by
  obtain ⟨payload, extra, carried, rfl, fits⟩ := marshalEnvelope_eq_some marshalled
  rw [Body.parseEnvelope, if_neg (not_lt.mpr fits)]
  apply parseAt_document carried
  exact le_trans (Nat.le_add_right _ _) fits

end

/-- A bridge with the bearer of the sample edge. -/
def sampleBridge : Bridge :=
  { bearer := Str.bytes sampleBearer.text
    timeoutMs := 2000
    reliableAckTxTypes := ["vehicle_data".toList]
    padding := fun _ => 0 }

/-- The record of the sample envelope. -/
def sampleRecord : VehicleRecord :=
  { vin := "5YJ3E1EA7KF000001".toList
    txid := "a".toList
    txType := "vehicle_data".toList
    receivedTimestamp := sampleTime 0
    createdAt := some ⟨I64.clamp 1800000000, 0⟩
    payload := some (.obj []) }

theorem sampleRecord_marshalled :
    marshalEnvelope sampleBridge.padding sampleRecord = some sampleBody := by
  have short : ¬ sampleBody.length > maxEnvelopeBytes := by decide +kernel
  exact @if_neg _ _ short _ none _

abbrev Dispatcher := Str

def teslatlas : Dispatcher := "teslatlas".toList

/-- `containsDispatcher`. -/
def containsDispatcher (wanted : Dispatcher) : List Dispatcher → Bool
  | [] => false
  | dispatcher :: dispatchers => if dispatcher = wanted then true else containsDispatcher wanted dispatchers

/-- `ensureTeslatlasReliableAcks` on the dispatch rules in the order in which they are visited; `none`
is the error. -/
def ensureTeslatlasReliableAcks :
    List (Str × List Dispatcher) → OrdMap Str Dispatcher → Option (OrdMap Str Dispatcher)
  | [], sources => some sources
  | (txType, dispatchers) :: records, sources =>
      if txType = "connectivity".toList ∨ containsDispatcher teslatlas dispatchers = false then
        ensureTeslatlasReliableAcks records sources
      else if (sources.get? txType).any (· ≠ teslatlas) then none
      else ensureTeslatlasReliableAcks records (sources.insert txType teslatlas)

/-- A type that the rules dispatch to the bridge, and that the vehicle expects to be acknowledged. -/
def Bridged (records : List (Str × List Dispatcher)) (txType : Str) : Prop :=
  txType ≠ "connectivity".toList ∧ ∃ dispatchers, (txType, dispatchers) ∈ records ∧
    teslatlas ∈ dispatchers

theorem containsDispatcher_iff {wanted : Dispatcher} {dispatchers : List Dispatcher} :
    containsDispatcher wanted dispatchers = true ↔ wanted ∈ dispatchers := by
  induction dispatchers with
  | nil => exact ⟨(fun none => by cases none), fun none => absurd none List.not_mem_nil⟩
  | cons dispatcher dispatchers ih =>
      rw [containsDispatcher, List.mem_cons]
      by_cases same : dispatcher = wanted
      · rw [if_pos same]
        exact ⟨fun _ => .inl same.symm, fun _ => rfl⟩
      · rw [if_neg same, ih]
        exact ⟨.inr, fun inside => inside.resolve_left fun other => same other.symm⟩

/-- Records are bridged by the first entry of their type, or by a later one. -/
theorem bridged_cons {txType other : Str} {dispatchers : List Dispatcher}
    {records : List (Str × List Dispatcher)} :
    Bridged ((txType, dispatchers) :: records) other ↔
      (other = txType ∧ txType ≠ "connectivity".toList ∧ teslatlas ∈ dispatchers) ∨
        Bridged records other := by
  constructor
  · rintro ⟨plain, rules, inside, here⟩
    rcases List.mem_cons.mp inside with same | inside
    · obtain ⟨rfl, rfl⟩ := Prod.mk.inj same
      exact .inl ⟨rfl, plain, here⟩
    · exact .inr ⟨plain, rules, inside, here⟩
  · rintro (⟨rfl, plain, here⟩ | ⟨plain, rules, inside, here⟩)
    · exact ⟨plain, dispatchers, List.mem_cons_self, here⟩
    · exact ⟨plain, rules, List.mem_cons_of_mem _ inside, here⟩

/-- Whatever order the rules are visited in: the acknowledgements are set up unless a type dispatched to
the bridge is to be acknowledged by another source, and then the bridge acknowledges exactly the types
dispatched to it, next to what was configured. -/
theorem reliable_acks_ensured (records : List (Str × List Dispatcher))
    (sources sources' : OrdMap Str Dispatcher) :
    ensureTeslatlasReliableAcks records sources = some sources' ↔
      (∀ txType configured, Bridged records txType → sources.get? txType = some configured →
        configured = teslatlas) ∧
      (∀ txType, Bridged records txType → sources'.get? txType = some teslatlas) ∧
      ∀ txType, ¬ Bridged records txType → sources'.get? txType = sources.get? txType := by
  induction records generalizing sources with
  | nil =>
      have none : ∀ txType, ¬ Bridged [] txType := by
        rintro txType ⟨-, dispatchers, inside, -⟩
        exact absurd inside List.not_mem_nil
      rw [ensureTeslatlasReliableAcks]
      constructor
      · intro same
        obtain rfl := Option.some.inj same
        exact ⟨fun txType _ bridged => absurd bridged (none txType),
          fun txType bridged => absurd bridged (none txType), fun _ _ => rfl⟩
      · rintro ⟨-, -, same⟩
        exact congrArg some (OrdMap.ext_get? fun txType => (same txType (none txType)).symm)
  | cons rule records ih =>
      obtain ⟨txType, dispatchers⟩ := rule
      rw [ensureTeslatlasReliableAcks]
      by_cases passed : txType = "connectivity".toList ∨ containsDispatcher teslatlas dispatchers = false
      · rw [if_pos passed, ih]
        have same : ∀ other, Bridged ((txType, dispatchers) :: records) other ↔ Bridged records other := by
          intro other
          rw [bridged_cons]
          apply or_iff_right
          rintro ⟨-, plain, here⟩
          rcases passed with special | absent
          · exact plain special
          · rw [containsDispatcher_iff.mpr here] at absent
            cases absent
        simp only [same]
      · rw [not_or, Bool.not_eq_false, containsDispatcher_iff] at passed
        obtain ⟨plain, here⟩ := passed
        have mine : Bridged ((txType, dispatchers) :: records) txType :=
          bridged_cons.mpr (.inl ⟨rfl, plain, here⟩)
        have others : ∀ {other}, other ≠ txType →
            (Bridged ((txType, dispatchers) :: records) other ↔ Bridged records other) := by
          intro other apart
          rw [bridged_cons]
          exact or_iff_right fun same => apart same.1
        have kept : ∀ {other}, other ≠ txType →
            (sources.insert txType teslatlas).get? other = sources.get? other := by
          intro other apart
          rw [OrdMap.get?_insert, if_neg apart]
        have set : (sources.insert txType teslatlas).get? txType = some teslatlas := by
          rw [OrdMap.get?_insert, if_pos rfl]
        rw [if_neg (not_or.mpr ⟨plain, by rw [containsDispatcher_iff.mpr here]; decide⟩)]
        by_cases clash : (sources.get? txType).any (· ≠ teslatlas) = true
        · rw [if_pos clash]
          refine ⟨(fun failed => by cases failed), fun agreed => ?_⟩
          obtain ⟨configured, found, different⟩ := (Option.any_eq_true _ _).mp clash
          exact absurd (agreed.1 txType configured mine found) (of_decide_eq_true different)
        · rw [if_neg clash, ih]
          constructor
          · rintro ⟨agreed, bridged, unbridged⟩
            refine ⟨fun other configured wanted found => ?_, fun other wanted => ?_,
              fun other unwanted => ?_⟩
            · by_cases same : other = txType
              · by_contra different
                rw [same] at found
                apply clash
                exact (Option.any_eq_true _ _).mpr ⟨configured, found, decide_eq_true different⟩
              · exact agreed other configured ((others same).mp wanted) ((kept same).trans found)
            · by_cases same : other = txType
              · by_cases again : Bridged records txType
                · exact same ▸ bridged txType again
                · exact same ▸ (unbridged txType again).trans set
              · exact bridged other ((others same).mp wanted)
            · have apart : other ≠ txType := fun same => unwanted (same ▸ mine)
              exact (unbridged other fun wanted => unwanted ((others apart).mpr wanted)).trans
                (kept apart)
          · rintro ⟨agreed, bridged, unbridged⟩
            refine ⟨fun other configured wanted found => ?_, fun other wanted => ?_,
              fun other unwanted => ?_⟩
            · by_cases same : other = txType
              · rw [same, set] at found
                exact (Option.some.inj found).symm
              · exact agreed other configured ((others same).mpr wanted) ((kept same).symm.trans found)
            · exact bridged other (bridged_cons.mpr (.inr wanted))
            · by_cases same : other = txType
              · rw [same, set]
                exact bridged txType mine
              · rw [kept same]
                exact unbridged other fun wanted => unwanted ((others same).mp wanted)

end TeslatlasEdge
