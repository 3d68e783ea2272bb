/-
Module: TeslatlasEdge.Separation
Purpose: What the two identities of an envelope tell apart: the stable identity everything but the
  receiver's arrival time, the record identity that time as well, and no record identity is a stable
  identity.
Trusted boundary: none; that SHA-256 has no collision on the texts at hand and that JCS writes equal
  texts for equal readings are hypotheses
Main exports: SameEvent, recordId_eq_iff, stableRecordId_eq_iff, identities_separate
-/
import TeslatlasEdge.Canonical
import TeslatlasEdge.Reference

namespace TeslatlasEdge

/-- Two envelopes report one event, whatever time the receiver gave them. -/
def SameEvent {ν : Type} (number : Int ⊕ F64 → ν) (a b : Envelope) : Prop :=
  a.vin = b.vin ∧ a.txid = b.txid ∧ a.txType = b.txType ∧ a.timestampMs = b.timestampMs ∧
    a.deviceClientVersion = b.deviceClientVersion ∧ a.firmwareVersion = b.firmwareVersion ∧
    a.payload.canonical number = b.payload.canonical number

/-- JCS writes two values of a list alike exactly when they are canonically equal. -/
def CanonicalOn {ν : Type} (host : Host) (number : Int ⊕ F64 → ν) (values : List Value) : Prop :=
  ∀ x ∈ values, ∀ y ∈ values, host.jcs x = host.jcs y ↔ x.canonical number = y.canonical number

/-- Canonical texts that tell two values apart are canonical on them. -/
theorem CanonicalOn.pair {ν : Type} {host : Host} {number : Int ⊕ F64 → ν} {x y : Value}
    (agree : host.jcs x = host.jcs y ↔ x.canonical number = y.canonical number) :
    CanonicalOn host number [x, y] := by
  intro left inLeft right inRight
  simp only [List.mem_cons, List.not_mem_nil, or_false] at inLeft inRight
  rcases inLeft with rfl | rfl <;> rcases inRight with rfl | rfl
  · exact iff_of_true rfl rfl
  · exact agree
  · exact eq_comm.trans (agree.trans eq_comm)
  · exact iff_of_true rfl rfl

def ReceiverEnvelope.recordText (host : Host) (envelope : Envelope) : Bytes :=
  domain "teslatlas-edge-record-v1" ++ host.jcs envelope.toJson

def ReceiverEnvelope.stableText (host : Host) (envelope : Envelope) : Bytes :=
  domain "teslatlas-edge-record-v2" ++ host.jcs envelope.stableIdentity

/-! ### The members of an identity -/

section Members

variable {ν : Type} (number : Int ⊕ F64 → ν)

/-- A member that may be left out is found under its key, if it is there. -/
theorem canonicalFields_optionalMember (name : String) (label : Option Str) (key : Str) :
    Json.canonicalFields number (optionalMember name label) key =
      if key = name.toList then label.map Canon.str else none := by
  cases label with
  | none => exact (ite_self none).symm
  | some text => rfl

theorem optionalMember_inj {label other : Option Str}
    (same : label.map (Canon.str (ν := ν)) = other.map Canon.str) : label = other := by
  apply Option.map_injective _ same
  intro x y equal
  exact Canon.str.inj equal

/-- The stable identity holds exactly the data of the event. -/
theorem stableIdentity_canonical_iff (integers : Function.Injective fun n => number (.inl n))
    (a b : Envelope) :
    a.stableIdentity.canonical number = b.stableIdentity.canonical number ↔
      SameEvent number a b := by
  simp only [ReceiverEnvelope.stableIdentity, Json.canonical, Canon.obj.injEq]
  constructor
  · intro same
    have vin := congrFun same "vin".toList
    have txid := congrFun same "txid".toList
    have txType := congrFun same "tx_type".toList
    have timestamp := congrFun same "timestamp_ms".toList
    have payload := congrFun same "payload".toList
    have device := congrFun same "device_client_version".toList
    have firmware := congrFun same "firmware_version".toList
    simp [Json.canonicalFields, Json.canonical, Json.canonicalFields_append,
      canonicalFields_optionalMember] at vin txid txType timestamp payload device firmware
    exact ⟨vin, txid, txType, Subtype.ext (integers timestamp), optionalMember_inj device,
      optionalMember_inj firmware, payload⟩
  · rintro ⟨vin, txid, txType, timestamp, device, firmware, payload⟩
    funext key
    simp only [Json.canonicalFields_append, Json.canonicalFields, Json.canonical, vin, txid, txType,
      timestamp, device, firmware, payload]

/-- The record identity holds the arrival time as well. -/
theorem toJson_canonical_iff (integers : Function.Injective fun n => number (.inl n))
    {a b : Envelope} (version : a.version = b.version) :
    a.toJson.canonical number = b.toJson.canonical number ↔
      SameEvent number a b ∧ a.receivedAtMs = b.receivedAtMs := by
  simp only [ReceiverEnvelope.toJson, Json.canonical, Canon.obj.injEq]
  constructor
  · intro same
    have vin := congrFun same "vin".toList
    have txid := congrFun same "txid".toList
    have txType := congrFun same "tx_type".toList
    have received := congrFun same "received_at_ms".toList
    have timestamp := congrFun same "timestamp_ms".toList
    have payload := congrFun same "payload".toList
    have device := congrFun same "device_client_version".toList
    have firmware := congrFun same "firmware_version".toList
    simp [Json.canonicalFields, Json.canonical, Json.canonicalFields_append,
      canonicalFields_optionalMember] at vin txid txType received timestamp payload device firmware
    refine ⟨⟨vin, txid, txType, Subtype.ext (integers timestamp), optionalMember_inj device,
      optionalMember_inj firmware, payload⟩, Subtype.ext (integers received)⟩
  · rintro ⟨⟨vin, txid, txType, timestamp, device, firmware, payload⟩, received⟩
    funext key
    simp only [Json.canonicalFields_append, Json.canonicalFields, Json.canonical, version, vin,
      txid, txType, received, timestamp, device, firmware, payload]

end Members

/-! ### Digests -/

/-- Different digests give different identities. -/
theorem RecordId.fromSha256_inj {left right : { digest : Bytes // digest.length = 32 }}
    (same : RecordId.fromSha256 left = RecordId.fromSha256 right) : left = right := by
  apply Subtype.ext
  exact hexEncode_injective (congrArg RecordId.text same)

/-- Where SHA-256 has no collision, identities are equal exactly when the texts they digest are. -/
theorem digests_eq_iff {host : Host} {texts : Set Bytes} (collisionFree : texts.InjOn host.sha256)
    {left right : Bytes} (first : left ∈ texts) (second : right ∈ texts) :
    RecordId.fromSha256 (host.sha256 left) = RecordId.fromSha256 (host.sha256 right) ↔
      left = right := by
  constructor
  · intro same
    exact collisionFree first second (RecordId.fromSha256_inj same)
  · rintro rfl
    rfl

/-- The two domains are of one length and differ, so no text belongs to both. -/
theorem recordText_ne_stableText (host : Host) (a b : Envelope) :
    a.recordText host ≠ b.stableText host := by
  intro same
  have lengths : (domain "teslatlas-edge-record-v1").length =
      (domain "teslatlas-edge-record-v2").length := by decide
  exact absurd (List.append_inj same lengths).1 (by decide)

/-- A valid envelope is of version 1. -/
theorem validate_version {φ : Type} {envelope : ReceiverEnvelope φ}
    (valid : envelope.validate = .ok ()) : envelope.version = 1 := by
  by_contra other
  unfold ReceiverEnvelope.validate at valid
  rw [if_pos other] at valid
  cases valid

/-- Stable identities are equal exactly for one event, record identities exactly for one event
received at one time, and the two kinds never meet. -/
theorem identities_separate {ν : Type} (host : Host) (number : Int ⊕ F64 → ν) (a b : Envelope)
    (validA : a.validate = .ok ()) (validB : b.validate = .ok ())
    (integers : Function.Injective fun n => number (.inl n))
    (canonical : CanonicalOn host number [a.toJson, b.toJson])
    (canonicalStable : CanonicalOn host number [a.stableIdentity, b.stableIdentity])
    (collisionFree : Set.InjOn host.sha256
      {a.recordText host, b.recordText host, a.stableText host, b.stableText host}) :
    (a.stableRecordId host = b.stableRecordId host ↔ SameEvent number a b) ∧
      (a.recordId host = b.recordId host ↔
        SameEvent number a b ∧ a.receivedAtMs = b.receivedAtMs) ∧
      (a.recordId host = b.recordId host → a.stableRecordId host = b.stableRecordId host) ∧
      a.recordId host ≠ b.stableRecordId host := by
  have recordA : a.recordText host ∈ ({a.recordText host, b.recordText host, a.stableText host,
      b.stableText host} : Set Bytes) := by simp
  have recordB : b.recordText host ∈ ({a.recordText host, b.recordText host, a.stableText host,
      b.stableText host} : Set Bytes) := by simp
  have stableA : a.stableText host ∈ ({a.recordText host, b.recordText host, a.stableText host,
      b.stableText host} : Set Bytes) := by simp
  have stableB : b.stableText host ∈ ({a.recordText host, b.recordText host, a.stableText host,
      b.stableText host} : Set Bytes) := by simp
  have stable : a.stableRecordId host = b.stableRecordId host ↔ SameEvent number a b := by
    rw [← stableIdentity_canonical_iff number integers,
      ← canonicalStable _ (by simp) _ (by simp)]
    apply (digests_eq_iff collisionFree stableA stableB).trans
    exact List.append_right_inj _
  have record : a.recordId host = b.recordId host ↔
      SameEvent number a b ∧ a.receivedAtMs = b.receivedAtMs := by
    have version : a.version = b.version :=
      (validate_version validA).trans (validate_version validB).symm
    rw [← toJson_canonical_iff number integers version, ← canonical _ (by simp) _ (by simp)]
    apply (digests_eq_iff collisionFree recordA recordB).trans
    exact List.append_right_inj _
  refine ⟨stable, record, fun same => stable.mpr (record.mp same).1, fun same => ?_⟩
  apply recordText_ne_stableText host a b
  exact (digests_eq_iff collisionFree recordA stableB).mp same

/-- A function with three different values is injective on their arguments. -/
theorem injOn_of_distinct {α β : Type} {f : α → β} {x y z : α} (distinct : [f x, f y, f z].Nodup) :
    Set.InjOn f {x, y, z, z} := by
  intro left inLeft right inRight same
  apply List.inj_on_of_nodup_map (l := [x, y, z]) distinct _ _ same
  · simpa using inLeft
  · simpa using inRight

/-- One event received twice, a millisecond apart. -/
theorem identities_separate_redelivery :
    let a := sampleEnvelope "a"
    let b := { sampleEnvelope "a" with receivedAtMs := ⟨1800000000001, by omega⟩ }
    let host := referenceHost integerCodec
    a.stableRecordId host = b.stableRecordId host ∧ a.recordId host ≠ b.recordId host := by
  intro a b host
  have event : SameEvent id a b := ⟨rfl, rfl, rfl, rfl, rfl, rfl, rfl⟩
  have later : a.receivedAtMs ≠ b.receivedAtMs := by decide
  have integers : Function.Injective fun n : Int => (id (.inl n) : Int ⊕ F64) := Sum.inl_injective
  have differ : host.jcs a.toJson ≠ host.jcs b.toJson := by decide +kernel
  have canonical : CanonicalOn host id [a.toJson, b.toJson] := by
    have apart : a.toJson.canonical id ≠ b.toJson.canonical id := fun same =>
      later ((@toJson_canonical_iff _ id integers a b rfl).mp same).2
    exact CanonicalOn.pair (iff_of_false differ apart)
  have canonicalStable : CanonicalOn host id [a.stableIdentity, b.stableIdentity] := by
    exact CanonicalOn.pair (iff_of_true rfl rfl)
  have collisionFree : Set.InjOn host.sha256
      {a.recordText host, b.recordText host, a.stableText host, b.stableText host} := by
    have texts : b.stableText host = a.stableText host := rfl
    have distinct : [host.sha256 (a.recordText host), host.sha256 (b.recordText host),
        host.sha256 (a.stableText host)].Nodup := by decide +kernel
    rw [texts]
    exact injOn_of_distinct distinct
  obtain ⟨stable, record, -⟩ := identities_separate host id a b rfl rfl integers canonical
    canonicalStable collisionFree
  exact ⟨stable.mpr event, fun same => later (record.mp same).2⟩

end TeslatlasEdge
