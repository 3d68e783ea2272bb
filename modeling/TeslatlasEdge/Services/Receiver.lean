/-
Module: TeslatlasEdge.Services.Receiver
Purpose: The loopback service of `admission.rs` that the telemetry receiver posts envelopes to.
Trusted boundary: human-reviewed embedding.  The permits other requests hold are a number given with
  each request.
Main exports: ReceiverBearer, ReceiverBearer.make, admitReceiverEnvelope, postEnvelope, liveness,
  readiness, metricsPage
-/
import TeslatlasEdge.Services.Http

namespace TeslatlasEdge

def maxConcurrentAdmissions : Nat := 32

/-! ### The bearer -/

/-- `ReceiverBearer`: 16 to 4096 visible ASCII bytes. -/
structure ReceiverBearer where
  text : Str
  valid : boundedVisibleAscii text 16 4096 = true
deriving DecidableEq

namespace ReceiverBearer

/-- `ReceiverBearer::new`. -/
def make (value : Str) : Option ReceiverBearer :=
  if valid : boundedVisibleAscii value 16 4096 = true then some ⟨value, valid⟩ else none

/-- Equal lengths and equal bytes. -/
def accepts (bearer : ReceiverBearer) (candidate : Str) : Bool :=
  candidate.length = bearer.text.length && candidate = bearer.text

/-- A bearer accepts its own text only. -/
theorem accepts_iff {bearer : ReceiverBearer} {candidate : Str} :
    bearer.accepts candidate = true ↔ candidate = bearer.text := by
  simp only [accepts, Bool.and_eq_true, decide_eq_true_eq, and_iff_right_iff_imp]
  exact congrArg List.length

end ReceiverBearer

/-! ### Admission -/

/-- `ReceiverEnvelope::parse_at` on the bytes of a body. -/
def Body.parseEnvelope (host : Host) (nowMs : I64) (body : Body) : Except ProtocolError Envelope :=
  if body.length > maxReceiverBodyBytes then .error .inputTooLarge
  else
    match body with
    | .document text _ => ReceiverEnvelope.parseAt host text nowMs
    | .malformed _ => .error .invalidJson

/-- A response and the counter it moves. -/
abbrev Verdict := Response × Option Counter

def refuse (status : Status) (name : String) (counter : Counter) : Verdict :=
  (errorResponse status name, some counter)

/-- The response to what `enqueue` returned. -/
def admissionVerdict : Except SpoolError Reply → Verdict
  | .ok (.enqueued (.stored _)) => (⟨.noContent, .empty⟩, some .admitted)
  | .ok (.enqueued (.alreadyPresent _)) => (⟨.noContent, .empty⟩, some .duplicates)
  | .error .capacityExceeded =>
      refuse .insufficientStorage "spool_capacity_exceeded" .rejectedCapacity
  | .error .storageFull => refuse .insufficientStorage "storage_full" .rejectedStorage
  | .error .batchItemTooLarge =>
      refuse .payloadTooLarge "record_exceeds_delivery_limit" .rejectedInvalid
  | _ => refuse .serviceUnavailable "spool_unavailable" .rejectedInternal

/-- `admit_receiver_envelope`, while other requests hold `busy` permits. -/
def admitReceiverEnvelope (host : Host) (bearer : ReceiverBearer) (busy : Nat) (nowMs : I64)
    (request : HttpRequest) : Handling Verdict :=
  match bearerFromHeaders request with
  | none => .answer (refuse .unauthorized "receiver_authentication_failed" .rejectedAuth)
  | some candidate =>
      if bearer.accepts candidate = false then
        .answer (refuse .unauthorized "receiver_authentication_failed" .rejectedAuth)
      else if maxConcurrentAdmissions ≤ busy then
        .answer (refuse .serviceUnavailable "receiver_busy" .rejectedInternal)
      else
        match request.body.parseEnvelope host nowMs with
        | .error .inputTooLarge =>
            .answer (refuse .payloadTooLarge "receiver_body_too_large" .rejectedInvalid)
        | .error _ => .answer (refuse .badRequest "invalid_receiver_envelope" .rejectedInvalid)
        | .ok envelope => .call (.enqueue envelope nowMs) admissionVerdict

/-- `POST /v1/internal/fleet-telemetry`. -/
def postEnvelope (host : Host) (bearer : ReceiverBearer) (busy : Nat) (nowMs : I64)
    (request : HttpRequest) : Handling Verdict :=
  limited maxReceiverBodyBytes request (overLimit, none)
    (admitReceiverEnvelope host bearer busy nowMs request)

/-! ### Observation -/

/-- `GET /healthz`. -/
def liveness (snapshot : SpoolSnapshot) : Response :=
  ⟨.ok, .health (.fromSnapshot snapshot)⟩

/-- `GET /readyz`. -/
def readiness (snapshot : SpoolSnapshot) : Response :=
  ⟨if snapshot.degraded then .serviceUnavailable else .ok, .health (.fromSnapshot snapshot)⟩

/-- `GET /metrics`. -/
def metricsPage (metrics : Metrics) (snapshot : SpoolSnapshot) : Response :=
  ⟨.ok, .metrics (metrics.render snapshot)⟩

end TeslatlasEdge
