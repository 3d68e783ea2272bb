/-
Module: TeslatlasEdge.Services.Delivery
Purpose: The service of `delivery.rs` through which the Hub pulls batches and acknowledges them.
  Every request is checked against the credential file as it stands at that moment.
Trusted boundary: human-reviewed embedding; the TLS layer below is left out
Main exports: AuthorizationFailure, authorize, HubRoute, hubHandler, hubRequest
-/
import TeslatlasEdge.Credentials.Store
import TeslatlasEdge.Services.Http

namespace TeslatlasEdge

open Lib
open Credentials (TokenHost StoreDisk)

/-! ### Authorization -/

inductive AuthorizationFailure where
  | rejected
  | unavailable
deriving Repr, DecidableEq

def authorize (tokens : TokenHost) (store : StoreDisk) (nowMs : I64) (request : HttpRequest) :
    Except AuthorizationFailure Unit :=
  match bearerFromHeaders request with
  | none => .error .rejected
  | some token =>
      match answer (Credentials.verify tokens token nowMs store) with
      | .ok true => .ok ()
      | .ok false => .error .rejected
      | .error _ => .error .unavailable

def authorizationError : AuthorizationFailure → Response
  | .rejected => errorResponse .unauthorized "hub_authentication_failed"
  | .unavailable => errorResponse .serviceUnavailable "credential_store_unavailable"

/-! ### Bodies -/

/-- `HubAckV1::parse` on the bytes of a body. -/
def Body.parseAckV1 (host : Host) (body : Body) : Except ProtocolError HubAckV1 :=
  if body.length > maxHubAckBodyBytes then .error .inputTooLarge
  else
    match body with
    | .document text _ => HubAckV1.parse host.codec text
    | .malformed _ => .error .invalidAcknowledgement

/-- `HubAckV2::parse` on the bytes of a body. -/
def Body.parseAckV2 (host : Host) (body : Body) : Except ProtocolError HubAckV2 :=
  if body.length > maxHubAckBodyBytes then .error .inputTooLarge
  else
    match body with
    | .document text _ => HubAckV2.parse host.codec text
    | .malformed _ => .error .invalidAcknowledgement

/-! ### Responses to what the spool returned -/

def spoolUnavailable : Response := errorResponse .serviceUnavailable "spool_unavailable"

def nextBatchResponse : Except SpoolError Reply → Response
  | .ok (.batch delivered) => ⟨.ok, .batch delivered⟩
  | .error .protocolUpgradeRequired => errorResponse .conflict "protocol_upgrade_required"
  | _ => spoolUnavailable

def nextBatchV2Response : Except SpoolError Reply → Response
  | .ok (.batchV2 delivered) => ⟨.ok, .batchV2 delivered⟩
  | _ => spoolUnavailable

/-- `acknowledgement_error` on the errors. -/
def acknowledgeResponse : Except SpoolError Reply → Response
  | .ok (.acknowledged result) => ⟨.ok, .acknowledged result⟩
  | .error .invalidAcknowledgement => errorResponse .badRequest "invalid_acknowledgement"
  | .error .v1AcknowledgementHistoryPruned => errorResponse .conflict "protocol_upgrade_required"
  | _ => spoolUnavailable

def acknowledgeV2Response : Except SpoolError Reply → Response
  | .ok (.acknowledgedV2 result) => ⟨.ok, .acknowledgedV2 result⟩
  | .error .invalidAcknowledgement => errorResponse .badRequest "invalid_acknowledgement"
  | _ => spoolUnavailable

/-! ### Routes -/

inductive HubRoute where
  | nextBatch
  | acknowledge
  | nextBatchV2
  | acknowledgeV2
deriving Repr, DecidableEq

/-- The four handlers behind `authorize`.  The batch builder is unrolled `restarts` times. -/
def hubHandler (host : Host) (restarts : Nat) (nowMs : I64) (request : HttpRequest) :
    HubRoute → Handling Response
  | .nextBatch => .call (.nextBatch nowMs) nextBatchResponse
  | .nextBatchV2 => .call (.nextBatchV2 restarts nowMs) nextBatchV2Response
  | .acknowledge =>
      match request.body.parseAckV1 host with
      | .ok ack => .call (.acknowledge ack) acknowledgeResponse
      | .error _ => .answer (errorResponse .badRequest "invalid_acknowledgement")
  | .acknowledgeV2 =>
      match request.body.parseAckV2 host with
      | .ok ack => .call (.acknowledgeV2 restarts ack) acknowledgeV2Response
      | .error _ => .answer (errorResponse .badRequest "invalid_acknowledgement")

def HubRoute.readsBody : HubRoute → Bool
  | .nextBatch | .nextBatchV2 => false
  | .acknowledge | .acknowledgeV2 => true

/-- A request to one of the routes, with the clock read for its authorization and again for the
spool; only the handlers that read the body limit it. -/
def hubRequest (host : Host) (tokens : TokenHost) (store : StoreDisk) (restarts : Nat)
    (authorizedAtMs nowMs : I64) (request : HttpRequest) (route : HubRoute) : Handling Response :=
  let authorized : Handling Response :=
    match authorize tokens store authorizedAtMs request with
    | .error failure => .answer (authorizationError failure)
    | .ok () => hubHandler host restarts nowMs request route
  if route.readsBody then limited maxHubAckBodyBytes request overLimit authorized else authorized

end TeslatlasEdge
