/-
Module: TeslatlasEdge.Services.Http
Purpose: The requests and responses of the two HTTP services, as far as their handlers look at them:
  the bearer in the Authorization header, the length and the document of the body, the status and
  what the response carries.
Trusted boundary: human-reviewed embedding; routing, header parsing and the body limit are `axum`'s
Main exports: Header, Body, HttpRequest, Status, Response, Handling, bearerFromHeaders, limited
-/
import TeslatlasEdge.Runs
import TeslatlasEdge.Services.Status

namespace TeslatlasEdge

/-! ### Requests -/

/-- The bytes of a header value. -/
abbrev Header := Bytes

/-- `HeaderValue::to_str`: visible ASCII, blanks and tabs. -/
def headerText (value : Header) : Option Str :=
  if value.all fun byte => (32 ≤ byte.toNat && byte.toNat ≤ 126) || byte.toNat = 9 then
    some (value.map fun byte => Char.ofNat byte.toNat)
  else none

/-- The bytes of a body: the text of a JSON document, longer than the compact text by blanks and
escapes it does not need, or bytes that are not JSON. -/
inductive Body where
  | document (text : JsonText) (extra : Nat)
  | malformed (length : Nat)

def Body.length : Body → Nat
  | .document text extra => text.size + extra
  | .malformed length => length

structure HttpRequest where
  authorization : Option Header
  body : Body

/-- `bearer_from_headers`, and the same reading of the header in `authorize`. -/
def bearerFromHeaders (request : HttpRequest) : Option Str := do
  let value ← request.authorization
  let text ← headerText value
  let token ← dropPrefix "Bearer ".toList text
  if token ≠ [] then some token else none

/-! ### Responses -/

inductive Status where
  | ok
  | noContent
  | badRequest
  | unauthorized
  | conflict
  | payloadTooLarge
  | serviceUnavailable
  | insufficientStorage
deriving Repr, DecidableEq

def Status.code : Status → Nat
  | .ok => 200
  | .noContent => 204
  | .badRequest => 400
  | .unauthorized => 401
  | .conflict => 409
  | .payloadTooLarge => 413
  | .serviceUnavailable => 503
  | .insufficientStorage => 507

/-- What a response carries. -/
inductive Content where
  | empty
  | error (name : Str)
  /-- The text `axum` gives a body that is over the limit. -/
  | overLimit
  | batch (delivered : HubBatchV1)
  | batchV2 (delivered : HubBatchV2)
  | acknowledged (result : HubAckResultV1)
  | acknowledgedV2 (result : HubAckResultV2)
  | health (health : HealthResponse)
  | metrics (page : Str)

structure Response where
  status : Status
  content : Content

/-- `error_response`. -/
def errorResponse (status : Status) (name : String) : Response := ⟨status, .error name.toList⟩

/-! ### Handlers -/

/-- What a handler makes of a request: it answers at once, or it makes one call of the spool and
answers what that returns. -/
inductive Handling (α : Type) where
  | answer (result : α)
  | call (request : Request) (respond : Except SpoolError Reply → α)

def Handling.map {α β : Type} (change : α → β) : Handling α → Handling β
  | .answer result => .answer (change result)
  | .call request respond => .call request fun reply => change (respond reply)

/-- `DefaultBodyLimit`: the body is read, and refused, before the handler runs. -/
def limited {α : Type} (maximum : Nat) (request : HttpRequest) (refusal : α)
    (handling : Handling α) : Handling α :=
  if request.body.length > maximum then .answer refusal else handling

/-- How the response to a body over the limit looks. -/
def overLimit : Response := ⟨.payloadTooLarge, .overLimit⟩

end TeslatlasEdge
