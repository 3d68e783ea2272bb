/-
Module: TeslatlasEdge.Services.Handlers
Purpose: What the handlers of the two services decide: who gets as far as the spool, and what is made
  of the answer of the spool.
Trusted boundary: none
Main exports: postEnvelope_eq_call, postEnvelope_without_bearer, postEnvelope_eq_answer,
  admissionVerdict_accepts, hubRequest_eq_call, HubRoute.Serves, Response.IsRefusal, hubHandler_serves
-/
import TeslatlasEdge.Services.Edge

namespace TeslatlasEdge

open Lib
open Credentials (TokenHost StoreDisk)

section

variable {host : Host} {tokens : TokenHost} {store : StoreDisk} {bearer : ReceiverBearer}
  {restarts busy : Nat} {nowMs authorizedAtMs : I64} {http : HttpRequest} {request : Request}

/-- The receiver gets as far as the spool with its bearer, a permit and a valid envelope. -/
theorem postEnvelope_eq_call {respond : Except SpoolError Reply → Verdict}
    (handled : postEnvelope host bearer busy nowMs http = .call request respond) :
    busy < maxConcurrentAdmissions ∧ respond = admissionVerdict ∧
      ∃ envelope, http.body.parseEnvelope host nowMs = .ok envelope ∧
        request = .enqueue envelope nowMs := by
  unfold postEnvelope limited at handled
  split at handled
  · cases handled
  · unfold admitReceiverEnvelope at handled
    split at handled
    · cases handled
    · split at handled
      · cases handled
      · split at handled
        · cases handled
        · rename_i free
          split at handled
          · cases handled
          · cases handled
          · rename_i envelope parsed
            cases handled
            exact ⟨not_le.mp free, rfl, envelope, parsed, rfl⟩

/-- What the handler answers by itself is a refusal, which is counted unless the body was over the
limit. -/
theorem postEnvelope_eq_answer {verdict : Verdict}
    (handled : postEnvelope host bearer busy nowMs http = .answer verdict) :
    400 ≤ verdict.1.status.code ∧
      (verdict = (overLimit, none) ∨
        ∃ counter, verdict.2 = some counter ∧ counter ≠ .admitted ∧ counter ≠ .duplicates) := by
  unfold postEnvelope limited at handled
  split at handled
  · cases handled
    exact ⟨by decide, .inl rfl⟩
  · unfold admitReceiverEnvelope at handled
    split at handled
    · cases handled
      exact ⟨by decide, .inr ⟨_, rfl, by decide, by decide⟩⟩
    · split at handled
      · cases handled
        exact ⟨by decide, .inr ⟨_, rfl, by decide, by decide⟩⟩
      · split at handled
        · cases handled
          exact ⟨by decide, .inr ⟨_, rfl, by decide, by decide⟩⟩
        · split at handled
          · cases handled
            exact ⟨by decide, .inr ⟨_, rfl, by decide, by decide⟩⟩
          · cases handled
            exact ⟨by decide, .inr ⟨_, rfl, by decide, by decide⟩⟩
          · cases handled

/-- A response below `400` says that the spool has the envelope. -/
theorem admissionVerdict_accepts {result : Except SpoolError Reply}
    (accepted : (admissionVerdict result).1.status.code < 400) :
    ∃ outcome, result = .ok (.enqueued outcome) := by
  unfold admissionVerdict at accepted
  split at accepted
  · exact ⟨_, rfl⟩
  · exact ⟨_, rfl⟩
  · exact absurd accepted (by decide)
  · exact absurd accepted (by decide)
  · exact absurd accepted (by decide)
  · exact absurd accepted (by decide)

/-- Every response to what the spool returned is counted, under an acceptance exactly if it is one. -/
theorem admissionVerdict_counted (result : Except SpoolError Reply) :
    ∃ counter, (admissionVerdict result).2 = some counter ∧
      ((admissionVerdict result).1.status = .noContent ↔
        counter = .admitted ∨ counter = .duplicates) := by
  unfold admissionVerdict
  split <;> exact ⟨_, rfl, by decide⟩

/-- The response says no more than that it is one. -/
def Response.IsRefusal (response : Response) : Prop :=
  response.status ≠ .ok ∧ response.status ≠ .noContent ∧
    ((∃ name, response.content = .error name) ∨ response.content = .overLimit)

/-- A response that names an error is a refusal. -/
theorem errorResponse_isRefusal {status : Status} {name : String} (bad : status ≠ .ok)
    (full : status ≠ .noContent) : (errorResponse status name).IsRefusal :=
  ⟨bad, full, .inl ⟨_, rfl⟩⟩

theorem overLimit_isRefusal : overLimit.IsRefusal := ⟨by decide, by decide, .inr rfl⟩

theorem spoolUnavailable_isRefusal : spoolUnavailable.IsRefusal :=
  errorResponse_isRefusal (by decide) (by decide)

/-- So is every answer to a failed authorization. -/
theorem authorizationError_isRefusal (failure : AuthorizationFailure) :
    (authorizationError failure).IsRefusal := by
  cases failure <;> exact errorResponse_isRefusal (by decide) (by decide)

/-- Authorization succeeds with a bearer token that the store verifies. -/
theorem authorize_eq_ok (authorized : authorize tokens store authorizedAtMs http = .ok ()) :
    ∃ token, bearerFromHeaders http = some token ∧
      answer (Credentials.verify tokens token authorizedAtMs store) = .ok true := by
  unfold authorize at authorized
  split at authorized
  · cases authorized
  · rename_i token bears
    split at authorized
    · rename_i verified
      exact ⟨token, bears, verified⟩
    · cases authorized
    · cases authorized

/-- A Hub gets as far as the spool with a token that verifies. -/
theorem hubRequest_eq_call {route : HubRoute} {respond : Except SpoolError Reply → Response}
    (handled : hubRequest host tokens store restarts authorizedAtMs nowMs http route =
      .call request respond) :
    authorize tokens store authorizedAtMs http = .ok () ∧
      hubHandler host restarts nowMs http route = .call request respond := by
  unfold hubRequest limited at handled
  cases authorized : authorize tokens store authorizedAtMs http with
  | error failure =>
      simp only [authorized] at handled
      split at handled
      · split at handled
        · cases handled
        · cases handled
      · cases handled
  | ok granted =>
      simp only [authorized] at handled
      refine ⟨rfl, ?_⟩
      split at handled
      · split at handled
        · cases handled
        · exact handled
      · exact handled

/-- Without a token that verifies a Hub is sent away. -/
theorem hubRequest_unauthorized {route : HubRoute} {failure : AuthorizationFailure}
    (rejected : authorize tokens store authorizedAtMs http = .error failure) :
    hubRequest host tokens store restarts authorizedAtMs nowMs http route =
        .answer (authorizationError failure) ∨
      hubRequest host tokens store restarts authorizedAtMs nowMs http route = .answer overLimit := by
  unfold hubRequest limited
  simp only [rejected]
  split
  · split
    · exact .inr rfl
    · exact .inl rfl
  · exact .inl rfl

/-- What a Hub is answered without a call of the spool is an error. -/
theorem hubRequest_eq_answer {route : HubRoute} {response : Response}
    (handled : hubRequest host tokens store restarts authorizedAtMs nowMs http route =
      .answer response) : response.IsRefusal := by
  cases authorized : authorize tokens store authorizedAtMs http with
  | error failure =>
      rcases hubRequest_unauthorized authorized with rejected | tooLong
      · obtain rfl := Handling.answer.inj (rejected.symm.trans handled)
        exact authorizationError_isRefusal failure
      · obtain rfl := Handling.answer.inj (tooLong.symm.trans handled)
        exact overLimit_isRefusal
  | ok granted =>
      unfold hubRequest limited at handled
      simp only [authorized] at handled
      have refused : hubHandler host restarts nowMs http route = .answer response →
          response.IsRefusal := by
        intro handled
        cases route with
        | nextBatch | nextBatchV2 => cases handled
        | acknowledge | acknowledgeV2 =>
            simp only [hubHandler] at handled
            split at handled
            · cases handled
            · obtain rfl := Handling.answer.inj handled
              exact errorResponse_isRefusal (by decide) (by decide)
      split at handled
      · split at handled
        · obtain rfl := Handling.answer.inj handled
          exact overLimit_isRefusal
        · exact refused handled
      · exact refused handled

/-- What a Hub can be told on a route, by an answer that is true of the files. -/
def HubRoute.Serves (key : EncryptionKey) (host : Host) (timeline : List Disk) (http : HttpRequest)
    (route : HubRoute) : Content → Prop
  | .batch delivered => route = .nextBatch ∧ TellsV1 key host timeline delivered
  | .batchV2 delivered => route = .nextBatchV2 ∧ TellsV2 key host timeline delivered
  | .acknowledged result =>
      route = .acknowledge ∧ ∃ ack receipt, http.body.parseAckV1 host = .ok ack ∧
        Receipted key timeline receipt ∧ receipt.batchId = ack.batchId ∧ result = ackResult receipt
  | .acknowledgedV2 result =>
      route = .acknowledgeV2 ∧ ∃ ack receipt, http.body.parseAckV2 host = .ok ack ∧
        Receipted key timeline receipt ∧ receipt.batchId = ack.batchId ∧ result = ackResultV2 receipt
  | _ => False

/-- A Hub is told what the spool answered, or refused. -/
theorem hubHandler_serves {key : EncryptionKey} {offered : Nat → Envelope → Prop}
    {timeline : List Disk} {route : HubRoute} {respond : Except SpoolError Reply → Response}
    {result : Except SpoolError Reply}
    (handled : hubHandler host restarts nowMs http route = .call request respond)
    (told : ∀ reply, result = .ok reply → Told key host offered timeline request reply) :
    (respond result).IsRefusal ∨ (respond result).status = .ok ∧
      route.Serves key host timeline http (respond result).content := by
  cases route with
  | nextBatch =>
      obtain ⟨rfl, rfl⟩ := Handling.call.inj handled
      unfold nextBatchResponse
      split
      · exact .inr ⟨rfl, rfl, told _ rfl⟩
      · exact .inl (errorResponse_isRefusal (by decide) (by decide))
      · exact .inl spoolUnavailable_isRefusal
  | nextBatchV2 =>
      obtain ⟨rfl, rfl⟩ := Handling.call.inj handled
      unfold nextBatchV2Response
      split
      · exact .inr ⟨rfl, rfl, told _ rfl⟩
      · exact .inl spoolUnavailable_isRefusal
  | acknowledge =>
      simp only [hubHandler] at handled
      split at handled
      · rename_i ack parsed
        obtain ⟨rfl, rfl⟩ := Handling.call.inj handled
        unfold acknowledgeResponse
        split
        · obtain ⟨receipt, receipted, named, same⟩ := told _ rfl
          exact .inr ⟨rfl, rfl, ack, receipt, parsed, receipted, named, same⟩
        · exact .inl (errorResponse_isRefusal (by decide) (by decide))
        · exact .inl (errorResponse_isRefusal (by decide) (by decide))
        · exact .inl spoolUnavailable_isRefusal
      · cases handled
  | acknowledgeV2 =>
      simp only [hubHandler] at handled
      split at handled
      · rename_i ack parsed
        obtain ⟨rfl, rfl⟩ := Handling.call.inj handled
        unfold acknowledgeV2Response
        split
        · obtain ⟨receipt, receipted, named, same⟩ := told _ rfl
          exact .inr ⟨rfl, rfl, ack, receipt, parsed, receipted, named, same⟩
        · exact .inl (errorResponse_isRefusal (by decide) (by decide))
        · exact .inl spoolUnavailable_isRefusal
      · cases handled

/-- No answer of the hub's routes is without content. -/
theorem hubHandler_ne_noContent {route : HubRoute} {respond : Except SpoolError Reply → Response}
    (handled : hubHandler host restarts nowMs http route = .call request respond)
    (result : Except SpoolError Reply) : (respond result).status ≠ .noContent := by
  cases route with
  | nextBatch =>
      obtain ⟨-, rfl⟩ := Handling.call.inj handled
      unfold nextBatchResponse
      split <;> simp [errorResponse, spoolUnavailable]
  | nextBatchV2 =>
      obtain ⟨-, rfl⟩ := Handling.call.inj handled
      unfold nextBatchV2Response
      split <;> simp [errorResponse, spoolUnavailable]
  | acknowledge =>
      simp only [hubHandler] at handled
      split at handled
      · obtain ⟨-, rfl⟩ := Handling.call.inj handled
        unfold acknowledgeResponse
        split <;> simp [errorResponse, spoolUnavailable]
      · cases handled
  | acknowledgeV2 =>
      simp only [hubHandler] at handled
      split at handled
      · obtain ⟨-, rfl⟩ := Handling.call.inj handled
        unfold acknowledgeV2Response
        split <;> simp [errorResponse, spoolUnavailable]
      · cases handled

end

end TeslatlasEdge
