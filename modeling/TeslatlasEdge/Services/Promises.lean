/-
Module: TeslatlasEdge.Services.Promises
Purpose: What an edge promises its visitors over whole runs: an accepted envelope stays in custody, no
  more admissions are under way than there are permits, telemetry leaves to active credentials alone
  and is true, and the counters account for the responses.  What rests on the files is promised where
  no admission takes over the identity of an entry between the read of its file and its quarantine.
Trusted boundary: none
Main exports: accepted_posts_kept_safe, permits_bound_admissions, hub_served_by_credential,
  revoked_hub_shut_out, counters_account_for_responses
-/
import TeslatlasEdge.Credentials.Validity
import TeslatlasEdge.Services.Visits

namespace TeslatlasEdge

open Lib
open Credentials (TokenHost StoreDisk Invocation)

/-! ### Decisions of handlers along a run -/

section

variable {setting : Setting} {permits : Edge → EdgeTurn → Prop} {e e' : Edge}

/-- The visitor had its turn at the first edge, on the way to the second. -/
def Setting.Visited (setting : Setting) (permits : Edge → EdgeTurn → Prop) (e₀ e : Edge)
    (visitor : Visitor) : Prop :=
  ∃ e₁, (permits e₀ (.visit visitor) ∧ e₀.Takes setting (.visit visitor) e₁) ∧
    (edgeSystem setting permits).Later e₁ e

/-- The handler for the visitor came to its decision at the visitor's turn of the run. -/
def Setting.Decided (setting : Setting) (permits : Edge → EdgeTurn → Prop) (e : Edge)
    (visitor : Visitor) (handling : Handling Verdict) : Prop :=
  ∃ e₀, (edgeSystem setting permits).Reachable e₀ ∧ setting.Visited permits e₀ e visitor ∧
    setting.handle e₀ visitor = handling

/-- What was decided on a visitor's turn stays as it was decided. -/
theorem Setting.Decided.step {visitor : Visitor} {handling : Handling Verdict}
    (decided : setting.Decided permits e visitor handling)
    (moved : (edgeSystem setting permits).moves e e') :
    setting.Decided permits e' visitor handling := by
  obtain ⟨e₀, reach, ⟨e₁, turn, later⟩, handled⟩ := decided
  exact ⟨e₀, reach, ⟨e₁, turn, later.tail moved⟩, handled⟩

/-- Whoever is served or has been served was let in by a handler, and whoever was refused was refused
by one. -/
structure Edge.Decisions (setting : Setting) (permits : Edge → EdgeTurn → Prop) (e : Edge) : Prop where
  waiting : ∀ pending ∈ e.waiting,
    setting.Decided permits e pending.visitor (.call pending.request pending.respond)
  calls : ∀ call ∈ e.calls,
    setting.Decided permits e call.asked.visitor (.call call.asked.request call.asked.respond)
  answered : ∀ done ∈ e.answered,
    setting.Decided permits e done.1.visitor (.call done.1.request done.1.respond)
  refused : ∀ refusal ∈ e.refused, setting.Decided permits e refusal.1 (.answer refusal.2)

/-- A turn lets nobody in but by a decision, and takes no decision back. -/
theorem Edge.Decisions.step (decisions : e.Decisions setting permits)
    (reach : (edgeSystem setting permits).Reachable e) {turn : EdgeTurn}
    (may : permits e turn) (taken : e.Takes setting turn e') :
    e'.Decisions setting permits := by
  have turned : permits e turn ∧ e.Takes setting turn e' := ⟨may, taken⟩
  have moved : (edgeSystem setting permits).moves e e' := ⟨turn, turned⟩
  have waiting := fun pending inside => (decisions.waiting pending inside).step moved
  have calls := fun call inside => (decisions.calls call inside).step moved
  have answered := fun done inside => (decisions.answered done inside).step moved
  have refused := fun refusal inside => (decisions.refused refusal inside).step moved
  cases taken with
  | started =>
      exact ⟨fun _ gone => absurd gone List.not_mem_nil, fun _ gone => absurd gone List.not_mem_nil,
        answered, refused⟩
  | outside apart open_ moved =>
      refine ⟨fun pending inside => ?_, fun call inside => ?_, answered, refused⟩
      · split at inside
        · exact waiting pending inside
        · exact absurd inside List.not_mem_nil
      · split at inside
        · exact calls call inside
        · exact absurd inside List.not_mem_nil
  | managed => exact ⟨waiting, calls, answered, refused⟩
  | refused running handled =>
      refine ⟨waiting, calls, answered, fun refusal inside => ?_⟩
      rcases List.mem_cons.mp inside with rfl | inside
      · exact ⟨e, reach, ⟨_, turned, .refl⟩, handled⟩
      · exact refused refusal inside
  | begun running handled =>
      refine ⟨fun pending inside => ?_, calls, answered, refused⟩
      rcases List.mem_cons.mp inside with rfl | inside
      · exact ⟨e, reach, ⟨_, turned, .refl⟩, handled⟩
      · exact waiting pending inside
  | @entered process pending before after running here alone =>
      rw [here] at waiting
      refine ⟨fun other inside => waiting other ?_, fun call inside => ?_, answered, refused⟩
      · rcases List.mem_append.mp inside with left | right
        · exact List.mem_append_left _ left
        · exact List.mem_append_right _ (List.mem_cons_of_mem _ right)
      · rcases List.mem_cons.mp inside with rfl | inside
        · exact waiting pending (List.mem_append_right _ List.mem_cons_self)
        · exact calls call inside
  | @advanced label faults process asked act next before after running here =>
      rw [here] at calls
      refine ⟨waiting, fun call inside => ?_, answered, refused⟩
      rcases List.mem_append.mp inside with left | right
      · exact calls call (List.mem_append_left _ left)
      · rcases List.mem_cons.mp right with rfl | right
        · exact calls ⟨asked, .step label act next⟩ (List.mem_append_right _ List.mem_cons_self)
        · exact calls call (List.mem_append_right _ (List.mem_cons_of_mem _ right))
  | stopped =>
      exact ⟨fun _ gone => absurd gone List.not_mem_nil, fun _ gone => absurd gone List.not_mem_nil,
        answered, refused⟩
  | @answered asked result before after here =>
      rw [here] at calls
      refine ⟨waiting, fun call inside => ?_, fun done inside => ?_, refused⟩
      · rcases List.mem_append.mp inside with left | right
        · exact calls call (List.mem_append_left _ left)
        · exact calls call (List.mem_append_right _ (List.mem_cons_of_mem _ right))
      · rcases List.mem_cons.mp inside with rfl | inside
        · exact calls ⟨asked, .done result⟩ (List.mem_append_right _ List.mem_cons_self)
        · exact answered done inside

/-- Along every run, whoever is served, has been served or was refused met with a handler's decision. -/
theorem Edge.decisions (reach : (edgeSystem setting permits).Reachable e) :
    e.Decisions setting permits := by
  induction reach with
  | start begins =>
      obtain ⟨-, -, waiting, calls, answered, refused⟩ := begins
      refine ⟨?_, ?_, ?_, ?_⟩
      · rw [waiting]
        exact fun _ gone => absurd gone List.not_mem_nil
      · rw [calls]
        exact fun _ gone => absurd gone List.not_mem_nil
      · rw [answered]
        exact fun _ gone => absurd gone List.not_mem_nil
      · rw [refused]
        exact fun _ gone => absurd gone List.not_mem_nil
  | step before moved ih =>
      obtain ⟨turn, may, taken⟩ := moved
      exact ih.step before may taken

/-- A response is made from what the spool returned to the visitor, or is the handler's own. -/
theorem Edge.Decisions.source (decisions : e.Decisions setting permits) {visitor : Visitor}
    {verdict : Verdict} (responded : (visitor, verdict) ∈ e.responses) :
    (∃ request respond result, setting.Decided permits e visitor (.call request respond) ∧
      (request, result) ∈ e.toShared.answers ∧ verdict = respond result) ∨
      setting.Decided permits e visitor (.answer verdict) := by
  rcases List.mem_append.mp responded with answered | refused
  · obtain ⟨done, inside, same⟩ := List.mem_map.mp answered
    obtain ⟨rfl, rfl⟩ := Prod.mk.inj same
    exact .inl ⟨_, _, _, decisions.answered done inside, List.mem_map.mpr ⟨done, inside, rfl⟩, rfl⟩
  · exact .inr (decisions.refused _ refused)

/-- A Hub gets as far as the spool when it is authorized, with what its route asks for. -/
theorem Setting.handle_hub {route : HubRoute} {http : HttpRequest} {authorizedAtMs nowMs : I64}
    {request : Request} {respond : Except SpoolError Reply → Verdict}
    (handled : setting.handle e (.hub route http authorizedAtMs nowMs) = .call request respond) :
    authorize setting.tokens e.store authorizedAtMs http = .ok () ∧
      ∃ respond', hubHandler setting.host setting.restarts nowMs http route =
        .call request respond' ∧ respond = fun result => (respond' result, none) := by
  simp only [Setting.handle] at handled
  cases handling : hubRequest setting.host setting.tokens e.store setting.restarts authorizedAtMs
      nowMs http route with
  | answer response =>
      rw [handling] at handled
      cases handled
  | call request' respond' =>
      rw [handling] at handled
      obtain ⟨rfl, rfl⟩ := Handling.call.inj handled
      obtain ⟨authorized, handled⟩ := hubRequest_eq_call handling
      exact ⟨authorized, respond', handled, rfl⟩

/-- What a Hub is answered without the spool is a refusal, and is not counted. -/
theorem Setting.handle_hub_answer {route : HubRoute} {http : HttpRequest}
    {authorizedAtMs nowMs : I64} {verdict : Verdict}
    (handled : setting.handle e (.hub route http authorizedAtMs nowMs) = .answer verdict) :
    verdict.1.IsRefusal ∧ verdict.2 = none := by
  simp only [Setting.handle] at handled
  cases handling : hubRequest setting.host setting.tokens e.store setting.restarts authorizedAtMs
      nowMs http route with
  | answer response =>
      rw [handling] at handled
      obtain rfl := Handling.answer.inj handled
      exact ⟨hubRequest_eq_answer handling, rfl⟩
  | call request' respond' =>
      rw [handling] at handled
      cases handled

/-! ### Accepted envelopes -/

section

variable {key : EncryptionKey} {setting : Setting} {e : Edge}

/-- A response below `400` stands for an envelope in the custody of the spool. -/
theorem Edge.custody_of_accepted
    (reach : (edgeSystem setting (Edge.Permits (Limited key setting.host))).Reachable e)
    (distinct : DistinctNotices setting.host e.world.Offered)
    (faithful : FaithfulIds setting.host e.world.Offered) {http : HttpRequest} {parsing : Nat}
    {nowMs : I64} {verdict : Verdict}
    (responded : (.receiver http parsing nowMs, verdict) ∈ e.responses)
    (accepted : verdict.1.status.code < 400) :
    ∃ envelope, http.body.parseEnvelope setting.host nowMs = .ok envelope ∧
      ∃ n record, Admitted key e.world.timeline n record ∧
        record.stableRecordId = some (envelope.stableRecordId setting.host) ∧
        (verdict.2 = some .admitted →
          record.envelope = envelope.map setting.host.codec.print) ∧
        e.world.AnswersFor key setting.host n record := by
  have standing := standing_of_reachable ((edge_refines setting _).reachable reach)
    (fun _ _ offer => offer) distinct
  rcases (Edge.decisions reach).source responded with
    ⟨request, respond, result, ⟨e₀, -, -, handled⟩, answered, rfl⟩ | ⟨e₀, -, -, handled⟩
  · obtain ⟨-, rfl, envelope, parsed, rfl⟩ := postEnvelope_eq_call handled
    obtain ⟨outcome, rfl⟩ := admissionVerdict_accepts accepted
    obtain ⟨n, record, admitted, -, stable, content, answersFor⟩ :=
      standing.keeps_safe faithful answered
    refine ⟨envelope, parsed, n, record, admitted, stable, fun counted => ?_, answersFor⟩
    cases outcome with
    | stored recordId => exact content recordId rfl
    | alreadyPresent recordId => cases counted
  · exact absurd accepted (not_lt.mpr (postEnvelope_eq_answer handled).1)

/-- An envelope that the receiver has been told is accepted stays in the custody of the spool, whatever
else the edge does, through restarts and failures. -/
theorem accepted_posts_kept_safe
    (reach : (edgeSystem setting (Edge.Permits (Limited key setting.host))).Reachable e)
    (distinct : DistinctNotices setting.host e.world.Offered)
    (faithful : FaithfulIds setting.host e.world.Offered) {http : HttpRequest} {parsing : Nat}
    {nowMs : I64} {verdict : Verdict}
    (responded : (.receiver http parsing nowMs, verdict) ∈ e.responses)
    (accepted : verdict.1.status = .noContent) :
    ∃ envelope, http.body.parseEnvelope setting.host nowMs = .ok envelope ∧
      ∃ n record, Admitted key e.world.timeline n record ∧
        record.stableRecordId = some (envelope.stableRecordId setting.host) ∧
        (verdict.2 = some .admitted →
          record.envelope = envelope.map setting.host.codec.print) ∧
        e.world.AnswersFor key setting.host n record := by
  apply Edge.custody_of_accepted reach distinct faithful responded
  rw [accepted]
  decide

theorem accepted_posts_kept_safe_sampleVisits :
    ∃ (e : Edge) (envelope : Envelope) (n : Nat) (record : StoredRecord Str),
      record.stableRecordId = some (envelope.stableRecordId (referenceHost integerCodec)) ∧
        e.world.AnswersFor sampleKey (referenceHost integerCodec) n record := by
  obtain ⟨e, e', reach, serving, apart, ⟨verdict, responded, accepted⟩, -⟩ := sampleVisits_reached
  obtain ⟨envelope, -, n, record, -, stable, -, answersFor⟩ :=
    accepted_posts_kept_safe (reach.later (Edge.Serving.later serving)) apart.distinctNotices
      apart.faithfulIds responded accepted
  exact ⟨e', envelope, n, record, stable, answersFor⟩

/-! ### Permits -/

/-- No more admissions are under way than there are permits. -/
theorem permits_bound_admissions {permits : Edge → EdgeTurn → Prop}
    (reach : (edgeSystem setting permits).Reachable e) : e.busy ≤ maxConcurrentAdmissions := by
  apply reach.invariant (I := fun e => e.busy ≤ maxConcurrentAdmissions)
  · rintro e ⟨-, -, waiting, calls, -⟩
    rw [Edge.busy, waiting, calls]
    exact Nat.zero_le _
  · rintro e e' - bound ⟨turn, -, taken⟩
    rw [Edge.busy] at bound ⊢
    cases taken with
    | started | stopped => exact Nat.zero_le _
    | outside apart open_ moved =>
        split
        · exact bound
        · exact Nat.zero_le _
    | managed | refused => exact bound
    | @begun visitor request respond running handled =>
        rw [List.countP_cons]
        cases visitor with
        | hub => exact bound
        | receiver http parsing nowMs =>
            have free := (postEnvelope_eq_call handled).1
            rw [Edge.busy] at free
            change e.waiting.countP _ + 1 + e.calls.countP _ ≤ maxConcurrentAdmissions
            omega
    | entered running here alone =>
        rw [here] at bound
        simp only [List.countP_append, List.countP_cons] at bound ⊢
        omega
    | advanced running here =>
        rw [here] at bound
        simpa only [List.countP_append, List.countP_cons] using bound
    | answered here =>
        rw [here] at bound
        simp only [List.countP_append, List.countP_cons] at bound ⊢
        omega

theorem permits_bound_admissions_sampleVisits :
    ∃ e : Edge, e.responses ≠ [] ∧ e.busy ≤ maxConcurrentAdmissions := by
  obtain ⟨e, e', reach, serving, -, ⟨verdict, responded, -⟩, -⟩ := sampleVisits_reached
  exact ⟨e', List.ne_nil_of_mem responded,
    permits_bound_admissions (reach.later (Edge.Serving.later serving))⟩

/-! ### Hubs -/

/-- The Hub shows the token of a credential that is in the store and active. -/
def HttpRequest.ShowsCredential (tokens : TokenHost) (store : StoreDisk) (http : HttpRequest)
    (time : I64) : Prop :=
  ∃ token parsed credential, bearerFromHeaders http = some token ∧
    Credentials.ParsedToken.parse tokens token = some parsed ∧
    Credentials.credentialIn store parsed.id = some credential ∧ credential.activeAt time = true ∧
    Credentials.digestSecret tokens credential.id parsed.secret.val = credential.secretDigest

/-- A visitor who is let in shows a credential in force. -/
theorem showsCredential_of_authorized {tokens : TokenHost} {store : StoreDisk} {http : HttpRequest}
    {time : I64} (authorized : authorize tokens store time http = .ok ()) :
    http.ShowsCredential tokens store time := by
  obtain ⟨token, bears, verified⟩ := authorize_eq_ok authorized
  obtain ⟨parsed, file, credential, reads, loaded, found, active, digest⟩ :=
    Credentials.verify_eq_true_iff.mp verified
  rw [← Credentials.credentialIn_of_readStore loaded] at found
  exact ⟨token, parsed, credential, bears, reads, found, active, digest⟩

/-- The visitor was let in at its turn at the first edge, where its handler called the spool, and what
the spool returned to it is the response given at the second. -/
structure Setting.Serves (setting : Setting) (permits : Edge → EdgeTurn → Prop) (e₀ e : Edge)
    (visitor : Visitor) (verdict : Verdict) : Prop where
  reached : (edgeSystem setting permits).Reachable e₀
  visited : setting.Visited permits e₀ e visitor
  served : ∃ request respond result, setting.handle e₀ visitor = .call request respond ∧
    (request, result) ∈ e.toShared.answers ∧ verdict = respond result

/-- Whatever the delivery service responds is a refusal, or it is true of the files and goes to a Hub
that was let in by a credential in the store and active at its turn. -/
theorem hub_served_by_credential
    (reach : (edgeSystem setting (Edge.Permits (Limited key setting.host))).Reachable e)
    (distinct : DistinctNotices setting.host e.world.Offered) {route : HubRoute} {http : HttpRequest}
    {authorizedAtMs nowMs : I64} {verdict : Verdict}
    (responded : (.hub route http authorizedAtMs nowMs, verdict) ∈ e.responses) :
    verdict.1.IsRefusal ∨
      route.Serves key setting.host e.world.timeline http verdict.1.content ∧
        ∃ e₀, setting.Serves (Edge.Permits (Limited key setting.host)) e₀ e
            (.hub route http authorizedAtMs nowMs) verdict ∧
          authorize setting.tokens e₀.store authorizedAtMs http = .ok () ∧
          http.ShowsCredential setting.tokens e₀.store authorizedAtMs := by
  have standing := standing_of_reachable ((edge_refines setting _).reachable reach)
    (fun _ _ offer => offer) distinct
  rcases (Edge.decisions reach).source responded with
    ⟨request, respond, result, ⟨e₀, reach₀, visited, handled⟩, answered, rfl⟩ |
      ⟨e₀, -, -, handled⟩
  · have serves₀ : setting.Serves (Edge.Permits (Limited key setting.host)) e₀ e
        (.hub route http authorizedAtMs nowMs) (respond result) :=
      ⟨reach₀, visited, request, respond, result, handled, answered, rfl⟩
    obtain ⟨authorized, respond', asks, rfl⟩ := Setting.handle_hub handled
    rcases hubHandler_serves asks fun reply success => standing.told _ answered reply success with
      refused | ⟨-, serves⟩
    · exact .inl refused
    · exact .inr ⟨serves, e₀, serves₀, authorized, showsCredential_of_authorized authorized⟩
  · exact .inl (Setting.handle_hub_answer handled).1

theorem hub_served_by_credential_sampleVisits :
    ∃ (e e₀ : Edge) (route : HubRoute) (http : HttpRequest) (authorizedAtMs nowMs : I64)
      (verdict : Verdict),
      route.Serves sampleKey (referenceHost integerCodec) e.world.timeline http verdict.1.content ∧
        sampleSetting.Serves (Edge.Permits (Limited sampleKey (referenceHost integerCodec))) e₀ e
          (.hub route http authorizedAtMs nowMs) verdict ∧
        http.ShowsCredential Credentials.referenceTokenHost e₀.store authorizedAtMs := by
  obtain ⟨e, e', reach, serving, apart, -, ⟨visitor, verdict, responded, pulls, served⟩, -⟩ :=
    sampleVisits_reached
  cases visitor with
  | receiver => cases pulls
  | hub route http authorizedAtMs nowMs =>
      rcases hub_served_by_credential (reach.later (Edge.Serving.later serving)) apart.distinctNotices
        responded with refused | ⟨serves, e₀, letIn, -, shows⟩
      · exact absurd served refused.1
      · exact ⟨e', e₀, route, http, authorizedAtMs, nowMs, verdict, serves, letIn, shows⟩

/-! ### Revoked credentials -/

/-- The credential has been revoked from a time not after the given one. -/
def RevokedBy (store : StoreDisk) (id : Credentials.Uuid) (time : I64) : Prop :=
  ∃ credential revoked, Credentials.credentialIn store id = some credential ∧
    credential.revokedAtMs = some revoked ∧ revoked.val ≤ time.val

/-- No operation on the store takes a revocation back or puts it off. -/
theorem RevokedBy.after {tokens : TokenHost} {store : StoreDisk} {id : Credentials.Uuid} {time : I64}
    (gone : RevokedBy store id time) (invocation : Invocation) :
    RevokedBy (invocation.after tokens store) id time := by
  obtain ⟨old, revoked, held, ended, past⟩ := gone
  rcases Credentials.after_cases tokens store invocation with
    same | ⟨-, reply, file, file', reads, writes, written⟩
  · rw [same]
    exact ⟨old, revoked, held, ended, past⟩
  · rw [Credentials.credentialIn_of_readStore reads] at held
    rw [written]
    rcases writes.find held with stays | ⟨_, _, _, _, -, -, -, -, -, cut⟩ | ⟨_, nowMs, -, -, again⟩
    · exact ⟨old, revoked, stays, ended, past⟩
    · exact ⟨_, revoked, cut, ended, past⟩
    · refine ⟨_, _, again, rfl, ?_⟩
      simp only [Credentials.StoredCredential.revocation, ended, Credentials.StoredCredential.earlier_val]
      exact le_trans (min_le_left _ _) past

/-- A revocation is not taken back. -/
theorem RevokedBy.later {permits : Edge → EdgeTurn → Prop} {e' : Edge} {id : Credentials.Uuid}
    {time : I64} (later : (edgeSystem setting permits).Later e e')
    (gone : RevokedBy e.store id time) : RevokedBy e'.store id time := by
  induction later with
  | refl => exact gone
  | tail before moved ih =>
      obtain ⟨turn, -, taken⟩ := moved
      cases taken with
      | managed => exact ih.after _
      | started | outside | refused | begun | entered | advanced | stopped | answered => exact ih

/-- Once a credential has been revoked, nobody who shows its token from that time on gets as far as the
spool, whatever the edge and its operators do in between. -/
theorem revoked_hub_shut_out {permits : Edge → EdgeTurn → Prop} {e' : Edge}
    (later : (edgeSystem setting permits).Later e e') {token : Str}
    {parsed : Credentials.ParsedToken} {authorizedAtMs nowMs : I64}
    (reads : Credentials.ParsedToken.parse setting.tokens token = some parsed)
    (gone : RevokedBy e.store parsed.id authorizedAtMs) {http : HttpRequest}
    (bears : bearerFromHeaders http = some token) (route : HubRoute) :
    ∃ response, setting.handle e' (.hub route http authorizedAtMs nowMs) =
        .answer (response, none) ∧
      (response = overLimit ∨ ∃ failure, response = authorizationError failure) := by
  obtain ⟨credential, revoked, held, ended, past⟩ := gone.later later
  have rejected : ∃ failure, authorize setting.tokens e'.store authorizedAtMs http =
      .error failure := by
    cases authorized : authorize setting.tokens e'.store authorizedAtMs http with
    | error failure => exact ⟨failure, rfl⟩
    | ok granted =>
        obtain ⟨token', parsed', credential', bears', reads', held', active, -⟩ :=
          showsCredential_of_authorized authorized
        obtain rfl := Option.some.inj (bears.symm.trans bears')
        obtain rfl := Option.some.inj (reads.symm.trans reads')
        obtain rfl := Option.some.inj (held.symm.trans held')
        have before := (Credentials.StoredCredential.activeAt_iff.mp active).2.2.2 revoked ended
        exact absurd before (not_lt.mpr past)
  obtain ⟨failure, rejected⟩ := rejected
  rcases @hubRequest_unauthorized setting.host setting.tokens e'.store setting.restarts nowMs
      authorizedAtMs http route failure rejected with refused | tooLong
  · exact ⟨_, congrArg (Handling.map _) refused, .inr ⟨failure, rfl⟩⟩
  · exact ⟨_, congrArg (Handling.map _) tooLong, .inl rfl⟩

/-- The sample edge after its Hub has been enrolled and revoked. -/
def revokedEdge : Edge :=
  { sampleEdge with
    store := Credentials.storeAfter Credentials.referenceTokenHost Credentials.emptyStore
      [⟨.enrol "home-hub".toList (sampleTime 0) (Credentials.sampleSpan 120000),
          Credentials.sampleDraw 1, .completes⟩,
        ⟨.revoke (Credentials.formatHyphenated (Credentials.sampleUuid 1)) (sampleTime 5),
          Credentials.sampleDraw 1, .completes⟩] }

theorem revokedEdge_revoked :
    RevokedBy revokedEdge.store (Credentials.sampleUuid 1) (sampleTime 6) := by
  have found : (Credentials.credentialIn revokedEdge.store (Credentials.sampleUuid 1)).any
      (fun credential => credential.revokedAtMs.any fun revoked =>
        decide (revoked.val ≤ (sampleTime 6).val)) = true := by decide +kernel
  obtain ⟨credential, held, shows⟩ := (Option.any_eq_true _ _).mp found
  obtain ⟨revoked, ended, past⟩ := (Option.any_eq_true _ _).mp shows
  exact ⟨credential, revoked, held, ended, of_decide_eq_true past⟩

theorem sampleToken_borne (body : Body) :
    bearerFromHeaders (bearing sampleToken body) = some sampleToken := by
  have borne : bearerFromHeaders (bearing sampleToken (.malformed 0)) = some sampleToken := by
    decide +kernel
  exact borne

/-- Another Hub is enrolled. -/
def otherEnrolment : Invocation :=
  ⟨.enrol "other-hub".toList (sampleTime 5) (Credentials.sampleSpan 120000),
    Credentials.sampleDraw 2, .completes⟩

def managedEdge : Edge :=
  { revokedEdge with store := otherEnrolment.after sampleSetting.tokens revokedEdge.store }

theorem managedEdge_later :
    (edgeSystem sampleSetting fun _ _ => True).Later revokedEdge managedEdge :=
  .single ⟨.manage otherEnrolment, trivial, @Edge.Takes.managed sampleSetting revokedEdge otherEnrolment⟩

theorem revoked_hub_shut_out_managedEdge :
    ∃ response : Response,
      sampleSetting.handle managedEdge (.hub .nextBatchV2 (bearing sampleToken (.malformed 0))
        (sampleTime 6) (sampleTime 6)) = .answer (response, none) := by
  obtain ⟨response, refused, -⟩ := @revoked_hub_shut_out sampleSetting revokedEdge _ managedEdge
    managedEdge_later sampleToken _ (sampleTime 6) (sampleTime 6) sampleToken_parse revokedEdge_revoked
    _ (sampleToken_borne (.malformed 0)) .nextBatchV2
  exact ⟨response, refused⟩

/-! ### Counters -/

namespace Edge

/-- The responses that have been counted under a counter. -/
def counted (e : Edge) (counter : Counter) : Nat :=
  e.responses.countP fun response => response.2.2 = some counter

/-- The responses that accepted an envelope. -/
def accepted (e : Edge) : Nat :=
  e.responses.countP fun response => response.2.1.status = .noContent

end Edge

/-- How the counters of a process stand to its responses. -/
structure Edge.Accounted (e e' : Edge) : Prop where
  /-- Each counter has moved by the responses counted under it. -/
  moved : ∀ counter, e.counted counter ≤ e'.counted counter ∧
    e'.metrics.value counter =
      e.metrics.value counter + UInt64.ofNat (e'.counted counter - e.counted counter)
  /-- Accepted envelopes are counted as new or as known. -/
  accepted : e'.accepted = e'.counted .admitted + e'.counted .duplicates
  /-- A response to the receiver goes uncounted only if the body was over the limit. -/
  uncounted : ∀ visitor verdict, (visitor, verdict) ∈ e'.responses → verdict.2 = none →
    visitor.posts = true → verdict.1 = overLimit

section

variable {permits : Edge → EdgeTurn → Prop} {e' : Edge}

/-- Noting a counter adds one to it. -/
theorem Metrics.value_note (metrics : Metrics) (noted : Option Counter) (counter : Counter) :
    (metrics.note noted).value counter =
      metrics.value counter + UInt64.ofNat (if noted = some counter then 1 else 0) := by
  cases noted with
  | none => simp [Metrics.note]
  | some other =>
      rw [Metrics.note, Metrics.value_count]
      by_cases same : counter = other
      · rw [if_pos same, if_pos (congrArg some same.symm)]
        rfl
      · rw [if_neg same, if_neg fun other => same (Option.some.inj other).symm]
        rfl

/-- One turn that opens nothing moves each counter by the responses it gives. -/
theorem Edge.Takes.counts {turn : EdgeTurn} (taken : e.Takes setting turn e')
    (goes : turn.begins = false) (counter : Counter) :
    ∃ n, e'.counted counter = e.counted counter + n ∧
      e'.metrics.value counter = e.metrics.value counter + UInt64.ofNat n := by
  have still : ∀ value : UInt64, value = value + UInt64.ofNat 0 := fun value => by simp
  cases taken with
  | started => cases goes
  | outside | managed | begun | entered | advanced | stopped => exact ⟨0, rfl, still _⟩
  | @refused visitor verdict running handled =>
      refine ⟨_, ?_, Metrics.value_note _ _ _⟩
      simp only [Edge.counted, Edge.responses, List.countP_append, List.countP_cons,
        decide_eq_true_eq]
      omega
  | @answered asked result before after here =>
      refine ⟨_, ?_, Metrics.value_note _ _ _⟩
      simp only [Edge.counted, Edge.responses, List.map_cons, List.cons_append, List.countP_append,
        List.countP_cons, decide_eq_true_eq]

/-- Counters grow by the responses that are counted. -/
theorem Edge.Serving.counts (serving : e.Serving setting permits e') (counter : Counter) :
    ∃ n, e'.counted counter = e.counted counter + n ∧
      e'.metrics.value counter = e.metrics.value counter + UInt64.ofNat n := by
  induction serving with
  | refl => exact ⟨0, rfl, by simp⟩
  | tail before moved ih =>
      obtain ⟨turn, goes, -, taken⟩ := moved
      obtain ⟨n, counted, value⟩ := ih
      obtain ⟨k, counted', value'⟩ := taken.counts goes counter
      refine ⟨n + k, by omega, ?_⟩
      rw [value', value, UInt64.ofNat_add, add_assoc]

/-- What a response is counted under tells whether it accepts an envelope. -/
theorem Edge.Decisions.noContent_iff (decisions : e.Decisions setting permits) {visitor : Visitor}
    {verdict : Verdict} (responded : (visitor, verdict) ∈ e.responses) :
    (verdict.1.status = .noContent ↔
        verdict.2 = some .admitted ∨ verdict.2 = some .duplicates) ∧
      (verdict.2 = none → visitor.posts = true → verdict.1 = overLimit) := by
  rcases decisions.source responded with
    ⟨request, respond, result, ⟨e₀, -, -, handled⟩, -, rfl⟩ | ⟨e₀, -, -, handled⟩
  · cases visitor with
    | receiver http parsing nowMs =>
        obtain ⟨-, rfl, -⟩ := postEnvelope_eq_call handled
        obtain ⟨counter, noted, accepts⟩ := admissionVerdict_counted result
        rw [accepts, noted]
        refine ⟨by simp only [Option.some.injEq], fun none => by cases none⟩
    | hub route http authorizedAtMs nowMs =>
        obtain ⟨-, respond', asks, rfl⟩ := Setting.handle_hub handled
        refine ⟨⟨fun full => absurd full ?_, fun counted => ?_⟩, fun _ posts => by cases posts⟩
        · exact hubHandler_ne_noContent asks result
        · rcases counted with counted | counted <;> cases counted
  · cases visitor with
    | receiver http parsing nowMs =>
        have full : verdict.1.status ≠ .noContent := fun full => by
          have refused := (postEnvelope_eq_answer handled).1
          rw [full] at refused
          exact absurd refused (by decide)
        obtain ⟨-, unread | ⟨counter, noted, new, known⟩⟩ := postEnvelope_eq_answer handled
        · refine ⟨⟨fun other => absurd other full, fun counted => ?_⟩, fun _ _ => by rw [unread]⟩
          rw [unread] at counted
          rcases counted with counted | counted <;> cases counted
        · refine ⟨⟨fun other => absurd other full, fun counted => ?_⟩, fun none => ?_⟩
          · rw [noted] at counted
            rcases counted with counted | counted
            · exact absurd (Option.some.inj counted) new
            · exact absurd (Option.some.inj counted) known
          · rw [noted] at none
            cases none
    | hub route http authorizedAtMs nowMs =>
        obtain ⟨refusal, uncounted⟩ := Setting.handle_hub_answer handled
        refine ⟨⟨fun other => absurd other refusal.2.1, fun counted => ?_⟩,
          fun _ posts => by cases posts⟩
        rw [uncounted] at counted
        rcases counted with counted | counted <;> cases counted

/-- Responses that are counted once, under the one or under the other. -/
theorem countP_either {responses : List (Visitor × Verdict)}
    (each : ∀ response ∈ responses, (response.2.1.status = .noContent ↔
      response.2.2 = some .admitted ∨ response.2.2 = some .duplicates)) :
    responses.countP (fun response => response.2.1.status = .noContent) =
      responses.countP (fun response => response.2.2 = some .admitted) +
        responses.countP fun response => response.2.2 = some .duplicates := by
  induction responses with
  | nil => rfl
  | cons response rest ih =>
      have first := each response List.mem_cons_self
      have others := ih fun other inside => each other (List.mem_cons_of_mem _ inside)
      simp only [List.countP_cons, decide_eq_true_eq, others, first]
      by_cases new : response.2.2 = some .admitted
      · have known : response.2.2 ≠ some .duplicates := by
          rw [new]
          exact fun same => by cases same
        rw [if_pos (.inl new), if_pos new, if_neg known]
        omega
      · by_cases known : response.2.2 = some .duplicates
        · rw [if_pos (.inr known), if_neg new, if_pos known]
          omega
        · rw [if_neg (not_or.mpr ⟨new, known⟩), if_neg new, if_neg known]
          omega

/-- While a process runs its counters keep account of its responses. -/
theorem counters_account_for_responses (reach : (edgeSystem setting permits).Reachable e)
    (serving : e.Serving setting permits e') : e.Accounted e' := by
  have decisions := Edge.decisions (reach.later (Edge.Serving.later serving))
  refine ⟨fun counter => ?_, countP_either fun response inside =>
    (decisions.noContent_iff inside).1, fun visitor verdict inside => (decisions.noContent_iff inside).2⟩
  obtain ⟨n, counted, value⟩ := serving.counts counter
  rw [counted, value, Nat.add_sub_cancel_left]
  exact ⟨Nat.le_add_right _ _, rfl⟩

theorem counters_account_for_responses_sampleVisits :
    ∃ e e' : Edge, e'.accepted ≠ 0 ∧ e.Accounted e' := by
  obtain ⟨e, e', reach, serving, -, ⟨verdict, responded, accepted⟩, -⟩ := sampleVisits_reached
  refine ⟨e, e', fun none => ?_, counters_account_for_responses reach serving⟩
  exact List.countP_eq_zero.mp none _ responded (decide_eq_true accepted)

end

end

end

end TeslatlasEdge
