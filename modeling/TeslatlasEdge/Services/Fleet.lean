/-
Module: TeslatlasEdge.Services.Fleet
Purpose: Bridge and edge as one system: records that vehicles send are posted to the edge, and what the
  edge responds decides whether a vehicle is told that its record has arrived.  A vehicle is told so only
  of records in the custody of the spool.
Trusted boundary: human-reviewed model of the connection.  A post may take the response to another post
  of the same request.
Main exports: Fleet, FleetTurn, Fleet.Takes, fleetSystem, fleet_refines,
  acknowledged_records_in_custody
-/
import TeslatlasEdge.Services.Bridge
import TeslatlasEdge.Services.Promises

namespace TeslatlasEdge

open Lib

/-! ### Posts under way -/

/-- An edge, the posts of the bridge that wait for a response, and the records that have been
acknowledged (newest first). -/
structure Fleet where
  edge : Edge
  posting : List (VehicleRecord × HttpRequest)
  acknowledged : List VehicleRecord

inductive FleetTurn where
  | edge (turn : EdgeTurn)
  | produce (record : VehicleRecord)
  | respond
  | fail

/-- `Produce`, cut where it waits for the edge. -/
inductive Fleet.Takes (bridge : Bridge) (setting : Setting) (f : Fleet) : FleetTurn → Fleet → Prop where
  | edge {turn : EdgeTurn} {e : Edge} (taken : f.edge.Takes setting turn e) :
      Takes bridge setting f (.edge turn) { f with edge := e }
  | unfit {record : VehicleRecord} (unmarshalled : marshalEnvelope bridge.padding record = none) :
      Takes bridge setting f (.produce record) f
  | posted {record : VehicleRecord} {body : Body}
      (marshalled : marshalEnvelope bridge.padding record = some body) :
      Takes bridge setting f (.produce record)
        { f with posting := (record, bridge.request body) :: f.posting }
  | responded {record : VehicleRecord} {http : HttpRequest}
      {before after : List (VehicleRecord × HttpRequest)} {parsing : Nat} {nowMs : I64}
      {verdict : Verdict} (here : f.posting = before ++ (record, http) :: after)
      (responded : (.receiver http parsing nowMs, verdict) ∈ f.edge.responses) :
      Takes bridge setting f .respond
        { f with
          posting := before ++ after
          acknowledged :=
            if postSucceeds verdict.1.status && bridge.reliableAckTxTypes.contains record.txType then
              record :: f.acknowledged
            else f.acknowledged }
  | failed {record : VehicleRecord} {http : HttpRequest}
      {before after : List (VehicleRecord × HttpRequest)}
      (here : f.posting = before ++ (record, http) :: after) :
      Takes bridge setting f .fail { f with posting := before ++ after }

def Fleet.Permits (allowed : World → Move → Prop) (f : Fleet) : FleetTurn → Prop
  | .edge turn => f.edge.Permits allowed turn
  | .produce _ | .respond | .fail => True

def fleetSystem (bridge : Bridge) (setting : Setting) (allowed : World → Move → Prop) :
    System Fleet where
  starts f := (edgeSystem setting (Edge.Permits allowed)).starts f.edge ∧
    f.posting = [] ∧ f.acknowledged = []
  moves f f' := ∃ turn, f.Permits allowed turn ∧ f.Takes bridge setting turn f'

section

variable {bridge : Bridge} {setting : Setting} {allowed : World → Move → Prop} {f f' : Fleet}
  {e e' : Edge}

/-- The edge takes no notice of the bridge but for its requests. -/
theorem fleet_refines (bridge : Bridge) (setting : Setting) (allowed : World → Move → Prop) :
    (fleetSystem bridge setting allowed).Refines (edgeSystem setting (Edge.Permits allowed))
      Fleet.edge := by
  refine ⟨fun f begins => begins.1, fun f f' reach moved => ?_⟩
  obtain ⟨turn, may, taken⟩ := moved
  cases taken with
  | edge taken => exact .inr ⟨_, may, taken⟩
  | unfit | posted | responded | failed => exact .inl rfl

/-- Responses are not taken back. -/
theorem Edge.Takes.keeps_responses {turn : EdgeTurn} (taken : e.Takes setting turn e')
    {response : Visitor × Verdict} (given : response ∈ e.responses) : response ∈ e'.responses := by
  cases taken with
  | started | outside | managed | begun | entered | advanced | stopped => exact given
  | refused running handled =>
      rcases List.mem_append.mp given with answered | refused
      · exact List.mem_append_left _ answered
      · exact List.mem_append_right _ (List.mem_cons_of_mem _ refused)
  | answered here =>
      rcases List.mem_append.mp given with answered | refused
      · exact List.mem_append_left _ (List.mem_cons_of_mem _ answered)
      · exact List.mem_append_right _ refused

/-! ### What posts stand for -/

/-- The edge has accepted the post of the record. -/
def Fleet.Accepted (bridge : Bridge) (f : Fleet) (record : VehicleRecord) : Prop :=
  ∃ body parsing nowMs verdict, marshalEnvelope bridge.padding record = some body ∧
    (.receiver (bridge.request body) parsing nowMs, verdict) ∈ f.edge.responses ∧
    postSucceeds verdict.1.status = true

/-- Each post is that of its record, and records are acknowledged after the edge has accepted them. -/
structure Fleet.Orderly (bridge : Bridge) (f : Fleet) : Prop where
  posting : ∀ post ∈ f.posting, ∃ body, marshalEnvelope bridge.padding post.1 = some body ∧
    post.2 = bridge.request body
  acknowledged : ∀ record ∈ f.acknowledged,
    record.txType ∈ bridge.reliableAckTxTypes ∧ f.Accepted bridge record

theorem mem_of_mem_without {α : Type} {item other : α} {before after : List α}
    (inside : item ∈ before ++ after) : item ∈ before ++ other :: after := by
  rcases List.mem_append.mp inside with left | right
  · exact List.mem_append_left _ left
  · exact List.mem_append_right _ (List.mem_cons_of_mem _ right)

/-- Every turn keeps posts and acknowledgements in order. -/
theorem Fleet.Orderly.step (orderly : f.Orderly bridge) {turn : FleetTurn}
    (taken : f.Takes bridge setting turn f') : f'.Orderly bridge := by
  cases taken with
  | edge taken =>
      refine ⟨orderly.posting, fun record inside => ?_⟩
      obtain ⟨reliable, body, parsing, nowMs, verdict, marshalled, given, success⟩ :=
        orderly.acknowledged record inside
      exact ⟨reliable, body, parsing, nowMs, verdict, marshalled, taken.keeps_responses given, success⟩
  | unfit => exact orderly
  | posted marshalled =>
      refine ⟨fun post inside => ?_, orderly.acknowledged⟩
      rcases List.mem_cons.mp inside with rfl | inside
      · exact ⟨_, marshalled, rfl⟩
      · exact orderly.posting post inside
  | @responded record http before after parsing nowMs verdict here given =>
      have posting := orderly.posting
      rw [here] at posting
      refine ⟨fun post inside => posting post (mem_of_mem_without inside), fun other inside => ?_⟩
      split at inside
      · rename_i success
        rw [Bool.and_eq_true, List.contains_iff_mem] at success
        rcases List.mem_cons.mp inside with rfl | inside
        · obtain ⟨body, marshalled, same⟩ :=
            posting _ (List.mem_append_right _ List.mem_cons_self)
          simp only at marshalled same
          rw [same] at given
          exact ⟨success.2, body, parsing, nowMs, verdict, marshalled, given, success.1⟩
        · exact orderly.acknowledged other inside
      · exact orderly.acknowledged other inside
  | failed here =>
      have posting := orderly.posting
      rw [here] at posting
      exact ⟨fun post inside => posting post (mem_of_mem_without inside), orderly.acknowledged⟩

/-- They are in order in every fleet that is reached. -/
theorem Fleet.orderly (reach : (fleetSystem bridge setting allowed).Reachable f) :
    f.Orderly bridge := by
  apply reach.invariant (I := Fleet.Orderly bridge)
  · rintro f ⟨-, posting, acknowledged⟩
    refine ⟨?_, ?_⟩
    · rw [posting]
      exact fun _ none => absurd none List.not_mem_nil
    · rw [acknowledged]
      exact fun _ none => absurd none List.not_mem_nil
  · rintro f f' - orderly ⟨turn, -, taken⟩
    exact orderly.step taken

/-- A vehicle is told that its record has arrived only if the record, as it is, is in the custody of the
spool, and it stays there whatever bridge, edge and operators do. -/
theorem acknowledged_records_in_custody {key : EncryptionKey}
    (reach : (fleetSystem bridge setting (Limited key setting.host)).Reachable f)
    (distinct : DistinctNotices setting.host f.edge.world.Offered)
    (faithful : FaithfulIds setting.host f.edge.world.Offered) {record : VehicleRecord}
    (acknowledged : record ∈ f.acknowledged) :
    record.txType ∈ bridge.reliableAckTxTypes ∧
      ∃ envelope, record.Carries setting.host.codec envelope ∧ envelope.validate = .ok () ∧
        ∃ n stored, Admitted key f.edge.world.timeline n stored ∧
          stored.stableRecordId = some (envelope.stableRecordId setting.host) ∧
          f.edge.world.AnswersFor key setting.host n stored := by
  obtain ⟨reliable, body, parsing, nowMs, verdict, marshalled, given, success⟩ :=
    (Fleet.orderly reach).acknowledged record acknowledged
  have accepted : verdict.1.status.code < 400 := by
    have range := of_decide_eq_true success
    omega
  obtain ⟨envelope, parsed, n, stored, admitted, stable, -, answersFor⟩ :=
    Edge.custody_of_accepted ((fleet_refines bridge setting _).reachable reach) distinct faithful given
      accepted
  obtain ⟨carries, valid, -⟩ := (parseEnvelope_marshalled marshalled).mp parsed
  exact ⟨reliable, envelope, carries, valid, n, stored, admitted, stable, answersFor⟩

/-- The edge goes on while posts are under way. -/
theorem fleet_later_of_edge (later : (edgeSystem setting (Edge.Permits allowed)).Later e e')
    (posting : List (VehicleRecord × HttpRequest)) (acknowledged : List VehicleRecord) :
    (fleetSystem bridge setting allowed).Later ⟨e, posting, acknowledged⟩
      ⟨e', posting, acknowledged⟩ := by
  induction later with
  | refl => exact .refl
  | tail before moved ih =>
      obtain ⟨turn, may, taken⟩ := moved
      exact ih.tail ⟨.edge turn, may, .edge taken⟩

end

theorem sampleBridge_request : sampleBridge.request sampleBody = bearing sampleBearer.text sampleBody := by
  have authorization : Str.bytes "Bearer ".toList ++ Str.bytes sampleBearer.text =
      Str.bytes ("Bearer ".toList ++ sampleBearer.text) := by decide +kernel
  rw [Bridge.request, bearing, ← authorization]
  rfl

theorem acknowledged_records_in_custody_sampleRecord :
    ∃ (f : Fleet) (n : Nat) (stored : StoredRecord Str), sampleRecord ∈ f.acknowledged ∧
      f.edge.world.AnswersFor sampleKey (referenceHost integerCodec) n stored := by
  obtain ⟨e, e', reach, serving, apart, ⟨verdict, responded, accepted⟩, -⟩ := sampleVisits_reached
  obtain ⟨e₀, begins, later⟩ := (reach.later (Edge.Serving.later serving)).origin
  rw [← sampleBridge_request] at responded
  have success : (postSucceeds verdict.1.status &&
      sampleBridge.reliableAckTxTypes.contains sampleRecord.txType) = true := by
    rw [accepted]
    decide
  have began : (fleetSystem sampleBridge sampleSetting
      (Limited sampleKey (referenceHost integerCodec))).Reachable ⟨e₀, [], []⟩ :=
    .start ⟨begins, rfl, rfl⟩
  have posted := began.step ⟨.produce sampleRecord, trivial, .posted sampleRecord_marshalled⟩
  have served := posted.later (fleet_later_of_edge later _ _)
  have reached := served.step ⟨.respond, trivial, @Fleet.Takes.responded _ _ _ _ _ [] [] _ _ _ rfl
    responded⟩
  rw [if_pos success] at reached
  obtain ⟨-, envelope, -, -, n, stored, -, -, answersFor⟩ :=
    acknowledged_records_in_custody reached apart.distinctNotices apart.faithfulIds List.mem_cons_self
  exact ⟨_, n, stored, List.mem_cons_self, answersFor⟩

end TeslatlasEdge
