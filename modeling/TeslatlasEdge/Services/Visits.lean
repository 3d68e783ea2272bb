/-
Module: TeslatlasEdge.Services.Visits
Purpose: Runs of an edge that can be evaluated: a script of turns determines the edge it leads to, and
  that edge is reached by a run.
Trusted boundary: none
Main exports: EdgePick, Edge.pick, Edge.playAll, edge_reachable_of_playAll, serving_of_playAll,
  sampleVisits_reached
-/
import TeslatlasEdge.Credentials.Acceptance
import TeslatlasEdge.Services.Handlers

namespace TeslatlasEdge

open Lib
open Credentials (Invocation)

/-! ### Scripts -/

/-- The reading of the clock for the spool. -/
def Visitor.nowMs : Visitor → I64
  | .receiver _ _ nowMs => nowMs
  | .hub _ _ _ nowMs => nowMs

/-- A turn that names a visitor by the place in its list. -/
inductive EdgePick where
  | start (move : Move) (bearer : ReceiverBearer)
  | manage (invocation : Invocation)
  | visit (visitor : Visitor)
  | enter (place : Nat)
  | advance (place : Nat)
  | answer (place : Nat)

def EdgePick.begins : EdgePick → Bool
  | .start _ _ => true
  | _ => false

def EdgePick.visitor? : EdgePick → Option Visitor
  | .visit visitor => some visitor
  | _ => none

/-- The edge after the turn, if it can be taken; no quarantine is picked, and nothing fails. -/
def Edge.pick (setting : Setting) (e : Edge) : EdgePick → Option Edge
  | .start move bearer =>
      if e.world.process.isSome || ! move.opens then none
      else (e.world.act move).map fun w =>
        { e with world := w, bearer := bearer, metrics := .zero, waiting := [], calls := [] }
  | .manage invocation => some { e with store := invocation.after setting.tokens e.store }
  | .visit visitor =>
      if e.world.process.isNone then none
      else
        match setting.handle e visitor with
        | .answer verdict => some
            { e with
              metrics := e.metrics.note verdict.2
              refused := (visitor, verdict) :: e.refused }
        | .call request respond => some
            { e with waiting := ⟨visitor, request, respond⟩ :: e.waiting }
  | .enter place =>
      match e.world.process, e.waiting[place]? with
      | some process, some pending =>
          if pending.request.acknowledges && e.calls.any (·.asked.request.acknowledges) then none
          else some
            { e with
              waiting := e.waiting.take place ++ e.waiting.drop (place + 1)
              calls := ⟨pending, pending.request.call process.inner⟩ :: e.calls }
      | _, _ => none
  | .advance place =>
      match e.world.process, e.calls[place]? with
      | some process, some ⟨asked, .step label act next⟩ =>
          if label.isQuarantine then none
          else some
            { e with
              world := e.world.perform process label act .none
              calls := e.calls.take place ++
                ⟨asked, next (e.world.machine process .none)⟩ :: e.calls.drop (place + 1) }
      | _, _ => none
  | .answer place =>
      match e.calls[place]? with
      | some ⟨asked, .done result⟩ => some
          { e with
            calls := e.calls.take place ++ e.calls.drop (place + 1)
            metrics := e.metrics.note (asked.respond result).2
            answered := (asked, result) :: e.answered }
      | _ => none

def Edge.playAll (setting : Setting) (e : Edge) : List EdgePick → Option Edge
  | [] => some e
  | pick :: rest => (e.pick setting pick).bind fun next => next.playAll setting rest

section

variable {setting : Setting} {allowed : World → Move → Prop} {e e' : Edge}

theorem Edge.started_of_pick {move : Move} {bearer : ReceiverBearer}
    (picked : e.pick setting (.start move bearer) = some e') :
    e.Takes setting (.start move bearer) e' := by
  simp only [Edge.pick] at picked
  split at picked
  · cases picked
  · rename_i closed
    rw [Bool.or_eq_true, not_or, Bool.not_eq_true, Bool.not_eq_true, Option.isSome_eq_false_iff,
      Option.isNone_iff_eq_none, Bool.not_eq_false'] at closed
    obtain ⟨w, acted, rfl⟩ := Option.map_eq_some_iff.mp picked
    exact .started closed.1 closed.2 (World.step_of_act acted)

/-- What a pick computes is a turn. -/
theorem Edge.taken_of_pick {pick : EdgePick} (picked : e.pick setting pick = some e')
    (may : ∀ w move bearer, pick = .start move bearer → allowed w move) :
    ∃ turn, (turn.begins = pick.begins ∧ turn.visitor? = pick.visitor?) ∧
      e.Permits allowed turn ∧ e.Takes setting turn e' := by
  cases pick with
  | start move bearer =>
      exact ⟨.start move bearer, ⟨rfl, rfl⟩, may _ move bearer rfl, Edge.started_of_pick picked⟩
  | manage invocation =>
      obtain rfl := Option.some.inj picked
      exact ⟨.manage invocation, ⟨rfl, rfl⟩, trivial, .managed⟩
  | visit visitor =>
      simp only [Edge.pick] at picked
      split at picked
      · cases picked
      · rename_i running
        rw [Option.isNone_iff_eq_none] at running
        split at picked
        · rename_i handled
          obtain rfl := Option.some.inj picked
          exact ⟨.visit visitor, ⟨rfl, rfl⟩, trivial, .refused running handled⟩
        · rename_i handled
          obtain rfl := Option.some.inj picked
          exact ⟨.visit visitor, ⟨rfl, rfl⟩, trivial, .begun running handled⟩
  | enter place =>
      simp only [Edge.pick] at picked
      split at picked
      · rename_i process pending running there
        split at picked
        · cases picked
        · rename_i alone
          obtain rfl := Option.some.inj picked
          refine ⟨.enter, ⟨rfl, rfl⟩, trivial,
            .entered running (split_at there) fun acknowledges call inside => ?_⟩
          rw [acknowledges, Bool.true_and, Bool.not_eq_true, List.any_eq_false] at alone
          exact Bool.eq_false_iff.mpr (alone call inside)
      · cases picked
  | advance place =>
      simp only [Edge.pick] at picked
      split at picked
      · rename_i process asked label act next running there
        split at picked
        · cases picked
        · rename_i harmless
          obtain rfl := Option.some.inj picked
          exact ⟨.advance label .none, ⟨rfl, rfl⟩,
            fun process _ => undisplaced_of_harmless process.state harmless,
            .advanced running (split_at there)⟩
      · cases picked
  | answer place =>
      simp only [Edge.pick] at picked
      split at picked
      · rename_i asked result there
        obtain rfl := Option.some.inj picked
        exact ⟨.answer, ⟨rfl, rfl⟩, trivial, .answered (split_at there)⟩
      · cases picked

/-- A script of picks reaches where it ends. -/
theorem edge_reachable_of_playAll {picks : List EdgePick}
    (before : (edgeSystem setting (Edge.Permits allowed)).Reachable e)
    (may : ∀ w move bearer, .start move bearer ∈ picks → allowed w move)
    (played : e.playAll setting picks = some e') :
    (edgeSystem setting (Edge.Permits allowed)).Reachable e' := by
  induction picks generalizing e with
  | nil =>
      obtain rfl := Option.some.inj played
      exact before
  | cons pick rest ih =>
      obtain ⟨next, picked, played⟩ := Option.bind_eq_some_iff.mp played
      obtain ⟨turn, -, taken⟩ := Edge.taken_of_pick picked fun w move bearer same =>
        may w move bearer (by rw [same]; exact List.mem_cons_self)
      exact ih (before.step ⟨turn, taken⟩)
        (fun w move bearer inside => may w move bearer (List.mem_cons_of_mem _ inside)) played

/-- A script that starts nothing stays in the process. -/
theorem serving_of_playAll {picks : List EdgePick} (stays : ∀ pick ∈ picks, pick.begins = false)
    (played : e.playAll setting picks = some e') : e.Serving setting (Edge.Permits allowed) e' := by
  induction picks generalizing e with
  | nil =>
      obtain rfl := Option.some.inj played
      exact .refl
  | cons pick rest ih =>
      obtain ⟨next, picked, played⟩ := Option.bind_eq_some_iff.mp played
      have goes := stays pick List.mem_cons_self
      obtain ⟨turn, ⟨same, -⟩, taken⟩ := @Edge.taken_of_pick _ allowed _ _ _ picked
        fun w move bearer starts => by
          rw [starts] at goes
          cases goes
      exact .head ⟨turn, same.trans goes, taken⟩
        (ih (fun other inside => stays other (List.mem_cons_of_mem _ inside)) played)

/-- Scripts are played one after the other. -/
theorem Edge.playAll_append {first rest : List EdgePick} :
    e.playAll setting (first ++ rest) =
      (e.playAll setting first).bind fun next => next.playAll setting rest := by
  induction first generalizing e with
  | nil => rfl
  | cons pick first ih =>
      rw [List.cons_append, Edge.playAll, Edge.playAll, Option.bind_assoc]
      exact congrArg _ (funext fun next => ih)

/-- Everyone who is or has been dealt with. -/
def Edge.visitors (e : Edge) : List Visitor :=
  e.waiting.map (·.visitor) ++ e.calls.map (·.asked.visitor) ++ e.responses.map (·.1)

/-- A turn brings in nobody but the visitor it names. -/
theorem Edge.Takes.visitors {turn : EdgeTurn} (taken : e.Takes setting turn e') {visitor : Visitor}
    (here : visitor ∈ e'.visitors) : visitor ∈ e.visitors ∨ turn.visitor? = some visitor := by
  have parts : ∀ e : Edge, visitor ∈ e.visitors ↔ visitor ∈ e.waiting.map (·.visitor) ∨
      visitor ∈ e.calls.map (·.asked.visitor) ∨ visitor ∈ e.answered.map (·.1.visitor) ∨
      visitor ∈ e.refused.map (·.1) := fun e => by
    simp only [Edge.visitors, Edge.responses, List.map_append, List.map_map, Function.comp_def,
      List.mem_append, or_assoc]
  rw [parts] at here ⊢
  cases taken with
  | started | stopped =>
      rcases here with none | none | given
      · exact absurd none List.not_mem_nil
      · exact absurd none List.not_mem_nil
      · exact .inl (.inr (.inr given))
  | outside apart open_ moved =>
      rcases here with waiting | calling | given
      · split at waiting
        · exact .inl (.inl waiting)
        · exact absurd waiting List.not_mem_nil
      · split at calling
        · exact .inl (.inr (.inl calling))
        · exact absurd calling List.not_mem_nil
      · exact .inl (.inr (.inr given))
  | managed => exact .inl here
  | refused running handled =>
      simp only [List.map_cons, List.mem_cons] at here
      rcases here with waiting | calling | answered | rfl | refused
      · exact .inl (.inl waiting)
      · exact .inl (.inr (.inl calling))
      · exact .inl (.inr (.inr (.inl answered)))
      · exact .inr rfl
      · exact .inl (.inr (.inr (.inr refused)))
  | begun running handled =>
      simp only [List.map_cons, List.mem_cons] at here
      rcases here with (rfl | waiting) | others
      · exact .inr rfl
      · exact .inl (.inl waiting)
      · exact .inl (.inr others)
  | entered running here' alone =>
      simp only [here', List.map_append, List.map_cons, List.mem_append, List.mem_cons] at here ⊢
      tauto
  | advanced running here' =>
      simp only [here', List.map_append, List.map_cons, List.mem_append, List.mem_cons] at here ⊢
      exact .inl here
  | answered here' =>
      simp only [here', List.map_append, List.map_cons, List.mem_append, List.mem_cons] at here ⊢
      tauto

/-- Every visitor of an edge that a script leads to comes in the script. -/
theorem visitors_of_playAll {picks : List EdgePick} (played : e.playAll setting picks = some e')
    {visitor : Visitor} (here : visitor ∈ e'.visitors) :
    visitor ∈ e.visitors ∨ .visit visitor ∈ picks := by
  induction picks generalizing e with
  | nil =>
      obtain rfl := Option.some.inj played
      exact .inl here
  | cons pick rest ih =>
      obtain ⟨next, picked, played⟩ := Option.bind_eq_some_iff.mp played
      obtain ⟨turn, ⟨-, same⟩, -, taken⟩ := @Edge.taken_of_pick setting (fun _ _ => True) e next pick
        picked fun _ _ _ _ => trivial
      rcases ih played with before | later
      · rcases taken.visitors before with earlier | visits
        · exact .inl earlier
        · rw [same] at visits
          cases pick with
          | visit other =>
              obtain rfl := Option.some.inj visits
              exact .inr List.mem_cons_self
          | start | manage | enter | advance | answer => cases visits
      · exact .inr (List.mem_cons_of_mem _ later)

end

/-! ### One visit of each kind -/

/-- An edge whose Hubs build batches of up to two scans. -/
def sampleSetting : Setting :=
  { host := referenceHost integerCodec
    tokens := Credentials.referenceTokenHost
    restarts := 2 }

def sampleReceiverSecret : Credentials.Secret := ⟨List.replicate 32 9, rfl⟩

def sampleReceiverToken : Str :=
  Credentials.referenceTokenHost.encodeSecret sampleReceiverSecret.val

theorem sampleReceiverToken_valid : boundedVisibleAscii sampleReceiverToken 16 4096 = true := by
  decide +kernel

def sampleBearer : ReceiverBearer := ⟨sampleReceiverToken, sampleReceiverToken_valid⟩

def sampleEdge : Edge := ⟨.fresh, sampleBearer, .zero, Credentials.emptyStore, [], [], [], []⟩

/-- The sample edge is reached by starting it. -/
theorem sampleEdge_reachable {permits : Edge → EdgeTurn → Prop} :
    (edgeSystem sampleSetting permits).Reachable sampleEdge := .start ⟨rfl, rfl, rfl, rfl, rfl, rfl⟩

def bearing (token : Str) (body : Body) : HttpRequest :=
  ⟨some (Str.bytes ("Bearer ".toList ++ token)), body⟩

/-- The body of the sample envelope. -/
def sampleBody : Body :=
  .document (.obj [("version".toList, .int 1), ("vin".toList, .str "5YJ3E1EA7KF000001".toList),
    ("txid".toList, .str "a".toList), ("tx_type".toList, .str "vehicle_data".toList),
    ("received_at_ms".toList, .int 1800000000000), ("timestamp_ms".toList, .int 1800000000000),
    ("payload".toList, .obj [])]) 0

/-- A Hub is enrolled when the edge starts. -/
def sampleStart : List EdgePick :=
  [.start (.openSpool (sampleInner 4) (sampleTime 0) .none) sampleBearer,
    .manage ⟨.enrol "home-hub".toList (sampleTime 0) (Credentials.sampleSpan 120000),
      Credentials.sampleDraw 1, .completes⟩]

/-- The token the Hub is given. -/
def sampleToken : Str :=
  (Credentials.issue Credentials.referenceTokenHost (Credentials.sampleDraw 1) "home-hub".toList none
    (sampleTime 0) (Credentials.sampleSpan 120000)).issued.token

theorem sampleToken_parse :
    Credentials.ParsedToken.parse sampleSetting.tokens sampleToken =
      some ⟨Credentials.sampleUuid 1, (Credentials.sampleDraw 1).secret⟩ :=
  Credentials.parse_issued Credentials.referenceTokenHost_lawful _ _ _ _

/-- The receiver posts an envelope and is answered; the Hub, which came in the meantime, pulls a
batch; a receiver without a bearer is sent away. -/
def sampleVisits : List EdgePick :=
  [.visit (.receiver (bearing sampleBearer.text sampleBody) 0 (sampleTime 1)),
    .visit (.hub .nextBatchV2 (bearing sampleToken (.malformed 0)) (sampleTime 2) (sampleTime 2)),
    .enter 1, .advance 0, .advance 0, .answer 0,
    .enter 0, .advance 0, .advance 0, .advance 0, .advance 0, .answer 0,
    .visit (.receiver ⟨none, sampleBody⟩ 0 (sampleTime 3))]

theorem sampleStart_limited (w : World) (move : Move) (bearer : ReceiverBearer)
    (inside : .start move bearer ∈ sampleStart ++ sampleVisits) :
    Limited sampleKey (referenceHost integerCodec) w move := by
  simp only [sampleStart, sampleVisits, List.cons_append, List.nil_append, List.mem_cons,
    EdgePick.start.injEq, reduceCtorEq, List.not_mem_nil, or_false] at inside
  rw [inside.1]
  exact ⟨rfl, rfl, sampleInner_withinLimits (by decide)⟩

theorem sampleVisits_stay : ∀ pick ∈ sampleVisits, pick.begins = false := by
  simp only [sampleVisits, List.mem_cons, List.not_mem_nil, or_false, forall_eq_or_imp, forall_eq]
  exact ⟨rfl, rfl, rfl, rfl, rfl, rfl, rfl, rfl, rfl, rfl, rfl, rfl, rfl⟩

/-- The sample visits play to their end. -/
theorem sampleVisits_play :
    (sampleEdge.playAll sampleSetting (sampleStart ++ sampleVisits)).any (fun e =>
      decide (e.world.TellsApart (referenceHost integerCodec)) &&
        e.responses.any (fun response =>
          response.1.posts && decide (response.1.nowMs = sampleTime 1) &&
            decide (response.2.1.status = .noContent)) &&
        e.responses.any (fun response =>
          ! response.1.posts && decide (response.2.1.status = .ok)) &&
        e.world.process.any fun process => decide ((readiness (snapshot process.inner process.state
          process.storageWriteFailed (sampleTime 4))).status = .ok)) = true := by
  decide +kernel

/-- The edge serves the receiver and the Hub, and is ready then. -/
theorem sampleVisits_reached :
    ∃ e e', (edgeSystem sampleSetting
        (Edge.Permits (Limited sampleKey (referenceHost integerCodec)))).Reachable e ∧
      e.Serving sampleSetting (Edge.Permits (Limited sampleKey (referenceHost integerCodec))) e' ∧
      e'.world.TellsApart (referenceHost integerCodec) ∧
      (∃ verdict, (.receiver (bearing sampleBearer.text sampleBody) 0 (sampleTime 1), verdict) ∈
        e'.responses ∧ verdict.1.status = .noContent) ∧
      (∃ visitor verdict, (visitor, verdict) ∈ e'.responses ∧ visitor.posts = false ∧
        verdict.1.status = .ok) ∧
      ∃ process, e'.world.process = some process ∧ (readiness (snapshot process.inner process.state
        process.storageWriteFailed (sampleTime 4))).status = .ok := by
  obtain ⟨e', played, shows⟩ := (Option.any_eq_true _ _).mp sampleVisits_play
  simp only [Bool.and_eq_true, decide_eq_true_eq, List.any_eq_true, Bool.not_eq_true'] at shows
  obtain ⟨⟨⟨apart, ⟨visitor, verdict⟩, posted, ⟨posts, early⟩, accepted⟩, ⟨hub, batch⟩, pulled, pulls,
    served⟩, checked⟩ := shows
  obtain ⟨process, running, ready⟩ := (Option.any_eq_true _ _).mp checked
  have visits := visitors_of_playAll played (List.mem_append_right _ (List.mem_map_of_mem posted))
  rw [Edge.playAll_append] at played
  obtain ⟨e, started, visited⟩ := Option.bind_eq_some_iff.mp played
  refine ⟨e, e', edge_reachable_of_playAll sampleEdge_reachable (fun w move bearer inside => ?_)
    started, serving_of_playAll sampleVisits_stay visited, apart, ⟨verdict, ?_, accepted⟩,
    ⟨hub, batch, pulled, pulls, served⟩, process, running, of_decide_eq_true ready⟩
  · exact sampleStart_limited w move bearer (List.mem_append_left _ inside)
  · rcases visits with before | named
    · exact absurd before List.not_mem_nil
    · simp only [sampleStart, sampleVisits, List.cons_append, List.nil_append, List.mem_cons,
        EdgePick.visit.injEq, reduceCtorEq, List.not_mem_nil, or_false, false_or] at named
      rcases named with rfl | rfl | rfl
      · exact posted
      · cases posts
      · exact absurd (show sampleTime 3 = sampleTime 1 from early) (by decide)

end TeslatlasEdge
