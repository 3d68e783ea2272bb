/-
Module: TeslatlasEdge.Services.Edge
Purpose: A running edge: visitors of the two services side by side over one spool, the credential
  store that operators change meanwhile, and the counters of the receiver.  As far as the spool is
  concerned an edge is calls side by side.
Trusted boundary: human-reviewed model of the process around the handlers
Main exports: Visitor, Pending, Edge, EdgeTurn, Edge.Takes, edgeSystem, Edge.Serving, Edge.toShared,
  edge_refines
-/
import TeslatlasEdge.Concurrency
import TeslatlasEdge.Services.Delivery
import TeslatlasEdge.Services.Receiver

namespace TeslatlasEdge

open Lib
open Credentials (TokenHost StoreDisk Invocation)

/-! ### Visitors -/

/-- The receiver with an envelope, or a Hub on one of the routes, with the readings of the clock that
the handler makes; the receiver meets other requests whose bodies are being parsed under a permit. -/
inductive Visitor where
  | receiver (http : HttpRequest) (parsing : Nat) (nowMs : I64)
  | hub (route : HubRoute) (http : HttpRequest) (authorizedAtMs nowMs : I64)

def Visitor.posts : Visitor → Bool
  | .receiver _ _ _ => true
  | .hub _ _ _ _ => false

/-- A visitor for whom the handler calls the spool. -/
structure Pending where
  visitor : Visitor
  request : Request
  respond : Except SpoolError Reply → Verdict

abbrev PendingCall := Thread Pending Label SpoolError Machine Reply

/-- What an edge is set up with. -/
structure Setting where
  host : Host
  tokens : TokenHost
  restarts : Nat

/-- An edge: its spool directory and process, the bearer and the counters of the process, the
credential file, the visitors whose handlers are about to call the spool or are in the call, and what
visitors have been answered (newest first). -/
structure Edge where
  world : World
  bearer : ReceiverBearer
  metrics : Metrics
  store : StoreDisk
  waiting : List Pending
  calls : List PendingCall
  answered : List (Pending × Except SpoolError Reply)
  refused : List (Visitor × Verdict)

namespace Edge

/-- The admissions that hold a permit for their call of the spool. -/
def busy (e : Edge) : Nat :=
  e.waiting.countP (·.visitor.posts) + e.calls.countP (·.asked.visitor.posts)

/-- The responses given. -/
def responses (e : Edge) : List (Visitor × Verdict) :=
  e.answered.map (fun done => (done.1.visitor, done.1.respond done.2)) ++ e.refused

end Edge

/-- What the handler for the visitor does. -/
def Setting.handle (setting : Setting) (e : Edge) : Visitor → Handling Verdict
  | .receiver http parsing nowMs =>
      postEnvelope setting.host e.bearer (e.busy + parsing) nowMs http
  | .hub route http authorizedAtMs nowMs =>
      (hubRequest setting.host setting.tokens e.store setting.restarts authorizedAtMs nowMs http
        route).map fun response => (response, none)

/-! ### Turns -/

inductive EdgeTurn where
  | start (move : Move) (bearer : ReceiverBearer)
  | outside (move : Move)
  | manage (invocation : Invocation)
  | visit (visitor : Visitor)
  | enter
  | advance (label : Label) (faults : Faults)
  | stop (label : Label) (faults : Faults)
  | answer

def Move.opens : Move → Bool
  | .openSpool _ _ _ => true
  | _ => false

inductive Edge.Takes (setting : Setting) (e : Edge) : EdgeTurn → Edge → Prop where
  | started {move : Move} {bearer : ReceiverBearer} {w : World} (closed : e.world.process = none)
      (opens : move.opens = true) (moved : Step e.world move w) :
      Takes setting e (.start move bearer)
        { e with world := w, bearer := bearer, metrics := .zero, waiting := [], calls := [] }
  | outside {move : Move} {w : World} (apart : ∀ request faults, move ≠ .call request faults)
      (open_ : move.opens = true → e.world.process ≠ none) (moved : Step e.world move w) :
      Takes setting e (.outside move)
        { e with
          world := w
          waiting := if w.process.isSome then e.waiting else []
          calls := if w.process.isSome then e.calls else [] }
  | managed {invocation : Invocation} :
      Takes setting e (.manage invocation)
        { e with store := invocation.after setting.tokens e.store }
  | refused {visitor : Visitor} {verdict : Verdict} (running : e.world.process ≠ none)
      (handled : setting.handle e visitor = .answer verdict) :
      Takes setting e (.visit visitor)
        { e with
          metrics := e.metrics.note verdict.2
          refused := (visitor, verdict) :: e.refused }
  | begun {visitor : Visitor} {request : Request} {respond : Except SpoolError Reply → Verdict}
      (running : e.world.process ≠ none)
      (handled : setting.handle e visitor = .call request respond) :
      Takes setting e (.visit visitor)
        { e with waiting := ⟨visitor, request, respond⟩ :: e.waiting }
  | entered {process : Process} {pending : Pending} {before after : List Pending}
      (running : e.world.process = some process)
      (here : e.waiting = before ++ pending :: after)
      (alone : pending.request.acknowledges = true →
        ∀ call ∈ e.calls, call.asked.request.acknowledges = false) :
      Takes setting e .enter
        { e with
          waiting := before ++ after
          calls := ⟨pending, pending.request.call process.inner⟩ :: e.calls }
  | advanced {label : Label} {faults : Faults} {process : Process} {asked : Pending}
      {act : Machine → Machine} {next : Machine → SpoolCall Reply} {before after : List PendingCall}
      (running : e.world.process = some process)
      (here : e.calls = before ++ ⟨asked, .step label act next⟩ :: after) :
      Takes setting e (.advance label faults)
        { e with
          world := e.world.perform process label act faults
          calls := before ++ ⟨asked, next (e.world.machine process faults)⟩ :: after }
  | stopped {label : Label} {faults : Faults} {process : Process} {asked : Pending}
      {act : Machine → Machine} {next : Machine → SpoolCall Reply} {before after : List PendingCall}
      {d : Disk} {older : List Disk} (running : e.world.process = some process)
      (here : e.calls = before ++ ⟨asked, .step label act next⟩ :: after)
      (stopped : StoppedAt e.world.timeline (act (e.world.machine process faults)) d older) :
      Takes setting e (.stop label faults)
        { e with
          world := ⟨d, older, label.events process.state.nextSpoolSequence ++ e.world.log, none⟩
          waiting := []
          calls := [] }
  | answered {asked : Pending} {result : Except SpoolError Reply} {before after : List PendingCall}
      (here : e.calls = before ++ ⟨asked, .done result⟩ :: after) :
      Takes setting e .answer
        { e with
          calls := before ++ after
          metrics := e.metrics.note (asked.respond result).2
          answered := (asked, result) :: e.answered }

/-- Moves of the spool directory are as allowed, and no admission takes over the identity of an entry
between the read of its file and its quarantine. -/
def Edge.Permits (allowed : World → Move → Prop) (e : Edge) : EdgeTurn → Prop
  | .start move _ | .outside move => allowed e.world move
  | .advance label _ | .stop label _ =>
      ∀ process, e.world.process = some process → Undisplaced process.state label
  | .manage _ | .visit _ | .enter | .answer => True

/-- An edge on a fresh directory, whatever bearer and credential file it begins with, that takes the
turns permitted. -/
def edgeSystem (setting : Setting) (permits : Edge → EdgeTurn → Prop) : System Edge where
  starts e := e.world = .fresh ∧ e.metrics = .zero ∧ e.waiting = [] ∧ e.calls = [] ∧
    e.answered = [] ∧ e.refused = []
  moves e e' := ∃ turn, permits e turn ∧ e.Takes setting turn e'

def EdgeTurn.begins : EdgeTurn → Bool
  | .start _ _ => true
  | _ => false

def EdgeTurn.visitor? : EdgeTurn → Option Visitor
  | .visit visitor => some visitor
  | _ => none

/-- The second edge comes after the first in the same process. -/
def Edge.Serving (setting : Setting) (permits : Edge → EdgeTurn → Prop) : Edge → Edge → Prop :=
  Relation.ReflTransGen fun e e' =>
    ∃ turn, turn.begins = false ∧ permits e turn ∧ e.Takes setting turn e'

/-- An edge that goes on serving is a later one. -/
theorem Edge.Serving.later {setting : Setting} {permits : Edge → EdgeTurn → Prop} {e e' : Edge}
    (serving : e.Serving setting permits e') : (edgeSystem setting permits).Later e e' := by
  induction serving with
  | refl => exact .refl
  | tail before moved ih =>
      obtain ⟨turn, -, may, taken⟩ := moved
      exact ih.tail ⟨turn, may, taken⟩

/-! ### What the spool sees of an edge -/

/-- The calls and answers without the visitors. -/
def Edge.toShared (e : Edge) : Shared :=
  { world := e.world
    calls := e.calls.map fun call => ⟨call.asked.request, call.rest⟩
    answers := e.answered.map fun done => (done.1.request, done.2) }

section

variable {setting : Setting} {permits : Edge → EdgeTurn → Prop} {e e' : Edge}

/-- Without a process there are no calls. -/
theorem Edge.idle (reach : (edgeSystem setting permits).Reachable e)
    (closed : e.world.process = none) : e.calls = [] := by
  induction reach with
  | start begins => exact begins.2.2.2.1
  | step before moved ih =>
      obtain ⟨turn, -, taken⟩ := moved
      cases taken with
      | started | stopped => rfl
      | outside apart open_ moved => exact if_neg (by rw [show _ = none from closed]; simp)
      | managed | refused | begun => exact ih closed
      | entered running => exact absurd (running.symm.trans closed) (Option.some_ne_none _)
      | advanced => cases closed
      | answered here =>
          have none := ih closed
          rw [here] at none
          exact absurd none (List.append_ne_nil_of_right_ne_nil _ (List.cons_ne_nil _ _))

/-- Each turn of an edge is a turn of its calls, or the spool does not notice it. -/
theorem edge_refines (setting : Setting) (allowed : World → Move → Prop) :
    (edgeSystem setting (Edge.Permits allowed)).Refines (sharedSystem allowed) Edge.toShared := by
  refine ⟨fun e begins => ?_, fun e e' reach moved => ?_⟩
  · obtain ⟨fresh, -, -, idle, unanswered, -⟩ := begins
    simp only [sharedSystem, Edge.toShared, fresh, idle, unanswered, List.map_nil]
  · obtain ⟨turn, may, taken⟩ := moved
    cases taken with
    | @started move bearer w closed opens moved =>
        right
        have apart : ∀ request faults, move ≠ .call request faults := fun request faults same => by
          rw [same] at opens
          cases opens
        have taken := @Shared.Takes.outside e.toShared move w apart moved
        have idle : e.toShared.calls = [] := by
          rw [Edge.toShared, Edge.idle reach closed, List.map_nil]
        rw [idle, ite_self] at taken
        exact ⟨.outside move, may, taken⟩
    | @outside move w apart open_ moved =>
        right
        have taken := @Shared.Takes.outside e.toShared move w apart moved
        refine ⟨.outside move, may, ?_⟩
        simp only [Edge.toShared, apply_ite (List.map _), List.map_nil] at taken ⊢
        exact taken
    | managed | refused | begun => exact .inl rfl
    | entered running here alone =>
        right
        refine ⟨.join _, trivial, .join running fun acknowledges call inside => ?_⟩
        obtain ⟨pending, there, rfl⟩ := List.mem_map.mp inside
        exact alone acknowledges pending there
    | @advanced label faults process asked act next before after running here =>
        right
        have split := congrArg (List.map fun call : PendingCall =>
          (⟨call.asked.request, call.rest⟩ : SpoolThread)) here
        rw [List.map_append, List.map_cons] at split
        have taken := @Shared.Takes.advance e.toShared label faults process _ _ _ _ _ running split
        refine ⟨.advance label faults, may, ?_⟩
        simp only [Edge.toShared, List.map_append, List.map_cons] at taken ⊢
        exact taken
    | @stopped label faults process asked act next before after d older running here stopped =>
        right
        have split := congrArg (List.map fun call : PendingCall =>
          (⟨call.asked.request, call.rest⟩ : SpoolThread)) here
        rw [List.map_append, List.map_cons] at split
        exact ⟨.stop label faults, may, .stop running split stopped⟩
    | @answered asked result before after here =>
        right
        have split := congrArg (List.map fun call : PendingCall =>
          (⟨call.asked.request, call.rest⟩ : SpoolThread)) here
        rw [List.map_append, List.map_cons] at split
        have taken := @Shared.Takes.answer e.toShared _ _ _ _ split
        refine ⟨.answer, trivial, ?_⟩
        simp only [Edge.toShared, List.map_append, List.map_cons] at taken ⊢
        exact taken

end

end TeslatlasEdge
