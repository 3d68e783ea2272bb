/-
Module: TeslatlasEdge.Runs
Purpose: Whole runs of a spool directory.  A process opens the spool, serves calls one at a time and
  goes away; it may stop between any two file operations, file operations may fail, and the contents
  of pending files, and of receipts while no process runs, may be damaged from outside.
Trusted boundary: human-reviewed model of the environment
Main exports: Request, Reply, Request.call, Event, Process, World, Move, Step, Reach,
  Reach.invariant
-/
import TeslatlasEdge.Spool.Recover

namespace TeslatlasEdge

open Lib (OrdMap Call finalState answer)

/-! ### Calls as requests and replies -/

inductive Request where
  | enqueue (envelope : Envelope) (admittedAtMs : I64)
  | nextBatch (nowMs : I64)
  | nextBatchV2 (restarts : Nat) (nowMs : I64)
  | acknowledge (ack : HubAckV1)
  | acknowledgeV2 (restarts : Nat) (ack : HubAckV2)
  | expireDue (nowMs : I64)

inductive Reply where
  | enqueued (outcome : EnqueueOutcome)
  | batch (delivered : HubBatchV1)
  | batchV2 (delivered : HubBatchV2)
  | acknowledged (result : HubAckResultV1)
  | acknowledgedV2 (result : HubAckResultV2)
  | expired (count : Nat)

def Request.call (inner : Inner) : Request → SpoolCall Reply
  | .enqueue envelope admittedAtMs => do
      let outcome ← TeslatlasEdge.enqueue inner envelope admittedAtMs
      return .enqueued outcome
  | .nextBatch nowMs => do
      let delivered ← TeslatlasEdge.nextBatch inner nowMs
      return .batch delivered
  | .nextBatchV2 restarts nowMs => do
      let delivered ← TeslatlasEdge.nextBatchV2 inner restarts nowMs
      return .batchV2 delivered
  | .acknowledge ack => do
      let result ← TeslatlasEdge.acknowledge inner ack
      return .acknowledged result
  | .acknowledgeV2 restarts ack => do
      let result ← TeslatlasEdge.acknowledgeV2 inner restarts ack
      return .acknowledgedV2 result
  | .expireDue nowMs => do
      let count ← TeslatlasEdge.expireDue inner nowMs
      return .expired count

/-! ### Worlds -/

/-- A call that was made: the next sequence when it began, and its answer unless the process stopped
before it returned. -/
structure Event where
  spoolSeq : Nat
  request : Request
  reply : Option (Except SpoolError Reply)

/-- A running process. -/
structure Process where
  inner : Inner
  state : State
  storageWriteFailed : Bool

/-- A spool directory in time: its files now, the disks it went through before (newest first), the
calls made so far (newest first), and the process that holds it. -/
structure World where
  disk : Disk
  past : List Disk
  log : List Event
  process : Option Process

namespace World

def fresh : World := { disk := .fresh, past := [], log := [], process := none }

/-- Every disk up to now, newest first. -/
def timeline (w : World) : List Disk := w.disk :: w.past

/-- The machine a call of the running process starts on. -/
def machine (w : World) (process : Process) (faults : Faults) : Machine :=
  { state := process.state
    disk := w.disk
    history := w.past
    storageWriteFailed := process.storageWriteFailed
    faults := faults }

/-- The machine `open` starts on. -/
def opening (w : World) (faults : Faults) : Machine :=
  { state := .initial, disk := w.disk, history := w.past, storageWriteFailed := false
    faults := faults }

/-- A running process serves a request. -/
def serve (w : World) (process : Process) (request : Request) (faults : Faults) :
    EStateM.Result SpoolError Machine Reply :=
  (request.call process.inner).run (w.machine process faults)

end World

namespace Machine

/-- Every disk up to now, newest first. -/
def timeline (m : Machine) : List Disk := m.disk :: m.history

/-- The world in which the process goes on from this machine. -/
def running (m : Machine) (inner : Inner) (log : List Event) : World :=
  { disk := m.disk, past := m.history, log := log
    process := some ⟨inner, m.state, m.storageWriteFailed⟩ }

/-- The world in which the process is gone and this machine's disk is left. -/
def stopped (m : Machine) (log : List Event) : World :=
  { disk := m.disk, past := m.history, log := log, process := none }

end Machine

/-- Two disks that hold the same files; directories may list them in another order. -/
structure SameFiles (d e : Disk) : Prop where
  format : d.format = e.format
  sequence : d.sequence = e.sequence
  pending : d.pending.entries.Perm e.pending.entries
  gaps : d.gaps.entries.Perm e.gaps.entries
  receipts : d.receipts.entries.Perm e.receipts.entries
  quarantine : d.quarantine.Perm e.quarantine
  tmp : d.tmp.Perm e.tmp

/-! ### Steps -/

/-- What happens to a spool directory next. -/
inductive Move where
  | openSpool (inner : Inner) (nowMs : I64) (faults : Faults)
  | call (request : Request) (faults : Faults)
  | drop
  | damage (name : Str) (body : Blob)
  | damageReceipt (name : Str) (body : Blob)
  | relist

/-- The process stopped on disk `d`, somewhere between the start of a computation and the machine
`after` it would have ended in. -/
structure StoppedAt (start : List Disk) (after : Machine) (d : Disk) (older : List Disk) :
    Prop where
  reached : d :: older <:+ after.timeline
  started : start <:+ d :: older

inductive Step (w : World) : Move → World → Prop where
  | opened {inner : Inner} {nowMs : I64} {faults : Faults} {after : Machine}
      (closed : w.process = none)
      (ran : openSpool inner false nowMs (w.opening faults) = .ok () after) :
      Step w (.openSpool inner nowMs faults) (after.running inner w.log)
  | openFailed {inner : Inner} {nowMs : I64} {faults : Faults} {error : SpoolError}
      {after : Machine} (closed : w.process = none)
      (ran : openSpool inner false nowMs (w.opening faults) = .error error after) :
      Step w (.openSpool inner nowMs faults) (after.stopped w.log)
  | openStopped {inner : Inner} {nowMs : I64} {faults : Faults} {d : Disk} {older : List Disk}
      (closed : w.process = none)
      (stopped : StoppedAt w.timeline
        (finalState (openSpool inner false nowMs (w.opening faults))) d older) :
      Step w (.openSpool inner nowMs faults)
        { disk := d, past := older, log := w.log, process := none }
  | openRefused {inner : Inner} {nowMs : I64} {faults : Faults} {process : Process}
      {error : SpoolError} {after : Machine} (running : w.process = some process)
      (ran : openSpool inner true nowMs (w.opening faults) = .error error after) :
      Step w (.openSpool inner nowMs faults) { w with disk := after.disk, past := after.history }
  | returned {request : Request} {faults : Faults} {process : Process}
      (running : w.process = some process) :
      Step w (.call request faults)
        ((finalState (w.serve process request faults)).running process.inner
          (⟨process.state.nextSpoolSequence, request,
            some (answer (w.serve process request faults))⟩ :: w.log))
  | callStopped {request : Request} {faults : Faults} {process : Process} {d : Disk}
      {older : List Disk} (running : w.process = some process)
      (stopped : StoppedAt w.timeline (finalState (w.serve process request faults)) d older) :
      Step w (.call request faults)
        { disk := d, past := older
          log := ⟨process.state.nextSpoolSequence, request, none⟩ :: w.log
          process := none }
  | dropped {process : Process} (running : w.process = some process) :
      Step w .drop { w with process := none }
  | damaged {name : Str} {body old : Blob} (present : w.disk.pending.lookup name = some old) :
      Step w (.damage name body)
        { w with
          disk := { w.disk with pending := w.disk.pending.insert name body }
          past := w.disk :: w.past }
  | receiptDamaged {name : Str} {body old : Blob} (closed : w.process = none)
      (present : w.disk.receipts.lookup name = some old) :
      Step w (.damageReceipt name body)
        { w with
          disk := { w.disk with receipts := w.disk.receipts.insert name body }
          past := w.disk :: w.past }
  | relisted {d : Disk} (same : SameFiles w.disk d) :
      Step w .relist { w with disk := d }

/-- The worlds that allowed moves lead to from a fresh directory. -/
inductive Reach (allowed : World → Move → Prop) : World → Prop where
  | start : Reach allowed .fresh
  | step {w w' : World} {move : Move} (before : Reach allowed w) (may : allowed w move)
      (moved : Step w move w') : Reach allowed w'

/-- What is reached by permitted moves is reached when more is permitted. -/
theorem Reach.mono {allowed permitted : World → Move → Prop}
    (weaker : ∀ w move, allowed w move → permitted w move) {w : World} (reach : Reach allowed w) :
    Reach permitted w := by
  induction reach with
  | start => exact .start
  | step _ may moved ih => exact .step ih (weaker _ _ may) moved

/-- What holds of a fresh directory and is kept by every allowed move holds in every run. -/
theorem Reach.invariant {allowed : World → Move → Prop} {I : World → Prop} (start : I .fresh)
    (keeps : ∀ w move w', Reach allowed w → I w → allowed w move → Step w move w' → I w')
    {w : World} (reach : Reach allowed w) : I w := by
  induction reach with
  | start => exact start
  | step before may moved ih => exact keeps _ _ _ before ih may moved

end TeslatlasEdge
