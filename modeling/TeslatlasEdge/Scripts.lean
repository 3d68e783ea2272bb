/-
Module: TeslatlasEdge.Scripts
Purpose: Runs that can be evaluated: a script of moves determines the world it leads to from a fresh
  directory, and that world is reached by a run.
Trusted boundary: none
Main exports: World.act, World.play, reach_of_play, Player, World.follow, reach_of_follow,
  World.followWhile, acknowledgeAll, damageSequence, sampleInner, reopenedSpool
-/
import TeslatlasEdge.Reference
import TeslatlasEdge.Runs

namespace TeslatlasEdge

open Lib

/-- The world after a move that is carried through, if the move can be made. -/
def World.act (w : World) : Move → Option World
  | .openSpool inner nowMs faults =>
      match w.process with
      | some _ => none
      | none =>
          match openSpool inner false nowMs (w.opening faults) with
          | .ok () after => some (after.running inner w.log)
          | .error _ after => some (after.stopped w.log)
  | .call request faults =>
      match w.process with
      | none => none
      | some process =>
          let result := w.serve process request faults
          some ((finalState result).running process.inner
            (⟨process.state.nextSpoolSequence, request, some (answer result)⟩ :: w.log))
  | .drop => w.process.map fun _ => { w with process := none }
  | .damage name body =>
      (w.disk.pending.lookup name).map fun _ =>
        { w with
          disk := { w.disk with pending := w.disk.pending.insert name body }
          past := w.disk :: w.past }
  | .damageReceipt name body =>
      match w.process with
      | some _ => none
      | none =>
          (w.disk.receipts.lookup name).map fun _ =>
            { w with
              disk := { w.disk with receipts := w.disk.receipts.insert name body }
              past := w.disk :: w.past }
  | .relist => some w

/-- What `act` computes is a step. -/
theorem World.step_of_act {w w' : World} {move : Move} (acted : w.act move = some w') :
    Step w move w' := by
  cases move with
  | openSpool inner nowMs faults =>
      simp only [World.act] at acted
      split at acted
      · cases acted
      · rename_i closed
        split at acted
        · rename_i ran
          obtain rfl := Option.some.inj acted
          exact .opened closed ran
        · rename_i ran
          obtain rfl := Option.some.inj acted
          exact .openFailed closed ran
  | call request faults =>
      simp only [World.act] at acted
      split at acted
      · cases acted
      · rename_i running
        obtain rfl := Option.some.inj acted
        exact .returned running
  | drop =>
      obtain ⟨process, running, rfl⟩ := Option.map_eq_some_iff.mp acted
      exact .dropped running
  | damage name body =>
      obtain ⟨old, present, rfl⟩ := Option.map_eq_some_iff.mp acted
      exact .damaged present
  | damageReceipt name body =>
      simp only [World.act] at acted
      split at acted
      · cases acted
      · rename_i closed
        obtain ⟨old, present, rfl⟩ := Option.map_eq_some_iff.mp acted
        exact .receiptDamaged closed present
  | relist =>
      obtain rfl := Option.some.inj acted
      exact .relisted ⟨rfl, rfl, .refl _, .refl _, .refl _, .refl _, .refl _⟩

/-- The world a script leads to. -/
def World.play (w : World) : List Move → Option World
  | [] => some w
  | move :: rest => (w.act move).bind fun next => next.play rest

/-- A script of permitted moves reaches where it ends. -/
theorem World.reach_of_play {allowed : World → Move → Prop} {moves : List Move} {w w' : World}
    (before : Reach allowed w) (may : ∀ w, ∀ move ∈ moves, allowed w move)
    (played : w.play moves = some w') : Reach allowed w' := by
  induction moves generalizing w with
  | nil =>
      obtain rfl := Option.some.inj played
      exact before
  | cons move rest ih =>
      obtain ⟨next, acted, played⟩ := Option.bind_eq_some_iff.mp played
      exact ih (.step before (may w move (by simp)) (World.step_of_act acted))
        (fun w other inside => may w other (by simp [inside])) played

/-- Every call of a world a script leads to is a move of the script. -/
theorem World.call_of_play {moves : List Move} {w w' : World} (played : w.play moves = some w') :
    ∀ event ∈ w'.log, event ∈ w.log ∨ ∃ faults, .call event.request faults ∈ moves := by
  induction moves generalizing w with
  | nil =>
      obtain rfl := Option.some.inj played
      exact fun event inside => .inl inside
  | cons move rest ih =>
      intro event inside
      obtain ⟨next, acted, played⟩ := Option.bind_eq_some_iff.mp played
      rcases ih played event inside with before | ⟨faults, later⟩
      · cases World.step_of_act acted with
        | opened | openFailed | openStopped | openRefused | dropped | damaged | receiptDamaged
        | relisted => exact .inl before
        | returned | callStopped =>
            rcases List.mem_cons.mp before with rfl | before
            · exact .inr ⟨_, List.mem_cons_self⟩
            · exact .inl before
      · exact .inr ⟨faults, List.mem_cons_of_mem _ later⟩

/-- The moves of a script may depend on what has happened so far, as a Hub's do. -/
abbrev Player := World → Option Move

/-- The world players lead to. -/
def World.follow (w : World) : List Player → Option World
  | [] => some w
  | player :: rest => ((player w).bind w.act).bind fun next => next.follow rest

/-- A script whose moves are chosen on the way reaches where it ends. -/
theorem World.reach_of_follow {allowed : World → Move → Prop} {players : List Player}
    {w w' : World} (before : Reach allowed w)
    (may : ∀ player ∈ players, ∀ w move, player w = some move → allowed w move)
    (followed : w.follow players = some w') : Reach allowed w' := by
  induction players generalizing w with
  | nil =>
      obtain rfl := Option.some.inj followed
      exact before
  | cons player rest ih =>
      obtain ⟨next, acted, followed⟩ := Option.bind_eq_some_iff.mp followed
      obtain ⟨move, chosen, acted⟩ := Option.bind_eq_some_iff.mp acted
      exact ih (.step before (may player (by simp) w move chosen) (World.step_of_act acted))
        (fun other inside => may other (by simp [inside])) followed

/-- The world players lead to while each of their moves passes a check. -/
def World.followWhile (passes : World → Move → Bool) (w : World) : List Player → Option World
  | [] => some w
  | player :: rest => (player w).bind fun move =>
      if passes w move then (w.act move).bind fun next => next.followWhile passes rest else none

theorem World.reach_of_followWhile {allowed : World → Move → Prop} {passes : World → Move → Bool}
    {players : List Player} {w w' : World} (before : Reach allowed w)
    (may : ∀ player ∈ players, ∀ w move, player w = some move → passes w move = true →
      allowed w move)
    (followed : w.followWhile passes players = some w') : Reach allowed w' := by
  induction players generalizing w with
  | nil =>
      obtain rfl := Option.some.inj followed
      exact before
  | cons player rest ih =>
      obtain ⟨move, chosen, followed⟩ := Option.bind_eq_some_iff.mp followed
      split at followed
      · rename_i passed
        obtain ⟨next, acted, followed⟩ := Option.bind_eq_some_iff.mp followed
        exact ih (.step before (may player List.mem_cons_self w move chosen passed)
          (World.step_of_act acted))
          (fun other inside => may other (List.mem_cons_of_mem _ inside)) followed
      · cases followed

/-- The player that makes a fixed move. -/
def always (move : Move) : Player := fun _ => some move

/-- The batch the last call delivered. -/
def World.lastBatch (w : World) : Option HubBatchV2 :=
  w.log.head?.bind fun event =>
    match event.reply with
    | some (.ok (.batchV2 batch)) => some batch
    | _ => none

/-- Acknowledge everything in the batch just delivered. -/
def acknowledgeAll : Player := fun w => w.lastBatch.map fun batch =>
  .call (.acknowledgeV2 2
    { version := 2
      batchId := batch.batchId
      acceptedRecordIds := batch.records.map (·.recordId)
      acceptedGapNoticeIds := batch.gaps.map (·.noticeId) }) .none

/-- Overwrite the pending file of a sequence with bytes no key opens. -/
def damageSequence (s : Nat) : Player := fun w =>
  (w.disk.pending.keys.find? fun name =>
    (parseV2PendingFileName name).any fun parsed => parsed.1 = s).map fun name =>
      .damage name (.raw [])

/-! ### A spool to run scripts on -/

theorem sampleKey_length : (List.replicate 32 7 : Bytes).length = 32 := rfl

def sampleKey : EncryptionKey := ⟨List.replicate 32 7, sampleKey_length⟩

instance neZero_257 : NeZero 257 := ⟨by decide⟩

instance neZero_1000000 : NeZero 1000000 := ⟨by decide⟩

/-- A spool of up to two hundred and fifty-six records, with a retention of one minute. -/
def sampleInner (maxRecords : Fin 257) : Inner :=
  { config :=
      { maxBytes := 1048576
        maxRecords := maxRecords.val
        retentionMs := ⟨60000, by omega⟩
        batchMaxBytes := 1048576
        batchMaxRecords := maxRecords.val
        maxBytes_le := by decide
        maxRecords_le := le_trans maxRecords.is_lt.le (by decide)
        batchMaxBytes_le := by decide
        batchMaxRecords_le := le_trans maxRecords.is_lt.le (by decide) }
    key := sampleKey
    host := referenceHost integerCodec }

/-- A spool of up to eight records whose batches hold two items. -/
def cutInner : Inner :=
  { sampleInner 8 with
    config :=
      { (sampleInner 8).config with batchMaxRecords := 2, batchMaxRecords_le := by decide } }

/-- A time some milliseconds after the sample envelopes were received. -/
def sampleTime (laterMs : Fin 1000000) : I64 :=
  ⟨1800000000000 + laterMs.val, by omega⟩

/-! ### A day of a spool -/

/-- Three records are admitted, the first of them half a minute before the others. -/
def threeAdmissions : List Player :=
  [always (.openSpool cutInner (sampleTime 0) .none),
    always (.call (.enqueue (sampleEnvelope "a") (sampleTime 1)) .none),
    always (.call (.enqueue (sampleEnvelope "b") (sampleTime 30000)) .none),
    always (.call (.enqueue (sampleEnvelope "c") (sampleTime 30001)) .none)]

/-- The first record has expired when a pull delivers its gap and the second record. -/
def cutPull : List Player :=
  threeAdmissions ++ [always (.call (.nextBatchV2 2 (sampleTime 61500)) .none)]

/-- The batch is acknowledged. -/
def acknowledgedPull : List Player := cutPull ++ [acknowledgeAll]

/-- The process ends, and another one opens the spool. -/
def reopenedSpool : List Player :=
  acknowledgedPull ++ [always .drop, always (.openSpool cutInner (sampleTime 61600) .none)]

end TeslatlasEdge
