/-
Module: TeslatlasEdge.Failures
Purpose: Admissions that fail.  A rejected one leaves everything as it was; one that fails in storage
  leaves at most its own record behind, and closes the process to every later durable write.
Trusted boundary: none
Main exports: OwnRecordOnly, World.GoesOn, World.Refuses, enqueue_fails_cleanly
-/
import TeslatlasEdge.Stability
import TeslatlasEdge.Spool.Latch

namespace TeslatlasEdge

open Lib
open Section

variable {inner : Inner} {m : Machine}

/-! ### One admission -/

/-- A new record has been added under the next sequence, and nothing else is different. -/
structure State.Admits (inner : Inner) (envelope : Envelope) (admittedAtMs : I64)
    (state state' : State) : Prop where
  absent : state.entries.get? (envelope.recordId inner.host) = none
  unindexed : state.stableIndex.get? (envelope.stableRecordId inner.host) = none
  added : ∃ encryptedBytes, state' =
    { state.admitEntry (Entry.ofEnvelope inner envelope admittedAtMs state.nextSpoolSequence
        encryptedBytes) with
      nextSpoolSequence := state.nextSpoolSequence + 1 }

/-- What an admission may leave that has failed in storage: its own record in the state, and its own
file. -/
structure OwnRecordOnly (inner : Inner) (envelope : Envelope) (admittedAtMs : I64)
    (m m' : Machine) : Prop where
  latched : m'.storageWriteFailed = true
  state : m'.state = m.state ∨ m.state.Admits inner envelope admittedAtMs m'.state
  pending : ∀ name,
    name ≠ pendingFileName m.state.nextSpoolSequence (envelope.recordId inner.host) →
      m'.disk.read (.pending name) = m.disk.read (.pending name)
  gaps : m'.disk.gaps = m.disk.gaps
  receipts : m'.disk.receipts = m.disk.receipts

/-- The errors of an admission that was rejected before anything was written. -/
def SpoolError.rejects : SpoolError → Bool
  | .corruptRecord | .batchItemTooLarge | .capacityExceeded | .invalidConfig => true
  | _ => false

/-- Every way in which an admission can come back without having stored its record. -/
theorem post_enqueue_fails {envelope : Envelope} {admittedAtMs : I64}
    (absent : m.state.stableIndex.get? (envelope.stableRecordId inner.host) = none →
      m.state.entries.get? (envelope.recordId inner.host) = none) :
    Post (enqueue inner envelope admittedAtMs).run m
      (fun outcome m' => ∀ recordId, outcome = .alreadyPresent recordId → m' = m)
      (fun error m' => error.rejects = true ∧ m' = m ∨
        (error = .io ∨ error = .storageFull) ∧
          OwnRecordOnly inner envelope admittedAtMs m m') := by
  unfold enqueue
  split
  · exact .inl ⟨rfl, rfl⟩
  · simp only [Call.run_bind, Call.run_atomic, post_bind, post_get, post_ite, post_throw, post_pure]
    refine ⟨fun latched => .inr ⟨.inl trivial, latched, .inl rfl, fun _ _ => rfl, rfl, rfl⟩, fun _ => ?_⟩
    simp only [enqueueLocked, post_bind, post_state]
    cases known : m.state.stableIndex.get? (envelope.stableRecordId inner.host) with
    | some existing => exact fun _ _ => rfl
    | none =>
        cases sum : checkedAdd m.state.nextSpoolSequence 1 with
        | none => exact .inl ⟨rfl, rfl⟩
        | some next =>
            simp only [post_bind, post_ite, post_throw, post_pure]
            refine ⟨fun _ => .inl ⟨rfl, trivial⟩, fun _ => ⟨fun _ => .inl ⟨rfl, trivial⟩,
              fun _ => ⟨fun _ => .inl ⟨rfl, trivial⟩, fun _ => ⟨fun _ => .inl ⟨rfl, trivial⟩,
                fun _ => ?_⟩⟩⟩⟩
            have storage : ∀ full, mapIoError full = .io ∨ mapIoError full = .storageFull := by
              intro full
              cases full
              · exact .inl rfl
              · exact .inr rfl
            have consumed := checkedAdd_eq_some sum
            -- a file placed under the name of the record hides no other
            have other : ∀ (body : Blob) (name : Str),
                name ≠ pendingFileName m.state.nextSpoolSequence (envelope.recordId inner.host) →
                (m.disk.put body (.pending (pendingFileName m.state.nextSpoolSequence
                  (envelope.recordId inner.host)))).read (.pending name) =
                  m.disk.read (.pending name) := by
              intro body name different
              rw [Disk.read_put, if_neg]
              exact fun same => different (Path.pending.inj same)
            apply post_writeAtomic
            · intro latched
              exact .inr ⟨.inl rfl, latched, .inl rfl, fun _ _ => rfl, rfl, rfl⟩
            · intro unlatched faults _
              simp only [post_modifyState]
              have added : ∀ encryptedBytes, m.state.Admits inner envelope admittedAtMs
                  { m.state.admitEntry (Entry.ofEnvelope inner envelope admittedAtMs
                      m.state.nextSpoolSequence encryptedBytes) with nextSpoolSequence := next } :=
                fun encryptedBytes => ⟨absent known, known, encryptedBytes, by rw [consumed.1]⟩
              simp only [persistCurrentSequenceState, persistSequenceState, post_bind, post_state]
              apply post_writeAtomic
              · intro latched
                rw [Machine.update, Machine.place, unlatched] at latched
                cases latched
              · exact fun _ _ _ => (by simp)
              · exact fun _ _ full _ _ => .inr ⟨storage full, rfl, .inr (added _), other _, rfl, rfl⟩
              · exact fun _ _ full _ _ => .inr ⟨storage full, rfl, .inr (added _), other _, rfl, rfl⟩
              · exact fun _ _ full _ _ => .inr ⟨storage full, rfl, .inr (added _), other _, rfl, rfl⟩
            · exact fun _ _ full _ _ =>
                .inr ⟨storage full, rfl, .inl rfl, fun _ _ => rfl, rfl, rfl⟩
            · exact fun _ _ full _ _ =>
                .inr ⟨storage full, rfl, .inl rfl, fun _ _ => rfl, rfl, rfl⟩
            · exact fun _ _ full _ _ => .inr ⟨storage full, rfl, .inl rfl, other _, rfl, rfl⟩

/-! ### The process after a failed write -/

/-- The same process goes on serving. -/
def World.GoesOn : World → World → Prop :=
  Relation.ReflTransGen fun w w' => (∃ move, Step w move w') ∧ w'.process.isSome = true

/-- A process that is latched stays latched while it lives. -/
theorem Step.keeps_latch {w w' : World} {move : Move} {process : Process}
    (stepped : Step w move w') (running : w.process = some process)
    (latched : process.storageWriteFailed = true) (goes : w'.process.isSome = true) :
    ∃ process', w'.process = some process' ∧ process'.inner = process.inner ∧
      process'.storageWriteFailed = true := by
  cases stepped with
  | opened closed | openFailed closed | openStopped closed =>
      rw [running] at closed
      cases closed
  | callStopped | dropped => cases goes
  | returned running' =>
      obtain rfl := Option.some.inj (running.symm.trans running')
      refine ⟨_, rfl, rfl, ?_⟩
      exact ((Request.post_latched _ latched).mono (fun _ _ kept => kept.1.latched)
        fun _ _ behind => behind.latched).final (I := fun m' : Machine => m'.storageWriteFailed = true)
  | openRefused | damaged | receiptDamaged | relisted => exact ⟨process, running, rfl, latched⟩

/-- However long it goes on. -/
theorem World.GoesOn.latched {w w' : World} {process : Process} (goes : w.GoesOn w')
    (running : w.process = some process) (latched : process.storageWriteFailed = true) :
    ∃ process', w'.process = some process' ∧ process'.inner = process.inner ∧
      process'.storageWriteFailed = true := by
  induction goes with
  | refl => exact ⟨process, running, rfl, latched⟩
  | tail _ step ih =>
      obtain ⟨process', running', same, latched'⟩ := ih
      obtain ⟨⟨move, stepped⟩, goes⟩ := step
      obtain ⟨process₂, running₂, same₂, latched₂⟩ := stepped.keeps_latch running' latched' goes
      exact ⟨process₂, running₂, same₂.trans same, latched₂⟩

/-- The running process makes no durable write: admissions fail and leave everything as it is, other
calls that need one fail, and no call gives a file new contents. -/
def World.Refuses (w : World) (inner : Inner) : Prop :=
  ∃ process, w.process = some process ∧ process.inner = inner ∧
    process.storageWriteFailed = true ∧ ∀ faults,
      (∀ envelope admittedAtMs, ∃ error,
        (enqueue inner envelope admittedAtMs).run (w.machine process faults) =
          .error error (w.machine process faults)) ∧
      ∀ request : Request, Post (request.call inner).run (w.machine process faults)
        (fun _ m' => Behind (w.machine process faults) m' ∧
          ¬ request.NeedsWrite inner (w.machine process faults))
        (fun _ m' => Behind (w.machine process faults) m')

/-- A latched spool refuses every admission and changes nothing. -/
theorem enqueue_run_latched (envelope : Envelope) (admittedAtMs : I64)
    (latched : m.storageWriteFailed = true) :
    ∃ error, (enqueue inner envelope admittedAtMs).run m = .error error m := by
  have refused : Post (enqueue inner envelope admittedAtMs).run m (fun _ _ => False)
      (fun _ m' => m' = m) := by
    unfold enqueue
    split
    · rfl
    · simp only [Call.run_bind, Call.run_atomic, post_bind, post_get, latched, if_true, post_throw]
  cases ran : (enqueue inner envelope admittedAtMs).run m with
  | ok outcome m' => exact (refused.of_ok ran).elim
  | error error m' =>
      obtain rfl := refused.of_error ran
      exact ⟨error, rfl⟩

/-- From then on every admission is refused. -/
theorem World.GoesOn.refuses {w w' : World} {process : Process} (goes : w.GoesOn w')
    (running : w.process = some process) (latched : process.storageWriteFailed = true) :
    w'.Refuses process.inner := by
  obtain ⟨process', running', same, latched'⟩ := goes.latched running latched
  exact ⟨process', running', same, latched', fun faults =>
    ⟨fun envelope admittedAtMs => enqueue_run_latched envelope admittedAtMs latched',
      fun request => request.post_latched latched'⟩⟩

/-! ### Failed admissions -/

/-- The envelopes offered by the time an envelope is handed to the running process. -/
def World.OfferedWith (w : World) (process : Process) (envelope : Envelope) (s : Nat)
    (other : Envelope) : Prop :=
  w.Offered s other ∨ s = process.state.nextSpoolSequence ∧ other = envelope

/-- The world in which an admission has just failed. -/
def World.failed (w : World) (process : Process) (envelope : Envelope) (admittedAtMs : I64)
    (error : SpoolError) (after : Machine) : World :=
  after.running process.inner
    (⟨process.state.nextSpoolSequence, .enqueue envelope admittedAtMs, some (.error error)⟩ ::
      w.log)

theorem World.offeredWith_of_failed {w : World} {process : Process} {envelope other : Envelope}
    {admittedAtMs : I64} {error : SpoolError} {after : Machine} {s : Nat}
    (offered : w.OfferedWith process envelope s other) :
    (w.failed process envelope admittedAtMs error after).Offered s other := by
  rcases offered with ⟨event, inside, facts⟩ | ⟨rfl, rfl⟩
  · exact ⟨event, List.mem_cons_of_mem _ inside, facts⟩
  · exact ⟨_, List.mem_cons_self, rfl, admittedAtMs, rfl⟩

/-- A failed admission has no side effect beyond its own record.  One that finds its record present,
or is rejected, leaves the state and every file as they were; one that fails in storage leaves at most
its own record, and from then on the process makes no durable write. -/
theorem enqueue_fails_cleanly {key : EncryptionKey} {host : Host} {w : World}
    (reach : Reach (UnderKey key host) w) {process : Process} (running : w.process = some process)
    (envelope : Envelope) (admittedAtMs : I64) (faults : Faults)
    (distinct : DistinctNotices host (w.OfferedWith process envelope))
    (faithful : FaithfulIds host (w.OfferedWith process envelope)) :
    Post (enqueue process.inner envelope admittedAtMs).run (w.machine process faults)
      (fun outcome after => ∀ recordId, outcome = .alreadyPresent recordId →
        after = w.machine process faults)
      (fun error after =>
        error.rejects = true ∧ after = w.machine process faults ∨
          (error = .io ∨ error = .storageFull) ∧
            OwnRecordOnly process.inner envelope admittedAtMs (w.machine process faults) after ∧
            ∀ w', (w.failed process envelope admittedAtMs error after).GoesOn w' →
              w'.Refuses process.inner) := by
  have before : DistinctNotices host w.Offered := distinct.offering fun _ _ offer => .inl offer
  obtain ⟨rfl, rfl, backing⟩ := (reach.kept before).running process running
  obtain ⟨sound, ready⟩ := backing faults
  have offering : ∀ s other, w.Offered s other → w.OfferedWith process envelope s other :=
    fun _ _ => .inl
  refine (post_enqueue_fails fun absent => (sound.offering offering).entries_absent ready.keyed
    faithful (.inr ⟨rfl, rfl⟩) absent).mono (fun _ _ same => same) ?_
  rintro error after (rejected | ⟨storage, left⟩)
  · exact .inl rejected
  · refine .inr ⟨storage, left, fun w' goes => ?_⟩
    exact @World.GoesOn.refuses _ _ ⟨process.inner, after.state, after.storageWriteFailed⟩ goes rfl
      left.latched

/-- The file of a record is written, but not the counters behind it. -/
def lateFault : Faults := { Faults.none with writes := [none, some (.unsynced false)] }

/-- The running process offers an envelope and comes back with an error. -/
def World.fail (w : World) (envelope : Envelope) (nowMs : I64) (faults : Faults) :
    Option (Process × SpoolError × Machine) :=
  match w.process with
  | none => none
  | some process =>
      match (enqueue process.inner envelope nowMs).run (w.machine process faults) with
      | .ok _ _ => none
      | .error error after => some (process, error, after)

theorem World.fail_eq_some {w : World} {envelope : Envelope} {nowMs : I64} {faults : Faults}
    {process : Process} {error : SpoolError} {after : Machine}
    (failed : w.fail envelope nowMs faults = some (process, error, after)) :
    w.process = some process ∧
      (enqueue process.inner envelope nowMs).run (w.machine process faults) =
        .error error after := by
  unfold World.fail at failed
  split at failed
  · cases failed
  · rename_i running
    split at failed
    · cases failed
    · rename_i ran
      obtain ⟨rfl, rfl, rfl⟩ := Prod.mk.inj (Option.some.inj failed) |>.imp_right Prod.mk.inj
      exact ⟨running, ran⟩

/-- A second record fails behind the first one. -/
theorem singleAdmission_fails :
    ((World.fresh.play singleAdmission).any fun w =>
      (w.fail (sampleEnvelope "b") (sampleTime 2) lateFault).any fun failed =>
        decide (failed.2.1 = .io) &&
          decide ((w.failed failed.1 (sampleEnvelope "b") (sampleTime 2) failed.2.1
            failed.2.2).TellsApart (referenceHost integerCodec))) = true := by
  decide +kernel

theorem enqueue_fails_cleanly_singleAdmission :
    ∃ (w : World) (process : Process) (after : Machine),
      (enqueue process.inner (sampleEnvelope "b") (sampleTime 2)).run
        (w.machine process lateFault) = .error .io after ∧
      OwnRecordOnly process.inner (sampleEnvelope "b") (sampleTime 2)
        (w.machine process lateFault) after ∧
      ∀ w', (w.failed process (sampleEnvelope "b") (sampleTime 2) .io after).GoesOn w' →
        w'.Refuses process.inner := by
  obtain ⟨w, played, shows⟩ := (Option.any_eq_true _ _).mp singleAdmission_fails
  obtain ⟨⟨process, error, after⟩, failed, shows⟩ := (Option.any_eq_true _ _).mp shows
  rw [Bool.and_eq_true, decide_eq_true_eq, decide_eq_true_eq] at shows
  obtain ⟨rfl, apart⟩ := shows
  obtain ⟨running, ran⟩ := World.fail_eq_some failed
  have reach := (World.reach_of_play .start singleAdmission_untouched played).mono
    fun _ _ untouched => untouched.underKey
  have clean := enqueue_fails_cleanly reach running (sampleEnvelope "b") (sampleTime 2) lateFault
    (apart.distinctNotices.offering fun _ _ => World.offeredWith_of_failed)
    (apart.faithfulIds.offering fun _ _ => World.offeredWith_of_failed)
  obtain ⟨rejected, -⟩ | ⟨-, left, refuses⟩ := clean.of_error ran
  · cases rejected
  · exact ⟨w, process, after, ran, left, refuses⟩

end TeslatlasEdge
