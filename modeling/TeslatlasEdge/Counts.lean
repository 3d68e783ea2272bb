/-
Module: TeslatlasEdge.Counts
Purpose: A counted expiration names the entry of its sequence, in every reachable state.  The check
  made at recovery establishes it, and every change of a running spool keeps it, torn or not.
Trusted boundary: none
Main exports: State.CountsFit, Changes.countsFit, Reach.countsFit
-/
import TeslatlasEdge.Consistency

namespace TeslatlasEdge

open Lib

/-- Counted expirations lie below the next sequence and name their entry where there is one. -/
structure State.CountsFit (state : State) : Prop where
  agree : state.CountsAgree
  below : ∀ s identity, state.countedPendingExpirations.get? s = some identity →
    s < state.nextSpoolSequence

/-! ### Changes -/

section

variable {inner : Inner} {offered : Nat → Envelope → Prop} {torn : Prop} {a b : State}

/-- A change holds on to no new entry, or admits one under the next sequence. -/
theorem Change.grown (change : Change inner offered torn a b) :
    (b.nextSpoolSequence = a.nextSpoolSequence ∧ ∀ entry, b.Holds entry → a.Holds entry) ∨
      ∃ fresh, fresh.spoolSeq = a.nextSpoolSequence ∧
        b.nextSpoolSequence = a.nextSpoolSequence + 1 ∧
        ∀ entry, b.Holds entry → a.Holds entry ∨ entry = fresh := by
  cases change with
  | released release =>
      obtain ⟨entries, -, next⟩ := Releases.kept (.single release)
      exact .inl ⟨next, entries⟩
  | counted => exact .inl ⟨rfl, fun _ held => held⟩
  | @admitted envelope admittedAtMs encryptedBytes entry offer absent named =>
      refine .inr ⟨entry, by rw [named]; rfl, rfl, fun other held => ?_⟩
      change (a.entries.insert _ _).get? _ = _ at held
      rw [OrdMap.get?_insert] at held
      split at held
      · exact .inr (Option.some.inj held).symm
      · exact .inl held
  | @replaced entry noted held note =>
      refine .inl ⟨(State.release_next noted entry).trans note.next, fun other kept => ?_⟩
      rw [State.Holds, State.release_entries] at kept
      exact note.holds.mp (OrdMap.get?_of_get?_erase kept)
  | quarantined held note =>
      exact .inl ⟨note.next, fun other kept => note.holds.mp (OrdMap.get?_of_get?_erase kept)⟩
  | tornApart held note => exact .inl ⟨note.next, fun other kept => note.holds.mp kept⟩
  | elsewhere same =>
      refine .inl ⟨same.next, fun entry held => ?_⟩
      rwa [State.Holds, same.entries] at held

/-- A change counts nothing, or entries that are held. -/
theorem Change.counts (change : Change inner offered torn a b) {s : Nat} {identity : RecordId}
    (found : b.countedPendingExpirations.get? s = some identity) :
    a.countedPendingExpirations.get? s = some identity ∨
      ∃ entry, a.Holds entry ∧ entry.spoolSeq = s ∧ entry.stableRecordId = identity := by
  cases change with
  | released release => exact .inl (Releases.counted (.single release) found)
  | counted fits => exact fits.added s identity found
  | admitted => exact .inl found
  | @replaced entry noted held note =>
      have before := Releases.counted (.single (.entry (note.holds.mpr held))) found
      rw [note.counted] at before
      exact .inl before
  | @quarantined entry noted held note =>
      change noted.countedPendingExpirations.get? s = some identity at found
      rw [note.counted] at found
      exact .inl found
  | tornApart held note =>
      rw [note.counted] at found
      exact .inl found
  | elsewhere same =>
      rw [same.counted] at found
      exact .inl found

/-- Every change leaves room in the counters. -/
theorem Change.countsFit (change : Change inner offered torn a b) (numbered : a.Numbered)
    (fit : a.CountsFit) : b.CountsFit := by
  have below : ∀ s identity, b.countedPendingExpirations.get? s = some identity →
      s < a.nextSpoolSequence := by
    intro s identity found
    rcases change.counts found with before | ⟨entry, held, rfl, -⟩
    · exact fit.below s identity before
    · exact numbered.below entry held
  refine ⟨fun entry held identity found => ?_, fun s identity found => ?_⟩
  · have earlier : a.Holds entry := by
      rcases change.grown with ⟨-, kept⟩ | ⟨fresh, sequence, -, kept⟩
      · exact kept entry held
      · refine (kept entry held).resolve_right ?_
        rintro rfl
        exact absurd (below _ identity found) (by omega)
    rcases change.counts found with before | ⟨other, held', same, rfl⟩
    · exact fit.agree entry earlier identity before
    · rw [numbered.single other entry held' earlier same]
  · have small := below s identity found
    rcases change.grown with ⟨next, -⟩ | ⟨-, -, next, -⟩
    · omega
    · omega

theorem Changes.countsFit (changes : Changes inner offered torn a b) (numbered : a.Numbered)
    (fit : a.CountsFit) : b.CountsFit := by
  refine (changes.invariant (I := fun state => state.Numbered ∧ state.CountsFit) ?_
    ⟨numbered, fit⟩).2
  rintro a b ⟨numbered, fit⟩ change
  exact ⟨numbered.grown change.grown, change.countsFit numbered fit⟩

/-- A recovered state counts entries that it holds. -/
theorem RecoveredAs.countsFit {since : List Disk} {P : State → Prop} {m : Machine}
    (recovered : RecoveredAs inner offered since P m) : m.state.CountsFit := by
  obtain ⟨-, keyed, numbered, -⟩ := recovered.ready
  obtain ⟨m₁, m₂, m₃, sequence, recordsNext, gapsNext, loading, -, counters, reading, -, -,
    releases, rfl⟩ := recovered
  have same := reading.same
  obtain ⟨entries, -, -⟩ := releases.kept
  have agree : m₃.state.CountsAgree := by
    intro entry held identity found
    have before := entries entry held
    have counted := releases.counted found
    rw [State.Holds, same.entries] at before
    rw [same.counted] at counted
    exact counters.agree entry (OrdMap.mem_values_iff.mpr ⟨_, before⟩) identity counted
  have counted : CountedHeld m₃.state.retainCounted := countedHeld_retainCounted keyed agree
  refine ⟨fun entry held identity found => ?_, fun s identity found => ?_⟩
  · obtain ⟨other, held', sequence, stable⟩ := counted _ _ found
    rw [← stable, numbered.single other entry held' held sequence]
  · obtain ⟨other, held', rfl, -⟩ := counted s identity found
    exact numbered.below other held'

end

/-! ### Runs -/

section

variable {key : EncryptionKey} {host : Host} {w w' : World}

def CountsFitting (w : World) : Prop :=
  ∀ process, w.process = some process → process.state.CountsFit

/-- A call keeps the counts, whatever disturbs it. -/
theorem Kept.countsFit_served (kept : Kept key host w) {process : Process}
    (running : w.process = some process) (request : Request) (faults : Faults)
    (fit : process.state.CountsFit) :
    (finalState (w.serve process request faults)).state.CountsFit := by
  obtain ⟨-, rfl, backing⟩ := kept.running process running
  obtain ⟨-, ready⟩ := backing faults
  have presented : (request.call process.inner).Along (Presented fun _ _ => True)
      (w.machine process faults) :=
    request.along_presented ready.keyed ready.numbered ready.pathed fun _ _ _ => trivial
  refine ((Call.run_invariant
    (I := fun m : Machine => m.state.Keyed ∧ m.state.Numbered ∧ m.state.CountsFit)
    (Call.Steps.mono request.sections ?_) presented
    ⟨ready.keyed, ready.numbered, fit⟩).final
    (I := fun m : Machine => m.state.Keyed ∧ m.state.Numbered ∧ m.state.CountsFit)).2.2
  rintro label act is m presented ⟨keyed, numbered, fit⟩
  have changes : Changes process.inner (fun _ _ => True) True m.state (act m).state :=
    is.changes keyed presented fun _ => trivial
  exact ⟨changes.keyed keyed, changes.invariant (I := State.Numbered)
    (fun _ _ numbered change => numbered.grown change.grown) numbered,
    changes.countsFit numbered fit⟩

/-- Every move leaves the counters of a world within bounds. -/
theorem CountsFitting.step {move : Move} (fitting : CountsFitting w) (kept : Kept key host w)
    (may : UnderKey key host w move) (moved : Step w move w')
    (distinct : DistinctNotices host w'.Offered) : CountsFitting w' := by
  have gone : ∀ {d : Disk} {older : List Disk} {log : List Event},
      CountsFitting ⟨d, older, log, none⟩ := fun process running => by cases running
  cases moved with
  | @opened inner nowMs faults after closed ran =>
      obtain ⟨rfl, rfl⟩ := may
      rintro process running
      obtain rfl := Option.some.inj running
      obtain ⟨-, -, m₁, recovered, changes⟩ := (post_openSpool (P := fun _ => True)
        (m := w.opening faults) LoadSteps.trivial distinct kept.always rfl fun _ => trivial).of_ok
        ran
      exact changes.countsFit recovered.ready.2.2.1 recovered.countsFit
  | openFailed | openStopped | callStopped | dropped => exact gone
  | openRefused | damaged | receiptDamaged | relisted => exact fitting
  | @returned request faults process running =>
      rintro other same
      obtain rfl := Option.some.inj same
      exact kept.countsFit_served running request faults (fitting process running)

/-- So they are within bounds in every world that is reached. -/
theorem Reach.countsFit (reach : Reach (UnderKey key host) w)
    (distinct : DistinctNotices host w.Offered) : CountsFitting w := by
  induction reach with
  | start => exact fun process running => by cases running
  | @step w w' move before may moved ih =>
      have earlier : DistinctNotices host w.Offered := by
        intro s a t b _ _ _ _ _ _ offer offer'
        exact distinct s a t b _ _ _ _ _ _ (moved.offered s a offer) (moved.offered t b offer')
      exact (ih earlier).step (before.kept earlier) may moved distinct

end

end TeslatlasEdge
