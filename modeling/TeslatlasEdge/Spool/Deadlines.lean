/-
Module: TeslatlasEdge.Spool.Deadlines
Purpose: Every entry a spool holds has the deadline of the record in its file: `enqueue` writes both
  from one envelope, `open` takes the one from the other, and nothing changes either.
Trusted boundary: none
Main exports: Machine.Dated, Chain.dated, RecoveredAs.dated
-/
import TeslatlasEdge.Spool.Reopening

namespace TeslatlasEdge

open Lib

variable {inner : Inner} {offered : Nat → Envelope → Prop} {since : List Disk} {m m' : Machine}

/-- Each held entry expires when the record that was admitted under its sequence does. -/
def Machine.Dated (key : EncryptionKey) (m : Machine) : Prop :=
  ∀ entry, m.state.Holds entry → ∃ record, Admitted key m.timeline entry.spoolSeq record ∧
    record.expiresAtMs = entry.expiresAtMs

/-- Deadlines stay where no new entry is held. -/
theorem Machine.Dated.kept {key : EncryptionKey} (dated : m.Dated key)
    (later : m.timeline <:+ m'.timeline)
    (holds : ∀ entry, m'.state.Holds entry → m.state.Holds entry) : m'.Dated key := by
  intro entry held
  obtain ⟨record, admitted, same⟩ := dated entry (holds entry held)
  exact ⟨record, admitted.mono later, same⟩

/-- A releasing state holds nothing new. -/
theorem State.holds_of_release {state : State} {entry other : Entry}
    (held : (state.release entry).Holds other) : state.Holds other := by
  rw [State.Holds, State.release_entries] at held
  exact OrdMap.get?_of_get?_erase held

/-- The entry and the record of an admission have one deadline; nothing else touches either. -/
theorem Effect.dated (effect : Effect inner offered m m') (dated : m.Dated inner.key) :
    m'.Dated inner.key := by
  have kept := @Machine.Dated.kept m m' inner.key dated effect.timeline
  cases effect with
  | fault | writeFailed | orphaned | unsynced | setAside => exact kept fun _ held => held
  | wrote within open_ write =>
      cases write with
      | sequence | gap | receipt => exact kept fun _ held => held
      | @pending envelope admittedAtMs body entry offer valid absent next content named =>
          subst named content
          intro other held
          rcases holds_admitEntry held with rfl | before
          · refine ⟨(storedRecord inner envelope admittedAtMs m.state.nextSpoolSequence).map
              inner.host.codec.print, ⟨rfl, _, List.mem_cons_self, ?_⟩, rfl⟩
            exact (Disk.read_put m.disk _ (.pending _) (.pending _)).trans (if_pos rfl)
          · obtain ⟨record, admitted, same⟩ := dated other before
            exact ⟨record, admitted.mono (List.suffix_cons _ _), same⟩
  | removed within removal =>
      refine kept fun entry held => ?_
      simp only [Machine.update, Machine.discard_state] at held
      cases removal with
      | expired | acknowledged | backing => exact State.holds_of_release held
      | gap | receipt => exact held
  | updated update =>
      refine kept fun entry held => ?_
      cases update with
      | dropQuarantined => exact OrdMap.get?_of_get?_erase held
      | forgetReplaced | forgetAdmitted | forgetBacking | allocate | insertReceipt | pruneHistory
      | forgetReceipt => exact held

/-- Along a chain entries keep their deadlines. -/
theorem Chain.dated (chain : Chain inner offered m m') (dated : m.Dated inner.key) :
    m'.Dated inner.key :=
  Chain.invariant (I := Machine.Dated inner.key) (fun _ _ dated effect => effect.dated dated) chain
    dated

/-- What the files yield has the deadlines of the files. -/
theorem RecoveredAs.dated {P : State → Prop} (recovered : RecoveredAs inner offered since P m) :
    m.Dated inner.key := by
  obtain ⟨m₁, m₂, m₃, sequence, recordsNext, gapsNext, loading, -, -, reading, -, chain, -, rfl⟩ :=
    recovered
  have loaded : m₁.Dated inner.key := fun entry held => by
    obtain ⟨record, admitted, -, -, same⟩ := loading.entry entry held
    exact ⟨record, admitted, same⟩
  have read : m₂.Dated inner.key := loaded.kept reading.later fun entry held => by
    rwa [State.Holds, reading.same.entries] at held
  exact chain.dated read

end TeslatlasEdge
