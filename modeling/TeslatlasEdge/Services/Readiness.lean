/-
Module: TeslatlasEdge.Services.Readiness
Purpose: What a ready edge says of its records: as long as the readiness check succeeds, every record
  that was ever admitted is listed for delivery, its file in place, or has been acknowledged.
Trusted boundary: none
Main exports: ready_iff, ready_accounts_for_records
-/
import TeslatlasEdge.Services.Visits

namespace TeslatlasEdge

open Lib

section

variable {inner : Inner} {state : State} {storageWriteFailed : Bool} {nowMs : I64}

/-- What the readiness check looks at. -/
theorem ready_iff :
    (readiness (snapshot inner state storageWriteFailed nowMs)).status = .ok ↔
      state.corruptRecords = 0 ∧ state.gaps.isEmpty = true ∧
        state.countedPendingExpirations.isEmpty = true ∧ state.unresolvedIntegrity = false ∧
        storageWriteFailed = false ∧ capacityExhausted inner.config state = false := by
  have status : (readiness (snapshot inner state storageWriteFailed nowMs)).status = .ok ↔
      (snapshot inner state storageWriteFailed nowMs).degraded = false := by
    unfold readiness
    cases (snapshot inner state storageWriteFailed nowMs).degraded with
    | false => exact ⟨fun _ => rfl, fun _ => rfl⟩
    | true => exact ⟨(fun busy => by cases busy), fun busy => by cases busy⟩
  rw [status]
  simp only [snapshot, Bool.or_eq_false_iff, decide_eq_false_iff_not, not_lt, nonpos_iff_eq_zero,
    Bool.not_eq_false', and_assoc]

end

section

variable {key : EncryptionKey} {setting : Setting} {e : Edge}

/-- While the readiness check succeeds, every record that has ever been admitted is listed for delivery
with its file in place, or a receipt that accepts it has been durable, and no gap stands. -/
theorem ready_accounts_for_records
    (reach : (edgeSystem setting (Edge.Permits (Limited key setting.host))).Reachable e)
    (distinct : DistinctNotices setting.host e.world.Offered)
    (faithful : FaithfulIds setting.host e.world.Offered) {process : Process}
    (running : e.world.process = some process) {nowMs : I64}
    (ready : (readiness (snapshot process.inner process.state process.storageWriteFailed
      nowMs)).status = .ok) :
    (∀ name body, e.world.disk.read (.gap name) ≠ some body) ∧
      ∀ n record, Admitted key e.world.timeline n record →
        (e.world.disk.HasPending n record ∧ ∃ entry, process.state.Holds entry ∧
          entry.spoolSeq = n ∧ entry.recordId = record.recordId ∧
          process.state.countedPendingExpirations.contains n = false) ∨
        AcceptedBy key setting.host e.world.timeline n record := by
  obtain ⟨-, gapless, uncounted, -, written, -⟩ := ready_iff.mp ready
  have standing := standing_of_reachable ((edge_refines setting _).reachable reach)
    (fun _ _ offer => offer) distinct
  obtain ⟨rfl, -, backing⟩ := standing.kept.running process running
  obtain ⟨sound, whole⟩ := backing .none
  have accounts := sound.accounts faithful
  have law := standing.kept.always.laws _ _ (List.suffix_refl _)
  have none : ∀ name body, e.world.disk.read (.gap name) ≠ some body := by
    intro name body found
    rcases accounts.gapFiles name body found with ⟨noticeId, gap, held, -⟩ | failed
    · exact absurd (held.symm.trans (OrdMap.isEmpty_iff.mp gapless noticeId)) (Option.some_ne_none _)
    · exact absurd (written.symm.trans failed) Bool.false_ne_true
  refine ⟨none, fun n record admitted => ?_⟩
  rcases law.custody n record admitted with pending | gap | accepted
  · left
    refine ⟨pending, ?_⟩
    obtain ⟨body, found⟩ := pending
    rcases accounts.pendings _ body found with ⟨entry, held, path⟩ | ⟨failed, -⟩
    · have named := Path.pending.inj ((whole.pathed.entries entry held).symm.trans path)
      obtain ⟨positive, bounded, -⟩ := law.origin n record admitted
      obtain ⟨source, admitted', -⟩ := sound.backed.entry entry held
      obtain ⟨positive', bounded', -⟩ := law.origin entry.spoolSeq source admitted'
      obtain ⟨sequence, identity⟩ := pendingFileName_injective positive' bounded'.le positive bounded.le
        named
      refine ⟨entry, held, sequence, identity, ?_⟩
      exact OrdMap.contains_eq_false_iff.mpr (OrdMap.isEmpty_iff.mp uncounted n)
    · exact absurd (written.symm.trans failed) Bool.false_ne_true
  · obtain ⟨recordId, body, found⟩ := gap
    exact absurd found (none _ _)
  · exact .inr accepted

end

theorem ready_accounts_for_records_sampleVisits :
    ∃ e : Edge, e.responses ≠ [] ∧ ∀ n record, Admitted sampleKey e.world.timeline n record →
      e.world.disk.HasPending n record ∨
        AcceptedBy sampleKey (referenceHost integerCodec) e.world.timeline n record := by
  obtain ⟨e, e', reach, serving, apart, ⟨verdict, responded, -⟩, -, process, running, ready⟩ :=
    sampleVisits_reached
  obtain ⟨-, accounted⟩ := ready_accounts_for_records (reach.later (Edge.Serving.later serving))
    apart.distinctNotices apart.faithfulIds running ready
  refine ⟨e', List.ne_nil_of_mem responded, fun n record admitted => ?_⟩
  rcases accounted n record admitted with ⟨pending, -⟩ | accepted
  · exact .inl pending
  · exact .inr accepted

end TeslatlasEdge
