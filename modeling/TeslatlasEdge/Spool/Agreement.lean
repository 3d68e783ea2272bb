/-
Module: TeslatlasEdge.Spool.Agreement
Purpose: Every section of a call run alone is presented with what the state holds, so its changes are
  those of `Changes`; and no section that is left undisturbed tears a replacement apart.
Trusted boundary: none
Main exports: Presented, Undisturbed, SectionOf.changes, Traced, Request.along_traced,
  Request.along_presented
-/
import TeslatlasEdge.Spool.Scans

namespace TeslatlasEdge

open Lib
open Section

/-- The section is handed what the state holds: an envelope on offer, or an entry that is held or
whose identity is free. -/
def Presented (offered : Nat → Envelope → Prop) : Label → Machine → Prop
  | .enqueue envelope _, m => offered m.state.nextSpoolSequence envelope
  | .quarantine entry, m =>
      (m.state.entries.get? entry.recordId = none ∨ m.state.Holds entry) ∧
        (m.state.Holds entry → ∃ name, entry.path = .pending name)
  | _, _ => True

/-- Nothing tears the section's replacements apart: no removal fails while records expire, and a
run-time quarantine goes through or is refused as a whole. -/
def Undisturbed (inner : Inner) : Label → Machine → Prop
  | .expire _, m => m.faults.RemovalsSucceed
  | .quarantine entry, m => QuarantineWhole inner m entry
  | _, _ => True

instance decidableQuarantineWhole (inner : Inner) (m : Machine) (entry : Entry) :
    Decidable (QuarantineWhole inner m entry) :=
  decidable_of_iff
    ((m.state.gaps.get? (gapNotice inner.host entry entry.admittedAtMs
          .integrityQuarantine).noticeId = none ∧
        (m.storageWriteFailed = true ∨ inner.config.maxRecords ≤ m.state.gaps.size ∨
          inner.config.maxBytes < saturatingAdd m.state.pendingGapBytes (inner.key.encrypt (.gap
            (gapNotice inner.host entry entry.admittedAtMs .integrityQuarantine))).length)) ∨
      m.state.countedPendingExpirations.get? entry.spoolSeq = none ∧
        (saturatingAdd m.disk.quarantine.length 1 ≤ inner.config.maxRecords ∧
          saturatingAdd (quarantineBytes m.disk)
            (((m.disk.read entry.path).map Blob.length).getD 0) ≤ inner.config.maxBytes) ∧
        (∀ fault ∈ m.faults.listings, fault = none) ∧ (∀ fault ∈ m.faults.renames, fault = none) ∧
          ∀ fault ∈ m.faults.syncs, fault = none)
    (or_congr_right (and_congr_right fun _ => and_congr_right fun _ =>
      ⟨fun moves => ⟨moves.1, moves.2.1, moves.2.2⟩,
        fun moves => ⟨moves.listings, moves.renames, moves.syncs⟩⟩))

instance decidableUndisturbed (inner : Inner) : ∀ label m, Decidable (Undisturbed inner label m)
  | .expire _, m => inferInstanceAs (Decidable (∀ fault ∈ m.faults.removals, fault = none))
  | .quarantine entry, m => decidableQuarantineWhole inner m entry
  | .observe, _ | .enqueue _ _, _ | .read _, _ | .admissions, _ | .allocate, _ | .writeReceipt _, _
  | .insertReceipt _, _ | .complete _, _ | .pruneHistory, _ | .removeReceipt _, _
  | .forgetReceipt _, _ | .sync, _ => instDecidableTrue

variable {inner : Inner} {offered : Nat → Envelope → Prop} {torn : Prop} {m : Machine}

theorem Changes.of_state {state : State} (same : m.state = state) :
    Changes inner offered torn state m.state := by
  rw [same]

/-- What a section does to the state. -/
theorem SectionOf.changes {label : Label} {act : Machine → Machine}
    (is : SectionOf inner label act) (keyed : m.state.Keyed) (presented : Presented offered label m)
    (tears : ¬ Undisturbed inner label m → torn) :
    Changes inner offered torn m.state (act m).state := by
  have final : ∀ {α : Type} {section_ : Section α}, Post section_ m
      (fun _ m' => Changes inner offered torn m.state m'.state)
      (fun _ m' => Changes inner offered torn m.state m'.state) →
      Changes inner offered torn m.state (finalState (section_ m)).state :=
    fun holds => holds.final (I := fun m' : Machine => Changes inner offered torn m.state m'.state)
  cases is with
  | observe same | read same | admissions same => rw [same]
  | enqueue => exact final (post_enqueueLocked_changes presented)
  | expire =>
      exact final ((post_expireDueLocked_changes keyed tears).mono
        (fun _ _ changes => changes.mono (fun _ _ offer => offer) False.elim)
        fun _ _ changes => changes)
  | quarantine => exact final (post_quarantineRuntimeEntry_changes presented.1 presented.2 tears)
  | allocate =>
      apply final
      simp only [allocateReceipt, post_bind, post_state]
      cases checkedAdd m.state.nextReceiptSequence 1 with
      | none => exact .refl
      | some next => exact .single (.elsewhere ⟨rfl, rfl, rfl, rfl, rfl, rfl, rfl⟩)
  | writeReceipt =>
      exact final (post_writeAtomic_state.mono (fun _ _ same => .of_state same)
        fun _ _ same => .of_state same)
  | insertReceipt => exact .single (.elsewhere ⟨rfl, rfl, rfl, rfl, rfl, rfl, rfl⟩)
  | complete =>
      exact final ((post_completeReceipt_releases keyed).mono (fun _ _ facts => facts.1.changes)
        fun _ _ releases => releases.changes)
  | pruneHistory =>
      apply final
      simp only [post_bind, post_state, post_ite, post_modifyState, post_pure]
      have flagged : Changes inner offered torn m.state
          { m.state with v1AckHistoryPruned := true } :=
        .single (.elsewhere ⟨rfl, rfl, rfl, rfl, rfl, rfl, rfl⟩)
      refine ⟨fun _ => ?_, fun _ => .refl⟩
      exact post_persistCurrentSequenceState_state.mono
        (fun _ m' same => by rw [same]; exact flagged) fun _ m' same => by rw [same]; exact flagged
  | removeReceipt =>
      apply final
      refine post_removeFile (fun faults within => .of_state ?_) fun _ _ _ _ => .refl
      exact m.discard_state _
  | forgetReceipt => exact .single (.elsewhere ⟨rfl, rfl, rfl, rfl, rfl, rfl, rfl⟩)
  | sync =>
      exact final (post_syncDirectory_state.mono (fun _ _ same => .of_state same)
        fun _ _ same => .of_state same)

/-! ### Calls that run alone -/

/-- The time a pull or an expiry is called with. -/
def Request.nowMs? : Request → Option I64
  | .nextBatch nowMs | .nextBatchV2 _ nowMs | .expireDue nowMs => some nowMs
  | .enqueue _ _ | .acknowledge _ | .acknowledgeV2 _ _ => none

/-- The call holds the lock that keeps acknowledgements apart. -/
def Request.acknowledges : Request → Bool
  | .acknowledge _ | .acknowledgeV2 _ _ => true
  | _ => false

/-- The sections of a call by the machine the call began on: an admission or an expiry comes first,
and what is quarantined does not read back. -/
def Traced (inner : Inner) (start : Machine) (request : Request) : Label → Machine → Prop
  | .enqueue envelope admittedAtMs, m => m = start ∧ request = .enqueue envelope admittedAtMs
  | .expire nowMs, m => m = start ∧ request.nowMs? = some nowMs
  | .quarantine entry, m => SpoiledEntry inner m entry ∧ Chain inner noOffers start m
  | _, _ => True

/-- Nothing is asked of a quiet section. -/
theorem Quiet.along_undisturbed {α : Type} {call : SpoolCall α} (quiet : Quiet inner call) :
    call.Along (fun label m => Presented offered label m ∧ Undisturbed inner label m) m := by
  refine Call.Along.of_steps (Call.Steps.mono quiet fun label _ facts m' => ?_)
  have silent := facts.1
  cases label with
  | enqueue | expire | quarantine => cases silent
  | _ => exact ⟨trivial, trivial⟩

theorem Quiet.along_traced {α : Type} {call : SpoolCall α} (quiet : Quiet inner call)
    {start : Machine} {request : Request} : call.Along (Traced inner start request) m := by
  refine Call.Along.of_steps (Call.Steps.mono quiet fun label _ facts m' => ?_)
  have silent := facts.1
  cases label with
  | enqueue | expire | quarantine => cases silent
  | _ => exact trivial

/-- At every section of a batch builder the machine is a chain of effects away from where the builder
began. -/
theorem Labelled.along_traced {α : Type} {call : SpoolCall α} (labelled : Labelled inner call)
    (along : call.Along (Spoiled inner) m) {start : Machine} {request : Request}
    (before : Chain inner noOffers start m) : call.Along (Traced inner start request) m := by
  have chained := along.invariant (I := fun m' => Chain inner noOffers start m')
    (Call.Steps.mono labelled fun label act is m' spoiled before => ?_) before
  · refine chained.mono fun label m' facts => ?_
    have spoiled := facts.1
    cases label with
    | quarantine => exact facts
    | observe | read => trivial
    | _ => exact spoiled.elim
  · cases is with
    | observe same | read same =>
        rw [same]
        exact before
    | quarantine =>
        refine before.trans (((@post_quarantineRuntimeEntry inner noOffers m' _ spoiled.held
          ⟨_, spoiled.pathed.entries _ spoiled.held⟩ spoiled.damaged).mono
          (fun _ _ facts => facts.1) fun _ _ chain => chain).final
          (I := fun m₁ => Chain inner noOffers m' m₁))
    | _ => exact spoiled.elim

/-- How the sections of a call that runs alone come about. -/
theorem Request.along_traced (request : Request) (keyed : m.state.Keyed)
    (numbered : m.state.Numbered) (pathed : m.state.Pathed) :
    (request.call inner).Along (Traced inner m request) m := by
  have tail : ∀ {α β : Type} {call : SpoolCall α} {rest : α → SpoolCall β},
      call.Along (Traced inner m request) m → (∀ a, Quiet inner (rest a)) →
      (call >>= rest).Along (Traced inner m request) m := fun along quiet =>
    along.bind (Post.trivial.mono (fun a _ _ => (quiet a).along_traced) fun _ _ _ => trivial)
  cases request with
  | enqueue envelope admittedAtMs =>
      apply Call.Along.answering
      unfold TeslatlasEdge.enqueue
      split
      · trivial
      · refine Call.Along.bind ⟨trivial, trivial⟩ ?_
        simp only [Call.run_atomic, post_bind, post_get, post_ite, post_throw, post_pure]
        exact ⟨fun _ => trivial, fun _ => ⟨⟨rfl, rfl⟩, trivial⟩⟩
  | nextBatch nowMs =>
      refine Call.Along.answering (Call.Along.bind ⟨⟨rfl, rfl⟩, trivial⟩ ?_)
      simp only [TeslatlasEdge.expireDue, Call.run_atomic]
      refine (@post_expireDueLocked inner noOffers m _ keyed numbered).mono
        (fun _ m₁ chain => ?_)
        fun _ _ _ => trivial
      refine Call.Along.bind ⟨trivial, trivial⟩ ?_
      simp only [requireNoGaps, Call.run_atomic, post_bind, post_state, post_ite, post_throw,
        post_pure]
      exact ⟨fun _ => trivial, fun _ => ⟨fun _ => trivial, fun _ =>
        labelled_buildBatch.along_traced (along_buildBatch (chain.keyed keyed) (chain.pathed pathed))
          chain⟩⟩
  | nextBatchV2 restarts nowMs =>
      refine Call.Along.answering (Call.Along.bind ⟨⟨rfl, rfl⟩, trivial⟩ ?_)
      simp only [TeslatlasEdge.expireDue, Call.run_atomic]
      refine (@post_expireDueLocked inner noOffers m _ keyed numbered).mono
        (fun _ m₁ chain => ?_)
        fun _ _ _ => trivial
      exact (labelled_buildBatchV2 restarts).along_traced
        (along_buildBatchV2 (chain.keyed keyed) (chain.pathed pathed)) chain
  | expireDue nowMs => exact Call.Along.answering ⟨⟨rfl, rfl⟩, trivial⟩
  | acknowledge ack =>
      apply Call.Along.answering
      unfold TeslatlasEdge.acknowledge
      split
      · trivial
      · refine Call.Along.bind ⟨trivial, trivial⟩ ?_
        simp only [Call.run_atomic, post_bind, post_state, post_pure]
        cases m.state.receipts.get? ack.batchId with
        | some prior =>
            simp only
            split
            · trivial
            · exact Call.Along.answering ⟨trivial, trivial⟩
        | none =>
            refine Call.Along.bind ⟨trivial, trivial⟩ ?_
            simp only [Call.run_atomic, post_bind, post_state, post_ite, post_throw, post_pure]
            refine ⟨fun _ => trivial, fun _ =>
              tail (labelled_buildBatch.along_traced (along_buildBatch keyed pathed) .refl)
                fun delivered => ?_⟩
            split
            · exact Call.Steps.fail _
            · exact quiet_acknowledgeTail
  | acknowledgeV2 restarts ack =>
      apply Call.Along.answering
      unfold TeslatlasEdge.acknowledgeV2
      split
      · trivial
      · refine Call.Along.bind ⟨trivial, trivial⟩ ?_
        simp only [Call.run_atomic, post_bind, post_state, post_pure]
        cases m.state.receipts.get? ack.batchId with
        | some prior =>
            simp only
            split
            · trivial
            · exact Call.Along.answering ⟨trivial, trivial⟩
        | none =>
            refine tail ((labelled_buildBatchV2 restarts).along_traced
              (along_buildBatchV2 keyed pathed) .refl) fun delivered => ?_
            split
            · exact Call.Steps.fail _
            · exact quiet_acknowledgeV2Tail

/-- In a call that runs alone every section is presented with what the state holds. -/
theorem Request.along_presented (request : Request) (keyed : m.state.Keyed)
    (numbered : m.state.Numbered) (pathed : m.state.Pathed)
    (offer : ∀ envelope admittedAtMs, request = .enqueue envelope admittedAtMs →
      offered m.state.nextSpoolSequence envelope) :
    (request.call inner).Along (Presented offered) m := by
  refine (request.along_traced keyed numbered pathed).mono fun label m' traced => ?_
  cases label with
  | enqueue envelope admittedAtMs =>
      obtain ⟨rfl, asked⟩ := traced
      exact offer envelope admittedAtMs asked
  | quarantine entry =>
      have spoiled := traced.1
      exact ⟨.inr spoiled.held, fun _ => ⟨_, spoiled.pathed.entries entry spoiled.held⟩⟩
  | _ => trivial

end TeslatlasEdge
