/-
Module: TeslatlasEdge.Limits
Purpose: What holds of a running spool in every run under configurations within the limits, however
  writes, removals and renames fail: the maps and sums of its state agree with each other.
Trusted boundary: none
Main exports: Limited, Cohering, Reach.coherent
-/
import TeslatlasEdge.Consistency

namespace TeslatlasEdge

open Lib

/-- The spool is opened under one key within the limits, and files are damaged so that the key no
longer opens them. -/
def Limited (key : EncryptionKey) (host : Host) (_ : World) : Move → Prop
  | .openSpool inner _ _ => inner.key = key ∧ inner.host = host ∧ inner.config.WithinLimits
  | .damage _ body | .damageReceipt _ body => Unreadable key host body
  | _ => True

section

variable {key : EncryptionKey} {host : Host} {w w' : World}

theorem Limited.underKey {move : Move} (limited : Limited key host w move) :
    UnderKey key host w move := by
  cases move with
  | openSpool => exact ⟨limited.1, limited.2.1⟩
  | damage | damageReceipt => exact limited
  | call | drop | relist => trivial

/-- A running process is within the limits, and its maps and sums agree with each other. -/
def Cohering (host : Host) (w : World) : Prop :=
  ∀ process, w.process = some process →
    process.inner.config.WithinLimits ∧ Ranged process.state ∧ Coherent host w.Offered process.state

theorem Coherent.offering {offered permitted : Nat → Envelope → Prop} {state : State}
    (weaker : ∀ s envelope, offered s envelope → permitted s envelope)
    (coherent : Coherent host offered state) : Coherent host permitted state := by
  refine { coherent with origin := fun entry held => ?_ }
  obtain ⟨s, envelope, offer, facts⟩ := coherent.origin entry held
  exact ⟨s, envelope, weaker s envelope offer, facts⟩

/-- A call keeps the state coherent, whatever fails in it. -/
theorem Kept.coherent_served (kept : Kept key host w) {process : Process}
    (running : w.process = some process) {request : Request} {faults : Faults}
    {reply : Option (Except SpoolError Reply)}
    (logged : w'.log = ⟨process.state.nextSpoolSequence, request, reply⟩ :: w.log)
    (faithful : FaithfulIds host w'.Offered) (limits : process.inner.config.WithinLimits)
    (ranged : Ranged process.state) (coherent : Coherent host w.Offered process.state) :
    Ranged (finalState (w.serve process request faults)).state ∧
      Coherent host w'.Offered (finalState (w.serve process request faults)).state := by
  obtain ⟨-, rfl, backing⟩ := kept.running process running
  obtain ⟨-, ready⟩ := backing faults
  have offer : ∀ envelope admittedAtMs, request = .enqueue envelope admittedAtMs →
      w'.Offered (w.machine process faults).state.nextSpoolSequence envelope := by
    intro envelope admittedAtMs same
    refine ⟨⟨process.state.nextSpoolSequence, request, reply⟩, ?_, rfl, admittedAtMs, same⟩
    rw [logged]
    exact List.mem_cons_self
  have grown : ∀ s envelope, w.Offered s envelope → w'.Offered s envelope := by
    rintro s envelope ⟨event, inside, facts⟩
    refine ⟨event, ?_, facts⟩
    rw [logged]
    exact List.mem_cons_of_mem _ inside
  have presented : (request.call process.inner).Along (Presented w'.Offered) _ :=
    request.along_presented ready.keyed ready.numbered ready.pathed offer
  let I : Machine → Prop := fun m =>
    Ranged m.state ∧ Coherent process.inner.host w'.Offered m.state
  refine (Call.run_invariant (I := I) (Call.Steps.mono request.sections ?_) presented
    ⟨ranged, coherent.offering grown⟩).final (I := I)
  rintro label act is m presented ⟨ranged, coherent⟩
  have changes : Changes process.inner w'.Offered True m.state (act m).state :=
    is.changes coherent.keyed presented fun _ => trivial
  exact changes.coherent faithful limits.maxBytes_lt ranged coherent

/-- Every move within the limits keeps the state coherent. -/
theorem Cohering.step {move : Move} (cohering : Cohering host w) (kept : Kept key host w)
    (may : Limited key host w move) (moved : Step w move w')
    (distinct : DistinctNotices host w'.Offered) (faithful : FaithfulIds host w'.Offered) :
    Cohering host w' := by
  have gone : ∀ {d : Disk} {older : List Disk} {log : List Event},
      Cohering host ⟨d, older, log, none⟩ := fun process running => by cases running
  cases moved with
  | @opened inner nowMs faults after closed ran =>
      obtain ⟨rfl, rfl, limits⟩ := may
      intro process running
      obtain rfl := Option.some.inj running
      obtain ⟨-, -, m₁, recovered, changes⟩ := (post_openSpool (m := w.opening faults)
        (loadSteps_loaded limits.maxBytes_lt) distinct kept.always rfl
        (loaded_initial inner.host)).of_ok ran
      have agrees := recovered.agrees
      exact ⟨limits, (changes.mono (fun _ _ offer => offer.elim) fun torn => torn).coherent faithful
        limits.maxBytes_lt agrees.ranged agrees.coherent⟩
  | openFailed | openStopped | callStopped | dropped => exact gone
  | openRefused => exact cohering
  | @returned request faults process running =>
      obtain ⟨limits, ranged, coherent⟩ := cohering process running
      intro other same
      obtain rfl := Option.some.inj same
      exact ⟨limits, kept.coherent_served running rfl faithful limits ranged coherent⟩
  | damaged | receiptDamaged | relisted => exact cohering

/-- In every run within the limits the state of a running spool is coherent. -/
theorem Reach.coherent (reach : Reach (Limited key host) w)
    (distinct : DistinctNotices host w.Offered) (faithful : FaithfulIds host w.Offered) :
    Cohering host w := by
  induction reach with
  | start => exact fun process running => by cases running
  | step before may moved ih =>
      have earlier := distinct.offering moved.offered
      have kept := (before.mono fun _ _ limited => limited.underKey).kept earlier
      exact (ih earlier (faithful.offering moved.offered)).step kept may moved distinct faithful

end

end TeslatlasEdge
