/-
Module: TeslatlasEdge.Retention
Purpose: Retention loss is counted exactly once.  In every run the total in the sequence file is the
  number of sequences its versions have listed, and every expiration that a gap file or a delivered
  notice tells of is among them.
Trusted boundary: none
Main exports: World.RetentionCounted, retention_counted_once
-/
import TeslatlasEdge.Ledger

namespace TeslatlasEdge

open Lib

/-- Every expiration the batch tells of has been listed. -/
def HubBatchV2.Counted (timeline : List Disk) (batch : HubBatchV2) : Prop :=
  ∀ notice ∈ batch.gaps, notice.reason = .retentionExpired →
    notice.spoolSeq ∈ listedSequences timeline

/-- What was counted once stays counted. -/
theorem HubBatchV2.Counted.mono {older newer : List Disk} {batch : HubBatchV2}
    (counted : batch.Counted older) (later : older <:+ newer) : batch.Counted newer :=
  fun notice inside retention => listedSequences_mono later (counted notice inside retention)

/-- A batch tells of expirations that are recorded in gap files or counted in the state. -/
theorem BatchOf.counted {inner : Inner} {offered : Nat → Envelope → Prop} {since : List Disk}
    {m : Machine} {batch : HubBatchV2} {items : List BatchItemV2}
    (built : BatchOf inner m batch items) (keyed : m.state.Keyed)
    (sound : Sound inner.key inner.host offered since m)
    (faithful : FaithfulIds inner.host offered) : batch.Counted m.timeline := by
  intro notice inside retention
  rcases built.gap_source keyed inside with ⟨noticeId, gap, found, rfl⟩ |
    ⟨entry, held, counted, rfl⟩
  · have stands := sound.backed.gap noticeId gap found
    rw [sound.backed.pathed.gaps noticeId gap found] at stands
    exact (sound.lawful.tally faithful).gap _ _ stands retention
  · exact (sound.accounts faithful).tally.counted _ counted

section Runs

variable {key : EncryptionKey} {host : Host} {w : World}

/-- Every delivered batch tells of listed expirations only. -/
theorem Reach.deliversCounted (reach : Reach (UnderKey key host) w)
    (distinct : DistinctNotices host w.Offered) (faithful : FaithfulIds host w.Offered) :
    ∀ event ∈ w.log, ∀ batch, event.Delivered batch → batch.Counted w.timeline := by
  apply reach.told (P := fun timeline event =>
    ∀ batch, event.Delivered batch → batch.Counted timeline) (fun _ _ offer => offer) distinct
  · exact fun older newer event later counted batch delivered =>
      (counted batch delivered).mono later
  · intro d e older event same counted batch delivered notice inside retention
    rw [listedSequences_congr (same.read .sequence)]
    exact counted batch delivered notice inside retention
  · intro timeline s request batch delivered
    cases delivered
  · intro timeline s request error batch delivered
    cases delivered
  · rintro inner m m' request reply answered batch delivered
    obtain rfl : reply = .batchV2 batch := Except.ok.inj (Option.some.inj delivered)
    obtain ⟨items, built⟩ := answered.built
    obtain ⟨rfl, rfl, -, sound, ready, -⟩ := answered
    exact built.counted ready.keyed sound faithful

/-- How expirations have been counted up to now. -/
structure World.RetentionCounted (key : EncryptionKey) (w : World) : Prop where
  /-- The total counts the distinct sequences any version of the sequence file has listed. -/
  total : w.disk.savedTotal = (listedSequences w.timeline).card
  /-- Every expiration a gap file has ever told of is listed. -/
  gapFiles : ∀ d ∈ w.timeline, ∀ name notice,
    d.gaps.lookup name = some (key.encrypt (.gap notice)) → notice.reason = .retentionExpired →
    notice.spoolSeq ∈ listedSequences w.timeline
  /-- Every expiration a delivered notice has told of is listed. -/
  delivered : ∀ notice, w.Delivered (.gap notice) → notice.reason = .retentionExpired →
    notice.spoolSeq ∈ listedSequences w.timeline

/-- Retention loss is counted exactly once. -/
theorem retention_counted_once (reach : Reach (Untouched key host) w)
    (distinct : DistinctNotices host w.Offered) (faithful : FaithfulIds host w.Offered) :
    w.RetentionCounted key := by
  have under := reach.mono fun _ _ untouched => untouched.underKey
  have kept := under.kept distinct
  have delivers := under.deliversCounted distinct faithful
  refine ⟨((kept.always.laws _ _ (List.suffix_refl _)).tally faithful).total, ?_, ?_⟩
  · intro d inside name notice stands retention
    obtain ⟨newer, older, split⟩ := List.append_of_mem inside
    have within : d :: older <:+ w.timeline := ⟨newer, split.symm⟩
    exact listedSequences_mono within
      (((kept.always.laws d older within).tally faithful).gap name notice stands retention)
  · rintro notice ⟨event, inside, batch, success, ⟨record, -, same⟩ | ⟨other, here, same⟩⟩ retention
    · cases same
    · obtain rfl := BatchItemV2.gap.inj same
      exact delivers event inside batch success notice here retention

end Runs

/-! ### An expiration -/

/-- A record is admitted and a batch is pulled after its deadline. -/
def expiredPull : List Move :=
  [.openSpool (sampleInner 4) (sampleTime 0) .none,
    .call (.enqueue (sampleEnvelope "a") (sampleTime 1)) .none,
    .call (.nextBatchV2 2 (sampleTime 70000)) .none]

theorem expiredPull_untouched :
    ∀ w, ∀ move ∈ expiredPull, Untouched sampleKey (referenceHost integerCodec) w move := by
  intro w move inside
  simp only [expiredPull, List.mem_cons, List.not_mem_nil, or_false] at inside
  rcases inside with rfl | rfl | rfl
  · exact ⟨rfl, rfl⟩
  · trivial
  · trivial

theorem expiredPull_plays :
    ((World.fresh.play expiredPull).any fun w => decide w.OffersOnce &&
      w.lastBatch.any fun batch =>
        batch.gaps.any fun notice => decide (notice.reason = .retentionExpired)) = true := by
  decide +kernel

theorem retention_counted_once_expiredPull :
    ∃ w : World, (∃ batch, w.lastBatch = some batch ∧
        ∃ notice ∈ batch.gaps, notice.reason = .retentionExpired) ∧
      w.RetentionCounted sampleKey := by
  obtain ⟨w, played, shows⟩ := (Option.any_eq_true _ _).mp expiredPull_plays
  rw [Bool.and_eq_true, decide_eq_true_eq] at shows
  obtain ⟨once, shows⟩ := shows
  obtain ⟨batch, last, shows⟩ := (Option.any_eq_true _ _).mp shows
  obtain ⟨notice, inside, retention⟩ := List.any_eq_true.mp shows
  exact ⟨w, ⟨batch, last, notice, inside, of_decide_eq_true retention⟩,
    retention_counted_once (World.reach_of_play .start expiredPull_untouched played)
      (once.distinctNotices _) (once.faithfulIds _)⟩

end TeslatlasEdge
