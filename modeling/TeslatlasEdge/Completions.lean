/-
Module: TeslatlasEdge.Completions
Purpose: Completing receipts once more, or in another order.  The outcome is the same unless a
  counted entry is held together with its gap and a receipt accepts the notice of that gap: the first
  completion then takes the gap away and only a second one takes the entry.
Trusted boundary: none
Main exports: CompletesAlike, State.Doubled, completions_alike_iff
-/
import TeslatlasEdge.Counts
import TeslatlasEdge.Spool.Orders
import TeslatlasEdge.Spool.Working
import TeslatlasEdge.Scripts

namespace TeslatlasEdge

open Lib
open Section

/-! ### Completing receipts in turn -/

/-- What has gone is named by one of the receipts: entries and their counts by admission or by the
notice of their expiration, gaps by their notice. -/
structure OnlyNamed (host : Host) (receipts : List AckReceipt) (state left : State) : Prop where
  entries : ∀ entry, state.Holds entry → left.Holds entry ∨
    AdmittedBy receipts entry.admission ∨
    state.countedPendingExpirations.contains entry.spoolSeq = true ∧
      NoticedBy receipts (entry.retentionNoticeId host)
  gaps : ∀ noticeId gap, state.gaps.get? noticeId = some gap →
    left.gaps.get? noticeId = some gap ∨ NoticedBy receipts noticeId
  counted : ∀ s identity, state.countedPendingExpirations.get? s = some identity →
    left.countedPendingExpirations.get? s = some identity ∨
    (∃ admission, AdmittedBy receipts admission ∧ admission.spoolSeq = s ∧
      admission.stableRecordId = identity) ∨
    ∃ entry, state.Holds entry ∧ entry.spoolSeq = s ∧
      NoticedBy receipts (entry.retentionNoticeId host)

/-- Completing the one list of receipts and completing the other both succeed, leave the same
holdings, and remove nothing that no receipt names. -/
def CompletesAlike (inner : Inner) (m : Machine) (receipts order : List AckReceipt) : Prop :=
  ∃ flags flags' a b,
    replayReceipts inner receipts (false, false) m = .ok flags a ∧
    replayReceipts inner order (false, false) m = .ok flags' b ∧
    b.state.SameHoldings a.state ∧ OnlyNamed inner.host receipts m.state a.state

/-- A counted entry is held together with its gap, and the receipt accepts the notice of the gap but
not the entry. -/
structure State.Doubled (host : Host) (state : State) (receipt : AckReceipt) (entry : Entry)
    (gap : GapEntry) : Prop where
  held : state.Holds entry
  counted : state.countedPendingExpirations.contains entry.spoolSeq = true
  stands : state.gaps.get? (entry.retentionNoticeId host) = some gap
  noticed : entry.retentionNoticeId host ∈ receipt.acceptedGapNoticeIds
  unnamed : entry.admission ∉ receipt.acceptedAdmissions

section

variable {inner : Inner} {m : Machine}

/-- Replaying receipts leaves the state with each of them completed. -/
theorem post_replayReceipts_state {receipts : List AckReceipt} {flags : Bool × Bool} :
    Post (replayReceipts inner receipts flags) m
      (fun _ m' => m'.state = receipts.foldl (State.complete inner.host) m.state)
      (fun _ _ => True) := by
  induction receipts generalizing m flags with
  | nil => exact rfl
  | cons receipt rest ih =>
      simp only [replayReceipts, List.foldl_cons]
      refine post_completeAdmissions_state.bind fun removed m₁ admissions => ?_
      refine post_completeNotices_state.bind fun flags m₂ notices => ?_
      have done : m₂.state = m.state.complete inner.host receipt := by
        rw [notices, admissions]
        rfl
      rw [← done]
      exact ih

/-- On calm storage replaying cannot fail. -/
theorem calms_replayReceipts (receipts : List AckReceipt) (flags : Bool × Bool) :
    Calms (replayReceipts inner receipts flags) := by
  induction receipts generalizing flags with
  | nil => exact fun _ => .pure _
  | cons receipt rest ih =>
      exact fun latch => (calms_completeAdmissions _ _ latch).bind fun _ =>
        (calms_completeNotices _ _ latch).bind fun _ => ih _ latch

/-- While no file operation fails, completing receipts in turn computes the completed state. -/
theorem replayReceipts_ok (faultless : m.faults = .none) (receipts : List AckReceipt)
    (flags : Bool × Bool) : ∃ flags' m', replayReceipts inner receipts flags m = .ok flags' m' ∧
      m'.state = receipts.foldl (State.complete inner.host) m.state := by
  have succeeds := @calms_replayReceipts inner receipts flags m.storageWriteFailed m
    ⟨faultless, rfl⟩
  cases ran : replayReceipts inner receipts flags m with
  | ok flags' m' => exact ⟨flags', m', rfl, post_replayReceipts_state.of_ok ran⟩
  | error error m' => exact (succeeds.of_error ran).1.elim

/-- Without faults, completing alike is a matter of the states the completions leave. -/
theorem completesAlike_iff (faultless : m.faults = .none) (receipts order : List AckReceipt) :
    CompletesAlike inner m receipts order ↔
      (order.foldl (State.complete inner.host) m.state).SameHoldings
        (receipts.foldl (State.complete inner.host) m.state) ∧
      OnlyNamed inner.host receipts m.state
        (receipts.foldl (State.complete inner.host) m.state) := by
  obtain ⟨flags, a, ran, state⟩ := @replayReceipts_ok inner m faultless receipts (false, false)
  obtain ⟨flags', b, ran', state'⟩ := @replayReceipts_ok inner m faultless order (false, false)
  rw [← state, ← state']
  constructor
  · rintro ⟨_, _, a₁, b₁, one, other, facts⟩
    rw [ran] at one
    rw [ran'] at other
    cases one
    cases other
    exact facts
  · exact fun facts => ⟨flags, flags', a, b, ran, ran', facts⟩

/-- Receipts take away only what they name. -/
theorem Taken.onlyNamed {host : Host} {receipts : List AckReceipt} {state left : State}
    (taken : Taken host (AdmittedBy receipts) (NoticedBy receipts) state left) :
    OnlyNamed host receipts state left := by
  refine ⟨fun entry held => ?_, taken.gaps, fun s identity found => ?_⟩
  · rcases taken.kept entry held with kept | accepted | ⟨counted, named, -⟩
    · exact .inl kept
    · exact .inr (.inl accepted)
    · exact .inr (.inr ⟨counted, named⟩)
  · rcases taken.counts s identity found with kept | admitted | ⟨entry, held, same, named, -⟩
    · exact .inl kept
    · exact .inr (.inl admitted)
    · exact .inr (.inr ⟨entry, held, same, named⟩)

end

/-! ### Receipts of a run -/

section

variable {inner : Inner} {offered : Nat → Envelope → Prop} {since : List Disk} {m : Machine}

/-- What durable receipts accept fits the state, whatever else is accepted of the held entries. -/
theorem Sound.completable (sound : Sound inner.key inner.host offered since m)
    (ready : Ready inner.key m) (distinct : DistinctNotices inner.host offered)
    (fit : m.state.CountsFit) {admitted : ReceiptAdmission → Prop} {noticed : RecordId → Prop}
    (origin : ∀ admission, admitted admission →
      (∃ receipt, Receipted inner.key m.timeline receipt ∧
        admission ∈ receipt.acceptedAdmissions) ∨
      ∃ entry, m.state.Holds entry ∧ admission = entry.admission)
    (whole : ∀ entry gap, m.state.Holds entry →
      m.state.countedPendingExpirations.contains entry.spoolSeq = true →
      noticed (entry.retentionNoticeId inner.host) →
      m.state.gaps.get? (entry.retentionNoticeId inner.host) = some gap →
      admitted entry.admission) :
    m.state.Completable inner.host admitted noticed := by
  refine ⟨ready.keyed, ready.numbered.single, fun admission entry accepted held same => ?_,
    fun entry other held held' same => ?_, fit.agree, whole⟩
  · rcases origin admission accepted with ⟨receipt, receipted, inside⟩ | ⟨other, held', rfl⟩
    · obtain ⟨-, record, known, stable, legacy⟩ :=
        (sound.lawful.accepted receipt receipted).admissions admission inside
      obtain ⟨mine, known', legacy', stable'⟩ := sound.backed.entry entry held
      rw [same] at known
      obtain rfl := sound.lawful.once _ _ _ known known'
      have stables : admission.stableRecordId = entry.stableRecordId :=
        Option.some.inj (stable.symm.trans stable')
      have legacies : admission.legacyRecordId = entry.recordId := legacy.symm.trans legacy'
      obtain ⟨s, stableId, legacyId⟩ := admission
      simp only at same stables legacies
      rw [same, stables, legacies]
      rfl
    · rw [ready.numbered.single other entry held' held same]
  · exact sound.lawful.notice_seq distinct
      (sound.backed.noticeOf held inner.host entry.expiresAtMs .retentionExpired)
      (sound.backed.noticeOf held' inner.host other.expiresAtMs .retentionExpired) same

/-- A durable receipt fits the state if every held entry counts as accepted. -/
theorem Sound.completable_held (sound : Sound inner.key inner.host offered since m)
    (ready : Ready inner.key m) (distinct : DistinctNotices inner.host offered)
    (fit : m.state.CountsFit) {receipt : AckReceipt}
    (receipted : Receipted inner.key m.timeline receipt) :
    m.state.Completable inner.host
      (fun admission => admission ∈ receipt.acceptedAdmissions ∨
        ∃ entry, m.state.Holds entry ∧ admission = entry.admission)
      (· ∈ receipt.acceptedGapNoticeIds) := by
  refine sound.completable ready distinct fit (fun admission accepted => ?_)
    fun entry _ held _ _ _ => .inr ⟨entry, held, rfl⟩
  rcases accepted with inside | held
  · exact .inl ⟨receipt, receipted, inside⟩
  · exact .inr held

/-- An entry that the receipt names only through a gap that is held outlasts its completion. -/
theorem State.Doubled.outlasts {host : Host} {state : State} {receipt : AckReceipt} {entry : Entry}
    {gap : GapEntry} (doubled : state.Doubled host receipt entry gap) (keyed : state.Keyed)
    (single : receipt.acceptedGapNoticeIds.Nodup) :
    (state.complete host receipt).Holds entry := by
  obtain ⟨before, after, split⟩ := List.append_of_mem doubled.noticed
  rw [split] at single
  obtain ⟨-, rest, apart⟩ := List.nodup_append'.mp single
  have fresh : entry.retentionNoticeId host ∉ before := fun inside =>
    apart inside List.mem_cons_self
  have last : entry.retentionNoticeId host ∉ after := (List.nodup_cons.mp rest).1
  -- until its notice comes up nothing names the entry, and its gap stands
  have first : Takes host receipt.acceptedAdmissions before state
      (before.foldl (State.withoutNotice host)
        (receipt.acceptedAdmissions.foldl State.withoutAdmission state)) := by
    have records : Takes host receipt.acceptedAdmissions before state
        (receipt.acceptedAdmissions.foldl State.withoutAdmission state) :=
      takes_foldl_withoutAdmission fun _ inside => inside
    exact records.trans (takes_foldl_withoutNotice (records.keyed keyed) fun _ inside => inside)
  set left := before.foldl (State.withoutNotice host)
    (receipt.acceptedAdmissions.foldl State.withoutAdmission state) with left_eq
  have held : left.Holds entry := by
    rcases first.entries keyed entry doubled.held with kept | accepted | ⟨-, accepted⟩
    · exact kept
    · exact absurd accepted doubled.unnamed
    · exact absurd accepted fresh
  have stands : left.gaps.get? (entry.retentionNoticeId host) = some gap :=
    (first.gaps _ gap doubled.stands).resolve_right fresh
  have dropped : left.withoutNotice host (entry.retentionNoticeId host) =
      left.dropGap (entry.retentionNoticeId host) gap := by
    rw [State.withoutNotice, stands]
  have keyed' : (left.dropGap (entry.retentionNoticeId host) gap).Keyed := first.keyed keyed
  have second : Takes host [] after (left.dropGap (entry.retentionNoticeId host) gap)
      (after.foldl (State.withoutNotice host)
        (left.dropGap (entry.retentionNoticeId host) gap)) :=
    takes_foldl_withoutNotice keyed' fun _ inside => inside
  have whole : state.complete host receipt = after.foldl (State.withoutNotice host)
      (left.dropGap (entry.retentionNoticeId host) gap) := by
    rw [State.complete, split, List.foldl_append, List.foldl_cons, ← left_eq, dropped]
  rw [whole]
  rcases second.entries keyed' entry held with kept | accepted | ⟨-, accepted⟩
  · exact kept
  · exact absurd accepted List.not_mem_nil
  · exact absurd accepted last

/-- Completing the receipt a second time takes the entry away as well. -/
theorem State.Doubled.twice (sound : Sound inner.key inner.host offered since m)
    (ready : Ready inner.key m) (distinct : DistinctNotices inner.host offered)
    (fit : m.state.CountsFit) {receipt : AckReceipt} {entry : Entry} {gap : GapEntry}
    (receipted : Receipted inner.key m.timeline receipt)
    (doubled : m.state.Doubled inner.host receipt entry gap) :
    (m.state.complete inner.host receipt).Holds entry ∧
      ¬ ((m.state.complete inner.host receipt).complete inner.host receipt).Holds entry := by
  have kept := doubled.outlasts ready.keyed (sound.lawful.drawn receipt receipted).single
  refine ⟨kept, fun again => ?_⟩
  -- accepting every held entry as a record would allow for the completion that was made
  have fits := sound.completable_held ready distinct fit receipted
  obtain ⟨taken, -, done⟩ := (Taken.refl m.state).complete fits (fun _ inside => .inl inside)
    fun _ inside => inside
  set left := m.state.complete inner.host receipt with left_eq
  have gone := (done.notices _ doubled.noticed).gap
  have clear : ∀ noticeId ∈ receipt.acceptedGapNoticeIds, left.gaps.get? noticeId = none :=
    fun noticeId inside => (done.notices noticeId inside).gap
  have releases := taken.releases
  have fits' : left.Completable inner.host (· ∈ receipt.acceptedAdmissions)
      (· ∈ receipt.acceptedGapNoticeIds) := by
    refine ⟨releases.keyed ready.keyed, fun entry other held held' => ?_,
      fun admission entry accepted held => ?_, fun entry other held held' => ?_,
      fun entry held identity found => ?_, fun entry gap held counted noticed found => ?_⟩
    · exact fits.single entry other (releases.kept.1 _ held) (releases.kept.1 _ held')
    · exact fits.fits admission entry (.inl accepted) (releases.kept.1 _ held)
    · exact fits.notices entry other (releases.kept.1 _ held) (releases.kept.1 _ held')
    · exact fit.agree entry (releases.kept.1 _ held) identity (releases.counted found)
    · rw [clear _ noticed] at found
      cases found
  obtain ⟨-, -, done'⟩ := (Taken.refl left).complete fits' (fun _ inside => inside)
    fun _ inside => inside
  have uncounted := (done'.notices _ doubled.noticed).backing entry again rfl gone
  rw [OrdMap.contains, taken.held entry kept] at uncounted
  exact absurd (uncounted.symm.trans doubled.counted) Bool.false_ne_true

end

section

variable {key : EncryptionKey} {host : Host} {w : World}

/-- Completing durable receipts is idempotent and independent of their order exactly where no
receipt accepts the gap of a counted entry that is still held with it. -/
theorem completions_alike_iff {process : Process} (reach : Reach (UnderKey key host) w)
    (distinct : DistinctNotices host w.Offered) (running : w.process = some process) :
    (∀ receipts order : List AckReceipt,
        (∀ receipt ∈ receipts, Receipted key w.timeline receipt) →
        (∀ receipt, receipt ∈ order ↔ receipt ∈ receipts) →
        CompletesAlike process.inner (w.machine process .none) receipts order) ↔
      ∀ receipt, Receipted key w.timeline receipt →
        ∀ entry gap, ¬ process.state.Doubled host receipt entry gap := by
  have kept := reach.kept distinct
  obtain ⟨rfl, rfl, backing⟩ := kept.running process running
  obtain ⟨sound, ready⟩ := backing .none
  have fit : (w.machine process .none).state.CountsFit := reach.countsFit distinct process running
  constructor
  · intro alike receipt receipted entry gap doubled
    have both := alike [receipt] [receipt, receipt] (fun other inside => by
      rw [List.mem_singleton.mp inside]
      exact receipted) fun other => by simp
    rw [completesAlike_iff rfl] at both
    obtain ⟨once, twice⟩ := State.Doubled.twice sound ready distinct fit receipted doubled
    have same := both.1.entries
    simp only [List.foldl_cons, List.foldl_nil] at same
    apply twice
    rw [State.Holds, same]
    exact once
  · intro apart receipts order receipted same
    have fits : (w.machine process .none).state.Completable process.inner.host
        (AdmittedBy receipts) (NoticedBy receipts) := by
      refine sound.completable ready distinct fit (fun admission accepted => ?_)
        fun entry gap held counted noticed stands => ?_
      · obtain ⟨receipt, inside, accepted⟩ := accepted
        exact .inl ⟨receipt, receipted receipt inside, accepted⟩
      · obtain ⟨receipt, inside, accepted⟩ := noticed
        by_contra unnamed
        exact apart receipt (receipted receipt inside) entry gap
          ⟨held, counted, stands, accepted, fun named => unnamed ⟨receipt, inside, named⟩⟩
    rw [completesAlike_iff rfl]
    obtain ⟨taken, -, -⟩ := taken_completions fits (fun _ inside => inside) (.refl _)
    exact ⟨completions_sameHoldings fits same, taken.onlyNamed⟩

end

/-! ### An interrupted acknowledgement -/

/-- The file is the receipt, encrypted under the key. -/
def Blob.seals (key : EncryptionKey) (receipt : AckReceipt) : Blob → Bool
  | .encrypted sealer (.receipt inside) => decide (sealer = key) && decide (inside = receipt)
  | _ => false

theorem Blob.eq_encrypt_of_seals {key : EncryptionKey} {receipt : AckReceipt} {body : Blob}
    (seals : body.seals key receipt = true) : body = key.encrypt (.receipt receipt) := by
  unfold Blob.seals at seals
  split at seals
  · rw [Bool.and_eq_true, decide_eq_true_eq, decide_eq_true_eq] at seals
    rw [seals.1, seals.2]
    rfl
  · cases seals

/-- Acknowledge everything in the batch just delivered, while no file can be removed at first. -/
def acknowledgeInterrupted : Player := fun w => w.lastBatch.map fun batch =>
  .call (.acknowledgeV2 2
    { version := 2
      batchId := batch.batchId
      acceptedRecordIds := batch.records.map (·.recordId)
      acceptedGapNoticeIds := batch.gaps.map (·.noticeId) })
    { Faults.none with removals := [some false] }

/-- The receipt of the batch is durable, and what it accepts is still held. -/
theorem acknowledgeInterrupted_plays :
    ((World.fresh.follow (cutPull ++ [acknowledgeInterrupted])).any fun w =>
      decide (w.TellsApart (referenceHost integerCodec)) &&
      w.process.any fun process => process.state.receipts.values.any fun entry =>
        ((w.disk.receipts.lookup (receiptFileName entry.receipt.sequence
          entry.receipt.batchId)).any fun body => body.seals sampleKey entry.receipt) &&
        (process.state.entries.values.all (fun held =>
            !process.state.countedPendingExpirations.contains held.spoolSeq) &&
          decide (process.state.entries.size = 2 ∧ process.state.gaps.size = 1 ∧
            (process.state.complete process.inner.host entry.receipt).entries.size = 1 ∧
            (process.state.complete process.inner.host entry.receipt).gaps.size = 0))) = true := by
  decide +kernel

theorem completions_alike_iff_acknowledgeInterrupted :
    ∃ (w : World) (process : Process) (receipt : AckReceipt), w.process = some process ∧
      Receipted sampleKey w.timeline receipt ∧
      (process.state.entries.size = 2 ∧ process.state.gaps.size = 1 ∧
        (process.state.complete process.inner.host receipt).entries.size = 1 ∧
        (process.state.complete process.inner.host receipt).gaps.size = 0) ∧
      ∀ receipts order : List AckReceipt,
        (∀ receipt ∈ receipts, Receipted sampleKey w.timeline receipt) →
        (∀ receipt, receipt ∈ order ↔ receipt ∈ receipts) →
        CompletesAlike process.inner (w.machine process .none) receipts order := by
  obtain ⟨w, followed, shows⟩ := (Option.any_eq_true _ _).mp acknowledgeInterrupted_plays
  rw [Bool.and_eq_true, decide_eq_true_eq] at shows
  obtain ⟨apart, shows⟩ := shows
  obtain ⟨process, running, shows⟩ := (Option.any_eq_true _ _).mp shows
  obtain ⟨entry, -, shows⟩ := List.any_eq_true.mp shows
  simp only [Bool.and_eq_true, decide_eq_true_eq] at shows
  obtain ⟨stands, uncounted, sizes⟩ := shows
  obtain ⟨body, found, seals⟩ := (Option.any_eq_true _ _).mp stands
  rw [Blob.eq_encrypt_of_seals seals] at found
  have reach : Reach (UnderKey sampleKey (referenceHost integerCodec)) w := by
    refine World.reach_of_follow .start (fun player inside w move chosen => ?_) followed
    rcases List.mem_append.mp inside with early | last
    · exact (reopenedSpool_untouched player (acknowledgedPull_subset (List.mem_append_left _ early)) w
        move chosen).underKey
    · obtain rfl := List.mem_singleton.mp last
      obtain ⟨batch, -, rfl⟩ := Option.map_eq_some_iff.mp chosen
      trivial
  refine ⟨w, process, entry.receipt, running, ⟨w.disk, List.mem_cons_self, found⟩, sizes,
    (completions_alike_iff reach apart.distinctNotices running).mpr fun receipt _ held gap doubled => ?_⟩
  have here := List.all_eq_true.mp uncounted held (OrdMap.mem_values_iff.mpr ⟨_, doubled.held⟩)
  rw [doubled.counted] at here
  cases here

/-! ### A doubled entry -/

/-- Acknowledge the gaps of the batch just delivered, the last one first. -/
def acknowledgeBackwards (faults : Faults) : Player := fun w => w.lastBatch.map fun batch =>
  .call (.acknowledgeV2 2
    { version := 2
      batchId := batch.batchId
      acceptedRecordIds := []
      acceptedGapNoticeIds := (batch.gaps.map (·.noticeId)).reverse }) faults

/-- An entry is counted as expired while two gaps leave no room for its own.  The acknowledgement of
both notices makes room, but cannot remove the pending file; the gap is then recorded while the entry
stays. -/
def doubledExpiry : List Player :=
  [always (.openSpool (sampleInner 3) (sampleTime 0) .none),
    always (.call (.enqueue (sampleEnvelope "c") (sampleTime 100000)) .none),
    always (.call (.enqueue (sampleEnvelope "a") (sampleTime 0)) .none),
    always (.call (.enqueue (sampleEnvelope "b") (sampleTime 0)) .none),
    always (.call (.nextBatchV2 2 (sampleTime 61000)) .none),
    always .drop,
    always (.openSpool (sampleInner 2) (sampleTime 61000) .none),
    always (.call (.nextBatchV2 2 (sampleTime 200000)) .none),
    acknowledgeBackwards { Faults.none with removals := [none, some false] },
    always (.call (.expireDue (sampleTime 200000)) { Faults.none with removals := [some false] })]

theorem doubledExpiry_untouched :
    ∀ player ∈ doubledExpiry, ∀ w move, player w = some move →
      Untouched sampleKey (referenceHost integerCodec) w move := by
  intro player inside w move chosen
  simp only [doubledExpiry, List.mem_cons, List.not_mem_nil, or_false] at inside
  rcases inside with rfl | rfl | rfl | rfl | rfl | rfl | rfl | rfl | rfl | rfl
  · obtain rfl := Option.some.inj chosen
    exact ⟨rfl, rfl⟩
  · obtain rfl := Option.some.inj chosen
    trivial
  · obtain rfl := Option.some.inj chosen
    trivial
  · obtain rfl := Option.some.inj chosen
    trivial
  · obtain rfl := Option.some.inj chosen
    trivial
  · obtain rfl := Option.some.inj chosen
    trivial
  · obtain rfl := Option.some.inj chosen
    exact ⟨rfl, rfl⟩
  · obtain rfl := Option.some.inj chosen
    trivial
  · obtain ⟨batch, -, rfl⟩ := Option.map_eq_some_iff.mp chosen
    trivial
  · obtain rfl := Option.some.inj chosen
    trivial

/-- After the doubled expiry a second completion takes more away than the first. -/
theorem doubledExpiry_shrinks :
    ((World.fresh.follow doubledExpiry).any fun w => w.process.any fun process =>
      process.state.receipts.values.any fun entry =>
        ((w.disk.receipts.lookup (receiptFileName entry.receipt.sequence
          entry.receipt.batchId)).any fun body => body.seals sampleKey entry.receipt) &&
        decide (([entry.receipt, entry.receipt].foldl (State.complete process.inner.host)
            process.state).entries.size ≠
          ([entry.receipt].foldl (State.complete process.inner.host) process.state).entries.size)) =
      true := by
  decide +kernel

/-- Completing the one durable receipt twice leaves fewer entries than completing it once. -/
theorem completions_differ_doubledExpiry :
    ∃ (w : World) (process : Process) (receipt : AckReceipt),
      Reach (Untouched sampleKey (referenceHost integerCodec)) w ∧ w.process = some process ∧
      Receipted sampleKey w.timeline receipt ∧
      ¬ CompletesAlike process.inner (w.machine process .none) [receipt] [receipt, receipt] := by
  obtain ⟨w, followed, shows⟩ := (Option.any_eq_true _ _).mp doubledExpiry_shrinks
  obtain ⟨process, running, shows⟩ := (Option.any_eq_true _ _).mp shows
  simp only [List.any_eq_true, Bool.and_eq_true, decide_eq_true_eq] at shows
  obtain ⟨entry, -, stands, apart⟩ := shows
  obtain ⟨body, found, seals⟩ := (Option.any_eq_true _ _).mp stands
  rw [Blob.eq_encrypt_of_seals seals] at found
  refine ⟨w, process, entry.receipt, World.reach_of_follow .start doubledExpiry_untouched followed,
    running, ⟨w.disk, List.mem_cons_self, found⟩, fun alike => apart ?_⟩
  have same := ((completesAlike_iff rfl _ _).mp alike).1.entries
  exact congrArg OrdMap.size same

end TeslatlasEdge
