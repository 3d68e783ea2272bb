/-
Module: TeslatlasEdge.Repetition
Purpose: What an accepted v1 acknowledgement deletes.  It deletes the acknowledged records and nothing
  else, unless it repeats a receipt whose occurrences are no longer the pending ones.
Trusted boundary: none
Main exports: HubAckV1.DeletesExactly, HubAckV1.RepeatsPending, acknowledge_deletes_iff
-/
import TeslatlasEdge.DeliveryV1
import TeslatlasEdge.Protocols

namespace TeslatlasEdge

open Lib
open Section

/-- The acknowledged records have left the queue and are all the answer tells of; every other entry
is there with its file. -/
structure HubAckV1.DeletesExactly (ack : HubAckV1) (result : HubAckResultV1) (m m' : Machine) :
    Prop where
  told : result.acknowledgedRecordIds.Perm ack.acceptedRecordIds
  entries : ∀ entry, m'.state.Holds entry ↔
    m.state.Holds entry ∧ entry.recordId ∉ ack.acceptedRecordIds
  files : ∀ entry, m'.state.Holds entry → m'.disk.read entry.path = m.disk.read entry.path

/-- Where a retained receipt answers for the acknowledgement, the occurrences it accepts are those
under which the acknowledged records are pending. -/
def HubAckV1.RepeatsPending (ack : HubAckV1) (state : State) : Prop :=
  ack.version = 1 → ack.acceptedRecordIds.Nodup →
    ∀ prior, state.receipts.get? ack.batchId = some prior →
      sameRecordIds prior.receipt.acceptedRecordIds ack.acceptedRecordIds = true →
      ∀ entry, state.Holds entry →
        (entry.recordId ∈ ack.acceptedRecordIds ↔
          entry.admission ∈ prior.receipt.acceptedAdmissions)

/-! ### Completion where nothing is a gap -/

/-- No gap is held, and no held entry is counted as expired. -/
structure State.Clear (state : State) : Prop where
  keyed : state.Keyed
  gapless : ∀ noticeId, state.gaps.get? noticeId = none
  uncounted : ∀ entry, state.Holds entry →
    state.countedPendingExpirations.contains entry.spoolSeq = false

section

variable {host : Host} {state : State}

/-- Without an admission, what is held is what was held under another. -/
theorem State.holds_withoutAdmission {admission : ReceiptAdmission} {entry : Entry} :
    (state.withoutAdmission admission).Holds entry ↔
      state.Holds entry ∧ entry.admission ≠ admission := by
  unfold State.withoutAdmission
  cases admitted : admittedEntry state admission with
  | some other =>
      obtain ⟨held, rfl⟩ := admittedEntry_eq_some.mp admitted
      exact State.holds_release held
  | none =>
      have absent : state.Holds entry → entry.admission ≠ admission := by
        intro held same
        rw [admittedEntry_eq_some.mpr ⟨held, same⟩] at admitted
        cases admitted
      simp only
      split
      · exact ⟨fun held => ⟨held, absent held⟩, And.left⟩
      · exact ⟨fun held => ⟨held, absent held⟩, And.left⟩

theorem State.withoutAdmission_gaps (admission : ReceiptAdmission) :
    (state.withoutAdmission admission).gaps = state.gaps := by
  unfold State.withoutAdmission
  cases admittedEntry state admission with
  | some entry => exact state.release_gaps entry
  | none =>
      simp only
      split
      · rfl
      · rfl

theorem State.Clear.withoutAdmission (host : Host) (clear : state.Clear)
    (admission : ReceiptAdmission) :
    (state.withoutAdmission admission).Clear := by
  have takes : Takes host [admission] [] state (state.withoutAdmission admission) :=
    .withoutAdmission List.mem_cons_self
  refine ⟨takes.keyed clear.keyed, fun noticeId => ?_, fun entry held => ?_⟩
  · rw [State.withoutAdmission_gaps]
    exact clear.gapless noticeId
  · rw [Bool.eq_false_iff]
    intro counted
    have before := clear.uncounted entry (State.holds_withoutAdmission.mp held).1
    exact absurd (takes.counted _ counted) (Bool.eq_false_iff.mp before)

/-- A state clear of gaps and counts stays clear while admissions are removed. -/
theorem State.Clear.foldl_withoutAdmission (host : Host) (clear : state.Clear)
    (admissions : List ReceiptAdmission) :
    (admissions.foldl State.withoutAdmission state).Clear ∧
      ∀ entry, (admissions.foldl State.withoutAdmission state).Holds entry ↔
        state.Holds entry ∧ entry.admission ∉ admissions := by
  induction admissions generalizing state with
  | nil => exact ⟨clear, fun entry => by simp⟩
  | cons admission rest ih =>
      obtain ⟨clear', holds⟩ := ih (clear.withoutAdmission host admission)
      refine ⟨clear', fun entry => ?_⟩
      rw [List.foldl_cons, holds, State.holds_withoutAdmission, List.mem_cons, not_or, and_assoc]

/-- Notices find nothing to remove. -/
theorem State.Clear.foldl_withoutNotice (clear : state.Clear) (noticeIds : List RecordId) :
    noticeIds.foldl (State.withoutNotice host) state = state := by
  induction noticeIds with
  | nil => rfl
  | cons noticeId rest ih =>
      have unbacked : expiredBacking host state noticeId = none := by
        apply List.find?_eq_none.mpr
        intro entry inside
        have held := clear.keyed.holds inside
        simp only [clear.uncounted entry held, Bool.false_and, Bool.false_eq_true, not_false_eq_true]
      have unchanged : state.withoutNotice host noticeId = state := by
        rw [State.withoutNotice, clear.gapless]
        simp only [unbacked]
      rw [List.foldl_cons, unchanged]
      exact ih

/-- Completing a receipt in a clear state removes the admissions it accepted. -/
theorem State.Clear.holds_complete (clear : state.Clear) {receipt : AckReceipt} {entry : Entry} :
    (state.complete host receipt).Holds entry ↔
      state.Holds entry ∧ entry.admission ∉ receipt.acceptedAdmissions := by
  obtain ⟨clear', holds⟩ := clear.foldl_withoutAdmission host receipt.acceptedAdmissions
  rw [State.complete, clear'.foldl_withoutNotice]
  exact holds entry

end

section

variable {inner : Inner} {offered : Nat → Envelope → Prop} {since : List Disk} {m m' : Machine}

/-! ### Pulls that tell of no gap -/

/-- A pull of the first protocol succeeds only where no gap waits. -/
theorem post_buildBatch_gapless :
    Post (buildBatch inner).run m
      (fun _ m' => m'.state.gaps.isEmpty = true ∧
        m'.state.countedPendingExpirations.isEmpty = true) (fun _ _ => True) := by
  simp only [buildBatch, requireNoGaps, Call.run_bind, Call.run_atomic, post_bind, post_state,
    post_ite, post_throw, post_pure, Call.run_pure]
  refine ⟨fun _ => trivial, fun _ => Post.trivial.monoOk fun _ m₁ _ => ⟨fun _ => trivial, ?_⟩⟩
  exact fun clear => ⟨not_not.mp (not_or.mp clear).1, not_not.mp (not_or.mp clear).2⟩

/-- A state without gaps and counts is clear. -/
theorem State.clear_of_empty {state : State} (keyed : state.Keyed)
    (gapless : state.gaps.isEmpty = true)
    (uncounted : state.countedPendingExpirations.isEmpty = true) : state.Clear := by
  refine ⟨keyed, fun noticeId => OrdMap.isEmpty_iff.mp gapless noticeId, fun entry _ => ?_⟩
  rw [OrdMap.contains, OrdMap.isEmpty_iff.mp uncounted]
  rfl

/-- Where a v1 pull is answered, no gap was held and nothing was counted. -/
theorem nextBatch_clear (ready : Ready inner.key m) {nowMs : I64} {batch : HubBatchV1}
    (ran : (nextBatch inner nowMs).run m = .ok batch m') :
    m.state.Clear ∧ batch.batchId = batchId inner.host batch.records := by
  obtain ⟨count, m₁, began, ran⟩ := run_bind_ok ran
  have locked : expireDueLocked inner nowMs m = .ok count m₁ := by
    rwa [expireDue, Call.run_atomic] at began
  have expired := (post_expireDueLocked_expired ready.keyed
    (ready.numbered.separate ready.pathed)).of_ok locked
  have chain := (@post_expireDueLocked inner noOffers m nowMs ready.keyed ready.numbered).of_ok locked
  have ready₁ := chain.ready ready
  obtain ⟨answered, m₂, looked, built⟩ := run_bind_ok ran
  have looks : Post (do
      if (← state).unresolvedIntegrity then throw .corruptRecord
      requireNoGaps) m₁
      (fun _ m₂ => m₂ = m₁ ∧ m₁.state.gaps.isEmpty = true ∧
        m₁.state.countedPendingExpirations.isEmpty = true) (fun _ _ => True) := by
    simp only [requireNoGaps, post_bind, post_state, post_ite, post_throw, post_pure, true_and,
      implies_true]
    exact fun _ clear => ⟨not_not.mp (not_or.mp clear).1, not_not.mp (not_or.mp clear).2⟩
  obtain ⟨rfl, gapless, uncounted⟩ := looks.of_ok (by rwa [Call.run_atomic] at looked)
  have digest := ((@post_buildBatch inner noOffers m₂ ready₁.keyed ready₁.pathed).of_ok built).2.2.2.1
  obtain ⟨current, -⟩ := expired.nothing_due gapless uncounted
  refine ⟨⟨ready.keyed, fun noticeId => ?_, fun entry held => ?_⟩, digest⟩
  · by_contra some_
    obtain ⟨gap, found⟩ := Option.ne_none_iff_exists'.mp some_
    have kept := expired.gaps noticeId gap found
    rw [OrdMap.isEmpty_iff.mp gapless] at kept
    cases kept
  · exact Bool.eq_false_iff.mpr fun counted => current entry held (.inr counted)

/-! ### Acknowledging -/

/-- The same identities, none of them twice, are permutations. -/
theorem perm_of_sameRecordIds {left right : List RecordId} (single : right.Nodup)
    (same : sameRecordIds left right = true) : left.Perm right := by
  have members := mem_iff_of_sameRecordIds same
  simp only [sameRecordIds, Bool.and_eq_true, decide_eq_true_eq] at same
  have part := List.subperm_of_subset single fun recordId inside => (members recordId).mpr inside
  exact (part.perm_of_length_le same.1.1.le).symm

/-- What a completion deletes where nothing is a gap. -/
theorem post_completeReceipt_clear {receipt : AckReceipt} (ready : Ready inner.key m)
    (receipted : Receipted inner.key m.timeline receipt) (clear : m.state.Clear)
    (intact : ReadsBackAll inner m) :
    Post (completeReceipt inner receipt) m
      (fun _ m' => (∀ entry, m'.state.Holds entry ↔
          m.state.Holds entry ∧ entry.admission ∉ receipt.acceptedAdmissions) ∧
        ∀ entry, m'.state.Holds entry → m'.disk.read entry.path = m.disk.read entry.path)
      (fun _ _ => True) := by
  refine ((@post_completeReceipt inner noOffers m receipt ready.keyed ready.numbered receipted).and
    post_completeReceipt_state).mono ?_ fun _ _ _ => trivial
  rintro _ m' ⟨⟨chain, -⟩, completed⟩
  have holds : ∀ entry, m'.state.Holds entry ↔
      m.state.Holds entry ∧ entry.admission ∉ receipt.acceptedAdmissions := by
    intro entry
    rw [completed]
    exact clear.holds_complete
  refine ⟨holds, fun entry held => ?_⟩
  obtain ⟨stored, reads⟩ := intact entry ((holds entry).mp held).1
  exact chain.keeps_file ready.pathed reads held

/-- An acknowledgement that a retained receipt answers for deletes the acknowledged records exactly
if the receipt names the pending occurrences of them. -/
theorem post_acknowledge_repeated {ack : HubAckV1} (ready : Ready inner.key m) (works : m.Works)
    (clear : m.state.Clear) (intact : ReadsBackAll inner m) (version : ack.version = 1)
    (digest : validDigest ack.batchId = true) (single : ack.acceptedRecordIds.Nodup)
    {prior : ReceiptEntry} (found : m.state.receipts.get? ack.batchId = some prior)
    (same : sameRecordIds prior.receipt.acceptedRecordIds ack.acceptedRecordIds = true) :
    Post (acknowledge inner ack).run m
      (fun result m' => ack.DeletesExactly result m m' → ∀ entry, m.state.Holds entry →
        (entry.recordId ∈ ack.acceptedRecordIds ↔
          entry.admission ∈ prior.receipt.acceptedAdmissions)) (fun _ _ => False) := by
  unfold acknowledge
  rw [if_neg (by simp [version, digest, dedup_length_eq_iff.mpr single])]
  simp only [Call.run_bind, Call.run_atomic, post_bind, post_state, post_pure, found, same,
    not_true_eq_false, if_false, Call.run_pure]
  refine ((succeeds_completeReceipt prior.receipt m works).and (post_completeReceipt_clear ready
    (ready.receipts.durable _ _ found) clear intact)).mono ?_ fun _ _ failed => failed.1.1
  rintro _ m' ⟨-, holds, -⟩ deletes entry held
  have left := (deletes.entries entry).symm.trans (holds entry)
  simp only [held, true_and] at left
  exact not_iff_not.mp left

/-- Where a receipt that answers names the pending occurrences, an accepted acknowledgement deletes
exactly the acknowledged records. -/
theorem post_acknowledge_deletes {ack : HubAckV1} (ready : Ready inner.key m)
    (clear : m.state.Clear) (intact : ReadsBackAll inner m)
    (repeats : ack.RepeatsPending m.state) :
    Post (acknowledge inner ack).run m (fun result m' => ack.DeletesExactly result m m')
      (fun _ _ => True) := by
  unfold acknowledge
  split
  · exact trivial
  · rename_i wellFormed
    simp only [not_or, not_not] at wellFormed
    obtain ⟨version, -, single⟩ := wellFormed
    rw [dedup_length_eq_iff] at single
    simp only [Call.run_bind, Call.run_atomic, post_bind, post_state, post_pure]
    cases found : m.state.receipts.get? ack.batchId with
    | some prior =>
        simp only
        split
        · exact trivial
        · rename_i same
          rw [not_not] at same
          simp only [Call.run_bind, Call.run_atomic, Call.run_pure, post_bind, post_pure]
          refine (post_completeReceipt_clear ready (ready.receipts.durable _ _ found) clear
            intact).monoOk ?_
          rintro _ m' ⟨holds, files⟩
          refine ⟨perm_of_sameRecordIds single same, fun entry => ?_, files⟩
          rw [holds]
          exact and_congr_right fun held =>
            not_congr (repeats version single prior found same entry held).symm
    | none =>
        simp only [Call.run_bind, Call.run_atomic, post_bind, post_state, post_ite, post_throw,
          post_pure]
        refine ⟨fun _ => trivial, fun _ => ?_⟩
        refine ((((@post_buildBatch inner noOffers m ready.keyed ready.pathed).and
          (post_buildBatch_scans ready.keyed ready.pathed)).and
          (post_buildBatch_listed ready.keyed ready.pathed)).and post_buildBatch_gapless).mono ?_
          fun _ _ _ => trivial
        rintro delivered m₁ ⟨⟨⟨⟨chain, -⟩, scans⟩, digest, listed, inside⟩, gapless, uncounted⟩
        have ready₁ := chain.ready ready
        have clear₁ := State.clear_of_empty ready₁.keyed gapless uncounted
        have holds₁ : ∀ entry, m₁.state.Holds entry ↔ m.state.Holds entry := by
          refine fun entry => ⟨chain.holds_back, fun held => ?_⟩
          obtain ⟨stored, reads⟩ := intact entry held
          exact ((scans.intact entry held).resolve_right fun damaged => damaged stored reads).1
        split
        · exact trivial
        · rename_i matching
          simp only [not_or, not_not] at matching
          simp only [Call.run_bind, Call.run_atomic, Call.run_pure, post_bind, post_pure]
          refine (post_receiptAdmissionsV1 ready₁.keyed).mono ?_ fun _ _ _ => trivial
          rintro admissions m₂ ⟨rfl, named, held⟩
          have accepted := HubAckV1.accepts_iff matching.2 named
          refine (@post_commitReceipt inner noOffers _ _ ready₁.keyed ready₁.numbered
            ready₁.receipts ready₁.settled ⟨held, fun _ none => absurd none List.not_mem_nil⟩
            ⟨.inl rfl, fun _ => ⟨delivered.records, matching.1.symm.trans digest, listed, inside⟩,
              fun _ => ⟨rfl, accepted⟩, (fun version => by cases version), List.nodup_nil,
              fun version => by cases version⟩
            (by rw [scans.receipts]; exact found) fun _ => rfl).mono ?_ fun _ _ _ => trivial
          rintro _ m₃ ⟨later, rfl, -, same⟩
          have holds : ∀ entry, m₃.state.Holds entry ↔
              m.state.Holds entry ∧ entry.recordId ∉ ack.acceptedRecordIds := by
            intro entry
            rw [State.Holds, same.entries]
            refine clear₁.holds_complete.trans ?_
            rw [holds₁]
            refine and_congr_right fun here => not_congr ⟨fun inside => ?_, fun inside => ?_⟩
            · exact (accepted entry.recordId).mpr ⟨entry.admission, inside, rfl⟩
            · obtain ⟨admission, there, same⟩ := (accepted entry.recordId).mp inside
              obtain ⟨other, held', rfl⟩ := held admission there
              rwa [((holds₁ entry).mpr here).eq_of_recordId held' same] at there
          refine ⟨.refl _, holds, fun entry left => ?_⟩
          obtain ⟨stored, reads⟩ := intact entry ((holds entry).mp left).1
          have whole : Chain inner noOffers m m₃ := chain.trans later
          exact whole.keeps_file ready.pathed reads left

end

/-! ### Runs -/

section

variable {key : EncryptionKey} {host : Host} {w : World}

/-- An accepted acknowledgement of the current v1 batch deletes exactly the acknowledged records,
unless it repeats a receipt whose occurrences are not the pending ones. -/
theorem acknowledge_deletes_iff {process : Process} (reach : Reach (UnderKey key host) w)
    (distinct : DistinctNotices host w.Offered) (running : w.process = some process)
    (unlatched : process.storageWriteFailed = false)
    (intact : ReadsBackAll process.inner (w.machine process .none)) {nowMs : I64}
    {batch : HubBatchV1} {after : Machine}
    (pulled : (nextBatch process.inner nowMs).run (w.machine process .none) = .ok batch after)
    {ack : HubAckV1} (current : ack.batchId = batch.batchId) :
    (∀ result m', (acknowledge process.inner ack).run (w.machine process .none) = .ok result m' →
        ack.DeletesExactly result (w.machine process .none) m') ↔
      ack.RepeatsPending process.state := by
  obtain ⟨rfl, rfl, backing⟩ := (reach.kept distinct).running process running
  obtain ⟨-, ready⟩ := backing .none
  obtain ⟨clear, digest⟩ := nextBatch_clear ready pulled
  constructor
  · intro deletes version single prior found same
    have valid : validDigest ack.batchId = true := by
      rw [current, digest]
      exact validDigest_hexEncode (process.inner.host.sha256 _).property
    have repeated := post_acknowledge_repeated ready ⟨rfl, unlatched⟩ clear intact version valid
      single found same
    cases ran : (acknowledge process.inner ack).run (w.machine process .none) with
    | ok result m' => exact repeated.of_ok ran (deletes result m' ran)
    | error error m' => exact (repeated.of_error ran).elim
  · intro repeats result m' ran
    exact (post_acknowledge_deletes ready clear intact repeats).of_ok ran

end

/-- The acknowledgement of all records of a v1 batch. -/
def HubBatchV1.ackAll (batch : HubBatchV1) : HubAckV1 :=
  { version := 1
    batchId := batch.batchId
    acceptedRecordIds := batch.records.map (·.recordId) }

theorem singleAdmission_intactV1 :
    ((World.fresh.play singleAdmission).any fun w => decide w.OffersOnce &&
      (w.pullV1 (sampleTime 2)).any fun pulled =>
        decide (pulled.1.storageWriteFailed = false) &&
        (w.machine pulled.1 .none).readsBackAll pulled.1.inner &&
        decide (pulled.2.1.records.length = 1)) = true := by
  decide +kernel

theorem acknowledge_deletes_iff_singleAdmission :
    ∃ (w : World) (process : Process) (batch : HubBatchV1), w.process = some process ∧
      batch.records.length = 1 ∧
      ((∀ result m', (acknowledge process.inner batch.ackAll).run (w.machine process .none) =
            .ok result m' →
          batch.ackAll.DeletesExactly result (w.machine process .none) m') ↔
        batch.ackAll.RepeatsPending process.state) := by
  obtain ⟨w, played, shows⟩ := (Option.any_eq_true _ _).mp singleAdmission_intactV1
  rw [Bool.and_eq_true, decide_eq_true_eq] at shows
  obtain ⟨once, shows⟩ := shows
  obtain ⟨⟨process, batch, after⟩, pulled, shows⟩ := (Option.any_eq_true _ _).mp shows
  rw [Bool.and_eq_true, Bool.and_eq_true, decide_eq_true_eq, decide_eq_true_eq] at shows
  obtain ⟨⟨unlatched, intact⟩, one⟩ := shows
  obtain ⟨running, ran⟩ := World.pullV1_eq_some pulled
  have reach := World.reach_of_play .start singleAdmission_untouched played
  refine ⟨w, process, batch, running, one, ?_⟩
  exact acknowledge_deletes_iff (reach.mono fun _ _ untouched => untouched.underKey)
    (once.distinctNotices _) running unlatched (readsBackAll_of_machine intact) ran rfl

/-! ### An event that comes back -/

/-- The v1 batch the last call delivered. -/
def World.lastBatchV1 (w : World) : Option HubBatchV1 :=
  w.log.head?.bind fun event =>
    match event.reply with
    | some (.ok (.batch batch)) => some batch
    | _ => none

/-- Acknowledge everything in the v1 batch just delivered. -/
def acknowledgeAllV1 : Player := fun w => w.lastBatchV1.map fun batch =>
  .call (.acknowledge batch.ackAll) .none

/-- An event is admitted, delivered and acknowledged by the v1 protocol, and is admitted again. -/
def readmission : List Player :=
  [always (.openSpool (sampleInner 4) (sampleTime 0) .none),
    always (.call (.enqueue (sampleEnvelope "a") (sampleTime 1)) .none),
    always (.call (.nextBatch (sampleTime 2)) .none),
    acknowledgeAllV1,
    always (.call (.enqueue (sampleEnvelope "a") (sampleTime 3)) .none)]

theorem readmission_untouched :
    ∀ player ∈ readmission, ∀ w move, player w = some move →
      Untouched sampleKey (referenceHost integerCodec) w move := by
  intro player inside w move chosen
  simp only [readmission, List.mem_cons, List.not_mem_nil, or_false] at inside
  rcases inside with rfl | rfl | rfl | rfl | rfl
  · obtain rfl := Option.some.inj chosen
    exact ⟨rfl, rfl⟩
  · obtain rfl := Option.some.inj chosen
    trivial
  · obtain rfl := Option.some.inj chosen
    trivial
  · obtain ⟨batch, -, rfl⟩ := Option.map_eq_some_iff.mp chosen
    trivial
  · obtain rfl := Option.some.inj chosen
    trivial

/-- The record admitted again is still held after the repeated acknowledgement. -/
theorem readmission_stays :
    ((World.fresh.follow readmission).any fun w => (w.pullV1 (sampleTime 4)).any fun pulled =>
      decide (pulled.1.storageWriteFailed = false) &&
      (w.machine pulled.1 .none).readsBackAll pulled.1.inner &&
      match (acknowledge pulled.1.inner pulled.2.1.ackAll).run (w.machine pulled.1 .none) with
      | .ok _ left => left.state.entries.values.any fun entry =>
          decide (left.state.entries.get? entry.recordId = some entry) &&
          pulled.2.1.ackAll.acceptedRecordIds.contains entry.recordId
      | .error _ _ => false) = true := by
  decide +kernel

/-- The acknowledgement of the event that came back is accepted, and the event stays pending. -/
theorem acknowledge_keeps_readmission :
    ∃ (w : World) (process : Process) (batch : HubBatchV1) (after : Machine),
      Reach (Untouched sampleKey (referenceHost integerCodec)) w ∧ w.process = some process ∧
      process.storageWriteFailed = false ∧
      ReadsBackAll process.inner (w.machine process .none) ∧
      (nextBatch process.inner (sampleTime 4)).run (w.machine process .none) = .ok batch after ∧
      ∃ result m', (acknowledge process.inner batch.ackAll).run (w.machine process .none) =
          .ok result m' ∧
        ¬ batch.ackAll.DeletesExactly result (w.machine process .none) m' := by
  obtain ⟨w, followed, shows⟩ := (Option.any_eq_true _ _).mp readmission_stays
  obtain ⟨⟨process, batch, after⟩, pulled, shows⟩ := (Option.any_eq_true _ _).mp shows
  rw [Bool.and_eq_true, Bool.and_eq_true, decide_eq_true_eq] at shows
  obtain ⟨⟨unlatched, intact⟩, stays⟩ := shows
  obtain ⟨running, ran⟩ := World.pullV1_eq_some pulled
  refine ⟨w, process, batch, after, World.reach_of_follow .start readmission_untouched followed,
    running, unlatched, readsBackAll_of_machine intact, ran, ?_⟩
  cases acked : (acknowledge process.inner batch.ackAll).run (w.machine process .none) with
  | error error m' =>
      simp only [acked] at stays
      cases stays
  | ok result m' =>
      simp only [acked, List.any_eq_true, Bool.and_eq_true, decide_eq_true_eq,
        List.contains_iff_mem] at stays
      obtain ⟨entry, -, held, accepted⟩ := stays
      exact ⟨result, m', rfl, fun deletes => ((deletes.entries entry).mp held).2 accepted⟩

end TeslatlasEdge
