/-
Module: TeslatlasEdge.Consistency
Purpose: The in-memory state of a running spool is consistent in every run whose quarantines go
  through as a whole.  A quarantine that is refused after its gap has been recorded leaves one
  sequence in both maps.
Trusted boundary: none
Main exports: State.Consistent, Orderly, Reach.agrees, state_consistent_while_undisturbed
-/
import TeslatlasEdge.Ledger

namespace TeslatlasEdge

open Lib

/-! ### Consistent states -/

/-- The sequences of the pending items. -/
def State.sequences (state : State) : List Nat :=
  state.entries.values.map (·.spoolSeq) ++ state.gaps.values.map (·.notice.spoolSeq)

/-- The maps, sums and counters of a state fit together. -/
structure State.Consistent (state : State) : Prop where
  once : state.sequences.Nodup
  range : ∀ s ∈ state.sequences, 1 ≤ s ∧ s < state.nextSpoolSequence
  stable : ∀ stableRecordId recordId,
    state.stableIndex.get? stableRecordId = some recordId ↔
      ∃ entry, state.entries.get? recordId = some entry ∧ entry.stableRecordId = stableRecordId
  pendingBytes : state.pendingBytes = (state.entries.values.map (·.encryptedBytes)).sum
  pendingGapBytes : state.pendingGapBytes = (state.gaps.values.map (·.encryptedBytes)).sum
  counted : ∀ s identity, state.countedPendingExpirations.get? s = some identity →
    ∃ recordId entry, state.entries.get? recordId = some entry ∧ entry.spoolSeq = s ∧
      entry.stableRecordId = identity

section

variable {host : Host} {offered : Nat → Envelope → Prop} {state : State}

/-- A state whose parts agree is consistent. -/
theorem Agrees.consistent (agrees : Agrees host offered state) : state.Consistent := by
  have coherent := agrees.coherent
  have entryOf : ∀ entry ∈ state.entries.values, state.Holds entry :=
    fun entry inside => coherent.keyed.holds inside
  refine ⟨?_, ?_, ?_, coherent.pendingBytes, coherent.pendingGapBytes, ?_⟩
  · refine state.sequences_nodup coherent.keyed coherent.gapKeyed coherent.entryOnce
      (fun id gap id' gap' found found' => coherent.gapOnce id gap id' gap' found found')
      fun entry id gap held found same => ?_
    exact agrees.apart entry held ⟨id, gap, found, same.symm⟩
  · intro s inside
    rcases List.mem_append.mp inside with inside | inside
    · obtain ⟨entry, held, rfl⟩ := List.mem_map.mp inside
      exact agrees.ranged.entries entry (entryOf entry held)
    · obtain ⟨gap, held, rfl⟩ := List.mem_map.mp inside
      obtain ⟨id, found⟩ := OrdMap.mem_values_iff.mp held
      exact agrees.ranged.gaps id gap found
  · intro stableRecordId recordId
    rw [coherent.stable]
    constructor
    · rintro ⟨entry, held, rfl, stable⟩
      exact ⟨entry, held, stable⟩
    · rintro ⟨entry, found, stable⟩
      have id := coherent.keyed recordId entry found
      exact ⟨entry, by rwa [State.Holds, id], id, stable⟩
  · intro s identity found
    obtain ⟨entry, held, facts⟩ := agrees.counted s identity found
    exact ⟨entry.recordId, entry, held, facts⟩

/-- Parts that agree agree when more may be offered. -/
theorem Agrees.offering {permitted : Nat → Envelope → Prop}
    (weaker : ∀ s envelope, offered s envelope → permitted s envelope)
    (agrees : Agrees host offered state) : Agrees host permitted state := by
  refine ⟨{ agrees.coherent with origin := fun entry held => ?_ }, agrees.ranged, agrees.apart,
    agrees.counted⟩
  obtain ⟨s, envelope, offer, facts⟩ := agrees.coherent.origin entry held
  exact ⟨s, envelope, weaker s envelope offer, facts⟩

end

/-! ### Opening -/

/-- What holds of a state while it is being loaded. -/
structure Loaded (host : Host) (offered : Nat → Envelope → Prop) (state : State) : Prop where
  coherent : Coherent host offered state
  entries : ∀ entry, state.Holds entry → 1 ≤ entry.spoolSeq
  gaps : ∀ noticeId gap, state.gaps.get? noticeId = some gap → 1 ≤ gap.notice.spoolSeq
  apart : state.Apart

section

variable {inner : Inner} {offered : Nat → Envelope → Prop} {since : List Disk} {m : Machine}

/-- Every step of loading keeps the parts of a state in agreement. -/
theorem loadSteps_loaded (below : inner.config.maxBytes < u64Max) :
    LoadSteps inner offered (Loaded inner.host offered) := by
  refine ⟨fun state count loaded => ?_, ?_, ?_⟩
  · exact ⟨{ loaded.coherent with }, loaded.entries, loaded.gaps, loaded.apart⟩
  · intro state notice encryptedBytes path loaded empty absent single positive _ bytes
    have noEntry : ∀ entry, ¬ state.Holds entry := by
      intro entry held
      rw [State.Holds, empty, OrdMap.get?_empty] at held
      cases held
    refine ⟨loaded.coherent.recordGap absent single bytes below, loaded.entries,
      fun noticeId gap found => ?_, fun entry held => absurd held (noEntry entry)⟩
    simp only [State.recordGap, OrdMap.get?_insert] at found
    split at found
    · rw [← Option.some.inj found]
      exact positive
    · exact loaded.gaps noticeId gap found
  · intro state entry loaded absent fresh single noGap positive source bytes
    have holds : ∀ other, (state.admitEntry entry).Holds other →
        state.Holds other ∨ other = entry := by
      intro other held
      simp only [State.Holds, State.admitEntry, OrdMap.get?_insert] at held
      split at held
      · exact .inr (Option.some.inj held).symm
      · exact .inl held
    refine ⟨loaded.coherent.admitEntry absent fresh single source bytes below, fun other held => ?_,
      loaded.gaps, fun other held gap => ?_⟩
    · rcases holds other held with before | rfl
      · exact loaded.entries other before
      · exact positive
    · rcases holds other held with before | rfl
      · exact loaded.apart other before gap
      · exact noGap gap

theorem loaded_initial (host : Host) (pruned : Bool) :
    Loaded host offered { State.initial with v1AckHistoryPruned := pruned } := by
  have initial := coherent_initial host offered
  have noEntry : ∀ entry, ¬ State.initial.Holds entry := by
    intro entry held
    rw [State.Holds, State.initial, OrdMap.get?_empty] at held
    cases held
  refine ⟨{ initial with }, fun entry held => absurd held (noEntry entry),
    fun noticeId gap found => ?_, fun entry held => absurd held (noEntry entry)⟩
  change (OrdMap.empty : OrdMap RecordId GapEntry).get? noticeId = some gap at found
  rw [OrdMap.get?_empty] at found
  cases found

/-- Counted expirations name their entry where there is one. -/
def State.CountsAgree (state : State) : Prop :=
  ∀ entry, state.Holds entry → ∀ identity,
    state.countedPendingExpirations.get? entry.spoolSeq = some identity →
      identity = entry.stableRecordId

/-- What is retained of the counts is counted for entries that are held. -/
theorem countedHeld_retainCounted {state : State} (keyed : state.Keyed)
    (agree : state.CountsAgree) : CountedHeld state.retainCounted := by
  intro s identity found
  change (state.countedPendingExpirations.filter _).get? s = some identity at found
  rw [OrdMap.get?_filter] at found
  obtain ⟨counted, kept⟩ := Option.filter_eq_some_iff.mp found
  rw [List.any_eq_true] at kept
  obtain ⟨entry, inside, same⟩ := kept
  rw [decide_eq_true_eq] at same
  have held := keyed.holds inside
  refine ⟨entry, held, same, (agree entry held identity ?_).symm⟩
  rw [same]
  exact counted

/-- The counters put the loaded sequences in range. -/
theorem Counters.ranged {sequence : Option SequenceState} {recordsNext gapsNext : Nat}
    (counters : Counters inner m sequence recordsNext gapsNext)
    (loaded : Loaded inner.host offered m.state) :
    Ranged (m.state.withSequence sequence recordsNext gapsNext) := by
  have next : (m.state.withSequence sequence recordsNext gapsNext).nextSpoolSequence =
      max (max ((sequence.map (·.nextSpoolSequence)).getD 1) recordsNext) gapsNext := rfl
  refine ⟨?_, fun entry held => ⟨loaded.entries entry held, ?_⟩, fun noticeId gap found =>
    ⟨loaded.gaps noticeId gap found, ?_⟩⟩
  · rw [next, counters.gaps]
    omega
  · have inside : entry ∈ m.state.entries.values := OrdMap.mem_values_iff.mpr ⟨_, held⟩
    have bound := le_maxSequence (List.mem_map_of_mem (f := Entry.spoolSeq) inside)
    rw [next, counters.records]
    exact lt_max_of_lt_left (lt_max_of_lt_right (Nat.lt_succ_of_le bound))
  · have inside : gap ∈ m.state.gaps.values := OrdMap.mem_values_iff.mpr ⟨_, found⟩
    have bound := le_maxSequence
      (List.mem_map_of_mem (f := fun gap : GapEntry => gap.notice.spoolSeq) inside)
    rw [next, counters.gaps]
    exact lt_max_of_lt_right (Nat.lt_succ_of_le bound)

/-- A recovered state agrees. -/
theorem RecoveredAs.agrees
    (recovered : RecoveredAs inner offered since (Loaded inner.host offered) m) :
    Agrees inner.host offered m.state := by
  obtain ⟨m₁, m₂, m₃, sequence, recordsNext, gapsNext, loading, loaded, counters, reading, -, -,
    releases, rfl⟩ := recovered
  have same := reading.same
  have holdings : m₂.state.SameHoldings (m₁.state.withSequence sequence recordsNext gapsNext) :=
    ⟨same.entries, same.stableIndex, same.gaps, same.next, same.pendingBytes,
      same.pendingGapBytes, same.counted⟩
  have coherent : Coherent inner.host offered m₂.state :=
    Coherent.elsewhere (a := m₁.state.withSequence sequence recordsNext gapsNext)
      { loaded.coherent with } holdings
  have ranged : Ranged m₂.state := by
    refine (counters.ranged loaded).of_kept holdings.next (fun entry held => ?_)
      fun noticeId gap found => ?_
    · rwa [State.Holds, holdings.entries] at held
    · rwa [holdings.gaps] at found
  have apart : m₂.state.Apart := by
    refine loaded.apart.of_kept (fun entry held => ?_) fun noticeId gap found => ?_
    · rwa [State.Holds, holdings.entries] at held
    · rwa [holdings.gaps] at found
  obtain ⟨entries, gaps, next⟩ := releases.kept
  have agree : m₃.state.CountsAgree := by
    intro entry held identity found
    have before := entries entry held
    have counted := releases.counted found
    rw [State.Holds, holdings.entries] at before
    rw [holdings.counted] at counted
    exact counters.agree entry (OrdMap.mem_values_iff.mpr ⟨_, before⟩) identity counted
  have coherent₃ := releases.coherent coherent
  refine ⟨{ coherent₃ with }, ?_, ?_, countedHeld_retainCounted coherent₃.keyed agree⟩
  · exact { ranged.of_kept next entries gaps with }
  · exact apart.of_kept entries gaps

end

/-! ### Runs -/

/-- The spool is opened under one key within the limits, files are damaged so that the key no longer
opens them, and no section of a call is disturbed. -/
def Orderly (key : EncryptionKey) (host : Host) (w : World) : Move → Prop
  | .openSpool inner _ _ => inner.key = key ∧ inner.host = host ∧ inner.config.WithinLimits
  | .call request faults => ∀ process, w.process = some process →
      (request.call process.inner).Along (Undisturbed process.inner) (w.machine process faults)
  | .damage _ body | .damageReceipt _ body => Unreadable key host body
  | _ => True

section

variable {key : EncryptionKey} {host : Host} {w w' : World}

theorem Orderly.underKey {move : Move} (orderly : Orderly key host w move) :
    UnderKey key host w move := by
  cases move with
  | openSpool => exact ⟨orderly.1, orderly.2.1⟩
  | damage | damageReceipt => exact orderly
  | call | drop | relist => trivial

/-- A running process is within the limits and its state agrees. -/
def Agreeing (host : Host) (w : World) : Prop :=
  ∀ process, w.process = some process →
    process.inner.config.WithinLimits ∧ Agrees host w.Offered process.state

/-- A call whose sections are undisturbed keeps the state in agreement. -/
theorem Kept.agrees_served (kept : Kept key host w) {process : Process}
    (running : w.process = some process) {request : Request} {faults : Faults}
    {reply : Option (Except SpoolError Reply)}
    (logged : w'.log = ⟨process.state.nextSpoolSequence, request, reply⟩ :: w.log)
    (faithful : FaithfulIds host w'.Offered) (limits : process.inner.config.WithinLimits)
    (agrees : Agrees host w.Offered process.state)
    (undisturbed : (request.call process.inner).Along (Undisturbed process.inner)
      (w.machine process faults)) :
    Agrees host w'.Offered (finalState (w.serve process request faults)).state := by
  obtain ⟨-, rfl, backing⟩ := kept.running process running
  obtain ⟨-, ready⟩ := backing faults
  have offer : ∀ envelope admittedAtMs, request = .enqueue envelope admittedAtMs →
      w'.Offered (w.machine process faults).state.nextSpoolSequence envelope := by
    intro envelope admittedAtMs same
    refine ⟨⟨process.state.nextSpoolSequence, request, reply⟩, ?_, rfl, admittedAtMs, same⟩
    rw [logged]
    exact List.mem_cons_self
  have grown : ∀ s envelope, w.Offered s envelope → w'.Offered s envelope := by
    rintro s envelope ⟨event, inside, facts⟩
    refine ⟨event, ?_, facts⟩
    rw [logged]
    exact List.mem_cons_of_mem _ inside
  have presented : (request.call process.inner).Along (Presented w'.Offered) _ :=
    request.along_presented ready.keyed ready.numbered ready.pathed offer
  have along := presented.and undisturbed
  refine (Call.run_invariant (I := fun m : Machine => Agrees process.inner.host w'.Offered m.state)
    (Call.Steps.mono request.sections ?_) along (agrees.offering grown)).final
    (I := fun m : Machine => Agrees process.inner.host w'.Offered m.state)
  rintro label act is m ⟨presented, calm⟩ holds
  exact (is.changes holds.coherent.keyed presented fun disturbed => disturbed calm).agrees faithful
    limits.maxBytes_lt holds

/-- Every orderly move keeps the parts in agreement. -/
theorem Agreeing.step {move : Move} (agreeing : Agreeing host w) (kept : Kept key host w)
    (may : Orderly key host w move) (moved : Step w move w')
    (distinct : DistinctNotices host w'.Offered) (faithful : FaithfulIds host w'.Offered) :
    Agreeing host w' := by
  have gone : ∀ {d : Disk} {older : List Disk} {log : List Event},
      Agreeing host ⟨d, older, log, none⟩ := fun process running => by cases running
  cases moved with
  | @opened inner nowMs faults after closed ran =>
      obtain ⟨rfl, rfl, limits⟩ := may
      rintro process running
      obtain rfl := Option.some.inj running
      refine ⟨limits, ?_⟩
      obtain ⟨-, -, m₁, recovered, changes⟩ := (post_openSpool (m := w.opening faults)
        (loadSteps_loaded limits.maxBytes_lt) distinct kept.always rfl
        (loaded_initial inner.host)).of_ok ran
      exact (changes.mono (fun _ _ offer => offer.elim) fun torn => torn).agrees faithful
        limits.maxBytes_lt recovered.agrees
  | openFailed | openStopped | callStopped | dropped => exact gone
  | @openRefused inner nowMs faults process error after running ran => exact agreeing
  | @returned request faults process running =>
      obtain ⟨limits, agrees⟩ := agreeing process running
      rintro other same
      obtain rfl := Option.some.inj same
      exact ⟨limits, kept.agrees_served running rfl faithful limits agrees
        (may process running)⟩
  | damaged | receiptDamaged | relisted => exact agreeing

/-- So they are in agreement in every world that is reached. -/
theorem Reach.agreeing (reach : Reach (Orderly key host) w)
    (distinct : DistinctNotices host w.Offered) (faithful : FaithfulIds host w.Offered) :
    Agreeing host w := by
  induction reach with
  | start => exact fun process running => by cases running
  | @step w w' move before may moved ih =>
      have earlier : DistinctNotices host w.Offered := by
        intro s a t b _ _ _ _ _ _ offer offer'
        exact distinct s a t b _ _ _ _ _ _ (moved.offered s a offer) (moved.offered t b offer')
      have faithful' : FaithfulIds host w.Offered := fun s a t b offer offer' =>
        faithful s a t b (moved.offered s a offer) (moved.offered t b offer')
      have kept := (before.mono fun _ _ orderly => orderly.underKey).kept earlier
      exact (ih earlier faithful').step kept may moved distinct faithful

/-- In every run whose sections are undisturbed the state is consistent after every call. -/
theorem state_consistent_while_undisturbed {process : Process}
    (reach : Reach (Orderly key host) w) (distinct : DistinctNotices host w.Offered)
    (faithful : FaithfulIds host w.Offered) (running : w.process = some process) :
    process.state.Consistent :=
  (reach.agreeing distinct faithful process running).2.consistent

end

/-! ### A run that is disturbed, and one that is not -/

/-- The spool is opened under one key within the limits, no file operation fails, and files are
damaged so that the key no longer opens them. -/
def Faultless (key : EncryptionKey) (host : Host) (_ : World) : Move → Prop
  | .openSpool inner _ faults =>
      inner.key = key ∧ inner.host = host ∧ inner.config.WithinLimits ∧ faults = .none
  | .call _ faults => faults = .none
  | .damage _ body => Unreadable key host body
  | .damageReceipt _ _ => False
  | _ => True

theorem unreadable_raw (key : EncryptionKey) (host : Host) (bytes : List UInt8) :
    Unreadable key host (.raw bytes) := by
  intro plain opened
  cases decrypt_eq_ok opened

theorem sampleInner_withinLimits {maxRecords : Fin 257} (positive : 0 < maxRecords.val) :
    (sampleInner maxRecords).config.WithinLimits := by
  have small := maxRecords.is_lt
  refine ⟨⟨?_, ?_⟩, ⟨positive, ?_⟩, ⟨?_, ?_⟩, ⟨?_, ?_⟩, ⟨positive, ?_⟩, le_rfl, le_rfl⟩ <;>
    simp only [sampleInner] <;> omega

/-- Two damaged files, and room in quarantine for one. -/
def refusedQuarantine : List Player :=
  [always (.openSpool (sampleInner 1) (sampleTime 0) .none),
    always (.call (.enqueue (sampleEnvelope "a") (sampleTime 1)) .none),
    damageSequence 1,
    always (.call (.nextBatchV2 3 (sampleTime 2)) .none),
    acknowledgeAll,
    always (.call (.enqueue (sampleEnvelope "b") (sampleTime 3)) .none),
    damageSequence 2,
    always (.call (.nextBatchV2 3 (sampleTime 4)) .none)]

theorem damageSequence_faultless {key : EncryptionKey} {host : Host} {s : Nat} {w : World}
    {move : Move} (chosen : damageSequence s w = some move) : Faultless key host w move := by
  obtain ⟨name, -, rfl⟩ := Option.map_eq_some_iff.mp chosen
  exact unreadable_raw key host []

theorem acknowledgeAll_faultless {key : EncryptionKey} {host : Host} {w : World} {move : Move}
    (chosen : acknowledgeAll w = some move) : Faultless key host w move := by
  obtain ⟨batch, -, rfl⟩ := Option.map_eq_some_iff.mp chosen
  rfl

theorem always_faultless {key : EncryptionKey} {host : Host} {w : World} {move chosen : Move}
    (made : always move w = some chosen) (may : Faultless key host w move) :
    Faultless key host w chosen := by
  obtain rfl := Option.some.inj made
  exact may

theorem refusedQuarantine_faultless :
    ∀ player ∈ refusedQuarantine, ∀ w move, player w = some move →
      Faultless sampleKey (referenceHost integerCodec) w move := by
  intro player inside w move chosen
  simp only [refusedQuarantine, List.mem_cons, List.not_mem_nil, or_false] at inside
  rcases inside with rfl | rfl | rfl | rfl | rfl | rfl | rfl | rfl
  · exact always_faultless chosen ⟨rfl, rfl, sampleInner_withinLimits (by decide), rfl⟩
  · exact always_faultless chosen rfl
  · exact damageSequence_faultless chosen
  · exact always_faultless chosen rfl
  · exact acknowledgeAll_faultless chosen
  · exact always_faultless chosen rfl
  · exact damageSequence_faultless chosen
  · exact always_faultless chosen rfl

/-- The run of the refused quarantine ends with one sequence twice. -/
theorem refusedQuarantine_repeats :
    ((World.fresh.follow refusedQuarantine).any fun w =>
      w.process.any fun process => ! decide process.state.sequences.Nodup) = true := by
  decide +kernel

/-- A refused quarantine leaves one sequence in the entries and in the gaps. -/
theorem state_inconsistent_after_refusedQuarantine :
    ∃ (w : World) (process : Process),
      Reach (Faultless sampleKey (referenceHost integerCodec)) w ∧ w.process = some process ∧
        ¬ process.state.Consistent := by
  obtain ⟨w, followed, shows⟩ := (Option.any_eq_true _ _).mp refusedQuarantine_repeats
  obtain ⟨process, running, repeats⟩ := (Option.any_eq_true _ _).mp shows
  refine ⟨w, process, World.reach_of_follow .start refusedQuarantine_faultless followed, running,
    fun consistent => ?_⟩
  rw [Bool.not_eq_true', decide_eq_false_iff_not] at repeats
  exact repeats consistent.once

/-- No section of the call would be disturbed. -/
def undisturbedMove (w : World) : Move → Bool
  | .call request faults => w.process.all fun process =>
      decide ((request.call process.inner).Along (Undisturbed process.inner)
        (w.machine process faults))
  | _ => true

/-- A move that fails no file operation is orderly where no section of it is disturbed. -/
theorem Faultless.orderly {key : EncryptionKey} {host : Host} {w : World} {move : Move}
    (faultless : Faultless key host w move) (passes : undisturbedMove w move = true) :
    Orderly key host w move := by
  cases move with
  | openSpool => exact ⟨faultless.1, faultless.2.1, faultless.2.2.1⟩
  | call request faults =>
      intro process running
      rw [undisturbedMove, running, Option.all_some, decide_eq_true_eq] at passes
      exact passes
  | damage => exact faultless
  | damageReceipt => exact faultless.elim
  | drop | relist => trivial

/-- A damaged file goes to quarantine, and then a record expires while another is pending. -/
def quarantinedAndExpired : List Player :=
  [always (.openSpool (sampleInner 4) (sampleTime 0) .none),
    always (.call (.enqueue (sampleEnvelope "a") (sampleTime 1)) .none),
    damageSequence 1,
    always (.call (.enqueue (sampleEnvelope "b") (sampleTime 30000)) .none),
    always (.call (.nextBatchV2 3 (sampleTime 30001)) .none),
    always (.call (.enqueue (sampleEnvelope "c") (sampleTime 90000)) .none),
    always (.call (.expireDue (sampleTime 91000)) .none)]

theorem quarantinedAndExpired_faultless :
    ∀ player ∈ quarantinedAndExpired, ∀ w move, player w = some move →
      Faultless sampleKey (referenceHost integerCodec) w move := by
  intro player inside w move chosen
  simp only [quarantinedAndExpired, List.mem_cons, List.not_mem_nil, or_false] at inside
  rcases inside with rfl | rfl | rfl | rfl | rfl | rfl | rfl
  · exact always_faultless chosen ⟨rfl, rfl, sampleInner_withinLimits (by decide), rfl⟩
  · exact always_faultless chosen rfl
  · exact damageSequence_faultless chosen
  · exact always_faultless chosen rfl
  · exact always_faultless chosen rfl
  · exact always_faultless chosen rfl
  · exact always_faultless chosen rfl

/-- The run of the quarantine and the expiry is undisturbed to its end. -/
theorem quarantinedAndExpired_runs :
    ((World.fresh.followWhile undisturbedMove quarantinedAndExpired).any fun w =>
      decide (w.TellsApart (referenceHost integerCodec)) &&
        w.process.any fun process => decide (w.disk.quarantine.length = 1 ∧
          process.state.gaps.size = 2 ∧ process.state.entries.size = 1)) = true := by
  decide +kernel

theorem state_consistent_while_undisturbed_quarantinedAndExpired :
    ∃ (w : World) (process : Process), w.process = some process ∧ w.disk.quarantine.length = 1 ∧
      process.state.gaps.size = 2 ∧ process.state.entries.size = 1 ∧ process.state.Consistent := by
  obtain ⟨w, followed, shows⟩ := (Option.any_eq_true _ _).mp quarantinedAndExpired_runs
  rw [Bool.and_eq_true, decide_eq_true_eq] at shows
  obtain ⟨apart, shows⟩ := shows
  obtain ⟨process, running, shows⟩ := (Option.any_eq_true _ _).mp shows
  rw [decide_eq_true_eq] at shows
  obtain ⟨quarantined, gaps, pending⟩ := shows
  have reach := World.reach_of_followWhile .start (fun player inside w move chosen passes =>
    (quarantinedAndExpired_faultless player inside w move chosen).orderly passes) followed
  exact ⟨w, process, running, quarantined, gaps, pending, state_consistent_while_undisturbed reach
    apart.distinctNotices apart.faithfulIds running⟩

end TeslatlasEdge
