/-
Module: TeslatlasEdge.DeliveryV1
Purpose: A v1 batch hides no loss.  When `next_batch` answers, nothing is a gap and nothing has
  expired, and the batch is the longest prefix of all pending entries within its limits; a file that
  does not read back, met on the way, turns the answer into an error.
Trusted boundary: none
Main exports: FitsV1, ReadsV1, DeliversOldest, nextBatch_hides_nothing
-/
import TeslatlasEdge.Delivery

namespace TeslatlasEdge

open Lib
open Section

/-! ### The pending entries, oldest first -/

/-- Of two entries one was admitted before the other. -/
theorem Entry.admittedBefore_total (a b : Entry) : a.admittedBefore b ∨ b.admittedBefore a := by
  unfold Entry.admittedBefore
  rcases lt_trichotomy a.admittedAtMs.val b.admittedAtMs.val with before | same | after
  · exact .inl (.inl before)
  · rcases le_total a.recordId b.recordId with first | second
    · exact .inl (.inr ⟨same, first⟩)
    · exact .inr (.inr ⟨same.symm, second⟩)
  · exact .inr (.inl after)

theorem Entry.admittedBefore_trans {a b c : Entry} (first : a.admittedBefore b)
    (second : b.admittedBefore c) : a.admittedBefore c := by
  unfold Entry.admittedBefore at *
  rcases first with before | ⟨same, below⟩
  · rcases second with before' | ⟨same', -⟩
    · exact .inl (before.trans before')
    · exact .inl (same' ▸ before)
  · rcases second with before' | ⟨same', below'⟩
    · exact .inl (same ▸ before')
    · exact .inr ⟨same.trans same', below.trans below'⟩

/-- The pending entries by admission time and identity, as `build_batch` walks them. -/
def State.oldestFirst (state : State) : List Entry :=
  state.entries.values.insertionSort Entry.admittedBefore

theorem State.oldestFirst_sorted (state : State) :
    state.oldestFirst.Pairwise Entry.admittedBefore := by
  have : Std.Total Entry.admittedBefore := ⟨Entry.admittedBefore_total⟩
  have : IsTrans Entry Entry.admittedBefore := ⟨fun _ _ _ => Entry.admittedBefore_trans⟩
  exact List.pairwise_insertionSort _ _

/-- The queue of the first protocol is what is held. -/
theorem State.mem_oldestFirst {state : State} (keyed : state.Keyed) {entry : Entry} :
    entry ∈ state.oldestFirst ↔ state.Holds entry := by
  rw [oldestFirst, mem_insertionSort]
  exact ⟨keyed.holds, fun held => OrdMap.mem_values_iff.mpr ⟨_, held⟩⟩

/-! ### Batches within the limits -/

/-- The record `build_batch` makes of an entry whose file reads back. -/
def ReadsV1 (inner : Inner) (disk : Disk) (entry : Entry) (record : HubBatchRecordV1) : Prop :=
  ∃ stored, decodeEntry inner entry (disk.read entry.path) = .ok stored ∧
    record =
      { recordId := stored.recordId
        receivedAtMs := stored.admittedAtMs
        envelope := stored.envelope }

def HubBatchRecordV1.bytes (host : Host) (record : HubBatchRecordV1) : Nat :=
  encodedSize host record.toJson

/-- The limits of a v1 batch. -/
structure FitsV1 (inner : Inner) (records : List HubBatchRecordV1) : Prop where
  count : records.length ≤ min inner.config.batchMaxRecords 256
  bytes : (records.map (·.bytes inner.host)).sum ≤ inner.config.batchMaxBytes

section Fits

variable {inner : Inner} {disk : Disk}

/-- What begins a batch within the limits is within the limits. -/
theorem fitsV1_prefixClosed (inner : Inner) : PrefixClosed (FitsV1 inner) := by
  intro front back fits
  have count := fits.count
  have bytes := fits.bytes
  rw [List.length_append] at count
  rw [List.map_append, List.sum_append] at bytes
  exact ⟨by omega, by omega⟩

/-- An entry is delivered in one way. -/
theorem ReadsV1.unique {entry : Entry} {record other : HubBatchRecordV1}
    (mine : ReadsV1 inner disk entry record) (yours : ReadsV1 inner disk entry other) :
    record = other := by
  obtain ⟨stored, read, rfl⟩ := mine
  obtain ⟨stored', read', rfl⟩ := yours
  rw [read] at read'
  rw [Except.ok.inj read']

theorem ReadsV1.bytes_le {entry : Entry} {record : HubBatchRecordV1}
    (reads : ReadsV1 inner disk entry record) (short : ShortFloats inner.host.codec) :
    record.bytes inner.host ≤ 2 ^ 25 := by
  obtain ⟨stored, read, rfl⟩ := reads
  obtain ⟨body, -, intact⟩ := decodeEntry_eq_ok read
  exact intact.encodedSize_recordV1_le short

/-- Records of a bounded size add up without reaching the largest number. -/
theorem FitsV1.sum_append {records : List HubBatchRecordV1} {record : HubBatchRecordV1}
    (fits : FitsV1 inner records)
    (small : ∀ other ∈ records, other.bytes inner.host ≤ 2 ^ 25)
    (modest : record.bytes inner.host ≤ 2 ^ 25) :
    saturatingAdd (records.map (·.bytes inner.host)).sum (record.bytes inner.host) =
      ((records ++ [record]).map (·.bytes inner.host)).sum := by
  have sum : (records.map (·.bytes inner.host)).sum ≤ 256 * 2 ^ 25 := by
    refine (List.sum_le_card_nsmul _ (2 ^ 25) ?_).trans ?_
    · intro bytes inside
      obtain ⟨other, there, rfl⟩ := List.mem_map.mp inside
      exact small other there
    · rw [List.length_map, smul_eq_mul]
      exact Nat.mul_le_mul_right _ (fits.count.trans (min_le_right _ _))
  rw [List.map_append, List.sum_append, List.map_singleton, List.sum_singleton]
  unfold saturatingAdd u64Max
  omega

/-- The entry after a scan, unless the scan has read the full number of records, reads back and
does not fit. -/
def StopsV1 (inner : Inner) (disk : Disk) (result : List HubBatchRecordV1) (rest : List Entry) :
    Prop :=
  ∀ next more, rest = next :: more → result.length = min inner.config.batchMaxRecords 256 ∨
    ∃ record, ReadsV1 inner disk next record ∧ ¬ FitsV1 inner (result ++ [record])

end Fits

/-! ### The scan -/

section Scan

variable {inner : Inner} {m m' : Machine}

/-- A quarantined entry leaves a gap. -/
theorem post_quarantineRuntimeEntry_gap {entry : Entry} (spoiled : SpoiledEntry inner m entry) :
    Post (quarantineRuntimeEntry inner entry) m
      (fun _ m₁ => (m₁.state.Keyed ∧ m₁.state.Pathed ∧
        ∀ other, m₁.state.Holds other ↔ m.state.Holds other ∧ other ≠ entry) ∧
        ∃ noticeId gap, m₁.state.gaps.get? noticeId = some gap)
      (fun _ _ => True) := by
  have chained := @post_quarantineRuntimeEntry inner noOffers m entry spoiled.held
    ⟨_, spoiled.pathed.entries entry spoiled.held⟩ spoiled.damaged
  refine (chained.and (post_quarantineRuntimeEntry_scans spoiled)).mono ?_ fun _ _ _ => trivial
  rintro _ m₁ ⟨⟨chain, holds⟩, scans⟩
  refine ⟨⟨chain.keyed spoiled.keyed, chain.pathed spoiled.pathed, holds⟩, ?_⟩
  rcases scans.replaced entry spoiled.held with still | gap
  · exact absurd rfl ((holds entry).mp still).2
  · exact ⟨_, gap⟩

/-- A scan that has met an unreadable file leaves a gap; any other scan changes nothing and takes
entries in order until one does not fit. -/
theorem post_scanV1_exact (short : ShortFloats inner.host.codec) {entries : List Entry}
    {records : List HubBatchRecordV1} {bodyBytes : Nat} (keyed : m.state.Keyed)
    (pathed : m.state.Pathed) (held : ∀ entry ∈ entries, m.state.Holds entry)
    (distinct : entries.Nodup) (fits : FitsV1 inner records)
    (small : ∀ record ∈ records, record.bytes inner.host ≤ 2 ^ 25)
    (total : bodyBytes = (records.map (·.bytes inner.host)).sum) :
    Post (scanV1 inner entries records bodyBytes).run m
      (fun result m' => (∃ noticeId gap, m'.state.gaps.get? noticeId = some gap) ∨
        m' = m ∧ ∃ taken rest new, entries = taken ++ rest ∧ result = records ++ new ∧
          List.Forall₂ (ReadsV1 inner m.disk) taken new ∧ FitsV1 inner result ∧
          StopsV1 inner m.disk result rest)
      (fun _ _ => True) := by
  induction entries generalizing records bodyBytes with
  | nil =>
      refine .inr ⟨rfl, [], [], [], rfl, (List.append_nil _).symm, .nil, fits, ?_⟩
      intro next more empty
      cases empty
  | cons entry rest ih =>
      obtain ⟨outside, distinctRest⟩ := List.nodup_cons.mp distinct
      have heldEntry := held entry List.mem_cons_self
      have heldRest : ∀ other ∈ rest, m.state.Holds other :=
        fun other inside => held other (List.mem_cons_of_mem _ inside)
      have stopHere (stops : StopsV1 inner m.disk records (entry :: rest)) :
          m = m ∧ ∃ taken behind new, entry :: rest = taken ++ behind ∧ records = records ++ new ∧
            List.Forall₂ (ReadsV1 inner m.disk) taken new ∧ FitsV1 inner records ∧
            StopsV1 inner m.disk records behind :=
        ⟨rfl, [], _, [], rfl, (List.append_nil _).symm, .nil, fits, stops⟩
      simp only [scanV1]
      by_cases full : records.length ≥ min inner.config.batchMaxRecords 256
      · rw [if_pos full]
        exact .inr (stopHere fun _ _ _ => .inl (le_antisymm fits.count full))
      · rw [if_neg full]
        simp only [Call.run_bind, post_bind, Call.post_attempt]
        rw [post_readEntry]
        cases read : decodeEntry inner entry (m.disk.read entry.path) with
        | error error =>
            by_cases corrupt : error = .corruptRecord
            · subst corrupt
              simp only [Call.run_bind, Call.run_atomic]
              refine (post_quarantineRuntimeEntry_gap
                ⟨keyed, pathed, heldEntry, not_ok_of_corrupt read⟩).bind ?_
              rintro _ m₁ ⟨⟨keyed₁, pathed₁, holds⟩, noticeId, gap, found⟩
              -- the gap outlives the rest of the scan
              refine ((labelled_scanV1 rest records bodyBytes).post_scans
                (along_scanV1 keyed₁ pathed₁ (fun other inside => ?_) distinctRest)).mono
                (fun _ m₂ scans => ?_) fun _ _ _ => trivial
              · exact (holds other).mpr ⟨heldRest other inside, fun same => outside (same ▸ inside)⟩
              · exact .inl ⟨noticeId, gap, scans.gaps noticeId gap found⟩
            · cases error <;> first | exact absurd rfl corrupt | trivial
        | ok stored =>
            simp only
            have reads : ReadsV1 inner m.disk entry _ := ⟨stored, read, rfl⟩
            generalize same : HubBatchRecordV1.mk stored.recordId stored.admittedAtMs
              stored.envelope = record at reads ⊢
            have modest := reads.bytes_le short
            have exactSum : saturatingAdd bodyBytes (encodedSize inner.host record.toJson) =
                ((records ++ [record]).map (·.bytes inner.host)).sum := by
              rw [total]
              exact fits.sum_append small modest
            rw [exactSum]
            split
            · rename_i long
              refine .inr (stopHere fun next more split => .inr ⟨record, ?_, fun room => ?_⟩)
              · obtain ⟨rfl, -⟩ := List.cons.inj split
                exact reads
              · exact absurd room.bytes (not_le.mpr long.2)
            · rename_i unlong
              split
              · trivial
              · rename_i unlarge
                have room : FitsV1 inner (records ++ [record]) := by
                  refine ⟨?_, ?_⟩
                  · rw [List.length_append, List.length_singleton]
                    exact not_le.mp full
                  · by_cases empty : records = []
                    · subst empty
                      rw [List.nil_append, List.map_singleton, List.sum_singleton]
                      exact not_lt.mp unlarge
                    · exact not_lt.mp fun beyond => unlong ⟨empty, beyond⟩
                refine (ih heldRest distinctRest room ?_ rfl).monoOk ?_
                · intro other inside
                  rcases List.mem_append.mp inside with there | here
                  · exact small other there
                  · rw [List.mem_singleton.mp here]
                    exact modest
                · rintro result m₁ (gap | ⟨rfl, taken, behind, new, split, rfl, all, fits', stops⟩)
                  · exact .inl gap
                  · refine .inr ⟨rfl, entry :: taken, behind, record :: new, ?_, ?_, .cons reads all,
                      ?_, ?_⟩
                    · rw [split]
                      rfl
                    · rw [List.append_assoc]
                      rfl
                    · exact fits'
                    · exact stops

end Scan

/-! ### The batch -/

/-- The batch is the longest prefix of the pending entries within its limits, and no entry the
limits leave room for is hidden because its file does not read back. -/
structure DeliversOldest (inner : Inner) (m : Machine) (batch : HubBatchV1) (taken : List Entry) :
    Prop where
  whole : ∀ entry, entry ∈ m.state.oldestFirst ↔ m.state.Holds entry
  ordered : m.state.oldestFirst.Pairwise Entry.admittedBefore
  front : taken <+: m.state.oldestFirst
  reads : List.Forall₂ (ReadsV1 inner m.disk) taken batch.records
  fits : FitsV1 inner batch.records
  longest : ∀ other records, other <+: m.state.oldestFirst →
    List.Forall₂ (ReadsV1 inner m.disk) other records → FitsV1 inner records →
    other.length ≤ taken.length
  unhidden : ∀ front next rest records, m.state.oldestFirst = front ++ next :: rest →
    List.Forall₂ (ReadsV1 inner m.disk) front records → FitsV1 inner records →
    records.length < min inner.config.batchMaxRecords 256 →
    ∃ record, ReadsV1 inner m.disk next record

section Batch

variable {inner : Inner} {m m' : Machine}

/-- So is a queue of entries. -/
theorem readsV1_all_unique {disk : Disk} {entries : List Entry}
    {records records' : List HubBatchRecordV1}
    (mine : List.Forall₂ (ReadsV1 inner disk) entries records)
    (yours : List.Forall₂ (ReadsV1 inner disk) entries records') : records = records' := by
  have unique : Relator.RightUnique (ReadsV1 inner disk) := fun _ _ _ => ReadsV1.unique
  exact unique.forall₂ mine yours

/-- Where a scan stops, the longest prefix ends. -/
theorem deliversOldest_of_stop {batch : HubBatchV1} {taken rest : List Entry}
    (keyed : m.state.Keyed) (split : m.state.oldestFirst = taken ++ rest)
    (reads : List.Forall₂ (ReadsV1 inner m.disk) taken batch.records)
    (fits : FitsV1 inner batch.records) (stops : StopsV1 inner m.disk batch.records rest) :
    DeliversOldest inner m batch taken := by
  have count : taken.length = batch.records.length := reads.length_eq
  have longest : ∀ other records, other <+: m.state.oldestFirst →
      List.Forall₂ (ReadsV1 inner m.disk) other records → FitsV1 inner records →
      other.length ≤ taken.length := by
    intro other records within reads' fits'
    by_contra longer
    have front : taken <+: other := by
      refine List.prefix_of_prefix_length_le ?_ within (not_le.mp longer).le
      rw [split]
      exact List.prefix_append _ _
    obtain ⟨more, rfl⟩ := front
    cases more with
    | nil => simp at longer
    | cons next more =>
        obtain ⟨behind, whole⟩ := within
        rw [split, List.append_assoc] at whole
        have next' := stops next (more ++ behind) (List.append_cancel_left whole).symm
        have reads₁ := List.forall₂_take (taken ++ [next]).length reads'
        rw [show taken ++ next :: more = (taken ++ [next]) ++ more by simp, List.take_left] at reads₁
        have fits₁ : FitsV1 inner (records.take (taken ++ [next]).length) := by
          apply fitsV1_prefixClosed inner _ (records.drop (taken ++ [next]).length)
          rw [List.take_append_drop]
          exact fits'
        rcases next' with full | ⟨record, read, unfit⟩
        · have bound := fits₁.count
          have length := reads₁.length_eq
          rw [← length, List.length_append, List.length_singleton, count] at bound
          omega
        · rw [readsV1_all_unique reads₁ (List.rel_append reads (.cons read .nil))] at fits₁
          exact unfit fits₁
  refine ⟨fun entry => State.mem_oldestFirst keyed, m.state.oldestFirst_sorted,
    ⟨rest, split.symm⟩, reads, fits, longest, ?_⟩
  intro front next behind records split' reads' fits' short
  have within := longest front records ⟨_, split'.symm⟩ reads' fits'
  rw [split] at split'
  obtain ⟨more, rfl⟩ : front <+: taken :=
    List.prefix_of_prefix_length_le ⟨_, split'.symm⟩ (List.prefix_append _ _) within
  rw [List.append_assoc] at split'
  have after := List.append_cancel_left split'
  cases more with
  | nil =>
      rw [List.append_nil] at reads
      rcases stops next behind after with full | ⟨record, read, -⟩
      · rw [readsV1_all_unique reads' reads] at short
        omega
      · exact ⟨record, read⟩
  | cons first more =>
      obtain ⟨rfl, -⟩ := List.cons.inj after
      obtain ⟨record, -, read⟩ := exists_right_of_mem_forall₂ reads
        (List.mem_append_right front List.mem_cons_self)
      exact ⟨record, read⟩

/-- A v1 batch is built on a machine without gaps, which stays as it is. -/
theorem post_buildBatch_exact (short : ShortFloats inner.host.codec) (keyed : m.state.Keyed)
    (pathed : m.state.Pathed) :
    Post (buildBatch inner).run m
      (fun batch m' => m' = m ∧ m.state.gaps.isEmpty = true ∧
        m.state.countedPendingExpirations.isEmpty = true ∧
        ∃ taken, DeliversOldest inner m batch taken)
      (fun _ _ => True) := by
  have held : ∀ entry ∈ m.state.oldestFirst, m.state.Holds entry :=
    fun entry inside => (State.mem_oldestFirst keyed).mp inside
  have distinct : m.state.oldestFirst.Nodup :=
    (List.perm_insertionSort _ _).nodup_iff.mpr keyed.nodup_values
  simp only [buildBatch, Call.run_bind, Call.run_atomic, post_bind, post_state, post_ite,
    post_throw, post_pure, Call.run_pure]
  refine ⟨fun _ => trivial, fun _ => ?_⟩
  refine (post_scanV1_exact short keyed pathed held distinct ⟨Nat.zero_le _, Nat.zero_le _⟩
    (fun _ inside => absurd inside List.not_mem_nil) rfl).monoOk ?_
  intro records m₁ outcome
  simp only [requireNoGaps, post_bind, post_state, post_ite, post_throw, post_pure]
  refine ⟨fun _ => trivial, fun none => ?_⟩
  simp only [not_or, not_not] at none
  rcases outcome with ⟨noticeId, gap, found⟩ | ⟨rfl, taken, rest, new, split, rfl, reads, fits, stops⟩
  · rw [OrdMap.isEmpty_iff.mp none.1 noticeId] at found
    cases found
  · exact ⟨rfl, none.1, none.2, taken, deliversOldest_of_stop keyed split reads fits stops⟩

end Batch

/-- Before a v1 answer, no entry was due: every due entry would now be a gap or counted. -/
theorem Expired.nothing_due {inner : Inner} {nowMs : I64} {m m' : Machine}
    (expired : Expired inner nowMs m m') (gapless : m'.state.gaps.isEmpty = true)
    (uncounted : m'.state.countedPendingExpirations.isEmpty = true) :
    (∀ entry, m.state.Holds entry → ¬ m.state.Due nowMs entry) ∧
      ∀ entry, m'.state.Holds entry ↔ m.state.Holds entry := by
  have unreplaced : ∀ entry, ¬ m'.state.Replaced inner.host entry := by
    rintro entry ⟨gap, found⟩
    rw [OrdMap.isEmpty_iff.mp gapless] at found
    cases found
  have stays : ∀ entry, m.state.Holds entry → m'.state.Holds entry := by
    intro entry held
    exact (expired.gone entry held).resolve_right fun gone => unreplaced entry gone.2
  refine ⟨fun entry held due => ?_, fun entry => ⟨expired.holds entry, stays entry⟩⟩
  have counted := (expired.counted entry (stays entry held)).mpr due
  obtain ⟨id, found⟩ := OrdMap.contains_iff.mp counted
  rw [OrdMap.isEmpty_iff.mp uncounted] at found
  cases found

/-- A v1 answer hides no loss.  Nothing is a gap and nothing is counted as expired, no entry is past
its deadline and none has left the queue during the call, and the batch is the longest prefix of all
pending entries within its limits. -/
theorem nextBatch_hides_nothing {key : EncryptionKey} {host : Host} {w : World}
    (reach : Reach (UnderKey key host) w) (distinct : DistinctNotices host w.Offered)
    (short : ShortFloats host.codec) {process : Process} (running : w.process = some process)
    {faults : Faults} {nowMs : I64} {batch : HubBatchV1} {m' : Machine}
    (ran : (nextBatch process.inner nowMs).run (w.machine process faults) = .ok batch m') :
    (m'.state.gaps.isEmpty = true ∧ m'.state.countedPendingExpirations.isEmpty = true) ∧
      (∀ entry, m'.state.Holds entry → nowMs.val ≤ entry.expiresAtMs.val) ∧
      (∃ taken, DeliversOldest process.inner m' batch taken) ∧
      process.state.gaps.isEmpty = true ∧
      (∀ entry, process.state.Holds entry → ¬ process.state.Due nowMs entry) ∧
      ∀ entry, m'.state.Holds entry ↔ process.state.Holds entry := by
  obtain ⟨rfl, rfl, backing⟩ := (reach.kept distinct).running process running
  obtain ⟨-, ready⟩ := backing faults
  obtain ⟨count, m₁, began, ran⟩ := run_bind_ok ran
  have locked : expireDueLocked process.inner nowMs (w.machine process faults) = .ok count m₁ := by
    rwa [expireDue, Call.run_atomic] at began
  have expired := (post_expireDueLocked_expired ready.keyed
    (ready.numbered.separate ready.pathed)).of_ok locked
  have chain := (@post_expireDueLocked process.inner noOffers _ nowMs ready.keyed
    ready.numbered).of_ok locked
  have ready₁ := chain.ready ready
  obtain ⟨answered, m₂, looked, built⟩ := run_bind_ok ran
  obtain rfl : m₂ = m₁ := by
    rw [Call.run_atomic] at looked
    have looks : Post (do
        if (← state).unresolvedIntegrity then throw .corruptRecord
        requireNoGaps) m₁ (fun _ m₂ => m₂ = m₁) (fun _ _ => True) := by
      simp only [requireNoGaps, post_bind, post_state, post_ite, post_throw, post_pure,
        implies_true, and_self]
    exact looks.of_ok looked
  obtain ⟨rfl, gapless, uncounted, taken, delivers⟩ :=
    (post_buildBatch_exact short ready₁.keyed ready₁.pathed).of_ok built
  obtain ⟨current, holds⟩ := expired.nothing_due gapless uncounted
  refine ⟨⟨gapless, uncounted⟩, fun entry held => ?_, ⟨taken, delivers⟩, ?_, current, holds⟩
  · exact not_lt.mp fun past => current entry ((holds entry).mp held) (.inl past)
  · rw [OrdMap.isEmpty_iff]
    intro noticeId
    by_contra some_
    obtain ⟨gap, found⟩ := Option.ne_none_iff_exists'.mp some_
    have kept := expired.gaps noticeId gap found
    rw [OrdMap.isEmpty_iff.mp gapless] at kept
    cases kept

/-- What a v1 pull of the running process would answer. -/
def World.pullV1 (w : World) (nowMs : I64) : Option (Process × HubBatchV1 × Machine) :=
  match w.process with
  | none => none
  | some process =>
      match (nextBatch process.inner nowMs).run (w.machine process .none) with
      | .ok batch after => some (process, batch, after)
      | .error _ _ => none

theorem World.pullV1_eq_some {w : World} {nowMs : I64} {process : Process} {batch : HubBatchV1}
    {after : Machine} (pulled : w.pullV1 nowMs = some (process, batch, after)) :
    w.process = some process ∧
      (nextBatch process.inner nowMs).run (w.machine process .none) = .ok batch after := by
  unfold World.pullV1 at pulled
  split at pulled
  · cases pulled
  · split at pulled
    · rename_i running _ _ _ ran
      obtain ⟨rfl, rfl, rfl⟩ := pulled
      exact ⟨running, ran⟩
    · cases pulled

/-- A limit cuts the batch off two of three records. -/
theorem threeAdmissions_pulledV1 :
    ((World.fresh.follow threeAdmissions).any fun w =>
      decide (w.TellsApart (referenceHost integerCodec)) &&
      (w.pullV1 (sampleTime 30002)).any fun pulled =>
        decide (pulled.2.1.records.length = 2 ∧ pulled.2.2.state.entries.size = 3)) = true := by
  decide +kernel

theorem nextBatch_hides_nothing_threeAdmissions :
    ∃ (process : Process) (batch : HubBatchV1) (after : Machine) (taken : List Entry),
      batch.records.length = 2 ∧ after.state.entries.size = 3 ∧ after.state.gaps.isEmpty = true ∧
        DeliversOldest process.inner after batch taken := by
  obtain ⟨w, followed, shows⟩ := (Option.any_eq_true _ _).mp threeAdmissions_pulledV1
  rw [Bool.and_eq_true, decide_eq_true_eq] at shows
  obtain ⟨apart, shows⟩ := shows
  obtain ⟨⟨process, batch, after⟩, pulled, sizes⟩ := (Option.any_eq_true _ _).mp shows
  obtain ⟨two, three⟩ := of_decide_eq_true sizes
  obtain ⟨running, ran⟩ := World.pullV1_eq_some pulled
  have reach := World.reach_of_follow .start (fun player inside => reopenedSpool_untouched player
    (threeAdmissions_subset inside)) followed
  obtain ⟨⟨gapless, -⟩, -, ⟨taken, delivers⟩, -⟩ :=
    nextBatch_hides_nothing (reach.mono fun _ _ untouched => untouched.underKey)
      apart.distinctNotices integerCodec_shortFloats running ran
  exact ⟨process, batch, after, taken, two, three, gapless, delivers⟩

end TeslatlasEdge
