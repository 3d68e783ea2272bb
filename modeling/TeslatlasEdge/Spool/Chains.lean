/-
Module: TeslatlasEdge.Spool.Chains
Purpose: Every section of a running spool is a chain of elementary effects, on each of its exits.
Trusted boundary: none
Main exports: post_persistGapLocked, post_removeAdmittedRecord, post_completeReceipt,
  post_expireDueLocked, post_enqueueLocked, post_quarantineRuntimeEntry
-/
import TeslatlasEdge.Spool.Effects

namespace TeslatlasEdge

open Lib
open Section

variable {inner : Inner} {offered : Nat → Envelope → Prop} {m : Machine}

/-- An input or output error is never reported as a lack of room. -/
theorem mapIoError_ne_capacityExceeded (full : Bool) : mapIoError full ≠ .capacityExceeded := by
  cases full <;> decide

/-! ### Durable writes -/

/-- A permitted write either places its file or fails with the state as it was. -/
theorem Write.post {path : Path} {body : Blob} {record : State → State}
    {onOk : Unit → Machine → Prop} {onError : SpoolError → Machine → Prop}
    (write : Write inner offered m path body record)
    (placed : m.storageWriteFailed = false → ∀ faults : Faults, faults.Within m.faults →
      onOk () { m.place path body with faults := faults })
    (failed : ∀ error m', error ≠ .capacityExceeded → Chain inner offered m m' →
      m'.state = m.state → (∀ other, other ≠ path → m'.disk.read other = m.disk.read other) →
      onError error m') :
    Post (writeAtomic path body) m onOk onError := by
  apply post_writeAtomic
  · intro _
    exact failed _ _ (by decide) .refl rfl fun _ _ => rfl
  · exact placed
  · intro _ faulty full faults within
    exact failed _ _ (mapIoError_ne_capacityExceeded full)
      (.single (.writeFailed within faulty)) rfl fun _ _ => rfl
  · intro _ faulty full faults within
    exact failed _ _ (mapIoError_ne_capacityExceeded full)
      (.single (.orphaned within faulty)) rfl fun other _ => by cases other <;> rfl
  · intro open_ faulty full faults within
    exact failed _ _ (mapIoError_ne_capacityExceeded full)
      (.single (.unsynced within faulty open_ write)) rfl fun other different =>
        (Disk.read_put _ _ _ _).trans (if_neg different)

theorem Counting.same (state : State) :
    Counting state state.expiredRecords state.countedPendingExpirations :=
  ⟨fun _ _ held => held, fun _ _ held => .inl held, rfl⟩

/-- Writing the counters down leaves the state as it is. -/
theorem post_persistCurrentSequenceState :
    Post (persistCurrentSequenceState inner) m
      (fun _ m' => Chain inner offered m m' ∧ m'.state = m.state)
      (fun error m' => error ≠ .capacityExceeded ∧ Chain inner offered m m' ∧
        m'.state = m.state) := by
  simp only [persistCurrentSequenceState, persistSequenceState, post_bind, post_state]
  apply Write.post (.sequence (Counting.same m.state) id)
  · intro open_ faults within
    exact ⟨.single (.wrote within open_ (.sequence (Counting.same m.state) id)), rfl⟩
  · intro error m' other chain same _
    exact ⟨other, chain, same⟩

/-- What `persist_gap_locked` has checked before it writes. -/
structure GapFits (inner : Inner) (state : State) (notice : GapNoticeV2) : Prop where
  absent : state.gaps.get? notice.noticeId = none
  single : ¬ state.HoldsGapFor notice.spoolSeq
  room : state.gaps.size < inner.config.maxRecords
  small : (inner.key.encrypt (.gap notice)).length ≤ maxEncryptedGapBytes
  bytes : saturatingAdd state.pendingGapBytes (inner.key.encrypt (.gap notice)).length ≤
    inner.config.maxBytes

/-- The gap is held already, is refused, or is written under its own name. -/
theorem post_persistGapLocked_exits {entry : Entry} {occurredAtMs : I64} {reason : GapReasonV2}
    {notice : GapNoticeV2} (named : notice = gapNotice inner.host entry occurredAtMs reason)
    {onOk : RecordId × Bool → Machine → Prop} {onError : SpoolError → Machine → Prop}
    (present : ∀ gap, m.state.gaps.get? notice.noticeId = some gap →
      onOk (notice.noticeId, false) m)
    (refused : ∀ error, (error = .capacityExceeded → ¬ m.state.HoldsGapFor notice.spoolSeq) →
      onError error m)
    (written : GapFits inner m.state notice →
      Post (writeAtomic (.gap (gapFileName notice.spoolSeq notice.noticeId))
          (inner.key.encrypt (.gap notice))) m
        (fun _ m' => onOk (notice.noticeId, true) (m'.update (·.recordGap notice
          (inner.key.encrypt (.gap notice)).length
          (.gap (gapFileName notice.spoolSeq notice.noticeId))))) onError) :
    Post (persistGapLocked inner entry occurredAtMs reason) m onOk onError := by
  subst named
  simp only [persistGapLocked, post_bind, post_state, post_ite, post_throw, post_pure,
    post_modifyState]
  set notice := gapNotice inner.host entry occurredAtMs reason with named
  have ungapped : (¬ (m.state.gaps.values.any fun gap => gap.notice.spoolSeq = entry.spoolSeq) =
      true) → ¬ m.state.HoldsGapFor notice.spoolSeq := by
    rintro single ⟨noticeId, gap, found, same⟩
    apply single
    rw [List.any_eq_true]
    exact ⟨gap, OrdMap.mem_values_iff.mpr ⟨noticeId, found⟩, decide_eq_true same⟩
  refine ⟨fun held => ?_, fun absent => ⟨fun _ => refused _ (by simp), fun single =>
    ⟨fun _ => refused _ (by simp), fun _ => ⟨fun _ => refused _ fun _ => ungapped single,
      fun room => ⟨fun _ => refused _ fun _ => ungapped single, fun fits => ?_⟩⟩⟩⟩⟩
  · obtain ⟨gap, found⟩ := OrdMap.contains_iff.mp held
    exact present gap found
  · rw [not_or, not_lt, not_lt] at fits
    exact written ⟨OrdMap.contains_eq_false_iff.mp (Bool.eq_false_iff.mpr absent), ungapped single,
      not_le.mp room, fits.1, fits.2⟩

/-- Once a gap is persisted the state holds a gap under its notice identity and has changed in
nothing else. -/
theorem post_persistGapLocked {entry : Entry} {occurredAtMs : I64} {reason : GapReasonV2}
    (held : m.state.Holds entry)
    (counted : reason = .retentionExpired →
      m.state.countedPendingExpirations.contains entry.spoolSeq = true ∨
        m.state.HoldsGapFor entry.spoolSeq)
    (damaged : reason = .integrityQuarantine →
      ∀ stored, decodeEntry inner entry (m.disk.read entry.path) ≠ .ok stored) :
    Post (persistGapLocked inner entry occurredAtMs reason) m
      (fun answer m' => Chain inner offered m m' ∧
        answer.1 = (gapNotice inner.host entry occurredAtMs reason).noticeId ∧
        (∃ gap, m'.state.gaps.get? answer.1 = some gap) ∧
        m'.disk.pending = m.disk.pending ∧
        (m'.state = m.state ∨ ∃ encryptedBytes path,
          m.state.gaps.get? (gapNotice inner.host entry occurredAtMs reason).noticeId = none ∧
          m'.state = m.state.recordGap (gapNotice inner.host entry occurredAtMs reason)
            encryptedBytes path))
      (fun error m' => Chain inner offered m m' ∧ m'.state = m.state ∧
        (∀ name, m'.disk.read (.pending name) = m.disk.read (.pending name)) ∧
        (error = .capacityExceeded → ¬ m.state.HoldsGapFor entry.spoolSeq)) := by
  generalize named : gapNotice inner.host entry occurredAtMs reason = notice
  apply post_persistGapLocked_exits named.symm
  · intro gap found
    exact ⟨.refl, rfl, ⟨gap, found⟩, rfl, .inl rfl⟩
  · intro error ungapped
    rw [← named] at ungapped
    exact ⟨.refl, rfl, fun _ => rfl, ungapped⟩
  · intro fits
    have single : ¬ m.state.HoldsGapFor entry.spoolSeq := by
      have single := fits.single
      rwa [← named] at single
    have write : Write inner offered m _ _ _ := .gap held named.symm rfl fits.absent single fits.room
      fits.small fits.bytes (fun retention => (counted retention).resolve_right single) damaged
    apply write.post
    · intro open_ faults within
      have chain := Relation.ReflTransGen.single (Effect.wrote within open_ write)
      refine ⟨chain, rfl, ⟨?_, ?_⟩, rfl, .inr ⟨_, _, fits.absent, rfl⟩⟩
      · exact
          { notice := notice
            encryptedBytes := (inner.key.encrypt (.gap notice)).length
            path := .gap (gapFileName notice.spoolSeq notice.noticeId) }
      · change (m.state.gaps.insert notice.noticeId _).get? notice.noticeId = _
        rw [OrdMap.get?_insert, if_pos rfl]
    · intro error m' other chain same reads
      exact ⟨chain, same, fun name => reads _ (by simp), fun full => absurd full other⟩

/-! ### Removals -/

/-- What is found under an admission is the entry with that admission. -/
theorem admittedEntry_eq_some {state : State} {admission : ReceiptAdmission} {entry : Entry} :
    admittedEntry state admission = some entry ↔
      state.Holds entry ∧ entry.admission = admission := by
  simp only [admittedEntry, Option.filter_eq_some_iff, Bool.and_eq_true, decide_eq_true_eq,
    State.Holds]
  constructor
  · rintro ⟨found, ⟨sequence, stable⟩, legacy⟩
    refine ⟨by rw [legacy]; exact found, ?_⟩
    simp only [Entry.admission, sequence, stable, legacy]
  · rintro ⟨found, rfl⟩
    exact ⟨found, ⟨rfl, rfl⟩, rfl⟩

/-- After a release everything is held that has another admission. -/
theorem State.holds_release {state : State} {entry other : Entry} (held : state.Holds entry) :
    (state.release entry).Holds other ↔ state.Holds other ∧ other.admission ≠ entry.admission := by
  simp only [State.Holds, State.release_entries, OrdMap.get?_erase]
  constructor
  · intro found
    split at found
    · cases found
    · rename_i different
      exact ⟨found, fun same => different (congrArg ReceiptAdmission.legacyRecordId same)⟩
  · rintro ⟨found, different⟩
    rw [if_neg]
    · exact found
    · intro same
      apply different
      rw [State.Holds, ← same, found] at held
      rw [Option.some.inj held]

/-- Releasing an entry forgets at most the count of its own sequence. -/
theorem State.release_counted (state : State) {entry : Entry} {s : Nat}
    (other : s ≠ entry.spoolSeq) : (state.release entry).countedPendingExpirations.get? s =
      state.countedPendingExpirations.get? s := by
  unfold State.release
  split
  · exact (OrdMap.get?_erase _ _ _).trans (if_neg other)
  · rfl

/-- Removing an admission releases the entry of that occurrence, or at most forgets a count. -/
theorem post_removeAdmittedRecord_exits {admission : ReceiptAdmission}
    {onOk : Bool → Machine → Prop} {onError : SpoolError → Machine → Prop}
    (missing : admittedEntry m.state admission = none → onOk false m)
    (forgotten : admittedEntry m.state admission = none →
      m.state.countedPendingExpirations.get? admission.spoolSeq = some admission.stableRecordId →
      onOk false (m.update (·.forgetCounted admission.spoolSeq)))
    (released : ∀ entry, m.state.Holds entry → entry.admission = admission → ∀ faults : Faults,
      faults.Within m.faults →
      onOk true { (m.discard entry.path).update (·.release entry) with faults := faults })
    (failed : ∀ full, some full ∈ m.faults.removals → ∀ faults : Faults, faults.Within m.faults →
      onError (mapIoError full) { m with faults := faults }) :
    Post (removeAdmittedRecord admission) m onOk onError := by
  simp only [removeAdmittedRecord, post_bind, post_state]
  cases admitted : admittedEntry m.state admission with
  | none =>
      simp only [post_bind, post_ite, post_pure, post_modifyState]
      exact ⟨fun counted => forgotten admitted counted, fun _ => missing admitted⟩
  | some entry =>
      obtain ⟨held, rfl⟩ := admittedEntry_eq_some.mp admitted
      simp only [post_bind]
      refine post_removeFile (fun faults within => ?_) failed
      have done := released entry held rfl faults within
      have state := m.discard_state entry.path
      simp only [post_modifyState, post_bind, post_ite, post_pure]
      refine ⟨fun counted => ?_, fun uncounted => ?_⟩
      · have same : m.state.release entry =
            (m.state.dropEntry entry).forgetCounted entry.spoolSeq := if_pos counted
        simpa only [Machine.update, state, same, Entry.admission] using done
      · have same : m.state.release entry = m.state.dropEntry entry := if_neg uncounted
        simpa only [Machine.update, state, same] using done

/-- Removing an admission takes away exactly the entry of that occurrence. -/
theorem post_removeAdmittedRecord {admission : ReceiptAdmission}
    (removal : ∀ entry, m.state.Holds entry → entry.admission = admission →
      Removal inner m entry.path (·.release entry))
    (forget : m.state.countedPendingExpirations.get? admission.spoolSeq =
      some admission.stableRecordId → admittedEntry m.state admission = none →
      Update inner m (·.forgetCounted admission.spoolSeq)) :
    Post (removeAdmittedRecord admission) m
      (fun _ m' => Chain inner offered m m' ∧ m'.state.gaps = m.state.gaps ∧
        (∀ entry, m'.state.Holds entry ↔ m.state.Holds entry ∧ entry.admission ≠ admission) ∧
        ∀ s, s ≠ admission.spoolSeq → m'.state.countedPendingExpirations.get? s =
          m.state.countedPendingExpirations.get? s)
      (fun _ m' => Chain inner offered m m' ∧ m'.state = m.state) := by
  have absent : admittedEntry m.state admission = none → ∀ entry, m.state.Holds entry ↔
      m.state.Holds entry ∧ entry.admission ≠ admission := by
    intro admitted entry
    refine ⟨fun held => ⟨held, fun same => ?_⟩, And.left⟩
    rw [admittedEntry_eq_some.mpr ⟨held, same⟩] at admitted
    cases admitted
  apply post_removeAdmittedRecord_exits
  · exact fun gone => ⟨.refl, rfl, absent gone, fun _ _ => rfl⟩
  · intro gone counted
    refine ⟨.single (.updated (forget counted gone)), rfl, absent gone, fun s other => ?_⟩
    exact (OrdMap.get?_erase _ _ _).trans (if_neg other)
  · rintro entry held rfl faults within
    refine ⟨.single (.removed within (removal entry held rfl)), ?_, fun other => ?_,
      fun s other => ?_⟩
    · simp only [Machine.update, Machine.discard_state, State.release_gaps]
    · simp only [Machine.update, Machine.discard_state]
      exact State.holds_release held
    · simp only [Machine.update, Machine.discard_state]
      exact State.release_counted _ other
  · intro full _ faults within
    exact ⟨.single (.fault within), rfl⟩

/-- The backing of a notice is an entry that is held, counted and named by the notice. -/
theorem expiredBacking_eq_some {host : Host} {state : State} {noticeId : RecordId} {entry : Entry}
    (keyed : state.Keyed) (found : expiredBacking host state noticeId = some entry) :
    state.Holds entry ∧ state.countedPendingExpirations.contains entry.spoolSeq = true ∧
      entry.retentionNoticeId host = noticeId := by
  have holds := List.find?_some found
  obtain ⟨id, inside⟩ := OrdMap.mem_values_iff.mp (List.mem_of_find?_eq_some found)
  simp only [Bool.and_eq_true, decide_eq_true_eq] at holds
  refine ⟨?_, holds.1, holds.2⟩
  rw [State.Holds, keyed id entry inside]
  exact inside

section Receipts

variable {receipt : AckReceipt}

/-- Removing what a receipt accepted is a chain of removals. -/
theorem post_completeAdmissions {admissions : List ReceiptAdmission} {removedPending : Bool}
    (receipted : Receipted inner.key m.timeline receipt)
    (accepted : ∀ admission ∈ admissions, admission ∈ receipt.acceptedAdmissions) :
    Post (completeAdmissions admissions removedPending) m
      (fun _ m' => Chain inner offered m m' ∧ m'.state.gaps = m.state.gaps ∧
        ∀ entry, m'.state.Holds entry ↔ m.state.Holds entry ∧ entry.admission ∉ admissions)
      (fun _ m' => Chain inner offered m m') := by
  induction admissions generalizing m removedPending with
  | nil => exact ⟨.refl, rfl, by simp⟩
  | cons admission rest ih =>
      have first := @post_removeAdmittedRecord inner offered m admission
        (fun entry held same => .acknowledged held receipted (same ▸ accepted _ (by simp)))
        (fun counted gone => .forgetAdmitted receipted (accepted _ (by simp)) counted gone)
      simp only [completeAdmissions]
      refine (first.mono (fun _ _ kept => kept) fun _ _ kept => kept.1).bind ?_
      rintro removed m₁ ⟨chain, gaps, holds, -⟩
      refine (ih (receipted.mono chain.timeline) fun a inside => accepted a (by simp [inside])).mono
        ?_ fun _ _ later => chain.trans later
      rintro _ m₂ ⟨later, gaps', holds'⟩
      refine ⟨chain.trans later, gaps'.trans gaps, fun entry => ?_⟩
      rw [holds' entry, holds entry, List.mem_cons, not_or, and_assoc]

/-- Removing the backing of an accepted notice is a chain. -/
theorem post_removeExpiredGapBacking {noticeId : RecordId} (keyed : m.state.Keyed)
    (numbered : m.state.Numbered) (receipted : Receipted inner.key m.timeline receipt)
    (accepted : noticeId ∈ receipt.acceptedGapNoticeIds) :
    Post (removeExpiredGapBacking inner noticeId) m
      (fun _ m' => Chain inner offered m m' ∧ m'.state.gaps = m.state.gaps ∧
        ∀ entry, m'.state.Holds entry → m.state.Holds entry)
      (fun _ m' => Chain inner offered m m') := by
  simp only [removeExpiredGapBacking, post_bind, post_state]
  cases found : expiredBacking inner.host m.state noticeId with
  | none => exact ⟨.refl, rfl, fun _ held => held⟩
  | some backing =>
      obtain ⟨held, counted, same⟩ := expiredBacking_eq_some keyed found
      have backed : backing.retentionNoticeId inner.host ∈ receipt.acceptedGapNoticeIds := by
        rw [same]
        exact accepted
      have first := @post_removeAdmittedRecord inner offered m backing.admission
        (fun entry holds same => by
          have equal : entry = backing := by
            have id := congrArg ReceiptAdmission.legacyRecordId same
            simp only [Entry.admission] at id
            rw [State.Holds, id, held] at holds
            exact (Option.some.inj holds).symm
          subst equal
          exact .backing holds counted receipted backed)
        (fun _ gone => by
          rw [admittedEntry_eq_some.mpr ⟨held, rfl⟩] at gone
          cases gone)
      simp only [post_bind]
      refine first.mono ?_ fun _ _ kept => kept.1
      rintro removed m₁ ⟨chain, gaps, holds, -⟩
      have gone : ∀ other, m₁.state.Holds other → other.spoolSeq ≠ backing.spoolSeq := by
        intro other still sequence
        obtain ⟨before, different⟩ := (holds other).mp still
        exact different (by rw [numbered.single other backing before held sequence])
      simp only [post_modifyState, post_pure]
      refine ⟨chain.tail (.updated (.forgetBacking (receipted.mono chain.timeline) backed gone)),
        gaps, fun entry kept => ((holds entry).mp kept).1⟩

/-- Completing an accepted notice is a chain. -/
theorem post_completeNotice {noticeId : RecordId} (keyed : m.state.Keyed)
    (numbered : m.state.Numbered) (receipted : Receipted inner.key m.timeline receipt)
    (accepted : noticeId ∈ receipt.acceptedGapNoticeIds) :
    Post (completeNotice inner noticeId) m
      (fun _ m' => Chain inner offered m m' ∧ ∀ entry, m'.state.Holds entry → m.state.Holds entry)
      (fun _ m' => Chain inner offered m m') := by
  simp only [completeNotice, post_bind, post_state]
  cases found : m.state.gaps.get? noticeId with
  | none =>
      simp only [post_bind]
      refine (post_removeExpiredGapBacking keyed numbered receipted accepted).monoOk ?_
      rintro _ m₁ ⟨chain, -, holds⟩
      exact ⟨chain, holds⟩
  | some gap =>
      simp only [post_bind]
      apply post_removeFile
      · intro faults within
        have effect : Effect inner offered m
            { (m.discard gap.path).update (·.dropGap noticeId gap) with faults := faults } :=
          .removed within (.gap found receipted accepted)
        refine ⟨.single effect, fun entry held => ?_⟩
        simpa only [State.Holds, Machine.update, Machine.discard_state, State.dropGap] using held
      · intro full _ faults within
        exact .single (.fault within)

/-- So is completing all of a receipt's notices. -/
theorem post_completeNotices {noticeIds : List RecordId} {flags : Bool × Bool}
    (keyed : m.state.Keyed) (numbered : m.state.Numbered)
    (receipted : Receipted inner.key m.timeline receipt)
    (accepted : ∀ noticeId ∈ noticeIds, noticeId ∈ receipt.acceptedGapNoticeIds) :
    Post (completeNotices inner noticeIds flags) m
      (fun _ m' => Chain inner offered m m' ∧ ∀ entry, m'.state.Holds entry → m.state.Holds entry)
      (fun _ m' => Chain inner offered m m') := by
  induction noticeIds generalizing m flags with
  | nil => exact ⟨.refl, fun _ held => held⟩
  | cons noticeId rest ih =>
      simp only [completeNotices]
      refine (post_completeNotice keyed numbered receipted (accepted _ (by simp))).bind ?_
      rintro removed m₁ ⟨chain, holds⟩
      refine (ih (chain.keyed keyed) (chain.numbered numbered) (receipted.mono chain.timeline)
        fun id inside => accepted id (by simp [inside])).mono ?_ fun _ _ later => chain.trans later
      rintro _ m₂ ⟨later, holds'⟩
      exact ⟨chain.trans later, fun entry held => holds entry (holds' entry held)⟩

theorem post_syncDirectory_chain :
    Post syncDirectory m
      (fun _ m' => Chain inner offered m m' ∧ m'.state = m.state ∧ m'.disk = m.disk)
      (fun _ m' => Chain inner offered m m') := by
  apply post_syncDirectory
  · intro faults within
    exact ⟨.single (.fault within), rfl, rfl⟩
  · intro full _ faults within
    exact .single (.fault within)

/-- Completing a durable receipt removes the occurrences it admits. -/
theorem post_completeReceipt (keyed : m.state.Keyed) (numbered : m.state.Numbered)
    (receipted : Receipted inner.key m.timeline receipt) :
    Post (completeReceipt inner receipt) m
      (fun _ m' => Chain inner offered m m' ∧ ∀ entry, m'.state.Holds entry →
        m.state.Holds entry ∧ entry.admission ∉ receipt.acceptedAdmissions)
      (fun _ m' => Chain inner offered m m') := by
  simp only [completeReceipt]
  refine (post_completeAdmissions receipted fun _ inside => inside).bind ?_
  rintro removed m₁ ⟨first, -, holds⟩
  refine ((post_completeNotices (first.keyed keyed) (first.numbered numbered)
    (receipted.mono first.timeline) fun _ inside => inside).mono (fun _ _ kept => kept)
    fun _ _ later => first.trans later).bind ?_
  rintro flags m₂ ⟨second, holds'⟩
  have kept : ∀ m₃ : Machine, m₃.state = m₂.state → ∀ entry, m₃.state.Holds entry →
      m.state.Holds entry ∧ entry.admission ∉ receipt.acceptedAdmissions := by
    intro m₃ same entry held
    rw [same] at held
    exact (holds entry).mp (holds' entry held)
  have sync : ∀ {m₃ : Machine}, Chain inner offered m m₃ → m₃.state = m₂.state →
      Post syncDirectory m₃ (fun _ m' => Chain inner offered m m' ∧ m'.state = m₂.state)
        (fun _ m' => Chain inner offered m m') := by
    intro m₃ chain same
    refine post_syncDirectory_chain.mono ?_ fun _ _ later => chain.trans later
    rintro _ m₄ ⟨later, same', -⟩
    exact ⟨chain.trans later, same'.trans same⟩
  have finish : ∀ {m₃ : Machine}, Chain inner offered m m₃ → m₃.state = m₂.state →
      Post (do syncDirectory; persistCurrentSequenceState inner) m₃
        (fun _ m' => Chain inner offered m m' ∧ ∀ entry, m'.state.Holds entry →
          m.state.Holds entry ∧ entry.admission ∉ receipt.acceptedAdmissions)
        (fun _ m' => Chain inner offered m m') := by
    intro m₃ chain same
    refine (sync chain same).bind ?_
    rintro _ m₄ ⟨later, same'⟩
    refine post_persistCurrentSequenceState.mono ?_ fun _ _ failed => later.trans failed.2.1
    rintro _ m₅ ⟨last, same''⟩
    exact ⟨later.trans last, kept m₅ (same''.trans same')⟩
  have chain := first.trans second
  rw [post_ite]
  exact ⟨fun _ => (sync chain rfl).bind fun _ m₃ step => finish step.1 step.2,
    fun _ => finish chain rfl⟩

end Receipts

/-! ### Expiry -/

theorem State.recordGap_holds {state : State} {notice : GapNoticeV2} {encryptedBytes : Nat}
    {path : Path} {entry : Entry} :
    (state.recordGap notice encryptedBytes path).Holds entry ↔ state.Holds entry := Iff.rfl

/-- An entry whose gap is held is taken out of the state and forgotten; nothing else is. -/
theorem post_removeReplaced {entry : Entry} (held : m.state.Holds entry)
    (single : ∀ other, m.state.Holds other → other.spoolSeq = entry.spoolSeq → other = entry)
    (replaced : ∃ gap, m.state.gaps.get? (entry.retentionNoticeId inner.host) = some gap) :
    Post (do
        let _ ← removeAdmittedRecord entry.admission
        syncDirectory
        modifyState (·.forgetCounted entry.spoolSeq)) m
      (fun _ m' => Chain inner offered m m' ∧ m'.state.gaps = m.state.gaps ∧
        (∀ other, m'.state.Holds other ↔ m.state.Holds other ∧ other.admission ≠ entry.admission) ∧
        ∀ s, s ≠ entry.spoolSeq → m'.state.countedPendingExpirations.contains s =
          m.state.countedPendingExpirations.contains s)
      (fun _ m' => Chain inner offered m m') := by
  have removal := @post_removeAdmittedRecord inner offered m entry.admission
    (fun other holds same => by
      obtain rfl := single other holds (congrArg ReceiptAdmission.spoolSeq same)
      exact .expired holds replaced)
    (fun _ gone => by
      rw [admittedEntry_eq_some.mpr ⟨held, rfl⟩] at gone
      cases gone)
  refine (removal.mono (fun _ _ facts => facts) fun _ _ failed => failed.1).bind ?_
  rintro _ m₁ ⟨first, gaps, holds, counted⟩
  rw [post_bind]
  refine post_syncDirectory_chain.mono ?_ fun _ _ failed => first.trans failed
  rintro _ m₂ ⟨second, state, -⟩
  have replaced₂ : ∃ gap, m₂.state.gaps.get? (entry.retentionNoticeId inner.host) = some gap := by
    rw [state, gaps]
    exact replaced
  have gone : ∀ other, m₂.state.Holds other → other.spoolSeq ≠ entry.spoolSeq := by
    intro other still sequence
    rw [state] at still
    obtain ⟨before, different⟩ := (holds other).mp still
    rw [single other before sequence] at different
    exact different rfl
  refine ⟨(first.trans second).tail (.updated (.forgetReplaced replaced₂ gone)), ?_, fun other => ?_,
    fun s different => ?_⟩
  · change m₂.state.gaps = _
    rw [state, gaps]
  · change m₂.state.Holds other ↔ _
    rw [state]
    exact holds other
  · change (m₂.state.countedPendingExpirations.erase _).contains _ = _
    rw [OrdMap.contains, OrdMap.get?_erase, if_neg different, state, counted s different]
    rfl

/-- The loop over expired entries is a chain of effects when each of them is counted or has a gap. -/
theorem post_expireEntries {expired : List Entry} {removedBacking : Bool}
    (numbered : m.state.Numbered) (held : ∀ entry ∈ expired, m.state.Holds entry)
    (distinct : expired.Nodup)
    (counted : ∀ entry ∈ expired,
      m.state.countedPendingExpirations.contains entry.spoolSeq = true ∨
        m.state.HoldsGapFor entry.spoolSeq) :
    Post (expireEntries inner expired removedBacking) m
      (fun _ m' => Chain inner offered m m') (fun _ m' => Chain inner offered m m') := by
  induction expired generalizing m removedBacking with
  | nil => exact .refl
  | cons entry rest ih =>
      obtain ⟨outside, distinct⟩ := List.nodup_cons.mp distinct
      have countedRest : ∀ other ∈ rest,
          m.state.countedPendingExpirations.contains other.spoolSeq = true ∨
            m.state.HoldsGapFor other.spoolSeq :=
        fun other inside => counted other (by simp [inside])
      have heldEntry : m.state.Holds entry := held entry (by simp)
      have heldRest : ∀ other ∈ rest, m.state.Holds other :=
        fun other inside => held other (by simp [inside])
      rw [expireEntries, post_bind, post_tryCatch, post_bind]
      refine (@post_persistGapLocked inner offered m _ _ _ heldEntry
        (fun _ => counted entry (by simp)) (by simp)).mono ?_ ?_
      · rintro answer m₁ ⟨chain, named, replaced, -, change⟩
        rw [named] at replaced
        rw [post_pure, if_pos rfl]
        have same : ∀ other, m₁.state.Holds other ↔ m.state.Holds other := by
          intro other
          rcases change with same | ⟨_, _, -, recorded⟩
          · rw [same]
          · rw [recorded, State.recordGap_holds]
        have counted₁ : m₁.state.countedPendingExpirations = m.state.countedPendingExpirations := by
          rcases change with same | ⟨_, _, -, recorded⟩
          · rw [same]
          · rw [recorded]
            rfl
        have removal := (@post_removeReplaced inner offered m₁ entry ((same entry).mpr heldEntry)
          (fun other still sequence => numbered.single other entry ((same other).mp still) heldEntry
            sequence) replaced).mono (fun _ _ facts => facts) fun _ _ failed => chain.trans failed
        suffices whole : Post ((do
            let _ ← removeAdmittedRecord entry.admission
            syncDirectory
            modifyState (·.forgetCounted entry.spoolSeq)) >>= fun _ => expireEntries inner rest true) m₁
            (fun _ m' => Chain inner offered m m') (fun _ m' => Chain inner offered m m') by
          simpa only [bind_assoc] using whole
        apply removal.bind
        rintro _ m₂ ⟨second, gaps, holds, counted₂⟩
        have forgotten : Chain inner offered m m₂ := chain.trans second
        have apart : ∀ other ∈ rest, other.spoolSeq ≠ entry.spoolSeq := by
          intro other inside sequence
          rw [numbered.single other entry (heldRest other inside) heldEntry sequence] at inside
          exact outside inside
        refine (ih (forgotten.numbered numbered) (fun other inside => ?_) distinct
          fun other inside => ?_).mono
          (fun _ _ later => forgotten.trans later) fun _ _ later => forgotten.trans later
        · rw [holds other, same other]
          exact ⟨heldRest other inside, fun sameAdmission =>
            apart other inside (congrArg ReceiptAdmission.spoolSeq sameAdmission)⟩
        · rcases countedRest other inside with counted | ⟨noticeId, gap, found, sequence⟩
          · left
            rw [counted₂ _ (apart other inside), counted₁]
            exact counted
          · refine .inr ⟨noticeId, gap, ?_, sequence⟩
            rw [gaps]
            rcases change with same | ⟨_, _, absent, recorded⟩
            · rw [same]
              exact found
            · rw [recorded]
              refine (OrdMap.get?_insert _ _ _ _).trans ?_
              rw [if_neg]
              · exact found
              · rintro rfl
                rw [absent] at found
                cases found
      · rintro error m₁ ⟨chain, same, -⟩
        by_cases full : error = .capacityExceeded
        · rw [if_pos full, post_pure, if_neg Bool.false_ne_true]
          refine (ih (chain.numbered numbered) (fun other inside => ?_) distinct
            fun other inside => ?_).mono
            (fun _ _ later => chain.trans later) fun _ _ later => chain.trans later
          · rw [same]
            exact heldRest other inside
          · rw [same]
            exact countedRest other inside
        · rw [if_neg full]
          exact chain

/-- What counting a list of entries adds to the counted expirations. -/
theorem countExpired_foldl (gaps : List GapEntry) (entries : List Entry)
    (start : OrdMap Nat RecordId × Nat) :
    (∀ s identity, start.1.get? s = some identity →
      (entries.foldl (countExpired gaps) start).1.get? s = some identity) ∧
    (∀ s identity, (entries.foldl (countExpired gaps) start).1.get? s = some identity →
      start.1.get? s = some identity ∨
        ∃ entry ∈ entries, entry.spoolSeq = s ∧ entry.stableRecordId = identity) ∧
    (entries.foldl (countExpired gaps) start).2 + start.1.size =
      start.2 + (entries.foldl (countExpired gaps) start).1.size := by
  induction entries generalizing start with
  | nil => exact ⟨fun _ _ held => held, fun _ _ held => .inl held, rfl⟩
  | cons entry rest ih =>
      obtain ⟨kept, added, total⟩ := ih (countExpired gaps start entry)
      rw [List.foldl_cons]
      by_cases fresh : ((! gaps.any fun gap => gap.notice.spoolSeq = entry.spoolSeq) &&
          ! start.1.contains entry.spoolSeq) = true
      · have absent : start.1.get? entry.spoolSeq = none := by
          rw [Bool.and_eq_true, Bool.not_eq_true', Bool.not_eq_true'] at fresh
          exact OrdMap.contains_eq_false_iff.mp fresh.2
        have step : countExpired gaps start entry =
            (start.1.insert entry.spoolSeq entry.stableRecordId, start.2 + 1) := if_pos fresh
        rw [step] at kept added total ⊢
        refine ⟨fun s identity held => kept s identity ?_, fun s identity held => ?_, ?_⟩
        · rw [OrdMap.get?_insert, if_neg]
          · exact held
          · rintro rfl
            rw [absent] at held
            cases held
        · rcases added s identity held with before | ⟨other, inside, facts⟩
          · rw [OrdMap.get?_insert] at before
            split at before
            · rename_i here
              exact .inr ⟨entry, by simp, here.symm, Option.some.inj before⟩
            · exact .inl before
          · exact .inr ⟨other, by simp [inside], facts⟩
        · rw [OrdMap.size_insert_of_get?_none _ absent] at total
          omega
      · have step : countExpired gaps start entry = start := if_neg fresh
        rw [step] at kept added total ⊢
        refine ⟨kept, fun s identity held => ?_, total⟩
        rcases added s identity held with before | ⟨other, inside, facts⟩
        · exact .inl before
        · exact .inr ⟨other, by simp [inside], facts⟩

/-- After counting, every entry of the list is counted or has a gap. -/
theorem countExpired_covers (gaps : List GapEntry) (entries : List Entry)
    (start : OrdMap Nat RecordId × Nat) {entry : Entry} (inside : entry ∈ entries) :
    (entries.foldl (countExpired gaps) start).1.contains entry.spoolSeq = true ∨
      (gaps.any fun gap => gap.notice.spoolSeq = entry.spoolSeq) = true := by
  induction entries generalizing start with
  | nil => cases inside
  | cons first rest ih =>
      rw [List.foldl_cons]
      rcases List.mem_cons.mp inside with rfl | inside
      · have here : (countExpired gaps start entry).1.contains entry.spoolSeq = true ∨
            (gaps.any fun gap => gap.notice.spoolSeq = entry.spoolSeq) = true := by
          unfold countExpired
          split
          · left
            rw [OrdMap.contains, OrdMap.get?_insert, if_pos rfl]
            rfl
          · rename_i known
            rw [Bool.and_eq_true, not_and_or, Bool.not_eq_true', Bool.not_eq_true',
              Bool.not_eq_false, Bool.not_eq_false] at known
            exact known.symm
        refine here.imp_left fun counted => ?_
        obtain ⟨identity, found⟩ := OrdMap.contains_iff.mp counted
        exact OrdMap.contains_iff.mpr ⟨identity, (countExpired_foldl gaps rest _).1 _ _ found⟩
      · exact ih _ inside

/-- Sorting by sequence puts sequences in order. -/
theorem pairwise_sortBySeq {α : Type} (seq : α → Nat) (items : List α) :
    (sortBySeq seq items).Pairwise fun a b => seq a ≤ seq b := by
  rw [sortBySeq]
  have total : Std.Total fun a b : α => seq a ≤ seq b := ⟨fun a b => le_total _ _⟩
  have transitive : IsTrans α fun a b => seq a ≤ seq b := ⟨fun a b c => le_trans⟩
  exact List.pairwise_insertionSort _ _

/-- Sorting keeps what there is to sort. -/
theorem mem_sortBySeq {α : Type} {seq : α → Nat} {items : List α} {item : α} :
    item ∈ sortBySeq seq items ↔ item ∈ items := by
  rw [sortBySeq]
  exact (List.perm_insertionSort _ _).mem_iff

theorem nodup_sortBySeq {α : Type} {seq : α → Nat} {items : List α} :
    (sortBySeq seq items).Nodup ↔ items.Nodup := by
  rw [sortBySeq]
  exact (List.perm_insertionSort _ _).nodup_iff

theorem State.Keyed.holds {state : State} (keyed : state.Keyed) {entry : Entry}
    (inside : entry ∈ state.entries.values) : state.Holds entry := by
  obtain ⟨id, found⟩ := OrdMap.mem_values_iff.mp inside
  rw [State.Holds, keyed id entry found]
  exact found

/-- The entries of a state are distinct. -/
theorem State.Keyed.nodup_values {state : State} (keyed : state.Keyed) :
    state.entries.values.Nodup := by
  apply OrdMap.values_pairwise
  intro k v k' v' found found' before same
  rw [← keyed k v found, ← keyed k' v' found', same] at before
  exact lt_irrefl _ before

/-- Where entries and gaps have sequences of their own, no sequence occurs twice. -/
theorem State.sequences_nodup (state : State) (keyed : state.Keyed)
    (gapKeyed : ∀ noticeId gap, state.gaps.get? noticeId = some gap → gap.notice.noticeId = noticeId)
    (entries : ∀ entry other, state.Holds entry → state.Holds other →
      entry.spoolSeq = other.spoolSeq → entry = other)
    (gaps : ∀ noticeId gap otherId other, state.gaps.get? noticeId = some gap →
      state.gaps.get? otherId = some other → gap.notice.spoolSeq = other.notice.spoolSeq →
      noticeId = otherId)
    (apart : ∀ entry noticeId gap, state.Holds entry → state.gaps.get? noticeId = some gap →
      entry.spoolSeq ≠ gap.notice.spoolSeq) :
    (state.entries.values.map (·.spoolSeq) ++
      state.gaps.values.map (·.notice.spoolSeq)).Nodup := by
  refine List.nodup_append'.mpr ⟨?_, ?_, ?_⟩
  · refine (List.nodup_map_iff_inj_on keyed.nodup_values).mpr ?_
    intro entry inside other inside' same
    exact entries entry other (keyed.holds inside) (keyed.holds inside') same
  · have distinct : state.gaps.values.Nodup := by
      apply OrdMap.values_pairwise
      intro id gap id' gap' found found' before same
      rw [← gapKeyed id gap found, ← gapKeyed id' gap' found', same] at before
      exact lt_irrefl _ before
    refine (List.nodup_map_iff_inj_on distinct).mpr ?_
    intro gap inside gap' inside' same
    obtain ⟨id, found⟩ := OrdMap.mem_values_iff.mp inside
    obtain ⟨id', found'⟩ := OrdMap.mem_values_iff.mp inside'
    rw [gaps id gap id' gap' found found' same, found'] at found
    exact (Option.some.inj found).symm
  · rintro s inEntries inGaps
    obtain ⟨entry, inside, rfl⟩ := List.mem_map.mp inEntries
    obtain ⟨gap, inside', same⟩ := List.mem_map.mp inGaps
    obtain ⟨id, found⟩ := OrdMap.mem_values_iff.mp inside'
    exact apart entry id gap (keyed.holds inside) found same.symm

/-- What is due is held. -/
theorem holds_of_mem_dueEntries {state : State} (keyed : state.Keyed) {nowMs : I64} {entry : Entry}
    (inside : entry ∈ dueEntries state nowMs) : state.Holds entry :=
  keyed.holds (List.mem_of_mem_filter (mem_sortBySeq.mp inside))

theorem nodup_dueEntries {state : State} (keyed : state.Keyed) (nowMs : I64) :
    (dueEntries state nowMs).Nodup :=
  nodup_sortBySeq.mpr (keyed.nodup_values.filter _)

/-- Expiring what is due is a chain. -/
theorem post_expireDueLocked {nowMs : I64} (keyed : m.state.Keyed)
    (numbered : m.state.Numbered) :
    Post (expireDueLocked inner nowMs) m
      (fun _ m' => Chain inner offered m m') (fun _ m' => Chain inner offered m m') := by
  obtain ⟨kept, added, total⟩ := countExpired_foldl m.state.gaps.values
    (dueEntries m.state nowMs) (m.state.countedPendingExpirations, 0)
  have covered := fun entry => @countExpired_covers m.state.gaps.values (dueEntries m.state nowMs)
    (m.state.countedPendingExpirations, 0) entry
  set counting := (dueEntries m.state nowMs).foldl (countExpired m.state.gaps.values)
    (m.state.countedPendingExpirations, 0) with counting_eq
  have loop : ∀ {m₁ : Machine}, Chain inner offered m m₁ →
      m₁.state.entries = m.state.entries → m₁.state.gaps = m.state.gaps →
      m₁.state.countedPendingExpirations = counting.1 →
      Post (do
          let removedBacking ← expireEntries inner (dueEntries m.state nowMs) false
          if removedBacking then persistCurrentSequenceState inner) m₁
        (fun _ m' => Chain inner offered m m') (fun _ m' => Chain inner offered m m') := by
    intro m₁ chain same sameGaps sameCounted
    have held : ∀ entry ∈ dueEntries m.state nowMs, m₁.state.Holds entry := by
      intro entry inside
      rw [State.Holds, same]
      exact holds_of_mem_dueEntries keyed inside
    have counted : ∀ entry ∈ dueEntries m.state nowMs,
        m₁.state.countedPendingExpirations.contains entry.spoolSeq = true ∨
          m₁.state.HoldsGapFor entry.spoolSeq := by
      intro entry inside
      rw [sameCounted, State.HoldsGapFor, sameGaps]
      refine (covered entry inside).imp_right fun gapped => ?_
      obtain ⟨gap, there, sequence⟩ := List.any_eq_true.mp gapped
      obtain ⟨noticeId, found⟩ := OrdMap.mem_values_iff.mp there
      exact ⟨noticeId, gap, found, of_decide_eq_true sequence⟩
    refine ((post_expireEntries (chain.numbered numbered) held (nodup_dueEntries keyed nowMs)
      counted).mono (fun _ _ later => chain.trans later) fun _ _ later => chain.trans later).bind ?_
    intro removedBacking m₂ whole
    rw [post_ite]
    refine ⟨fun _ => ?_, fun _ => whole⟩
    exact post_persistCurrentSequenceState.mono (fun _ _ later => whole.trans later.1)
      fun _ _ later => whole.trans later.2.1
  simp only [expireDueLocked, post_bind, post_state]
  rw [← counting_eq]
  simp only [post_ite]
  refine ⟨fun _ => ?_, fun none => ?_⟩
  · cases sum : checkedAdd m.state.expiredRecords counting.2 with
    | none => exact .refl
    | some newTotal =>
        have sum_eq : newTotal = m.state.expiredRecords + counting.2 := by
          unfold checkedAdd at sum
          split at sum
          · exact (Option.some.inj sum).symm
          · cases sum
        have fits : Counting m.state newTotal counting.1 := by
          refine ⟨kept, fun s identity held => ?_, ?_⟩
          · rcases added s identity held with before | ⟨entry, inside, facts⟩
            · exact .inl before
            · exact .inr ⟨entry, holds_of_mem_dueEntries keyed inside, facts⟩
          · simp only at total
            omega
        simp only [post_bind, persistSequenceState]
        apply Write.post (.sequence fits id)
        · intro open_ faults within
          simp only [post_modifyState]
          have chain : Chain inner offered m _ := .single (.wrote within open_ (.sequence fits id))
          have rest := loop chain rfl rfl rfl
          simp only [post_bind, post_ite, post_pure] at rest ⊢
          exact rest
        · intro error m' _ chain _ _
          exact chain
  · have uncounted : m.state.countedPendingExpirations = counting.1 := by
      have zero : counting.2 = 0 := Nat.eq_zero_of_not_pos none
      rw [zero, Nat.zero_add, Nat.zero_add] at total
      exact (OrdMap.eq_of_size_le kept total.ge).symm
    simpa only [post_bind, post_ite, post_pure] using loop .refl rfl rfl uncounted

/-! ### Admission and quarantine -/

theorem checkedAdd_of_le {a b : Nat} (fits : a + b ≤ u64Max) : checkedAdd a b = some (a + b) :=
  if_pos fits

/-- A checked sum is the sum, and fits. -/
theorem checkedAdd_eq_some {a b c : Nat} (sum : checkedAdd a b = some c) :
    c = a + b ∧ a + b ≤ u64Max := by
  unfold checkedAdd at sum
  split at sum
  · rename_i fits
    exact ⟨(Option.some.inj sum).symm, fits⟩
  · cases sum

/-- An admission is a chain that makes the offer it is permitted to make. -/
theorem post_enqueueLocked {envelope : Envelope} {admittedAtMs : I64}
    (offer : offered m.state.nextSpoolSequence envelope) (valid : envelope.validate = .ok ())
    (retention : 0 ≤ inner.config.retentionMs.val) :
    Post (enqueueLocked inner envelope admittedAtMs) m
      (fun outcome m' => Chain inner offered m m' ∧
        ∀ recordId, outcome = .stored recordId →
          (∃ entry, m'.state.Holds entry ∧ entry.spoolSeq = m.state.nextSpoolSequence ∧
            entry.recordId = envelope.recordId inner.host ∧
            entry.stableRecordId = envelope.stableRecordId inner.host) ∧
          ∃ d ∈ m'.timeline, d.read (.pending (pendingFileName m.state.nextSpoolSequence
            (envelope.recordId inner.host))) = some (inner.key.encrypt (Plain.ofStoredRecord
              inner.host.codec (storedRecord inner envelope admittedAtMs
                m.state.nextSpoolSequence))))
      (fun _ m' => Chain inner offered m m') := by
  simp only [enqueueLocked, post_bind, post_state]
  cases known : m.state.stableIndex.get? (envelope.stableRecordId inner.host) with
  | some existing => exact ⟨.refl, fun _ => (by simp)⟩
  | none =>
      cases sum : checkedAdd m.state.nextSpoolSequence 1 with
      | none => exact .refl
      | some next =>
          obtain ⟨rfl, bounded⟩ := checkedAdd_eq_some sum
          simp only [post_bind, post_ite, post_throw, post_pure]
          refine ⟨fun _ => .refl, fun delivery => ⟨fun _ => .refl, fun room => ⟨fun _ => .refl,
            fun small => ⟨fun _ => .refl, fun bytes => ?_⟩⟩⟩⟩
          rw [not_or, not_lt, not_lt] at delivery
          rw [not_or, not_le] at room
          rw [not_lt] at small bytes
          have write : Write inner offered m _ _ _ := .pending offer valid known bounded rfl rfl
            room.1 small delivery bytes retention
          apply write.post
          · intro open_ faults within
            simp only [post_modifyState]
            have chain : Chain inner offered m _ := .single (.wrote within open_ write)
            refine post_persistCurrentSequenceState.mono ?_ fun _ _ later =>
              chain.trans later.2.1
            rintro _ m₂ ⟨later, same⟩
            refine ⟨chain.trans later, fun _ _ => ⟨⟨Entry.ofEnvelope inner envelope admittedAtMs
              m.state.nextSpoolSequence (inner.key.encrypt (Plain.ofStoredRecord inner.host.codec
                (storedRecord inner envelope admittedAtMs m.state.nextSpoolSequence))).length,
              ?_, rfl, rfl, rfl⟩, ?_⟩⟩
            · rw [State.Holds, same]
              change (m.state.entries.insert _ _).get? _ = _
              rw [OrdMap.get?_insert, if_pos rfl]
            · refine ⟨_, later.timeline.mem List.mem_cons_self, ?_⟩
              change (m.disk.put _ (.pending _)).read _ = _
              rw [Disk.read_put, if_pos rfl]
          · intro error m' _ chain _ _
            exact chain

/-- Quarantining an entry that does not read back is a chain. -/
theorem post_quarantineRuntimeEntry {entry : Entry} (held : m.state.Holds entry)
    (path : ∃ name, entry.path = .pending name)
    (damaged : ∀ stored, decodeEntry inner entry (m.disk.read entry.path) ≠ .ok stored) :
    Post (quarantineRuntimeEntry inner entry) m
      (fun _ m' => Chain inner offered m m' ∧
        ∀ other, m'.state.Holds other ↔ m.state.Holds other ∧ other ≠ entry)
      (fun _ m' => Chain inner offered m m') := by
  have contained : m.state.entries.contains entry.recordId = true :=
    OrdMap.contains_iff.mpr ⟨entry, held⟩
  simp only [quarantineRuntimeEntry, post_bind, post_state, contained, not_true_eq_false,
    if_false]
  refine (@post_persistGapLocked inner offered m entry entry.admittedAtMs .integrityQuarantine held
    (by simp) fun _ => damaged).mono ?_ fun _ _ failed => failed.1
  rintro answer m₁ ⟨chain, named, replaced, pendings, change⟩
  have same : ∀ other, m₁.state.Holds other ↔ m.state.Holds other := by
    intro other
    rcases change with same | ⟨_, _, -, recorded⟩
    · rw [same]
    · rw [recorded, State.recordGap_holds]
  have held₁ : m₁.state.Holds entry := (same entry).mpr held
  have reads : m₁.disk.read entry.path = m.disk.read entry.path := by
    obtain ⟨name, named⟩ := path
    rw [named, Disk.read, Disk.read, pendings]
  have covered : m₁.state.Covers inner.host entry := by
    rw [named] at replaced
    exact ⟨_, _, replaced⟩
  have finish : ∀ {m₂ : Machine}, Chain inner offered m m₂ → m₂.state = m₁.state →
      m₂.disk.read entry.path = none →
      Post (modifyState (·.dropQuarantined entry)) m₂
        (fun _ m' => Chain inner offered m m' ∧
          ∀ other, m'.state.Holds other ↔ m.state.Holds other ∧ other ≠ entry)
        (fun _ m' => Chain inner offered m m') := by
    intro m₂ before sameState gone
    rw [post_modifyState]
    refine ⟨before.tail (.updated (.dropQuarantined (by rw [sameState]; exact held₁)
      (by rw [sameState]; exact covered) gone)), fun other => ?_⟩
    simp only [State.Holds, Machine.update, State.dropQuarantined, State.dropEntry, sameState,
      OrdMap.get?_erase]
    rw [← State.Holds, ← same other]
    constructor
    · intro found
      split at found
      · cases found
      · rename_i different
        exact ⟨found, fun equal => different (by rw [equal])⟩
    · rintro ⟨found, different⟩
      rw [if_neg]
      · exact found
      · intro id
        rw [State.Holds, id, held₁] at found
        exact different (Option.some.inj found).symm
  simp only [post_tryCatch]
  apply post_quarantineFileBounded
  · intro body found faults within
    have moved : Chain inner offered m _ :=
      chain.tail (.setAside within held₁ covered found (by rwa [← reads, found] at damaged))
    exact finish moved rfl ((Machine.setAside_read _ _ _ _).trans (if_pos rfl))
  · intro error faults within _
    have later : Chain inner offered m _ := chain.tail (.fault within)
    simp only [post_ite, post_bind, post_disk, post_throw]
    refine ⟨fun missing => ?_, fun _ => later⟩
    refine post_syncDirectory_chain.mono ?_ fun _ _ failed => later.trans failed
    rintro _ m₂ ⟨synced, sameState, sameDisk⟩
    refine finish (later.trans synced) sameState ?_
    rw [sameDisk]
    exact Option.isNone_iff_eq_none.mp missing.2
  · intro body found faulty full faults within
    have moved : Chain inner offered m _ :=
      chain.tail (.setAside within held₁ covered found (by rwa [← reads, found] at damaged))
    simp only [post_ite, post_bind, post_disk, post_throw]
    refine ⟨fun missing => ?_, fun _ => moved⟩
    refine post_syncDirectory_chain.mono ?_ fun _ _ failed => moved.trans failed
    rintro _ m₂ ⟨synced, sameState, sameDisk⟩
    refine finish (moved.trans synced) sameState ?_
    rw [sameDisk]
    exact Option.isNone_iff_eq_none.mp missing.2

end TeslatlasEdge
