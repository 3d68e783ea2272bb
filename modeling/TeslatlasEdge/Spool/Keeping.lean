/-
Module: TeslatlasEdge.Spool.Keeping
Purpose: One rule for properties of the disks and of what the state holds.  A property that survives
  the allowed writes, removals, moves to quarantine for which there is room, and the loading of what
  fits is kept by every section of every call, and by `open`.
Trusted boundary: none
Main exports: State.NoFuller, Steady, Stable, Keeps, Loads, Label.Allowed, Stable.keeps_sectionOf,
  post_openSpool_recovering, Stable.post_openSpool_keeps
-/
import TeslatlasEdge.Spool.Chains
import TeslatlasEdge.Spool.Labels

namespace TeslatlasEdge

open Lib
open Section

/-! ### What the property has to survive -/

/-- Only what was counted before or may be counted is counted as expired. -/
def CountsWithin (mayCount : Nat → Prop) (counted before : OrdMap Nat RecordId) : Prop :=
  ∀ s identity, counted.get? s = some identity → before.get? s = some identity ∨ mayCount s

theorem CountsWithin.refl {mayCount : Nat → Prop} (counted : OrdMap Nat RecordId) :
    CountsWithin mayCount counted counted :=
  fun _ _ held => .inl held

/-- The state holds no more entries and gaps than the other, and no more bytes of them, counts nothing
that may not be counted, and retains the same receipts. -/
structure State.NoFuller (mayCount : Nat → Prop) (state other : State) : Prop where
  entries : state.entries.size ≤ other.entries.size
  gaps : state.gaps.size ≤ other.gaps.size
  pendingBytes : state.pendingBytes ≤ other.pendingBytes
  pendingGapBytes : state.pendingGapBytes ≤ other.pendingGapBytes
  counted : CountsWithin mayCount state.countedPendingExpirations other.countedPendingExpirations
  receipts : state.receipts = other.receipts

namespace State.NoFuller

variable {mayCount : Nat → Prop}

theorem refl (state : State) : State.NoFuller mayCount state state :=
  ⟨le_refl _, le_refl _, le_refl _, le_refl _, .refl _, rfl⟩

/-- What leaves the entries, the gaps and their sums alone makes nothing fuller. -/
theorem of_same {state other : State} (entries : state.entries = other.entries)
    (gaps : state.gaps = other.gaps) (pendingBytes : state.pendingBytes = other.pendingBytes)
    (pendingGapBytes : state.pendingGapBytes = other.pendingGapBytes)
    (counted : CountsWithin mayCount state.countedPendingExpirations
      other.countedPendingExpirations) (receipts : state.receipts = other.receipts) :
    State.NoFuller mayCount state other :=
  ⟨by rw [entries], by rw [gaps], pendingBytes.le, pendingGapBytes.le, counted, receipts⟩

theorem dropEntry (state : State) (entry : Entry) :
    State.NoFuller mayCount (state.dropEntry entry) state :=
  ⟨OrdMap.size_erase_le _ _, le_refl _, Nat.sub_le _ _, le_refl _, .refl _, rfl⟩

theorem dropGap (state : State) (noticeId : RecordId) (gap : GapEntry) :
    State.NoFuller mayCount (state.dropGap noticeId gap) state :=
  ⟨le_refl _, OrdMap.size_erase_le _ _, le_refl _, Nat.sub_le _ _, .refl _, rfl⟩

/-- Forgetting a count counts nothing new. -/
theorem forgetCounted (state : State) (s : Nat) :
    State.NoFuller mayCount (state.forgetCounted s) state := by
  refine .of_same rfl rfl rfl rfl (fun t identity held => .inl ?_) rfl
  change (state.countedPendingExpirations.erase s).get? t = some identity at held
  rw [OrdMap.get?_erase] at held
  split at held
  · cases held
  · exact held

/-- Neither does dropping the counts of what is gone. -/
theorem retainCounted (state : State) : State.NoFuller mayCount state.retainCounted state := by
  refine .of_same rfl rfl rfl rfl (fun t identity held => .inl ?_) rfl
  change (state.countedPendingExpirations.filter _).get? t = some identity at held
  rw [OrdMap.get?_filter, Option.filter_eq_some_iff] at held
  exact held.1

end State.NoFuller

namespace Machine

/-- A pending file has been renamed. -/
def rename (m : Machine) (name canonical : Str) (body : Blob) : Machine :=
  { m with
    disk := (m.disk.remove (.pending name)).put body (.pending canonical)
    history := m.disk :: m.history }

/-- The format marker has been written. -/
def mark (m : Machine) : Machine :=
  { m with disk := { m.disk with format := some spoolFormatMarker }, history := m.disk :: m.history }

end Machine

/-- The property survives what the spool does to files and to what is pending, as long as it writes what
is allowed and counts as expired what may be counted. -/
structure Steady (inner : Inner) (allowed : Path → Blob → Prop) (mayCount : Nat → Prop)
    (I : Machine → Prop) : Prop where
  counters : ∀ {m : Machine} (sequence : SequenceState), I m →
    CountsWithin mayCount sequence.countedPendingExpirations m.state.countedPendingExpirations →
    allowed .sequence (inner.key.encrypt (.sequence sequence))
  /-- What the sequence file counts may be counted. -/
  saved : ∀ {m : Machine} {sequence : SequenceState}, I m →
    m.disk.sequence = some (inner.key.encrypt (.sequence sequence)) →
    ∀ s identity, sequence.countedPendingExpirations.get? s = some identity → mayCount s
  shed : ∀ {m m' : Machine}, I m → m'.timeline = m.timeline →
    State.NoFuller mayCount m'.state m.state → I m'
  place : ∀ {m : Machine} {path : Path} {body : Blob}, I m → allowed path body →
    I (m.place path body)
  orphan : ∀ {m : Machine} (body : Blob), I m → I (m.orphan body)
  discard : ∀ {m : Machine} (path : Path), I m → I (m.discard path)
  setAside : ∀ {m : Machine} {path : Path} {body : Blob}, I m → m.disk.read path = some body →
    QuarantineRoom inner m.disk path → I (m.setAside path body)
  rename : ∀ {m : Machine} {name canonical : Str} {body : Blob}, I m →
    m.disk.read (.pending name) = some body → I (m.rename name canonical body)
  mark : ∀ {m : Machine}, I m → I m.mark
  recordGap : ∀ {m : Machine} (notice : GapNoticeV2) {encryptedBytes : Nat} (path : Path), I m →
    m.state.gaps.size < inner.config.maxRecords →
    saturatingAdd m.state.pendingGapBytes encryptedBytes ≤ inner.config.maxBytes →
    I (m.update (·.recordGap notice encryptedBytes path))
  admitEntry : ∀ {m : Machine} (entry : Entry), I m →
    m.state.entries.size < inner.config.maxRecords →
    saturatingAdd m.state.pendingBytes entry.encryptedBytes ≤ inner.config.maxBytes →
    I (m.update (·.admitEntry entry))

/-- The property survives all the spool does: which receipts are retained does not matter to it. -/
structure Stable (inner : Inner) (allowed : Path → Blob → Prop) (mayCount : Nat → Prop)
    (I : Machine → Prop) : Prop extends Steady inner allowed mayCount I where
  retain : ∀ {m : Machine} (receipts : OrdMap Str ReceiptEntry), I m →
    I (m.update fun state => { state with receipts := receipts })

/-- A gap file may be written for the sequence. -/
def GapAllowed (inner : Inner) (allowed : Path → Blob → Prop) (spoolSeq : Nat) : Prop :=
  ∀ notice, notice.spoolSeq = spoolSeq →
    allowed (.gap (gapFileName notice.spoolSeq notice.noticeId)) (inner.key.encrypt (.gap notice))

/-- The section keeps the property, and it does not find an item too large. -/
abbrev Keeps {α : Type} (I : Machine → Prop) (s : Section α) : Prop :=
  Preserves I (· ≠ .batchItemTooLarge) s

/-- The section keeps the property. -/
abbrev Loads {α : Type} (I : Machine → Prop) (s : Section α) : Prop :=
  Preserves I (fun _ => True) s

/-- What keeps a property loads within it. -/
theorem Keeps.loads {α : Type} {I : Machine → Prop} {s : Section α} (keeps : Keeps I s) :
    Loads I s :=
  keeps.weaken fun _ _ => trivial

theorem mapIoError_ne_batchItemTooLarge (full : Bool) : mapIoError full ≠ .batchItemTooLarge := by
  cases full <;> decide

/-- A saturating sum that stays below its bound has parts that do. -/
theorem lt_of_saturatingAdd_lt {a b bound : Nat} (limited : bound ≤ u64Max)
    (below : saturatingAdd a b < bound) : a < bound := by
  unfold saturatingAdd at below
  omega

/-! ### File operations -/

section

variable {inner : Inner} {allowed : Path → Blob → Prop} {mayCount : Nat → Prop}
  {I : Machine → Prop} {m : Machine}

theorem keeps_state : Keeps I Section.state := fun _ holds => holds

theorem keeps_disk : Keeps I Section.disk := fun _ holds => holds

theorem post_commit {f : Disk → Disk} {onOk : Unit → Machine → Prop}
    {onError : SpoolError → Machine → Prop} :
    Post (commit f) m onOk onError ↔
      onOk () { m with disk := f m.disk, history := m.disk :: m.history } := Iff.rfl

namespace Steady

/-- Faults that are used up and a latch that is set change nothing that the property is about. -/
theorem quiet (steady : Steady inner allowed mayCount I) (holds : I m) {faults : Faults} {latch : Bool} :
    I { m with faults := faults, storageWriteFailed := latch } :=
  steady.shed holds rfl (.refl _)

/-- Neither do they alone. -/
theorem faults (steady : Steady inner allowed mayCount I) (holds : I m) {faults : Faults} :
    I { m with faults := faults } :=
  steady.shed holds rfl (.refl _)

/-- A change of the state that makes it no fuller. -/
theorem keeps_modifyState (steady : Steady inner allowed mayCount I) {f : State → State}
    (sheds : ∀ state, State.NoFuller mayCount (f state) state) : Keeps I (modifyState f) :=
  fun m holds => show I (m.update f) from steady.shed holds rfl (sheds m.state)

theorem keeps_syncDirectory (steady : Steady inner allowed mayCount I) : Keeps I syncDirectory :=
  fun _ holds => post_syncDirectory (fun _ _ => steady.faults holds) fun full _ _ _ =>
    ⟨mapIoError_ne_batchItemTooLarge full, steady.faults holds⟩

/-- A removal is allowed anywhere. -/
theorem keeps_removeFile (steady : Steady inner allowed mayCount I) (path : Path) :
    Keeps I (removeFile path) :=
  fun _ holds => post_removeFile (fun _ _ => steady.faults (steady.discard path holds))
    fun full _ _ _ => ⟨mapIoError_ne_batchItemTooLarge full, steady.faults holds⟩

/-- A durable write of what is allowed. -/
theorem keeps_writeAtomic (steady : Steady inner allowed mayCount I) {path : Path} {body : Blob}
    (may : allowed path body) : Keeps I (writeAtomic path body) := by
  intro m holds
  have failed := mapIoError_ne_batchItemTooLarge
  exact post_writeAtomic (fun _ => ⟨by decide, holds⟩)
    (fun _ _ _ => steady.faults (steady.place holds may))
    (fun _ _ full _ _ => ⟨failed full, steady.quiet holds⟩)
    (fun _ _ full _ _ => ⟨failed full, steady.quiet (steady.orphan body holds)⟩)
    fun _ _ full _ _ => ⟨failed full, steady.quiet (steady.place holds may)⟩

/-- A rename is about to happen, unless it fails. -/
theorem keeps_rename (steady : Steady inner allowed mayCount I) {α : Type} {rest : Section α}
    (goes : Keeps I rest) :
    Keeps I (do
      match ← nextRenameFault with
      | some full => throw (mapIoError full)
      | none => rest) := by
  intro m holds
  rw [post_bind, post_nextRenameFault]
  split
  · exact ⟨mapIoError_ne_batchItemTooLarge _, steady.faults holds⟩
  · exact goes _ (steady.faults holds)

/-- A file is moved to quarantine only where there is room for it. -/
theorem keeps_quarantineFileBounded (steady : Steady inner allowed mayCount I) (path : Path) :
    Keeps I (quarantineFileBounded inner path) := by
  intro m holds
  have moves : QuarantineRoom inner m.disk path → ∀ {m₁ : Machine}, I m₁ → m₁.disk = m.disk →
      Post (quarantineFile path) m₁ (fun _ => I)
        (fun error m' => error ≠ .batchItemTooLarge ∧ I m') := by
    intro room m₁ holds₁ same
    rw [quarantineFile, post_bind, post_nextRenameFault]
    have holds₂ : I { m₁ with faults := { m₁.faults with renames := m₁.faults.renames.tail } } :=
      steady.faults holds₁
    split
    · exact ⟨mapIoError_ne_batchItemTooLarge _, holds₂⟩
    · rw [post_bind, post_disk]
      split
      · exact ⟨by decide, holds₂⟩
      · rename_i body found
        rw [post_bind, post_commit]
        refine Preserves.bind steady.keeps_syncDirectory (fun _ => steady.keeps_syncDirectory) _ ?_
        exact steady.setAside holds₂ found (by rwa [← same] at room)
  simp only [quarantineFileBounded, post_bind, post_disk]
  apply post_ensureQuarantineCapacity
  · exact fun faults _ files bytes => moves ⟨files, bytes⟩ (steady.faults holds) rfl
  · exact fun faults _ _ => ⟨by decide, steady.faults holds⟩
  · exact fun full _ faults _ => ⟨mapIoError_ne_batchItemTooLarge full, steady.faults holds⟩

/-! ### Sections -/

/-- The sequence file counts what the state counts, and what may be counted. -/
theorem post_persistSequenceState_keeps (steady : Steady inner allowed mayCount I) (holds : I m)
    (next total : Nat) (pruned : Bool) {counted : OrdMap Nat RecordId}
    (within : CountsWithin mayCount counted m.state.countedPendingExpirations) :
    Post (persistSequenceState inner next total pruned counted) m (fun _ => I)
      (fun error m' => error ≠ .batchItemTooLarge ∧ I m') :=
  steady.keeps_writeAtomic (steady.counters _ holds within) m holds

theorem keeps_persistCurrentSequenceState (steady : Steady inner allowed mayCount I) :
    Keeps I (persistCurrentSequenceState inner) := by
  intro m holds
  simp only [persistCurrentSequenceState, post_bind, post_state]
  exact steady.post_persistSequenceState_keeps holds _ _ _ (.refl _)

/-- A gap is held only where it fits. -/
theorem keeps_persistGapLocked (steady : Steady inner allowed mayCount I) {entry : Entry}
    (may : GapAllowed inner allowed entry.spoolSeq) (occurredAtMs : I64) (reason : GapReasonV2) :
    Keeps I (persistGapLocked inner entry occurredAtMs reason) := by
  intro m holds
  have refused : ∀ {error : SpoolError}, error ≠ .batchItemTooLarge →
      error ≠ .batchItemTooLarge ∧ I m := fun other => ⟨other, holds⟩
  simp only [persistGapLocked, post_bind, post_state, post_ite, post_throw, post_pure,
    post_modifyState]
  refine ⟨fun _ => holds, fun _ => ⟨fun _ => refused (by decide), fun _ =>
    ⟨fun _ => refused (by decide), fun _ => ⟨fun _ => refused (by decide), fun room =>
      ⟨fun _ => refused (by decide), fun fits => ?_⟩⟩⟩⟩⟩
  rw [not_or, not_lt, not_lt] at fits
  have failed := mapIoError_ne_batchItemTooLarge
  have placed := steady.place holds (may (gapNotice inner.host entry occurredAtMs reason) rfl)
  refine post_writeAtomic (fun _ => refused (by decide)) (fun _ faults _ => ?_)
    (fun _ _ full _ _ => ⟨failed full, steady.quiet holds⟩)
    (fun _ _ full _ _ => ⟨failed full, steady.quiet (steady.orphan _ holds)⟩)
    fun _ _ full _ _ => ⟨failed full, steady.quiet placed⟩
  have kept : I { m.place _ _ with faults := faults } := steady.faults placed
  exact steady.recordGap _ _ kept (not_le.mp room) fits.2

/-- An admission is removed with its file. -/
theorem keeps_removeAdmittedRecord (steady : Steady inner allowed mayCount I)
    (admission : ReceiptAdmission) : Keeps I (removeAdmittedRecord admission) := by
  have forgets : ∀ {m : Machine}, I m → I (m.update (·.forgetCounted admission.spoolSeq)) :=
    fun holds => steady.shed holds rfl (.forgetCounted _ _)
  intro m holds
  simp only [removeAdmittedRecord, post_bind, post_state]
  cases admittedEntry m.state admission with
  | none =>
      simp only [post_bind, post_ite, post_modifyState, post_pure]
      exact ⟨fun _ => forgets holds, fun _ => holds⟩
  | some entry =>
      simp only [post_bind]
      refine (steady.keeps_removeFile entry.path m holds).monoOk fun _ m₁ kept => ?_
      have dropped : I (m₁.update (·.dropEntry entry)) := steady.shed kept rfl (.dropEntry _ _)
      simp only [post_modifyState, post_ite, post_pure]
      exact ⟨fun _ => forgets dropped, fun _ => dropped⟩

/-- So is every admission of a list. -/
theorem keeps_completeAdmissions (steady : Steady inner allowed mayCount I)
    (admissions : List ReceiptAdmission) (removedPending : Bool) :
    Keeps I (completeAdmissions admissions removedPending) := by
  induction admissions generalizing removedPending with
  | nil => exact .pure _
  | cons admission rest ih => exact .bind (steady.keeps_removeAdmittedRecord admission) fun _ => ih _

/-- A notice is removed with its gap, or with the entry that backs it. -/
theorem keeps_completeNotice (steady : Steady inner allowed mayCount I) (noticeId : RecordId) :
    Keeps I (completeNotice inner noticeId) := by
  refine .bind keeps_state fun state => ?_
  cases state.gaps.get? noticeId with
  | some gap =>
      exact .bind (steady.keeps_removeFile gap.path) fun _ =>
        .bind (steady.keeps_modifyState fun _ => .dropGap _ _ _) fun _ => .pure _
  | none =>
      refine .bind (.bind keeps_state fun state => ?_) fun _ => .pure _
      cases expiredBacking inner.host state noticeId with
      | none => exact .pure _
      | some entry =>
          exact .bind (steady.keeps_removeAdmittedRecord entry.admission) fun _ =>
            .bind (steady.keeps_modifyState fun _ => .forgetCounted _ _) fun _ => .pure _

theorem keeps_completeNotices (steady : Steady inner allowed mayCount I) (noticeIds : List RecordId)
    (flags : Bool × Bool) : Keeps I (completeNotices inner noticeIds flags) := by
  induction noticeIds generalizing flags with
  | nil => exact .pure _
  | cons noticeId rest ih => exact .bind (steady.keeps_completeNotice noticeId) fun _ => ih _

/-- Completing a receipt only removes. -/
theorem keeps_completeReceipt (steady : Steady inner allowed mayCount I) (receipt : AckReceipt) :
    Keeps I (completeReceipt inner receipt) := by
  refine .bind (steady.keeps_completeAdmissions _ _) fun _ =>
    .bind (steady.keeps_completeNotices _ _) fun flags => ?_
  have last : Keeps I (do syncDirectory; persistCurrentSequenceState inner) :=
    .bind steady.keeps_syncDirectory fun _ => steady.keeps_persistCurrentSequenceState
  exact .ite (.bind steady.keeps_syncDirectory fun _ => last) last

/-- Expiring entries writes their gaps. -/
theorem keeps_expireEntries (steady : Steady inner allowed mayCount I) {expired : List Entry}
    (may : ∀ entry ∈ expired, GapAllowed inner allowed entry.spoolSeq) (removedBacking : Bool) :
    Keeps I (expireEntries inner expired removedBacking) := by
  induction expired generalizing removedBacking with
  | nil => exact .pure _
  | cons entry rest ih =>
      have later := ih fun other inside => may other (List.mem_cons_of_mem _ inside)
      refine .bind (.tryCatch (.bind (steady.keeps_persistGapLocked (may entry List.mem_cons_self) _ _)
        fun _ => .pure _) fun error other => .ite (.pure _) (.throw other)) fun persisted =>
          .ite ?_ (later _)
      exact .bind (steady.keeps_removeAdmittedRecord _) fun _ =>
        .bind steady.keeps_syncDirectory fun _ =>
          .bind (steady.keeps_modifyState fun _ => .forgetCounted _ _) fun _ => later _

/-- Expiry counts what is due and writes its gaps. -/
theorem post_expireDueLocked_keeps (steady : Steady inner allowed mayCount I) {nowMs : I64} (holds : I m)
    (may : ∀ entry ∈ dueEntries m.state nowMs,
      GapAllowed inner allowed entry.spoolSeq ∧ mayCount entry.spoolSeq) :
    Post (expireDueLocked inner nowMs) m (fun _ => I)
      (fun error m' => error ≠ .batchItemTooLarge ∧ I m') := by
  have loop : ∀ {m₁ : Machine}, I m₁ → Post (do
        let removedBacking ← expireEntries inner (dueEntries m.state nowMs) false
        if removedBacking then persistCurrentSequenceState inner) m₁
      (fun _ => I) (fun error m' => error ≠ .batchItemTooLarge ∧ I m') := fun kept =>
    Preserves.bind (steady.keeps_expireEntries (fun entry due => (may entry due).1) _)
      (fun _ => .ite steady.keeps_persistCurrentSequenceState (.pure _)) _ kept
  have within : CountsWithin mayCount ((dueEntries m.state nowMs).foldl
      (countExpired m.state.gaps.values) (m.state.countedPendingExpirations, 0)).1
      m.state.countedPendingExpirations := by
    intro s identity held
    obtain ⟨-, added, -⟩ := countExpired_foldl m.state.gaps.values (dueEntries m.state nowMs)
      (m.state.countedPendingExpirations, 0)
    rcases added s identity held with before | ⟨entry, due, rfl, -⟩
    · exact .inl before
    · exact .inr (may entry due).2
  simp only [expireDueLocked, post_bind, post_state, post_ite]
  refine ⟨fun _ => ?_, fun _ => ?_⟩
  · cases checkedAdd m.state.expiredRecords _ with
    | none => exact ⟨by decide, holds⟩
    | some total =>
        have failed := mapIoError_ne_batchItemTooLarge
        have placed := steady.place holds (steady.counters
          ⟨1, m.state.nextSpoolSequence, total, _, m.state.v1AckHistoryPruned⟩ holds within)
        simp only [post_bind, persistSequenceState]
        refine post_writeAtomic (fun _ => ⟨by decide, holds⟩) (fun _ faults _ => ?_)
          (fun _ _ full _ _ => ⟨failed full, steady.quiet holds⟩)
          (fun _ _ full _ _ => ⟨failed full, steady.quiet (steady.orphan _ holds)⟩)
          fun _ _ full _ _ => ⟨failed full, steady.quiet placed⟩
        rw [post_modifyState]
        simp only [post_bind, post_ite, post_pure] at loop ⊢
        exact loop (steady.shed placed rfl (.of_same rfl rfl rfl rfl within rfl))
  · simp only [post_bind, post_ite, post_pure] at loop ⊢
    exact loop holds

/-- An admission writes its record, and fits. -/
theorem post_enqueueLocked_keeps (steady : Steady inner allowed mayCount I) {envelope : Envelope}
    {admittedAtMs : I64} (holds : I m)
    (may : ∀ path, allowed (.pending path) (inner.key.encrypt (Plain.ofStoredRecord inner.host.codec
      (storedRecord inner envelope admittedAtMs m.state.nextSpoolSequence)))) :
    Post (enqueueLocked inner envelope admittedAtMs) m (fun _ => I) (fun _ => I) := by
  simp only [enqueueLocked, post_bind, post_state]
  cases m.state.stableIndex.get? (envelope.stableRecordId inner.host) with
  | some existing => exact holds
  | none =>
      cases checkedAdd m.state.nextSpoolSequence 1 with
      | none => exact holds
      | some next =>
          simp only [post_bind, post_ite, post_throw, post_pure]
          refine ⟨fun _ => holds, fun _ => ⟨fun _ => holds, fun room => ⟨fun _ => holds,
            fun _ => ⟨fun _ => holds, fun fits => ?_⟩⟩⟩⟩
          rw [not_or, not_le] at room
          rw [not_lt] at fits
          have placed := steady.place holds (may
            (pendingFileName m.state.nextSpoolSequence (envelope.recordId inner.host)))
          apply post_writeAtomic
          · exact fun _ => holds
          · intro _ faults _
            rw [post_modifyState]
            have below := lt_of_saturatingAdd_lt inner.config.maxRecords_le room.1
            have kept : I { m.place _ _ with faults := faults } := steady.faults placed
            have admitted := steady.admitEntry
              (Entry.ofEnvelope inner envelope admittedAtMs m.state.nextSpoolSequence _) kept below fits
            refine Post.mono (steady.keeps_persistCurrentSequenceState _ ?_) (fun _ _ kept => kept)
              fun _ _ kept => kept.2
            exact steady.shed admitted rfl (.of_same rfl rfl rfl rfl (.refl _) rfl)
          · exact fun _ _ _ _ _ => steady.quiet holds
          · exact fun _ _ _ _ _ => steady.quiet (steady.orphan _ holds)
          · exact fun _ _ _ _ _ => steady.quiet placed

/-- A quarantine writes the gap of its entry. -/
theorem keeps_quarantineRuntimeEntry (steady : Steady inner allowed mayCount I) {entry : Entry}
    (may : GapAllowed inner allowed entry.spoolSeq) :
    Keeps I (quarantineRuntimeEntry inner entry) := by
  intro m holds
  simp only [quarantineRuntimeEntry, post_bind, post_state, post_ite, post_pure]
  refine ⟨fun _ => holds, fun _ => ?_⟩
  refine (steady.keeps_persistGapLocked may _ _ m holds).monoOk fun _ m₁ kept => ?_
  rw [← post_bind]
  refine Preserves.bind (.tryCatch (steady.keeps_quarantineFileBounded _) fun error other => ?_)
    (fun _ => steady.keeps_modifyState fun state => ?_) _ kept
  · intro m₂ kept₂
    simp only [post_bind, post_disk, post_ite, post_throw]
    exact ⟨fun _ => steady.keeps_syncDirectory _ kept₂, fun _ => ⟨other, kept₂⟩⟩
  · exact { State.NoFuller.dropEntry state entry with }

/-- Giving out a receipt number changes nothing that is pending. -/
theorem keeps_allocateReceipt (steady : Steady inner allowed mayCount I) : Keeps I allocateReceipt := by
  refine .bind keeps_state fun state => ?_
  simp only
  split
  · exact .throw (by decide)
  · exact .bind (steady.keeps_modifyState fun _ => .of_same rfl rfl rfl rfl (.refl _) rfl) fun _ =>
      .pure _

/-- Noting that version 1 receipts are pruned writes the counters as they are. -/
theorem keeps_pruneHistory (steady : Steady inner allowed mayCount I) : Keeps I (do
      if ¬ (← Section.state).v1AckHistoryPruned then
        modifyState fun state => { state with v1AckHistoryPruned := true }
        persistCurrentSequenceState inner : Section Unit) := by
  intro m holds
  simp only [post_bind, post_state, post_ite, post_modifyState, post_pure]
  have noted : I (m.update fun state => { state with v1AckHistoryPruned := true }) :=
    steady.shed holds rfl (.of_same rfl rfl rfl rfl (.refl _) rfl)
  exact ⟨fun _ => steady.keeps_persistCurrentSequenceState _ noted, fun _ => holds⟩

end Steady

namespace Stable

/-- A change of the state that, receipts apart, makes it no fuller. -/
theorem keeps_modifyReceipts (stable : Stable inner allowed mayCount I) {f : State → State}
    (sheds : ∀ state, State.NoFuller mayCount { f state with receipts := state.receipts } state) :
    Keeps I (modifyState f) := by
  intro m holds
  have rest : I (m.update fun state => { f state with receipts := state.receipts }) :=
    stable.shed holds rfl (sheds m.state)
  exact stable.retain (f m.state).receipts rest

/-- A pass of pruning removes a receipt and forgets it. -/
theorem keeps_pruneReceipt (stable : Stable inner allowed mayCount I) (oldest : ReceiptEntry) :
    Keeps I (pruneReceipt inner oldest).run := by
  have finish : Keeps I (do
      Call.atomic (.removeReceipt oldest) (removeFile oldest.path)
      Call.atomic (.forgetReceipt oldest) <| modifyState fun state =>
        { state with receipts := state.receipts.erase oldest.receipt.batchId }
      Call.atomic .sync syncDirectory : SpoolCall Unit).run := by
    simp only [Call.run_bind, Call.run_atomic]
    exact .bind (stable.keeps_removeFile _) fun _ =>
      .bind (stable.keeps_modifyReceipts fun _ => .refl _) fun _ => stable.keeps_syncDirectory
  unfold pruneReceipt
  split
  · rw [Call.run_bind, Call.run_atomic]
    exact .bind stable.keeps_pruneHistory fun _ => finish
  · exact finish

theorem keeps_pruneReceiptsLoop (stable : Stable inner allowed mayCount I) (passes : Nat) :
    Keeps I (pruneReceiptsLoop inner passes).run := by
  induction passes with
  | zero => exact .throw (by decide)
  | succ passes ih =>
      rw [pruneReceiptsLoop, Call.run_bind, Call.run_atomic]
      refine .bind (.bind keeps_state fun _ => .pure _) fun oldest => ?_
      cases oldest with
      | none => exact .pure _
      | some oldest =>
          simp only [Call.run_bind]
          exact .bind (stable.keeps_pruneReceipt oldest) fun _ => ih

/-- Pruning the receipts keeps what is not about receipts. -/
theorem keeps_pruneReceipts (stable : Stable inner allowed mayCount I) :
    Keeps I (pruneReceipts inner).run := by
  rw [pruneReceipts, Call.run_bind, Call.run_atomic]
  exact .bind (.bind keeps_state fun _ => .pure _) fun _ => stable.keeps_pruneReceiptsLoop _

/-! ### Sections of calls -/

end Stable

/-- What the section may write is allowed. -/
def Label.Allowed (inner : Inner) (allowed : Path → Blob → Prop) (mayCount : Nat → Prop) :
    Label → Machine → Prop
  | .enqueue envelope admittedAtMs, m => ∀ name, allowed (.pending name)
      (inner.key.encrypt (Plain.ofStoredRecord inner.host.codec
        (storedRecord inner envelope admittedAtMs m.state.nextSpoolSequence)))
  | .expire nowMs, m => ∀ entry ∈ dueEntries m.state nowMs,
      GapAllowed inner allowed entry.spoolSeq ∧ mayCount entry.spoolSeq
  | .quarantine entry, _ => GapAllowed inner allowed entry.spoolSeq
  | .writeReceipt receipt, _ =>
      allowed (.receipt (receiptFileName receipt.sequence receipt.batchId))
        (inner.key.encrypt (.receipt receipt))
  | _, _ => True

namespace Stable

/-- A section that writes what is allowed keeps the property. -/
theorem keeps_sectionOf (stable : Stable inner allowed mayCount I) {label : Label}
    {act : Machine → Machine} (is : SectionOf inner label act)
    (may : label.Allowed inner allowed mayCount m) (holds : I m) : I (act m) := by
  have final : ∀ {α : Type} {s : Section α}, Keeps I s → I (finalState (s m)) :=
    fun keeps => Preserves.final keeps holds
  cases is with
  | observe same | read same | admissions same => rwa [same]
  | enqueue valid => exact (stable.post_enqueueLocked_keeps holds may).final
  | expire =>
      exact ((stable.post_expireDueLocked_keeps holds may).mono (fun _ _ kept => kept)
        fun _ _ kept => kept.2).final
  | quarantine => exact final (stable.keeps_quarantineRuntimeEntry may)
  | allocate => exact final stable.keeps_allocateReceipt
  | writeReceipt => exact final (stable.keeps_writeAtomic may)
  | insertReceipt | forgetReceipt => exact stable.retain _ holds
  | complete => exact final (stable.keeps_completeReceipt _)
  | pruneHistory => exact final stable.keeps_pruneHistory
  | removeReceipt => exact final (stable.keeps_removeFile _)
  | sync => exact final stable.keeps_syncDirectory

/-! ### Opening -/

theorem loads_modifyState (stable : Stable inner allowed mayCount I) {f : State → State}
    (sheds : ∀ state, State.NoFuller mayCount (f state) state) : Loads I (modifyState f) :=
  (stable.keeps_modifyState sheds).loads

/-- A file is moved aside and counted. -/
theorem loads_setAside (stable : Stable inner allowed mayCount I) (path : Path) :
    Loads I (do quarantineFileBounded inner path; countCorrupt) :=
  .bind (stable.keeps_quarantineFileBounded path).loads fun _ =>
    stable.loads_modifyState fun _ => .of_same rfl rfl rfl rfl (.refl _) rfl

/-- A recovered gap is held where it fits. -/
theorem loads_recoverGaps (stable : Stable inner allowed mayCount I) (files : List NamedBlob) :
    Loads I (recoverGaps inner files) := by
  induction files with
  | nil => exact .pure _
  | cons file rest ih =>
      refine .bind ?_ fun _ => ih
      unfold recoverGap
      split
      · exact .throw trivial
      · intro m holds
        simp only [post_bind, post_state, post_ite, post_throw, post_modifyState]
        refine ⟨fun _ => ⟨trivial, holds⟩, fun _ => ⟨fun _ => ⟨trivial, holds⟩, fun fits => ?_⟩⟩
        rw [not_or, not_le, not_lt] at fits
        exact stable.recordGap _ _ holds fits.1 fits.2

end Stable

/-- Reading the gap files leaves the disk. -/
theorem post_recoverGaps_disk {files : List NamedBlob} :
    Post (recoverGaps inner files) m (fun _ m' => m'.disk = m.disk) (fun _ _ => True) := by
  induction files generalizing m with
  | nil => exact rfl
  | cons file rest ih =>
      rw [recoverGaps, post_bind, recoverGap]
      cases decodeGap inner file with
      | error error => exact trivial
      | ok notice =>
          simp only [post_bind, post_state, post_ite, post_throw, post_modifyState]
          exact ⟨fun _ => trivial, fun _ => ⟨fun _ => trivial, fun _ => ih⟩⟩

/-- What recovering the pending file may write is allowed: its gap when it is damaged, and itself
anew when it is of version 1. -/
structure FileAllowed (inner : Inner) (allowed : Path → Blob → Prop) (file : NamedBlob) : Prop where
  damaged : decodePending inner file = .ok none → ∀ s recordId,
    parseV2PendingFileName file.1 = some (s, recordId) → GapAllowed inner allowed s
  migrated : ∀ record, decodePending inner file = .ok (some record) → record.stored.version = 1 →
    ∀ body, allowed (.pending file.1) body

/-- A recovered record that has to be migrated may be written anew. -/
def RecoveredRecord.Allowed (allowed : Path → Blob → Prop) (record : RecoveredRecord) : Prop :=
  record.stored.version = 1 → ∀ body, allowed (.pending record.name) body

theorem decodePending_name {file : NamedBlob} {record : RecoveredRecord}
    (decoded : decodePending inner file = .ok (some record)) : record.name = file.1 := by
  unfold decodePending at decoded
  split at decoded
  · cases decoded
  · split at decoded
    · cases decoded
    · cases decoded
    · split at decoded
      · cases decoded
      · split at decoded
        · cases decoded
        · cases decoded
          rfl

/-- The counters decoded are those of the file. -/
theorem decodeSequence_eq_ok {file : Option Blob} {sequence : Option SequenceState}
    (decoded : decodeSequence inner file = .ok sequence) :
    file = sequence.map fun found => inner.key.encrypt (.sequence found) := by
  cases file with
  | none =>
      obtain rfl := Except.ok.inj decoded
      rfl
  | some body =>
      simp only [decodeSequence] at decoded
      split at decoded
      · cases decoded
      · split at decoded
        · cases decoded
        · rename_i plaintext opened
          split at decoded
          · cases decoded
          · rename_i found parsed
            split at decoded
            · obtain rfl := Except.ok.inj decoded
              rw [Option.map_some, decrypt_eq_ok opened]
              cases plaintext with
              | sequence state =>
                  obtain rfl := Option.some.inj parsed
                  rfl
              | record | gap | receipt => cases parsed
            · cases decoded

namespace Stable

/-- A damaged pending file is replaced by its gap. -/
theorem loads_quarantineRecoveredPending (stable : Stable inner allowed mayCount I) (nowMs : I64)
    {file : NamedBlob} (may : ∀ s recordId, parseV2PendingFileName file.1 = some (s, recordId) →
      GapAllowed inner allowed s) : Loads I (quarantineRecoveredPending inner nowMs file) := by
  unfold quarantineRecoveredPending
  split
  · exact .throw trivial
  · rename_i s recordId parsed
    exact .bind (stable.keeps_persistGapLocked (may s recordId parsed) _ _).loads fun _ =>
      stable.loads_setAside _

theorem post_scanPending_keeps (stable : Stable inner allowed mayCount I) {nowMs : I64}
    {files : List NamedBlob} {recovered : List RecoveredRecord} (holds : I m)
    (may : ∀ file ∈ files, FileAllowed inner allowed file)
    (before : ∀ record ∈ recovered, record.Allowed allowed) :
    Post (scanPending inner nowMs files recovered) m
      (fun result m' => I m' ∧ ∀ record ∈ result, record.Allowed allowed)
      (fun _ m' => True ∧ I m') := by
  induction files generalizing recovered m with
  | nil => exact ⟨holds, before⟩
  | cons file rest ih =>
      have here := may file List.mem_cons_self
      have later := fun other inside => may other (List.mem_cons_of_mem _ inside)
      unfold scanPending
      split
      · exact ⟨trivial, holds⟩
      · rename_i damaged
        rw [post_bind]
        exact (stable.loads_quarantineRecoveredPending nowMs (here.damaged damaged) m holds).monoOk
          fun _ _ kept => ih kept later before
      · rename_i record decoded
        refine ih holds later fun other inside => ?_
        rcases List.mem_append.mp inside with earlier | same
        · exact before other earlier
        · obtain rfl := List.mem_singleton.mp same
          rw [RecoveredRecord.Allowed, decodePending_name decoded]
          exact here.migrated other decoded

/-- A pending file is renamed with its contents. -/
theorem keeps_renamePending (stable : Stable inner allowed mayCount I) (name canonical : Str) :
    Keeps I (renamePending name canonical) := by
  intro m holds
  simp only [renamePending, post_bind, post_disk, post_ite, post_throw]
  refine ⟨fun _ => ⟨by decide, holds⟩, fun _ => ?_⟩
  rw [← post_bind]
  refine stable.keeps_rename ?_ m holds
  intro m₁ holds₁
  rw [post_bind, post_disk]
  split
  · exact ⟨by decide, holds₁⟩
  · rename_i body found
    rw [post_bind, post_commit]
    exact stable.keeps_syncDirectory _ (stable.rename holds₁ found)

/-- A recovered record is admitted where it fits. -/
theorem loads_admitRecovered (stable : Stable inner allowed mayCount I) (entry : Entry) :
    Loads I (admitRecovered inner entry) := by
  intro m holds
  simp only [admitRecovered, post_bind, post_state, post_ite, post_throw, post_modifyState]
  refine ⟨fun _ => ⟨trivial, holds⟩, fun fits => ?_⟩
  rw [not_or, not_or, not_or, not_or, not_le, not_lt] at fits
  exact stable.admitEntry entry holds fits.2.2.2.1 fits.2.2.2.2

theorem loads_loadRecord (stable : Stable inner allowed mayCount I) (record : RecoveredRecord) :
    Loads I (loadRecord inner record) := by
  unfold loadRecord
  split
  · refine .bind keeps_state.loads fun state => .ite ?_ ?_
    · exact stable.loads_setAside _
    · exact .ite (.bind (stable.keeps_renamePending _ _).loads fun _ =>
        stable.loads_admitRecovered _) (stable.loads_admitRecovered _)
  · exact .throw trivial

/-- Records are loaded, those of version 1 after they have been written anew. -/
theorem loads_loadRecords (stable : Stable inner allowed mayCount I) {records : List RecoveredRecord}
    (may : ∀ record ∈ records, record.Allowed allowed) (nextMigration : Nat) :
    Loads I (loadRecords inner records nextMigration) := by
  induction records generalizing nextMigration with
  | nil => exact .pure _
  | cons record rest ih =>
      refine .bind ?_ fun migrated => .bind (stable.loads_loadRecord migrated.1) fun _ =>
        ih (fun other inside => may other (List.mem_cons_of_mem _ inside)) _
      unfold migrateRecord
      split
      · rename_i old
        split
        · exact .throw trivial
        · exact .bind (stable.keeps_writeAtomic (may record List.mem_cons_self old _)).loads
            fun _ => .pure _
      · exact .pure _

/-- The counters are those of the sequence file. -/
theorem loads_recoverCounters (stable : Stable inner allowed mayCount I) :
    Loads I (recoverCounters inner) := by
  intro m holds
  simp only [recoverCounters, recoverSequenceState, post_bind, post_disk]
  cases decoded : decodeSequence inner m.disk.sequence with
  | error => exact ⟨trivial, holds⟩
  | ok sequence =>
      simp only [post_pure, post_state]
      split
      · simp only [post_bind, post_modifyState, post_state, post_ite, post_throw, post_pure]
        rename_i recordsNext gapsNext _ _
        have counted : I (m.update fun state => state.withSequence sequence recordsNext gapsNext) := by
          refine stable.shed holds rfl (.of_same rfl rfl rfl rfl (fun s identity held => .inr ?_) rfl)
          have file := decodeSequence_eq_ok decoded
          cases sequence with
          | none => simp [Machine.update, State.withSequence, OrdMap.get?_empty] at held
          | some found => exact stable.saved holds file s identity held
        exact ⟨fun _ => ⟨trivial, counted⟩, fun _ => counted⟩
      · exact ⟨trivial, holds⟩

/-- Receipts are loaded, or moved aside. -/
theorem loads_loadReceipts (stable : Stable inner allowed mayCount I) (files : List NamedBlob) :
    Loads I (loadReceipts inner files) := by
  induction files with
  | nil => exact .pure _
  | cons file rest ih =>
      refine .bind ?_ fun _ => ih
      unfold recoverReceipt
      split
      · exact .throw trivial
      · exact stable.loads_setAside _
      · exact .bind keeps_state.loads fun state => .ite (stable.loads_setAside _)
          (Keeps.loads (stable.keeps_modifyReceipts fun _ => .of_same rfl rfl rfl rfl (.refl _) rfl))

theorem loads_replayReceipts (stable : Stable inner allowed mayCount I) (receipts : List AckReceipt)
    (flags : Bool × Bool) : Loads I (replayReceipts inner receipts flags) := by
  induction receipts generalizing flags with
  | nil => exact .pure _
  | cons receipt rest ih =>
      exact .bind (stable.keeps_completeAdmissions _ _).loads fun _ =>
        .bind (stable.keeps_completeNotices _ _).loads fun _ => ih _

/-- Recovering the receipts only removes. -/
theorem loads_recoverReceipts (stable : Stable inner allowed mayCount I) :
    Loads I (recoverReceipts inner) := by
  refine .bind keeps_disk.loads fun disk => .bind (stable.loads_loadReceipts _) fun _ =>
    .bind keeps_state.loads fun state => .bind (stable.loads_replayReceipts _ _) fun flags => ?_
  have last : Loads I (if flags.2 then syncDirectory else pure ()) :=
    .ite stable.keeps_syncDirectory.loads (.pure _)
  exact .ite (.bind stable.keeps_syncDirectory.loads fun _ => last) last

/-- Reading the files of a directory keeps the property, if what it may write is allowed. -/
theorem post_recoverFiles_keeps (stable : Stable inner allowed mayCount I) {nowMs : I64} (holds : I m)
    (may : ∀ file ∈ m.disk.pending.entries, FileAllowed inner allowed file) :
    Post (recoverFiles inner nowMs) m (fun _ => I) (fun _ m' => True ∧ I m') := by
  have counted : Post (ensureQuarantineCapacity inner 0 false) m
      (fun _ m' => I m' ∧ m'.disk = m.disk) (fun _ m' => True ∧ I m') :=
    post_ensureQuarantineCapacity (fun _ _ _ _ => ⟨stable.faults holds, rfl⟩)
      (fun _ _ _ => ⟨trivial, stable.faults holds⟩) fun _ _ _ _ => ⟨trivial, stable.faults holds⟩
  refine counted.bind ?_
  rintro _ m₁ ⟨holds₁, same₁⟩
  simp only [post_bind, post_disk, post_ite, post_throw, post_modifyState, post_state]
  have holds₂ : I (m₁.update fun state =>
      { state with
        corruptRecords := saturatingAdd state.corruptRecords m₁.disk.quarantine.length }) :=
    stable.shed holds₁ rfl (.of_same rfl rfl rfl rfl (.refl _) rfl)
  refine ⟨fun _ => ⟨trivial, holds₂⟩, fun _ => ?_⟩
  refine ((stable.loads_recoverGaps _ _ holds₂).and post_recoverGaps_disk).mono ?_
    fun _ _ facts => facts.1
  rintro _ m₃ ⟨holds₃, same₃⟩
  have same : m₃.disk = m.disk := same₃.trans same₁
  refine (stable.post_scanPending_keeps holds₃ (by rwa [same])
    fun _ none => absurd none List.not_mem_nil).monoOk ?_
  rintro recovered m₄ ⟨holds₄, found⟩
  cases checkedAdd _ 1 with
  | none => exact ⟨trivial, holds₄⟩
  | some nextMigration =>
      have sorted : ∀ record ∈ recovered.insertionSort RecoveredRecord.admittedBefore,
          record.Allowed allowed := fun record inside =>
        found record ((List.perm_insertionSort _ _).mem_iff.mp inside)
      refine Preserves.bind (stable.loads_loadRecords sorted nextMigration) (fun _ =>
        .bind stable.loads_recoverCounters fun _ => .bind stable.loads_recoverReceipts fun _ => ?_)
        _ holds₄
      intro m₅ holds₅
      simp only [retainCounted, post_bind, post_state, post_ite, post_throw, post_modifyState]
      exact ⟨fun _ => ⟨trivial, holds₅⟩, fun _ => stable.shed holds₅ rfl (.retainCounted _)⟩

/-- Writing the format marker keeps the property. -/
theorem loads_writeCurrentSpoolFormatMarker (stable : Stable inner allowed mayCount I) :
    Loads I writeCurrentSpoolFormatMarker := fun _ holds =>
  post_stageAndRename (fun _ _ => stable.faults (stable.mark holds))
    (fun _ _ _ _ => ⟨trivial, stable.faults holds⟩)
    (fun _ _ _ _ => ⟨trivial, stable.faults (stable.orphan _ holds)⟩)
    fun _ _ _ _ => ⟨trivial, stable.faults (stable.mark holds)⟩

end Stable

/-- What `open` has done to the machine before it recovers the files: under an older format it has
noted that v1 receipts may be missing. -/
def Machine.Checked (m m' : Machine) : Prop :=
  m' = m ∨ m' = m.update fun state => { state with v1AckHistoryPruned := true }

/-- Opening a spool checks the format, recovers the files and marks the format. -/
theorem post_openSpool_recovering {lockHeld : Bool} {nowMs : I64} {recovered onOk : Machine → Prop}
    {onError : SpoolError → Machine → Prop}
    (refused : ∀ error m', m.Checked m' → onError error m')
    (recovers : ∀ m', m.Checked m' →
      Post (recover inner nowMs) m' (fun _ => recovered) onError)
    (current : ∀ m', recovered m' → onOk m')
    (marks : ∀ m', recovered m' →
      Post writeCurrentSpoolFormatMarker m' (fun _ => onOk) onError) :
    Post (openSpool inner lockHeld nowMs) m (fun _ => onOk) onError := by
  have rest : ∀ (m' : Machine) (format : SpoolFormat), m.Checked m' → Post (do
        if format = .current ∨ format = .admissionIdentity then
          if (← recoverSequenceState inner).isNone then throw .sequenceStateMissing
        recover inner nowMs
        if format ≠ .current then writeCurrentSpoolFormatMarker : Section Unit) m'
      (fun _ => onOk) onError := by
    intro m' format checked
    have finish : Post (recover inner nowMs) m' (fun _ m₁ =>
        (format ≠ .current → Post writeCurrentSpoolFormatMarker m₁ (fun _ => onOk) onError) ∧
          (¬ format ≠ .current → onOk m₁)) onError :=
      (recovers m' checked).monoOk fun _ m₁ kept => ⟨fun _ => marks m₁ kept, fun _ => current m₁ kept⟩
    simp only [post_ite, post_bind, recoverSequenceState, post_disk]
    refine ⟨fun _ => ?_, fun _ => finish⟩
    cases decodeSequence inner m'.disk.sequence with
    | error error => exact refused error m' checked
    | ok sequence =>
        simp only [post_pure, post_throw]
        exact ⟨fun _ => refused _ m' checked, fun _ => finish⟩
  unfold openSpool
  cases validateConfig inner.config with
  | error error => exact refused error m (.inl rfl)
  | ok _ =>
      simp only [post_bind, post_ite, post_throw]
      refine ⟨fun _ => refused _ m (.inl rfl), fun _ => ?_⟩
      simp only [openLocked, post_bind, post_disk]
      cases readSpoolFormatMarker m.disk with
      | error error => exact refused error m (.inl rfl)
      | ok format =>
          simp only [post_bind, post_disk, post_ite, post_throw, post_modifyState]
          refine ⟨fun _ => ⟨fun _ => refused _ m (.inl rfl), fun _ => ?_⟩, fun _ => ?_⟩
          · simpa only [post_bind, post_ite, post_throw] using rest _ format (.inr rfl)
          · simpa only [post_bind, post_ite, post_throw] using rest _ format (.inl rfl)

/-- Opening a spool keeps the property, if what it may write is allowed. -/
theorem Stable.post_openSpool_keeps (stable : Stable inner allowed mayCount I) {lockHeld : Bool}
    {nowMs : I64} (holds : I m) (may : ∀ file ∈ m.disk.pending.entries, FileAllowed inner allowed file)
    (gaps : ∀ s, GapAllowed inner allowed s ∧ mayCount s) :
    Post (openSpool inner lockHeld nowMs) m (fun _ => I) (fun _ m' => True ∧ I m') := by
  have checked : ∀ m', m.Checked m' → I m' ∧ m'.disk = m.disk := by
    rintro m' (rfl | rfl)
    · exact ⟨holds, rfl⟩
    · exact ⟨stable.shed holds rfl (.of_same rfl rfl rfl rfl (.refl _) rfl), rfl⟩
  refine post_openSpool_recovering (fun _ m' before => ⟨trivial, (checked m' before).1⟩)
    (fun m' before => ?_) (fun m' (kept : I m') => kept)
    fun m' kept => stable.loads_writeCurrentSpoolFormatMarker m' kept
  obtain ⟨holds', same⟩ := checked m' before
  rw [recover]
  refine (stable.post_recoverFiles_keeps holds' (by rwa [same])).bind fun _ m₁ kept => ?_
  refine Preserves.bind stable.keeps_persistCurrentSequenceState.loads (fun _ => .bind ?_ fun _ =>
    stable.keeps_pruneReceipts.loads) _ kept
  exact fun m₂ kept₂ => (stable.post_expireDueLocked_keeps kept₂ fun entry _ => gaps entry.spoolSeq).mono
    (fun _ _ kept => kept) fun _ _ kept => ⟨trivial, kept.2⟩

end

end TeslatlasEdge
