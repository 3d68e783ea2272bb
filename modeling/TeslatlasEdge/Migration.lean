/-
Module: TeslatlasEdge.Migration
Purpose: Which sequences `open` gives to version 1 records, and when they are beyond every sequence
  the directory shows to have been handed out before.
Trusted boundary: the definitions up to `Unused` are human-reviewed statements about a directory
Main exports: Carried, Consumed, Unused, recoverRecords, Assigns, post_recoverRecords_assigns,
  assigned_unused_iff
-/
import TeslatlasEdge.Scripts
import TeslatlasEdge.Spool.Reopening

namespace TeslatlasEdge

open Lib
open Section

/-! ### Sequences in a directory -/

/-- `open` finds or derives a gap notice with this identity for this sequence: it stands in a gap
file, or the name of a damaged pending file gives it. -/
inductive Noticed (inner : Inner) (disk : Disk) (noticeId : RecordId) (spoolSeq : Nat) : Prop where
  | gap {file : NamedBlob} {notice : GapNoticeV2} (listed : file ∈ disk.gaps.entries)
      (decoded : decodeGap inner file = .ok notice) (named : notice.noticeId = noticeId)
      (here : notice.spoolSeq = spoolSeq)
  | damaged {file : NamedBlob} {recordId : RecordId} (listed : file ∈ disk.pending.entries)
      (decoded : decodePending inner file = .ok none)
      (parsed : parseV2PendingFileName file.1 = some (spoolSeq, recordId))
      (named : gapNoticeId inner.host spoolSeq .integrityQuarantine
        (gapEvidence inner.host spoolSeq recordId .integrityQuarantine) = noticeId)

/-- No two of these notices share an identity. -/
def NoticesApart (inner : Inner) (disk : Disk) : Prop :=
  ∀ noticeId s t, Noticed inner disk noticeId s → Noticed inner disk noticeId t → s = t

/-- The sequence is that of a gap file, of a record in a pending file, or of the name of a damaged
pending file. -/
inductive Carried (inner : Inner) (disk : Disk) (spoolSeq : Nat) : Prop where
  | noticed {noticeId : RecordId} (noticed : Noticed inner disk noticeId spoolSeq)
  | record {file : NamedBlob} {record : RecoveredRecord} (listed : file ∈ disk.pending.entries)
      (decoded : decodePending inner file = .ok (some record))
      (here : record.stored.spoolSeq = some spoolSeq)

/-- The counters or a receipt show that the sequence has been handed out. -/
inductive Consumed (inner : Inner) (disk : Disk) (spoolSeq : Nat) : Prop where
  | counter {sequence : SequenceState}
      (found : decodeSequence inner disk.sequence = .ok (some sequence))
      (before : spoolSeq < sequence.nextSpoolSequence)
  | receipt {file : NamedBlob} {receipt : AckReceipt} {admission : ReceiptAdmission}
      (listed : file ∈ disk.receipts.entries)
      (decoded : decodeReceipt inner file = .ok (some receipt))
      (named : admission ∈ receipt.acceptedAdmissions) (here : admission.spoolSeq = spoolSeq)

/-- The sequence is at least the stored next one and beyond every sequence in a pending file, a gap
file or a receipt. -/
structure Unused (inner : Inner) (disk : Disk) (spoolSeq : Nat) : Prop where
  counter : ∀ sequence, decodeSequence inner disk.sequence = .ok (some sequence) →
    sequence.nextSpoolSequence ≤ spoolSeq
  carried : ∀ s, Carried inner disk s → s < spoolSeq
  receipts : ∀ file ∈ disk.receipts.entries, ∀ receipt,
    decodeReceipt inner file = .ok (some receipt) →
      ∀ admission ∈ receipt.acceptedAdmissions, admission.spoolSeq < spoolSeq

/-- A pending file holds a version 1 record. -/
def HasVersionOne (inner : Inner) (disk : Disk) : Prop :=
  ∃ file ∈ disk.pending.entries, ∃ record, decodePending inner file = .ok (some record) ∧
    record.stored.version = 1

/-! ### What `open` assigns -/

/-- `recover` as far as the loading of the pending records, which it returns. -/
def recoverRecords (inner : Inner) (nowMs : I64) : Section (List RecoveredRecord) := do
  ensureQuarantineCapacity inner 0 false
  let found ← disk
  modifyState fun state =>
    { state with corruptRecords := saturatingAdd state.corruptRecords found.quarantine.length }
  if found.tmp ≠ [] then throw .corruptRecord
  recoverGaps inner found.gaps.entries
  let recovered ← scanPending inner nowMs (← disk).pending.entries []
  let recordMax := maxSequence (recovered.filterMap (·.stored.spoolSeq))
  let gapMax := maxSequence ((← state).gaps.values.map (·.notice.spoolSeq))
  match checkedAdd (max recordMax gapMax) 1 with
  | none => throw .invalidConfig
  | some nextMigration =>
      loadRecords inner (recovered.insertionSort RecoveredRecord.admittedBefore) nextMigration
      return recovered

/-- The machine on which `open` begins to recover: in a directory of the previous format the version
1 acknowledgements count as pruned. -/
def Machine.recovering (m : Machine) : Machine :=
  match readSpoolFormatMarker m.disk with
  | .ok .previous => m.update fun state => { state with v1AckHistoryPruned := true }
  | _ => m

/-- Once `open` has loaded the pending records, the version 1 record has the sequence. -/
def Assigns (inner : Inner) (nowMs : I64) (m : Machine) (record : RecoveredRecord)
    (spoolSeq : Nat) : Prop :=
  record.stored.version = 1 ∧ ∃ recovered loaded,
    recoverRecords inner nowMs m.recovering = .ok recovered loaded ∧ record ∈ recovered ∧
      ∃ entry, loaded.state.entries.get? record.stored.recordId = some entry ∧
        entry.spoolSeq = spoolSeq

variable {inner : Inner} {nowMs : I64} {m : Machine}

/-- Recovery reads the records first, then the counters and receipts. -/
theorem recoverFiles_eq (inner : Inner) (nowMs : I64) :
    recoverFiles inner nowMs = (do
      let _ ← recoverRecords inner nowMs
      recoverCounters inner
      recoverReceipts inner
      retainCounted inner) := by
  simp only [recoverFiles, recoverRecords, bind_assoc]
  refine bind_congr fun _ => bind_congr fun found => bind_congr fun _ => ?_
  split
  · rfl
  · simp only [bind_assoc]
    refine bind_congr fun _ => bind_congr fun _ => bind_congr fun recovered =>
      bind_congr fun state => ?_
    generalize checkedAdd _ 1 = next
    cases next with
    | none => rfl
    | some nextMigration => simp only [bind_assoc, pure_bind]

/-! ### Gaps that are found or derived -/

/-- Every gap held is one the directory tells of. -/
def NoticedGaps (inner : Inner) (disk : Disk) (state : State) : Prop :=
  ∀ noticeId gap, state.gaps.get? noticeId = some gap → Noticed inner disk noticeId gap.notice.spoolSeq

/-- Holding one more noticed gap. -/
theorem NoticedGaps.recordGap {disk : Disk} {state : State} {notice : GapNoticeV2}
    (known : NoticedGaps inner disk state)
    (noticed : Noticed inner disk notice.noticeId notice.spoolSeq) (encryptedBytes : Nat)
    (path : Path) : NoticedGaps inner disk (state.recordGap notice encryptedBytes path) := by
  intro noticeId gap found
  simp only [State.recordGap, OrdMap.get?_insert] at found
  split at found
  · rename_i here
    rw [here, ← Option.some.inj found]
    exact noticed
  · exact known noticeId gap found

theorem State.HoldsGapFor.recordGap {state : State} {notice : GapNoticeV2}
    (absent : state.gaps.get? notice.noticeId = none) (spoolSeq encryptedBytes : Nat) (path : Path) :
    (state.recordGap notice encryptedBytes path).HoldsGapFor spoolSeq ↔
      state.HoldsGapFor spoolSeq ∨ notice.spoolSeq = spoolSeq := by
  simp only [State.HoldsGapFor, State.recordGap, OrdMap.get?_insert]
  constructor
  · rintro ⟨noticeId, gap, found, here⟩
    split at found
    · rw [← Option.some.inj found] at here
      exact .inr here
    · exact .inl ⟨noticeId, gap, found, here⟩
  · rintro (⟨noticeId, gap, found, here⟩ | here)
    · refine ⟨noticeId, gap, ?_, here⟩
      rw [if_neg]
      · exact found
      · rintro rfl
        rw [absent] at found
        cases found
    · exact ⟨notice.noticeId, _, if_pos rfl, here⟩

/-- Reading gap files adds the gaps they hold. -/
theorem post_recoverGaps_noticed {disk : Disk} {files : List NamedBlob}
    (known : NoticedGaps inner disk m.state) (listed : ∀ file ∈ files, file ∈ disk.gaps.entries) :
    Post (recoverGaps inner files) m
      (fun _ m' => NoticedGaps inner disk m'.state ∧ m'.disk = m.disk ∧
        m'.state.entries = m.state.entries ∧
        (∀ s, m.state.HoldsGapFor s → m'.state.HoldsGapFor s) ∧
        ∀ file ∈ files, ∃ notice, decodeGap inner file = .ok notice ∧
          m'.state.HoldsGapFor notice.spoolSeq)
      (fun _ _ => True) := by
  induction files generalizing m with
  | nil => exact ⟨known, rfl, rfl, fun _ held => held, by simp⟩
  | cons file rest ih =>
      simp only [recoverGaps, recoverGap, post_bind]
      cases decoded : decodeGap inner file with
      | error error => exact trivial
      | ok notice =>
          simp only [post_bind, post_state, post_ite, post_throw, post_modifyState]
          refine ⟨fun _ => trivial, fun distinct => ⟨fun _ => trivial, fun _ => ?_⟩⟩
          rw [not_or] at distinct
          have absent : m.state.gaps.get? notice.noticeId = none :=
            OrdMap.contains_eq_false_iff.mp (Bool.eq_false_iff.mpr distinct.1)
          have here : Noticed inner disk notice.noticeId notice.spoolSeq :=
            .gap (listed file (by simp)) decoded rfl rfl
          have grown := fun s => State.HoldsGapFor.recordGap absent s file.2.length (.gap file.1)
          refine (ih (m := m.update (·.recordGap notice file.2.length (.gap file.1)))
            (known.recordGap here _ _) fun other inside => listed other (by simp [inside])).monoOk ?_
          intro _ m' facts
          obtain ⟨noticed, disk', entries, more, covered⟩ := facts
          refine ⟨noticed, disk', entries, fun s held => more s ((grown s).mpr (.inl held)), ?_⟩
          intro other inside
          rcases List.mem_cons.mp inside with rfl | inside
          · exact ⟨notice, decoded, more _ ((grown _).mpr (.inr rfl))⟩
          · exact covered other inside

/-- Moving a damaged pending file aside adds the gap its name tells of. -/
theorem post_quarantineRecoveredPending_noticed {disk : Disk} {file : NamedBlob}
    (apart : NoticesApart inner disk) (known : NoticedGaps inner disk m.state)
    (listed : file ∈ disk.pending.entries) (damaged : decodePending inner file = .ok none) :
    Post (quarantineRecoveredPending inner nowMs file) m
      (fun _ m' => NoticedGaps inner disk m'.state ∧ m'.state.entries = m.state.entries ∧
        (∀ s, m.state.HoldsGapFor s → m'.state.HoldsGapFor s) ∧
        ∃ s recordId, parseV2PendingFileName file.1 = some (s, recordId) ∧ m'.state.HoldsGapFor s)
      (fun _ _ => True) := by
  unfold quarantineRecoveredPending
  split
  · exact trivial
  · rename_i s recordId parsed
    have derived : Noticed inner disk (gapNotice inner.host (damagedEntry nowMs file s recordId)
        nowMs .integrityQuarantine).noticeId s := .damaged listed damaged parsed rfl
    have aside : ∀ m₁ : Machine, NoticedGaps inner disk m₁.state →
        m₁.state.entries = m.state.entries →
        (∀ t, m.state.HoldsGapFor t → m₁.state.HoldsGapFor t) → m₁.state.HoldsGapFor s →
        Post (do
            quarantineFileBounded inner (.pending file.1)
            countCorrupt) m₁
          (fun _ m' => NoticedGaps inner disk m'.state ∧ m'.state.entries = m.state.entries ∧
            (∀ t, m.state.HoldsGapFor t → m'.state.HoldsGapFor t) ∧
            ∃ t recordId, parseV2PendingFileName file.1 = some (t, recordId) ∧
              m'.state.HoldsGapFor t)
          (fun _ _ => True) := by
      intro m₁ known entries more held
      rw [post_bind]
      apply post_quarantineFileBounded
      · exact fun _ _ _ _ => ⟨known, entries, more, s, recordId, parsed, held⟩
      · exact fun _ _ _ _ => trivial
      · exact fun _ _ _ _ _ _ => trivial
    rw [post_bind]
    apply post_persistGapLocked_exits rfl
    · intro gap found
      exact aside m known rfl (fun _ held => held)
        ⟨_, gap, found, apart _ _ _ (known _ gap found) derived⟩
    · exact fun _ _ => trivial
    · intro fits
      have grown := State.HoldsGapFor.recordGap fits.absent
      apply post_writeAtomic
      · exact fun _ => trivial
      · intro _ faults _
        exact aside _ (known.recordGap derived _ _) rfl (fun t held => (grown t _ _).mpr (.inl held))
          ((grown s _ _).mpr (.inr rfl))
      · exact fun _ _ _ _ _ => trivial
      · exact fun _ _ _ _ _ => trivial
      · exact fun _ _ _ _ _ => trivial

/-- The scan returns the readable records and holds a gap for every damaged file. -/
theorem post_scanPending_noticed {disk : Disk} {files : List NamedBlob}
    {recovered : List RecoveredRecord} (apart : NoticesApart inner disk)
    (known : NoticedGaps inner disk m.state) (listed : ∀ file ∈ files, file ∈ disk.pending.entries) :
    Post (scanPending inner nowMs files recovered) m
      (fun found m' => NoticedGaps inner disk m'.state ∧ m'.state.entries = m.state.entries ∧
        (∀ s, m.state.HoldsGapFor s → m'.state.HoldsGapFor s) ∧
        (∀ file ∈ files, decodePending inner file = .ok none →
          ∃ s recordId, parseV2PendingFileName file.1 = some (s, recordId) ∧
            m'.state.HoldsGapFor s) ∧
        ∀ record, record ∈ found ↔ record ∈ recovered ∨
          ∃ file ∈ files, decodePending inner file = .ok (some record))
      (fun _ _ => True) := by
  induction files generalizing recovered m with
  | nil => exact ⟨known, rfl, fun _ held => held, by simp, by simp⟩
  | cons file rest ih =>
      have later := fun other inside => listed other (List.mem_cons_of_mem file inside)
      unfold scanPending
      split
      · exact trivial
      · rename_i damaged
        rw [post_bind]
        refine (post_quarantineRecoveredPending_noticed apart known (listed file (by simp))
          damaged).monoOk ?_
        rintro _ m₁ ⟨known₁, entries₁, more₁, s, recordId, parsed, held⟩
        refine (ih known₁ later).monoOk ?_
        rintro found m₂ ⟨known₂, entries₂, more₂, covered, exact⟩
        refine ⟨known₂, entries₂.trans entries₁, fun t before => more₂ t (more₁ t before), ?_, ?_⟩
        · intro other inside spoiled
          rcases List.mem_cons.mp inside with rfl | inside
          · exact ⟨s, recordId, parsed, more₂ s held⟩
          · exact covered other inside spoiled
        · intro record
          rw [exact, List.exists_mem_cons_iff, damaged]
          simp
      · rename_i record decoded
        refine (ih known later).monoOk ?_
        rintro found m' ⟨known', entries, more, covered, exact⟩
        refine ⟨known', entries, more, ?_, ?_⟩
        · intro other inside spoiled
          rcases List.mem_cons.mp inside with rfl | inside
          · rw [decoded] at spoiled
            cases spoiled
          · exact covered other inside spoiled
        · intro other
          rw [exact, List.exists_mem_cons_iff, decoded, List.mem_append, List.mem_singleton]
          simp only [Except.ok.injEq, Option.some.injEq, or_assoc, eq_comm]

/-! ### Loading records -/

/-- Every entry stays where it is. -/
def State.EntriesKept (before after : State) : Prop :=
  ∀ recordId entry, before.entries.get? recordId = some entry →
    after.entries.get? recordId = some entry

theorem post_renamePending_state {name canonical : Str} :
    Post (renamePending name canonical) m (fun _ m' => m'.state = m.state) (fun _ _ => True) := by
  simp only [renamePending, post_bind, post_disk, post_ite, post_throw]
  refine ⟨fun _ => trivial, fun _ => ?_⟩
  rw [post_nextRenameFault]
  split
  · exact trivial
  · rw [post_bind, post_disk]
    split
    · exact trivial
    · rw [post_bind]
      exact post_syncDirectory (fun _ _ => rfl) fun _ _ _ _ => trivial

/-- An admitted record is under its key, beside the entries there were. -/
theorem post_admitRecovered_assigns {entry : Entry} :
    Post (admitRecovered inner entry) m
      (fun _ m' => m'.state.gaps = m.state.gaps ∧ m.state.EntriesKept m'.state ∧
        m'.state.entries.get? entry.recordId = some entry)
      (fun _ _ => True) := by
  simp only [admitRecovered, post_bind, post_state, post_ite, post_throw, post_modifyState]
  refine ⟨fun _ => trivial, fun fresh => ⟨rfl, fun recordId other found => ?_, ?_⟩⟩
  · simp only [Machine.update, State.admitEntry, OrdMap.get?_insert]
    rw [if_neg]
    · exact found
    · rintro rfl
      exact fresh (.inl (OrdMap.contains_iff.mpr ⟨other, found⟩))
  · simp only [Machine.update, State.admitEntry, OrdMap.get?_insert, if_true]

/-- A record whose sequence has no gap is held under that sequence once it is loaded. -/
theorem post_loadRecord_assigns {record : RecoveredRecord} :
    Post (loadRecord inner record) m
      (fun _ m' => m'.state.gaps = m.state.gaps ∧ m.state.EntriesKept m'.state ∧
        ∀ s, record.stored.spoolSeq = some s → ¬ m.state.HoldsGapFor s →
          ∃ entry, m'.state.entries.get? record.stored.recordId = some entry ∧ entry.spoolSeq = s)
      (fun _ _ => True) := by
  unfold loadRecord
  split
  · rename_i stableRecordId s _ sequence
    simp only [post_bind, post_state, post_ite]
    refine ⟨fun gapped => ?_, fun ungapped => ?_⟩
    · apply post_quarantineFileBounded
      · refine fun _ _ _ _ => ⟨rfl, fun _ _ found => found, fun t here ungapped => absurd ?_ ungapped⟩
        obtain rfl := Option.some.inj (sequence.symm.trans here)
        obtain ⟨gap, inside, same⟩ := List.any_eq_true.mp gapped
        obtain ⟨noticeId, found⟩ := OrdMap.mem_values_iff.mp inside
        exact ⟨noticeId, gap, found, of_decide_eq_true same⟩
      · exact fun _ _ _ _ => trivial
      · exact fun _ _ _ _ _ _ => trivial
    · have admits : ∀ m₁ : Machine, m₁.state = m.state → Post (admitRecovered inner
            { recordId := record.stored.recordId
              stableRecordId := stableRecordId
              spoolSeq := s
              admittedAtMs := record.stored.admittedAtMs
              expiresAtMs := record.stored.expiresAtMs
              encryptedBytes := record.encryptedBytes
              path := .pending (pendingFileName s record.stored.recordId) }) m₁
          (fun _ m' => m'.state.gaps = m.state.gaps ∧ m.state.EntriesKept m'.state ∧
            ∀ t, record.stored.spoolSeq = some t → ¬ m.state.HoldsGapFor t →
              ∃ entry, m'.state.entries.get? record.stored.recordId = some entry ∧
                entry.spoolSeq = t)
          (fun _ _ => True) := by
        intro m₁ same
        refine post_admitRecovered_assigns.monoOk ?_
        rintro _ m' ⟨gaps, kept, held⟩
        rw [same] at gaps kept
        refine ⟨gaps, kept, fun t here _ => ⟨_, held, ?_⟩⟩
        exact Option.some.inj (sequence.symm.trans here)
      exact ⟨fun _ => post_renamePending_state.monoOk fun _ m₁ same => admits m₁ same,
        fun _ => admits m rfl⟩
  · exact trivial

/-- Migration gives a version 1 record the next sequence and leaves a version 2 record alone. -/
theorem post_migrateRecord_assigns {record : RecoveredRecord} {nextMigration : Nat} :
    Post (migrateRecord inner record nextMigration) m
      (fun migrated m' => m'.state = m.state ∧
        (record.stored.version = 1 ∧ migrated.2 = nextMigration + 1 ∧
            migrated.1.stored.spoolSeq = some nextMigration ∧
            migrated.1.stored.recordId = record.stored.recordId ∨
          record.stored.version ≠ 1 ∧ migrated = (record, nextMigration)))
      (fun _ _ => True) := by
  simp only [migrateRecord, post_ite]
  refine ⟨fun first => ?_, fun other => ⟨rfl, .inr ⟨other, rfl⟩⟩⟩
  cases sum : checkedAdd nextMigration 1 with
  | none => exact trivial
  | some following =>
      have next : following = nextMigration + 1 := (checkedAdd_eq_some sum).1
      rw [post_bind]
      exact post_writeAtomic (fun _ => trivial) (fun _ _ _ => ⟨rfl, .inl ⟨first, next, rfl, rfl⟩⟩)
        (fun _ _ _ _ _ => trivial) (fun _ _ _ _ _ => trivial) fun _ _ _ _ _ => trivial

/-- With every gap before the next sequence, each version 1 record is held under that sequence or a
later one, and the first of them under exactly that one. -/
theorem post_loadRecords_assigns {records : List RecoveredRecord} {nextMigration : Nat}
    (beyond : ∀ s, m.state.HoldsGapFor s → s < nextMigration) :
    Post (loadRecords inner records nextMigration) m
      (fun _ m' => m.state.EntriesKept m'.state ∧
        (∀ record ∈ records, record.stored.version = 1 → ∃ entry,
          m'.state.entries.get? record.stored.recordId = some entry ∧
            nextMigration ≤ entry.spoolSeq) ∧
        ((∃ record ∈ records, record.stored.version = 1) → ∃ record ∈ records,
          record.stored.version = 1 ∧ ∃ entry,
            m'.state.entries.get? record.stored.recordId = some entry ∧
              entry.spoolSeq = nextMigration))
      (fun _ _ => True) := by
  induction records generalizing nextMigration m with
  | nil => exact ⟨fun _ _ found => found, by simp, by simp⟩
  | cons record rest ih =>
      simp only [loadRecords, post_bind]
      refine post_migrateRecord_assigns.monoOk ?_
      rintro migrated m₁ ⟨same, step⟩
      refine post_loadRecord_assigns.monoOk ?_
      rintro _ m₂ ⟨gaps, kept, loaded⟩
      rw [same] at gaps kept loaded
      have gapped : ∀ s, m₂.state.HoldsGapFor s ↔ m.state.HoldsGapFor s := by
        intro s
        rw [State.HoldsGapFor, State.HoldsGapFor, gaps]
      rcases step with ⟨first, following, sequence, named⟩ | ⟨other, unchanged⟩
      · -- the record takes the next sequence, which no gap has
        obtain ⟨entry, held, here⟩ := loaded nextMigration sequence fun gap =>
          absurd (beyond _ gap) (lt_irrefl _)
        rw [named] at held
        refine (ih fun s held => ?_).monoOk ?_
        · have := beyond s ((gapped s).mp held)
          omega
        rintro _ m₃ ⟨kept₃, later, _⟩
        refine ⟨fun recordId entry found => kept₃ _ _ (kept _ _ found), fun other inside old => ?_,
          fun _ => ⟨record, by simp, first, entry, kept₃ _ _ held, here⟩⟩
        rcases List.mem_cons.mp inside with rfl | inside
        · exact ⟨entry, kept₃ _ _ held, here.ge⟩
        · obtain ⟨found, held, after⟩ := later other inside old
          exact ⟨found, held, by omega⟩
      · subst unchanged
        refine (ih fun s held => beyond s ((gapped s).mp held)).monoOk ?_
        rintro _ m₃ ⟨kept₃, later, front⟩
        refine ⟨fun recordId entry found => kept₃ _ _ (kept _ _ found), fun another inside old => ?_,
          fun some => ?_⟩
        · rcases List.mem_cons.mp inside with rfl | inside
          · exact absurd old other
          · exact later another inside old
        · rw [List.exists_mem_cons_iff] at some ⊢
          exact .inr (front (some.resolve_left other))

/-! ### The first sequence handed out -/

theorem foldl_max_mem (sequences : List Nat) (start : Nat) :
    sequences.foldl max start = start ∨ sequences.foldl max start ∈ sequences := by
  induction sequences generalizing start with
  | nil => exact .inl rfl
  | cons s rest ih =>
      rw [List.foldl_cons, List.mem_cons]
      rcases ih (max start s) with same | inside
      · rw [same]
        rcases max_choice start s with left | right
        · exact .inl left
        · exact .inr (.inl right)
      · exact .inr (.inr inside)

/-- The highest sequence, if there is one, is one of the sequences. -/
theorem maxSequence_mem {sequences : List Nat} (positive : 1 ≤ maxSequence sequences) :
    maxSequence sequences ∈ sequences := by
  rcases foldl_max_mem sequences 0 with zero | inside
  · rw [maxSequence] at positive
    omega
  · exact inside

/-- What `recover` finds and assigns: a first sequence beyond everything the directory carries and
next to one of these, which the first version 1 record gets. -/
structure Assignment (inner : Inner) (disk : Disk) (recovered : List RecoveredRecord)
    (loaded : State) (first : Nat) : Prop where
  found : ∀ record, record ∈ recovered ↔
    ∃ file ∈ disk.pending.entries, decodePending inner file = .ok (some record)
  beyond : ∀ s, Carried inner disk s → s < first
  next : first = 1 ∨ ∃ s, Carried inner disk s ∧ first = s + 1
  positive : 1 ≤ first
  assigned : ∀ record ∈ recovered, record.stored.version = 1 → ∃ entry,
    loaded.entries.get? record.stored.recordId = some entry ∧ first ≤ entry.spoolSeq
  least : (∃ record ∈ recovered, record.stored.version = 1) → ∃ record ∈ recovered,
    record.stored.version = 1 ∧ ∃ entry,
      loaded.entries.get? record.stored.recordId = some entry ∧ entry.spoolSeq = first

/-- Loading the records assigns numbers from those of records and gaps alone. -/
theorem post_recoverRecords_assigns (apart : NoticesApart inner m.disk)
    (empty : m.state.gaps = .empty) :
    Post (recoverRecords inner nowMs) m
      (fun recovered m' => ∃ first, Assignment inner m.disk recovered m'.state first)
      (fun _ _ => True) := by
  rw [recoverRecords]
  have counting : Post (ensureQuarantineCapacity inner 0 false) m
      (fun _ m' => ∃ faults : Faults, m' = { m with faults := faults }) (fun _ _ => True) :=
    post_ensureQuarantineCapacity (fun faults _ _ _ => ⟨faults, rfl⟩) (fun _ _ _ => trivial)
      fun _ _ _ _ => trivial
  refine counting.bind ?_
  rintro _ m' ⟨faults, rfl⟩
  have empty : ({ m with faults := faults } : Machine).state.gaps = .empty := empty
  have apart : NoticesApart inner ({ m with faults := faults } : Machine).disk := apart
  change Post _ _ (fun recovered (m' : Machine) => ∃ first,
    Assignment inner ({ m with faults := faults } : Machine).disk recovered m'.state first) _
  generalize ({ m with faults := faults } : Machine) = m at empty apart ⊢
  simp only [post_bind, post_disk, post_ite, post_throw, post_modifyState, post_state]
  refine ⟨fun _ => trivial, fun _ => ?_⟩
  have none : NoticedGaps inner m.disk (m.update fun state =>
      { state with corruptRecords :=
          saturatingAdd state.corruptRecords m.disk.quarantine.length }).state := by
    intro noticeId gap found
    change m.state.gaps.get? noticeId = _ at found
    rw [empty] at found
    cases found
  refine (post_recoverGaps_noticed none fun _ inside => inside).monoOk ?_
  rintro _ m₁ ⟨known, disk, entries, -, gapFiles⟩
  rw [disk]
  refine (post_scanPending_noticed apart known fun _ inside => inside).monoOk ?_
  rintro recovered m₂ ⟨known₂, -, more, damaged, found⟩
  have found : ∀ record, record ∈ recovered ↔
      ∃ file ∈ m.disk.pending.entries, decodePending inner file = .ok (some record) := fun record => by
    simpa using found record
  cases sum : checkedAdd (max (maxSequence (recovered.filterMap (·.stored.spoolSeq)))
      (maxSequence (m₂.state.gaps.values.map (·.notice.spoolSeq)))) 1 with
  | none => exact trivial
  | some first =>
      obtain ⟨rfl, -⟩ := checkedAdd_eq_some sum
      set recordMax := maxSequence (recovered.filterMap (·.stored.spoolSeq)) with recordMaxDef
      set gapMax := maxSequence (m₂.state.gaps.values.map (·.notice.spoolSeq)) with gapMaxDef
      have held : ∀ s, m₂.state.HoldsGapFor s → s ≤ gapMax := by
        rintro s ⟨noticeId, gap, inside, rfl⟩
        exact le_maxSequence
          (List.mem_map_of_mem (OrdMap.mem_values_iff.mpr ⟨noticeId, inside⟩))
      rw [post_bind]
      refine (post_loadRecords_assigns fun s gap => Nat.lt_succ_of_le
        (le_max_of_le_right (held s gap))).monoOk ?_
      rintro _ m₃ ⟨-, assigned, least⟩
      have sorted : ∀ record, record ∈ recovered.insertionSort RecoveredRecord.admittedBefore ↔
          record ∈ recovered := fun record => (List.perm_insertionSort _ _).mem_iff
      simp only [sorted] at assigned least
      refine ⟨_, found, fun s carried => Nat.lt_succ_of_le ?_, ?_, by omega, assigned, least⟩
      · -- every gap is held by now, and every other record is among those found
        cases carried with
        | noticed noticed =>
            cases noticed with
            | gap listed decoded named here =>
                obtain ⟨notice, decoded', covered⟩ := gapFiles _ listed
                obtain rfl := Except.ok.inj (decoded.symm.trans decoded')
                exact le_max_of_le_right (held s (here ▸ more _ covered))
            | damaged listed decoded parsed named =>
                obtain ⟨t, recordId, parsed', covered⟩ := damaged _ listed decoded
                obtain ⟨rfl, -⟩ := Prod.mk.inj (Option.some.inj (parsed.symm.trans parsed'))
                exact le_max_of_le_right (held s covered)
        | @record file record listed decoded here =>
            refine le_max_of_le_left (le_maxSequence ?_)
            exact List.mem_filterMap.mpr ⟨record, (found record).mpr ⟨file, listed, decoded⟩, here⟩
      · rcases Nat.eq_zero_or_pos (max recordMax gapMax) with zero | positive
        · exact .inl (by omega)
        · refine .inr ⟨_, ?_, rfl⟩
          rcases le_total recordMax gapMax with le | le
          · rw [max_eq_right le] at positive ⊢
            obtain ⟨gap, inside, same⟩ := List.mem_map.mp (maxSequence_mem positive)
            obtain ⟨noticeId, inside⟩ := OrdMap.mem_values_iff.mp inside
            rw [gapMaxDef, ← same]
            exact .noticed (known₂ noticeId gap inside)
          · rw [max_eq_left le] at positive ⊢
            obtain ⟨record, inside, same⟩ := List.mem_filterMap.mp (maxSequence_mem positive)
            obtain ⟨file, listed, decoded⟩ := (found record).mp inside
            exact .record listed decoded same

/-! ### Opening -/

/-- What ran to its end ran its first part to its end. -/
theorem exists_first_of_run {α β : Type} {first : Section α} {next : α → Section β} {b : β}
    {m' : Machine} (ran : (first >>= next) m = .ok b m') : ∃ a m₁, first m = .ok a m₁ := by
  change EStateM.bind first next m = _ at ran
  unfold EStateM.bind at ran
  split at ran
  · exact ⟨_, _, ‹_›⟩
  · cases ran

/-- An `open` that succeeds has recovered the directory. -/
theorem recover_of_openSpool {lockHeld : Bool} {m' : Machine}
    (opened : openSpool inner lockHeld nowMs m = .ok () m') :
    ∃ after, recover inner nowMs m.recovering = .ok () after := by
  suffices post : Post (openSpool inner lockHeld nowMs) m
      (fun _ _ => ∃ after, recover inner nowMs m.recovering = .ok () after) (fun _ _ => True) from
    post.of_ok opened
  have recovers : ∀ {m₁ : Machine} (next : Unit → Section Unit), Post (recover inner nowMs >>= next) m₁
      (fun _ _ => ∃ after, recover inner nowMs m₁ = .ok () after) (fun _ _ => True) := by
    intro m₁ next
    rw [post_iff_exits]
    refine ⟨fun _ _ ran => ?_, fun _ _ _ => trivial⟩
    obtain ⟨_, after, first⟩ := exists_first_of_run ran
    exact ⟨after, first⟩
  have checks : ∀ (m₁ : Machine) (format : SpoolFormat), Post (do
        if format = .current ∨ format = .admissionIdentity then
          if (← recoverSequenceState inner).isNone then throw .sequenceStateMissing
        recover inner nowMs
        if format ≠ .current then writeCurrentSpoolFormatMarker : Section Unit) m₁
      (fun _ _ => ∃ after, recover inner nowMs m₁ = .ok () after) (fun _ _ => True) := by
    intro m₁ format
    rw [post_ite]
    refine ⟨fun _ => ?_, fun _ => recovers _⟩
    rw [post_bind, recoverSequenceState, post_bind, post_disk]
    split
    · exact trivial
    · rw [post_pure, post_ite]
      exact ⟨fun _ => trivial, fun _ => recovers _⟩
  unfold openSpool
  split
  · exact trivial
  · simp only [post_bind, post_ite, post_throw, openLocked, post_disk]
    refine ⟨fun _ => trivial, fun _ => ?_⟩
    cases marker : readSpoolFormatMarker m.disk with
    | error error => exact trivial
    | ok format =>
        rw [post_ite]
        refine ⟨fun previous => ?_, fun other => ?_⟩
        · rw [post_bind, post_disk, post_ite]
          refine ⟨fun _ => trivial, fun _ => ?_⟩
          rw [post_bind, post_modifyState, Machine.recovering, marker, previous]
          exact checks _ _
        · have unchanged : m.recovering = m := by
            rw [Machine.recovering, marker]
            split
            · rename_i same
              exact absurd (Except.ok.inj same) other
            · rfl
          rw [unchanged]
          exact checks _ _

theorem Machine.recovering_disk (m : Machine) : m.recovering.disk = m.disk := by
  unfold Machine.recovering
  split <;> rfl

theorem Machine.recovering_gaps (m : Machine) : m.recovering.state.gaps = m.state.gaps := by
  unfold Machine.recovering
  split <;> rfl

/-- An `open` that succeeds has assigned sequences. -/
theorem exists_assignment {lockHeld : Bool} {m' : Machine} (initial : m.state = .initial)
    (apart : NoticesApart inner m.disk)
    (opened : openSpool inner lockHeld nowMs m = .ok () m') :
    ∃ recovered loaded first,
      recoverRecords inner nowMs m.recovering = .ok recovered loaded ∧
        Assignment inner m.disk recovered loaded.state first := by
  obtain ⟨_, whole⟩ := recover_of_openSpool opened
  obtain ⟨_, _, files⟩ := exists_first_of_run whole
  rw [recoverFiles_eq] at files
  obtain ⟨recovered, loaded, ran⟩ := exists_first_of_run files
  have post : Post (recoverRecords inner nowMs) m.recovering (fun recovered m' => ∃ first,
      Assignment inner m.recovering.disk recovered m'.state first) (fun _ _ => True) := by
    apply post_recoverRecords_assigns
    · rwa [m.recovering_disk]
    · rw [m.recovering_gaps, initial]
      rfl
  obtain ⟨first, assignment⟩ := post.of_ok ran
  rw [m.recovering_disk] at assignment
  exact ⟨recovered, loaded, first, ran, assignment⟩

/-- The sequences `open` gives to version 1 records are unused if and only if there is no such record
or every sequence that was handed out before is at most one that a pending or gap file carries. -/
theorem assigned_unused_iff {lockHeld : Bool} {m' : Machine} (initial : m.state = .initial)
    (apart : NoticesApart inner m.disk)
    (opened : openSpool inner lockHeld nowMs m = .ok () m') :
    (∀ record spoolSeq, Assigns inner nowMs m record spoolSeq → Unused inner m.disk spoolSeq) ↔
      (HasVersionOne inner m.disk → ∀ s, 1 ≤ s → Consumed inner m.disk s →
        ∃ t, Carried inner m.disk t ∧ s ≤ t) := by
  obtain ⟨recovered, loaded, first, ran, assignment⟩ := exists_assignment initial apart opened
  constructor
  · rintro unused ⟨file, listed, record, decoded, old⟩ s positive consumed
    have some : ∃ record ∈ recovered, record.stored.version = 1 :=
      ⟨record, (assignment.found record).mpr ⟨file, listed, decoded⟩, old⟩
    obtain ⟨record, inside, old, entry, held, here⟩ := assignment.least some
    have fresh := unused record first ⟨old, recovered, loaded, ran, inside, entry, held, here⟩
    have before : s < first := by
      cases consumed with
      | counter found earlier => exact lt_of_lt_of_le earlier (fresh.counter _ found)
      | receipt listed decoded named here =>
          rw [← here]
          exact fresh.receipts _ listed _ decoded _ named
    rcases assignment.next with one | ⟨t, carried, next⟩
    · omega
    · exact ⟨t, carried, by omega⟩
  · rintro covered record spoolSeq ⟨old, recovered', loaded', ran', inside, entry, held, rfl⟩
    obtain ⟨rfl, rfl⟩ := EStateM.Result.ok.inj (ran.symm.trans ran')
    obtain ⟨entry', held', after⟩ := assignment.assigned record inside old
    obtain rfl := Option.some.inj (held.symm.trans held')
    obtain ⟨file, listed, decoded⟩ := (assignment.found record).mp inside
    have consumed := covered ⟨file, listed, record, decoded, old⟩
    have before : ∀ s, Consumed inner m.disk s → s < first := by
      intro s spent
      rcases Nat.eq_zero_or_pos s with rfl | positive
      · exact assignment.positive
      · obtain ⟨t, carried, le⟩ := consumed s positive spent
        exact lt_of_le_of_lt le (assignment.beyond t carried)
    refine ⟨fun sequence found => ?_, fun s carried => ?_, fun file listed receipt decoded
      admission named => ?_⟩
    · by_contra short
      rw [not_le] at short
      exact absurd (before _ (.counter found short)) (not_lt.mpr after)
    · exact lt_of_lt_of_le (assignment.beyond s carried) after
    · exact lt_of_lt_of_le (before _ (.receipt listed decoded named rfl)) after

/-! ### A directory with one version 1 record -/

def legacyRecord : StoredRecord F64 :=
  { version := 1
    recordId := (sampleEnvelope "legacy").recordId (sampleInner 8).host
    stableRecordId := none
    spoolSeq := none
    admittedAtMs := sampleTime 0
    expiresAtMs := sampleTime 60000
    envelope := sampleEnvelope "legacy" }

def legacyFile : NamedBlob :=
  ⟨"legacy-".toList ++ legacyRecord.recordId.text ++ pendingSuffix,
    sampleKey.encrypt (.ofStoredRecord (sampleInner 8).host.codec legacyRecord)⟩

/-- The file of the record, and the counters with their next sequence if there are any. -/
def legacyDisk (next : Option Nat) : Disk :=
  { Disk.fresh with
    sequence := next.map fun next => sampleKey.encrypt <| .sequence
      { version := 1
        nextSpoolSequence := next
        expiredRecordsTotal := 0
        countedPendingExpirations := .empty
        v1AckHistoryPruned := false }
    pending := AList.insert legacyFile.1 legacyFile.2 ∅ }

def legacyMachine (next : Option Nat) : Machine :=
  { World.fresh with disk := legacyDisk next }.opening .none

/-- `open` succeeds and gives a version 1 record the first sequence. -/
def opensAssigning (inner : Inner) (nowMs : I64) (m : Machine) : Bool :=
  (match openSpool inner false nowMs m with
    | .ok _ _ => true
    | .error _ _ => false) &&
  match recoverRecords inner nowMs m.recovering with
  | .ok recovered loaded => recovered.any fun record => record.stored.version = 1 &&
      (loaded.state.entries.get? record.stored.recordId).any fun entry => entry.spoolSeq = 1
  | .error _ _ => false

/-- The check computes an opening and the number it assigns. -/
theorem opensAssigning_elim (opens : opensAssigning inner nowMs m = true) :
    (∃ m', openSpool inner false nowMs m = .ok () m') ∧
      ∃ record, Assigns inner nowMs m record 1 := by
  rw [opensAssigning, Bool.and_eq_true] at opens
  obtain ⟨opened, assigned⟩ := opens
  constructor
  · split at opened
    · exact ⟨_, ‹_›⟩
    · cases opened
  · split at assigned
    · rename_i recovered loaded ran
      obtain ⟨record, inside, shows⟩ := List.any_eq_true.mp assigned
      rw [Bool.and_eq_true, decide_eq_true_eq] at shows
      obtain ⟨entry, held, here⟩ := (Option.any_eq_true _ _).mp shows.2
      exact ⟨record, shows.1, recovered, loaded, ran, inside, entry, held, of_decide_eq_true here⟩
    · cases assigned

/-- The old file is numbered alike whatever the counters say. -/
theorem legacyMachine_opens :
    (opensAssigning (sampleInner 8) (sampleTime 0) (legacyMachine none) &&
      opensAssigning (sampleInner 8) (sampleTime 0) (legacyMachine (some 5))) = true := by
  decide +kernel

/-- A directory of one file. -/
theorem mem_entries_single {name : Str} {body : Blob} {file : NamedBlob} :
    file ∈ (AList.insert name body (∅ : Dir)).entries ↔ file = ⟨name, body⟩ := List.mem_singleton

def readsVersionOne (inner : Inner) (file : NamedBlob) : Bool :=
  match decodePending inner file with
  | .ok (some record) => record.stored.version = 1
  | _ => false

theorem readsVersionOne_elim {file : NamedBlob} (reads : readsVersionOne inner file = true) :
    ∃ record, decodePending inner file = .ok (some record) ∧ record.stored.version = 1 := by
  unfold readsVersionOne at reads
  split at reads
  · exact ⟨_, ‹_›, of_decide_eq_true reads⟩
  · cases reads

theorem legacyFile_reads : readsVersionOne (sampleInner 8) legacyFile = true := by
  decide +kernel

theorem mem_legacyDisk {next : Option Nat} {file : NamedBlob} :
    file ∈ (legacyDisk next).pending.entries ↔ file = legacyFile := by
  have files : (legacyDisk next).pending = AList.insert legacyFile.1 legacyFile.2 ∅ := rfl
  rw [files, mem_entries_single]

theorem legacyDisk_apart (next : Option Nat) :
    NoticesApart (sampleInner 8) (legacyDisk next) := by
  intro noticeId s t noticed _
  cases noticed with
  | gap listed => cases listed
  | damaged listed decoded =>
      obtain ⟨record, reads, -⟩ := readsVersionOne_elim legacyFile_reads
      rw [mem_legacyDisk.mp listed, reads] at decoded
      cases decoded

/-- Without counters and receipts nothing was handed out before. -/
theorem assigned_unused_iff_legacy :
    ∃ m m' : Machine, openSpool (sampleInner 8) false (sampleTime 0) m = .ok () m' ∧
      HasVersionOne (sampleInner 8) m.disk ∧ ∀ record spoolSeq,
        Assigns (sampleInner 8) (sampleTime 0) m record spoolSeq →
          Unused (sampleInner 8) m.disk spoolSeq := by
  have opens := legacyMachine_opens
  rw [Bool.and_eq_true] at opens
  obtain ⟨⟨m', opened⟩, -⟩ := opensAssigning_elim opens.1
  obtain ⟨record, reads, old⟩ := readsVersionOne_elim legacyFile_reads
  refine ⟨legacyMachine none, m', opened,
    ⟨legacyFile, mem_legacyDisk.mpr rfl, record, reads, old⟩, ?_⟩
  rw [assigned_unused_iff rfl (legacyDisk_apart none) opened]
  intro _ s _ consumed
  cases consumed with
  | counter found => cases found
  | receipt listed => cases listed

/-- A spool that has handed out four sequences hands out the first of them again. -/
theorem migration_reuses_consumed :
    ¬ ∀ (inner : Inner) (nowMs : I64) (m m' : Machine), m.state = .initial →
      NoticesApart inner m.disk → openSpool inner false nowMs m = .ok () m' →
        ∀ record spoolSeq, Assigns inner nowMs m record spoolSeq → Unused inner m.disk spoolSeq := by
  intro unused
  have opens := legacyMachine_opens
  rw [Bool.and_eq_true] at opens
  obtain ⟨⟨m', opened⟩, record, assigned⟩ := opensAssigning_elim opens.2
  have fresh := unused _ _ _ _ rfl (legacyDisk_apart (some 5)) opened record 1 assigned
  have stored : ((decodeSequence (sampleInner 8) (legacyDisk (some 5)).sequence).toOption.join.map
      (·.nextSpoolSequence)) = some 5 := by decide +kernel
  cases found : decodeSequence (sampleInner 8) (legacyDisk (some 5)).sequence with
  | error error =>
      rw [found] at stored
      cases stored
  | ok present =>
      cases present with
      | none =>
          rw [found] at stored
          cases stored
      | some sequence =>
          rw [found] at stored
          have next : sequence.nextSpoolSequence = 5 := Option.some.inj stored
          have reached := fresh.counter sequence found
          omega

end TeslatlasEdge
