/-
Module: TeslatlasEdge.Spool.Accounts
Purpose: A running spool accounts for its files: every pending file and every gap file belongs to
  something the state holds, and the counters of the state agree with what the sequence file has
  listed.  Every elementary effect keeps the accounts.
Trusted boundary: none
Main exports: Accounts, Accounts.kept, Effect.accounts
-/
import TeslatlasEdge.Spool.Tally

namespace TeslatlasEdge

open Lib

/-- What the state of a machine knows of its files.  A write that failed after its file stood has
left a file the state does not know, and has closed the latch. -/
structure Accounts (m : Machine) : Prop where
  indexed : ∀ entry, m.state.Holds entry →
    m.state.stableIndex.get? entry.stableRecordId = some entry.recordId
  pendings : ∀ name body, m.disk.read (.pending name) = some body →
    (∃ entry, m.state.Holds entry ∧ entry.path = .pending name) ∨
      m.storageWriteFailed = true ∧
        ∃ recordId, name = pendingFileName m.state.nextSpoolSequence recordId
  gapFiles : ∀ name body, m.disk.read (.gap name) = some body →
    (∃ noticeId gap, m.state.gaps.get? noticeId = some gap ∧ gap.path = .gap name) ∨
      m.storageWriteFailed = true
  tally : Tally m

section

variable {inner : Inner} {offered : Nat → Envelope → Prop} {m m' : Machine}

/-- The tally survives a step that lists nothing and forgets no count of an entry it keeps. -/
theorem Tally.kept (tally : Tally m)
    (listed : listedSequences m'.timeline = listedSequences m.timeline)
    (latch : m.storageWriteFailed = true → m'.storageWriteFailed = true)
    (expired : m'.state.expiredRecords = m.state.expiredRecords)
    (held : ∀ entry, m'.state.Holds entry → m.state.Holds entry ∧
      (m.state.countedPendingExpirations.contains entry.spoolSeq = true →
        m'.state.countedPendingExpirations.contains entry.spoolSeq = true))
    (counted : ∀ s, m'.state.countedPendingExpirations.contains s = true →
      m.state.countedPendingExpirations.contains s = true) : Tally m' := by
  have before : m'.storageWriteFailed = false → m.storageWriteFailed = false := by
    intro open_
    cases failed : m.storageWriteFailed with
    | false => rfl
    | true => rw [latch failed] at open_; cases open_
  constructor
  · intro open_
    rw [listed, expired]
    exact tally.expired (before open_)
  · intro open_ entry holds inside
    rw [listed] at inside
    obtain ⟨old, keeps⟩ := held entry holds
    exact keeps (tally.held (before open_) entry old inside)
  · intro s inside
    rw [listed]
    exact tally.counted s (counted s inside)

/-- Behind the latch only the counts that are left have to be listed. -/
theorem Tally.latched (tally : Tally m)
    (listed : listedSequences m.timeline ⊆ listedSequences m'.timeline)
    (latched : m'.storageWriteFailed = true)
    (counted : m'.state.countedPendingExpirations = m.state.countedPendingExpirations) :
    Tally m' := by
  constructor
  · intro open_
    rw [latched] at open_
    cases open_
  · intro open_
    rw [latched] at open_
    cases open_
  · intro s inside
    rw [counted] at inside
    exact listed (tally.counted s inside)

/-- A write of the sequence file carries the tally on. -/
theorem Tally.counting {total : Nat} {counted : OrdMap Nat RecordId} {sequence : SequenceState}
    {pruned : Bool} {faults : Faults} (tally : Tally m) (open_ : m.storageWriteFailed = false)
    (fits : Counting m.state total counted)
    (written : sequence.countedPendingExpirations = counted) :
    Tally { (m.place .sequence (inner.key.encrypt (.sequence sequence))).update
      (fun state =>
        { state with
          expiredRecords := total
          countedPendingExpirations := counted
          v1AckHistoryPruned := pruned })
        with faults := faults } := by
  set d := m.disk.put (inner.key.encrypt (.sequence sequence)) .sequence with put
  have listed : listedSequences (d :: m.timeline) =
      counted.keys.toFinset ∪ listedSequences m.timeline := by
    rw [listedSequences, ← written, put]
    rfl
  constructor
  · intro _
    change total = (listedSequences (d :: m.timeline)).card
    rw [listed]
    exact fits.total_eq_card tally open_
  · intro _ entry held inside
    change entry.spoolSeq ∈ listedSequences (d :: m.timeline) at inside
    change counted.contains _ = true
    rw [listed, Finset.mem_union, List.mem_toFinset, mem_keys_iff_contains] at inside
    rcases inside with now | before
    · exact now
    · obtain ⟨identity, found⟩ := OrdMap.contains_iff.mp (tally.held open_ entry held before)
      exact OrdMap.contains_iff.mpr ⟨identity, fits.kept _ _ found⟩
  · intro s inside
    change s ∈ listedSequences (d :: m.timeline)
    change counted.contains s = true at inside
    rw [listed, Finset.mem_union, List.mem_toFinset, mem_keys_iff_contains]
    exact .inl inside

/-- A removal lists nothing. -/
theorem listedSequences_discard {path : Path} (other : path ≠ .sequence) :
    listedSequences (m.discard path).timeline = listedSequences m.timeline := by
  unfold Machine.discard
  split
  · apply listedSequences_next
    rw [Disk.read_remove, if_neg other.symm]
  · rfl

theorem contains_of_contains_erase {counted : OrdMap Nat RecordId} {s t : Nat}
    (inside : (counted.erase s).contains t = true) : counted.contains t = true := by
  obtain ⟨identity, found⟩ := OrdMap.contains_iff.mp inside
  exact OrdMap.contains_iff.mpr ⟨identity, OrdMap.get?_of_get?_erase found⟩

/-- Erasing a number leaves the others counted. -/
theorem contains_erase_of_ne {counted : OrdMap Nat RecordId} {s t : Nat} (other : t ≠ s)
    (inside : counted.contains t = true) : (counted.erase s).contains t = true := by
  rw [OrdMap.contains, OrdMap.get?_erase, if_neg other]
  exact inside

/-- What the accounts need to know of the machine an effect starts in. -/
structure Identified (inner : Inner) (offered : Nat → Envelope → Prop) (m : Machine) : Prop where
  faithful : ∀ envelope, offered m.state.nextSpoolSequence envelope →
    ∀ entry, m.state.Holds entry → entry.recordId = envelope.recordId inner.host →
      entry.stableRecordId = envelope.stableRecordId inner.host
  pathed : m.state.Pathed
  single : ∀ entry other, m.state.Holds entry → m.state.Holds other →
    entry.spoolSeq = other.spoolSeq → entry = other
  fresh : m.storageWriteFailed = false →
    m.state.nextSpoolSequence ∉ listedSequences m.timeline
  admitted : ∀ receipt, Receipted inner.key m.timeline receipt →
    ∀ admission ∈ receipt.acceptedAdmissions, ∀ entry, m.state.Holds entry →
      entry.spoolSeq = admission.spoolSeq → entry.admission = admission

/-- Forgetting an entry leaves the index to the others. -/
theorem Accounts.indexed_dropEntry {entry other : Entry} (accounts : Accounts m)
    (held : m.state.Holds entry) (holds : m.state.Holds other)
    (different : other.recordId ≠ entry.recordId) :
    (m.state.dropEntry entry).stableIndex.get? other.stableRecordId = some other.recordId := by
  refine (OrdMap.get?_erase _ _ _).trans ?_
  rw [if_neg]
  · exact accounts.indexed other holds
  · intro same
    have mine := accounts.indexed entry held
    rw [← same, accounts.indexed other holds] at mine
    exact different (Option.some.inj mine)

theorem State.release_stableIndex (state : State) (entry : Entry) :
    (state.release entry).stableIndex = state.stableIndex.erase entry.stableRecordId := by
  unfold State.release
  split <;> rfl

/-- Accounts after an entry and its file are gone. -/
theorem Accounts.release {entry : Entry} {faults : Faults} (accounts : Accounts m)
    (known : Identified inner offered m) (held : m.state.Holds entry) :
    Accounts { (m.discard entry.path).update (·.release entry) with faults := faults } := by
  have path := known.pathed.entries entry held
  have latch : (m.discard entry.path).storageWriteFailed = m.storageWriteFailed := by
    unfold Machine.discard
    split <;> rfl
  have reads := m.discard_read entry.path
  refine ⟨fun other holds => ?_, fun name body found => ?_, fun name body found => ?_, ?_⟩
  · simp only [Machine.update, Machine.discard_state] at holds ⊢
    obtain ⟨before, different⟩ := (State.holds_release held).mp holds
    rw [State.release_stableIndex]
    refine accounts.indexed_dropEntry held before fun same => different ?_
    rw [State.Holds, same, held] at before
    rw [Option.some.inj before]
  · change (m.discard entry.path).disk.read _ = _ at found
    rw [reads] at found
    split at found
    · cases found
    · rename_i different
      simp only [Machine.update, Machine.discard_state, State.release_next, latch]
      refine (accounts.pendings name body found).imp_left ?_
      rintro ⟨other, holds, named⟩
      refine ⟨other, (State.holds_release held).mpr ⟨holds, fun same => different ?_⟩, named⟩
      rw [known.single entry other held holds
        (congrArg ReceiptAdmission.spoolSeq same).symm, named]
  · change (m.discard entry.path).disk.read _ = _ at found
    rw [reads, path, if_neg (by simp)] at found
    simp only [Machine.update, Machine.discard_state, State.release_gaps, latch]
    exact accounts.gapFiles name body found
  · apply accounts.tally.kept
    · exact listedSequences_discard (by rw [path]; simp)
    · exact fun failed => latch.trans failed
    · simp only [Machine.update, Machine.discard_state, State.release]
      split <;> rfl
    · intro other holds
      simp only [Machine.update, Machine.discard_state] at holds ⊢
      obtain ⟨before, different⟩ := (State.holds_release held).mp holds
      refine ⟨before, fun counted => ?_⟩
      rw [OrdMap.contains, State.release_counted]
      · exact counted
      · intro same
        rw [known.single other entry before held same] at different
        exact different rfl
    · intro s inside
      simp only [Machine.update, Machine.discard_state, State.release] at inside
      split at inside
      · exact contains_of_contains_erase inside
      · exact inside

/-- Accounts after a gap and its file are gone. -/
theorem Accounts.dropGap {noticeId : RecordId} {gap : GapEntry} {faults : Faults}
    (accounts : Accounts m) (known : Identified inner offered m)
    (held : m.state.gaps.get? noticeId = some gap) :
    Accounts { (m.discard gap.path).update (·.dropGap noticeId gap) with faults := faults } := by
  have path := known.pathed.gaps noticeId gap held
  have latch : (m.discard gap.path).storageWriteFailed = m.storageWriteFailed := by
    unfold Machine.discard
    split <;> rfl
  have reads := m.discard_read gap.path
  refine ⟨fun entry holds => ?_, fun name body found => ?_, fun name body found => ?_, ?_⟩
  · simp only [Machine.update, Machine.discard_state] at holds ⊢
    exact accounts.indexed entry holds
  · change (m.discard gap.path).disk.read _ = _ at found
    rw [reads, path, if_neg (by simp)] at found
    simp only [Machine.update, Machine.discard_state, latch]
    exact accounts.pendings name body found
  · change (m.discard gap.path).disk.read _ = _ at found
    rw [reads] at found
    split at found
    · cases found
    · rename_i different
      simp only [Machine.update, Machine.discard_state, latch]
      refine (accounts.gapFiles name body found).imp_left ?_
      rintro ⟨otherId, other, there, named⟩
      refine ⟨otherId, other, (OrdMap.get?_erase _ _ _).trans ?_, named⟩
      rw [if_neg]
      · exact there
      · rintro rfl
        rw [held] at there
        rw [Option.some.inj there, named] at different
        exact different rfl
  · apply accounts.tally.kept
    · exact listedSequences_discard (by rw [path]; simp)
    · exact fun failed => latch.trans failed
    · simp only [Machine.update, Machine.discard_state]
      rfl
    · intro entry holds
      simp only [Machine.update, Machine.discard_state] at holds ⊢
      exact ⟨holds, fun counted => counted⟩
    · intro s inside
      simp only [Machine.update, Machine.discard_state] at inside
      exact inside

/-- Accounts after a receipt file is gone. -/
theorem Accounts.dropReceipt {name : Str} {faults : Faults} (accounts : Accounts m) :
    Accounts { (m.discard (.receipt name)).update id with faults := faults } := by
  have latch : (m.discard (.receipt name)).storageWriteFailed = m.storageWriteFailed := by
    unfold Machine.discard
    split <;> rfl
  have reads := m.discard_read (.receipt name)
  refine ⟨fun entry holds => ?_, fun other body found => ?_, fun other body found => ?_, ?_⟩
  · simp only [Machine.update, Machine.discard_state, id_eq] at holds ⊢
    exact accounts.indexed entry holds
  · change (m.discard (.receipt name)).disk.read _ = _ at found
    rw [reads, if_neg (by simp)] at found
    simp only [Machine.update, Machine.discard_state, latch, id_eq]
    exact accounts.pendings other body found
  · change (m.discard (.receipt name)).disk.read _ = _ at found
    rw [reads, if_neg (by simp)] at found
    simp only [Machine.update, Machine.discard_state, latch, id_eq]
    exact accounts.gapFiles other body found
  · apply accounts.tally.kept
    · exact listedSequences_discard (by simp)
    · exact fun failed => latch.trans failed
    · simp only [Machine.update, Machine.discard_state, id_eq]
    · intro entry holds
      simp only [Machine.update, Machine.discard_state, id_eq] at holds ⊢
      exact ⟨holds, fun counted => counted⟩
    · intro s inside
      simp only [Machine.update, Machine.discard_state, id_eq] at inside
      exact inside

/-- Accounts after a change of the state that keeps every entry and gap. -/
theorem Accounts.updated {change : State → State} (accounts : Accounts m)
    (entries : (change m.state).entries = m.state.entries)
    (stableIndex : (change m.state).stableIndex = m.state.stableIndex)
    (gaps : (change m.state).gaps = m.state.gaps)
    (next : (change m.state).nextSpoolSequence = m.state.nextSpoolSequence)
    (expired : (change m.state).expiredRecords = m.state.expiredRecords)
    (counted : ∀ s, (change m.state).countedPendingExpirations.contains s = true →
      m.state.countedPendingExpirations.contains s = true)
    (kept : ∀ entry, m.state.Holds entry →
      m.state.countedPendingExpirations.contains entry.spoolSeq = true →
      (change m.state).countedPendingExpirations.contains entry.spoolSeq = true) :
    Accounts (m.update change) := by
  refine ⟨fun entry held => ?_, fun name body found => ?_, fun name body found => ?_, ?_⟩
  · simp only [Machine.update, State.Holds, entries, stableIndex] at held ⊢
    exact accounts.indexed entry held
  · simp only [Machine.update, State.Holds, entries, next]
    exact accounts.pendings name body found
  · simp only [Machine.update, gaps]
    exact accounts.gapFiles name body found
  · apply accounts.tally.kept
    · rfl
    · exact fun failed => failed
    · exact expired
    · intro entry held
      change (change m.state).Holds entry at held
      rw [State.Holds, entries] at held
      exact ⟨held, kept entry held⟩
    · exact counted

/-- Accounts after a record is admitted. -/
theorem Accounts.admitted {envelope : Envelope} {admittedAtMs : I64} {body : Blob} {entry : Entry}
    {faults : Faults} (accounts : Accounts m) (known : Identified inner offered m)
    (open_ : m.storageWriteFailed = false)
    (offer : offered m.state.nextSpoolSequence envelope)
    (absent : m.state.stableIndex.get? (envelope.stableRecordId inner.host) = none)
    (named : entry = Entry.ofEnvelope inner envelope admittedAtMs m.state.nextSpoolSequence
      body.length) :
    Accounts { (m.place entry.path body).update (fun state =>
      { state.admitEntry entry with nextSpoolSequence := state.nextSpoolSequence + 1 })
      with faults := faults } := by
  have none : m.storageWriteFailed ≠ true := by rw [open_]; simp
  have legacy : entry.recordId = envelope.recordId inner.host := by rw [named]; rfl
  have stable : entry.stableRecordId = envelope.stableRecordId inner.host := by rw [named]; rfl
  have sequence : entry.spoolSeq = m.state.nextSpoolSequence := by rw [named]; rfl
  have path : entry.path = .pending (pendingFileName entry.spoolSeq entry.recordId) := by
    rw [named]
    rfl
  rw [← stable] at absent
  -- another entry under the same identity would stand in the index
  have apart : ∀ other, m.state.Holds other → other.recordId ≠ entry.recordId := by
    intro other held same
    have indexed := accounts.indexed other held
    rw [known.faithful envelope offer other held (same.trans legacy), ← stable, absent] at indexed
    cases indexed
  have holds : ∀ other, (m.state.admitEntry entry).Holds other ↔
      m.state.Holds other ∨ other = entry := by
    intro other
    simp only [State.Holds, State.admitEntry, OrdMap.get?_insert]
    constructor
    · intro found
      split at found
      · exact .inr (Option.some.inj found).symm
      · exact .inl found
    · rintro (held | rfl)
      · rw [if_neg (apart other held)]
        exact held
      · rw [if_pos rfl]
  have reads := Disk.read_put m.disk body entry.path
  refine ⟨fun other held => ?_, fun name content found => .inl ?_,
    fun name content found => .inl ?_, ?_⟩
  · change (m.state.stableIndex.insert _ _).get? _ = _
    rw [OrdMap.get?_insert]
    rcases (holds other).mp held with before | rfl
    · rw [if_neg]
      · exact accounts.indexed other before
      · intro same
        have indexed := accounts.indexed other before
        rw [same, absent] at indexed
        cases indexed
    · rw [if_pos rfl]
  · change (m.disk.put body entry.path).read _ = _ at found
    rw [reads] at found
    split at found
    · rename_i here
      exact ⟨entry, (holds entry).mpr (.inr rfl), here.symm⟩
    · obtain ⟨other, held, there⟩ := (accounts.pendings name content found).resolve_right
        fun unknown => none unknown.1
      exact ⟨other, (holds other).mpr (.inl held), there⟩
  · change (m.disk.put body entry.path).read _ = _ at found
    rw [reads, path, if_neg (by simp)] at found
    exact (accounts.gapFiles name content found).resolve_right none
  · have listed : listedSequences (m.disk.put body entry.path :: m.timeline) =
        listedSequences m.timeline := by
      apply listedSequences_next
      rw [reads, path, if_neg (by simp)]
    refine ⟨fun _ => ?_, fun _ other held inside => ?_, fun s inside => ?_⟩
    · exact (accounts.tally.expired open_).trans (congrArg Finset.card listed.symm)
    · change other.spoolSeq ∈ listedSequences (m.disk.put body entry.path :: m.timeline) at inside
      rw [listed] at inside
      rcases (holds other).mp held with before | rfl
      · exact accounts.tally.held open_ other before inside
      · rw [sequence] at inside
        exact absurd inside (known.fresh open_)
    · change s ∈ listedSequences (m.disk.put body entry.path :: m.timeline)
      rw [listed]
      exact accounts.tally.counted s inside

/-- Accounts after a gap is recorded. -/
theorem Accounts.recorded {notice : GapNoticeV2} {body : Blob} {faults : Faults}
    (accounts : Accounts m) (open_ : m.storageWriteFailed = false)
    (absent : m.state.gaps.get? notice.noticeId = none) :
    Accounts { (m.place (.gap (gapFileName notice.spoolSeq notice.noticeId)) body).update
      (·.recordGap notice body.length (.gap (gapFileName notice.spoolSeq notice.noticeId)))
      with faults := faults } := by
  have none : m.storageWriteFailed ≠ true := by rw [open_]; simp
  refine ⟨accounts.indexed, fun name content found => .inl ?_, fun name content found => .inl ?_,
    ?_⟩
  · exact (accounts.pendings name content found).resolve_right fun unknown => none unknown.1
  · change (m.disk.put body (.gap _)).read _ = _ at found
    rw [Disk.read_put] at found
    split at found
    · rename_i here
      exact ⟨notice.noticeId, _, (OrdMap.get?_insert _ _ _ _).trans (if_pos rfl), here.symm⟩
    · obtain ⟨noticeId, gap, held, there⟩ := (accounts.gapFiles name content found).resolve_right
        none
      refine ⟨noticeId, gap, (OrdMap.get?_insert _ _ _ _).trans ?_, there⟩
      rw [if_neg]
      · exact held
      · rintro rfl
        rw [absent] at held
        cases held
  · exact accounts.tally.kept (listedSequences_next rfl) (fun failed => failed) rfl
      (fun entry held => ⟨held, fun counted => counted⟩) fun _ counted => counted

/-- Accounts of a machine that has lost a write. -/
theorem Accounts.latched {d : Disk} {older : List Disk} {faults : Faults} (accounts : Accounts m)
    (later : m.timeline <:+ d :: older)
    (pendings : ∀ name body, d.read (.pending name) = some body →
      m.disk.read (.pending name) = some body ∨
        ∃ recordId, name = pendingFileName m.state.nextSpoolSequence recordId) :
    Accounts { m with disk := d, history := older, storageWriteFailed := true, faults := faults } := by
  refine ⟨accounts.indexed, fun name body found => ?_, fun _ _ _ => .inr rfl, ?_⟩
  · rcases pendings name body found with before | fresh
    · rcases accounts.pendings name body before with held | ⟨-, fresh⟩
      · exact .inl held
      · exact .inr ⟨rfl, fresh⟩
    · exact .inr ⟨rfl, fresh⟩
  · exact accounts.tally.latched (listedSequences_mono later) rfl rfl

/-- A write places at most one new pending file, under the next sequence. -/
theorem Write.pendings {path : Path} {body : Blob} {record : State → State} {name : Str}
    {content : Blob} (write : Write inner offered m path body record)
    (found : (m.disk.put body path).read (.pending name) = some content) :
    m.disk.read (.pending name) = some content ∨
      ∃ recordId, name = pendingFileName m.state.nextSpoolSequence recordId := by
  rw [Disk.read_put] at found
  split at found
  · rename_i here
    cases write with
    | sequence | gap | receipt => cases here
    | pending _ _ _ _ _ named =>
        rw [named] at here
        exact .inr ⟨_, Path.pending.inj here⟩
  · exact .inl found

/-- Accounts after a damaged file has been moved aside. -/
theorem Accounts.setAside {entry : Entry} {body : Blob} {faults : Faults} (accounts : Accounts m)
    (known : Identified inner offered m) (held : m.state.Holds entry) :
    Accounts { m.setAside entry.path body with faults := faults } := by
  have path := known.pathed.entries entry held
  have reads := fun other => m.setAside_read entry.path other body
  have back : ∀ other content, (m.setAside entry.path body).disk.read other = some content →
      m.disk.read other = some content := by
    intro other content found
    rw [reads] at found
    split at found
    · cases found
    · exact found
  refine ⟨accounts.indexed, fun name content found => ?_, fun name content found => ?_, ?_⟩
  · exact accounts.pendings name content (back _ _ found)
  · exact accounts.gapFiles name content (back _ _ found)
  · apply accounts.tally.kept
    · apply listedSequences_next
      rw [path]
      rfl
    · exact fun failed => failed
    · rfl
    · exact fun other holds => ⟨holds, fun counted => counted⟩
    · exact fun _ counted => counted

/-- Accounts after the entry of a file that was moved aside is forgotten. -/
theorem Accounts.dropQuarantined {entry : Entry} (accounts : Accounts m)
    (held : m.state.Holds entry) (gone : m.disk.read entry.path = none) :
    Accounts (m.update (·.dropQuarantined entry)) := by
  have holds : ∀ other, (m.state.dropQuarantined entry).Holds other ↔
      m.state.Holds other ∧ other ≠ entry := by
    intro other
    simp only [State.Holds, State.dropQuarantined, State.dropEntry, OrdMap.get?_erase]
    constructor
    · intro found
      split at found
      · cases found
      · rename_i different
        exact ⟨found, fun same => different (congrArg Entry.recordId same)⟩
    · rintro ⟨found, different⟩
      rw [if_neg]
      · exact found
      · intro same
        rw [same, held] at found
        exact different (Option.some.inj found).symm
  refine ⟨fun other there => ?_, fun name content found => ?_, accounts.gapFiles, ?_⟩
  · obtain ⟨before, different⟩ := (holds other).mp there
    refine accounts.indexed_dropEntry held before fun same => different ?_
    rw [State.Holds, same, held] at before
    exact (Option.some.inj before).symm
  · change m.disk.read _ = _ at found
    refine (accounts.pendings name content found).imp_left ?_
    rintro ⟨other, before, named⟩
    refine ⟨other, (holds other).mpr ⟨before, ?_⟩, named⟩
    rintro rfl
    rw [named, found] at gone
    cases gone
  · apply accounts.tally.kept
    · rfl
    · exact fun failed => failed
    · rfl
    · exact fun other there => ⟨((holds other).mp there).1, fun counted => counted⟩
    · exact fun _ counted => counted

/-- Forgetting a count keeps the accounts when no held entry has its sequence. -/
theorem Accounts.forgetCounted {s : Nat} (accounts : Accounts m)
    (gone : ∀ entry, m.state.Holds entry →
      m.state.countedPendingExpirations.contains s = true → entry.spoolSeq ≠ s) :
    Accounts (m.update (·.forgetCounted s)) := by
  refine accounts.updated rfl rfl rfl rfl rfl (fun _ => contains_of_contains_erase) ?_
  intro entry held counted
  by_cases same : entry.spoolSeq = s
  · rw [same] at counted
    exact absurd same (gone entry held counted)
  · exact contains_erase_of_ne same counted

/-- Damage to the contents of a pending file leaves its name accounted for. -/
theorem Accounts.damaged {name : Str} {body old : Blob} (accounts : Accounts m)
    (reads : ∀ path, (m.disk.put body (.pending name)).read path =
      if path = .pending name then some body else m.disk.read path)
    (present : m.disk.read (.pending name) = some old) :
    Accounts { m with
      disk := m.disk.put body (.pending name)
      history := m.disk :: m.history } := by
  refine ⟨accounts.indexed, fun other content found => ?_, fun other content found => ?_, ?_⟩
  · rw [reads] at found
    split at found
    · rename_i here
      rw [Path.pending.inj here]
      exact accounts.pendings name old present
    · exact accounts.pendings other content found
  · rw [reads, if_neg (by simp)] at found
    exact accounts.gapFiles other content found
  · exact accounts.tally.kept (listedSequences_next rfl) (fun failed => failed) rfl
      (fun entry held => ⟨held, fun counted => counted⟩) fun _ counted => counted

/-- Every elementary effect keeps the accounts. -/
theorem Effect.accounts (effect : Effect inner offered m m')
    (known : Identified inner offered m) (accounts : Accounts m) : Accounts m' := by
  cases effect with
  | fault => exact { accounts with tally := { accounts.tally with } }
  | writeFailed =>
      exact accounts.latched (List.suffix_refl _) fun _ _ found => .inl found
  | orphaned =>
      exact accounts.latched (List.suffix_cons _ _) fun _ _ found => .inl found
  | unsynced within faulty open_ write =>
      exact accounts.latched (List.suffix_cons _ _) fun _ _ found => write.pendings found
  | wrote within open_ write =>
      have none : m.storageWriteFailed ≠ true := by rw [open_]; simp
      cases write with
      | sequence fits =>
          exact ⟨accounts.indexed, accounts.pendings, accounts.gapFiles,
            accounts.tally.counting open_ fits rfl⟩
      | pending offer valid absent next content named =>
          exact accounts.admitted known open_ offer absent named
      | gap held named content absent => exact accounts.recorded open_ absent
      | receipt =>
          refine ⟨accounts.indexed, accounts.pendings, accounts.gapFiles, ?_⟩
          exact accounts.tally.kept (listedSequences_next rfl) (fun failed => failed) rfl
            (fun entry held => ⟨held, fun counted => counted⟩) fun _ counted => counted
  | removed within removal =>
      cases removal with
      | expired held | acknowledged held | backing held => exact accounts.release known held
      | gap held => exact accounts.dropGap known held
      | receipt held =>
          rw [known.pathed.receipts _ _ held]
          exact accounts.dropReceipt
  | setAside within held => exact accounts.setAside known held
  | updated update =>
      cases update with
      | forgetReplaced replaced gone | forgetBacking receipted accepted gone =>
          exact accounts.forgetCounted fun entry held _ => gone entry held
      | @forgetAdmitted admission receipt receipted accepted counted gone =>
          refine accounts.forgetCounted fun entry held _ same => ?_
          -- the entry of the sequence would be the accepted admission itself
          have here := known.admitted receipt receipted admission accepted entry held same
          have legacy : entry.recordId = admission.legacyRecordId :=
            congrArg ReceiptAdmission.legacyRecordId here
          have stable : entry.stableRecordId = admission.stableRecordId :=
            congrArg ReceiptAdmission.stableRecordId here
          rw [State.Holds, legacy] at held
          simp only [admittedEntry, held, Option.filter_some, same, stable, legacy, decide_true,
            Bool.and_self, if_true] at gone
          cases gone
      | allocate | insertReceipt | pruneHistory | forgetReceipt =>
          exact accounts.updated rfl rfl rfl rfl rfl (fun _ counted => counted)
            fun _ _ counted => counted
      | dropQuarantined held covered gone => exact accounts.dropQuarantined held gone

end

end TeslatlasEdge
