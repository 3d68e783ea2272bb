/-
Module: TeslatlasEdge.Spool.Expiry
Purpose: What `expire_due` leaves behind when it returns: every entry past its deadline, or counted
  before, has given way to its gap or is counted, and nothing else has changed.
Trusted boundary: none
Main exports: State.Due, Expired, post_expireDueLocked_expired
-/
import TeslatlasEdge.Spool.Completion

namespace TeslatlasEdge

open Lib
open Section

variable {inner : Inner} {m : Machine}

/-- An entry `expire_due` acts on: past its deadline, or counted as expired before. -/
def State.Due (state : State) (nowMs : I64) (entry : Entry) : Prop :=
  entry.expiresAtMs.val < nowMs.val ∨
    state.countedPendingExpirations.contains entry.spoolSeq = true

instance decidableDue (state : State) (nowMs : I64) (entry : Entry) :
    Decidable (state.Due nowMs entry) :=
  inferInstanceAs (Decidable (_ ∨ _))

/-- An entry has given way to the gap of its expiration. -/
def State.Replaced (host : Host) (state : State) (entry : Entry) : Prop :=
  ∃ gap, state.gaps.get? (entry.retentionNoticeId host) = some gap

/-! ### The loop -/

/-- What replacing some entries leaves of a machine. -/
structure Replacing (inner : Inner) (expired : List Entry) (m m' : Machine) : Prop where
  holds : ∀ entry, m'.state.Holds entry → m.state.Holds entry
  reads : ∀ entry, m'.state.Holds entry → m'.disk.read entry.path = m.disk.read entry.path
  gone : ∀ entry, m.state.Holds entry →
    m'.state.Holds entry ∨ entry ∈ expired ∧ m'.state.Replaced inner.host entry
  -- an entry that stays was refused for want of room, not because its sequence had a gap
  stays : ∀ entry ∈ expired, m'.state.Holds entry → ¬ m.state.HoldsGapFor entry.spoolSeq
  counted : ∀ entry, m'.state.Holds entry →
    m'.state.countedPendingExpirations.get? entry.spoolSeq =
      m.state.countedPendingExpirations.get? entry.spoolSeq
  gaps : ∀ noticeId gap, m.state.gaps.get? noticeId = some gap →
    m'.state.gaps.get? noticeId = some gap
  fresh : ∀ noticeId gap, m'.state.gaps.get? noticeId = some gap →
    m.state.gaps.get? noticeId = some gap ∨ ∃ entry ∈ expired, ¬ m'.state.Holds entry ∧
      gap.notice = gapNotice inner.host entry entry.expiresAtMs .retentionExpired
  receipts : m'.state.receipts = m.state.receipts
  unresolved : m'.state.unresolvedIntegrity = m.state.unresolvedIntegrity
  allocated : m'.state.nextReceiptSequence = m.state.nextReceiptSequence

theorem Replacing.refl (m : Machine) : Replacing inner [] m m where
  holds _ held := held
  reads _ _ := rfl
  gone _ held := .inl held
  stays _ inside := absurd inside List.not_mem_nil
  counted _ _ := rfl
  gaps _ _ found := found
  fresh _ _ found := .inl found
  receipts := rfl
  unresolved := rfl
  allocated := rfl

/-- Replacing one entry and then others. -/
theorem Replacing.cons {entry : Entry} {rest : List Entry} {m₁ m' : Machine}
    (first : Replacing inner [entry] m m₁) (later : Replacing inner rest m₁ m') :
    Replacing inner (entry :: rest) m m' where
  holds other held := first.holds other (later.holds other held)
  reads other held := (later.reads other held).trans (first.reads other (later.holds other held))
  gone other held := by
    rcases first.gone other held with held₁ | ⟨here, gap, found⟩
    · rcases later.gone other held₁ with kept | ⟨inside, replaced⟩
      · exact .inl kept
      · exact .inr ⟨List.mem_cons_of_mem _ inside, replaced⟩
    · rw [List.mem_singleton.mp here] at found ⊢
      exact .inr ⟨List.mem_cons_self, gap, later.gaps _ _ found⟩
  stays other inside held := by
    rcases List.mem_cons.mp inside with rfl | inside
    · exact first.stays other List.mem_cons_self (later.holds other held)
    · rintro ⟨noticeId, gap, found, sequence⟩
      exact later.stays other inside held ⟨noticeId, gap, first.gaps _ _ found, sequence⟩
  counted other held :=
    (later.counted other held).trans (first.counted other (later.holds other held))
  gaps noticeId gap found := later.gaps noticeId gap (first.gaps noticeId gap found)
  fresh noticeId gap found := by
    rcases later.fresh noticeId gap found with old | ⟨other, inside, facts⟩
    · rcases first.fresh noticeId gap old with older | ⟨other, inside, gone, named⟩
      · exact .inl older
      · rw [List.mem_singleton.mp inside] at gone named
        exact .inr ⟨entry, List.mem_cons_self, fun held => gone (later.holds entry held), named⟩
    · exact .inr ⟨other, List.mem_cons_of_mem _ inside, facts⟩
  receipts := later.receipts.trans first.receipts
  unresolved := later.unresolved.trans first.unresolved
  allocated := later.allocated.trans first.allocated

/-- Entries name their own files, and no two of them share a sequence. -/
structure State.Separate (state : State) : Prop where
  path : ∀ entry, state.Holds entry →
    entry.path = .pending (pendingFileName entry.spoolSeq entry.recordId)
  single : ∀ entry other, state.Holds entry → state.Holds other →
    entry.spoolSeq = other.spoolSeq → entry = other

/-- Replacing entries by gaps keeps the entries of a state apart. -/
theorem Replacing.separate {expired : List Entry} {m' : Machine}
    (replacing : Replacing inner expired m m') (separate : m.state.Separate) : m'.state.Separate :=
  ⟨fun entry held => separate.path entry (replacing.holds entry held),
    fun entry other held held' =>
      separate.single entry other (replacing.holds entry held) (replacing.holds other held')⟩

/-- Two held entries have different files. -/
theorem State.Separate.path_ne {state : State} (separate : state.Separate) {entry other : Entry}
    (held : state.Holds entry) (held' : state.Holds other)
    (different : other.admission ≠ entry.admission) : other.path ≠ entry.path := by
  rw [separate.path other held', separate.path entry held]
  intro same
  have id := pendingFileName_recordId (Path.pending.inj same)
  rw [State.Holds, id, held] at held'
  rw [Option.some.inj held'] at different
  exact different rfl

/-- The second state is the first one, or has the gap of the entry's expiration in addition. -/
def State.Notes (host : Host) (entry : Entry) (state state' : State) : Prop :=
  state' = state ∨ ∃ encryptedBytes path,
    state.gaps.get? (entry.retentionNoticeId host) = none ∧
    state' = state.recordGap
      (gapNotice host entry entry.expiresAtMs .retentionExpired) encryptedBytes path

namespace State.Notes

variable {host : Host} {entry : Entry} {state state' : State}

/-- Noting a gap leaves what is held. -/
theorem holds (notes : State.Notes host entry state state') (other : Entry) :
    state'.Holds other ↔ state.Holds other := by
  rcases notes with same | ⟨_, _, -, recorded⟩
  · rw [same]
  · rw [recorded, State.recordGap_holds]

/-- Nothing but the gaps and their bytes has changed. -/
theorem rest (notes : State.Notes host entry state state') :
    state'.countedPendingExpirations = state.countedPendingExpirations ∧
      state'.receipts = state.receipts ∧ state'.unresolvedIntegrity = state.unresolvedIntegrity ∧
      state'.nextReceiptSequence = state.nextReceiptSequence := by
  rcases notes with same | ⟨_, _, -, recorded⟩
  · rw [same]
    exact ⟨rfl, rfl, rfl, rfl⟩
  · rw [recorded]
    exact ⟨rfl, rfl, rfl, rfl⟩

/-- Noting a gap leaves the gaps there are. -/
theorem gaps (notes : State.Notes host entry state state') {noticeId : RecordId} {gap : GapEntry}
    (found : state.gaps.get? noticeId = some gap) : state'.gaps.get? noticeId = some gap := by
  rcases notes with same | ⟨_, _, absent, recorded⟩
  · rwa [same]
  · rw [recorded]
    change (state.gaps.insert _ _).get? _ = _
    rw [OrdMap.get?_insert, if_neg]
    · exact found
    · rintro rfl
      rw [Entry.retentionNoticeId, found] at absent
      cases absent

/-- The only gap it may add is the notice of the entry's expiry. -/
theorem fresh (notes : State.Notes host entry state state') {noticeId : RecordId} {gap : GapEntry}
    (found : state'.gaps.get? noticeId = some gap) :
    state.gaps.get? noticeId = some gap ∨
      gap.notice = gapNotice host entry entry.expiresAtMs .retentionExpired := by
  rcases notes with same | ⟨_, _, absent, recorded⟩
  · rw [same] at found
    exact .inl found
  · rw [recorded] at found
    change (state.gaps.insert _ _).get? _ = _ at found
    rw [OrdMap.get?_insert] at found
    split at found
    · obtain rfl := Option.some.inj found
      exact .inr rfl
    · exact .inl found

end State.Notes

theorem State.release_rest (state : State) (entry : Entry) :
    (state.release entry).unresolvedIntegrity = state.unresolvedIntegrity ∧
      (state.release entry).nextReceiptSequence = state.nextReceiptSequence := by
  unfold State.release
  split <;> exact ⟨rfl, rfl⟩

/-- An entry whose gap is held has given way to it. -/
theorem replacing_removed {m₁ m₂ : Machine} {entry : Entry} (separate : m.state.Separate)
    (held : m.state.Holds entry)
    (noted : m₁.state.Replaced inner.host entry)
    (change : State.Notes inner.host entry m.state m₁.state)
    (reads : ∀ name, m₁.disk.read (.pending name) = m.disk.read (.pending name))
    (state : m₂.state = (m₁.state.release entry).forgetCounted entry.spoolSeq)
    (disk : ∀ other, other ≠ entry.path → m₂.disk.read other = m₁.disk.read other) :
    Replacing inner [entry] m m₂ := by
  have held₁ : m₁.state.Holds entry := (change.holds entry).mpr held
  have holds₂ : ∀ other, m₂.state.Holds other ↔
      m.state.Holds other ∧ other.admission ≠ entry.admission := by
    intro other
    rw [state]
    exact (State.holds_release held₁).trans (and_congr_left' (change.holds other))
  have gaps₂ : m₂.state.gaps = m₁.state.gaps := by
    rw [state]
    exact State.release_gaps _ _
  obtain ⟨counted₁, receipts₁, unresolved₁, allocated₁⟩ := change.rest
  obtain ⟨unresolved₂, allocated₂⟩ := State.release_rest m₁.state entry
  constructor
  case holds => exact fun other still => ((holds₂ other).mp still).1
  case reads =>
    intro other still
    obtain ⟨before, different⟩ := (holds₂ other).mp still
    rw [disk _ (separate.path_ne held before different), separate.path other before, reads]
  case gone =>
    intro other before
    by_cases same : other.admission = entry.admission
    · obtain rfl := held.eq_of_admission before same
      obtain ⟨gap, found⟩ := noted
      refine .inr ⟨List.mem_cons_self, gap, ?_⟩
      rw [gaps₂]
      exact found
    · exact .inl ((holds₂ other).mpr ⟨before, same⟩)
  case stays =>
    intro other inside still
    rw [List.mem_singleton.mp inside] at still
    exact absurd rfl ((holds₂ entry).mp still).2
  case counted =>
    intro other still
    obtain ⟨before, different⟩ := (holds₂ other).mp still
    have apart : other.spoolSeq ≠ entry.spoolSeq := by
      intro sequence
      rw [separate.single other entry before held sequence] at different
      exact different rfl
    rw [state]
    refine (OrdMap.get?_erase _ _ _).trans ?_
    rw [if_neg apart, State.release_counted _ apart, counted₁]
  case gaps =>
    intro noticeId gap found
    rw [gaps₂]
    exact change.gaps found
  case fresh =>
    intro noticeId gap found
    rw [gaps₂] at found
    exact (change.fresh found).imp id fun named =>
      ⟨entry, List.mem_cons_self, fun still => ((holds₂ entry).mp still).2 rfl, named⟩
  case receipts =>
    rw [state]
    exact (State.release_receipts _ _).trans receipts₁
  case unresolved =>
    rw [state]
    exact unresolved₂.trans unresolved₁
  case allocated =>
    rw [state]
    exact allocated₂.trans allocated₁

/-- Noting the expiration of an entry, without regard to how it came to be due. -/
theorem post_noteExpired {entry : Entry} :
    Post (persistGapLocked inner entry entry.expiresAtMs .retentionExpired) m
      (fun _ m' => m'.state.Replaced inner.host entry ∧
        State.Notes inner.host entry m.state m'.state ∧
        ∀ name, m'.disk.read (.pending name) = m.disk.read (.pending name))
      (fun error m' => m'.state = m.state ∧
        (∀ name, m'.disk.read (.pending name) = m.disk.read (.pending name)) ∧
        (error = .capacityExceeded → ¬ m.state.HoldsGapFor entry.spoolSeq)) := by
  apply post_persistGapLocked_exits rfl
  · exact fun gap found => ⟨⟨gap, found⟩, .inl rfl, fun _ => rfl⟩
  · exact fun error ungapped => ⟨rfl, fun _ => rfl, ungapped⟩
  · intro fits
    have failed : ∀ full, mapIoError full = .capacityExceeded →
        ¬ m.state.HoldsGapFor entry.spoolSeq :=
      fun full same => absurd same (mapIoError_ne_capacityExceeded full)
    apply post_writeAtomic
    · exact fun _ => ⟨rfl, fun _ => rfl, (by simp)⟩
    · intro _ faults _
      refine ⟨⟨_, (OrdMap.get?_insert _ _ _ _).trans (if_pos rfl)⟩,
        .inr ⟨_, _, fits.absent, rfl⟩, fun _ => rfl⟩
    · exact fun _ _ full _ _ => ⟨rfl, fun _ => rfl, failed full⟩
    · exact fun _ _ full _ _ => ⟨rfl, fun _ => rfl, failed full⟩
    · exact fun _ _ full _ _ => ⟨rfl, fun _ => rfl, failed full⟩

/-- An entry whose gap does not fit stays as it is. -/
theorem replacing_kept {m₁ : Machine} {entry : Entry} (separate : m.state.Separate)
    (state : m₁.state = m.state)
    (reads : ∀ name, m₁.disk.read (.pending name) = m.disk.read (.pending name))
    (ungapped : ¬ m.state.HoldsGapFor entry.spoolSeq) : Replacing inner [entry] m m₁ where
  holds other held := by rwa [state] at held
  reads other held := by
    rw [state] at held
    rw [separate.path other held, reads]
  gone other held := .inl (by rwa [state])
  stays other inside _ := by rwa [List.mem_singleton.mp inside]
  counted other _ := by rw [state]
  gaps _ _ found := by rwa [state]
  fresh _ _ found := .inl (by rwa [state] at found)
  receipts := by rw [state]
  unresolved := by rw [state]
  allocated := by rw [state]

/-- Expiring distinct held entries replaces each of them by its gap. -/
theorem post_expireEntries_replacing {expired : List Entry} {removedBacking : Bool}
    (separate : m.state.Separate) (held : ∀ entry ∈ expired, m.state.Holds entry)
    (distinct : expired.Nodup) :
    Post (expireEntries inner expired removedBacking) m
      (fun _ m' => Replacing inner expired m m') (fun _ _ => True) := by
  induction expired generalizing m removedBacking with
  | nil => exact .refl m
  | cons entry rest ih =>
      obtain ⟨outside, distinct⟩ := List.nodup_cons.mp distinct
      have heldEntry : m.state.Holds entry := held entry (by simp)
      have continues : ∀ {m₁ : Machine} {removed : Bool}, Replacing inner [entry] m m₁ →
          Post (expireEntries inner rest removed) m₁
            (fun _ m' => Replacing inner (entry :: rest) m m') (fun _ _ => True) := by
        intro m₁ removed first
        refine (ih (first.separate separate) (fun other inside => ?_) distinct).monoOk
          fun _ _ later => first.cons later
        refine (first.gone other (held other (by simp [inside]))).resolve_right fun gone => ?_
        rw [List.mem_singleton.mp gone.1] at inside
        exact outside inside
      simp only [expireEntries, post_bind, post_tryCatch, post_pure, post_ite]
      refine post_noteExpired.mono ?_ ?_
      · rintro answer m₁ ⟨noted, change, reads⟩
        simp only [true_implies, not_true_eq_false, false_implies, and_true]
        have here : admittedEntry m₁.state entry.admission = some entry :=
          admittedEntry_eq_some.mpr ⟨(change.holds entry).mpr heldEntry, rfl⟩
        apply post_removeAdmittedRecord_exits
        · intro gone
          rw [here] at gone
          cases gone
        · intro gone
          rw [here] at gone
          cases gone
        · intro other held₁ same faults _
          have found := admittedEntry_eq_some.mpr ⟨held₁, same⟩
          rw [here] at found
          obtain rfl := Option.some.inj found
          apply post_syncDirectory
          · intro faults₂ _
            rw [post_modifyState]
            refine continues (replacing_removed separate heldEntry noted change reads ?_ ?_)
            · simp only [Machine.update, Machine.discard_state]
            · intro path different
              exact (m₁.discard_read entry.path path).trans (if_neg different)
          · exact fun _ _ _ _ => trivial
        · exact fun _ _ _ _ => trivial
      · rintro error m₁ ⟨state, reads, ungapped⟩
        simp only [Bool.false_eq_true, false_implies, not_false_eq_true, true_implies, true_and,
          post_throw]
        exact ⟨fun full => continues (replacing_kept separate state reads (ungapped full)),
          fun _ => trivial⟩

/-! ### The section -/

/-- What `expire_due` leaves of a machine when it returns. -/
structure Expired (inner : Inner) (nowMs : I64) (m m' : Machine) : Prop where
  holds : ∀ entry, m'.state.Holds entry → m.state.Holds entry
  reads : ∀ entry, m'.state.Holds entry → m'.disk.read entry.path = m.disk.read entry.path
  gone : ∀ entry, m.state.Holds entry →
    m'.state.Holds entry ∨ m.state.Due nowMs entry ∧ m'.state.Replaced inner.host entry
  counted : ∀ entry, m'.state.Holds entry →
    (m'.state.countedPendingExpirations.contains entry.spoolSeq = true ↔ m.state.Due nowMs entry)
  gaps : ∀ noticeId gap, m.state.gaps.get? noticeId = some gap →
    m'.state.gaps.get? noticeId = some gap
  fresh : ∀ noticeId gap, m'.state.gaps.get? noticeId = some gap →
    m.state.gaps.get? noticeId = some gap ∨ ∃ entry, m.state.Holds entry ∧
      m.state.Due nowMs entry ∧ ¬ m'.state.Holds entry ∧
      gap.notice = gapNotice inner.host entry entry.expiresAtMs .retentionExpired
  receipts : m'.state.receipts = m.state.receipts
  unresolved : m'.state.unresolvedIntegrity = m.state.unresolvedIntegrity
  allocated : m'.state.nextReceiptSequence = m.state.nextReceiptSequence

/-- What is due is what is held and has reached its deadline. -/
theorem mem_dueEntries {state : State} (keyed : state.Keyed) {nowMs : I64} {entry : Entry} :
    entry ∈ dueEntries state nowMs ↔ state.Holds entry ∧ state.Due nowMs entry := by
  rw [dueEntries, mem_sortBySeq, List.mem_filter, Bool.or_eq_true, decide_eq_true_eq]
  refine and_congr_left' ⟨keyed.holds, fun held => ?_⟩
  exact OrdMap.mem_values_iff.mpr ⟨_, held⟩

/-- The counted expirations `expire_due` writes down before it replaces anything. -/
def dueCounted (state : State) (nowMs : I64) : OrdMap Nat RecordId :=
  ((dueEntries state nowMs).foldl (countExpired state.gaps.values)
    (state.countedPendingExpirations, 0)).1

/-- A machine on which the due entries have been counted. -/
structure Counted (nowMs : I64) (m m₁ : Machine) : Prop where
  entries : m₁.state.entries = m.state.entries
  gaps : m₁.state.gaps = m.state.gaps
  counted : m₁.state.countedPendingExpirations = dueCounted m.state nowMs
  receipts : m₁.state.receipts = m.state.receipts
  unresolved : m₁.state.unresolvedIntegrity = m.state.unresolvedIntegrity
  allocated : m₁.state.nextReceiptSequence = m.state.nextReceiptSequence
  reads : ∀ name, m₁.disk.read (.pending name) = m.disk.read (.pending name)

/-- Counting the due entries and then replacing them. -/
theorem Replacing.expired {nowMs : I64} {m₁ m' : Machine} (keyed : m.state.Keyed)
    (separate : m.state.Separate) (counted : Counted nowMs m m₁)
    (replacing : Replacing inner (dueEntries m.state nowMs) m₁ m') :
    Expired inner nowMs m m' := by
  obtain ⟨kept, added, -⟩ := countExpired_foldl m.state.gaps.values
    (dueEntries m.state nowMs) (m.state.countedPendingExpirations, 0)
  have holds₁ : ∀ entry, m₁.state.Holds entry ↔ m.state.Holds entry := by
    intro entry
    rw [State.Holds, counted.entries]
    rfl
  have before : ∀ entry, m'.state.Holds entry → m.state.Holds entry :=
    fun entry held => (holds₁ entry).mp (replacing.holds entry held)
  refine ⟨before, fun entry held => ?_, fun entry held => ?_, fun entry held => ?_,
    fun noticeId gap found => ?_, fun noticeId gap found => ?_,
    replacing.receipts.trans counted.receipts, replacing.unresolved.trans counted.unresolved,
    replacing.allocated.trans counted.allocated⟩
  · rw [replacing.reads entry held, separate.path entry (before entry held), counted.reads]
  · rcases replacing.gone entry ((holds₁ entry).mpr held) with kept | ⟨due, replaced⟩
    · exact .inl kept
    · exact .inr ⟨((mem_dueEntries keyed).mp due).2, replaced⟩
  · rw [OrdMap.contains, replacing.counted entry held, ← OrdMap.contains, counted.counted]
    constructor
    · intro inside
      obtain ⟨identity, found⟩ := OrdMap.contains_iff.mp inside
      rcases added _ _ found with old | ⟨other, due, sequence, -⟩
      · exact .inr (OrdMap.contains_iff.mpr ⟨identity, old⟩)
      · obtain ⟨held', due⟩ := (mem_dueEntries keyed).mp due
        rwa [separate.single other entry held' (before entry held) sequence] at due
    · intro due
      have inside : entry ∈ dueEntries m.state nowMs :=
        (mem_dueEntries keyed).mpr ⟨before entry held, due⟩
      refine (countExpired_covers _ _ _ inside).resolve_right fun gapped => ?_
      obtain ⟨gap, there, sequence⟩ := List.any_eq_true.mp gapped
      obtain ⟨noticeId, found⟩ := OrdMap.mem_values_iff.mp there
      refine replacing.stays entry inside held ⟨noticeId, gap, ?_, of_decide_eq_true sequence⟩
      rw [counted.gaps]
      exact found
  · exact replacing.gaps noticeId gap (by rwa [counted.gaps])
  · rcases replacing.fresh noticeId gap found with old | ⟨entry, due, facts⟩
    · rw [counted.gaps] at old
      exact .inl old
    · obtain ⟨held, due⟩ := (mem_dueEntries keyed).mp due
      exact .inr ⟨entry, held, due, facts⟩

theorem post_persistCurrentSequenceState_reads :
    Post (persistCurrentSequenceState inner) m
      (fun _ m' => m'.state = m.state ∧
        ∀ name, m'.disk.read (.pending name) = m.disk.read (.pending name))
      (fun _ m' => m'.state = m.state ∧
        ∀ name, m'.disk.read (.pending name) = m.disk.read (.pending name)) := by
  simp only [persistCurrentSequenceState, persistSequenceState, post_bind, post_state]
  exact post_writeAtomic (fun _ => ⟨rfl, fun _ => rfl⟩) (fun _ _ _ => ⟨rfl, fun _ => rfl⟩)
    (fun _ _ _ _ _ => ⟨rfl, fun _ => rfl⟩) (fun _ _ _ _ _ => ⟨rfl, fun _ => rfl⟩)
    fun _ _ _ _ _ => ⟨rfl, fun _ => rfl⟩

/-- Writing the counters afterwards leaves what has expired. -/
theorem Expired.of_same {nowMs : I64} {m₁ m' : Machine} (expired : Expired inner nowMs m m₁)
    (separate : m.state.Separate) (state : m'.state = m₁.state)
    (reads : ∀ name, m'.disk.read (.pending name) = m₁.disk.read (.pending name)) :
    Expired inner nowMs m m' := by
  obtain ⟨holds, reads₁, gone, counted, gaps, fresh, receipts, unresolved, allocated⟩ := expired
  rw [← state] at holds gone counted gaps fresh receipts unresolved allocated
  refine ⟨holds, fun entry held => ?_, gone, counted, gaps, fresh, receipts, unresolved, allocated⟩
  rw [separate.path entry (holds entry held), reads, ← separate.path entry (holds entry held)]
  exact reads₁ entry (by rwa [← state])

/-- Expiring replaces entries that are due by their gaps, and counts those that stay. -/
theorem post_expireDueLocked_expired {nowMs : I64} (keyed : m.state.Keyed)
    (separate : m.state.Separate) :
    Post (expireDueLocked inner nowMs) m
      (fun _ m' => Expired inner nowMs m m') (fun _ _ => True) := by
  obtain ⟨kept, -, total⟩ := countExpired_foldl m.state.gaps.values
    (dueEntries m.state nowMs) (m.state.countedPendingExpirations, 0)
  have loop : ∀ {m₁ : Machine}, Counted nowMs m m₁ →
      Post (do
          let removedBacking ← expireEntries inner (dueEntries m.state nowMs) false
          if removedBacking then persistCurrentSequenceState inner) m₁
        (fun _ m' => Expired inner nowMs m m') (fun _ _ => True) := by
    intro m₁ counted
    have holds₁ : ∀ entry, m₁.state.Holds entry ↔ m.state.Holds entry := by
      intro entry
      rw [State.Holds, counted.entries]
      rfl
    have separate₁ : m₁.state.Separate :=
      ⟨fun entry held => separate.path entry ((holds₁ entry).mp held),
        fun entry other held held' =>
          separate.single entry other ((holds₁ entry).mp held) ((holds₁ other).mp held')⟩
    refine (post_expireEntries_replacing separate₁ (fun entry inside => ?_)
      (nodup_dueEntries keyed nowMs)).bind fun removedBacking m₂ replacing => ?_
    · exact (holds₁ entry).mpr ((mem_dueEntries keyed).mp inside).1
    · have expired := replacing.expired keyed separate counted
      rw [post_ite]
      refine ⟨fun _ => ?_, fun _ => expired⟩
      exact post_persistCurrentSequenceState_reads.mono
        (fun _ _ facts => expired.of_same separate facts.1 facts.2) fun _ _ _ => trivial
  simp only [expireDueLocked, post_bind, post_state, post_ite]
  refine ⟨fun _ => ?_, fun none => ?_⟩
  · cases checkedAdd m.state.expiredRecords _ with
    | none => trivial
    | some newTotal =>
        simp only [post_bind, persistSequenceState]
        refine post_writeAtomic (fun _ => trivial) (fun _ faults _ => ?_)
          (fun _ _ _ _ _ => trivial) (fun _ _ _ _ _ => trivial) fun _ _ _ _ _ => trivial
        rw [post_modifyState]
        simp only [post_bind, post_ite, post_pure] at loop ⊢
        exact loop ⟨rfl, rfl, rfl, rfl, rfl, rfl, fun _ => rfl⟩
  · have uncounted : m.state.countedPendingExpirations = dueCounted m.state nowMs := by
      rw [Nat.eq_zero_of_not_pos none, Nat.zero_add, Nat.zero_add] at total
      exact (OrdMap.eq_of_size_le kept total.ge).symm
    simp only [post_bind, post_ite, post_pure] at loop ⊢
    exact loop ⟨rfl, rfl, uncounted, rfl, rfl, rfl, fun _ => rfl⟩

end TeslatlasEdge
