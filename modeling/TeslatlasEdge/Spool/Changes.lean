/-
Module: TeslatlasEdge.Spool.Changes
Purpose: What sections do to the in-memory state alone, whatever the files hold and whatever receipt
  is being completed.  A section moves from state to state through a few kinds of change; only a
  replacement that is torn apart leaves an entry and its gap side by side.
Trusted boundary: none
Main exports: Release, Noted, Change, Changes, post_completeReceipt_releases,
  post_expireDueLocked_changes, post_enqueueLocked_changes, post_quarantineRuntimeEntry_changes
-/
import TeslatlasEdge.Spool.Chains

namespace TeslatlasEdge

open Lib
open Section

/-! ### Changes -/

/-- The state lets go of something. -/
inductive Release (state : State) : State → Prop where
  | entry {entry : Entry} (held : state.Holds entry) : Release state (state.release entry)
  | gap {noticeId : RecordId} {gap : GapEntry} (held : state.gaps.get? noticeId = some gap) :
      Release state (state.dropGap noticeId gap)
  | counted {s : Nat} : Release state (state.forgetCounted s)

abbrev Releases : State → State → Prop := Relation.ReflTransGen Release

/-- The gap of an entry has been recorded, or its notice was held already. -/
inductive Noted (inner : Inner) (entry : Entry) (state : State) : State → Prop where
  | already : Noted inner entry state state
  | recorded {occurredAtMs : I64} {reason : GapReasonV2} {notice : GapNoticeV2} {path : Path}
      (named : notice = gapNotice inner.host entry occurredAtMs reason)
      (fits : GapFits inner state notice) :
      Noted inner entry state
        (state.recordGap notice (inner.key.encrypt (.gap notice)).length path)

/-- The parts of two states that speak about records and gaps are the same. -/
structure State.SameHoldings (a b : State) : Prop where
  entries : a.entries = b.entries
  stableIndex : a.stableIndex = b.stableIndex
  gaps : a.gaps = b.gaps
  next : a.nextSpoolSequence = b.nextSpoolSequence
  pendingBytes : a.pendingBytes = b.pendingBytes
  pendingGapBytes : a.pendingGapBytes = b.pendingGapBytes
  counted : a.countedPendingExpirations = b.countedPendingExpirations

/-- One change of the state.  When `torn` holds, a replacement may stop half way, and a counted entry
may go to quarantine. -/
inductive Change (inner : Inner) (offered : Nat → Envelope → Prop) (torn : Prop) (state : State) :
    State → Prop where
  | released {state' : State} (release : Release state state') : Change inner offered torn state state'
  | counted {total : Nat} {counted : OrdMap Nat RecordId} (fits : Counting state total counted) :
      Change inner offered torn state
        { state with expiredRecords := total, countedPendingExpirations := counted }
  | admitted {envelope : Envelope} {admittedAtMs : I64} {encryptedBytes : Nat} {entry : Entry}
      (offer : offered state.nextSpoolSequence envelope)
      (absent : state.stableIndex.get? (envelope.stableRecordId inner.host) = none)
      (named : entry = Entry.ofEnvelope inner envelope admittedAtMs state.nextSpoolSequence
        encryptedBytes)
      (bytes : saturatingAdd state.pendingBytes encryptedBytes ≤ inner.config.maxBytes) :
      Change inner offered torn state
        { state.admitEntry entry with nextSpoolSequence := state.nextSpoolSequence + 1 }
  | replaced {entry : Entry} {noted : State} (held : state.Holds entry)
      (note : Noted inner entry state noted) :
      Change inner offered torn state (noted.release entry)
  | quarantined {entry : Entry} {noted : State} (held : state.Holds entry)
      (note : Noted inner entry state noted)
      (uncounted : ¬ torn → state.countedPendingExpirations.get? entry.spoolSeq = none) :
      Change inner offered torn state (noted.dropQuarantined entry)
  | tornApart {entry : Entry} {noted : State} (held : state.Holds entry)
      (note : Noted inner entry state noted) (tears : torn) :
      Change inner offered torn state noted
  | elsewhere {state' : State} (same : state'.SameHoldings state) :
      Change inner offered torn state state'

abbrev Changes (inner : Inner) (offered : Nat → Envelope → Prop) (torn : Prop) :
    State → State → Prop :=
  Relation.ReflTransGen (Change inner offered torn)

section

variable {inner : Inner} {offered : Nat → Envelope → Prop} {torn : Prop} {a b c : State}

theorem State.SameHoldings.refl (state : State) : state.SameHoldings state :=
  ⟨rfl, rfl, rfl, rfl, rfl, rfl, rfl⟩

theorem State.SameHoldings.trans (first : a.SameHoldings b) (second : b.SameHoldings c) :
    a.SameHoldings c :=
  ⟨first.entries.trans second.entries, first.stableIndex.trans second.stableIndex,
    first.gaps.trans second.gaps, first.next.trans second.next,
    first.pendingBytes.trans second.pendingBytes,
    first.pendingGapBytes.trans second.pendingGapBytes, first.counted.trans second.counted⟩

/-- A release is a change that admits nothing. -/
theorem Release.changes (release : Release a b) : Changes inner offered torn a b :=
  .single (.released release)

/-- So is a sequence of releases. -/
theorem Releases.changes (releases : Releases a b) : Changes inner offered torn a b :=
  Relation.ReflTransGen.mono (fun _ _ release => Change.released release) _ _ releases

/-- The permissions of changes may be widened. -/
theorem Changes.mono {permitted : Nat → Envelope → Prop} {tears : Prop}
    (changes : Changes inner offered torn a b)
    (weaker : ∀ s envelope, offered s envelope → permitted s envelope) (may : torn → tears) :
    Changes inner permitted tears a b := by
  refine Relation.ReflTransGen.mono (fun a b change => ?_) _ _ changes
  cases change with
  | released release => exact .released release
  | counted fits => exact .counted fits
  | admitted offer absent named bytes => exact .admitted (weaker _ _ offer) absent named bytes
  | replaced held note => exact .replaced held note
  | quarantined held note uncounted =>
      exact .quarantined held note fun whole => uncounted fun torn => whole (may torn)
  | tornApart held note tears => exact .tornApart held note (may tears)
  | elsewhere same => exact .elsewhere same

/-- What each change keeps, a sequence of changes keeps. -/
theorem Changes.invariant {I : State → Prop}
    (keeps : ∀ a b, I a → Change inner offered torn a b → I b)
    (changes : Changes inner offered torn a b) (holds : I a) : I b := by
  induction changes with
  | refl => exact holds
  | tail _ change ih => exact keeps _ _ ih change

/-- Noting a gap leaves the entries. -/
theorem Noted.entries {entry : Entry} (note : Noted inner entry a b) : b.entries = a.entries := by
  cases note <;> rfl

/-- Noting a gap leaves what is held. -/
theorem Noted.holds {entry other : Entry} (note : Noted inner entry a b) :
    b.Holds other ↔ a.Holds other := by
  rw [State.Holds, note.entries, ← State.Holds]

/-- Noting a gap leaves the counted expiries. -/
theorem Noted.counted {entry : Entry} (note : Noted inner entry a b) :
    b.countedPendingExpirations = a.countedPendingExpirations := by
  cases note <;> rfl

/-- Noting a gap takes no number. -/
theorem Noted.next {entry : Entry} (note : Noted inner entry a b) :
    b.nextSpoolSequence = a.nextSpoolSequence := by
  cases note <;> rfl

/-- Noting a gap of an entry adds at most a gap for its sequence. -/
theorem Noted.gap {entry : Entry} {noticeId : RecordId} {gap : GapEntry}
    (note : Noted inner entry a b) (found : b.gaps.get? noticeId = some gap) :
    a.gaps.get? noticeId = some gap ∨ gap.notice.spoolSeq = entry.spoolSeq := by
  cases note with
  | already => exact .inl found
  | recorded named fits =>
      simp only [State.recordGap, OrdMap.get?_insert] at found
      split at found
      · rw [← Option.some.inj found, named]
        exact .inr rfl
      · exact .inl found

/-- A change removes entries or admits the next sequence. -/
theorem Change.holds {entry : Entry} (change : Change inner offered torn a b)
    (held : b.Holds entry) : a.Holds entry ∨ entry.spoolSeq = a.nextSpoolSequence := by
  cases change with
  | released release =>
      cases release with
      | entry =>
          rw [State.Holds, State.release_entries] at held
          exact .inl (OrdMap.get?_of_get?_erase held)
      | gap | counted => exact .inl held
  | counted => exact .inl held
  | admitted offer absent named =>
      change (a.entries.insert _ _).get? _ = _ at held
      rw [OrdMap.get?_insert] at held
      split at held
      · rw [← Option.some.inj held, named]
        exact .inr rfl
      · exact .inl held
  | replaced _ note =>
      rw [State.Holds, State.release_entries] at held
      exact .inl (note.holds.mp (OrdMap.get?_of_get?_erase held))
  | quarantined _ note =>
      change (State.entries _ |>.erase _).get? _ = _ at held
      exact .inl (note.holds.mp (OrdMap.get?_of_get?_erase held))
  | tornApart _ note => exact .inl (note.holds.mp held)
  | elsewhere same =>
      rw [State.Holds, same.entries] at held
      exact .inl held

/-- A change keeps the entries under their own keys. -/
theorem Change.keyed (change : Change inner offered torn a b) (keyed : a.Keyed) : b.Keyed := by
  have erased : ∀ (state : State) id, state.Keyed → ∀ key entry,
      (state.entries.erase id).get? key = some entry → entry.recordId = key :=
    fun state id keyed key entry found => keyed key entry (OrdMap.get?_of_get?_erase found)
  cases change with
  | released release =>
      cases release with
      | entry =>
          rw [State.Keyed, State.release_entries]
          exact erased a _ keyed
      | gap | counted => exact keyed
  | counted => exact keyed
  | admitted =>
      intro id entry found
      change (a.entries.insert _ _).get? _ = _ at found
      rw [OrdMap.get?_insert] at found
      split at found
      · rename_i here
        rw [← Option.some.inj found, here]
      · exact keyed id entry found
  | replaced _ note =>
      rw [State.Keyed, State.release_entries, note.entries]
      exact erased a _ keyed
  | quarantined _ note =>
      change ∀ id entry, (State.entries _ |>.erase _).get? id = some entry → _
      rw [note.entries]
      exact erased a _ keyed
  | tornApart _ note =>
      rw [State.Keyed, note.entries]
      exact keyed
  | elsewhere same =>
      rw [State.Keyed, same.entries]
      exact keyed

theorem Changes.keyed (changes : Changes inner offered torn a b) (keyed : a.Keyed) : b.Keyed :=
  changes.invariant (I := State.Keyed) (fun _ _ holds change => change.keyed holds) keyed

theorem Releases.keyed (releases : Releases a b) (keyed : a.Keyed) : b.Keyed := by
  induction releases with
  | refl => exact keyed
  | @tail b c _ release ih =>
      cases release with
      | entry =>
          rw [State.Keyed, State.release_entries]
          exact fun id entry found => ih id entry (OrdMap.get?_of_get?_erase found)
      | gap | counted => exact ih

/-- What is let go of is not there any more, and nothing new is. -/
theorem Releases.kept (releases : Releases a b) :
    (∀ entry, b.Holds entry → a.Holds entry) ∧
      (∀ noticeId gap, b.gaps.get? noticeId = some gap → a.gaps.get? noticeId = some gap) ∧
      b.nextSpoolSequence = a.nextSpoolSequence := by
  induction releases with
  | refl => exact ⟨fun _ held => held, fun _ _ found => found, rfl⟩
  | @tail b c _ release ih =>
      obtain ⟨entries, gaps, next⟩ := ih
      cases release with
      | @entry released held =>
          refine ⟨fun entry kept => entries entry ?_, fun noticeId gap found =>
            gaps noticeId gap ?_, (State.release_next b released).trans next⟩
          · rw [State.Holds, State.release_entries] at kept
            exact OrdMap.get?_of_get?_erase kept
          · rwa [State.release_gaps] at found
      | gap =>
          exact ⟨entries, fun noticeId gap found =>
            gaps noticeId gap (OrdMap.get?_of_get?_erase found), next⟩
      | counted => exact ⟨entries, gaps, next⟩

/-- Counts are only forgotten. -/
theorem Releases.counted (releases : Releases a b) {s : Nat} {identity : RecordId}
    (found : b.countedPendingExpirations.get? s = some identity) :
    a.countedPendingExpirations.get? s = some identity := by
  induction releases with
  | refl => exact found
  | @tail b c _ release ih =>
      apply ih
      cases release with
      | entry =>
          unfold State.release at found
          split at found
          · exact OrdMap.get?_of_get?_erase found
          · exact found
      | gap => exact found
      | counted => exact OrdMap.get?_of_get?_erase found

end

/-! ### Letting go -/

section

variable {inner : Inner} {m : Machine}

/-- Completing admissions releases entries until none of them is held. -/
theorem post_completeAdmissions_releases {admissions : List ReceiptAdmission}
    {removedPending : Bool} :
    Post (completeAdmissions admissions removedPending) m
      (fun _ m' => Releases m.state m'.state ∧
        ∀ entry, m'.state.Holds entry → entry.admission ∉ admissions)
      (fun _ m' => Releases m.state m'.state) := by
  induction admissions generalizing m removedPending with
  | nil => exact ⟨.refl, by simp⟩
  | cons admission rest ih =>
      simp only [completeAdmissions, post_bind]
      have go : ∀ {m₁ : Machine} {removed : Bool}, Releases m.state m₁.state →
          (∀ entry, m₁.state.Holds entry → entry.admission ≠ admission) →
          Post (completeAdmissions rest removed) m₁
            (fun _ m' => Releases m.state m'.state ∧
              ∀ entry, m'.state.Holds entry → entry.admission ∉ admission :: rest)
            (fun _ m' => Releases m.state m'.state) := by
        intro m₁ removed releases gone
        refine ih.mono ?_ fun _ _ later => releases.trans later
        rintro _ m₂ ⟨later, absent⟩
        refine ⟨releases.trans later, fun entry held => ?_⟩
        rw [List.mem_cons, not_or]
        exact ⟨gone entry (later.kept.1 entry held), absent entry held⟩
      have absent : admittedEntry m.state admission = none →
          ∀ entry, m.state.Holds entry → entry.admission ≠ admission := by
        intro none entry held same
        rw [admittedEntry_eq_some.mpr ⟨held, same⟩] at none
        cases none
      apply post_removeAdmittedRecord_exits
      · exact fun none => go .refl (absent none)
      · exact fun none _ => go (.single .counted) (absent none)
      · rintro entry held rfl faults within
        apply go
        · simp only [Machine.update, Machine.discard_state]
          exact .single (.entry held)
        · intro other kept
          simp only [Machine.update, Machine.discard_state] at kept
          exact ((State.holds_release held).mp kept).2
      · exact fun _ _ _ _ => .refl

/-- Completing a notice releases entries at most. -/
theorem post_completeNotice_releases {noticeId : RecordId} (keyed : m.state.Keyed) :
    Post (completeNotice inner noticeId) m (fun _ m' => Releases m.state m'.state)
      (fun _ m' => Releases m.state m'.state) := by
  simp only [completeNotice, post_bind, post_state]
  cases found : m.state.gaps.get? noticeId with
  | some gap =>
      simp only [post_bind, post_modifyState, post_pure]
      refine post_removeFile (fun faults within => ?_) fun _ _ _ _ => .refl
      simp only [Machine.update, Machine.discard_state]
      exact .single (.gap found)
  | none =>
      simp only [removeExpiredGapBacking, post_bind, post_state]
      cases backed : expiredBacking inner.host m.state noticeId with
      | none => exact .refl
      | some backing =>
          obtain ⟨held, -, -⟩ := expiredBacking_eq_some keyed backed
          have gone : admittedEntry m.state backing.admission ≠ none := by
            rw [admittedEntry_eq_some.mpr ⟨held, rfl⟩]
            exact Option.some_ne_none _
          simp only [post_bind, post_modifyState, post_pure]
          apply post_removeAdmittedRecord_exits
          · exact fun none => absurd none gone
          · exact fun none => absurd none gone
          · intro entry held' same faults within
            simp only [Machine.update, Machine.discard_state]
            exact (Relation.ReflTransGen.single (.entry held')).tail .counted
          · exact fun _ _ _ _ => .refl

/-- So does completing all of them. -/
theorem post_completeNotices_releases {noticeIds : List RecordId} {flags : Bool × Bool}
    (keyed : m.state.Keyed) :
    Post (completeNotices inner noticeIds flags) m (fun _ m' => Releases m.state m'.state)
      (fun _ m' => Releases m.state m'.state) := by
  induction noticeIds generalizing m flags with
  | nil => exact .refl
  | cons noticeId rest ih =>
      simp only [completeNotices]
      refine (post_completeNotice_releases keyed).bind fun _ m₁ first => ?_
      exact (ih (first.keyed keyed)).mono (fun _ _ later => first.trans later)
        fun _ _ later => first.trans later

theorem post_syncDirectory_state :
    Post syncDirectory m (fun _ m' => m'.state = m.state) (fun _ m' => m'.state = m.state) :=
  post_syncDirectory (fun _ _ => rfl) fun _ _ _ _ => rfl

theorem post_writeAtomic_state {path : Path} {body : Blob} :
    Post (writeAtomic path body) m (fun _ m' => m'.state = m.state)
      (fun _ m' => m'.state = m.state) :=
  post_writeAtomic (fun _ => rfl) (fun _ _ _ => rfl) (fun _ _ _ _ _ => rfl)
    (fun _ _ _ _ _ => rfl) fun _ _ _ _ _ => rfl

theorem post_persistCurrentSequenceState_state :
    Post (persistCurrentSequenceState inner) m (fun _ m' => m'.state = m.state)
      (fun _ m' => m'.state = m.state) := by
  simp only [persistCurrentSequenceState, persistSequenceState, post_bind, post_state]
  exact post_writeAtomic_state

/-- Completing any receipt only lets go, and of the occurrences it admits in any case. -/
theorem post_completeReceipt_releases {receipt : AckReceipt} (keyed : m.state.Keyed) :
    Post (completeReceipt inner receipt) m
      (fun _ m' => Releases m.state m'.state ∧
        ∀ entry, m'.state.Holds entry → entry.admission ∉ receipt.acceptedAdmissions)
      (fun _ m' => Releases m.state m'.state) := by
  simp only [completeReceipt]
  refine post_completeAdmissions_releases.bind ?_
  rintro removed m₁ ⟨first, gone⟩
  refine ((post_completeNotices_releases (first.keyed keyed)).mono (fun _ _ kept => kept)
    fun _ _ later => first.trans later).bind ?_
  intro flags m₂ second
  have finish : ∀ {m₃ : Machine}, m₃.state = m₂.state →
      Post (do syncDirectory; persistCurrentSequenceState inner) m₃
        (fun _ m' => m'.state = m₂.state) (fun _ m' => m'.state = m₂.state) := by
    intro m₃ same
    refine (post_syncDirectory_state.mono (fun _ _ kept => kept.trans same)
      fun _ _ kept => kept.trans same).bind fun _ m₄ same' => ?_
    exact post_persistCurrentSequenceState_state.mono (fun _ _ kept => kept.trans same')
      fun _ _ kept => kept.trans same'
  have whole : Post (do
      if flags.1 then syncDirectory
      syncDirectory
      persistCurrentSequenceState inner : Section Unit) m₂
      (fun _ m' => m'.state = m₂.state) (fun _ m' => m'.state = m₂.state) := by
    rw [post_ite]
    exact ⟨fun _ => post_syncDirectory_state.bind fun _ _ same => finish same, fun _ => finish rfl⟩
  refine whole.mono (fun _ m' same => ?_) fun _ m' same => ?_
  · rw [same]
    exact ⟨first.trans second, fun entry held => gone entry (second.kept.1 entry held)⟩
  · rw [same]
    exact first.trans second

end

/-! ### Expiry -/

/-- An entry is found under its identity alone. -/
theorem State.Holds.eq_of_recordId {state : State} {entry other : Entry} (held : state.Holds entry)
    (held' : state.Holds other) (same : other.recordId = entry.recordId) : other = entry := by
  rw [State.Holds, same, held] at held'
  exact (Option.some.inj held').symm

/-- Two held entries of one admission are the same. -/
theorem State.Holds.eq_of_admission {state : State} {entry other : Entry} (held : state.Holds entry)
    (held' : state.Holds other) (same : other.admission = entry.admission) : other = entry :=
  held.eq_of_recordId held' (congrArg ReceiptAdmission.legacyRecordId same)

/-- The gap would be refused before anything is written. -/
def GapRefused (inner : Inner) (m : Machine) (notice : GapNoticeV2) : Prop :=
  m.state.gaps.get? notice.noticeId = none ∧
    (m.storageWriteFailed = true ∨ inner.config.maxRecords ≤ m.state.gaps.size ∨
      inner.config.maxBytes <
        saturatingAdd m.state.pendingGapBytes (inner.key.encrypt (.gap notice)).length)

section

variable {inner : Inner} {offered : Nat → Envelope → Prop} {torn : Prop} {m : Machine}

/-- Persisting a gap notes it under the entry's sequence, and does nothing else. -/
theorem post_persistGapLocked_noted {entry : Entry} {occurredAtMs : I64} {reason : GapReasonV2} :
    Post (persistGapLocked inner entry occurredAtMs reason) m
      (fun _ m' => Noted inner entry m.state m'.state ∧ m'.faults.Within m.faults ∧
        m'.disk.quarantine = m.disk.quarantine ∧ m'.disk.pending = m.disk.pending ∧
        ¬ GapRefused inner m (gapNotice inner.host entry occurredAtMs reason))
      (fun _ m' => m'.state = m.state ∧ m'.faults.Within m.faults) := by
  generalize named : gapNotice inner.host entry occurredAtMs reason = notice
  apply post_persistGapLocked_exits named.symm
  · intro gap found
    refine ⟨.already, .refl _, rfl, rfl, ?_⟩
    rintro ⟨absent, -⟩
    rw [absent] at found
    cases found
  · exact fun _ _ => ⟨rfl, .refl _⟩
  · intro fits
    apply post_writeAtomic
    · exact fun _ => ⟨rfl, .refl _⟩
    · intro open_ faults within
      refine ⟨.recorded named.symm fits, within, rfl, rfl, ?_⟩
      rintro ⟨-, latched | full | long⟩
      · rw [open_] at latched
        cases latched
      · exact absurd fits.room (not_lt.mpr full)
      · exact absurd fits.bytes (not_le.mpr long)
    · exact fun _ _ _ _ within => ⟨rfl, within⟩
    · exact fun _ _ _ _ within => ⟨rfl, within⟩
    · exact fun _ _ _ _ within => ⟨rfl, within⟩

/-- Expiry that returns has replaced entries as a whole; only a failing removal tears one apart. -/
theorem post_expireEntries_changes {expired : List Entry} {removedBacking : Bool}
    (held : ∀ entry ∈ expired, m.state.Holds entry) (distinct : expired.Nodup)
    (tears : ¬ m.faults.RemovalsSucceed → torn) :
    Post (expireEntries inner expired removedBacking) m
      (fun _ m' => Changes inner offered False m.state m'.state)
      (fun _ m' => Changes inner offered torn m.state m'.state) := by
  induction expired generalizing m removedBacking with
  | nil => exact .refl
  | cons entry rest ih =>
      obtain ⟨outside, distinctRest⟩ := List.nodup_cons.mp distinct
      have heldEntry : m.state.Holds entry := held entry (by simp)
      have heldRest : ∀ other ∈ rest, m.state.Holds other :=
        fun other inside => held other (by simp [inside])
      simp only [expireEntries, post_bind, post_tryCatch, post_pure, post_ite]
      refine post_persistGapLocked_noted.mono ?_ ?_
      · rintro answer m₁ ⟨note, within, -⟩
        simp only [true_implies, not_true_eq_false, false_implies, and_true]
        have held₁ : m₁.state.Holds entry := note.holds.mpr heldEntry
        have present : admittedEntry m₁.state entry.admission ≠ none := by
          rw [admittedEntry_eq_some.mpr ⟨held₁, rfl⟩]
          exact Option.some_ne_none _
        apply post_removeAdmittedRecord_exits
        · exact fun none => absurd none present
        · exact fun none => absurd none present
        · intro other held' same faults later
          obtain rfl := held₁.eq_of_admission held' same
          have replaced : Changes inner offered False m.state (m₁.state.release other) :=
            .single (.replaced heldEntry note)
          apply post_syncDirectory
          · intro faults' last
            simp only [post_modifyState]
            simp only [Machine.update, Machine.discard_state]
            have forgotten : Changes inner offered False m.state
                ((m₁.state.release other).forgetCounted other.spoolSeq) :=
              replaced.tail (.released .counted)
            have whole : Changes inner offered torn m.state
                ((m₁.state.release other).forgetCounted other.spoolSeq) :=
              forgotten.mono (fun _ _ offer => offer) False.elim
            refine (ih (fun next inside => ?_) distinctRest fun fails => tears fun succeed =>
              fails ?_).mono (fun _ _ more => forgotten.trans more)
              fun _ _ more => whole.trans more
            · refine (State.holds_release held').mpr ⟨note.holds.mpr (heldRest next inside), ?_⟩
              intro same
              rw [heldEntry.eq_of_admission (heldRest next inside) same] at inside
              exact outside inside
            · exact ((last.trans later).trans within).removalsSucceed succeed
          · intro _ _ faults' last
            simp only [Machine.update, Machine.discard_state]
            exact replaced.mono (fun _ _ offer => offer) False.elim
        · intro full inside faults later
          refine .single (.tornApart heldEntry note (tears fun succeed => ?_))
          exact absurd (succeed _ (within.removals.mem inside)) (Option.some_ne_none _)
      · rintro error m₁ ⟨same, within⟩
        simp only [Bool.false_eq_true, false_implies, not_false_eq_true, true_implies, true_and,
          post_throw]
        rw [← same] at held ⊢
        refine ⟨fun _ => ih (fun other inside => held other (by simp [inside])) distinctRest
          fun fails => tears fun succeed => fails (within.removalsSucceed succeed), fun _ => .refl⟩

/-- Counting the due entries as expired. -/
theorem Counting.due {state : State} {nowMs : I64} {total : Nat} (keyed : state.Keyed)
    (sum : checkedAdd state.expiredRecords ((dueEntries state nowMs).foldl
      (countExpired state.gaps.values) (state.countedPendingExpirations, 0)).2 = some total) :
    Counting state total ((dueEntries state nowMs).foldl
      (countExpired state.gaps.values) (state.countedPendingExpirations, 0)).1 := by
  obtain ⟨kept, added, size⟩ := countExpired_foldl state.gaps.values (dueEntries state nowMs)
    (state.countedPendingExpirations, 0)
  refine ⟨kept, fun s identity held => ?_, ?_⟩
  · rcases added s identity held with before | ⟨entry, inside, facts⟩
    · exact .inl before
    · exact .inr ⟨entry, holds_of_mem_dueEntries keyed inside, facts⟩
  · rw [(checkedAdd_eq_some sum).1]
    simp only at size
    omega

/-- Expiring what is due changes the state by permitted changes only. -/
theorem post_expireDueLocked_changes {nowMs : I64} (keyed : m.state.Keyed)
    (tears : ¬ m.faults.RemovalsSucceed → torn) :
    Post (expireDueLocked inner nowMs) m
      (fun _ m' => Changes inner offered False m.state m'.state)
      (fun _ m' => Changes inner offered torn m.state m'.state) := by
  have loop : ∀ {m₁ : Machine}, Changes inner offered False m.state m₁.state →
      m₁.faults.Within m.faults → m₁.state.entries = m.state.entries →
      Post (do
          let removedBacking ← expireEntries inner (dueEntries m.state nowMs) false
          if removedBacking then persistCurrentSequenceState inner) m₁
        (fun _ m' => Changes inner offered False m.state m'.state)
        (fun _ m' => Changes inner offered torn m.state m'.state) := by
    intro m₁ before within same
    have whole : Changes inner offered torn m.state m₁.state :=
      before.mono (fun _ _ offer => offer) False.elim
    have held : ∀ entry ∈ dueEntries m.state nowMs, m₁.state.Holds entry := by
      intro entry inside
      rw [State.Holds, same]
      exact holds_of_mem_dueEntries keyed inside
    refine ((post_expireEntries_changes held (nodup_dueEntries keyed nowMs)
      fun fails => tears fun succeed => fails (within.removalsSucceed succeed)).mono
      (fun _ _ later => before.trans later) fun _ _ later => whole.trans later).bind ?_
    intro removedBacking m₂ changes
    simp only [post_ite, post_pure]
    refine ⟨fun _ => ?_, fun _ => changes⟩
    refine post_persistCurrentSequenceState_state.mono (fun _ m' same => ?_) fun _ m' same => ?_
    · rw [same]
      exact changes
    · rw [same]
      exact Changes.mono changes (fun _ _ offer => offer) False.elim
  simp only [post_bind, post_ite, post_pure] at loop
  simp only [expireDueLocked, post_bind, post_state, post_ite, post_pure]
  refine ⟨fun _ => ?_, fun _ => loop .refl (.refl _) rfl⟩
  · split
    · exact .refl
    · rename_i total sum
      have counted := Counting.due keyed sum
      simp only [post_bind, persistSequenceState]
      apply post_writeAtomic
      · exact fun _ => .refl
      · intro _ faults within
        simp only [post_modifyState, post_ite, post_bind, post_pure]
        refine loop ?_ ?_ ?_
        · exact .single (.counted counted)
        · exact within
        · rfl
      · exact fun _ _ _ _ _ => .refl
      · exact fun _ _ _ _ _ => .refl
      · exact fun _ _ _ _ _ => .refl

/-! ### Admission and quarantine -/

/-- An admission changes the state by permitted changes only. -/
theorem post_enqueueLocked_changes {envelope : Envelope} {admittedAtMs : I64}
    (offer : offered m.state.nextSpoolSequence envelope) :
    Post (enqueueLocked inner envelope admittedAtMs) m
      (fun _ m' => Changes inner offered torn m.state m'.state)
      (fun _ m' => Changes inner offered torn m.state m'.state) := by
  simp only [enqueueLocked, post_bind, post_state]
  cases known : m.state.stableIndex.get? (envelope.stableRecordId inner.host) with
  | some existing => exact .refl
  | none =>
      cases sum : checkedAdd m.state.nextSpoolSequence 1 with
      | none => exact .refl
      | some next =>
          obtain ⟨rfl, -⟩ := checkedAdd_eq_some sum
          simp only [post_bind, post_ite, post_throw, post_pure]
          refine ⟨fun _ => .refl, fun _ => ⟨fun _ => .refl, fun _ => ⟨fun _ => .refl,
            fun _ => ⟨fun _ => .refl, fun bytes => ?_⟩⟩⟩⟩
          rw [not_lt] at bytes
          apply post_writeAtomic
          · exact fun _ => .refl
          · intro _ faults within
            simp only [post_modifyState]
            have admitted : Changes inner offered torn m.state _ :=
              .single (@Change.admitted inner offered torn m.state envelope admittedAtMs _ _ offer
                known rfl bytes)
            exact post_persistCurrentSequenceState_state.mono
              (fun _ m' same => by rw [same]; exact admitted)
              fun _ m' same => by rw [same]; exact admitted
          · exact fun _ _ _ _ _ => .refl
          · exact fun _ _ _ _ _ => .refl
          · exact fun _ _ _ _ _ => .refl

/-- The run-time quarantine of an entry cannot be torn apart: its gap is refused, or it is not
counted as expired and the file can be moved. -/
def QuarantineWhole (inner : Inner) (m : Machine) (entry : Entry) : Prop :=
  GapRefused inner m (gapNotice inner.host entry entry.admittedAtMs .integrityQuarantine) ∨
    m.state.countedPendingExpirations.get? entry.spoolSeq = none ∧
      QuarantineRoom inner m.disk entry.path ∧ m.faults.MovesSucceed

/-- So does a quarantine, which tears the state only where one of its parts fails. -/
theorem post_quarantineRuntimeEntry_changes {entry : Entry}
    (same : m.state.entries.get? entry.recordId = none ∨ m.state.Holds entry)
    (pathed : m.state.Holds entry → ∃ name, entry.path = .pending name)
    (tears : ¬ QuarantineWhole inner m entry → torn) :
    Post (quarantineRuntimeEntry inner entry) m
      (fun _ m' => Changes inner offered torn m.state m'.state)
      (fun _ m' => Changes inner offered torn m.state m'.state) := by
  simp only [quarantineRuntimeEntry, post_bind, post_state]
  rcases same with absent | held
  · rw [OrdMap.contains_eq_false_iff.mpr absent]
    exact .refl
  · have contained : m.state.entries.contains entry.recordId = true :=
      OrdMap.contains_iff.mpr ⟨entry, held⟩
    simp only [contained, not_true_eq_false, if_false, post_bind]
    refine post_persistGapLocked_noted.mono ?_ fun _ m' failed => by rw [failed.1]
    rintro _ m₁ ⟨note, within, quarantine, pending, accepted⟩
    obtain ⟨name, path⟩ := pathed held
    have reads : m₁.disk.read entry.path = m.disk.read entry.path := by
      rw [path]
      exact congrArg (fun dir : Dir => dir.lookup name) pending
    have whole : ¬ torn → m.state.countedPendingExpirations.get? entry.spoolSeq = none ∧
        QuarantineRoom inner m₁.disk entry.path ∧ m₁.faults.MovesSucceed := by
      intro smooth
      rcases not_imp_comm.mp tears smooth with refused | ⟨uncounted, room, succeed⟩
      · exact absurd refused accepted
      · refine ⟨uncounted, ?_, within.movesSucceed succeed⟩
        simpa only [QuarantineRoom, quarantineBytes, quarantine, reads] using room
    have finish : ∀ {m₂ : Machine}, m₂.state = m₁.state →
        Post (modifyState (·.dropQuarantined entry)) m₂
          (fun _ m' => Changes inner offered torn m.state m'.state)
          (fun _ m' => Changes inner offered torn m.state m'.state) := by
      intro m₂ sameState
      rw [post_modifyState]
      simp only [Machine.update, sameState]
      exact .single (.quarantined held note fun smooth => (whole smooth).1)
    have stopped : ∀ {m₂ : Machine}, m₂.state = m₁.state →
        ¬ (QuarantineRoom inner m₁.disk entry.path ∧ m₁.faults.MovesSucceed) →
        Changes inner offered torn m.state m₂.state := by
      intro m₂ sameState fails
      rw [sameState]
      refine .single (.tornApart held note ?_)
      by_contra smooth
      exact fails (whole smooth).2
    simp only [post_tryCatch]
    apply post_quarantineFileBounded
    · exact fun body found faults later => finish rfl
    · intro error faults later why
      simp only [post_ite, post_bind, post_disk, post_throw]
      refine ⟨fun _ => ?_, fun other => stopped rfl fun fine => other ?_⟩
      · refine post_syncDirectory (fun faults' last => finish rfl) fun full inside faults' last =>
          stopped rfl fun fine => ?_
        exact absurd (fine.2.syncs _ (later.syncs.mem inside)) (Option.some_ne_none _)
      · obtain ⟨io, missing⟩ := why fine.1 fine.2
        exact ⟨io, Option.isNone_iff_eq_none.mpr missing⟩
    · intro body found fails full faults later
      simp only [post_ite, post_bind, post_disk, post_throw]
      refine ⟨fun _ => ?_, fun _ => stopped rfl fun fine => fails fine.2⟩
      exact post_syncDirectory (fun faults' last => finish rfl) fun full inside faults' last =>
        stopped rfl fun fine => fails fine.2

end

end TeslatlasEdge
