/-
Module: TeslatlasEdge.Spool.Orders
Purpose: Completing several receipts one after the other.  Where no accepted notice stands for a gap
  and for a counted entry at once, what is left depends on what the receipts accept and not on the
  order in which they are completed, nor on how often.
Trusted boundary: none
Main exports: Releases.sameHoldings, State.Completable, State.Leaves, Taken, taken_completions,
  Taken.holds_iff
-/
import TeslatlasEdge.Spool.Completion
import TeslatlasEdge.Consistency

namespace TeslatlasEdge

open Lib

/-! ### Sums and indices -/

section

variable {a b c : State}

/-- The sums follow the entries and gaps that have been let go of. -/
theorem Releases.sums (releases : Releases a b) :
    b.entries.sumOf (·.encryptedBytes) ≤ a.entries.sumOf (·.encryptedBytes) ∧
      b.pendingBytes = a.pendingBytes -
        (a.entries.sumOf (·.encryptedBytes) - b.entries.sumOf (·.encryptedBytes)) ∧
      b.gaps.sumOf (·.encryptedBytes) ≤ a.gaps.sumOf (·.encryptedBytes) ∧
      b.pendingGapBytes = a.pendingGapBytes -
        (a.gaps.sumOf (·.encryptedBytes) - b.gaps.sumOf (·.encryptedBytes)) := by
  induction releases with
  | refl => exact ⟨le_rfl, by omega, le_rfl, by omega⟩
  | @tail b c _ release ih =>
      obtain ⟨fewer, bytes, fewerGaps, gapBytes⟩ := ih
      cases release with
      | @entry entry held =>
          have less := OrdMap.sumOf_erase_of_get? (·.encryptedBytes) held
          have after : (b.release entry).pendingBytes = b.pendingBytes - entry.encryptedBytes ∧
              (b.release entry).pendingGapBytes = b.pendingGapBytes := by
            unfold State.release
            split <;> exact ⟨rfl, rfl⟩
          rw [State.release_entries, State.release_gaps, after.1, after.2]
          exact ⟨by omega, by omega, fewerGaps, gapBytes⟩
      | @gap noticeId gap held =>
          have less := OrdMap.sumOf_erase_of_get? (·.encryptedBytes) held
          have after : (b.dropGap noticeId gap).pendingGapBytes =
              b.pendingGapBytes - gap.encryptedBytes := rfl
          have kept : (b.dropGap noticeId gap).gaps = b.gaps.erase noticeId := rfl
          rw [after, kept]
          exact ⟨fewer, bytes, by omega, by omega⟩
      | counted => exact ⟨fewer, bytes, fewerGaps, gapBytes⟩

/-- The index loses the stable identities of the entries that have been let go of. -/
theorem Releases.stableIndex (releases : Releases a b) (stableRecordId recordId : RecordId) :
    b.stableIndex.get? stableRecordId = some recordId ↔
      a.stableIndex.get? stableRecordId = some recordId ∧
        ∀ entry, a.Holds entry → ¬ b.Holds entry → entry.stableRecordId ≠ stableRecordId := by
  induction releases with
  | refl => exact ⟨fun found => ⟨found, fun _ held gone => absurd held gone⟩, And.left⟩
  | @tail b c earlier release ih =>
      cases release with
      | @entry entry held =>
          have index : (b.release entry).stableIndex = b.stableIndex.erase entry.stableRecordId := by
            unfold State.release
            split <;> rfl
          rw [index, OrdMap.get?_erase]
          constructor
          · intro found
            split at found
            · cases found
            · rename_i other
              obtain ⟨before, unrelated⟩ := ih.mp found
              refine ⟨before, fun old held' gone => ?_⟩
              by_cases kept : b.Holds old
              · intro same
                refine gone ((State.holds_release held).mpr ⟨kept, fun alike => other ?_⟩)
                rw [← same, held.eq_of_admission kept alike]
              · exact unrelated old held' kept
          · rintro ⟨before, unrelated⟩
            have gone : ¬ (b.release entry).Holds entry := fun kept =>
              ((State.holds_release held).mp kept).2 rfl
            have dropped : a.Holds entry := (Releases.kept earlier).1 entry held
            rw [if_neg fun same => unrelated entry dropped gone same.symm]
            refine ih.mpr ⟨before, fun old held' lost => unrelated old held' fun kept => ?_⟩
            exact lost ((State.holds_release held).mp kept).1
      | gap | counted => exact ih

/-- Two ways of letting go that leave the same entries, gaps and counts leave the same holdings. -/
theorem Releases.sameHoldings (first : Releases a b) (second : Releases a c)
    (entries : ∀ entry, c.Holds entry ↔ b.Holds entry) (keyed : a.Keyed)
    (gaps : ∀ noticeId gap, c.gaps.get? noticeId = some gap ↔ b.gaps.get? noticeId = some gap)
    (counted : ∀ s identity, c.countedPendingExpirations.get? s = some identity ↔
      b.countedPendingExpirations.get? s = some identity) : c.SameHoldings b := by
  have sameEntries : c.entries = b.entries := by
    apply OrdMap.ext_get?
    intro id
    apply Option.ext
    intro entry
    constructor
    · intro found
      obtain rfl := second.keyed keyed id entry found
      exact (entries entry).mp found
    · intro found
      obtain rfl := first.keyed keyed id entry found
      exact (entries entry).mpr found
  have sameGaps : c.gaps = b.gaps :=
    OrdMap.ext_get? fun noticeId => Option.ext fun gap => gaps noticeId gap
  obtain ⟨-, bytes, -, gapBytes⟩ := first.sums
  obtain ⟨-, bytes', -, gapBytes'⟩ := second.sums
  refine ⟨sameEntries, ?_, sameGaps, second.kept.2.2.trans first.kept.2.2.symm, ?_, ?_,
    OrdMap.ext_get? fun s => Option.ext fun identity => counted s identity⟩
  · refine OrdMap.ext_get? fun stableRecordId => Option.ext fun recordId => ?_
    rw [second.stableIndex, first.stableIndex]
    simp only [entries]
  · rw [bytes', bytes, sameEntries]
  · rw [gapBytes', gapBytes, sameGaps]

end

/-! ### What is accepted -/

section

variable {host : Host} {admitted : ReceiptAdmission → Prop} {noticed : RecordId → Prop}

/-- The entry is accepted: as the record it is, or through the notice of its expiration while no gap
stands for it. -/
def State.Leaves (host : Host) (admitted : ReceiptAdmission → Prop) (noticed : RecordId → Prop)
    (state : State) (entry : Entry) : Prop :=
  admitted entry.admission ∨ state.countedPendingExpirations.contains entry.spoolSeq = true ∧
    noticed (entry.retentionNoticeId host) ∧
    state.gaps.get? (entry.retentionNoticeId host) = none

/-- The count is accepted with its record, or with the entry whose notice is. -/
def State.CountLeaves (host : Host) (admitted : ReceiptAdmission → Prop) (noticed : RecordId → Prop)
    (state : State) (s : Nat) (identity : RecordId) : Prop :=
  (∃ admission, admitted admission ∧ admission.spoolSeq = s ∧
    admission.stableRecordId = identity) ∨
  ∃ entry, state.Holds entry ∧ entry.spoolSeq = s ∧ noticed (entry.retentionNoticeId host) ∧
    state.gaps.get? (entry.retentionNoticeId host) = none

/-- What is accepted fits a state: admissions name entries of their sequences, notices tell entries
apart, and a counted entry whose gap is held too is accepted as a record if its notice is. -/
structure State.Completable (host : Host) (admitted : ReceiptAdmission → Prop)
    (noticed : RecordId → Prop) (state : State) : Prop where
  keyed : state.Keyed
  single : ∀ entry other, state.Holds entry → state.Holds other →
    entry.spoolSeq = other.spoolSeq → entry = other
  fits : ∀ admission entry, admitted admission → state.Holds entry →
    admission.spoolSeq = entry.spoolSeq → admission = entry.admission
  notices : ∀ entry other, state.Holds entry → state.Holds other →
    entry.retentionNoticeId host = other.retentionNoticeId host → entry.spoolSeq = other.spoolSeq
  agree : state.CountsAgree
  whole : ∀ entry gap, state.Holds entry →
    state.countedPendingExpirations.contains entry.spoolSeq = true →
    noticed (entry.retentionNoticeId host) →
    state.gaps.get? (entry.retentionNoticeId host) = some gap → admitted entry.admission

/-- On the way from `state` to `left` nothing has gone but what is accepted, and no entry has gone
without its count. -/
structure Taken (host : Host) (admitted : ReceiptAdmission → Prop) (noticed : RecordId → Prop)
    (state left : State) : Prop where
  releases : Releases state left
  kept : ∀ entry, state.Holds entry → left.Holds entry ∨ state.Leaves host admitted noticed entry
  gaps : ∀ noticeId gap, state.gaps.get? noticeId = some gap →
    left.gaps.get? noticeId = some gap ∨ noticed noticeId
  counts : ∀ s identity, state.countedPendingExpirations.get? s = some identity →
    left.countedPendingExpirations.get? s = some identity ∨
      state.CountLeaves host admitted noticed s identity
  held : ∀ entry, left.Holds entry →
    left.countedPendingExpirations.get? entry.spoolSeq =
      state.countedPendingExpirations.get? entry.spoolSeq
  gone : ∀ entry, state.Holds entry → ¬ left.Holds entry →
    left.countedPendingExpirations.get? entry.spoolSeq = none

/-- The admission has been completed. -/
structure AdmissionDone (admission : ReceiptAdmission) (left : State) : Prop where
  entry : ∀ entry, left.Holds entry → entry.admission ≠ admission
  counted : left.countedPendingExpirations.get? admission.spoolSeq ≠ some admission.stableRecordId

/-- The notice has been completed. -/
structure NoticeDone (host : Host) (state : State) (noticeId : RecordId) (left : State) : Prop where
  gap : left.gaps.get? noticeId = none
  backing : ∀ entry, left.Holds entry → entry.retentionNoticeId host = noticeId →
    state.gaps.get? noticeId = none →
    state.countedPendingExpirations.contains entry.spoolSeq = false

/-- An admission that is done stays done. -/
theorem AdmissionDone.later {admission : ReceiptAdmission} {left late : State}
    (done : AdmissionDone admission left) (releases : Releases left late) :
    AdmissionDone admission late :=
  ⟨fun entry held => done.entry entry (releases.kept.1 entry held),
    fun found => done.counted (releases.counted found)⟩

/-- So does a notice. -/
theorem NoticeDone.later {state left late : State} {noticeId : RecordId}
    (done : NoticeDone host state noticeId left) (releases : Releases left late) :
    NoticeDone host state noticeId late := by
  refine ⟨?_, fun entry held => done.backing entry (releases.kept.1 entry held)⟩
  cases found : late.gaps.get? noticeId with
  | none => rfl
  | some gap =>
      have before := releases.kept.2.1 noticeId gap found
      rw [done.gap] at before
      cases before

/-! ### One item -/

variable {state left late : State}

theorem State.holds_release_iff_ne {entry : Entry} (held : state.Holds entry) (other : Entry) :
    (state.release entry).Holds other ↔ state.Holds other ∧ other ≠ entry := by
  rw [State.holds_release held]
  refine and_congr_right fun kept => not_congr ⟨fun alike => held.eq_of_admission kept alike, ?_⟩
  rintro rfl
  rfl

theorem Taken.refl (state : State) : Taken host admitted noticed state state :=
  ⟨.refl, fun _ held => .inl held, fun _ _ found => .inl found, fun _ _ found => .inl found,
    fun _ _ => rfl, fun _ held gone => absurd held gone⟩

/-- An accepted entry goes together with its count. -/
theorem Taken.lose (taken : Taken host admitted noticed state left)
    (fits : state.Completable host admitted noticed) {entry : Entry} (held : left.Holds entry)
    (leaves : state.Leaves host admitted noticed entry) (releases : Releases left late)
    (entries : ∀ other, late.Holds other ↔ left.Holds other ∧ other ≠ entry)
    (gaps : late.gaps = left.gaps)
    (counted : ∀ s, late.countedPendingExpirations.get? s =
      if s = entry.spoolSeq then none else left.countedPendingExpirations.get? s) :
    Taken host admitted noticed state late := by
  have before := taken.releases.kept.1 entry held
  refine ⟨taken.releases.trans releases, fun other held' => ?_, fun noticeId gap found => ?_,
    fun s identity found => ?_, fun other kept => ?_, fun other held' lost => ?_⟩
  · rcases taken.kept other held' with kept | gone
    · by_cases same : other = entry
      · exact .inr (same ▸ leaves)
      · exact .inl ((entries other).mpr ⟨kept, same⟩)
    · exact .inr gone
  · rw [gaps]
    exact taken.gaps noticeId gap found
  · rcases taken.counts s identity found with kept | gone
    · rw [counted]
      split
      · rename_i here
        subst here
        rcases leaves with accepted | ⟨-, named, absent⟩
        · exact .inr (.inl ⟨_, accepted, rfl, (fits.agree entry before identity found).symm⟩)
        · exact .inr (.inr ⟨entry, before, rfl, named, absent⟩)
      · exact .inl kept
    · exact .inr gone
  · obtain ⟨kept, other_ne⟩ := (entries other).mp kept
    rw [counted, if_neg]
    · exact taken.held other kept
    · exact fun same => other_ne
        (fits.single other entry (taken.releases.kept.1 other kept) before same)
  · rw [counted]
    split
    · rfl
    · rename_i elsewhere
      refine taken.gone other held' fun kept => lost ((entries other).mpr ⟨kept, ?_⟩)
      rintro rfl
      exact elsewhere rfl

/-- The count of an accepted record goes when no entry is left for it. -/
theorem Taken.forget (taken : Taken host admitted noticed state left) {admission : ReceiptAdmission}
    (accepted : admitted admission)
    (counted : left.countedPendingExpirations.get? admission.spoolSeq =
      some admission.stableRecordId)
    (empty : ∀ entry, left.Holds entry → entry.spoolSeq ≠ admission.spoolSeq) :
    Taken host admitted noticed state (left.forgetCounted admission.spoolSeq) := by
  have after : ∀ s, (left.forgetCounted admission.spoolSeq).countedPendingExpirations.get? s =
      if s = admission.spoolSeq then none else left.countedPendingExpirations.get? s :=
    fun s => OrdMap.get?_erase _ _ _
  refine ⟨taken.releases.tail .counted, taken.kept, taken.gaps, fun s identity found => ?_,
    fun entry kept => ?_, fun entry held lost => ?_⟩
  · rcases taken.counts s identity found with kept | gone
    · rw [after]
      split
      · rename_i here
        subst here
        rw [counted] at kept
        exact .inr (.inl ⟨admission, accepted, rfl, Option.some.inj kept⟩)
      · exact .inl kept
    · exact .inr gone
  · rw [after, if_neg (empty entry kept)]
    exact taken.held entry kept
  · rw [after]
    split
    · rfl
    · exact taken.gone entry held lost

/-- Releasing a held entry forgets the count of its sequence. -/
theorem Taken.release_counted (taken : Taken host admitted noticed state left)
    (fits : state.Completable host admitted noticed) {entry : Entry} (held : left.Holds entry)
    (s : Nat) :
    (left.release entry).countedPendingExpirations.get? s =
      if s = entry.spoolSeq then none else left.countedPendingExpirations.get? s := by
  have before := taken.releases.kept.1 entry held
  unfold State.release
  split
  · exact OrdMap.get?_erase _ _ _
  · rename_i unmatched
    split
    · rename_i here
      subst here
      cases found : left.countedPendingExpirations.get? entry.spoolSeq with
      | none => exact found
      | some identity =>
          have same := fits.agree entry before identity (taken.releases.counted found)
          rw [found, same] at unmatched
          exact absurd rfl unmatched
    · rfl

/-- One admission of a receipt. -/
theorem Taken.withoutAdmission (taken : Taken host admitted noticed state left)
    (fits : state.Completable host admitted noticed) {admission : ReceiptAdmission}
    (accepted : admitted admission) :
    Taken host admitted noticed state (left.withoutAdmission admission) ∧
      Releases left (left.withoutAdmission admission) ∧
      AdmissionDone admission (left.withoutAdmission admission) := by
  unfold State.withoutAdmission
  cases found : admittedEntry left admission with
  | some entry =>
      obtain ⟨held, rfl⟩ := admittedEntry_eq_some.mp found
      have counted := taken.release_counted fits held
      refine ⟨taken.lose fits held (.inl accepted) (.single (.entry held))
        (State.holds_release_iff_ne held) (State.release_gaps _ _) counted, .single (.entry held),
        fun other kept => ((State.holds_release held).mp kept).2, ?_⟩
      rw [counted]
      exact fun same => absurd ((if_pos rfl).symm.trans same).symm (Option.some_ne_none _)
  | none =>
      have absent : ∀ entry, left.Holds entry → entry.admission ≠ admission := by
        intro entry held same
        rw [admittedEntry_eq_some.mpr ⟨held, same⟩] at found
        cases found
      simp only
      split
      · rename_i counted
        refine ⟨taken.forget accepted counted fun entry held same => ?_, .single .counted,
          absent, ?_⟩
        · exact absent entry held (fits.fits admission entry accepted
            (taken.releases.kept.1 entry held) same.symm).symm
        · intro found
          change (left.countedPendingExpirations.erase _).get? _ = _ at found
          rw [OrdMap.get?_erase, if_pos rfl] at found
          cases found
      · rename_i uncounted
        exact ⟨taken, .refl, absent, uncounted⟩

/-- One notice of a receipt. -/
theorem Taken.withoutNotice (taken : Taken host admitted noticed state left)
    (fits : state.Completable host admitted noticed) {noticeId : RecordId}
    (accepted : noticed noticeId) :
    Taken host admitted noticed state (left.withoutNotice host noticeId) ∧
      Releases left (left.withoutNotice host noticeId) ∧
      NoticeDone host state noticeId (left.withoutNotice host noticeId) := by
  have keyed := taken.releases.keyed fits.keyed
  unfold State.withoutNotice
  cases found : left.gaps.get? noticeId with
  | some gap =>
      have drops : Releases left (left.dropGap noticeId gap) := .single (.gap found)
      have after : (left.dropGap noticeId gap).gaps = left.gaps.erase noticeId := rfl
      refine ⟨⟨taken.releases.trans drops, taken.kept, fun id other there => ?_, taken.counts,
        taken.held, taken.gone⟩, drops, ⟨by rw [after, OrdMap.get?_erase, if_pos rfl],
        fun entry _ _ absent => ?_⟩⟩
      · rw [after, OrdMap.get?_erase]
        split
        · rename_i same
          exact .inr (same ▸ accepted)
        · exact taken.gaps id other there
      · rw [taken.releases.kept.2.1 noticeId gap found] at absent
        cases absent
  | none =>
      simp only
      cases backed : expiredBacking host left noticeId with
      | none =>
          refine ⟨taken, .refl, found, fun entry held named _ => ?_⟩
          have unlike := List.find?_eq_none.mp backed entry (OrdMap.mem_values_iff.mpr ⟨_, held⟩)
          simp only [Bool.and_eq_true, decide_eq_true_eq, not_and] at unlike
          rw [Bool.eq_false_iff, OrdMap.contains, ← taken.held entry held]
          exact fun counted => unlike counted named
      | some entry =>
          obtain ⟨held, counted, named⟩ := expiredBacking_eq_some keyed backed
          have released : left.withoutAdmission entry.admission = left.release entry := by
            rw [State.withoutAdmission, admittedEntry_eq_some.mpr ⟨held, rfl⟩]
          simp only [released]
          have before := taken.releases.kept.1 entry held
          have counts : state.countedPendingExpirations.contains entry.spoolSeq = true := by
            rwa [OrdMap.contains, ← taken.held entry held]
          have leaves : state.Leaves host admitted noticed entry := by
            cases stands : state.gaps.get? (entry.retentionNoticeId host) with
            | none => exact .inr ⟨counts, named ▸ accepted, stands⟩
            | some gap =>
                exact .inl (fits.whole entry gap before counts (named ▸ accepted) stands)
          have drops : Releases left ((left.release entry).forgetCounted entry.spoolSeq) :=
            .tail (.single (.entry held)) .counted
          have entries := State.holds_release_iff_ne held
          refine ⟨taken.lose fits held leaves drops entries (State.release_gaps _ _) fun s => ?_,
            drops, ?_, fun other kept same _ => ?_⟩
          · change ((left.release entry).countedPendingExpirations.erase _).get? s = _
            rw [OrdMap.get?_erase, taken.release_counted fits held]
            split <;> rfl
          · change (left.release entry).gaps.get? noticeId = none
            rw [State.release_gaps]
            exact found
          · obtain ⟨kept, different⟩ := (entries other).mp kept
            have earlier := taken.releases.kept.1 other kept
            exact absurd (fits.single other entry earlier before
              (fits.notices other entry earlier before (same.trans named.symm))) different

/-! ### Whole receipts -/

/-- Taking accepted admissions takes from the state what they name. -/
theorem Taken.foldl_withoutAdmission (fits : state.Completable host admitted noticed)
    {admissions : List ReceiptAdmission} (accepted : ∀ admission ∈ admissions, admitted admission)
    (taken : Taken host admitted noticed state left) :
    Taken host admitted noticed state (admissions.foldl State.withoutAdmission left) ∧
      Releases left (admissions.foldl State.withoutAdmission left) ∧
      ∀ admission ∈ admissions,
        AdmissionDone admission (admissions.foldl State.withoutAdmission left) := by
  induction admissions generalizing left with
  | nil => exact ⟨taken, .refl, fun _ inside => absurd inside List.not_mem_nil⟩
  | cons admission rest ih =>
      obtain ⟨first, drops, done⟩ := taken.withoutAdmission fits
        (accepted admission List.mem_cons_self)
      obtain ⟨last, later, others⟩ := ih
        (fun other inside => accepted other (List.mem_cons_of_mem _ inside)) first
      refine ⟨last, drops.trans later, fun other inside => ?_⟩
      rcases List.mem_cons.mp inside with rfl | inside
      · exact done.later later
      · exact others other inside

/-- So does taking accepted notices. -/
theorem Taken.foldl_withoutNotice (fits : state.Completable host admitted noticed)
    {noticeIds : List RecordId} (accepted : ∀ noticeId ∈ noticeIds, noticed noticeId)
    (taken : Taken host admitted noticed state left) :
    Taken host admitted noticed state (noticeIds.foldl (State.withoutNotice host) left) ∧
      Releases left (noticeIds.foldl (State.withoutNotice host) left) ∧
      ∀ noticeId ∈ noticeIds,
        NoticeDone host state noticeId (noticeIds.foldl (State.withoutNotice host) left) := by
  induction noticeIds generalizing left with
  | nil => exact ⟨taken, .refl, fun _ inside => absurd inside List.not_mem_nil⟩
  | cons noticeId rest ih =>
      obtain ⟨first, drops, done⟩ := taken.withoutNotice fits (accepted noticeId List.mem_cons_self)
      obtain ⟨last, later, others⟩ := ih
        (fun other inside => accepted other (List.mem_cons_of_mem _ inside)) first
      refine ⟨last, drops.trans later, fun other inside => ?_⟩
      rcases List.mem_cons.mp inside with rfl | inside
      · exact done.later later
      · exact others other inside

/-- Everything the receipt accepts has been completed. -/
structure ReceiptDone (host : Host) (state : State) (receipt : AckReceipt) (left : State) :
    Prop where
  admissions : ∀ admission ∈ receipt.acceptedAdmissions, AdmissionDone admission left
  notices : ∀ noticeId ∈ receipt.acceptedGapNoticeIds, NoticeDone host state noticeId left

theorem ReceiptDone.later {receipt : AckReceipt} (done : ReceiptDone host state receipt left)
    (releases : Releases left late) : ReceiptDone host state receipt late :=
  ⟨fun admission inside => (done.admissions admission inside).later releases,
    fun noticeId inside => (done.notices noticeId inside).later releases⟩

/-- So does completing a receipt whose parts are accepted. -/
theorem Taken.complete (fits : state.Completable host admitted noticed) {receipt : AckReceipt}
    (admissions : ∀ admission ∈ receipt.acceptedAdmissions, admitted admission)
    (notices : ∀ noticeId ∈ receipt.acceptedGapNoticeIds, noticed noticeId)
    (taken : Taken host admitted noticed state left) :
    Taken host admitted noticed state (left.complete host receipt) ∧
      Releases left (left.complete host receipt) ∧
      ReceiptDone host state receipt (left.complete host receipt) := by
  obtain ⟨first, drops, records⟩ := taken.foldl_withoutAdmission fits admissions
  obtain ⟨last, later, gaps⟩ := first.foldl_withoutNotice fits notices
  exact ⟨last, drops.trans later,
    fun admission inside => (records admission inside).later later, gaps⟩

/-- Some of the receipts accepts the admission. -/
def AdmittedBy (receipts : List AckReceipt) (admission : ReceiptAdmission) : Prop :=
  ∃ receipt ∈ receipts, admission ∈ receipt.acceptedAdmissions

/-- Some of the receipts accepts the notice. -/
def NoticedBy (receipts : List AckReceipt) (noticeId : RecordId) : Prop :=
  ∃ receipt ∈ receipts, noticeId ∈ receipt.acceptedGapNoticeIds

/-- Whatever order the receipts are completed in, and however often. -/
theorem taken_completions {receipts : List AckReceipt}
    (fits : state.Completable host (AdmittedBy receipts) (NoticedBy receipts))
    {order : List AckReceipt} (within : ∀ receipt ∈ order, receipt ∈ receipts)
    (taken : Taken host (AdmittedBy receipts) (NoticedBy receipts) state left) :
    Taken host (AdmittedBy receipts) (NoticedBy receipts) state
        (order.foldl (State.complete host) left) ∧
      Releases left (order.foldl (State.complete host) left) ∧
      ∀ receipt ∈ order, ReceiptDone host state receipt (order.foldl (State.complete host) left) := by
  induction order generalizing left with
  | nil => exact ⟨taken, .refl, fun _ inside => absurd inside List.not_mem_nil⟩
  | cons receipt rest ih =>
      have known := within receipt List.mem_cons_self
      obtain ⟨first, drops, done⟩ := taken.complete fits
        (fun admission inside => ⟨receipt, known, inside⟩)
        fun noticeId inside => ⟨receipt, known, inside⟩
      obtain ⟨last, later, others⟩ := ih
        (fun other inside => within other (List.mem_cons_of_mem _ inside)) first
      refine ⟨last, drops.trans later, fun other inside => ?_⟩
      rcases List.mem_cons.mp inside with rfl | inside
      · exact done.later later
      · exact others other inside

/-! ### What is left -/

/-- What is held, once everything is done, is what nothing accepted names. -/
theorem Taken.holds_iff (taken : Taken host admitted noticed state left)
    (admissions : ∀ admission, admitted admission → AdmissionDone admission left)
    (notices : ∀ noticeId, noticed noticeId → NoticeDone host state noticeId left)
    (entry : Entry) :
    left.Holds entry ↔ state.Holds entry ∧ ¬ state.Leaves host admitted noticed entry := by
  constructor
  · refine fun kept => ⟨taken.releases.kept.1 entry kept, ?_⟩
    rintro (accepted | ⟨counted, named, absent⟩)
    · exact (admissions _ accepted).entry entry kept rfl
    · rw [(notices _ named).backing entry kept rfl absent] at counted
      cases counted
  · exact fun facts => (taken.kept entry facts.1).resolve_right facts.2

/-- The gaps left are those no notice names. -/
theorem Taken.gaps_iff (taken : Taken host admitted noticed state left)
    (notices : ∀ noticeId, noticed noticeId → NoticeDone host state noticeId left)
    (noticeId : RecordId) (gap : GapEntry) :
    left.gaps.get? noticeId = some gap ↔
      state.gaps.get? noticeId = some gap ∧ ¬ noticed noticeId := by
  constructor
  · refine fun kept => ⟨taken.releases.kept.2.1 noticeId gap kept, fun named => ?_⟩
    rw [(notices _ named).gap] at kept
    cases kept
  · exact fun facts => (taken.gaps noticeId gap facts.1).resolve_right facts.2

/-- The counts left are those of entries nothing accepted names. -/
theorem Taken.counted_iff (taken : Taken host admitted noticed state left)
    (admissions : ∀ admission, admitted admission → AdmissionDone admission left)
    (notices : ∀ noticeId, noticed noticeId → NoticeDone host state noticeId left)
    (s : Nat) (identity : RecordId) :
    left.countedPendingExpirations.get? s = some identity ↔
      state.countedPendingExpirations.get? s = some identity ∧
        ¬ state.CountLeaves host admitted noticed s identity := by
  constructor
  · refine fun kept => ⟨taken.releases.counted kept, ?_⟩
    rintro (⟨admission, accepted, rfl, rfl⟩ | ⟨entry, held, rfl, named, absent⟩)
    · exact (admissions _ accepted).counted kept
    · have counted : state.countedPendingExpirations.contains entry.spoolSeq = true :=
        OrdMap.contains_iff.mpr ⟨identity, taken.releases.counted kept⟩
      have gone : ¬ left.Holds entry := fun kept =>
        ((taken.holds_iff admissions notices entry).mp kept).2 (.inr ⟨counted, named, absent⟩)
      rw [taken.gone entry held gone] at kept
      cases kept
  · exact fun facts => (taken.counts s identity facts.1).resolve_right facts.2

/-- Completing the same receipts in another order, or more often, leaves the same holdings. -/
theorem completions_sameHoldings {receipts order : List AckReceipt}
    (fits : state.Completable host (AdmittedBy receipts) (NoticedBy receipts))
    (same : ∀ receipt, receipt ∈ order ↔ receipt ∈ receipts) :
    (order.foldl (State.complete host) state).SameHoldings
      (receipts.foldl (State.complete host) state) := by
  obtain ⟨first, -, done⟩ := taken_completions fits (fun _ inside => inside) (.refl state)
  obtain ⟨second, -, done'⟩ := taken_completions fits (fun _ inside => (same _).mp inside)
    (.refl state)
  have admissions : ∀ admission, AdmittedBy receipts admission →
      AdmissionDone admission (receipts.foldl (State.complete host) state) :=
    fun admission ⟨receipt, inside, accepted⟩ => (done receipt inside).admissions _ accepted
  have notices : ∀ noticeId, NoticedBy receipts noticeId →
      NoticeDone host state noticeId (receipts.foldl (State.complete host) state) :=
    fun noticeId ⟨receipt, inside, accepted⟩ => (done receipt inside).notices _ accepted
  have admissions' : ∀ admission, AdmittedBy receipts admission →
      AdmissionDone admission (order.foldl (State.complete host) state) :=
    fun admission ⟨receipt, inside, accepted⟩ =>
      (done' receipt ((same _).mpr inside)).admissions _ accepted
  have notices' : ∀ noticeId, NoticedBy receipts noticeId →
      NoticeDone host state noticeId (order.foldl (State.complete host) state) :=
    fun noticeId ⟨receipt, inside, accepted⟩ =>
      (done' receipt ((same _).mpr inside)).notices _ accepted
  refine first.releases.sameHoldings second.releases (fun entry => ?_) fits.keyed
    (fun noticeId gap => ?_) fun s identity => ?_
  · rw [second.holds_iff admissions' notices', first.holds_iff admissions notices]
  · rw [second.gaps_iff notices', first.gaps_iff notices]
  · rw [second.counted_iff admissions' notices', first.counted_iff admissions notices]

end

end TeslatlasEdge
