/-
Module: TeslatlasEdge.Spool.Removal
Purpose: What completing a receipt takes out of the state, to the item.  Where every sequence stands
  for one pending item, accepting admissions and notices removes the items of their sequences and
  leaves every other entry, gap and count as it was.
Trusted boundary: none
Main exports: Removed, State.OneEach, removed_withoutAdmission, removed_withoutNotice,
  removed_complete
-/
import TeslatlasEdge.Spool.Completion

namespace TeslatlasEdge

open Lib

/-- From one state to the other the pending items of some sequences have gone, and nothing else has:
no other entry, no other gap, and no count but those of entries that have gone. -/
structure Removed (gone : Nat → Prop) (a b : State) : Prop where
  entries : ∀ id entry, b.entries.get? id = some entry ↔
    a.entries.get? id = some entry ∧ ¬ gone entry.spoolSeq
  gaps : ∀ noticeId gap, b.gaps.get? noticeId = some gap ↔
    a.gaps.get? noticeId = some gap ∧ ¬ gone gap.notice.spoolSeq
  counted : ∀ s identity, b.countedPendingExpirations.get? s = some identity ↔
    a.countedPendingExpirations.get? s = some identity ∧
      ¬ (gone s ∧ ∃ entry, a.Holds entry ∧ entry.spoolSeq = s)

/-- Every sequence stands for one pending item, and a notice of an expired entry names one. -/
structure State.OneEach (host : Host) (state : State) : Prop where
  keyed : state.Keyed
  entries : ∀ entry other, state.Holds entry → state.Holds other →
    entry.spoolSeq = other.spoolSeq → entry = other
  gaps : ∀ noticeId gap otherId other, state.gaps.get? noticeId = some gap →
    state.gaps.get? otherId = some other → gap.notice.spoolSeq = other.notice.spoolSeq →
    noticeId = otherId
  apart : ∀ entry noticeId gap, state.Holds entry → state.gaps.get? noticeId = some gap →
    entry.spoolSeq ≠ gap.notice.spoolSeq
  notices : ∀ entry other, state.Holds entry → state.Holds other →
    entry.retentionNoticeId host = other.retentionNoticeId host → entry.spoolSeq = other.spoolSeq

namespace Removed

variable {gone late : Nat → Prop} {host : Host} {a b c : State}

/-- What is held after a removal is what was held and is not gone. -/
theorem holds (removed : Removed gone a b) {entry : Entry} :
    b.Holds entry ↔ a.Holds entry ∧ ¬ gone entry.spoolSeq :=
  removed.entries entry.recordId entry

theorem congr (removed : Removed gone a b) (same : ∀ s, gone s ↔ late s) : Removed late a b := by
  obtain rfl : gone = late := funext fun s => propext (same s)
  exact removed

theorem refl (state : State) : Removed (fun _ => False) state state :=
  ⟨fun _ _ => by simp, fun _ _ => by simp, fun _ _ => by simp⟩

/-- Removals add up. -/
theorem trans (first : Removed gone a b) (second : Removed late b c) :
    Removed (fun s => gone s ∨ late s) a c := by
  refine ⟨fun id entry => ?_, fun noticeId gap => ?_, fun s identity => ?_⟩
  · rw [second.entries, first.entries, not_or, and_assoc]
  · rw [second.gaps, first.gaps, not_or, and_assoc]
  · rw [second.counted, first.counted, and_assoc]
    refine and_congr_right fun _ => ⟨?_, ?_⟩
    · rintro ⟨before, after⟩ ⟨early | late', entry, held, rfl⟩
      · exact before ⟨early, entry, held, rfl⟩
      · by_cases early : gone entry.spoolSeq
        · exact before ⟨early, entry, held, rfl⟩
        · exact after ⟨late', entry, first.holds.mpr ⟨held, early⟩, rfl⟩
    · intro neither
      refine ⟨fun early => neither ⟨.inl early.1, early.2⟩, ?_⟩
      rintro ⟨late', entry, held, rfl⟩
      exact neither ⟨.inr late', entry, (first.holds.mp held).1, rfl⟩

/-- What is left still has one item for each sequence. -/
theorem oneEach (removed : Removed gone a b) (one : a.OneEach host) : b.OneEach host where
  keyed id entry found := one.keyed id entry ((removed.entries id entry).mp found).1
  entries entry other held held' :=
    one.entries entry other (removed.holds.mp held).1 (removed.holds.mp held').1
  gaps noticeId gap otherId other found found' :=
    one.gaps noticeId gap otherId other ((removed.gaps _ _).mp found).1
      ((removed.gaps _ _).mp found').1
  apart entry noticeId gap held found :=
    one.apart entry noticeId gap (removed.holds.mp held).1 ((removed.gaps _ _).mp found).1
  notices entry other held held' :=
    one.notices entry other (removed.holds.mp held).1 (removed.holds.mp held').1

/-- What is removed is a matter of the holdings. -/
theorem of_sameHoldings (removed : Removed gone a b) (same : c.SameHoldings b) :
    Removed gone a c := by
  refine ⟨fun id entry => ?_, fun noticeId gap => ?_, fun s identity => ?_⟩
  · rw [same.entries]
    exact removed.entries id entry
  · rw [same.gaps]
    exact removed.gaps noticeId gap
  · rw [same.counted]
    exact removed.counted s identity

end Removed

/-! ### One item -/

section

variable {host : Host} {state : State}

/-- Releasing an entry removes its sequence. -/
theorem removed_release (one : state.OneEach host) {entry : Entry} (held : state.Holds entry)
    {late : State} (entries : late.entries = state.entries.erase entry.recordId)
    (gaps : late.gaps = state.gaps)
    (counted : ∀ s identity, late.countedPendingExpirations.get? s = some identity ↔
      state.countedPendingExpirations.get? s = some identity ∧ s ≠ entry.spoolSeq) :
    Removed (· = entry.spoolSeq) state late := by
  refine ⟨fun id other => ?_, fun noticeId gap => ?_, fun s identity => ?_⟩
  · rw [entries, OrdMap.get?_erase]
    constructor
    · intro found
      split at found
      · cases found
      · rename_i different
        refine ⟨found, fun same => different ?_⟩
        have held' : state.Holds other := by
          rw [State.Holds, one.keyed id other found]
          exact found
        rw [← one.keyed id other found, one.entries other entry held' held same]
    · rintro ⟨found, different⟩
      rw [if_neg]
      · exact found
      · rintro rfl
        rw [State.Holds, found] at held
        exact different (congrArg Entry.spoolSeq (Option.some.inj held))
  · rw [gaps]
    refine ⟨fun found => ⟨found, fun same => ?_⟩, And.left⟩
    exact one.apart entry noticeId gap held found same.symm
  · rw [counted]
    refine and_congr_right fun _ => not_congr ⟨fun same => ⟨same, entry, held, same.symm⟩, And.left⟩

theorem counted_forgetCounted {state : State} {s t : Nat} {identity : RecordId} :
    (state.forgetCounted s).countedPendingExpirations.get? t = some identity ↔
      state.countedPendingExpirations.get? t = some identity ∧ t ≠ s := by
  change (state.countedPendingExpirations.erase s).get? t = some identity ↔ _
  rw [OrdMap.get?_erase]
  split
  · rename_i same
    simp [same]
  · rename_i different
    simp [different]

/-- An accepted admission of a record that is not counted as expired. -/
theorem removed_withoutAdmission (one : state.OneEach host) {entry : Entry}
    (held : state.Holds entry)
    (live : state.countedPendingExpirations.contains entry.spoolSeq = false) :
    Removed (· = entry.spoolSeq) state (state.withoutAdmission entry.admission) := by
  have uncounted : state.countedPendingExpirations.get? entry.spoolSeq = none := by
    cases found : state.countedPendingExpirations.get? entry.spoolSeq with
    | none => rfl
    | some identity =>
        rw [OrdMap.contains_iff.mpr ⟨identity, found⟩] at live
        cases live
  rw [State.withoutAdmission, admittedEntry_eq_some.mpr ⟨held, rfl⟩]
  refine removed_release one held (state.release_entries entry) (state.release_gaps entry) ?_
  intro s identity
  have same : (state.release entry).countedPendingExpirations =
      state.countedPendingExpirations := by
    unfold State.release
    rw [if_neg (by rw [uncounted]; simp)]
    rfl
  rw [same]
  refine ⟨fun found => ⟨found, ?_⟩, And.left⟩
  rintro rfl
  rw [uncounted] at found
  cases found

/-- An accepted notice of a held gap. -/
theorem removed_dropGap (one : state.OneEach host) {noticeId : RecordId} {gap : GapEntry}
    (found : state.gaps.get? noticeId = some gap) :
    Removed (· = gap.notice.spoolSeq) state (state.withoutNotice host noticeId) := by
  rw [State.withoutNotice, found]
  refine ⟨fun id entry => ?_, fun otherId other => ?_, fun s identity => ?_⟩
  · change state.entries.get? id = some entry ↔ _
    refine ⟨fun held => ⟨held, one.apart entry noticeId gap ?_ found⟩, And.left⟩
    rw [State.Holds, one.keyed id entry held]
    exact held
  · change (state.gaps.erase noticeId).get? otherId = some other ↔ _
    rw [OrdMap.get?_erase]
    split
    · rename_i same
      subst same
      simp +contextual [found, eq_comm]
    · rename_i different
      refine ⟨fun held => ⟨held, fun same => different ?_⟩, And.left⟩
      exact one.gaps otherId other noticeId gap held found same
  · change state.countedPendingExpirations.get? s = some identity ↔ _
    refine ⟨fun counted => ⟨counted, ?_⟩, And.left⟩
    rintro ⟨rfl, entry, held, same⟩
    exact one.apart entry noticeId gap held found same

/-- An accepted notice of an expired entry that is still held. -/
theorem removed_backing (one : state.OneEach host) {entry : Entry} (held : state.Holds entry)
    (counted : state.countedPendingExpirations.contains entry.spoolSeq = true)
    (absent : state.gaps.get? (entry.retentionNoticeId host) = none) :
    Removed (· = entry.spoolSeq) state
      (state.withoutNotice host (entry.retentionNoticeId host)) := by
  have backing : expiredBacking host state (entry.retentionNoticeId host) = some entry := by
    cases found : expiredBacking host state (entry.retentionNoticeId host) with
    | none =>
        have none_of := List.find?_eq_none.mp found entry (OrdMap.mem_values_iff.mpr ⟨_, held⟩)
        rw [counted, Bool.true_and] at none_of
        exact absurd (decide_eq_true_eq.mpr rfl) none_of
    | some other =>
        obtain ⟨held', -, named⟩ := expiredBacking_eq_some one.keyed found
        rw [one.entries other entry held' held (one.notices other entry held' held named)]
  rw [State.withoutNotice, absent]
  simp only [backing]
  rw [State.withoutAdmission, admittedEntry_eq_some.mpr ⟨held, rfl⟩]
  refine removed_release one held ?_ ?_ fun s identity => ?_
  · exact state.release_entries entry
  · exact state.release_gaps entry
  · rw [counted_forgetCounted]
    refine and_congr_left fun different => ?_
    simp only [State.release]
    split
    · rw [counted_forgetCounted]
      exact and_iff_left different
    · exact Iff.rfl

/-! ### The whole receipt -/

/-- Removing items one after another, each of its own sequence. -/
theorem removed_foldl {α : Type} (step : State → α → State) (seq : α → Nat)
    (stands : α → State → Prop)
    (removes : ∀ state item, state.OneEach host → stands item state →
      Removed (· = seq item) state (step state item))
    (keeps : ∀ {a b : State} {s : Nat} {item : α}, Removed (· = s) a b → seq item ≠ s →
      stands item a → stands item b)
    {items : List α} (distinct : (items.map seq).Nodup) (one : state.OneEach host)
    (here : ∀ item ∈ items, stands item state) :
    Removed (· ∈ items.map seq) state (items.foldl step state) := by
  induction items generalizing state with
  | nil => exact (Removed.refl state).congr (by simp)
  | cons item rest ih =>
      obtain ⟨fresh, distinct⟩ := List.nodup_cons.mp distinct
      have first := removes state item one (here item List.mem_cons_self)
      have later := ih distinct (first.oneEach one) fun other inside =>
        keeps first (fun same => fresh (same ▸ List.mem_map_of_mem inside))
          (here other (List.mem_cons_of_mem _ inside))
      refine (first.trans later).congr fun s => ?_
      rw [List.map_cons, List.mem_cons]

/-- What a pending notice stands for: a held gap, or a counted entry without one. -/
def State.Shows (host : Host) (state : State) (notice : GapNoticeV2) : Prop :=
  (∃ gap, state.gaps.get? notice.noticeId = some gap ∧ gap.notice.spoolSeq = notice.spoolSeq) ∨
    state.gaps.get? notice.noticeId = none ∧ ∃ entry, state.Holds entry ∧
      state.countedPendingExpirations.contains entry.spoolSeq = true ∧
      entry.retentionNoticeId host = notice.noticeId ∧ entry.spoolSeq = notice.spoolSeq

/-- What an admission of a live record stands for. -/
def State.HoldsLive (state : State) (admission : ReceiptAdmission) : Prop :=
  ∃ entry, state.Holds entry ∧ entry.admission = admission ∧
    state.countedPendingExpirations.contains entry.spoolSeq = false

/-- What is live and not gone stays live. -/
theorem Removed.holdsLive {gone : Nat → Prop} {a b : State} (removed : Removed gone a b)
    {admission : ReceiptAdmission} (other : ¬ gone admission.spoolSeq)
    (live : a.HoldsLive admission) : b.HoldsLive admission := by
  obtain ⟨entry, held, rfl, uncounted⟩ := live
  refine ⟨entry, removed.holds.mpr ⟨held, other⟩, rfl, ?_⟩
  rw [Bool.eq_false_iff] at uncounted ⊢
  intro counted
  obtain ⟨identity, found⟩ := OrdMap.contains_iff.mp counted
  exact uncounted (OrdMap.contains_iff.mpr ⟨identity, ((removed.counted _ _).mp found).1⟩)

/-- A notice that shows and is not gone still shows. -/
theorem Removed.shows {gone : Nat → Prop} {a b : State} (removed : Removed gone a b)
    {notice : GapNoticeV2} (other : ¬ gone notice.spoolSeq) (shows : a.Shows host notice) :
    b.Shows host notice := by
  rcases shows with ⟨gap, found, same⟩ | ⟨absent, entry, held, counted, named, same⟩
  · exact .inl ⟨gap, (removed.gaps _ _).mpr ⟨found, by rwa [same]⟩, same⟩
  · refine .inr ⟨?_, entry, removed.holds.mpr ⟨held, by rwa [same]⟩, ?_, named, same⟩
    · cases found : b.gaps.get? notice.noticeId with
      | none => rfl
      | some gap =>
          rw [((removed.gaps _ _).mp found).1] at absent
          cases absent
    · obtain ⟨identity, found⟩ := OrdMap.contains_iff.mp counted
      refine OrdMap.contains_iff.mpr ⟨identity, (removed.counted _ _).mpr ⟨found, ?_⟩⟩
      rw [same]
      exact fun removed => other removed.1

/-- Completing a receipt over pending items, each sequence named once, removes exactly these. -/
theorem removed_complete (one : state.OneEach host) {receipt : AckReceipt}
    {notices : List GapNoticeV2}
    (named : notices.map (·.noticeId) = receipt.acceptedGapNoticeIds)
    (distinct : (receipt.acceptedAdmissions.map (·.spoolSeq) ++ notices.map (·.spoolSeq)).Nodup)
    (live : ∀ admission ∈ receipt.acceptedAdmissions, state.HoldsLive admission)
    (shown : ∀ notice ∈ notices, state.Shows host notice) :
    Removed (· ∈ receipt.acceptedAdmissions.map (·.spoolSeq) ++ notices.map (·.spoolSeq)) state
      (state.complete host receipt) := by
  obtain ⟨admitted, noticed, apart⟩ := List.nodup_append.mp distinct
  have first := removed_foldl State.withoutAdmission ReceiptAdmission.spoolSeq
    (fun admission state => state.HoldsLive admission)
    (fun state admission one live => by
      obtain ⟨entry, held, rfl, uncounted⟩ := live
      exact removed_withoutAdmission one held uncounted)
    (fun removed other => removed.holdsLive other) admitted one live
  have second := removed_foldl (fun state notice => state.withoutNotice host notice.noticeId)
    GapNoticeV2.spoolSeq (fun notice state => state.Shows host notice)
    (fun state notice one shows => by
      rcases shows with ⟨gap, found, same⟩ | ⟨absent, entry, held, counted, named, same⟩
      · rw [← same]
        exact removed_dropGap one found
      · rw [← same, ← named]
        exact removed_backing one held counted (by rwa [named]))
    (fun removed other => removed.shows other) noticed (first.oneEach one) fun notice inside =>
      first.shows (fun clash => apart _ clash _ (List.mem_map_of_mem inside) rfl)
        (shown notice inside)
  rw [State.complete, ← named, List.foldl_map]
  exact (first.trans second).congr fun s => List.mem_append.symm

end

end TeslatlasEdge
