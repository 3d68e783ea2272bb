/-
Module: TeslatlasEdge.Spool.Completion
Purpose: The completion of a receipt as a function of the state.  What the sections do to the state
  when they return is computed by it, and it takes away nothing but what the receipt accepts.
Trusted boundary: none
Main exports: State.complete, post_completeReceipt_state, Takes, takes_complete
-/
import TeslatlasEdge.Spool.Changes

namespace TeslatlasEdge

open Lib
open Section

namespace State

/-- `remove_admitted_record` on the state. -/
def withoutAdmission (state : State) (admission : ReceiptAdmission) : State :=
  match admittedEntry state admission with
  | some entry => state.release entry
  | none =>
      if state.countedPendingExpirations.get? admission.spoolSeq = some admission.stableRecordId then
        state.forgetCounted admission.spoolSeq
      else state

/-- The removal of the gap, or of the backing of a gap, that a notice names. -/
def withoutNotice (host : Host) (state : State) (noticeId : RecordId) : State :=
  match state.gaps.get? noticeId with
  | some gap => state.dropGap noticeId gap
  | none =>
      match expiredBacking host state noticeId with
      | none => state
      | some entry => (state.withoutAdmission entry.admission).forgetCounted entry.spoolSeq

/-- `complete_receipt` on the state. -/
def complete (host : Host) (state : State) (receipt : AckReceipt) : State :=
  receipt.acceptedGapNoticeIds.foldl (withoutNotice host)
    (receipt.acceptedAdmissions.foldl withoutAdmission state)

end State

/-! ### It depends on the holdings alone -/

section

variable {a b : State}

/-- States that hold the same find the same entry under an admission. -/
theorem State.SameHoldings.admittedEntry (same : a.SameHoldings b) (admission : ReceiptAdmission) :
    TeslatlasEdge.admittedEntry a admission = TeslatlasEdge.admittedEntry b admission := by
  simp only [TeslatlasEdge.admittedEntry, same.entries]

/-- States that hold the same hold the same after a release. -/
theorem State.SameHoldings.release (same : a.SameHoldings b) (entry : Entry) :
    (a.release entry).SameHoldings (b.release entry) := by
  obtain ⟨entries, stableIndex, gaps, next, bytes, gapBytes, counted⟩ := same
  unfold State.release
  rw [counted]
  split
  · constructor <;>
      simp only [State.dropEntry, State.forgetCounted, entries, stableIndex, gaps, next, bytes,
        gapBytes, counted]
  · constructor <;>
      simp only [State.dropEntry, entries, stableIndex, gaps, next, bytes, gapBytes, counted]

theorem State.SameHoldings.forgetCounted (same : a.SameHoldings b) (s : Nat) :
    (a.forgetCounted s).SameHoldings (b.forgetCounted s) :=
  { same with counted := by simp only [State.forgetCounted, same.counted] }

theorem State.SameHoldings.withoutAdmission (same : a.SameHoldings b)
    (admission : ReceiptAdmission) :
    (a.withoutAdmission admission).SameHoldings (b.withoutAdmission admission) := by
  unfold State.withoutAdmission
  rw [same.admittedEntry]
  cases TeslatlasEdge.admittedEntry b admission with
  | some entry => exact same.release entry
  | none =>
      simp only [same.counted]
      split
      · exact same.forgetCounted _
      · exact same

theorem State.SameHoldings.withoutNotice (same : a.SameHoldings b) (host : Host)
    (noticeId : RecordId) :
    (a.withoutNotice host noticeId).SameHoldings (b.withoutNotice host noticeId) := by
  have backing : expiredBacking host a noticeId = expiredBacking host b noticeId := by
    simp only [expiredBacking, same.entries, same.counted]
  unfold State.withoutNotice
  rw [same.gaps, backing]
  cases b.gaps.get? noticeId with
  | some gap =>
      exact { same with
        gaps := by simp only [State.dropGap, same.gaps]
        pendingGapBytes := by simp only [State.dropGap, same.pendingGapBytes] }
  | none =>
      cases expiredBacking host b noticeId with
      | none => exact same
      | some entry => exact (same.withoutAdmission _).forgetCounted _

/-- They do after any sequence of steps that each keep them alike. -/
theorem State.SameHoldings.foldl {α : Type} {step : State → α → State}
    (keeps : ∀ a b : State, a.SameHoldings b → ∀ item, (step a item).SameHoldings (step b item))
    (same : a.SameHoldings b) (items : List α) :
    (items.foldl step a).SameHoldings (items.foldl step b) := by
  induction items generalizing a b with
  | nil => exact same
  | cons item rest ih => exact ih (keeps a b same item)

/-- They do after completing a receipt. -/
theorem State.SameHoldings.complete {host : Host} (same : a.SameHoldings b)
    (receipt : AckReceipt) :
    (a.complete host receipt).SameHoldings (b.complete host receipt) :=
  .foldl (fun _ _ same => same.withoutNotice host)
    (.foldl (fun _ _ same => same.withoutAdmission) same receipt.acceptedAdmissions)
    receipt.acceptedGapNoticeIds

end

/-! ### The sections compute it -/

section

variable {inner : Inner} {m : Machine}

/-- Removing an accepted record leaves the state without the admission. -/
theorem post_removeAdmittedRecord_state {admission : ReceiptAdmission} :
    Post (removeAdmittedRecord admission) m
      (fun _ m' => m'.state = m.state.withoutAdmission admission) (fun _ m' => m'.state = m.state) := by
  simp only [removeAdmittedRecord, post_bind, post_state, State.withoutAdmission]
  cases admitted : admittedEntry m.state admission with
  | none =>
      simp only [post_bind, post_ite, post_pure, post_modifyState]
      exact ⟨fun counted => (if_pos counted).symm, fun uncounted => (if_neg uncounted).symm⟩
  | some entry =>
      obtain ⟨held, rfl⟩ := admittedEntry_eq_some.mp admitted
      simp only [post_bind]
      refine post_removeFile (fun faults within => ?_) fun _ _ _ _ => rfl
      have state := m.discard_state entry.path
      simp only [post_modifyState, post_bind, post_ite, post_pure, Machine.update, state,
        State.release]
      exact ⟨fun counted => (if_pos counted).symm, fun uncounted => (if_neg uncounted).symm⟩

/-- Completing admissions leaves the state without all of them. -/
theorem post_completeAdmissions_state {admissions : List ReceiptAdmission} {removed : Bool} :
    Post (completeAdmissions admissions removed) m
      (fun _ m' => m'.state = admissions.foldl State.withoutAdmission m.state)
      (fun _ _ => True) := by
  induction admissions generalizing m removed with
  | nil => exact rfl
  | cons admission rest ih =>
      simp only [completeAdmissions, List.foldl_cons]
      refine (post_removeAdmittedRecord_state.mono (fun _ _ same => same)
        fun _ _ _ => trivial).bind fun _ m₁ same => ?_
      rw [← same]
      exact ih

/-- Completing a notice leaves the state without it and without its backing. -/
theorem post_completeNotice_state {noticeId : RecordId} :
    Post (completeNotice inner noticeId) m
      (fun _ m' => m'.state = m.state.withoutNotice inner.host noticeId)
      (fun _ m' => m'.state = m.state) := by
  simp only [completeNotice, post_bind, post_state, State.withoutNotice]
  cases found : m.state.gaps.get? noticeId with
  | some gap =>
      simp only [post_bind, post_modifyState, post_pure]
      refine post_removeFile (fun faults within => ?_) fun _ _ _ _ => rfl
      simp only [Machine.update, Machine.discard_state]
  | none =>
      simp only [removeExpiredGapBacking, post_bind, post_state]
      cases expiredBacking inner.host m.state noticeId with
      | none => exact rfl
      | some backing =>
          simp only [post_bind, post_modifyState, post_pure]
          refine post_removeAdmittedRecord_state.monoOk fun _ m₁ same => ?_
          simp only [Machine.update, same]

/-- Completing notices leaves the state without all of them. -/
theorem post_completeNotices_state {noticeIds : List RecordId} {flags : Bool × Bool} :
    Post (completeNotices inner noticeIds flags) m
      (fun _ m' => m'.state = noticeIds.foldl (State.withoutNotice inner.host) m.state)
      (fun _ _ => True) := by
  induction noticeIds generalizing m flags with
  | nil => exact rfl
  | cons noticeId rest ih =>
      simp only [completeNotices, List.foldl_cons]
      refine (post_completeNotice_state.mono (fun _ _ same => same)
        fun _ _ _ => trivial).bind fun _ m₁ same => ?_
      rw [← same]
      exact ih

/-- Completing a receipt, when it returns, has computed the completed state. -/
theorem post_completeReceipt_state {receipt : AckReceipt} :
    Post (completeReceipt inner receipt) m
      (fun _ m' => m'.state = m.state.complete inner.host receipt) (fun _ _ => True) := by
  simp only [completeReceipt]
  refine post_completeAdmissions_state.bind fun removed m₁ admissions => ?_
  refine post_completeNotices_state.bind fun flags m₂ notices => ?_
  have done : m₂.state = m.state.complete inner.host receipt := by
    rw [notices, admissions]
    rfl
  have finish : ∀ {m₃ : Machine}, m₃.state = m₂.state →
      Post (do syncDirectory; persistCurrentSequenceState inner) m₃
        (fun _ m' => m'.state = m.state.complete inner.host receipt) (fun _ _ => True) := by
    intro m₃ same
    refine (post_syncDirectory_state.mono (fun _ _ kept => kept.trans same)
      fun _ _ _ => trivial).bind fun _ m₄ same' => ?_
    exact post_persistCurrentSequenceState_state.mono
      (fun _ _ kept => (kept.trans same').trans done) fun _ _ _ => trivial
  rw [post_ite]
  exact ⟨fun _ => (post_syncDirectory_state.mono (fun _ _ kept => kept)
    fun _ _ _ => trivial).bind fun _ _ same => finish same, fun _ => finish rfl⟩

end

/-! ### What completion takes away -/

/-- Between two states only items have gone that are accepted: admissions, and notices of gaps or
of counted entries. -/
structure Takes (host : Host) (admissions : List ReceiptAdmission) (notices : List RecordId)
    (a b : State) : Prop where
  keyed : a.Keyed → b.Keyed
  entries : a.Keyed → ∀ entry, a.Holds entry → b.Holds entry ∨ entry.admission ∈ admissions ∨
    a.countedPendingExpirations.contains entry.spoolSeq = true ∧
      entry.retentionNoticeId host ∈ notices
  gaps : ∀ noticeId gap, a.gaps.get? noticeId = some gap →
    b.gaps.get? noticeId = some gap ∨ noticeId ∈ notices
  counted : ∀ s, b.countedPendingExpirations.contains s = true →
    a.countedPendingExpirations.contains s = true

namespace Takes

variable {host : Host} {admissions : List ReceiptAdmission} {notices : List RecordId} {a b c : State}

/-- Taking nothing. -/
theorem refl (state : State) : Takes host admissions notices state state :=
  ⟨fun keyed => keyed, fun _ _ held => .inl held, fun _ _ found => .inl found, fun _ held => held⟩

/-- What is taken in two parts is taken from what was accepted. -/
theorem trans (first : Takes host admissions notices a b)
    (second : Takes host admissions notices b c) : Takes host admissions notices a c := by
  refine ⟨fun keyed => second.keyed (first.keyed keyed), fun keyed entry held => ?_,
    fun noticeId gap found => ?_, fun s counted => first.counted s (second.counted s counted)⟩
  · rcases first.entries keyed entry held with held' | gone
    · rcases second.entries (first.keyed keyed) entry held' with kept | accepted |
        ⟨counted, accepted⟩
      · exact .inl kept
      · exact .inr (.inl accepted)
      · exact .inr (.inr ⟨first.counted _ counted, accepted⟩)
    · exact .inr gone
  · rcases first.gaps noticeId gap found with found' | gone
    · exact second.gaps noticeId gap found'
    · exact .inr gone

theorem forgetCounted (state : State) (s : Nat) :
    Takes host admissions notices state (state.forgetCounted s) :=
  ⟨fun keyed => keyed, fun _ _ held => .inl held, fun _ _ found => .inl found, fun t counted => by
    obtain ⟨identity, found⟩ := OrdMap.contains_iff.mp counted
    exact OrdMap.contains_iff.mpr ⟨identity, OrdMap.get?_of_get?_erase found⟩⟩

/-- Releasing an accepted entry. -/
theorem release {state : State} {entry : Entry} (held : state.Holds entry)
    (accepted : entry.admission ∈ admissions ∨
      state.countedPendingExpirations.contains entry.spoolSeq = true ∧
        entry.retentionNoticeId host ∈ notices) :
    Takes host admissions notices state (state.release entry) := by
  refine ⟨fun keyed id other found => ?_, fun keyed other held' => ?_, fun noticeId gap found => ?_,
    fun s counted => ?_⟩
  · rw [State.release_entries] at found
    exact keyed id other (OrdMap.get?_of_get?_erase found)
  · by_cases same : other.admission = entry.admission
    · obtain rfl := held.eq_of_admission held' same
      exact .inr accepted
    · exact .inl ((State.holds_release held).mpr ⟨held', same⟩)
  · exact .inl (by rwa [State.release_gaps])
  · obtain ⟨identity, found⟩ := OrdMap.contains_iff.mp counted
    refine OrdMap.contains_iff.mpr ⟨identity, ?_⟩
    unfold State.release at found
    split at found
    · exact OrdMap.get?_of_get?_erase found
    · exact found

/-- Taking an accepted admission. -/
theorem withoutAdmission {state : State} {admission : ReceiptAdmission}
    (accepted : admission ∈ admissions) :
    Takes host admissions notices state (state.withoutAdmission admission) := by
  unfold State.withoutAdmission
  cases admitted : admittedEntry state admission with
  | some entry =>
      obtain ⟨held, rfl⟩ := admittedEntry_eq_some.mp admitted
      exact release held (.inl accepted)
  | none =>
      simp only
      split
      · exact forgetCounted state _
      · exact refl state

/-- Taking an accepted notice, with the entry that backs it. -/
theorem withoutNotice {state : State} (keyed : state.Keyed) {noticeId : RecordId}
    (accepted : noticeId ∈ notices) :
    Takes host admissions notices state (state.withoutNotice host noticeId) := by
  unfold State.withoutNotice
  cases found : state.gaps.get? noticeId with
  | some gap =>
      refine ⟨fun keyed => keyed, fun _ _ held => .inl held, fun id other found' => ?_,
        fun _ counted => counted⟩
      by_cases same : id = noticeId
      · exact .inr (same ▸ accepted)
      · refine .inl ?_
        change (state.gaps.erase noticeId).get? id = some other
        rw [OrdMap.get?_erase, if_neg same]
        exact found'
  | none =>
      simp only
      cases backed : expiredBacking host state noticeId with
      | none => exact refl state
      | some entry =>
          obtain ⟨held, counted, named⟩ := expiredBacking_eq_some keyed backed
          have released : state.withoutAdmission entry.admission = state.release entry := by
            rw [State.withoutAdmission, admittedEntry_eq_some.mpr ⟨held, rfl⟩]
          simp only [released]
          exact (release held (.inr ⟨counted, named ▸ accepted⟩)).trans (forgetCounted _ _)

end Takes

/-- Taking accepted admissions one by one. -/
theorem takes_foldl_withoutAdmission {host : Host} {admissions accepted : List ReceiptAdmission}
    {notices : List RecordId} {state : State} (within : ∀ a ∈ accepted, a ∈ admissions) :
    Takes host admissions notices state (accepted.foldl State.withoutAdmission state) := by
  induction accepted generalizing state with
  | nil => exact .refl state
  | cons admission rest ih =>
      exact (Takes.withoutAdmission (within admission List.mem_cons_self)).trans
        (ih fun a inside => within a (List.mem_cons_of_mem _ inside))

/-- Taking accepted notices one by one. -/
theorem takes_foldl_withoutNotice {host : Host} {admissions : List ReceiptAdmission}
    {notices accepted : List RecordId} {state : State} (keyed : state.Keyed)
    (within : ∀ id ∈ accepted, id ∈ notices) :
    Takes host admissions notices state (accepted.foldl (State.withoutNotice host) state) := by
  induction accepted generalizing state with
  | nil => exact .refl state
  | cons noticeId rest ih =>
      have first := @Takes.withoutNotice host admissions notices state keyed noticeId
        (within noticeId List.mem_cons_self)
      exact first.trans (ih (first.keyed keyed) fun id inside =>
        within id (List.mem_cons_of_mem _ inside))

section

variable {inner : Inner} {admissions : List ReceiptAdmission} {notices : List RecordId}
  {start : State}

/-- From a state on, nothing has gone but what is accepted. -/
abbrev TakesOnly (host : Host) (admissions : List ReceiptAdmission) (notices : List RecordId)
    (start : State) (m : Machine) : Prop :=
  m.state.Keyed ∧ Takes host admissions notices start m.state

theorem takesOnly_removeAdmittedRecord {admission : ReceiptAdmission}
    (accepted : admission ∈ admissions) :
    Preserves (TakesOnly inner.host admissions notices start) (fun _ => True)
      (removeAdmittedRecord admission) := by
  rintro m ⟨keyed, takes⟩
  refine post_removeAdmittedRecord_state.mono (fun _ m₁ same => ?_) fun _ m₁ same => ?_
  · have step := @Takes.withoutAdmission inner.host admissions notices m.state admission accepted
    rw [← same] at step
    exact ⟨step.keyed keyed, takes.trans step⟩
  · rw [TakesOnly, same]
    exact ⟨trivial, keyed, takes⟩

/-- Completing admissions takes from the state what was accepted, wherever it stops. -/
theorem takesOnly_completeAdmissions {accepted : List ReceiptAdmission} {removed : Bool}
    (within : ∀ a ∈ accepted, a ∈ admissions) :
    Preserves (TakesOnly inner.host admissions notices start) (fun _ => True)
      (completeAdmissions accepted removed) := by
  induction accepted generalizing removed with
  | nil => exact .pure _
  | cons admission rest ih =>
      exact (takesOnly_removeAdmittedRecord (within admission List.mem_cons_self)).bind fun _ =>
        ih fun a inside => within a (List.mem_cons_of_mem _ inside)

theorem takesOnly_completeNotice {noticeId : RecordId} (accepted : noticeId ∈ notices) :
    Preserves (TakesOnly inner.host admissions notices start) (fun _ => True)
      (completeNotice inner noticeId) := by
  rintro m ⟨keyed, takes⟩
  refine post_completeNotice_state.mono (fun _ m₁ same => ?_) fun _ m₁ same => ?_
  · have step := @Takes.withoutNotice inner.host admissions notices m.state keyed noticeId accepted
    rw [← same] at step
    exact ⟨step.keyed keyed, takes.trans step⟩
  · rw [TakesOnly, same]
    exact ⟨trivial, keyed, takes⟩

/-- So does completing notices. -/
theorem takesOnly_completeNotices {accepted : List RecordId} {flags : Bool × Bool}
    (within : ∀ id ∈ accepted, id ∈ notices) :
    Preserves (TakesOnly inner.host admissions notices start) (fun _ => True)
      (completeNotices inner accepted flags) := by
  induction accepted generalizing flags with
  | nil => exact .pure _
  | cons noticeId rest ih =>
      exact (takesOnly_completeNotice (within noticeId List.mem_cons_self)).bind fun _ =>
        ih fun id inside => within id (List.mem_cons_of_mem _ inside)

/-- However the completion of a receipt ends, it has taken away only what the receipt accepts. -/
theorem takesOnly_completeReceipt (receipt : AckReceipt) :
    Preserves
      (TakesOnly inner.host receipt.acceptedAdmissions receipt.acceptedGapNoticeIds start)
      (fun _ => True) (completeReceipt inner receipt) := by
  have sync : Preserves
      (TakesOnly inner.host receipt.acceptedAdmissions receipt.acceptedGapNoticeIds start)
      (fun _ => True) syncDirectory := by
    intro m only
    refine post_syncDirectory_state.mono (fun _ _ same => ?_) fun _ _ same => ?_
    · rwa [TakesOnly, same]
    · rw [TakesOnly, same]
      exact ⟨trivial, only⟩
  have persist : Preserves
      (TakesOnly inner.host receipt.acceptedAdmissions receipt.acceptedGapNoticeIds start)
      (fun _ => True) (persistCurrentSequenceState inner) := by
    intro m only
    refine post_persistCurrentSequenceState_state.mono (fun _ _ same => ?_) fun _ _ same => ?_
    · rwa [TakesOnly, same]
    · rw [TakesOnly, same]
      exact ⟨trivial, only⟩
  refine (takesOnly_completeAdmissions fun _ inside => inside).bind fun _ =>
    (takesOnly_completeNotices fun _ inside => inside).bind fun flags => ?_
  exact .ite (sync.bind fun _ => sync.bind fun _ => persist) (sync.bind fun _ => persist)

end

/-- A completed receipt has taken away only what it accepts. -/
theorem takes_complete {host : Host} {state : State} (keyed : state.Keyed) (receipt : AckReceipt) :
    Takes host receipt.acceptedAdmissions receipt.acceptedGapNoticeIds state
      (state.complete host receipt) := by
  have first : Takes host receipt.acceptedAdmissions receipt.acceptedGapNoticeIds state
      (receipt.acceptedAdmissions.foldl State.withoutAdmission state) :=
    takes_foldl_withoutAdmission fun _ inside => inside
  exact first.trans (takes_foldl_withoutNotice (first.keyed keyed) fun _ inside => inside)

end TeslatlasEdge
