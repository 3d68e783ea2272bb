/-
Module: TeslatlasEdge.Spool.Coherence
Purpose: The invariant that ties the maps, the counters and the running sums of the in-memory state
  together.  Coherence and range survive every change; that entries and gaps stay apart and that
  counts stay backed survives every change that is not torn.
Trusted boundary: none
Main exports: FaithfulIds, Coherent, Ranged, CountedHeld, State.Apart, Agrees, Changes.coherent,
  Changes.agrees
-/
import TeslatlasEdge.Spool.Changes

namespace TeslatlasEdge

open Lib

/-- Among the offered envelopes a record identity determines the stable identity: the digests do not
collide. -/
def FaithfulIds (host : Host) (offered : Nat → Envelope → Prop) : Prop :=
  ∀ s a t b, offered s a → offered t b → a.recordId host = b.recordId host →
    a.stableRecordId host = b.stableRecordId host

/-- Identities that are faithful for more offers are faithful for fewer. -/
theorem FaithfulIds.offering {host : Host} {offered permitted : Nat → Envelope → Prop}
    (faithful : FaithfulIds host permitted)
    (weaker : ∀ s envelope, offered s envelope → permitted s envelope) :
    FaithfulIds host offered := fun s a t b offer offer' =>
  faithful s a t b (weaker _ _ offer) (weaker _ _ offer')

/-- The maps and sums of a state agree with each other. -/
structure Coherent (host : Host) (offered : Nat → Envelope → Prop) (state : State) : Prop where
  keyed : state.Keyed
  gapKeyed : ∀ noticeId gap, state.gaps.get? noticeId = some gap → gap.notice.noticeId = noticeId
  entryOnce : ∀ entry other, state.Holds entry → state.Holds other →
    entry.spoolSeq = other.spoolSeq → entry = other
  gapOnce : ∀ noticeId gap noticeId' gap', state.gaps.get? noticeId = some gap →
    state.gaps.get? noticeId' = some gap' → gap.notice.spoolSeq = gap'.notice.spoolSeq →
    noticeId = noticeId'
  stable : ∀ stableRecordId recordId,
    state.stableIndex.get? stableRecordId = some recordId ↔
      ∃ entry, state.Holds entry ∧ entry.recordId = recordId ∧
        entry.stableRecordId = stableRecordId
  origin : ∀ entry, state.Holds entry → ∃ s envelope, offered s envelope ∧
    entry.recordId = envelope.recordId host ∧ entry.stableRecordId = envelope.stableRecordId host
  pendingBytes : state.pendingBytes = state.entries.sumOf (·.encryptedBytes)
  pendingGapBytes : state.pendingGapBytes = state.gaps.sumOf (·.encryptedBytes)

/-- Every sequence in the state has been handed out. -/
structure Ranged (state : State) : Prop where
  next : 1 ≤ state.nextSpoolSequence
  entries : ∀ entry, state.Holds entry →
    1 ≤ entry.spoolSeq ∧ entry.spoolSeq < state.nextSpoolSequence
  gaps : ∀ noticeId gap, state.gaps.get? noticeId = some gap →
    1 ≤ gap.notice.spoolSeq ∧ gap.notice.spoolSeq < state.nextSpoolSequence

/-- Every counted expiration is backed by its entry. -/
def CountedHeld (state : State) : Prop :=
  ∀ s identity, state.countedPendingExpirations.get? s = some identity →
    ∃ entry, state.Holds entry ∧ entry.spoolSeq = s ∧ entry.stableRecordId = identity

/-- A saturating sum within a limit below the bound is the sum. -/
theorem saturatingAdd_eq {a b limit : Nat} (fits : saturatingAdd a b ≤ limit)
    (below : limit < u64Max) : saturatingAdd a b = a + b := by
  unfold saturatingAdd at fits ⊢
  rcases Nat.le_total (a + b) u64Max with small | large
  · exact Nat.min_eq_left small
  · rw [Nat.min_eq_right large] at fits
    exact absurd below (not_lt.mpr fits)

/-- The state a spool begins with is coherent. -/
theorem coherent_initial (host : Host) (offered : Nat → Envelope → Prop) :
    Coherent host offered .initial := by
  have noEntry : ∀ entry, ¬ State.initial.Holds entry := by
    intro entry held
    rw [State.Holds, State.initial, OrdMap.get?_empty] at held
    cases held
  have noGap : ∀ noticeId gap, ¬ State.initial.gaps.get? noticeId = some gap := by
    intro noticeId gap found
    rw [State.initial, OrdMap.get?_empty] at found
    cases found
  refine ⟨?_, fun id gap found => absurd found (noGap id gap),
    fun entry _ held => absurd held (noEntry entry),
    fun id gap _ _ found => absurd found (noGap id gap), fun _ _ => ?_,
    fun entry held => absurd held (noEntry entry), rfl, rfl⟩
  · intro id entry found
    rw [State.initial, OrdMap.get?_empty] at found
    cases found
  · constructor
    · intro found
      rw [State.initial, OrdMap.get?_empty] at found
      cases found
    · rintro ⟨entry, held, -⟩
      exact absurd held (noEntry entry)

/-- Dropping an entry drops that entry only. -/
theorem State.holds_dropEntry {state : State} {entry other : Entry} (held : state.Holds entry) :
    (state.dropEntry entry).Holds other ↔ state.Holds other ∧ other ≠ entry := by
  simp only [State.Holds, State.dropEntry, OrdMap.get?_erase]
  constructor
  · intro found
    split at found
    · cases found
    · rename_i different
      exact ⟨found, fun same => different (by rw [same])⟩
  · rintro ⟨found, different⟩
    rw [if_neg]
    · exact found
    · intro same
      rw [same, held] at found
      exact different (Option.some.inj found).symm

namespace Coherent

variable {host : Host} {offered : Nat → Envelope → Prop} {state : State}

/-- A held entry is the only one with its stable identity. -/
theorem stable_unique (coherent : Coherent host offered state) {entry other : Entry}
    (held : state.Holds entry) (held' : state.Holds other)
    (same : entry.stableRecordId = other.stableRecordId) : entry = other := by
  have mine := (coherent.stable _ _).mpr ⟨entry, held, rfl, rfl⟩
  have yours := (coherent.stable _ _).mpr ⟨other, held', rfl, rfl⟩
  rw [same, yours] at mine
  rw [State.Holds, ← Option.some.inj mine, held'] at held
  exact (Option.some.inj held).symm

/-- Dropping a held entry keeps the state coherent. -/
theorem dropEntry (coherent : Coherent host offered state) {entry : Entry}
    (held : state.Holds entry) : Coherent host offered (state.dropEntry entry) := by
  have holds : ∀ other, (state.dropEntry entry).Holds other ↔ state.Holds other ∧ other ≠ entry :=
    fun other => State.holds_dropEntry held
  refine ⟨?_, coherent.gapKeyed, ?_, coherent.gapOnce, ?_, ?_, ?_, coherent.pendingGapBytes⟩
  · intro id other found
    simp only [State.dropEntry, OrdMap.get?_erase] at found
    split at found
    · cases found
    · exact coherent.keyed id other found
  · intro a b heldA heldB
    exact coherent.entryOnce a b ((holds a).mp heldA).1 ((holds b).mp heldB).1
  · intro stableRecordId recordId
    have known := coherent.stable stableRecordId recordId
    simp only [holds]
    simp only [State.dropEntry, OrdMap.get?_erase]
    split
    · rename_i same
      refine ⟨(by simp), ?_⟩
      rintro ⟨other, ⟨held', different⟩, -, same'⟩
      exact absurd (coherent.stable_unique held' held (same'.trans same)) different
    · rename_i different
      rw [known]
      constructor
      · rintro ⟨other, held', id, stable⟩
        refine ⟨other, ⟨held', ?_⟩, id, stable⟩
        rintro rfl
        exact different stable.symm
      · rintro ⟨other, ⟨held', -⟩, id, stable⟩
        exact ⟨other, held', id, stable⟩
  · intro other held'
    exact coherent.origin other ((holds other).mp held').1
  · have sum := OrdMap.sumOf_erase_of_get? (·.encryptedBytes) held
    have total := coherent.pendingBytes
    simp only [State.dropEntry, saturatingSub]
    omega

theorem forgetCounted (coherent : Coherent host offered state) (s : Nat) :
    Coherent host offered (state.forgetCounted s) := { coherent with }

/-- Releasing a held entry keeps it coherent. -/
theorem release (coherent : Coherent host offered state) {entry : Entry}
    (held : state.Holds entry) : Coherent host offered (state.release entry) := by
  unfold State.release
  split
  · exact (coherent.dropEntry held).forgetCounted _
  · exact coherent.dropEntry held

/-- Dropping a gap that is there keeps it coherent. -/
theorem dropGap (coherent : Coherent host offered state) {noticeId : RecordId} {gap : GapEntry}
    (held : state.gaps.get? noticeId = some gap) :
    Coherent host offered (state.dropGap noticeId gap) := by
  have kept : ∀ id other, (state.gaps.erase noticeId).get? id = some other →
      state.gaps.get? id = some other := by
    intro id other found
    rw [OrdMap.get?_erase] at found
    split at found
    · cases found
    · exact found
  refine ⟨coherent.keyed, ?_, coherent.entryOnce, ?_, coherent.stable, coherent.origin,
    coherent.pendingBytes, ?_⟩
  · intro id other found
    exact coherent.gapKeyed id other (kept id other found)
  · intro id other id' other' found found'
    exact coherent.gapOnce id other id' other' (kept id other found) (kept id' other' found')
  · have sum := OrdMap.sumOf_erase_of_get? (·.encryptedBytes) held
    have total := coherent.pendingGapBytes
    simp only [State.dropGap, saturatingSub]
    omega

/-- Recording the first gap of a sequence keeps it coherent, if its bytes fit. -/
theorem recordGap (coherent : Coherent host offered state) {notice : GapNoticeV2}
    {encryptedBytes limit : Nat} {path : Path}
    (absent : state.gaps.get? notice.noticeId = none)
    (single : ¬ state.HoldsGapFor notice.spoolSeq)
    (bytes : saturatingAdd state.pendingGapBytes encryptedBytes ≤ limit) (below : limit < u64Max) :
    Coherent host offered (state.recordGap notice encryptedBytes path) := by
  refine ⟨coherent.keyed, ?_, coherent.entryOnce, ?_, coherent.stable, coherent.origin,
    coherent.pendingBytes, ?_⟩
  · intro id gap found
    simp only [State.recordGap, OrdMap.get?_insert] at found
    split at found
    · rename_i here
      rw [here, ← Option.some.inj found]
    · exact coherent.gapKeyed id gap found
  · intro id gap id' gap' found found' same
    simp only [State.recordGap, OrdMap.get?_insert] at found found'
    split at found
    · rename_i here
      split at found'
      · rename_i here'
        rw [here, here']
      · rw [← Option.some.inj found] at same
        exact absurd ⟨id', gap', found', same.symm⟩ single
    · split at found'
      · rw [← Option.some.inj found'] at same
        exact absurd ⟨id, gap, found, same⟩ single
      · exact coherent.gapOnce id gap id' gap' found found' same
  · simp only [State.recordGap]
    rw [saturatingAdd_eq bytes below, OrdMap.sumOf_insert_of_get?_none _ _ absent,
      coherent.pendingGapBytes]

/-- Admitting an entry with identities of its own keeps it coherent. -/
theorem admitEntry (coherent : Coherent host offered state) {entry : Entry} {limit : Nat}
    (absent : state.entries.get? entry.recordId = none)
    (fresh : state.stableIndex.get? entry.stableRecordId = none)
    (single : ∀ other, state.Holds other → other.spoolSeq ≠ entry.spoolSeq)
    (source : ∃ s envelope, offered s envelope ∧ entry.recordId = envelope.recordId host ∧
      entry.stableRecordId = envelope.stableRecordId host)
    (bytes : saturatingAdd state.pendingBytes entry.encryptedBytes ≤ limit)
    (below : limit < u64Max) : Coherent host offered (state.admitEntry entry) := by
  have holds : ∀ other, (state.admitEntry entry).Holds other ↔ state.Holds other ∨ other = entry := by
    intro other
    simp only [State.Holds, State.admitEntry, OrdMap.get?_insert]
    constructor
    · intro found
      split at found
      · exact .inr (Option.some.inj found).symm
      · exact .inl found
    · rintro (found | rfl)
      · rw [if_neg]
        · exact found
        · intro same
          rw [same, absent] at found
          cases found
      · rw [if_pos rfl]
  refine ⟨?_, coherent.gapKeyed, ?_, coherent.gapOnce, ?_, ?_, ?_, coherent.pendingGapBytes⟩
  · intro id other found
    simp only [State.admitEntry, OrdMap.get?_insert] at found
    split at found
    · rename_i here
      rw [here, ← Option.some.inj found]
    · exact coherent.keyed id other found
  · intro a b heldA heldB same
    rcases (holds a).mp heldA with oldA | newA
    · rcases (holds b).mp heldB with oldB | newB
      · exact coherent.entryOnce a b oldA oldB same
      · rw [newB] at same
        exact absurd same (single a oldA)
    · rcases (holds b).mp heldB with oldB | newB
      · rw [newA] at same
        exact absurd same.symm (single b oldB)
      · rw [newA, newB]
  · intro stableRecordId recordId
    have known := coherent.stable stableRecordId recordId
    simp only [holds]
    simp only [State.admitEntry, OrdMap.get?_insert]
    split
    · rename_i here
      constructor
      · intro same
        exact ⟨entry, .inr rfl, Option.some.inj same, here.symm⟩
      · rintro ⟨other, held | rfl, id, stable⟩
        · have found := (coherent.stable _ _).mpr ⟨other, held, id, stable⟩
          rw [here, fresh] at found
          cases found
        · rw [id]
    · rename_i different
      rw [known]
      constructor
      · rintro ⟨other, held, facts⟩
        exact ⟨other, .inl held, facts⟩
      · rintro ⟨other, held | rfl, id, stable⟩
        · exact ⟨other, held, id, stable⟩
        · exact absurd stable.symm different
  · intro other held
    rcases (holds other).mp held with held | rfl
    · exact coherent.origin other held
    · exact source
  · simp only [State.admitEntry]
    rw [saturatingAdd_eq bytes below, OrdMap.sumOf_insert_of_get?_none _ _ absent,
      coherent.pendingBytes]

/-- An identity whose stable form is not indexed is not held. -/
theorem absent_of_stable_absent (coherent : Coherent host offered state)
    (faithful : FaithfulIds host offered) {s : Nat} {envelope : Envelope}
    (offer : offered s envelope)
    (fresh : state.stableIndex.get? (envelope.stableRecordId host) = none) :
    state.entries.get? (envelope.recordId host) = none := by
  cases found : state.entries.get? (envelope.recordId host) with
  | none => rfl
  | some entry =>
      have id := coherent.keyed _ _ found
      have held : state.Holds entry := by
        rw [State.Holds, id]
        exact found
      obtain ⟨t, other, offer', same, stable⟩ := coherent.origin entry held
      have equal := faithful s envelope t other offer offer' (by rw [← same, id])
      have indexed := (coherent.stable _ _).mpr ⟨entry, held, rfl, stable.trans equal.symm⟩
      rw [fresh] at indexed
      cases indexed

end Coherent

/-! ### Changes -/

/-- No sequence has both an entry and a gap. -/
def State.Apart (state : State) : Prop :=
  ∀ entry, state.Holds entry → ¬ state.HoldsGapFor entry.spoolSeq

section

variable {inner : Inner} {offered : Nat → Envelope → Prop} {torn : Prop} {a b : State}

/-- A state with no more in it and the same next number is in range too. -/
theorem Ranged.of_kept {state state' : State} (ranged : Ranged state)
    (next : state'.nextSpoolSequence = state.nextSpoolSequence)
    (entries : ∀ entry, state'.Holds entry → state.Holds entry)
    (gaps : ∀ noticeId gap, state'.gaps.get? noticeId = some gap →
      state.gaps.get? noticeId = some gap) : Ranged state' := by
  refine ⟨by rw [next]; exact ranged.next, fun entry held => ?_, fun noticeId gap found => ?_⟩
  · rw [next]
    exact ranged.entries entry (entries entry held)
  · rw [next]
    exact ranged.gaps noticeId gap (gaps noticeId gap found)

/-- Noting a gap under an entry keeps the state coherent. -/
theorem Noted.coherent {entry : Entry} (note : Noted inner entry a b)
    (below : inner.config.maxBytes < u64Max) (coherent : Coherent inner.host offered a) :
    Coherent inner.host offered b := by
  cases note with
  | already => exact coherent
  | recorded named fits => exact coherent.recordGap fits.absent fits.single fits.bytes below

/-- Noting a gap under a held entry keeps every number in range. -/
theorem Noted.ranged {entry : Entry} (note : Noted inner entry a b) (held : a.Holds entry)
    (ranged : Ranged a) : Ranged b := by
  refine ⟨by rw [note.next]; exact ranged.next, fun other kept => ?_, fun noticeId gap found => ?_⟩
  · rw [note.next]
    exact ranged.entries other (note.holds.mp kept)
  · rw [note.next]
    rcases note.gap found with before | same
    · exact ranged.gaps noticeId gap before
    · rw [same]
      exact ranged.entries entry held

theorem Ranged.release {state : State} (ranged : Ranged state) (entry : Entry) :
    Ranged (state.release entry) := by
  refine ranged.of_kept (State.release_next _ _) (fun other kept => ?_) ?_
  · rw [State.Holds, State.release_entries] at kept
    exact OrdMap.get?_of_get?_erase kept
  · rw [State.release_gaps]
    exact fun _ _ found => found

theorem Release.coherent (release : Release a b) {host : Host} (coherent : Coherent host offered a) :
    Coherent host offered b := by
  cases release with
  | entry held => exact coherent.release held
  | gap held => exact coherent.dropGap held
  | counted => exact coherent.forgetCounted _

/-- Releases keep a state coherent. -/
theorem Releases.coherent (releases : Releases a b) {host : Host}
    (coherent : Coherent host offered a) : Coherent host offered b := by
  induction releases with
  | refl => exact coherent
  | tail _ release ih => exact release.coherent ih

theorem Release.ranged (release : Release a b) (ranged : Ranged a) : Ranged b := by
  obtain ⟨entries, gaps, next⟩ := Releases.kept (.single release)
  exact ranged.of_kept next entries gaps

/-- Every change keeps the numbers in range. -/
theorem Change.ranged (change : Change inner offered torn a b) (ranged : Ranged a) : Ranged b := by
  cases change with
  | released release => exact release.ranged ranged
  | counted => exact { ranged with }
  | admitted offer absent named =>
      subst named
      have positive := ranged.next
      refine ⟨Nat.le_add_left 1 _, fun entry held => ?_, fun noticeId gap found => ?_⟩
      · simp only [State.Holds, State.admitEntry, OrdMap.get?_insert] at held
        simp only
        split at held
        · rw [← Option.some.inj held]
          simp only [Entry.ofEnvelope]
          omega
        · have range := ranged.entries entry held
          omega
      · have range := ranged.gaps noticeId gap found
        simp only
        omega
  | replaced held note => exact (note.ranged held ranged).release _
  | quarantined held note =>
      have noted := note.ranged held ranged
      exact noted.of_kept rfl (fun other kept => OrdMap.get?_of_get?_erase kept)
        fun _ _ found => found
  | tornApart held note => exact note.ranged held ranged
  | elsewhere same =>
      refine ranged.of_kept same.next (fun entry held => ?_) (fun noticeId gap found => ?_)
      · rwa [State.Holds, same.entries] at held
      · rwa [same.gaps] at found

theorem Coherent.elsewhere {host : Host} (coherent : Coherent host offered a)
    (same : b.SameHoldings a) : Coherent host offered b := by
  have holds : ∀ entry, b.Holds entry ↔ a.Holds entry := by
    intro entry
    rw [State.Holds, same.entries, ← State.Holds]
  refine ⟨by rw [State.Keyed, same.entries]; exact coherent.keyed,
    by rw [same.gaps]; exact coherent.gapKeyed, fun entry other held held' =>
      coherent.entryOnce entry other ((holds _).mp held) ((holds _).mp held'),
    by rw [same.gaps]; exact coherent.gapOnce, fun stableRecordId recordId => ?_,
    fun entry held => coherent.origin entry ((holds _).mp held), ?_, ?_⟩
  · rw [same.stableIndex, coherent.stable]
    simp only [holds]
  · rw [same.pendingBytes, same.entries, coherent.pendingBytes]
  · rw [same.pendingGapBytes, same.gaps, coherent.pendingGapBytes]

/-- Every change keeps a coherent state in range coherent. -/
theorem Change.coherent (faithful : FaithfulIds inner.host offered)
    (below : inner.config.maxBytes < u64Max) (change : Change inner offered torn a b)
    (ranged : Ranged a) (coherent : Coherent inner.host offered a) :
    Coherent inner.host offered b := by
  cases change with
  | released release => exact release.coherent coherent
  | counted => exact { coherent with }
  | @admitted envelope admittedAtMs encryptedBytes entry offer absent named bytes =>
      have fresh := coherent.absent_of_stable_absent faithful offer absent
      have admitted : Coherent inner.host offered (a.admitEntry entry) := by
        subst named
        refine coherent.admitEntry fresh absent (fun other held same => ?_) ⟨_, _, offer, rfl, rfl⟩
          bytes below
        have range := (ranged.entries other held).2
        simp only [Entry.ofEnvelope] at same
        omega
      exact { admitted with }
  | replaced held note => exact (note.coherent below coherent).release (note.holds.mpr held)
  | quarantined held note =>
      exact { (note.coherent below coherent).dropEntry (note.holds.mpr held) with }
  | tornApart held note => exact note.coherent below coherent
  | elsewhere same => exact coherent.elsewhere same

/-- Coherence and range survive every sequence of changes, torn or not. -/
theorem Changes.coherent (faithful : FaithfulIds inner.host offered)
    (below : inner.config.maxBytes < u64Max) (changes : Changes inner offered torn a b)
    (ranged : Ranged a) (coherent : Coherent inner.host offered a) :
    Ranged b ∧ Coherent inner.host offered b := by
  refine changes.invariant (I := fun state => Ranged state ∧ Coherent inner.host offered state) ?_
    ⟨ranged, coherent⟩
  rintro a b ⟨ranged, coherent⟩ change
  exact ⟨change.ranged ranged, change.coherent faithful below ranged coherent⟩

/-- Everything the state says agrees. -/
structure Agrees (host : Host) (offered : Nat → Envelope → Prop) (state : State) : Prop where
  coherent : Coherent host offered state
  ranged : Ranged state
  apart : state.Apart
  counted : CountedHeld state

/-- Forgetting entries and gaps sets nothing together. -/
theorem State.Apart.of_kept (apart : a.Apart) (entries : ∀ entry, b.Holds entry → a.Holds entry)
    (gaps : ∀ noticeId gap, b.gaps.get? noticeId = some gap → a.gaps.get? noticeId = some gap) :
    b.Apart := by
  rintro entry held ⟨noticeId, gap, found, same⟩
  exact apart entry (entries entry held) ⟨noticeId, gap, gaps noticeId gap found, same⟩

theorem CountedHeld.forgetCounted (counted : CountedHeld a) (s : Nat) :
    CountedHeld (a.forgetCounted s) :=
  fun t identity found => counted t identity (OrdMap.get?_of_get?_erase found)

/-- A release leaves no expiry counted without its entry. -/
theorem CountedHeld.release (counted : CountedHeld a) {entry : Entry} (held : a.Holds entry) :
    CountedHeld (a.release entry) := by
  intro s identity found
  have before : a.countedPendingExpirations.get? s = some identity ∧ s ≠ entry.spoolSeq ∨
      a.countedPendingExpirations.get? s = some identity ∧
        a.countedPendingExpirations.get? entry.spoolSeq ≠ some entry.stableRecordId := by
    unfold State.release at found
    split at found
    · change (a.countedPendingExpirations.erase _).get? _ = _ at found
      rw [OrdMap.get?_erase] at found
      split at found
      · cases found
      · rename_i different
        exact .inl ⟨found, different⟩
    · rename_i uncounted
      exact .inr ⟨found, uncounted⟩
  have kept : ∀ other, a.Holds other → other.spoolSeq = s → other.stableRecordId = identity →
      other ≠ entry := by
    rintro other held' rfl rfl rfl
    rcases before with ⟨-, different⟩ | ⟨counted, uncounted⟩
    · exact different rfl
    · exact uncounted counted
  obtain ⟨other, held', sequence, stable⟩ := counted s identity
    (before.elim And.left And.left)
  refine ⟨other, (State.holds_release held).mpr ⟨held', fun same => ?_⟩, sequence, stable⟩
  exact kept other held' sequence stable (held.eq_of_admission held' same)

/-- A replacement that is done as a whole keeps entries and gaps apart. -/
theorem Noted.apart {entry : Entry} (note : Noted inner entry a b) (apart : a.Apart) {c : State}
    {host : Host} (coherent : Coherent host offered a) (held : a.Holds entry)
    (entries : ∀ other, c.Holds other → a.Holds other ∧ other ≠ entry) (gaps : c.gaps = b.gaps) :
    c.Apart := by
  rintro other kept ⟨noticeId, gap, found, same⟩
  obtain ⟨before, different⟩ := entries other kept
  rw [gaps] at found
  rcases note.gap found with old | new
  · exact apart other before ⟨noticeId, gap, old, same⟩
  · exact different (coherent.entryOnce other entry before held (same.symm.trans new))

/-- Noting a gap leaves every counted expiry with its entry. -/
theorem Noted.counted_held {entry : Entry} (note : Noted inner entry a b) (counted : CountedHeld a) :
    CountedHeld b := by
  intro s identity found
  rw [note.counted] at found
  obtain ⟨other, held, facts⟩ := counted s identity found
  exact ⟨other, note.holds.mpr held, facts⟩

theorem Release.agrees (release : Release a b) {host : Host} (agrees : Agrees host offered a) :
    Agrees host offered b := by
  obtain ⟨entries, gaps, -⟩ := Releases.kept (.single release)
  refine ⟨release.coherent agrees.coherent, release.ranged agrees.ranged,
    agrees.apart.of_kept entries gaps, ?_⟩
  cases release with
  | entry held => exact agrees.counted.release held
  | gap => exact agrees.counted
  | counted => exact agrees.counted.forgetCounted _

/-- Agreement survives every change that is not torn. -/
theorem Change.agrees (faithful : FaithfulIds inner.host offered)
    (below : inner.config.maxBytes < u64Max) (change : Change inner offered False a b)
    (agrees : Agrees inner.host offered a) : Agrees inner.host offered b := by
  have coherent := change.coherent faithful below agrees.ranged agrees.coherent
  have ranged := change.ranged agrees.ranged
  cases change with
  | released release => exact release.agrees agrees
  | counted fits =>
      refine ⟨coherent, ranged, agrees.apart, fun s identity found => ?_⟩
      rcases fits.added s identity found with before | ⟨entry, held, facts⟩
      · exact agrees.counted s identity before
      · exact ⟨entry, held, facts⟩
  | @admitted envelope admittedAtMs encryptedBytes entry offer absent named bytes =>
      have fresh := agrees.coherent.absent_of_stable_absent faithful offer absent
      refine ⟨coherent, ranged, ?_, fun s identity found => ?_⟩
      · rintro other held ⟨noticeId, gap, found, same⟩
        change (a.entries.insert _ _).get? _ = _ at held
        rw [OrdMap.get?_insert] at held
        split at held
        · have range := (agrees.ranged.gaps noticeId gap found).2
          rw [← Option.some.inj held, named] at same
          simp only [Entry.ofEnvelope] at same
          omega
        · exact agrees.apart other held ⟨noticeId, gap, found, same⟩
      · obtain ⟨other, held, facts⟩ := agrees.counted s identity found
        refine ⟨other, ?_, facts⟩
        change (a.entries.insert _ _).get? _ = _
        rw [OrdMap.get?_insert, if_neg]
        · exact held
        · intro same
          subst named
          change other.recordId = envelope.recordId inner.host at same
          rw [State.Holds, same, fresh] at held
          cases held
  | replaced held note =>
      refine ⟨coherent, ranged, note.apart agrees.apart agrees.coherent held (fun other kept => ?_)
        (State.release_gaps _ _), ?_⟩
      · obtain ⟨before, different⟩ := (State.holds_release (note.holds.mpr held)).mp kept
        exact ⟨note.holds.mp before, fun same => different (by rw [same])⟩
      · exact (note.counted_held agrees.counted).release (note.holds.mpr held)
  | quarantined held note uncounted =>
      have drops : ∀ other, (State.dropEntry _ _).Holds other ↔ _ :=
        fun other => State.holds_dropEntry (note.holds.mpr held)
      refine ⟨coherent, ranged, note.apart agrees.apart agrees.coherent held (fun other kept => ?_)
        rfl, fun s identity found => ?_⟩
      · obtain ⟨before, different⟩ := (drops other).mp kept
        exact ⟨note.holds.mp before, different⟩
      · obtain ⟨other, before, sequence, stable⟩ := note.counted_held agrees.counted s identity found
        refine ⟨other, (drops other).mpr ⟨before, ?_⟩, sequence, stable⟩
        rintro rfl
        have none := uncounted fun torn => torn
        rw [sequence, ← note.counted] at none
        exact absurd (found.symm.trans none) (Option.some_ne_none _)
  | tornApart _ _ tears => exact tears.elim
  | elsewhere same =>
      refine ⟨coherent, ranged, agrees.apart.of_kept (fun entry held => ?_)
        (fun noticeId gap found => ?_), fun s identity found => ?_⟩
      · rwa [State.Holds, same.entries] at held
      · rwa [same.gaps] at found
      · rw [same.counted] at found
        obtain ⟨entry, held, facts⟩ := agrees.counted s identity found
        exact ⟨entry, by rwa [State.Holds, same.entries], facts⟩

/-- Changes that tear nothing keep what the parts of a state say of each other. -/
theorem Changes.agrees (faithful : FaithfulIds inner.host offered)
    (below : inner.config.maxBytes < u64Max) (changes : Changes inner offered False a b)
    (agrees : Agrees inner.host offered a) : Agrees inner.host offered b :=
  changes.invariant (I := Agrees inner.host offered)
    (fun _ _ holds change => change.agrees faithful below holds) agrees

end

end TeslatlasEdge
