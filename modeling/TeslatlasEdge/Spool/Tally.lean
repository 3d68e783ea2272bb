/-
Module: TeslatlasEdge.Spool.Tally
Purpose: Admissions as the disks of a run show them, and the tally of counted expirations: the total
  in the sequence file is the number of sequences that file has ever listed, and a listed sequence
  stays listed for as long as its pending file stands.
Trusted boundary: none
Main exports: Admitted, Disk.HasPending, Disk.HasGap, Disk.savedNext, listedSequences, Tallied,
  Tallied.next, Tallied.putSequence, Counting.total_eq_card
-/
import TeslatlasEdge.Spool.CallChains

namespace TeslatlasEdge

open Lib

/-! ### Admissions -/

/-- The record has been durable under its sequence `s` at some point up to now. -/
def Admitted (key : EncryptionKey) (timeline : List Disk) (s : Nat) (record : StoredRecord Str) :
    Prop :=
  record.spoolSeq = some s ∧
    ∃ d ∈ timeline, d.read (.pending (pendingFileName s record.recordId)) =
      some (key.encrypt (.record record))

/-- What was admitted once was admitted later. -/
theorem Admitted.mono {key : EncryptionKey} {older newer : List Disk} {s : Nat}
    {record : StoredRecord Str} (admitted : Admitted key older s record) (later : older <:+ newer) :
    Admitted key newer s record := by
  obtain ⟨sequence, d, inside, found⟩ := admitted
  exact ⟨sequence, d, later.mem inside, found⟩

namespace Disk

/-- A pending file stands under the name of the record. -/
def HasPending (d : Disk) (s : Nat) (record : StoredRecord Str) : Prop :=
  ∃ body, d.read (.pending (pendingFileName s record.recordId)) = some body

/-- A gap file stands for the sequence. -/
def HasGap (d : Disk) (s : Nat) : Prop :=
  ∃ noticeId body, d.read (.gap (gapFileName s noticeId)) = some body

/-- The next sequence the sequence file records. -/
def savedNext (d : Disk) : Nat :=
  match d.sequence with
  | some (.encrypted _ (.sequence sequence)) => sequence.nextSpoolSequence
  | _ => 0

/-- The total of expired records the sequence file records. -/
def savedTotal (d : Disk) : Nat :=
  match d.sequence with
  | some (.encrypted _ (.sequence sequence)) => sequence.expiredRecordsTotal
  | _ => 0

/-- The sequences the sequence file lists as counted expirations. -/
def countedSequences (d : Disk) : Finset Nat :=
  match d.sequence with
  | some (.encrypted _ (.sequence sequence)) => sequence.countedPendingExpirations.keys.toFinset
  | _ => ∅

end Disk

/-- The sequences that any version of the sequence file has listed up to now. -/
def listedSequences : List Disk → Finset Nat
  | [] => ∅
  | d :: older => d.countedSequences ∪ listedSequences older

section

variable {key : EncryptionKey} {d d' : Disk} {older : List Disk}

/-- A disk admits a record through its pending file, or an older disk did. -/
theorem admitted_cons {timeline : List Disk} {s : Nat} {record : StoredRecord Str} :
    Admitted key (d :: timeline) s record ↔
      (record.spoolSeq = some s ∧ d.read (.pending (pendingFileName s record.recordId)) =
        some (key.encrypt (.record record))) ∨ Admitted key timeline s record := by
  simp only [Admitted, List.exists_mem_cons_iff, and_or_left]

/-- Where no pending file appears, nothing new is admitted. -/
theorem Admitted.back {s : Nat} {record : StoredRecord Str}
    (pending : ∀ name body, d'.read (.pending name) = some body →
      d.read (.pending name) = some body)
    (admitted : Admitted key (d' :: d :: older) s record) : Admitted key (d :: older) s record := by
  rcases admitted_cons.mp admitted with ⟨sequence, now⟩ | before
  · exact admitted_cons.mpr (.inl ⟨sequence, pending _ _ now⟩)
  · exact before

theorem savedNext_congr (same : d'.read .sequence = d.read .sequence) :
    d'.savedNext = d.savedNext := by
  simp only [Disk.read] at same
  simp only [Disk.savedNext, same]

theorem savedTotal_congr (same : d'.read .sequence = d.read .sequence) :
    d'.savedTotal = d.savedTotal := by
  simp only [Disk.read] at same
  simp only [Disk.savedTotal, same]

theorem countedSequences_congr (same : d'.read .sequence = d.read .sequence) :
    d'.countedSequences = d.countedSequences := by
  simp only [Disk.read] at same
  simp only [Disk.countedSequences, same]

/-! ### Listed sequences -/

/-- A sequence was listed on one of the disks. -/
theorem mem_listedSequences {timeline : List Disk} {s : Nat} :
    s ∈ listedSequences timeline ↔ ∃ d ∈ timeline, s ∈ d.countedSequences := by
  induction timeline with
  | nil => simp [listedSequences]
  | cons d older ih => simp [listedSequences, ih]

/-- What was listed once was listed later. -/
theorem listedSequences_mono {older newer : List Disk} (later : older <:+ newer) :
    listedSequences older ⊆ listedSequences newer := by
  intro s inside
  obtain ⟨d, there, counted⟩ := mem_listedSequences.mp inside
  exact mem_listedSequences.mpr ⟨d, later.mem there, counted⟩

/-- A disk with the sequence file of the one before lists nothing new. -/
theorem listedSequences_next (same : d'.read .sequence = d.read .sequence) :
    listedSequences (d' :: d :: older) = listedSequences (d :: older) := by
  rw [listedSequences, countedSequences_congr same, listedSequences, ← Finset.union_assoc,
    Finset.union_idempotent]

theorem listedSequences_congr (same : d'.read .sequence = d.read .sequence) :
    listedSequences (d' :: older) = listedSequences (d :: older) := by
  rw [listedSequences, countedSequences_congr same, listedSequences]

/-! ### The tally of a disk -/

/-- What the files of the disk `d`, reached through the disks `older`, say about counted
expirations. -/
structure Tallied (key : EncryptionKey) (d : Disk) (older : List Disk) : Prop where
  total : d.savedTotal = (listedSequences (d :: older)).card
  admitted : ∀ s ∈ listedSequences (d :: older), ∃ record, Admitted key (d :: older) s record
  pending : ∀ s record, Admitted key (d :: older) s record → d.HasPending s record →
    s ∈ listedSequences (d :: older) → s ∈ d.countedSequences
  gap : ∀ name notice, d.read (.gap name) = some (key.encrypt (.gap notice)) →
    notice.reason = .retentionExpired → notice.spoolSeq ∈ listedSequences (d :: older)

/-- A step that leaves the sequence file alone keeps the tally when pending files only go and new
gaps tell of listed sequences. -/
theorem Tallied.next (tally : Tallied key d older)
    (sequence : d'.read .sequence = d.read .sequence)
    (pending : ∀ s record, Admitted key (d' :: d :: older) s record → d'.HasPending s record →
      s ∈ listedSequences (d :: older) → Admitted key (d :: older) s record ∧ d.HasPending s record)
    (gap : ∀ name notice, d'.read (.gap name) = some (key.encrypt (.gap notice)) →
      notice.reason = .retentionExpired →
      d.read (.gap name) = some (key.encrypt (.gap notice)) ∨
        notice.spoolSeq ∈ listedSequences (d :: older)) :
    Tallied key d' (d :: older) := by
  have same : listedSequences (d' :: d :: older) = listedSequences (d :: older) :=
    listedSequences_next sequence
  constructor
  · rw [same, savedTotal_congr sequence]
    exact tally.total
  · intro s inside
    rw [same] at inside
    obtain ⟨record, admitted⟩ := tally.admitted s inside
    exact ⟨record, admitted.mono (List.suffix_cons _ _)⟩
  · intro s record admitted stands inside
    rw [same] at inside
    rw [countedSequences_congr sequence]
    obtain ⟨before, stood⟩ := pending s record admitted stands inside
    exact tally.pending s record before stood inside
  · intro name notice stands retention
    rw [same]
    rcases gap name notice stands retention with before | inside
    · exact tally.gap name notice before retention
    · exact inside

/-- A step that only takes pending files and gap files away keeps the tally. -/
theorem Tallied.kept (tally : Tallied key d older)
    (sequence : d'.read .sequence = d.read .sequence)
    (pending : ∀ name body, d'.read (.pending name) = some body →
      d.read (.pending name) = some body)
    (gap : ∀ name body, d'.read (.gap name) = some body → d.read (.gap name) = some body) :
    Tallied key d' (d :: older) := by
  apply tally.next sequence
  · rintro s record admitted ⟨body, stands⟩ -
    exact ⟨admitted.back pending, body, pending _ _ stands⟩
  · exact fun name notice stands _ => .inl (gap _ _ stands)

/-- The tally does not depend on the order in which directories are listed. -/
theorem Tallied.relisted (tally : Tallied key d older)
    (reads : ∀ path, d'.read path = d.read path) : Tallied key d' older := by
  have admitted : ∀ s record, Admitted key (d' :: older) s record ↔
      Admitted key (d :: older) s record := fun s record => by simp only [admitted_cons, reads]
  have same : listedSequences (d' :: older) = listedSequences (d :: older) :=
    listedSequences_congr (reads _)
  constructor
  · rw [same, savedTotal_congr (reads _)]
    exact tally.total
  · simpa only [same, admitted] using tally.admitted
  · simpa only [same, admitted, countedSequences_congr (reads _), Disk.HasPending, reads] using
      tally.pending
  · simpa only [same, reads] using tally.gap

/-- A new sequence file keeps the tally when its total counts everything listed so far, and it still
lists every listed sequence whose pending file stands. -/
theorem Tallied.putSequence {sequence : SequenceState} (tally : Tallied key d older)
    (total : sequence.expiredRecordsTotal =
      (sequence.countedPendingExpirations.keys.toFinset ∪ listedSequences (d :: older)).card)
    (admitted : ∀ s ∈ sequence.countedPendingExpirations.keys,
      ∃ record, Admitted key (d :: older) s record)
    (pending : ∀ s record, Admitted key (d :: older) s record → d.HasPending s record →
      s ∈ listedSequences (d :: older) → s ∈ sequence.countedPendingExpirations.keys) :
    Tallied key (d.put (key.encrypt (.sequence sequence)) .sequence) (d :: older) := by
  have pendings : ∀ name, (d.put (key.encrypt (.sequence sequence)) .sequence).read
      (.pending name) = d.read (.pending name) := fun _ => rfl
  have gaps : ∀ name, (d.put (key.encrypt (.sequence sequence)) .sequence).read (.gap name) =
      d.read (.gap name) := fun _ => rfl
  have counted : (d.put (key.encrypt (.sequence sequence)) .sequence).countedSequences =
      sequence.countedPendingExpirations.keys.toFinset := rfl
  have saved : (d.put (key.encrypt (.sequence sequence)) .sequence).savedTotal =
      sequence.expiredRecordsTotal := rfl
  generalize d.put (key.encrypt (.sequence sequence)) .sequence = d' at pendings gaps counted saved ⊢
  have back : ∀ s record, Admitted key (d' :: d :: older) s record →
      Admitted key (d :: older) s record := fun s record now =>
    now.back fun name body found => by rwa [pendings] at found
  constructor
  · rw [saved, listedSequences, counted]
    exact total
  · intro s inside
    rw [listedSequences, Finset.mem_union, counted, List.mem_toFinset] at inside
    have known : ∃ record, Admitted key (d :: older) s record := by
      rcases inside with now | before
      · exact admitted s now
      · exact tally.admitted s before
    obtain ⟨record, before⟩ := known
    exact ⟨record, before.mono (List.suffix_cons _ _)⟩
  · rintro s record now ⟨body, stands⟩ inside
    rw [pendings] at stands
    rw [counted, List.mem_toFinset]
    rw [listedSequences, Finset.mem_union, counted, List.mem_toFinset] at inside
    rcases inside with here | before
    · exact here
    · exact pending s record (back s record now) ⟨body, stands⟩ before
  · intro name notice stands retention
    rw [gaps] at stands
    rw [listedSequences, Finset.mem_union]
    exact .inr (tally.gap name notice stands retention)

end

/-! ### The tally of a state -/

/-- The counters of a running process agree with what its sequence file has listed. -/
structure Tally (m : Machine) : Prop where
  expired : m.storageWriteFailed = false →
    m.state.expiredRecords = (listedSequences m.timeline).card
  held : m.storageWriteFailed = false → ∀ entry, m.state.Holds entry →
    entry.spoolSeq ∈ listedSequences m.timeline →
    m.state.countedPendingExpirations.contains entry.spoolSeq = true
  counted : ∀ s, m.state.countedPendingExpirations.contains s = true →
    s ∈ listedSequences m.timeline

theorem mem_keys_iff_contains {counted : OrdMap Nat RecordId} {s : Nat} :
    s ∈ counted.keys ↔ counted.contains s = true := by
  rw [OrdMap.mem_keys_iff, OrdMap.contains_iff]

/-- A map has as many keys as entries. -/
theorem card_keys (counted : OrdMap Nat RecordId) : counted.keys.toFinset.card = counted.size := by
  have distinct : counted.keys.Nodup := counted.toAList.keys_nodup
  rw [List.toFinset_card_of_nodup distinct]
  exact List.length_map _

/-- Counting entries adds to the total exactly the sequences no file has listed before. -/
theorem Counting.total_eq_card {m : Machine} {total : Nat} {counted : OrdMap Nat RecordId}
    (fits : Counting m.state total counted) (tally : Tally m)
    (open_ : m.storageWriteFailed = false) :
    total = (counted.keys.toFinset ∪ listedSequences m.timeline).card := by
  set listed := listedSequences m.timeline with listed_eq
  set before := m.state.countedPendingExpirations.keys.toFinset with before_eq
  set after := counted.keys.toFinset with after_eq
  have known : before ⊆ listed := by
    intro s inside
    rw [before_eq, List.mem_toFinset, mem_keys_iff_contains] at inside
    exact tally.counted s inside
  have grown : before ⊆ after := by
    intro s inside
    rw [before_eq, List.mem_toFinset, mem_keys_iff_contains] at inside
    obtain ⟨identity, found⟩ := OrdMap.contains_iff.mp inside
    rw [after_eq, List.mem_toFinset, mem_keys_iff_contains]
    exact OrdMap.contains_iff.mpr ⟨identity, fits.kept s identity found⟩
  -- whatever is counted now belongs to a held entry, and such an entry is not listed yet
  have fresh : Disjoint (after \ before) listed := by
    rw [Finset.disjoint_left]
    intro s inside there
    rw [Finset.mem_sdiff, after_eq, before_eq, List.mem_toFinset, List.mem_toFinset,
      mem_keys_iff_contains, mem_keys_iff_contains] at inside
    obtain ⟨now, uncounted⟩ := inside
    obtain ⟨identity, found⟩ := OrdMap.contains_iff.mp now
    rcases fits.added s identity found with old | ⟨entry, held, rfl, -⟩
    · exact uncounted (OrdMap.contains_iff.mpr ⟨identity, old⟩)
    · exact uncounted (tally.held open_ entry held there)
  have union : after ∪ listed = (after \ before) ∪ listed := by
    ext s
    simp only [Finset.mem_union, Finset.mem_sdiff]
    constructor
    · rintro (now | there)
      · by_cases old : s ∈ before
        · exact .inr (known old)
        · exact .inl ⟨now, old⟩
      · exact .inr there
    · rintro (⟨now, -⟩ | there)
      · exact .inl now
      · exact .inr there
  have added := fits.total_eq
  rw [tally.expired open_, ← card_keys, ← card_keys, ← before_eq, ← after_eq, ← listed_eq] at added
  rw [union, Finset.card_union_of_disjoint fresh, Finset.card_sdiff_of_subset grown]
  have smaller := Finset.card_le_card grown
  omega

end TeslatlasEdge
