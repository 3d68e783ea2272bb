/-
Module: TeslatlasEdge.Spool.Custody
Purpose: What the files of a spool say about the records it has admitted, at every point of its
  history: each sequence belongs to one admission, and each admission is pending, replaced by a gap,
  or accepted by a receipt that has been durable.
Trusted boundary: none
Main exports: WrittenFor, NoticeOf, Lawful, Lawful.next, Lawful.admitEntry
-/
import TeslatlasEdge.Spool.Tally

namespace TeslatlasEdge

open Lib

/-! ### Admissions -/

/-- A record as `enqueue` writes it for an offered envelope. -/
def WrittenFor (host : Host) (offered : Nat → Envelope → Prop) (s : Nat)
    (record : StoredRecord Str) : Prop :=
  ∃ inner envelope admittedAtMs, inner.host = host ∧ offered s envelope ∧
    envelope.validate = .ok () ∧
    record = (storedRecord inner envelope admittedAtMs s).map host.codec.print

/-- The identities a gap notice of the record may be derived from. -/
def StoredRecord.IdentifiedBy (record : StoredRecord Str) (identity : RecordId) : Prop :=
  record.stableRecordId = some identity ∨ record.recordId = identity

/-- The receipt accepts the admission of the record, or a gap notice of it. -/
def AckReceipt.Accepts (host : Host) (receipt : AckReceipt) (s : Nat) (record : StoredRecord Str) :
    Prop :=
  (∃ admission ∈ receipt.acceptedAdmissions, admission.spoolSeq = s ∧
    record.stableRecordId = some admission.stableRecordId ∧
    record.recordId = admission.legacyRecordId) ∨
  ∃ identity occurredAtMs reason, record.IdentifiedBy identity ∧
    (gapNoticeForIdentity host s identity occurredAtMs reason).noticeId ∈
      receipt.acceptedGapNoticeIds

/-- The notice tells of the loss of an admitted record. -/
def NoticeOf (key : EncryptionKey) (host : Host) (timeline : List Disk) (notice : GapNoticeV2) :
    Prop :=
  ∃ record identity, Admitted key timeline notice.spoolSeq record ∧
    record.IdentifiedBy identity ∧
    notice = gapNoticeForIdentity host notice.spoolSeq identity notice.occurredAtMs notice.reason

/-- A notice of what was admitted once is one of what was admitted later. -/
theorem NoticeOf.mono {key : EncryptionKey} {host : Host} {older newer : List Disk}
    {notice : GapNoticeV2} (known : NoticeOf key host older notice) (later : older <:+ newer) :
    NoticeOf key host newer notice := by
  obtain ⟨record, identity, admitted, facts⟩ := known
  exact ⟨record, identity, admitted.mono later, facts⟩

/-- A record was admitted under the identity. -/
def AdmittedAs (key : EncryptionKey) (timeline : List Disk) (recordId : RecordId) : Prop :=
  ∃ s record, Admitted key timeline s record ∧ record.recordId = recordId

theorem AdmittedAs.mono {key : EncryptionKey} {older newer : List Disk} {recordId : RecordId}
    (known : AdmittedAs key older recordId) (later : older <:+ newer) :
    AdmittedAs key newer recordId := by
  obtain ⟨s, record, admitted, named⟩ := known
  exact ⟨s, record, admitted.mono later, named⟩

/-- A record was admitted under the sequence. -/
def AdmittedAt (key : EncryptionKey) (timeline : List Disk) (spoolSeq : Nat) : Prop :=
  ∃ record, Admitted key timeline spoolSeq record

theorem AdmittedAt.mono {key : EncryptionKey} {older newer : List Disk} {spoolSeq : Nat}
    (known : AdmittedAt key older spoolSeq) (later : older <:+ newer) :
    AdmittedAt key newer spoolSeq := by
  obtain ⟨record, admitted⟩ := known
  exact ⟨record, admitted.mono later⟩

/-- Everything the receipt accepts was admitted below the sequence. -/
structure AckReceipt.Below (key : EncryptionKey) (host : Host) (timeline : List Disk)
    (receipt : AckReceipt) (bound : Nat) : Prop where
  admissions : ∀ admission ∈ receipt.acceptedAdmissions, admission.spoolSeq < bound ∧
    ∃ record, Admitted key timeline admission.spoolSeq record ∧
      record.stableRecordId = some admission.stableRecordId ∧
      record.recordId = admission.legacyRecordId
  notices : ∀ noticeId ∈ receipt.acceptedGapNoticeIds, ∃ notice, notice.noticeId = noticeId ∧
    NoticeOf key host timeline notice ∧ notice.spoolSeq < bound

/-- What a receipt accepted lies below the numbers of every later disk. -/
theorem AckReceipt.Below.mono {key : EncryptionKey} {host : Host} {older newer : List Disk}
    {receipt : AckReceipt} {bound bound' : Nat} (below : receipt.Below key host older bound)
    (later : older <:+ newer) (larger : bound ≤ bound') : receipt.Below key host newer bound' := by
  refine ⟨fun admission inside => ?_, fun noticeId inside => ?_⟩
  · obtain ⟨small, record, admitted, facts⟩ := below.admissions admission inside
    exact ⟨by omega, record, admitted.mono later, facts⟩
  · obtain ⟨notice, named, known, small⟩ := below.notices noticeId inside
    exact ⟨notice, named, known.mono later, by omega⟩

/-! ### Disks -/

/-- The receipts that have been durable up to now accept the record. -/
def AcceptedBy (key : EncryptionKey) (host : Host) (timeline : List Disk) (s : Nat)
    (record : StoredRecord Str) : Prop :=
  ∃ receipt, Receipted key timeline receipt ∧ receipt.Accepts host s record

/-- What a receipt accepted once stays accepted. -/
theorem AcceptedBy.mono {key : EncryptionKey} {host : Host} {older newer : List Disk} {s : Nat}
    {record : StoredRecord Str} (accepted : AcceptedBy key host older s record)
    (later : older <:+ newer) : AcceptedBy key host newer s record := by
  obtain ⟨receipt, receipted, accepts⟩ := accepted
  exact ⟨receipt, receipted.mono later, accepts⟩

/-- The key opens the body to nothing. -/
def Unreadable (key : EncryptionKey) (host : Host) (body : Blob) : Prop :=
  ∀ plain, key.decrypt host body ≠ .ok plain

/-- A payload comes back from a stored record as it went in: each non-integer number is read back as
it was printed, and with the two objects around it the nesting stays below the limit of the parser. -/
structure ReceiverEnvelope.Exact (codec : FloatCodec) (envelope : Envelope) : Prop where
  numbers : ∀ x ∈ envelope.payload.floats, codec.parse (codec.print x) = x
  shallow : envelope.payload.depth + 2 < Json.recursionLimit

/-- Every offered payload comes back from a stored record as it went in. -/
def ExactPayloads (host : Host) (offered : Nat → Envelope → Prop) : Prop :=
  ∀ s envelope, offered s envelope → envelope.Exact host.codec

/-- Nothing that could spoil a record has happened: payloads come back from their files as they went
in, and no pending file has been damaged. -/
structure Blameless (key : EncryptionKey) (host : Host) (offered : Nat → Envelope → Prop)
    (timeline : List Disk) : Prop where
  exact_ : ExactPayloads host offered
  unharmed : ∀ d ∈ timeline, ∀ name body, d.read (.pending name) = some body →
    ¬ Unreadable key host body

/-- Where nothing is to blame in the end, nothing was before. -/
theorem Blameless.back {key : EncryptionKey} {host : Host} {offered : Nat → Envelope → Prop}
    {older newer : List Disk} (blameless : Blameless key host offered newer)
    (later : older <:+ newer) : Blameless key host offered older :=
  ⟨blameless.exact_, fun d inside => blameless.unharmed d (later.mem inside)⟩

/-- What lets a record be read back from its file: it is small enough and does not expire before it
was admitted. -/
structure StoredRecord.Legible (key : EncryptionKey) (record : StoredRecord Str) : Prop where
  small : (key.encrypt (.record record)).length ≤ maxEncryptedRecordBytes
  lasting : record.admittedAtMs.val ≤ record.expiresAtMs.val

/-- What the files of the disk `d`, reached through the disks `older`, say about admissions. -/
structure Lawful (key : EncryptionKey) (host : Host) (offered : Nat → Envelope → Prop) (d : Disk)
    (older : List Disk) : Prop where
  /-- A pending file stands for an admission; its contents may have been damaged. -/
  pending : ∀ name body, d.read (.pending name) = some body →
    ∃ s record, Admitted key (d :: older) s record ∧ name = pendingFileName s record.recordId ∧
      (body = key.encrypt (.record record) ∨ Unreadable key host body)
  origin : ∀ s record, Admitted key (d :: older) s record →
    1 ≤ s ∧ s < u64Max ∧ WrittenFor host offered s record
  once : ∀ s record other, Admitted key (d :: older) s record → Admitted key (d :: older) s other →
    record = other
  gap : ∀ name body, d.read (.gap name) = some body →
    ∃ notice, NoticeOf key host (d :: older) notice ∧
      name = gapFileName notice.spoolSeq notice.noticeId ∧ body = key.encrypt (.gap notice)
  /-- A receipt file is the receipt it is named after, unless it has been damaged. -/
  receipt : ∀ name body, d.read (.receipt name) = some body →
    (∃ receipt, name = receiptFileName receipt.sequence receipt.batchId ∧
      body = key.encrypt (.receipt receipt)) ∨ Unreadable key host body
  accepted : ∀ receipt, Receipted key (d :: older) receipt →
    receipt.Below key host (d :: older) d.savedNext
  counter : ∀ s record, Admitted key (d :: older) s record →
    s < d.savedNext ∨ d.HasPending s record ∨ d.HasGap s
  custody : ∀ s record, Admitted key (d :: older) s record →
    d.HasPending s record ∨ d.HasGap s ∨ AcceptedBy key host (d :: older) s record
  /-- Expirations are counted once, as long as no two records collide. -/
  tally : FaithfulIds host offered → Tallied key d older
  legible : ∀ s record, Admitted key (d :: older) s record → record.Legible key
  drawn : ∀ receipt, Receipted key (d :: older) receipt →
    receipt.DrawnFrom host (NoticeOf key host (d :: older)) (AdmittedAs key (d :: older))
      (AdmittedAt key (d :: older))
  integrity : Blameless key host offered (d :: older) → ∀ name notice,
    d.read (.gap name) = some (key.encrypt (.gap notice)) → notice.reason ≠ .integrityQuarantine

section Next

variable {key : EncryptionKey} {host : Host} {offered : Nat → Envelope → Prop} {d d' : Disk}
  {older : List Disk}

/-- A receipt is on the disk now or was on an older one. -/
theorem receipted_cons {timeline : List Disk} {receipt : AckReceipt} :
    Receipted key (d :: timeline) receipt ↔
      d.read (.receipt (receiptFileName receipt.sequence receipt.batchId)) =
        some (key.encrypt (.receipt receipt)) ∨ Receipted key timeline receipt := by
  simp only [Receipted, List.exists_mem_cons_iff, Disk.read]

/-- A step that admits nothing keeps the laws when whatever it damages can no longer be read and
whatever it takes away is accounted for. -/
theorem Lawful.step (law : Lawful key host offered d older)
    (back : ∀ s record, Admitted key (d' :: d :: older) s record →
      Admitted key (d :: older) s record)
    (pending : ∀ name body, d'.read (.pending name) = some body →
      d.read (.pending name) = some body ∨
        Unreadable key host body ∧ ∃ old, d.read (.pending name) = some old)
    (gap : ∀ name body, d'.read (.gap name) = some body → d.read (.gap name) = some body ∨
      ∃ notice, NoticeOf key host (d :: older) notice ∧
        name = gapFileName notice.spoolSeq notice.noticeId ∧ body = key.encrypt (.gap notice) ∧
        (notice.reason = .integrityQuarantine → ¬ Blameless key host offered (d :: older)))
    (receipt : ∀ name body, d'.read (.receipt name) = some body →
      d.read (.receipt name) = some body ∨ Unreadable key host body ∨
        ∃ receipt, name = receiptFileName receipt.sequence receipt.batchId ∧
          body = key.encrypt (.receipt receipt) ∧
          receipt.Below key host (d :: older) d.savedNext ∧
          receipt.DrawnFrom host (NoticeOf key host (d :: older)) (AdmittedAs key (d :: older))
            (AdmittedAt key (d :: older)))
    (saved : d.savedNext ≤ d'.savedNext)
    (pendingGone : ∀ s record, Admitted key (d :: older) s record → d.HasPending s record →
      d'.HasPending s record ∨ d'.HasGap s ∨
        s < d'.savedNext ∧ AcceptedBy key host (d :: older) s record)
    (gapGone : ∀ s record, Admitted key (d :: older) s record → d.HasGap s →
      d'.HasGap s ∨ s < d'.savedNext ∧ AcceptedBy key host (d :: older) s record)
    (tally : FaithfulIds host offered → Tallied key d' (d :: older)) :
    Lawful key host offered d' (d :: older) := by
  have later : d :: older <:+ d' :: d :: older := List.suffix_cons _ _
  have known : ∀ held, Receipted key (d' :: d :: older) held → Receipted key (d :: older) held ∨
      held.Below key host (d :: older) d.savedNext ∧
        held.DrawnFrom host (NoticeOf key host (d :: older)) (AdmittedAs key (d :: older))
          (AdmittedAt key (d :: older)) := by
    intro held receipted
    rcases receipted_cons.mp receipted with now | before
    · rcases receipt _ _ now with before | unreadable | ⟨fresh, -, content, facts⟩
      · exact .inl (receipted_cons.mpr (.inl before))
      · exact absurd (key.decrypt_encrypt host _) (unreadable _)
      · have same : held = fresh := by
          simpa only [EncryptionKey.encrypt, Blob.encrypted.injEq, Plain.receipt.injEq, true_and]
            using content
        rw [same]
        exact .inr facts
    · exact .inl before
  refine ⟨fun name body found => ?_, fun s record admitted => law.origin s record (back _ _ admitted),
    fun s record other here there => law.once s record other (back _ _ here) (back _ _ there),
    fun name body found => ?_, fun name body found => ?_, fun held receipted => ?_,
    fun s record admitted => ?_, fun s record admitted => ?_, tally,
    fun s record admitted => law.legible s record (back _ _ admitted), fun held receipted => ?_,
    fun blameless name notice found => ?_⟩
  · rcases pending name body found with before | ⟨unreadable, old, before⟩
    · obtain ⟨s, record, admitted, facts⟩ := law.pending name body before
      exact ⟨s, record, admitted.mono later, facts⟩
    · obtain ⟨s, record, admitted, named, -⟩ := law.pending name old before
      exact ⟨s, record, admitted.mono later, named, .inr unreadable⟩
  · rcases gap name body found with before | ⟨notice, known, named, content, -⟩
    · obtain ⟨notice, known, facts⟩ := law.gap name body before
      exact ⟨notice, known.mono later, facts⟩
    · exact ⟨notice, known.mono later, named, content⟩
  · rcases receipt name body found with before | unreadable | ⟨fresh, named, content, -⟩
    · exact law.receipt name body before
    · exact .inr unreadable
    · exact .inl ⟨fresh, named, content⟩
  · rcases known held receipted with before | ⟨below, -⟩
    · exact (law.accepted held before).mono later saved
    · exact below.mono later saved
  · have known := back s record admitted
    rcases law.counter s record known with small | stands | stands
    · exact .inl (by omega)
    · rcases pendingGone s record known stands with kept | kept | gone
      · exact .inr (.inl kept)
      · exact .inr (.inr kept)
      · exact .inl gone.1
    · rcases gapGone s record known stands with kept | gone
      · exact .inr (.inr kept)
      · exact .inl gone.1
  · have known := back s record admitted
    rcases law.custody s record known with stands | stands | accepted
    · rcases pendingGone s record known stands with kept | kept | gone
      · exact .inl kept
      · exact .inr (.inl kept)
      · exact .inr (.inr (gone.2.mono later))
    · rcases gapGone s record known stands with kept | gone
      · exact .inr (.inl kept)
      · exact .inr (.inr (gone.2.mono later))
    · exact .inr (.inr (accepted.mono later))
  · rcases known held receipted with before | ⟨-, drawn⟩
    · exact (law.drawn held before).mono (fun notice told => told.mono later)
        (fun recordId known => known.mono later) fun s known => known.mono later
    · exact drawn.mono (fun notice told => told.mono later)
        (fun recordId known => known.mono later) fun s known => known.mono later
  · rcases gap name _ found with before | ⟨other, -, -, content, spared⟩
    · exact law.integrity (blameless.back later) name notice before
    · simp only [EncryptionKey.encrypt, Blob.encrypted.injEq, Plain.gap.injEq, true_and] at content
      rw [content]
      exact fun damaged => spared damaged (blameless.back later)

/-- A step that admits nothing keeps the laws when whatever it takes away is accounted for. -/
theorem Lawful.next (law : Lawful key host offered d older)
    (pending : ∀ name body, d'.read (.pending name) = some body →
      d.read (.pending name) = some body)
    (gap : ∀ name body, d'.read (.gap name) = some body → d.read (.gap name) = some body ∨
      ∃ notice, NoticeOf key host (d :: older) notice ∧
        name = gapFileName notice.spoolSeq notice.noticeId ∧ body = key.encrypt (.gap notice) ∧
        (notice.reason = .integrityQuarantine → ¬ Blameless key host offered (d :: older)))
    (receipt : ∀ name body, d'.read (.receipt name) = some body →
      d.read (.receipt name) = some body ∨ Unreadable key host body ∨
        ∃ receipt, name = receiptFileName receipt.sequence receipt.batchId ∧
          body = key.encrypt (.receipt receipt) ∧
          receipt.Below key host (d :: older) d.savedNext ∧
          receipt.DrawnFrom host (NoticeOf key host (d :: older)) (AdmittedAs key (d :: older))
            (AdmittedAt key (d :: older)))
    (saved : d.savedNext ≤ d'.savedNext)
    (pendingGone : ∀ s record, Admitted key (d :: older) s record → d.HasPending s record →
      d'.HasPending s record ∨ d'.HasGap s ∨
        s < d'.savedNext ∧ AcceptedBy key host (d :: older) s record)
    (gapGone : ∀ s record, Admitted key (d :: older) s record → d.HasGap s →
      d'.HasGap s ∨ s < d'.savedNext ∧ AcceptedBy key host (d :: older) s record)
    (tally : FaithfulIds host offered → Tallied key d' (d :: older)) :
    Lawful key host offered d' (d :: older) :=
  law.step (fun _ _ admitted => admitted.back pending)
    (fun name body found => .inl (pending name body found)) gap receipt saved pendingGone gapGone
    tally

theorem WrittenFor.spoolSeq {s : Nat} {record : StoredRecord Str}
    (source : WrittenFor host offered s record) : record.spoolSeq = some s := by
  obtain ⟨inner, envelope, admittedAtMs, -, -, -, rfl⟩ := source
  rfl

/-- The second disk has the file of one more record. -/
structure Enters (key : EncryptionKey) (s : Nat) (record : StoredRecord Str) (d d' : Disk) : Prop where
  read : ∀ path, d'.read path =
    if path = .pending (pendingFileName s record.recordId) then some (key.encrypt (.record record))
    else d.read path
  saved : d'.savedNext = d.savedNext
  sequence : record.spoolSeq = some s

namespace Enters

variable {s : Nat} {record : StoredRecord Str}

/-- A record that enters its pending file touches no other file. -/
theorem elsewhere (enters : Enters key s record d d') {path : Path}
    (other : ∀ name, path ≠ .pending name) : d'.read path = d.read path := by
  rw [enters.read, if_neg (other _)]

/-- It is admitted by entering. -/
theorem admitted (enters : Enters key s record d d') : Admitted key (d' :: d :: older) s record :=
  admitted_cons.mpr (.inl ⟨enters.sequence, by rw [enters.read, if_pos rfl]⟩)

/-- Nothing else has been admitted. -/
theorem back (enters : Enters key s record d d') {t : Nat} {other : StoredRecord Str}
    (admitted : Admitted key (d' :: d :: older) t other) :
    t = s ∧ other = record ∨ Admitted key (d :: older) t other := by
  rcases admitted_cons.mp admitted with ⟨sequence, now⟩ | before
  · rw [enters.read] at now
    split at now
    · have content := Option.some.inj now
      simp only [EncryptionKey.encrypt, Blob.encrypted.injEq, Plain.record.injEq, true_and]
        at content
      subst content
      rw [enters.sequence] at sequence
      exact .inl ⟨(Option.some.inj sequence).symm, rfl⟩
    · exact .inr (admitted_cons.mpr (.inl ⟨sequence, now⟩))
  · exact .inr before

theorem receipted (enters : Enters key s record d d') {receipt : AckReceipt}
    (receipted : Receipted key (d' :: d :: older) receipt) : Receipted key (d :: older) receipt := by
  rcases receipted_cons.mp receipted with now | before
  · rw [enters.elsewhere fun _ => by simp] at now
    exact receipted_cons.mpr (.inl now)
  · exact before

/-- It adds no gap. -/
theorem hasGap (enters : Enters key s record d d') (t : Nat) : d'.HasGap t ↔ d.HasGap t := by
  simp only [Disk.HasGap, enters.read, reduceCtorEq, if_false]

/-- It leaves the pending files there are. -/
theorem kept (enters : Enters key s record d d') {t : Nat} {other : StoredRecord Str}
    (stands : d.HasPending t other) : d'.HasPending t other := by
  obtain ⟨body, found⟩ := stands
  simp only [Disk.HasPending, enters.read]
  split
  · exact ⟨_, rfl⟩
  · exact ⟨body, found⟩

/-- It stands in the file it entered. -/
theorem stands (enters : Enters key s record d d') : d'.HasPending s record :=
  ⟨_, by rw [enters.read, if_pos rfl]⟩

/-- A fresh sequence has not been counted, so the tally is as it was. -/
theorem tallied (enters : Enters key s record d d') (law : Lawful key host offered d older)
    (positive : 1 ≤ s) (bounded : s < u64Max) (fresh : ∀ other, ¬ Admitted key (d :: older) s other)
    (faithful : FaithfulIds host offered) : Tallied key d' (d :: older) := by
  refine (law.tally faithful).next (enters.elsewhere fun _ => by simp) ?_ fun name notice found _ =>
    .inl (by rwa [enters.elsewhere fun _ => by simp] at found)
  rintro t other admitted ⟨body, found⟩ listed
  rcases enters.back admitted with ⟨rfl, rfl⟩ | before
  · obtain ⟨earlier, known⟩ := (law.tally faithful).admitted t listed
    exact absurd known (fresh earlier)
  · refine ⟨before, ?_⟩
    rw [enters.read] at found
    split at found
    · rename_i here
      have range := law.origin t other before
      obtain ⟨rfl, -⟩ := pendingFileName_injective range.1 range.2.1.le positive bounded.le
        (Path.pending.inj here)
      exact absurd before (fresh other)
    · exact ⟨body, found⟩

end Enters

/-- Admitting a record under a fresh sequence keeps the laws. -/
theorem Lawful.admitEntry {s : Nat} {record : StoredRecord Str} (law : Lawful key host offered d older)
    (positive : 1 ≤ s) (bounded : s < u64Max) (source : WrittenFor host offered s record)
    (legible : record.Legible key) (fresh : ∀ other, ¬ Admitted key (d :: older) s other) :
    Lawful key host offered
      (d.put (key.encrypt (.record record)) (.pending (pendingFileName s record.recordId)))
      (d :: older) := by
  have enters : Enters key s record d
      (d.put (key.encrypt (.record record)) (.pending (pendingFileName s record.recordId))) :=
    ⟨fun path => Disk.read_put _ _ _ _, rfl, source.spoolSeq⟩
  generalize d.put (key.encrypt (.record record)) (.pending (pendingFileName s record.recordId)) =
    d' at enters ⊢
  have later : d :: older <:+ d' :: d :: older := List.suffix_cons _ _
  constructor
  case pending =>
    intro name body found
    rw [enters.read] at found
    split at found
    · rename_i here
      exact ⟨s, record, enters.admitted, by simpa using here, .inl (Option.some.inj found).symm⟩
    · obtain ⟨t, other, admitted, facts⟩ := law.pending name body found
      exact ⟨t, other, admitted.mono later, facts⟩
  case origin =>
    intro t other admitted
    rcases enters.back admitted with ⟨rfl, rfl⟩ | before
    · exact ⟨positive, bounded, source⟩
    · exact law.origin t other before
  case once =>
    intro t one two here there
    rcases enters.back here with ⟨rfl, rfl⟩ | before
    · rcases enters.back there with ⟨-, rfl⟩ | before'
      · rfl
      · exact absurd before' (fresh _)
    · rcases enters.back there with ⟨rfl, rfl⟩ | before'
      · exact absurd before (fresh _)
      · exact law.once t one two before before'
  case gap =>
    intro name body found
    rw [enters.elsewhere fun _ => by simp] at found
    obtain ⟨notice, known, facts⟩ := law.gap name body found
    exact ⟨notice, known.mono later, facts⟩
  case receipt =>
    intro name body found
    rw [enters.elsewhere fun _ => by simp] at found
    exact law.receipt name body found
  case accepted =>
    intro held receipted
    rw [enters.saved]
    exact (law.accepted held (enters.receipted receipted)).mono later le_rfl
  case counter =>
    intro t other admitted
    rw [enters.saved, enters.hasGap]
    rcases enters.back admitted with ⟨rfl, rfl⟩ | before
    · exact .inr (.inl enters.stands)
    · rcases law.counter t other before with small | there | there
      · exact .inl small
      · exact .inr (.inl (enters.kept there))
      · exact .inr (.inr there)
  case custody =>
    intro t other admitted
    rw [enters.hasGap]
    rcases enters.back admitted with ⟨rfl, rfl⟩ | before
    · exact .inl enters.stands
    · rcases law.custody t other before with there | there | accepted
      · exact .inl (enters.kept there)
      · exact .inr (.inl there)
      · exact .inr (.inr (accepted.mono later))
  case tally => exact enters.tallied law positive bounded fresh
  case legible =>
    intro t other admitted
    rcases enters.back admitted with ⟨-, rfl⟩ | before
    · exact legible
    · exact law.legible t other before
  case drawn =>
    intro held receipted
    exact (law.drawn held (enters.receipted receipted)).mono (fun notice told => told.mono later)
      (fun recordId known => known.mono later) fun s known => known.mono later
  case integrity =>
    intro blameless name notice found
    rw [enters.elsewhere fun _ => by simp] at found
    exact law.integrity (blameless.back later) name notice found

/-- A step that changes none of the named files keeps the laws. -/
theorem Lawful.same (law : Lawful key host offered d older)
    (reads : ∀ path, d'.read path = d.read path) : Lawful key host offered d' (d :: older) := by
  apply law.next
  · exact fun name body found => by rwa [reads] at found
  · exact fun name body found => .inl (by rwa [reads] at found)
  · exact fun name body found => .inl (by rwa [reads] at found)
  · exact (savedNext_congr (reads _)).ge
  · exact fun s record _ stands => .inl (by simpa only [Disk.HasPending, reads] using stands)
  · exact fun s record _ stands => .inl (by simpa only [Disk.HasGap, reads] using stands)
  · exact fun faithful => (law.tally faithful).kept (reads _)
      (fun name body found => by rwa [reads] at found)
      fun name body found => by rwa [reads] at found

/-- Damage to the contents of a pending file admits nothing. -/
theorem Admitted.undamaged {name : Str} {body : Blob} {s : Nat} {record : StoredRecord Str}
    (reads : ∀ path, d'.read path = if path = .pending name then some body else d.read path)
    (unreadable : Unreadable key host body)
    (admitted : Admitted key (d' :: d :: older) s record) : Admitted key (d :: older) s record := by
  rcases admitted_cons.mp admitted with ⟨sequence, now⟩ | before
  · rw [reads] at now
    split at now
    · exact absurd (key.decrypt_encrypt host (.record record))
        (Option.some.inj now ▸ unreadable (.record record))
    · exact admitted_cons.mpr (.inl ⟨sequence, now⟩)
  · exact before

/-- The contents of a pending file may become unreadable. -/
theorem Lawful.damaged {name : Str} {body old : Blob} (law : Lawful key host offered d older)
    (reads : ∀ path, d'.read path = if path = .pending name then some body else d.read path)
    (unreadable : Unreadable key host body) (present : d.read (.pending name) = some old) :
    Lawful key host offered d' (d :: older) := by
  apply law.step
  · exact fun s record admitted => admitted.undamaged reads unreadable
  · intro other body' found
    rw [reads] at found
    split at found
    · rename_i here
      rw [Path.pending.inj here, ← Option.some.inj found]
      exact .inr ⟨unreadable, old, present⟩
    · exact .inl found
  · exact fun name body found => .inl (by rwa [reads, if_neg (by simp)] at found)
  · exact fun name body found => .inl (by rwa [reads, if_neg (by simp)] at found)
  · exact (savedNext_congr (by rw [reads, if_neg (by simp)])).ge
  · rintro t other _ ⟨body', found⟩
    left
    rw [Disk.HasPending, reads]
    split
    · exact ⟨_, rfl⟩
    · exact ⟨body', found⟩
  · exact fun t other _ stands => .inl (by
      simpa only [Disk.HasGap, reads, reduceCtorEq, if_false] using stands)
  · refine fun faithful => (law.tally faithful).next (by rw [reads, if_neg (by simp)]) ?_
      fun name notice found _ => .inl (by rwa [reads, if_neg (by simp)] at found)
    rintro t other admitted ⟨body', found⟩ -
    refine ⟨admitted.undamaged reads unreadable, ?_⟩
    rw [reads] at found
    split at found
    · rename_i here
      rw [Disk.HasPending, Path.pending.inj here]
      exact ⟨old, present⟩
    · exact ⟨body', found⟩

/-- The contents of a receipt may become unreadable. -/
theorem Lawful.receiptDamaged {name : Str} {body : Blob} (law : Lawful key host offered d older)
    (reads : ∀ path, d'.read path = if path = .receipt name then some body else d.read path)
    (unreadable : Unreadable key host body) : Lawful key host offered d' (d :: older) := by
  apply law.next
  · exact fun name body found => by rwa [reads, if_neg (by simp)] at found
  · exact fun name body found => .inl (by rwa [reads, if_neg (by simp)] at found)
  · intro other content found
    rw [reads] at found
    split at found
    · rw [← Option.some.inj found]
      exact .inr (.inl unreadable)
    · exact .inl found
  · exact (savedNext_congr (by rw [reads, if_neg (by simp)])).ge
  · exact fun t other _ stands => .inl (by
      simpa only [Disk.HasPending, reads, reduceCtorEq, if_false] using stands)
  · exact fun t other _ stands => .inl (by
      simpa only [Disk.HasGap, reads, reduceCtorEq, if_false] using stands)
  · exact fun faithful => (law.tally faithful).kept (by rw [reads, if_neg (by simp)])
      (fun name body found => by rwa [reads, if_neg (by simp)] at found)
      fun name body found => by rwa [reads, if_neg (by simp)] at found

/-- The laws do not depend on the order in which directories are listed. -/
theorem Lawful.relisted (law : Lawful key host offered d older)
    (reads : ∀ path, d'.read path = d.read path) : Lawful key host offered d' older := by
  have admitted : ∀ s record, Admitted key (d' :: older) s record ↔
      Admitted key (d :: older) s record := fun s record => by simp only [admitted_cons, reads]
  have receipted : ∀ receipt, Receipted key (d' :: older) receipt ↔
      Receipted key (d :: older) receipt := fun receipt => by simp only [receipted_cons, reads]
  have saved : d'.savedNext = d.savedNext := savedNext_congr (reads _)
  have noticeOf : ∀ notice, NoticeOf key host (d' :: older) notice ↔
      NoticeOf key host (d :: older) notice := fun notice => by simp only [NoticeOf, admitted]
  have below : ∀ receipt : AckReceipt, receipt.Below key host (d :: older) d.savedNext →
      receipt.Below key host (d' :: older) d.savedNext := fun receipt below =>
    ⟨by simpa only [admitted] using below.admissions, by
      simpa only [noticeOf] using below.notices⟩
  refine ⟨?_, ?_, ?_, ?_, ?_, ?_, ?_, ?_, fun faithful => (law.tally faithful).relisted reads,
    ?_, ?_, fun blameless => ?_⟩
  · simpa only [reads, admitted] using law.pending
  · simpa only [admitted] using law.origin
  · simpa only [admitted] using law.once
  · simpa only [reads, noticeOf] using law.gap
  · simpa only [reads] using law.receipt
  · rw [saved]
    exact fun receipt held => below receipt (law.accepted receipt ((receipted receipt).mp held))
  · simpa only [admitted, saved, Disk.HasPending, Disk.HasGap, reads] using law.counter
  · simpa only [admitted, AcceptedBy, receipted, Disk.HasPending, Disk.HasGap, reads] using
      law.custody
  · simpa only [admitted] using law.legible
  · exact fun receipt held => (law.drawn receipt ((receipted receipt).mp held)).mono
      (fun notice told => (noticeOf notice).mpr told)
      (fun recordId known => by simpa only [AdmittedAs, admitted] using known) fun s known => by
        simpa only [AdmittedAt, admitted] using known
  · have before : Blameless key host offered (d :: older) := by
      refine ⟨blameless.exact_, fun e inside name body found => ?_⟩
      rcases List.mem_cons.mp inside with rfl | inside
      · exact blameless.unharmed d' List.mem_cons_self name body ((reads _).trans found)
      · exact blameless.unharmed e (List.mem_cons_of_mem _ inside) name body found
    simpa only [reads] using law.integrity before

/-- A pending file may go once a gap or a receipt stands for its sequence. -/
theorem Lawful.dropPending {s : Nat} {record : StoredRecord Str}
    (law : Lawful key host offered d older) (admitted : Admitted key (d :: older) s record)
    (reads : ∀ path, d'.read path =
      if path = .pending (pendingFileName s record.recordId) then none else d.read path)
    (covered : d.HasGap s ∨ s < d.savedNext ∧ AcceptedBy key host (d :: older) s record) :
    Lawful key host offered d' (d :: older) := by
  have saved : d'.savedNext = d.savedNext := savedNext_congr (by rw [reads, if_neg (by simp)])
  have gaps : ∀ t, d'.HasGap t ↔ d.HasGap t := by
    intro t
    simp only [Disk.HasGap, reads, reduceCtorEq, if_false]
  apply law.next
  · intro name body found
    rw [reads] at found
    split at found
    · cases found
    · exact found
  · exact fun name body found => .inl (by rwa [reads, if_neg (by simp)] at found)
  · exact fun name body found => .inl (by rwa [reads, if_neg (by simp)] at found)
  · exact saved.ge
  · rintro t other known ⟨body, found⟩
    by_cases here : pendingFileName t other.recordId = pendingFileName s record.recordId
    · have inRange := law.origin t other known
      have inRange' := law.origin s record admitted
      obtain ⟨rfl, -⟩ := pendingFileName_injective inRange.1 inRange.2.1.le inRange'.1
        inRange'.2.1.le here
      obtain rfl := law.once t other record known admitted
      rw [gaps, saved]
      exact .inr covered
    · refine .inl ⟨body, ?_⟩
      rw [reads, if_neg (by simpa using here)]
      exact found
  · exact fun t other _ stands => .inl ((gaps t).mpr stands)
  · refine fun faithful => (law.tally faithful).kept (by rw [reads, if_neg (by simp)])
      (fun name body found => ?_)
      fun name body found => by rwa [reads, if_neg (by simp)] at found
    rw [reads] at found
    split at found
    · cases found
    · exact found

/-- A gap file may go once a receipt accepts its notice. -/
theorem Lawful.dropGap {notice : GapNoticeV2} (law : Lawful key host offered d older)
    (known : NoticeOf key host (d :: older) notice)
    (reads : ∀ path, d'.read path =
      if path = .gap (gapFileName notice.spoolSeq notice.noticeId) then none else d.read path)
    (small : notice.spoolSeq < d.savedNext)
    (accepted : ∃ receipt, Receipted key (d :: older) receipt ∧
      notice.noticeId ∈ receipt.acceptedGapNoticeIds) :
    Lawful key host offered d' (d :: older) := by
  have saved : d'.savedNext = d.savedNext := savedNext_congr (by rw [reads, if_neg (by simp)])
  apply law.next
  · exact fun name body found => by rwa [reads, if_neg (by simp)] at found
  · intro name body found
    rw [reads] at found
    split at found
    · cases found
    · exact .inl found
  · exact fun name body found => .inl (by rwa [reads, if_neg (by simp)] at found)
  · exact saved.ge
  · rintro t other _ ⟨body, found⟩
    exact .inl ⟨body, by rwa [reads, if_neg (by simp)]⟩
  · rintro t other admitted ⟨noticeId, body, found⟩
    obtain ⟨record, identity, admitted', identified, named⟩ := known
    by_cases here : gapFileName t noticeId = gapFileName notice.spoolSeq notice.noticeId
    · have inRange := law.origin t other admitted
      have inRange' := law.origin notice.spoolSeq record admitted'
      obtain ⟨rfl, -⟩ := gapFileName_injective inRange.2.1.le inRange'.2.1.le here
      obtain rfl := law.once _ other record admitted admitted'
      obtain ⟨receipt, receipted, inside⟩ := accepted
      refine .inr ⟨by rw [saved]; exact small, receipt, receipted, .inr ⟨identity,
        notice.occurredAtMs, notice.reason, identified, ?_⟩⟩
      rw [← named]
      exact inside
    · refine .inl ⟨noticeId, body, ?_⟩
      rw [reads, if_neg (by simpa using here)]
      exact found
  · refine fun faithful => (law.tally faithful).kept (by rw [reads, if_neg (by simp)])
      (fun name body found => by rwa [reads, if_neg (by simp)] at found) fun name body found => ?_
    rw [reads] at found
    split at found
    · cases found
    · exact found

/-- A receipt file may go at any time. -/
theorem Lawful.dropReceipt {name : Str} (law : Lawful key host offered d older)
    (reads : ∀ path, d'.read path = if path = .receipt name then none else d.read path) :
    Lawful key host offered d' (d :: older) := by
  have saved : d'.savedNext = d.savedNext := savedNext_congr (by rw [reads, if_neg (by simp)])
  apply law.next
  · exact fun name body found => by rwa [reads, if_neg (by simp)] at found
  · exact fun name body found => .inl (by rwa [reads, if_neg (by simp)] at found)
  · intro name body found
    rw [reads] at found
    split at found
    · cases found
    · exact .inl found
  · exact saved.ge
  · exact fun t other _ stands => .inl (by
      simpa only [Disk.HasPending, reads, reduceCtorEq, if_false] using stands)
  · exact fun t other _ stands => .inl (by
      simpa only [Disk.HasGap, reads, reduceCtorEq, if_false] using stands)
  · exact fun faithful => (law.tally faithful).kept (by rw [reads, if_neg (by simp)])
      (fun name body found => by rwa [reads, if_neg (by simp)] at found)
      fun name body found => by rwa [reads, if_neg (by simp)] at found

/-- Writing the notice of something admitted keeps the disk lawful. -/
theorem Lawful.putGap {notice : GapNoticeV2} (law : Lawful key host offered d older)
    (known : NoticeOf key host (d :: older) notice)
    (counted : FaithfulIds host offered → notice.reason = .retentionExpired →
      notice.spoolSeq ∈ listedSequences (d :: older))
    (damaged : notice.reason = .integrityQuarantine →
      ¬ Blameless key host offered (d :: older)) :
    Lawful key host offered
      (d.put (key.encrypt (.gap notice)) (.gap (gapFileName notice.spoolSeq notice.noticeId)))
      (d :: older) := by
  apply law.next
  · exact fun name body found => by rwa [Disk.read_put, if_neg (by simp)] at found
  · intro name body found
    rw [Disk.read_put] at found
    split at found
    · rename_i here
      exact .inr ⟨notice, known, by simpa using here, (Option.some.inj found).symm, damaged⟩
    · exact .inl found
  · exact fun name body found => .inl (by rwa [Disk.read_put, if_neg (by simp)] at found)
  · exact le_rfl
  · exact fun t other _ stands => .inl (by
      simpa only [Disk.HasPending, Disk.read_put, reduceCtorEq, if_false] using stands)
  · rintro t other _ ⟨noticeId, body, found⟩
    refine .inl ⟨noticeId, ?_⟩
    rw [Disk.read_put]
    split
    · exact ⟨_, rfl⟩
    · exact ⟨body, found⟩
  · intro faithful
    apply (law.tally faithful).next (by rw [Disk.read_put, if_neg (by simp)])
    · rintro t other admitted ⟨body, found⟩ -
      rw [Disk.read_put, if_neg (by simp)] at found
      exact ⟨admitted.back fun name body found => by
        rwa [Disk.read_put, if_neg (by simp)] at found, body, found⟩
    · intro name other found retention
      rw [Disk.read_put] at found
      split at found
      · have same := Option.some.inj found
        simp only [EncryptionKey.encrypt, Blob.encrypted.injEq, Plain.gap.injEq, true_and] at same
        rw [← same] at retention ⊢
        exact .inr (counted faithful retention)
      · exact .inl found

/-- So does writing a receipt for what was delivered. -/
theorem Lawful.putReceipt {receipt : AckReceipt} (law : Lawful key host offered d older)
    (below : receipt.Below key host (d :: older) d.savedNext)
    (drawn : receipt.DrawnFrom host (NoticeOf key host (d :: older)) (AdmittedAs key (d :: older))
      (AdmittedAt key (d :: older))) :
    Lawful key host offered
      (d.put (key.encrypt (.receipt receipt))
        (.receipt (receiptFileName receipt.sequence receipt.batchId)))
      (d :: older) := by
  apply law.next
  · exact fun name body found => by rwa [Disk.read_put, if_neg (by simp)] at found
  · exact fun name body found => .inl (by rwa [Disk.read_put, if_neg (by simp)] at found)
  · intro name body found
    rw [Disk.read_put] at found
    split at found
    · rename_i here
      exact .inr (.inr ⟨receipt, by simpa using here, (Option.some.inj found).symm, below, drawn⟩)
    · exact .inl found
  · exact le_rfl
  · exact fun t other _ stands => .inl (by
      simpa only [Disk.HasPending, Disk.read_put, reduceCtorEq, if_false] using stands)
  · exact fun t other _ stands => .inl (by
      simpa only [Disk.HasGap, Disk.read_put, reduceCtorEq, if_false] using stands)
  · exact fun faithful => (law.tally faithful).kept (by rw [Disk.read_put, if_neg (by simp)])
      (fun name body found => by rwa [Disk.read_put, if_neg (by simp)] at found)
      fun name body found => by rwa [Disk.read_put, if_neg (by simp)] at found

/-- So does writing counters that do not fall back. -/
theorem Lawful.putSequence {sequence : SequenceState} (law : Lawful key host offered d older)
    (grows : d.savedNext ≤ sequence.nextSpoolSequence)
    (tally : FaithfulIds host offered →
      Tallied key (d.put (key.encrypt (.sequence sequence)) .sequence) (d :: older)) :
    Lawful key host offered (d.put (key.encrypt (.sequence sequence)) .sequence) (d :: older) := by
  apply law.next
  · exact fun name body found => by rwa [Disk.read_put, if_neg (by simp)] at found
  · exact fun name body found => .inl (by rwa [Disk.read_put, if_neg (by simp)] at found)
  · exact fun name body found => .inl (by rwa [Disk.read_put, if_neg (by simp)] at found)
  · exact grows
  · exact fun t other _ stands => .inl (by
      simpa only [Disk.HasPending, Disk.read_put, reduceCtorEq, if_false] using stands)
  · exact fun t other _ stands => .inl (by
      simpa only [Disk.HasGap, Disk.read_put, reduceCtorEq, if_false] using stands)
  · exact tally

/-- The laws ask only that admitted envelopes were offered. -/
theorem Lawful.offering {permitted : Nat → Envelope → Prop}
    (weaker : ∀ s envelope, offered s envelope → permitted s envelope)
    (law : Lawful key host offered d older) : Lawful key host permitted d older := by
  refine { law with
    origin := fun s record admitted => ?_
    tally := fun faithful => law.tally (faithful.offering weaker)
    integrity := fun blameless => law.integrity
      ⟨fun s envelope offer => blameless.exact_ s envelope (weaker _ _ offer),
        blameless.unharmed⟩ }
  obtain ⟨positive, bounded, inner, envelope, admittedAtMs, same, offer, facts⟩ :=
    law.origin s record admitted
  exact ⟨positive, bounded, inner, envelope, admittedAtMs, same, weaker _ _ offer, facts⟩

end Next

end TeslatlasEdge
