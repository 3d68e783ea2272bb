/-
Module: TeslatlasEdge.Spool.Backing
Purpose: What ties the state of a running spool to its files, and that every elementary effect keeps
  both the tie and the laws of the files, at every point where the process may stop.
Trusted boundary: none
Main exports: DistinctNotices, Backed, Sound, Effect.sound, Chain.sound
-/
import TeslatlasEdge.Spool.Accounts
import TeslatlasEdge.Spool.Legibility

namespace TeslatlasEdge

open Lib

/-! ### Notices -/

/-- Among the offered envelopes a notice identity tells its sequence: the digests do not collide. -/
def DistinctNotices (host : Host) (offered : Nat → Envelope → Prop) : Prop :=
  ∀ s a t b identity identity' occurredAtMs occurredAtMs' reason reason',
    offered s a → offered t b →
    a.stableRecordId host = identity ∨ a.recordId host = identity →
    b.stableRecordId host = identity' ∨ b.recordId host = identity' →
    (gapNoticeForIdentity host s identity occurredAtMs reason).noticeId =
      (gapNoticeForIdentity host t identity' occurredAtMs' reason').noticeId → s = t

section Notices

variable {key : EncryptionKey} {host : Host} {offered : Nat → Envelope → Prop} {d : Disk}
  {older : List Disk}

/-- A stored record is identified as its envelope is. -/
theorem WrittenFor.identity {s : Nat} {record : StoredRecord Str} {identity : RecordId}
    (source : WrittenFor host offered s record) (identified : record.IdentifiedBy identity) :
    ∃ envelope, offered s envelope ∧
      (envelope.stableRecordId host = identity ∨ envelope.recordId host = identity) := by
  obtain ⟨inner, envelope, admittedAtMs, rfl, offer, -, rfl⟩ := source
  refine ⟨envelope, offer, ?_⟩
  rcases identified with stable | legacy
  · exact .inl (Option.some.inj stable)
  · exact .inr legacy

/-- Notices with one identity tell of one sequence. -/
theorem Lawful.notice_seq (law : Lawful key host offered d older)
    (distinct : DistinctNotices host offered) {notice other : GapNoticeV2}
    (known : NoticeOf key host (d :: older) notice) (known' : NoticeOf key host (d :: older) other)
    (same : notice.noticeId = other.noticeId) : notice.spoolSeq = other.spoolSeq := by
  obtain ⟨record, identity, admitted, identified, named⟩ := known
  obtain ⟨record', identity', admitted', identified', named'⟩ := known'
  obtain ⟨envelope, offer, who⟩ := (law.origin _ _ admitted).2.2.identity identified
  obtain ⟨envelope', offer', who'⟩ := (law.origin _ _ admitted').2.2.identity identified'
  rw [named, named'] at same
  exact distinct _ _ _ _ _ _ _ _ _ _ offer offer' who who' same

end Notices

/-! ### Machines -/

/-- The state of a machine is backed by its files. -/
structure Backed (key : EncryptionKey) (m : Machine) : Prop where
  pathed : m.state.Pathed
  entry : ∀ entry, m.state.Holds entry → ∃ record, Admitted key m.timeline entry.spoolSeq record ∧
    record.recordId = entry.recordId ∧ record.stableRecordId = some entry.stableRecordId
  gap : ∀ noticeId gap, m.state.gaps.get? noticeId = some gap →
    m.disk.read gap.path = some (key.encrypt (.gap gap.notice))
  next : ∀ s record, Admitted key m.timeline s record → s < m.state.nextSpoolSequence ∨
    m.storageWriteFailed = true ∧ s = m.state.nextSpoolSequence
  saved : m.disk.savedNext ≤ m.state.nextSpoolSequence
  positive : 1 ≤ m.state.nextSpoolSequence

/-- The laws have held at every point up to now, and nothing that was past is rewritten. -/
structure AlwaysLawful (key : EncryptionKey) (host : Host) (offered : Nat → Envelope → Prop)
    (since timeline : List Disk) : Prop where
  laws : ∀ d older, d :: older <:+ timeline → Lawful key host offered d older
  later : since <:+ timeline
  /-- Whatever pending file is unreadable now was so before. -/
  harmless : ∀ d ∈ timeline, ∀ name body, d.read (.pending name) = some body →
    Unreadable key host body → ∃ e ∈ since, e.read (.pending name) = some body

structure Sound (key : EncryptionKey) (host : Host) (offered : Nat → Envelope → Prop)
    (since : List Disk) (m : Machine) : Prop where
  always : AlwaysLawful key host offered since m.timeline
  backed : Backed key m
  accounts : FaithfulIds host offered → Accounts m
  /-- The files of held entries stand, as long as nothing has spoiled a record. -/
  stands : Blameless key host offered m.timeline → ∀ entry, m.state.Holds entry →
    ∃ body, m.disk.read entry.path = some body

/-- The disk of a sound machine is lawful. -/
theorem Sound.lawful {key : EncryptionKey} {host : Host} {offered : Nat → Envelope → Prop}
    {since : List Disk} {m : Machine} (sound : Sound key host offered since m) :
    Lawful key host offered m.disk m.history :=
  sound.always.laws _ _ (List.suffix_refl _)

/-- Disks that were lawful throughout stay so with one more that is. -/
theorem AlwaysLawful.cons {key : EncryptionKey} {host : Host} {offered : Nat → Envelope → Prop}
    {since older : List Disk} {d d' : Disk}
    (always : AlwaysLawful key host offered since (d :: older))
    (law : Lawful key host offered d' (d :: older))
    (pendings : ∀ name body, d'.read (.pending name) = some body →
      d.read (.pending name) = some body ∨ ¬ Unreadable key host body) :
    AlwaysLawful key host offered since (d' :: d :: older) := by
  refine ⟨fun e past within => ?_, always.later.trans (List.suffix_cons _ _),
    fun e inside name body found unreadable => ?_⟩
  · rcases List.suffix_cons_iff.mp within with same | before
    · obtain ⟨rfl, rfl⟩ := List.cons.inj same
      exact law
    · exact always.laws e past before
  · rcases List.mem_cons.mp inside with rfl | inside
    · rcases pendings name body found with before | readable
      · exact always.harmless d List.mem_cons_self name body before unreadable
      · exact absurd unreadable readable
    · exact always.harmless e inside name body found unreadable

/-- The laws hold of every earlier point. -/
theorem AlwaysLawful.until {key : EncryptionKey} {host : Host} {offered : Nat → Envelope → Prop}
    {since timeline earlier : List Disk} (always : AlwaysLawful key host offered since timeline)
    (reached : earlier <:+ timeline) (started : since <:+ earlier) :
    AlwaysLawful key host offered since earlier :=
  ⟨fun d older within => always.laws d older (within.trans reached), started,
    fun d inside => always.harmless d (reached.mem inside)⟩

/-- Damage from outside is no one's doing but its own. -/
theorem AlwaysLawful.damaged {key : EncryptionKey} {host : Host} {offered : Nat → Envelope → Prop}
    {since timeline : List Disk} {d : Disk} (always : AlwaysLawful key host offered since timeline)
    (law : Lawful key host offered d timeline) :
    AlwaysLawful key host offered (d :: timeline) (d :: timeline) := by
  refine ⟨fun e older within => ?_, List.suffix_refl _, fun e inside _ _ found _ =>
    ⟨e, inside, found⟩⟩
  rcases List.suffix_cons_iff.mp within with same | before
  · obtain ⟨rfl, rfl⟩ := List.cons.inj same
    exact law
  · exact always.laws e older before

/-- The laws have held up to now; from here on is another matter. -/
theorem AlwaysLawful.restart {key : EncryptionKey} {host : Host} {offered : Nat → Envelope → Prop}
    {since timeline : List Disk} (always : AlwaysLawful key host offered since timeline) :
    AlwaysLawful key host offered timeline timeline :=
  ⟨always.laws, List.suffix_refl _, fun d inside _ _ found _ => ⟨d, inside, found⟩⟩

theorem AlwaysLawful.offering {key : EncryptionKey} {host : Host}
    {offered permitted : Nat → Envelope → Prop} {since timeline : List Disk}
    (weaker : ∀ s envelope, offered s envelope → permitted s envelope)
    (always : AlwaysLawful key host offered since timeline) :
    AlwaysLawful key host permitted since timeline :=
  ⟨fun d older within => (always.laws d older within).offering weaker, always.later,
    always.harmless⟩

/-- Soundness is kept when more may be offered. -/
theorem Sound.offering {key : EncryptionKey} {host : Host}
    {offered permitted : Nat → Envelope → Prop} {since : List Disk} {m : Machine}
    (weaker : ∀ s envelope, offered s envelope → permitted s envelope)
    (sound : Sound key host offered since m) : Sound key host permitted since m :=
  ⟨sound.always.offering weaker, sound.backed, fun faithful =>
    sound.accounts (faithful.offering weaker), fun blameless =>
      sound.stands ⟨fun s envelope offer => blameless.exact_ s envelope (weaker _ _ offer),
        blameless.unharmed⟩⟩

section Machines

variable {inner : Inner} {offered : Nat → Envelope → Prop} {since : List Disk} {m m' : Machine}

/-- A held entry's notice tells of its admission. -/
theorem Backed.noticeOf {key : EncryptionKey} (backed : Backed key m) {entry : Entry}
    (held : m.state.Holds entry) (host : Host) (occurredAtMs : I64) (reason : GapReasonV2) :
    NoticeOf key host m.timeline (gapNotice host entry occurredAtMs reason) := by
  obtain ⟨record, admitted, -, stable⟩ := backed.entry entry held
  exact ⟨record, entry.stableRecordId, admitted, .inl stable, rfl⟩

/-- Whatever identity a state lists, a record was admitted under it. -/
theorem Backed.admittedAs {key : EncryptionKey} (backed : Backed key m) {recordId : RecordId}
    (listed : m.state.Lists recordId) : AdmittedAs key m.timeline recordId := by
  obtain ⟨entry, held, rfl⟩ := listed
  obtain ⟨record, admitted, named, -⟩ := backed.entry entry held
  exact ⟨entry.spoolSeq, record, admitted, named⟩

/-- Whatever sequence it occupies, a record was admitted under it. -/
theorem Backed.admittedAt {key : EncryptionKey} (backed : Backed key m) {spoolSeq : Nat}
    (occupied : m.state.Occupies spoolSeq) : AdmittedAt key m.timeline spoolSeq := by
  obtain ⟨entry, held, rfl⟩ := occupied
  obtain ⟨record, admitted, -⟩ := backed.entry entry held
  exact ⟨record, admitted⟩

/-- A held gap's notice tells of an admission. -/
theorem Sound.heldNotice {key : EncryptionKey} {host : Host} (sound : Sound key host offered since m)
    {noticeId : RecordId} {gap : GapEntry} (held : m.state.gaps.get? noticeId = some gap) :
    NoticeOf key host m.timeline gap.notice := by
  have stands := sound.backed.gap noticeId gap held
  rw [sound.backed.pathed.gaps noticeId gap held] at stands
  obtain ⟨notice, known, -, content⟩ := sound.lawful.gap _ _ stands
  simp only [EncryptionKey.encrypt, Blob.encrypted.injEq, Plain.gap.injEq, true_and] at content
  rw [content]
  exact known

/-- A notice the state reports tells of an admission. -/
theorem Sound.reported {key : EncryptionKey} {host : Host} (sound : Sound key host offered since m)
    {notice : GapNoticeV2} (told : m.state.Reports host notice) :
    NoticeOf key host m.timeline notice := by
  rcases told with ⟨noticeId, gap, found, rfl⟩ | ⟨entry, held, -, rfl⟩
  · exact sound.heldNotice found
  · exact sound.backed.noticeOf held _ _ _

/-- A gap held under a notice identity of the entry stands for the entry's sequence. -/
theorem Sound.hasGap {key : EncryptionKey} {host : Host} (sound : Sound key host offered since m)
    (distinct : DistinctNotices host offered) {entry : Entry} (held : m.state.Holds entry)
    {occurredAtMs : I64} {reason : GapReasonV2} {gap : GapEntry}
    (found : m.state.gaps.get? (gapNotice host entry occurredAtMs reason).noticeId = some gap) :
    m.disk.HasGap entry.spoolSeq := by
  have named := sound.backed.pathed.gapKeyed _ gap found
  have same : gap.notice.spoolSeq = entry.spoolSeq :=
    sound.lawful.notice_seq distinct (sound.heldNotice found)
      (sound.backed.noticeOf held host occurredAtMs reason) named
  have stands := sound.backed.gap _ gap found
  rw [sound.backed.pathed.gaps _ gap found, same] at stands
  exact ⟨_, _, stands⟩

/-- A step that admits nothing and forgets no file of a held gap keeps the backing. -/
theorem Backed.kept {key : EncryptionKey} (backed : Backed key m) (pathed : m'.state.Pathed)
    (later : m.timeline <:+ m'.timeline)
    (back : ∀ s record, Admitted key m'.timeline s record → Admitted key m.timeline s record)
    (entries : ∀ entry, m'.state.Holds entry → m.state.Holds entry)
    (gaps : ∀ noticeId gap, m'.state.gaps.get? noticeId = some gap →
      m'.disk.read gap.path = some (key.encrypt (.gap gap.notice)))
    (next : m'.state.nextSpoolSequence = m.state.nextSpoolSequence)
    (latch : m.storageWriteFailed = true → m'.storageWriteFailed = true)
    (saved : m'.disk.savedNext ≤ m.state.nextSpoolSequence) : Backed key m' := by
  refine ⟨pathed, fun entry held => ?_, gaps, fun s record admitted => ?_, by rw [next]; exact saved,
    by rw [next]; exact backed.positive⟩
  · obtain ⟨record, admitted, facts⟩ := backed.entry entry (entries entry held)
    exact ⟨record, admitted.mono later, facts⟩
  · rw [next]
    rcases backed.next s record (back s record admitted) with below | ⟨failed, here⟩
    · exact .inl below
    · exact .inr ⟨latch failed, here⟩

/-- What a receipt about to be written accepts was admitted below the saved counter. -/
theorem Sound.below {receipt : AckReceipt} (sound : Sound inner.key inner.host offered since m)
    (fits : Accepting inner.host m.state receipt) (open_ : m.storageWriteFailed = false)
    (settled : m.Settled inner.key) :
    receipt.Below inner.key inner.host m.timeline m.disk.savedNext := by
  have saved : m.disk.savedNext = m.state.nextSpoolSequence := by
    rcases settled with latched | ⟨sequence, stands, same, -⟩
    · rw [open_] at latched
      cases latched
    · rw [Disk.savedNext, stands, EncryptionKey.encrypt]
      exact same
  have below : ∀ s record, Admitted inner.key m.timeline s record → s < m.disk.savedNext := by
    intro s record admitted
    rcases sound.backed.next s record admitted with below | ⟨failed, -⟩
    · rw [saved]
      exact below
    · rw [open_] at failed
      cases failed
  refine ⟨fun admission inside => ?_, fun noticeId inside => ?_⟩
  · obtain ⟨entry, held, rfl⟩ := fits.admissions admission inside
    obtain ⟨record, admitted, legacy, stable⟩ := sound.backed.entry entry held
    exact ⟨below _ _ admitted, record, admitted, stable, legacy⟩
  · rcases fits.notices noticeId inside with ⟨gap, found⟩ | ⟨entry, held, -, rfl⟩
    · have known := sound.heldNotice found
      refine ⟨gap.notice, sound.backed.pathed.gapKeyed _ gap found, known, ?_⟩
      obtain ⟨record, -, admitted, -⟩ := known
      exact below _ _ admitted
    · have known := sound.backed.noticeOf held inner.host entry.expiresAtMs .retentionExpired
      refine ⟨_, rfl, known, ?_⟩
      obtain ⟨record, -, admitted, -⟩ := known
      exact below _ _ admitted

/-- What the accounts need is known of a sound machine. -/
theorem Sound.identified (sound : Sound inner.key inner.host offered since m)
    (faithful : FaithfulIds inner.host offered) : Identified inner offered m := by
  have law := sound.lawful
  have same : ∀ entry other, m.state.Holds entry → m.state.Holds other →
      entry.spoolSeq = other.spoolSeq → entry = other := by
    intro entry other held held' same
    obtain ⟨record, admitted, legacy, -⟩ := sound.backed.entry entry held
    obtain ⟨record', admitted', legacy', -⟩ := sound.backed.entry other held'
    rw [← same] at admitted'
    obtain rfl := law.once _ _ _ admitted admitted'
    rw [State.Holds, ← legacy, legacy', held'] at held
    exact (Option.some.inj held).symm
  refine ⟨fun envelope offer entry held named => ?_, sound.backed.pathed, same, fun open_ listed => ?_,
    fun receipt receipted admission accepted entry held sequence => ?_⟩
  · obtain ⟨record, admitted, legacy, stable⟩ := sound.backed.entry entry held
    obtain ⟨-, -, origin⟩ := law.origin _ _ admitted
    obtain ⟨inner', envelope', admittedAtMs, host, offer', -, rfl⟩ := origin
    rw [← host] at faithful named ⊢
    have stable' : envelope'.stableRecordId inner'.host = entry.stableRecordId :=
      Option.some.inj stable
    have legacy' : envelope'.recordId inner'.host = entry.recordId := legacy
    rw [← stable']
    exact faithful _ _ _ _ offer' offer (legacy'.trans named)
  · obtain ⟨record, admitted⟩ := (law.tally faithful).admitted _ listed
    rcases sound.backed.next _ record admitted with below | ⟨failed, -⟩
    · exact lt_irrefl _ below
    · rw [open_] at failed
      cases failed
  · obtain ⟨-, record, admitted, stable, legacy⟩ :=
      (law.accepted receipt receipted).admissions admission accepted
    obtain ⟨record', admitted', legacy', stable'⟩ := sound.backed.entry entry held
    rw [sequence] at admitted'
    obtain rfl := law.once _ _ _ admitted admitted'
    rw [stable] at stable'
    rw [legacy] at legacy'
    simp only [Entry.admission, sequence, ← Option.some.inj stable', ← legacy']

/-- A new sequence file counts everything listed so far. -/
theorem Sound.tallied {total : Nat} {counted : OrdMap Nat RecordId} {sequence : SequenceState}
    (sound : Sound inner.key inner.host offered since m)
    (faithful : FaithfulIds inner.host offered) (open_ : m.storageWriteFailed = false)
    (fits : Counting m.state total counted) (same : sequence.expiredRecordsTotal = total)
    (lists : sequence.countedPendingExpirations = counted) :
    Tallied inner.key (m.disk.put (inner.key.encrypt (.sequence sequence)) .sequence)
      m.timeline := by
  have law := sound.lawful
  have accounts := sound.accounts faithful
  apply (law.tally faithful).putSequence
  · rw [same, lists]
    exact fits.total_eq_card accounts.tally open_
  · intro s inside
    rw [lists, mem_keys_iff_contains, OrdMap.contains_iff] at inside
    obtain ⟨identity, found⟩ := inside
    rcases fits.added s identity found with before | ⟨entry, held, rfl, -⟩
    · exact (law.tally faithful).admitted s (accounts.tally.counted s
        (OrdMap.contains_iff.mpr ⟨identity, before⟩))
    · obtain ⟨record, admitted, -⟩ := sound.backed.entry entry held
      exact ⟨record, admitted⟩
  · rintro s record admitted ⟨body, stands⟩ listed
    rcases accounts.pendings _ body stands with ⟨entry, held, path⟩ | ⟨failed, -⟩
    · rw [sound.backed.pathed.entries entry held] at path
      obtain ⟨other, admitted', -⟩ := sound.backed.entry entry held
      have range := law.origin s record admitted
      have range' := law.origin _ other admitted'
      obtain ⟨rfl, -⟩ := pendingFileName_injective range'.1 range'.2.1.le range.1 range.2.1.le
        (Path.pending.inj path)
      obtain ⟨identity, found⟩ := OrdMap.contains_iff.mp
        (accounts.tally.held open_ entry held listed)
      rw [lists, mem_keys_iff_contains]
      exact OrdMap.contains_iff.mpr ⟨identity, fits.kept _ _ found⟩
    · rw [open_] at failed
      cases failed

/-- As long as nothing has spoiled a record, every held entry reads back. -/
theorem Sound.decodes (sound : Sound inner.key inner.host offered since m)
    (blameless : Blameless inner.key inner.host offered m.timeline) {entry : Entry}
    (held : m.state.Holds entry) :
    ∃ record, Admitted inner.key m.timeline entry.spoolSeq record ∧
      decodeEntry inner entry (m.disk.read entry.path) =
        .ok (record.map inner.host.codec.parse) := by
  obtain ⟨record, admitted, legacy, stable⟩ := sound.backed.entry entry held
  obtain ⟨body, stands⟩ := sound.stands blameless entry held
  refine ⟨record, admitted, ?_⟩
  rw [stands]
  rw [sound.backed.pathed.entries entry held] at stands
  exact sound.lawful.decodes blameless admitted legacy stable stands

/-- Every write keeps the laws of the files. -/
theorem Write.lawful {path : Path} {body : Blob} {record : State → State}
    (write : Write inner offered m path body record)
    (sound : Sound inner.key inner.host offered since m) (open_ : m.storageWriteFailed = false) :
    Lawful inner.key inner.host offered (m.disk.put body path) m.timeline := by
  cases write with
  | sequence fits =>
      exact sound.lawful.putSequence sound.backed.saved fun faithful =>
        sound.tallied faithful open_ fits rfl rfl
  | @pending envelope admittedAtMs _ entry offer valid absent next content named room small
      delivery bytes retention =>
      subst content named
      refine sound.lawful.admitEntry (s := m.state.nextSpoolSequence)
        sound.backed.positive (by omega) ⟨inner, envelope, admittedAtMs, rfl, offer, valid, rfl⟩
        ⟨small, I64.le_saturatingAdd retention⟩ ?_
      intro other admitted
      rcases sound.backed.next _ other admitted with below | ⟨failed, -⟩
      · exact lt_irrefl _ below
      · rw [open_] at failed
        cases failed
  | gap held named content absent single room small bytes counted damaged =>
      subst content named
      refine sound.lawful.putGap (sound.backed.noticeOf held _ _ _)
        (fun faithful retention =>
          (sound.accounts faithful).tally.counted _ (counted retention))
        fun integrity blameless => ?_
      obtain ⟨record, -, decoded⟩ := sound.decodes blameless held
      exact damaged integrity _ decoded
  | receipt fits allocated small settled drawn =>
      exact sound.lawful.putReceipt (sound.below fits open_ settled)
        (drawn.mono (fun notice told => sound.reported told)
          (fun recordId known => sound.backed.admittedAs known) fun s known =>
            sound.backed.admittedAt known)

/-- A write admits at most the next sequence. -/
theorem Write.admitted {path : Path} {body : Blob} {record : State → State} {s : Nat}
    {stored : StoredRecord Str} (write : Write inner offered m path body record)
    (admitted : Admitted inner.key (m.disk.put body path :: m.timeline) s stored) :
    Admitted inner.key m.timeline s stored ∨ s = m.state.nextSpoolSequence ∧
      (record m.state).nextSpoolSequence = m.state.nextSpoolSequence + 1 := by
  cases write with
  | sequence | gap | receipt =>
      exact .inl (admitted.back fun name body found => by
        rwa [Disk.read_put, if_neg (by simp)] at found)
  | pending offer valid absent next content named =>
      subst content named
      rcases admitted_cons.mp admitted with ⟨sequence, now⟩ | before
      · rw [Disk.read_put] at now
        split at now
        · have same := Option.some.inj now
          simp only [Plain.ofStoredRecord, EncryptionKey.encrypt, Blob.encrypted.injEq,
            Plain.record.injEq, true_and] at same
          subst same
          exact .inr ⟨(Option.some.inj sequence).symm, rfl⟩
        · exact .inl (admitted_cons.mpr (.inl ⟨sequence, now⟩))
      · exact .inl before

/-- A write leaves the files of the held gaps alone. -/
theorem Write.heldGap {path : Path} {body : Blob} {record : State → State}
    (write : Write inner offered m path body record)
    (sound : Sound inner.key inner.host offered since m) {noticeId : RecordId} {gap : GapEntry}
    (held : m.state.gaps.get? noticeId = some gap) :
    (m.disk.put body path).read gap.path = some (inner.key.encrypt (.gap gap.notice)) := by
  have stands := sound.backed.gap noticeId gap held
  have known := sound.heldNotice held
  rw [Disk.read_put]
  split
  · rename_i here
    rw [sound.backed.pathed.gaps noticeId gap held] at here
    cases write with
    | gap heldEntry named content absent =>
        -- the file would carry the identity of a gap that is not held
        subst named
        obtain ⟨record, -, admitted, -⟩ := known
        obtain ⟨record', -, admitted', -⟩ := sound.backed.noticeOf heldEntry inner.host _ _
        have named := (gapFileName_injective (sound.lawful.origin _ _ admitted).2.1.le
          (sound.lawful.origin _ _ admitted').2.1.le (Path.gap.inj here)).2
        rw [sound.backed.pathed.gapKeyed noticeId gap held] at named
        rw [← named, held] at absent
        cases absent
    | pending offer valid absent next content named =>
        rw [named] at here
        cases here
    | sequence | receipt => cases here
  · exact stands

/-- A write damages no pending file. -/
theorem Write.readable {path : Path} {body : Blob} {record : State → State} {name : Str}
    {content : Blob} {host : Host} (write : Write inner offered m path body record)
    (found : (m.disk.put body path).read (.pending name) = some content) :
    m.disk.read (.pending name) = some content ∨ ¬ Unreadable inner.key host content := by
  rw [Disk.read_put] at found
  split at found
  · rename_i here
    cases write with
    | sequence | gap | receipt => cases here
    | pending _ _ _ _ written =>
        refine .inr fun unreadable => ?_
        rw [← Option.some.inj found, written] at unreadable
        exact unreadable _ (inner.key.decrypt_encrypt host _)
  · exact .inl found

theorem Write.saved {path : Path} {body : Blob} {record : State → State}
    (write : Write inner offered m path body record)
    (saved : m.disk.savedNext ≤ m.state.nextSpoolSequence) :
    (m.disk.put body path).savedNext ≤ m.state.nextSpoolSequence := by
  cases write with
  | sequence => exact le_rfl
  | gap | receipt => exact saved
  | pending offer valid absent next content named =>
      subst named
      exact saved

/-- A write never takes the next number back. -/
theorem Write.next_le {path : Path} {body : Blob} {record : State → State}
    (write : Write inner offered m path body record) :
    m.state.nextSpoolSequence ≤ (record m.state).nextSpoolSequence := by
  cases write with
  | sequence | gap | receipt => exact le_rfl
  | pending => exact Nat.le_succ _

/-- A write that has placed its file leaves the state backed. -/
theorem Write.backed {path : Path} {body : Blob} {record : State → State} {faults : Faults}
    (write : Write inner offered m path body record)
    (sound : Sound inner.key inner.host offered since m) (open_ : m.storageWriteFailed = false)
    (pathed : (record m.state).Pathed) :
    Backed inner.key { (m.place path body).update record with faults := faults } := by
  have later : m.timeline <:+ m.disk.put body path :: m.timeline := List.suffix_cons _ _
  have saved := write.saved sound.backed.saved
  have next := write.next_le
  have positive := sound.backed.positive
  have old : ∀ s stored, Admitted inner.key m.timeline s stored →
      s < m.state.nextSpoolSequence := by
    intro s stored admitted
    rcases sound.backed.next s stored admitted with below | ⟨failed, -⟩
    · exact below
    · rw [open_] at failed
      cases failed
  refine ⟨pathed, fun entry held => ?_, fun noticeId gap held => ?_, fun s stored admitted => ?_,
    by exact saved.trans next, by exact positive.trans next⟩
  · change (record m.state).Holds entry at held
    change ∃ stored, Admitted inner.key (m.disk.put body path :: m.timeline) _ stored ∧ _
    have before : m.state.Holds entry → ∃ stored,
        Admitted inner.key (m.disk.put body path :: m.timeline) entry.spoolSeq stored ∧
          stored.recordId = entry.recordId ∧
          stored.stableRecordId = some entry.stableRecordId := by
      intro held
      obtain ⟨stored, admitted, facts⟩ := sound.backed.entry entry held
      exact ⟨stored, admitted.mono later, facts⟩
    cases write with
    | sequence | gap | receipt => exact before held
    | @pending envelope admittedAtMs _ _ offer valid absent next content named =>
        subst content named
        change (m.state.entries.insert _ _).get? _ = _ at held
        rw [OrdMap.get?_insert] at held
        split at held
        · rw [← Option.some.inj held]
          refine ⟨(storedRecord inner envelope admittedAtMs m.state.nextSpoolSequence).map
            inner.host.codec.print, admitted_cons.mpr (.inl ⟨rfl, ?_⟩), rfl, rfl⟩
          exact (Disk.read_put _ _ _ _).trans (if_pos rfl)
        · exact before held
  · change (record m.state).gaps.get? noticeId = some gap at held
    change (m.disk.put body path).read gap.path = _
    have before : m.state.gaps.get? noticeId = some gap →
        (m.disk.put body path).read gap.path = some (inner.key.encrypt (.gap gap.notice)) :=
      fun held => write.heldGap sound held
    cases write with
    | sequence | pending | receipt => exact before held
    | gap heldEntry named content =>
        change (m.state.gaps.insert _ _).get? _ = _ at held
        rw [OrdMap.get?_insert] at held
        split at held
        · obtain rfl := Option.some.inj held
          rw [Disk.read_put, if_pos rfl, content]
        · exact before held
  · change s < (record m.state).nextSpoolSequence ∨ _
    rcases write.admitted admitted with before | ⟨here, grown⟩
    · exact .inl ((old s stored before).trans_le next)
    · left
      omega

/-- A write that fails after its file stands leaves the state backed behind the latch. -/
theorem Write.backed_unsynced {path : Path} {body : Blob} {record : State → State}
    {faults : Faults} (write : Write inner offered m path body record)
    (sound : Sound inner.key inner.host offered since m) :
    Backed inner.key
      { m.place path body with storageWriteFailed := true, faults := faults } := by
  have later : m.timeline <:+ m.disk.put body path :: m.timeline := List.suffix_cons _ _
  refine ⟨sound.backed.pathed, fun entry held => ?_,
    fun noticeId gap held => write.heldGap sound held, fun s stored admitted => ?_,
    write.saved sound.backed.saved, sound.backed.positive⟩
  · obtain ⟨stored, admitted, facts⟩ := sound.backed.entry entry held
    exact ⟨stored, admitted.mono later, facts⟩
  · change s < m.state.nextSpoolSequence ∨ true = true ∧ s = m.state.nextSpoolSequence
    rcases write.admitted admitted with before | ⟨here, -⟩
    · rcases sound.backed.next s stored before with below | ⟨-, here⟩
      · exact .inl below
      · exact .inr ⟨rfl, here⟩
    · exact .inr ⟨rfl, here⟩

/-- Each held entry has a file of its own. -/
theorem Sound.path_injective {key : EncryptionKey} {host : Host}
    (sound : Sound key host offered since m) {entry other : Entry} (held : m.state.Holds entry)
    (held' : m.state.Holds other) (same : entry.path = other.path) : entry = other := by
  rw [sound.backed.pathed.entries entry held, sound.backed.pathed.entries other held'] at same
  obtain ⟨record, admitted, -⟩ := sound.backed.entry entry held
  obtain ⟨record', admitted', -⟩ := sound.backed.entry other held'
  have range := sound.lawful.origin _ _ admitted
  have range' := sound.lawful.origin _ _ admitted'
  have id := (pendingFileName_injective range.1 range.2.1.le range'.1 range'.2.1.le
    (Path.pending.inj same)).2
  rw [State.Holds, id, held'] at held
  exact (Option.some.inj held).symm

/-- What becomes of an entry's sequence when its file goes. -/
theorem Removal.covered {path : Path} {record : State → State} {entry : Entry}
    {stored : StoredRecord Str} (removal : Removal inner m path record)
    (sound : Sound inner.key inner.host offered since m) (distinct : DistinctNotices inner.host offered)
    (held : m.state.Holds entry) (here : path = entry.path)
    (admitted : Admitted inner.key m.timeline entry.spoolSeq stored)
    (legacy : stored.recordId = entry.recordId)
    (stable : stored.stableRecordId = some entry.stableRecordId) :
    m.disk.HasGap entry.spoolSeq ∨ entry.spoolSeq < m.disk.savedNext ∧
      AcceptedBy inner.key inner.host m.timeline entry.spoolSeq stored := by
  have pathed := sound.backed.pathed
  have same : ∀ other, m.state.Holds other → other.path = entry.path → other = entry :=
    fun other held' => sound.path_injective held' held
  cases removal with
  | expired held' replaced =>
      obtain rfl := same _ held' here
      obtain ⟨gap, found⟩ := replaced
      exact .inl (sound.hasGap distinct held' found)
  | acknowledged held' receipted accepted =>
      obtain rfl := same _ held' here
      refine .inr ⟨((sound.lawful.accepted _ receipted).admissions _ accepted).1, _, receipted,
        .inl ⟨_, accepted, rfl, stable, legacy⟩⟩
  | @backing entry' receipt held' counted receipted accepted =>
      obtain rfl := same _ held' here
      obtain ⟨notice, named, known, small⟩ :=
        (sound.lawful.accepted _ receipted).notices _ accepted
      have sequence := sound.lawful.notice_seq distinct known
        (sound.backed.noticeOf held' inner.host entry'.expiresAtMs .retentionExpired) named
      rw [sequence] at small
      exact .inr ⟨small, _, receipted, .inr ⟨_, _, _, .inl stable, accepted⟩⟩
  | gap held' =>
      rw [pathed.gaps _ _ held', pathed.entries entry held] at here
      cases here
  | receipt held' =>
      rw [pathed.receipts _ _ held', pathed.entries entry held] at here
      cases here

/-- Every removal keeps the laws of the files. -/
theorem Removal.lawful {path : Path} {record : State → State} {d' : Disk}
    (removal : Removal inner m path record)
    (sound : Sound inner.key inner.host offered since m) (distinct : DistinctNotices inner.host offered)
    (reads : ∀ other, d'.read other = if other = path then none else m.disk.read other) :
    Lawful inner.key inner.host offered d' m.timeline := by
  have pathed := sound.backed.pathed
  have ofEntry : ∀ entry, m.state.Holds entry → path = entry.path →
      Lawful inner.key inner.host offered d' m.timeline := by
    intro entry held here
    obtain ⟨stored, admitted, legacy, stable⟩ := sound.backed.entry entry held
    have covered := removal.covered sound distinct held here admitted legacy stable
    rw [here, pathed.entries entry held, ← legacy] at reads
    exact sound.lawful.dropPending admitted reads covered
  cases removal with
  | expired held | acknowledged held | backing held => exact ofEntry _ held rfl
  | gap held receipted accepted =>
      obtain ⟨notice, named, known, small⟩ :=
        (sound.lawful.accepted _ receipted).notices _ accepted
      have known' := sound.heldNotice held
      have id := pathed.gapKeyed _ _ held
      rw [sound.lawful.notice_seq distinct known known' (named.trans id.symm)] at small
      rw [pathed.gaps _ _ held] at reads
      exact sound.lawful.dropGap known' reads small ⟨_, receipted, by rwa [id]⟩
  | receipt held =>
      rw [pathed.receipts _ _ held] at reads
      exact sound.lawful.dropReceipt reads

/-- A removal leaves the files of the gaps that stay held. -/
theorem Removal.heldGap {path : Path} {record : State → State} {noticeId : RecordId}
    {gap : GapEntry} (removal : Removal inner m path record)
    (sound : Sound inner.key inner.host offered since m)
    (held : (record m.state).gaps.get? noticeId = some gap) :
    m.state.gaps.get? noticeId = some gap ∧ gap.path ≠ path := by
  have pathed := sound.backed.pathed
  cases removal with
  | expired held' | acknowledged held' | backing held' =>
      rw [State.release_gaps] at held
      refine ⟨held, ?_⟩
      rw [pathed.gaps _ _ held, pathed.entries _ held']
      simp
  | @gap gone goneGap receipt held' =>
      change (m.state.gaps.erase gone).get? noticeId = some gap at held
      rw [OrdMap.get?_erase] at held
      split at held
      · cases held
      · rename_i different
        refine ⟨held, fun same => different ?_⟩
        rw [pathed.gaps _ _ held, pathed.gaps _ _ held'] at same
        obtain ⟨record, -, admitted, -⟩ := sound.heldNotice held
        obtain ⟨record', -, admitted', -⟩ := sound.heldNotice held'
        have id := (gapFileName_injective (sound.lawful.origin _ _ admitted).2.1.le
          (sound.lawful.origin _ _ admitted').2.1.le (Path.gap.inj same)).2
        rwa [pathed.gapKeyed _ _ held, pathed.gapKeyed _ _ held'] at id
  | receipt held' =>
      refine ⟨held, ?_⟩
      rw [pathed.gaps _ _ held, pathed.receipts _ _ held']
      simp

theorem Removal.entries {path : Path} {record : State → State} {entry : Entry}
    (removal : Removal inner m path record) (held : (record m.state).Holds entry) :
    m.state.Holds entry := by
  cases removal with
  | expired | acknowledged | backing =>
      rw [State.Holds, State.release_entries] at held
      exact OrdMap.get?_of_get?_erase held
  | gap | receipt => exact held

/-- A write leaves the files of the held entries where they are. -/
theorem Write.stands {path : Path} {body : Blob} {record : State → State} {entry : Entry}
    (write : Write inner offered m path body record)
    (stands : ∀ entry, m.state.Holds entry → ∃ body, m.disk.read entry.path = some body)
    (held : (record m.state).Holds entry) :
    ∃ content, (m.disk.put body path).read entry.path = some content := by
  have before : m.state.Holds entry →
      ∃ content, (m.disk.put body path).read entry.path = some content := by
    intro held
    obtain ⟨content, found⟩ := stands entry held
    rw [Disk.read_put]
    split
    · exact ⟨_, rfl⟩
    · exact ⟨content, found⟩
  cases write with
  | sequence | gap | receipt => exact before held
  | pending =>
      change (m.state.entries.insert _ _).get? _ = _ at held
      rw [OrdMap.get?_insert] at held
      split at held
      · rw [← Option.some.inj held, Disk.read_put, if_pos rfl]
        exact ⟨_, rfl⟩
      · exact before held

/-- A removal leaves the files of the entries that stay held. -/
theorem Removal.other {path : Path} {record : State → State} {entry : Entry}
    (removal : Removal inner m path record)
    (sound : Sound inner.key inner.host offered since m) (held : (record m.state).Holds entry) :
    m.state.Holds entry ∧ entry.path ≠ path := by
  have pathed := sound.backed.pathed
  have gone : ∀ {expelled : Entry}, m.state.Holds expelled →
      (m.state.release expelled).Holds entry → m.state.Holds entry ∧ entry.path ≠ expelled.path := by
    intro expelled held' stays
    obtain ⟨before, different⟩ := (State.holds_release held').mp stays
    exact ⟨before, fun same => different (by rw [sound.path_injective before held' same])⟩
  cases removal with
  | expired held' | acknowledged held' | backing held' => exact gone held' held
  | gap held' =>
      refine ⟨held, ?_⟩
      rw [pathed.gaps _ _ held', pathed.entries entry held]
      simp
  | receipt held' =>
      refine ⟨held, ?_⟩
      rw [pathed.receipts _ _ held', pathed.entries entry held]
      simp

/-- An update adds no entry and leaves the gaps. -/
theorem Update.kept {change : State → State} (update : Update inner m change) :
    (∀ entry, (change m.state).Holds entry → m.state.Holds entry) ∧
      (change m.state).gaps = m.state.gaps := by
  cases update with
  | dropQuarantined => exact ⟨fun _ held => OrdMap.get?_of_get?_erase held, rfl⟩
  | forgetReplaced | forgetAdmitted | forgetBacking | allocate | insertReceipt | pruneHistory
  | forgetReceipt => exact ⟨fun _ held => held, rfl⟩

/-- As long as nothing has spoiled a record, an effect leaves the files of held entries standing. -/
theorem Effect.stands (effect : Effect inner offered m m')
    (sound : Sound inner.key inner.host offered since m)
    (blameless : Blameless inner.key inner.host offered m'.timeline) {entry : Entry}
    (held : m'.state.Holds entry) : ∃ body, m'.disk.read entry.path = some body := by
  have before := blameless.back effect.timeline
  have stands := sound.stands before
  cases effect with
  | fault | writeFailed => exact stands entry held
  | orphaned =>
      obtain ⟨body, found⟩ := stands entry held
      refine ⟨body, ?_⟩
      rw [← found]
      cases entry.path <;> rfl
  | wrote within open_ write => exact write.stands stands held
  | unsynced within faulty open_ write =>
      obtain ⟨body, found⟩ := stands entry held
      change ∃ content, (m.disk.put _ _).read entry.path = some content
      rw [Disk.read_put]
      split
      · exact ⟨_, rfl⟩
      · exact ⟨body, found⟩
  | @removed faults path record within removal =>
      simp only [Machine.update, Machine.discard_state] at held
      obtain ⟨stays, other⟩ := removal.other sound held
      obtain ⟨body, found⟩ := stands entry stays
      refine ⟨body, ?_⟩
      change (m.discard path).disk.read entry.path = _
      rw [Machine.discard_read, if_neg other]
      exact found
  | setAside within expelled covered found damaged =>
      obtain ⟨record, -, decoded⟩ := sound.decodes before expelled
      rw [found] at decoded
      exact absurd decoded (damaged _)
  | updated update => exact stands entry (update.kept.1 entry held)

/-- One effect keeps the laws of the files and the backing of the state. -/
theorem Effect.sound (effect : Effect inner offered m m')
    (distinct : DistinctNotices inner.host offered)
    (sound : Sound inner.key inner.host offered since m) :
    Sound inner.key inner.host offered since m' := by
  have accounts : FaithfulIds inner.host offered → Accounts m' := fun faithful =>
    effect.accounts (sound.identified faithful) (sound.accounts faithful)
  have stands : Blameless inner.key inner.host offered m'.timeline → ∀ entry,
      m'.state.Holds entry → ∃ body, m'.disk.read entry.path = some body :=
    fun blameless entry held => effect.stands sound blameless held
  have pathed := effect.pathed sound.backed.pathed
  have next := sound.backed.next
  cases effect with
  | fault within => exact ⟨sound.always, { sound.backed with }, accounts, stands⟩
  | writeFailed within faulty =>
      refine ⟨sound.always, { sound.backed with next := fun s record admitted => ?_ }, accounts, stands⟩
      rcases next s record admitted with below | ⟨-, here⟩
      · exact .inl below
      · exact .inr ⟨rfl, here⟩
  | @orphaned faults body within faulty =>
      have reads : ∀ path, ({ m.disk with tmp := body :: m.disk.tmp } : Disk).read path =
          m.disk.read path := fun path => by cases path <;> rfl
      refine ⟨sound.always.cons (sound.lawful.same reads) fun _ _ found => .inl found,
        sound.backed.kept pathed (List.suffix_cons _ _) (fun s record admitted => ?_) (fun _ held => held)
        (fun noticeId gap held => (reads _).trans (sound.backed.gap noticeId gap held)) rfl
        (fun _ => rfl) sound.backed.saved, accounts, stands⟩
      exact admitted.back fun name _ found => (reads (.pending name)).symm.trans found
  | wrote within open_ write =>
      exact ⟨sound.always.cons (write.lawful sound open_) fun _ _ found => write.readable found,
        write.backed sound open_ pathed, accounts, stands⟩
  | unsynced within faulty open_ write =>
      exact ⟨sound.always.cons (write.lawful sound open_) fun _ _ found => write.readable found,
        write.backed_unsynced sound, accounts, stands⟩
  | @removed faults path record within removal =>
      by_cases present : (m.disk.read path).isSome
      · have discarded : m.discard path =
            { m with disk := m.disk.remove path, history := m.disk :: m.history } := if_pos present
        have reads := Disk.read_remove m.disk path
        rw [discarded] at pathed accounts stands ⊢
        refine ⟨sound.always.cons (removal.lawful sound distinct reads)
          (fun name body found => .inl (Disk.read_of_read_remove m.disk path found)),
          sound.backed.kept pathed (List.suffix_cons _ _) (fun s stored admitted => ?_)
            (fun entry held => removal.entries held) (fun noticeId gap held => ?_)
            (removal.next m.state) (fun latched => latched) ?_, accounts, stands⟩
        · refine admitted.back fun name body found => ?_
          change (m.disk.remove path).read _ = _ at found
          rw [reads] at found
          split at found
          · cases found
          · exact found
        · obtain ⟨before, other⟩ := removal.heldGap sound held
          change (m.disk.remove path).read gap.path = _
          rw [reads, if_neg other]
          exact sound.backed.gap noticeId gap before
        · change (m.disk.remove path).savedNext ≤ _
          rw [savedNext_congr (d := m.disk)]
          · exact sound.backed.saved
          · rw [reads, if_neg (removal.path_ne_sequence sound.backed.pathed).symm]
      · have discarded : m.discard path = m := if_neg present
        rw [discarded] at pathed accounts stands ⊢
        exact ⟨sound.always, sound.backed.kept pathed (List.suffix_refl _)
          (fun _ _ admitted => admitted) (fun entry held => removal.entries held)
          (fun noticeId gap held => sound.backed.gap noticeId gap (removal.heldGap sound held).1)
          (removal.next m.state) (fun latched => latched) sound.backed.saved, accounts, stands⟩
  | @setAside faults entry body within held covered found =>
      have reads := fun other => m.setAside_read entry.path other body
      obtain ⟨stored, admitted, legacy, stable⟩ := sound.backed.entry entry held
      obtain ⟨occurredAtMs, reason, gap, replaced⟩ := covered
      have hasGap := sound.hasGap distinct held replaced
      have path := sound.backed.pathed.entries entry held
      refine ⟨sound.always.cons ?_ fun name content found' =>
          .inl (Disk.read_of_read_remove m.disk entry.path found'),
        sound.backed.kept pathed (List.suffix_cons _ _)
        (fun s record admitted => ?_) (fun _ held => held) (fun noticeId other held' => ?_) rfl
        (fun latched => latched) ?_, accounts, stands⟩
      · refine sound.lawful.dropPending admitted (fun other => ?_) (.inl hasGap)
        rw [← Machine.setAside_read m _ other body, legacy, ← path]
      · refine admitted.back fun name body' found' => ?_
        change (m.setAside entry.path body).disk.read _ = _ at found'
        rw [reads] at found'
        split at found'
        · cases found'
        · exact found'
      · change (m.setAside entry.path body).disk.read _ = _
        rw [reads, if_neg]
        · exact sound.backed.gap noticeId other held'
        · rw [sound.backed.pathed.gaps _ _ held', path]
          simp
      · change (m.setAside entry.path body).disk.savedNext ≤ _
        rw [savedNext_congr (d := m.disk)]
        · exact sound.backed.saved
        · rw [reads, if_neg]
          rw [path]
          simp
  | updated update =>
      obtain ⟨entries, gaps⟩ := update.kept
      exact ⟨sound.always, sound.backed.kept pathed (List.suffix_refl _)
        (fun _ _ admitted => admitted) entries
        (fun noticeId gap held => sound.backed.gap noticeId gap (by rwa [← gaps]))
        (update.next m.state) (fun latched => latched) sound.backed.saved, accounts, stands⟩

/-- Along a chain a sound machine stays sound. -/
theorem Chain.sound (chain : Chain inner offered m m')
    (distinct : DistinctNotices inner.host offered)
    (sound : Sound inner.key inner.host offered since m) : Sound inner.key inner.host offered since m' :=
  Chain.invariant (I := Sound inner.key inner.host offered since)
    (fun _ _ sound effect => effect.sound distinct sound) chain sound

end Machines

end TeslatlasEdge
