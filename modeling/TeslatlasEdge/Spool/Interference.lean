/-
Module: TeslatlasEdge.Spool.Interference
Purpose: The sections of calls that run at the same time.  A section that begins on a sound machine
  leaves one, whatever other calls did before it, as long as it is due; and what a call has learnt in
  one section still holds when it begins the next.
Trusted boundary: none
Main exports: Advances, Met, Damaged, Due, Granted, SectionOf.kept, Whole, spoolRules
-/
import TeslatlasEdge.Lib.Rely
import TeslatlasEdge.Spool.Reopening

namespace TeslatlasEdge

open Lib
open Section

/-! ### What other calls may do -/

/-- What has been durable is known to have been. -/
structure Recalls (key : EncryptionKey) (older newer : List Disk) : Prop where
  admitted : ∀ s record, Admitted key older s record → Admitted key newer s record
  receipted : ∀ receipt, Receipted key older receipt → Receipted key newer receipt

namespace Recalls

variable {key : EncryptionKey} {host : Host} {older newer newest : List Disk}

/-- A longer history recalls what a shorter one did. -/
theorem of_later (later : older <:+ newer) : Recalls key older newer :=
  ⟨fun _ _ admitted => admitted.mono later, fun _ receipted => receipted.mono later⟩

/-- Recollection carries on. -/
theorem trans (first : Recalls key older newer) (second : Recalls key newer newest) :
    Recalls key older newest :=
  ⟨fun s record admitted => second.admitted s record (first.admitted s record admitted),
    fun receipt receipted => second.receipted receipt (first.receipted receipt receipted)⟩

/-- What was a notice is recalled as one. -/
theorem noticeOf (recalls : Recalls key older newer) {notice : GapNoticeV2}
    (known : NoticeOf key host older notice) : NoticeOf key host newer notice := by
  obtain ⟨record, identity, admitted, facts⟩ := known
  exact ⟨record, identity, recalls.admitted _ _ admitted, facts⟩

theorem admittedAs (recalls : Recalls key older newer) {recordId : RecordId}
    (known : AdmittedAs key older recordId) : AdmittedAs key newer recordId := by
  obtain ⟨s, record, admitted, named⟩ := known
  exact ⟨s, record, recalls.admitted s record admitted, named⟩

theorem admittedAt (recalls : Recalls key older newer) {spoolSeq : Nat}
    (known : AdmittedAt key older spoolSeq) : AdmittedAt key newer spoolSeq := by
  obtain ⟨record, admitted⟩ := known
  exact ⟨record, recalls.admitted spoolSeq record admitted⟩

end Recalls

/-- How a machine may have changed while a call was not looking. -/
structure Advances (key : EncryptionKey) (host : Host) (m m' : Machine) : Prop
    extends Recalls key m.timeline m'.timeline where
  next : m.state.nextSpoolSequence ≤ m'.state.nextSpoolSequence
  /-- The pending file of an earlier sequence is gone, as it was, or cannot be read. -/
  pending : ∀ s recordId body, 1 ≤ s → s < m.state.nextSpoolSequence →
    m'.disk.read (.pending (pendingFileName s recordId)) = some body →
      m.disk.read (.pending (pendingFileName s recordId)) = some body ∨ Unreadable key host body

namespace Advances

variable {key : EncryptionKey} {host : Host} {m m' m'' : Machine}

theorem of_later (later : m.timeline <:+ m'.timeline)
    (next : m.state.nextSpoolSequence ≤ m'.state.nextSpoolSequence)
    (pending : ∀ s recordId body, 1 ≤ s → s < m.state.nextSpoolSequence →
      m'.disk.read (.pending (pendingFileName s recordId)) = some body →
        m.disk.read (.pending (pendingFileName s recordId)) = some body ∨
          Unreadable key host body) : Advances key host m m' :=
  ⟨.of_later later, next, pending⟩

theorem refl (m : Machine) : Advances key host m m :=
  .of_later (List.suffix_refl _) le_rfl fun _ _ _ _ _ found => .inl found

theorem trans (first : Advances key host m m') (second : Advances key host m' m'') :
    Advances key host m m'' := by
  refine ⟨first.toRecalls.trans second.toRecalls, first.next.trans second.next,
    fun s recordId body positive below found => ?_⟩
  rcases second.pending s recordId body positive (below.trans_le first.next) found with
    before | unreadable
  · exact first.pending s recordId body positive below before
  · exact .inr unreadable

end Advances

section

variable {inner : Inner} {offered : Nat → Envelope → Prop} {m m' : Machine}

/-- A write under the next sequence takes the name of no earlier one. -/
theorem Write.keeps_earlier {path : Path} {body content : Blob} {record : State → State}
    (write : Write inner offered m path body record) {s : Nat} {recordId : RecordId}
    (positive : 1 ≤ s) (below : s < m.state.nextSpoolSequence)
    (found : (m.disk.put body path).read (.pending (pendingFileName s recordId)) = some content) :
    m.disk.read (.pending (pendingFileName s recordId)) = some content := by
  rw [Disk.read_put] at found
  split at found
  · rename_i here
    cases write with
    | sequence | gap | receipt => cases here
    | pending offer valid absent next content named =>
        rw [named] at here
        have bounded : m.state.nextSpoolSequence ≤ u64Max := by omega
        have same := (pendingFileName_injective positive (by omega) (by omega) bounded
          (Path.pending.inj here)).1
        omega
  · exact found

/-- So does each effect. -/
theorem Effect.advances {host : Host} (effect : Effect inner offered m m') :
    Advances inner.key host m m' := by
  refine .of_later effect.timeline ?_ fun s recordId body positive below found => .inl ?_
  · cases effect with
    | fault | writeFailed | orphaned | unsynced | setAside => exact le_rfl
    | wrote within open_ write => exact write.next_le
    | removed within removal =>
        simp only [Machine.update, Machine.discard_state]
        exact (removal.next m.state).ge
    | updated update => exact (update.next m.state).ge
  · cases effect with
    | fault | writeFailed | orphaned | updated => exact found
    | wrote within open_ write => exact write.keeps_earlier positive below found
    | unsynced within faulty open_ write => exact write.keeps_earlier positive below found
    | @removed _ path _ within removal =>
        change (m.discard path).disk.read _ = some body at found
        rw [Machine.discard_read] at found
        split at found
        · cases found
        · exact found
    | @setAside _ entry content within =>
        change (m.setAside entry.path content).disk.read _ = some body at found
        rw [Machine.setAside_read] at found
        split at found
        · cases found
        · exact found

/-- A chain advances a machine. -/
theorem Chain.advances {host : Host} (chain : Chain inner offered m m') :
    Advances inner.key host m m' := by
  induction chain with
  | refl => exact .refl m
  | tail _ effect ih => exact ih.trans effect.advances

end

/-! ### What calls learn -/

/-- The entry has been held: it tells of an admission and where its file was put. -/
structure Met (key : EncryptionKey) (m : Machine) (entry : Entry) : Prop where
  path : entry.path = .pending (pendingFileName entry.spoolSeq entry.recordId)
  admitted : ∃ record, Admitted key m.timeline entry.spoolSeq record ∧
    record.recordId = entry.recordId ∧ record.stableRecordId = some entry.stableRecordId
  positive : 1 ≤ entry.spoolSeq
  below : entry.spoolSeq < m.state.nextSpoolSequence

/-- The file of the entry does not read back. -/
def Damaged (inner : Inner) (m : Machine) (entry : Entry) : Prop :=
  ∀ stored, decodeEntry inner entry (m.disk.read entry.path) ≠ .ok stored

section

variable {inner : Inner} {offered : Nat → Envelope → Prop} {since : List Disk} {m m' : Machine}
  {entry : Entry}

/-- An entry that is held has been met. -/
theorem Sound.met {key : EncryptionKey} {host : Host} (sound : Sound key host offered since m)
    (numbered : m.state.Numbered) (held : m.state.Holds entry) : Met key m entry := by
  obtain ⟨record, admitted, facts⟩ := sound.backed.entry entry held
  exact ⟨sound.backed.pathed.entries entry held, ⟨record, admitted, facts⟩,
    (sound.lawful.origin _ _ admitted).1, numbered.below entry held⟩

/-- What a met entry's file reads back to is the admitted record. -/
theorem Met.decoded (met : Met inner.key m entry)
    (sound : Sound inner.key inner.host offered since m) {stored : StoredRecord F64}
    (read : decodeEntry inner entry (m.disk.read entry.path) = .ok stored) :
    ∃ record, Admitted inner.key m.timeline entry.spoolSeq record ∧
      record.recordId = entry.recordId ∧ record.stableRecordId = some entry.stableRecordId ∧
      stored = record.map inner.host.codec.parse := by
  obtain ⟨record, admitted, legacy, stable⟩ := met.admitted
  rw [met.path] at read
  exact ⟨record, admitted, legacy, stable, sound.lawful.decoded admitted read⟩

/-- The notices of an entry once met are notices of what was admitted. -/
theorem Met.noticeOf {key : EncryptionKey} (met : Met key m entry) (host : Host)
    (occurredAtMs : I64) (reason : GapReasonV2) :
    NoticeOf key host m.timeline (gapNotice host entry occurredAtMs reason) := by
  obtain ⟨record, admitted, -, stable⟩ := met.admitted
  exact ⟨record, entry.stableRecordId, admitted, .inl stable, rfl⟩

/-- What was met stays met. -/
theorem Met.later {key : EncryptionKey} {host : Host} (met : Met key m entry)
    (advances : Advances key host m m') : Met key m' entry := by
  obtain ⟨record, admitted, facts⟩ := met.admitted
  exact ⟨met.path, ⟨record, advances.admitted _ _ admitted, facts⟩, met.positive,
    met.below.trans_le advances.next⟩

/-- A damaged file is not mended by anyone. -/
theorem Damaged.later (damaged : Damaged inner m entry) (met : Met inner.key m entry)
    (advances : Advances inner.key inner.host m m') : Damaged inner m' entry := by
  intro stored read
  obtain ⟨body, found, intact⟩ := decodeEntry_eq_ok read
  rw [met.path] at found
  rcases advances.pending _ _ body met.positive met.below found with before | unreadable
  · rw [met.path, found] at read
    refine damaged stored ?_
    rw [met.path, before]
    exact read
  · obtain ⟨plaintext, opened, -⟩ := intact.opens
    exact unreadable plaintext opened

end

/-- Everything the receipt accepts has been admitted. -/
structure Vouched (key : EncryptionKey) (host : Host) (timeline : List Disk)
    (receipt : AckReceipt) : Prop where
  admissions : ∀ admission ∈ receipt.acceptedAdmissions,
    ∃ record, Admitted key timeline admission.spoolSeq record ∧
      record.stableRecordId = some admission.stableRecordId ∧
      record.recordId = admission.legacyRecordId
  notices : ∀ noticeId ∈ receipt.acceptedGapNoticeIds,
    ∃ notice, notice.noticeId = noticeId ∧ NoticeOf key host timeline notice
  drawn : receipt.DrawnFrom host (NoticeOf key host timeline) (AdmittedAs key timeline)
    (AdmittedAt key timeline)

namespace Vouched

variable {key : EncryptionKey} {host : Host} {older newer : List Disk} {receipt : AckReceipt}

/-- A receipt that is vouched for stays so. -/
theorem later (vouched : Vouched key host older receipt) (recalls : Recalls key older newer) :
    Vouched key host newer receipt := by
  refine ⟨fun admission accepted => ?_, fun noticeId accepted => ?_,
    vouched.drawn.mono (fun _ => recalls.noticeOf) (fun _ => recalls.admittedAs)
      fun _ => recalls.admittedAt⟩
  · obtain ⟨record, admitted, facts⟩ := vouched.admissions admission accepted
    exact ⟨record, recalls.admitted _ _ admitted, facts⟩
  · obtain ⟨notice, named, known⟩ := vouched.notices noticeId accepted
    exact ⟨notice, named, recalls.noticeOf known⟩

/-- It lies below every bound on what was admitted. -/
theorem below (vouched : Vouched key host older receipt) {bound : Nat}
    (bounded : ∀ s record, Admitted key older s record → s < bound) :
    receipt.Below key host older bound := by
  refine ⟨fun admission accepted => ?_, fun noticeId accepted => ?_⟩
  · obtain ⟨record, admitted, facts⟩ := vouched.admissions admission accepted
    exact ⟨bounded _ _ admitted, record, admitted, facts⟩
  · obtain ⟨notice, named, known⟩ := vouched.notices noticeId accepted
    obtain ⟨record, -, admitted, -⟩ := id known
    exact ⟨notice, named, known, bounded _ _ admitted⟩

end Vouched

/-! ### Sections that are due -/

/-- What a call owes for a section when it begins it. -/
def Due (inner : Inner) : Label → Machine → Prop
  | .quarantine entry, m => Damaged inner m entry
  | .writeReceipt receipt, m => Vouched inner.key inner.host m.timeline receipt
  | .insertReceipt receipt, m | .complete receipt, m => Receipted inner.key m.timeline receipt
  | .removeReceipt oldest, _ => ∃ name, oldest.path = .receipt name
  | _, _ => True

theorem SpoolConfig.WithinLimits.retention_nonneg {config : SpoolConfig}
    (limits : config.WithinLimits) : 0 ≤ config.retentionMs.val :=
  le_trans (by decide) limits.retention.1

/-- What a section finds when it begins: the envelope it admits is on offer, and the identity of the
entry it sets aside has not been taken over by a later admission. -/
def Granted (offered : Nat → Envelope → Prop) : Label → Machine → Prop
  | .enqueue envelope _, m => offered m.state.nextSpoolSequence envelope
  | .quarantine entry, m =>
      m.state.entries.get? entry.recordId = none ∨ m.state.Holds entry
  | _, _ => True

section

variable {inner : Inner} {offered : Nat → Envelope → Prop} {since : List Disk} {m m' : Machine}

/-- What a sound machine is after a section: sound, ready, and further on. -/
structure Follows (inner : Inner) (offered : Nat → Envelope → Prop) (since : List Disk)
    (m m' : Machine) : Prop where
  sound : Sound inner.key inner.host offered since m'
  ready : Ready inner.key m'
  later : m.timeline <:+ m'.timeline
  advances : Advances inner.key inner.host m m'

/-- A chain without admissions is followed by sound, ready machines. -/
theorem Chain.follows (chain : Chain inner noOffers m m')
    (distinct : DistinctNotices inner.host offered)
    (sound : Sound inner.key inner.host offered since m) (ready : Ready inner.key m) :
    Follows inner offered since m m' :=
  ⟨chain.offering.sound distinct sound, chain.ready ready, chain.timeline, chain.advances⟩

theorem Follows.refl (sound : Sound inner.key inner.host offered since m)
    (ready : Ready inner.key m) : Follows inner offered since m m :=
  ⟨sound, ready, List.suffix_refl _, .refl m⟩

theorem follows_of_post {α : Type} {section_ : Section α}
    (holds : Post section_ m (fun _ m' => Follows inner offered since m m')
      (fun _ m' => Follows inner offered since m m')) :
    Follows inner offered since m (finalState (section_ m)) :=
  holds.final (I := fun m' => Follows inner offered since m m')

/-- A section that is a chain of effects on each exit. -/
theorem follows_of_chain {α : Type} {section_ : Section α} {onOk : α → Machine → Prop}
    {onError : SpoolError → Machine → Prop} (holds : Post section_ m onOk onError)
    (ok : ∀ a m', onOk a m' → Chain inner noOffers m m')
    (error : ∀ e m', onError e m' → Chain inner noOffers m m')
    (distinct : DistinctNotices inner.host offered)
    (sound : Sound inner.key inner.host offered since m) (ready : Ready inner.key m) :
    Follows inner offered since m (finalState (section_ m)) :=
  follows_of_post (holds.mono (fun a m' facts => (ok a m' facts).follows distinct sound ready)
    fun e m' facts => (error e m' facts).follows distinct sound ready)

/-- Only the receipts in memory differ. -/
theorem Sound.withReceipts {key : EncryptionKey} {host : Host} {receipts : OrdMap Str ReceiptEntry}
    (sound : Sound key host offered since m)
    (pathed : ∀ batchId entry, receipts.get? batchId = some entry →
      entry.path = .receipt (receiptFileName entry.receipt.sequence entry.receipt.batchId)) :
    Sound key host offered since
      (m.update fun state => { state with receipts := receipts }) := by
  have backed := sound.backed
  refine ⟨sound.always, ⟨⟨backed.pathed.entries, backed.pathed.gapKeyed, backed.pathed.gaps, pathed⟩,
    backed.entry, backed.gap, backed.next, backed.saved, backed.positive⟩,
    fun faithful => (sound.accounts faithful).updated rfl rfl rfl rfl rfl
      (fun _ counted => counted) fun _ _ counted => counted, sound.stands⟩

theorem Follows.withReceipts {receipts : OrdMap Str ReceiptEntry}
    (sound : Sound inner.key inner.host offered since m) (ready : Ready inner.key m)
    (known : ∀ batchId entry, receipts.get? batchId = some entry →
      m.state.receipts.get? batchId = some entry ∨
        entry.receipt.batchId = batchId ∧ Receipted inner.key m.timeline entry.receipt ∧
          entry.path = .receipt (receiptFileName entry.receipt.sequence entry.receipt.batchId)) :
    Follows inner offered since m
      (m.update fun state => { state with receipts := receipts }) := by
  have pathed : ∀ batchId entry, receipts.get? batchId = some entry →
      entry.path = .receipt (receiptFileName entry.receipt.sequence entry.receipt.batchId) := by
    intro batchId entry found
    rcases known batchId entry found with before | ⟨-, -, path⟩
    · exact ready.pathed.receipts batchId entry before
    · exact path
  refine ⟨sound.withReceipts pathed, ⟨ready.keyed, { ready.numbered with },
    ⟨ready.pathed.entries, ready.pathed.gapKeyed, ready.pathed.gaps, pathed⟩,
    ⟨fun batchId entry found => ?_, fun batchId entry found => ?_⟩, ready.settled⟩,
    List.suffix_refl m.timeline, .of_later (List.suffix_refl m.timeline) le_rfl fun _ _ _ _ _ found =>
      .inl found⟩
  · rcases known batchId entry found with before | ⟨here, -⟩
    · exact ready.receipts.batchId batchId entry before
    · exact here
  · rcases known batchId entry found with before | ⟨-, receipted, -⟩
    · exact ready.receipts.durable batchId entry before
    · exact receipted

/-- A receipt over past admissions is placed. -/
theorem Sound.placeReceipt {receipt : AckReceipt} {faults : Faults} {latch : Bool}
    (sound : Sound inner.key inner.host offered since m) (open_ : m.storageWriteFailed = false)
    (settled : m.Settled inner.key)
    (below : receipt.Below inner.key inner.host m.timeline m.state.nextSpoolSequence)
    (drawn : receipt.DrawnFrom inner.host (NoticeOf inner.key inner.host m.timeline)
      (AdmittedAs inner.key m.timeline) (AdmittedAt inner.key m.timeline)) :
    Sound inner.key inner.host offered since
      { m.place (.receipt (receiptFileName receipt.sequence receipt.batchId))
          (inner.key.encrypt (.receipt receipt)) with
        storageWriteFailed := latch, faults := faults } := by
  have saved : m.disk.savedNext = m.state.nextSpoolSequence := by
    rcases settled with latched | ⟨sequence, stands, same, -⟩
    · rw [open_] at latched
      cases latched
    · rw [Disk.savedNext, stands, EncryptionKey.encrypt]
      exact same
  have later : m.timeline <:+ m.disk.put (inner.key.encrypt (.receipt receipt))
      (.receipt (receiptFileName receipt.sequence receipt.batchId)) :: m.timeline :=
    List.suffix_cons _ _
  have law := sound.lawful.putReceipt (by rw [saved]; exact below) drawn
  refine ⟨sound.always.cons law fun _ _ found => .inl found, ?_, fun faithful => ?_,
    fun blameless entry held => ?_⟩
  · refine sound.backed.kept sound.backed.pathed later (fun s record admitted => ?_)
      (fun _ held => held) (fun noticeId gap held => ?_) rfl (fun latched => ?_)
      sound.backed.saved
    · refine Admitted.back (d := m.disk) (fun name body found => ?_) admitted
      exact found
    · have stands := sound.backed.gap noticeId gap held
      rw [sound.backed.pathed.gaps noticeId gap held] at stands ⊢
      exact stands
    · rw [open_] at latched
      cases latched
  · have accounts := sound.accounts faithful
    cases latch with
    | false =>
        rw [← open_]
        refine ⟨accounts.indexed, accounts.pendings, accounts.gapFiles, ?_⟩
        exact accounts.tally.kept (listedSequences_next rfl) (fun failed => failed) rfl
          (fun entry held => ⟨held, fun counted => counted⟩) fun _ counted => counted
    | true => exact accounts.latched later fun _ _ found => .inl found
  · obtain ⟨body, found⟩ := sound.stands (blameless.back later) entry held
    refine ⟨body, ?_⟩
    rw [sound.backed.pathed.entries entry held] at found ⊢
    exact found

/-- Placing a receipt that is vouched for keeps a machine sound and ready. -/
theorem Follows.placeReceipt {receipt : AckReceipt} {faults : Faults} {latch : Bool}
    (sound : Sound inner.key inner.host offered since m) (ready : Ready inner.key m)
    (open_ : m.storageWriteFailed = false)
    (below : receipt.Below inner.key inner.host m.timeline m.state.nextSpoolSequence)
    (drawn : receipt.DrawnFrom inner.host (NoticeOf inner.key inner.host m.timeline)
      (AdmittedAs inner.key m.timeline) (AdmittedAt inner.key m.timeline)) :
    Follows inner offered since m
      { m.place (.receipt (receiptFileName receipt.sequence receipt.batchId))
          (inner.key.encrypt (.receipt receipt)) with
        storageWriteFailed := latch, faults := faults } := by
  have later : m.timeline <:+ m.disk.put (inner.key.encrypt (.receipt receipt))
      (.receipt (receiptFileName receipt.sequence receipt.batchId)) :: m.timeline :=
    List.suffix_cons _ _
  refine ⟨sound.placeReceipt open_ ready.settled below drawn, ⟨ready.keyed, ready.numbered,
    ready.pathed, ⟨ready.receipts.batchId, fun batchId entry found =>
      (ready.receipts.durable batchId entry found).mono later⟩, ?_⟩,
    later, .of_later later le_rfl fun s recordId body _ _ found => .inl found⟩
  rcases ready.settled with latched | settled
  · rw [open_] at latched
    cases latched
  · exact .inr settled

/-- A receipt file goes. -/
theorem Follows.discardReceipt {name : Str} {faults : Faults} (within : faults.Within m.faults)
    (distinct : DistinctNotices inner.host offered)
    (sound : Sound inner.key inner.host offered since m) (ready : Ready inner.key m) :
    Follows inner offered since m { m.discard (.receipt name) with faults := faults } := by
  by_cases present : (m.disk.read (.receipt name)).isSome
  · have discarded : m.discard (.receipt name) =
        { m with disk := m.disk.remove (.receipt name), history := m.disk :: m.history } :=
      if_pos present
    have reads := Disk.read_remove m.disk (.receipt name)
    have accounts : FaithfulIds inner.host offered → Accounts
        { m.discard (.receipt name) with faults := faults } := fun faithful =>
      (sound.accounts faithful).dropReceipt
    rw [discarded] at accounts ⊢
    have later : m.timeline <:+ m.disk.remove (.receipt name) :: m.timeline := List.suffix_cons _ _
    refine ⟨⟨sound.always.cons (sound.lawful.dropReceipt reads)
        (fun _ _ found => .inl (Disk.read_of_read_remove m.disk _ found)),
      sound.backed.kept sound.backed.pathed later (fun s record admitted => ?_)
        (fun _ held => held) (fun noticeId gap held => ?_) rfl (fun latched => latched)
        sound.backed.saved, accounts, fun blameless entry held => ?_⟩,
      ⟨ready.keyed, ready.numbered, ready.pathed, ⟨ready.receipts.batchId,
        fun batchId entry found => (ready.receipts.durable batchId entry found).mono later⟩,
        ready.settled⟩,
      later, .of_later later le_rfl fun s recordId body _ _ found => .inl ?_⟩
    · refine Admitted.back (d := m.disk) (fun other body found => ?_) admitted
      exact Disk.read_of_read_remove m.disk _ found
    · rw [reads, if_neg]
      · exact sound.backed.gap noticeId gap held
      · rw [sound.backed.pathed.gaps noticeId gap held]
        simp
    · obtain ⟨body, found⟩ := sound.stands (blameless.back later) entry held
      refine ⟨body, ?_⟩
      rw [reads, if_neg]
      · exact found
      · rw [sound.backed.pathed.entries entry held]
        simp
    · exact Disk.read_of_read_remove m.disk _ found
  · have discarded : m.discard (.receipt name) = m := if_neg present
    rw [discarded]
    have chain : Chain inner noOffers m { m with faults := faults } := .single (.fault within)
    exact chain.follows distinct sound ready

/-- A section that begins on a sound machine and is due leaves a sound machine. -/
theorem SectionOf.kept {label : Label} {act : Machine → Machine} (is : SectionOf inner label act)
    (distinct : DistinctNotices inner.host offered) (retention : 0 ≤ inner.config.retentionMs.val)
    (sound : Sound inner.key inner.host offered since m) (ready : Ready inner.key m)
    (granted : Granted offered label m) (due : Due inner label m) :
    Follows inner offered since m (act m) := by
  cases is with
  | observe same | read same | admissions same =>
      rw [same]
      exact .refl sound ready
  | @enqueue envelope admittedAtMs valid =>
      apply follows_of_post
      refine ((post_enqueueLocked granted valid retention).and
        (post_enqueueLocked_settled ready.settled)).mono ?_ ?_
      · rintro outcome m' ⟨⟨chain, -⟩, settled⟩
        exact ⟨chain.sound distinct sound, ⟨chain.keyed ready.keyed, chain.numbered ready.numbered,
          chain.pathed ready.pathed, chain.receiptsHeld ready.receipts, settled⟩, chain.timeline,
          chain.advances⟩
      · rintro error m' ⟨chain, settled⟩
        exact ⟨chain.sound distinct sound, ⟨chain.keyed ready.keyed, chain.numbered ready.numbered,
          chain.pathed ready.pathed, chain.receiptsHeld ready.receipts, settled⟩, chain.timeline,
          chain.advances⟩
  | expire =>
      exact follows_of_chain (post_expireDueLocked ready.keyed ready.numbered)
        (fun _ _ chain => chain) (fun _ _ chain => chain) distinct sound ready
  | @quarantine entry =>
      rcases granted with free | held
      · have absent : m.state.entries.contains entry.recordId = false := by
          rw [OrdMap.contains, free]
          rfl
        apply follows_of_post
        simp only [quarantineRuntimeEntry, post_bind, post_state, absent, Bool.false_eq_true,
          not_false_eq_true, if_true, post_pure]
        exact .refl sound ready
      · exact follows_of_chain
          (post_quarantineRuntimeEntry held ⟨_, ready.pathed.entries entry held⟩ due)
          (fun _ _ facts => facts.1) (fun _ _ chain => chain) distinct sound ready
  | allocate =>
      apply follows_of_post
      apply post_allocateReceipt
      · intro bounded
        have chain : Chain inner noOffers m _ := .single (.updated (.allocate bounded))
        exact chain.follows distinct sound ready
      · exact fun _ => .refl sound ready
  | @writeReceipt receipt small =>
      apply follows_of_post
      have vouched : Vouched inner.key inner.host m.timeline receipt := due
      have below : m.storageWriteFailed = false →
          receipt.Below inner.key inner.host m.timeline m.state.nextSpoolSequence := by
        intro open_
        refine vouched.below fun s record admitted => ?_
        rcases sound.backed.next s record admitted with earlier | ⟨latched, -⟩
        · exact earlier
        · rw [open_] at latched
          cases latched
      have failed : ∀ m', Chain inner noOffers m m' → Follows inner offered since m m' :=
        fun m' chain => chain.follows distinct sound ready
      apply post_writeAtomic
      · exact fun _ => .refl sound ready
      · intro open_ faults within
        have placed := @Follows.placeReceipt inner offered since m receipt faults false sound ready
          open_ (below open_) vouched.drawn
        rwa [← open_] at placed
      · exact fun _ faulty _ faults within => failed _ (.single (.writeFailed within faulty))
      · exact fun _ faulty _ faults within => failed _ (.single (.orphaned within faulty))
      · exact fun open_ _ _ faults _ =>
          .placeReceipt sound ready open_ (below open_) vouched.drawn
  | @insertReceipt receipt =>
      refine .withReceipts sound ready fun batchId entry found => ?_
      rw [OrdMap.get?_insert] at found
      split at found
      · rename_i here
        obtain rfl := Option.some.inj found
        exact .inr ⟨here.symm, due, rfl⟩
      · exact .inl found
  | complete =>
      exact follows_of_chain (post_completeReceipt ready.keyed ready.numbered due)
        (fun _ _ facts => facts.1) (fun _ _ chain => chain) distinct sound ready
  | pruneHistory =>
      apply follows_of_post
      simp only [post_bind, post_state, post_ite, post_pure]
      refine ⟨fun _ => ?_, fun _ => .refl sound ready⟩
      rw [← post_bind]
      exact post_noteHistoryPruned.mono (fun _ _ facts => facts.1.follows distinct sound ready)
        fun _ _ chain => chain.follows distinct sound ready
  | @removeReceipt oldest =>
      obtain ⟨name, path⟩ := due
      apply follows_of_post
      rw [path]
      apply post_removeFile
      · exact fun faults within => .discardReceipt within distinct sound ready
      · intro _ _ faults within
        have chain : Chain inner noOffers m _ := .single (.fault within)
        exact chain.follows distinct sound ready
  | forgetReceipt =>
      exact .withReceipts sound ready fun batchId entry found =>
        .inl (OrdMap.get?_of_get?_erase found)
  | sync =>
      exact follows_of_chain (@post_syncDirectory_chain inner noOffers m)
        (fun _ _ facts => facts.1) (fun _ _ chain => chain) distinct sound ready

/-- Soundness may be counted from the present on. -/
theorem Sound.restart {key : EncryptionKey} {host : Host} (sound : Sound key host offered since m) :
    Sound key host offered m.timeline m :=
  ⟨sound.always.restart, sound.backed, sound.accounts, sound.stands⟩

theorem Granted.presented {label : Label} (granted : Granted offered label m)
    (ready : Ready inner.key m) : Presented offered label m := by
  cases label with
  | enqueue | observe | expire | read | admissions | allocate | writeReceipt | insertReceipt | complete
  | pruneHistory | removeReceipt | forgetReceipt | sync => exact granted
  | quarantine entry => exact ⟨granted, fun held => ⟨_, ready.pathed.entries entry held⟩⟩

/-- What holds of the machine whenever a section begins. -/
structure Whole (inner : Inner) (offered : Nat → Envelope → Prop) (m : Machine) : Prop where
  sound : Sound inner.key inner.host offered m.timeline m
  ready : Ready inner.key m
  coherent : FaithfulIds inner.host offered →
    Ranged m.state ∧ Coherent inner.host offered m.state

/-- A section performed where it is due leaves the machine whole. -/
theorem SectionOf.whole {label : Label} {act : Machine → Machine} (is : SectionOf inner label act)
    (distinct : DistinctNotices inner.host offered) (limits : inner.config.WithinLimits)
    (whole : Whole inner offered m) (granted : Granted offered label m) (due : Due inner label m) :
    Whole inner offered (act m) := by
  have follows := is.kept distinct limits.retention_nonneg whole.sound whole.ready granted due
  refine ⟨follows.sound.restart, follows.ready, fun faithful => ?_⟩
  obtain ⟨ranged, coherent⟩ := whole.coherent faithful
  have changes : Changes inner offered True m.state (act m).state :=
    is.changes whole.ready.keyed (granted.presented whole.ready) fun _ => trivial
  exact changes.coherent faithful limits.maxBytes_lt ranged coherent

end

/-- The rules of the calls of one spool. -/
def spoolRules (inner : Inner) (offered : Nat → Envelope → Prop)
    (distinct : DistinctNotices inner.host offered) (limits : inner.config.WithinLimits) :
    Rules Label Machine where
  sections := SectionOf inner
  always := Whole inner offered
  rely := Advances inner.key inner.host
  granted := Granted offered
  due := Due inner
  rely_refl := .refl
  rely_trans _ _ _ := .trans
  keeps _ _ _ is whole granted due := is.whole distinct limits whole granted due
  guarantees _ _ _ is whole granted due :=
    (is.kept distinct limits.retention_nonneg whole.sound whole.ready granted due).advances

end TeslatlasEdge
