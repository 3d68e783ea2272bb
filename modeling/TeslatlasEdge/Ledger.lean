/-
Module: TeslatlasEdge.Ledger
Purpose: What holds in every run of a spool directory under one key, with writes failing and the
  process stopping at any point: the files stay lawful, a running process is backed by them, and the
  answers it has given are true of them.  From this follow that no admitted record is lost and that
  no sequence is used twice.
Trusted boundary: none
Main exports: World.Offered, UnderKey, Untouched, Kept, Reach.kept, admitted_never_lost,
  sequences_never_reused
-/
import TeslatlasEdge.Scripts
import TeslatlasEdge.Spool.Reopening

namespace TeslatlasEdge

open Lib

/-! ### Runs -/

/-- The envelope was handed to `enqueue` while `s` was the next sequence. -/
def World.Offered (w : World) (s : Nat) (envelope : Envelope) : Prop :=
  ∃ event ∈ w.log, event.spoolSeq = s ∧
    ∃ admittedAtMs, event.request = .enqueue envelope admittedAtMs

/-- The spool is opened under one key, and files are damaged so that the key no longer opens them. -/
def UnderKey (key : EncryptionKey) (host : Host) (_ : World) : Move → Prop
  | .openSpool inner _ _ => inner.key = key ∧ inner.host = host
  | .damage _ body | .damageReceipt _ body => Unreadable key host body
  | _ => True

/-- The spool is opened under one key, and nothing else touches its files. -/
def Untouched (key : EncryptionKey) (host : Host) (_ : World) : Move → Prop
  | .openSpool inner _ _ => inner.key = key ∧ inner.host = host
  | .damage _ _ | .damageReceipt _ _ => False
  | _ => True

/-- Moves that leave the files alone are moves under the key. -/
theorem Untouched.underKey {key : EncryptionKey} {host : Host} {w : World} {move : Move}
    (untouched : Untouched key host w move) : UnderKey key host w move := by
  cases move with
  | damage | damageReceipt => exact untouched.elim
  | openSpool | call | drop | relist => exact untouched

/-- The call was an admission that succeeded. -/
def Event.Stored (event : Event) (envelope : Envelope) : Prop :=
  ∃ admittedAtMs recordId, event.request = .enqueue envelope admittedAtMs ∧
    event.reply = some (.ok (.enqueued (.stored recordId)))

/-- The call delivered the batch. -/
def Event.Delivered (event : Event) (batch : HubBatchV2) : Prop :=
  event.reply = some (.ok (.batchV2 batch))

/-! ### Delivered items -/

/-- The delivered record is the admitted one, as its file reads back. -/
def HubBatchRecordV2.StemsFrom (host : Host) (delivered : HubBatchRecordV2)
    (record : StoredRecord Str) : Prop :=
  record.stableRecordId = some delivered.recordId ∧
    record.recordId = delivered.legacyRecordId ∧ record.spoolSeq = some delivered.spoolSeq ∧
    record.admittedAtMs = delivered.receivedAtMs ∧
    (record.map host.codec.parse).envelope = delivered.envelope

/-- Every item of the batch tells of an admission. -/
structure Tells (key : EncryptionKey) (host : Host) (timeline : List Disk) (batch : HubBatchV2) :
    Prop where
  records : ∀ delivered ∈ batch.records,
    ∃ record, Admitted key timeline delivered.spoolSeq record ∧ delivered.StemsFrom host record
  gaps : ∀ notice ∈ batch.gaps, NoticeOf key host timeline notice

/-- What a batch told once it told for good. -/
theorem Tells.mono {key : EncryptionKey} {host : Host} {older newer : List Disk}
    {batch : HubBatchV2} (tells : Tells key host older batch) (later : older <:+ newer) :
    Tells key host newer batch := by
  refine ⟨fun delivered inside => ?_, fun notice inside => (tells.gaps notice inside).mono later⟩
  obtain ⟨record, admitted, stems⟩ := tells.records delivered inside
  exact ⟨record, admitted.mono later, stems⟩

/-- Whatever a held entry's file reads back to is the admitted record. -/
theorem Sound.decoded {inner : Inner} {offered : Nat → Envelope → Prop} {since : List Disk}
    {m : Machine} (sound : Sound inner.key inner.host offered since m) {entry : Entry}
    (held : m.state.Holds entry) {stored : StoredRecord F64}
    (read : decodeEntry inner entry (m.disk.read entry.path) = .ok stored) :
    ∃ record, Admitted inner.key m.timeline entry.spoolSeq record ∧
      record.recordId = entry.recordId ∧ record.stableRecordId = some entry.stableRecordId ∧
      stored = record.map inner.host.codec.parse := by
  obtain ⟨record, admitted, legacy, stable⟩ := sound.backed.entry entry held
  rw [sound.backed.pathed.entries entry held] at read
  exact ⟨record, admitted, legacy, stable, sound.lawful.decoded admitted read⟩

/-- A batch tells of what was admitted. -/
theorem BatchOf.tells {inner : Inner} {offered : Nat → Envelope → Prop} {since : List Disk}
    {m : Machine} {batch : HubBatchV2} {items : List BatchItemV2}
    (built : BatchOf inner m batch items) (keyed : m.state.Keyed)
    (sound : Sound inner.key inner.host offered since m) :
    Tells inner.key inner.host m.timeline batch := by
  refine ⟨fun delivered inside => ?_, fun notice inside => ?_⟩
  · rw [built.records, List.mem_filterMap] at inside
    obtain ⟨item, here, same⟩ := inside
    obtain ⟨candidate, there, delivers⟩ := exists_of_mem_forall₂ built.delivers here
    have known := List.mem_of_mem_take there
    cases delivers with
    | gap | backing => cases same
    | @record entry stored live read =>
        obtain rfl := Option.some.inj same
        have held := keyed.holds (mem_candidates_record.mp known)
        obtain ⟨record, admitted, legacy, stable, rfl⟩ := sound.decoded held read
        exact ⟨record, admitted, stable, legacy, admitted.1, rfl, rfl⟩
  · rcases built.gap_source keyed inside with ⟨noticeId, gap, found, rfl⟩ | ⟨entry, held, -, rfl⟩
    · exact sound.heldNotice found
    · exact sound.backed.noticeOf held _ _ _

/-! ### The invariant -/

/-- The world at any point of a run. -/
structure Kept (key : EncryptionKey) (host : Host) (w : World) : Prop where
  always : AlwaysLawful key host w.Offered w.timeline w.timeline
  running : ∀ process, w.process = some process →
    process.inner.key = key ∧ process.inner.host = host ∧
      ∀ faults, Sound key host w.Offered w.timeline (w.machine process faults) ∧
        Ready key (w.machine process faults)
  configured : ∀ process, w.process = some process → 0 ≤ process.inner.config.retentionMs.val
  stored : ∀ event ∈ w.log, ∀ envelope, event.Stored envelope →
    ∃ record, Admitted key w.timeline event.spoolSeq record ∧
      record.recordId = envelope.recordId host ∧
      record.stableRecordId = some (envelope.stableRecordId host) ∧
      record.envelope = envelope.map host.codec.print
  delivered : ∀ event ∈ w.log, ∀ batch, event.Delivered batch → Tells key host w.timeline batch
  ordered : w.log.Pairwise fun newer older => ∀ envelope envelope', newer.Stored envelope →
    older.Stored envelope' → older.spoolSeq < newer.spoolSeq

/-- A fresh world is accounted for. -/
theorem kept_fresh (key : EncryptionKey) (host : Host) : Kept key host .fresh := by
  have nothing : ∀ path body, ¬ World.fresh.disk.read path = some body := by
    intro path body found
    cases path <;> cases found
  have noAdmission : ∀ s record, ¬ Admitted key World.fresh.timeline s record := by
    rintro s record ⟨-, d, inside, found⟩
    rw [List.mem_singleton.mp inside] at found
    exact nothing _ _ found
  have noReceipt : ∀ receipt, ¬ Receipted key World.fresh.timeline receipt := by
    rintro receipt ⟨d, inside, found⟩
    rw [List.mem_singleton.mp inside] at found
    cases found
  refine ⟨⟨fun d older within => ?_, List.suffix_refl _, fun d inside _ _ found _ =>
    ⟨d, inside, found⟩⟩,
    fun process running => absurd running (Option.some_ne_none _).symm,
    fun process running => absurd running (Option.some_ne_none _).symm,
    fun event inside => absurd inside List.not_mem_nil,
    fun event inside => absurd inside List.not_mem_nil, List.Pairwise.nil⟩
  rcases List.suffix_cons_iff.mp within with same | before
  · obtain ⟨rfl, rfl⟩ := List.cons.inj same
    exact ⟨fun name body found => absurd found (nothing _ _),
      fun s record admitted => absurd admitted (noAdmission s record),
      fun s record _ admitted => absurd admitted (noAdmission s record),
      fun name body found => absurd found (nothing _ _),
      fun name body found => absurd found (nothing _ _),
      fun receipt receipted => absurd receipted (noReceipt receipt),
      fun s record admitted => absurd admitted (noAdmission s record),
      fun s record admitted => absurd admitted (noAdmission s record),
      fun _ => ⟨rfl, fun s listed => absurd listed (Finset.notMem_empty s),
        fun s record admitted => absurd admitted (noAdmission s record),
        fun name notice found => absurd found (nothing _ _)⟩,
      fun s record admitted => absurd admitted (noAdmission s record),
      fun receipt receipted => absurd receipted (noReceipt receipt),
      fun _ name notice found => absurd found (nothing _ _)⟩
  · exact absurd (List.suffix_nil.mp before) (List.cons_ne_nil _ _)

section Steps

variable {key : EncryptionKey} {host : Host} {w w' : World}

/-- A world that goes on from a kept one, with at most one more call in its log. -/
theorem Kept.grow (kept : Kept key host w) (later : w.timeline <:+ w'.timeline)
    {since : List Disk} (always : AlwaysLawful key host w'.Offered since w'.timeline)
    (running : ∀ process, w'.process = some process →
      process.inner.key = key ∧ process.inner.host = host ∧
        ∀ faults, (AlwaysLawful key host w'.Offered w'.timeline w'.timeline →
          Sound key host w'.Offered w'.timeline (w'.machine process faults)) ∧
          Ready key (w'.machine process faults))
    (configured : ∀ process, w'.process = some process →
      0 ≤ process.inner.config.retentionMs.val)
    (log : w'.log = w.log ∨ ∃ event, w'.log = event :: w.log ∧
      (∀ envelope, event.Stored envelope →
        (∃ record, Admitted key w'.timeline event.spoolSeq record ∧
          record.recordId = envelope.recordId host ∧
          record.stableRecordId = some (envelope.stableRecordId host) ∧
          record.envelope = envelope.map host.codec.print) ∧
        ∀ s record, Admitted key w.timeline s record → s < event.spoolSeq) ∧
      ∀ batch, event.Delivered batch → Tells key host w'.timeline batch) : Kept key host w' := by
  have stored : ∀ event ∈ w.log, ∀ envelope, event.Stored envelope →
      ∃ record, Admitted key w'.timeline event.spoolSeq record ∧
        record.recordId = envelope.recordId host ∧
        record.stableRecordId = some (envelope.stableRecordId host) ∧
        record.envelope = envelope.map host.codec.print := by
    intro event inside envelope success
    obtain ⟨record, admitted, facts⟩ := kept.stored event inside envelope success
    exact ⟨record, admitted.mono later, facts⟩
  have delivered : ∀ event ∈ w.log, ∀ batch, event.Delivered batch →
      Tells key host w'.timeline batch := fun event inside batch success =>
    (kept.delivered event inside batch success).mono later
  have always' := always.restart
  have running' : ∀ process, w'.process = some process →
      process.inner.key = key ∧ process.inner.host = host ∧
        ∀ faults, Sound key host w'.Offered w'.timeline (w'.machine process faults) ∧
          Ready key (w'.machine process faults) := by
    intro process here
    obtain ⟨sameKey, sameHost, backing⟩ := running process here
    refine ⟨sameKey, sameHost, fun faults => ?_⟩
    obtain ⟨sound, ready⟩ := backing faults
    exact ⟨sound always', ready⟩
  rcases log with same | ⟨event, same, success, batches⟩
  · exact ⟨always', running', configured, by rwa [same], by rwa [same],
      by rw [same]; exact kept.ordered⟩
  · refine ⟨always', running', configured, ?_, ?_, ?_⟩
    · rw [same]
      intro other inside envelope stores
      rcases List.mem_cons.mp inside with rfl | inside
      · exact (success envelope stores).1
      · exact stored other inside envelope stores
    · rw [same]
      intro other inside batch delivers
      rcases List.mem_cons.mp inside with rfl | inside
      · exact batches batch delivers
      · exact delivered other inside batch delivers
    · rw [same]
      refine List.pairwise_cons.mpr ⟨fun older inside envelope envelope' stores stores' => ?_,
        kept.ordered⟩
      obtain ⟨record, admitted, -⟩ := kept.stored older inside envelope' stores'
      exact (success envelope stores).2 _ _ admitted

/-- A world whose process is gone after it had come some way. -/
theorem Kept.stop (kept : Kept key host w) {after : Machine} {d : Disk} {older : List Disk}
    {log : List Event}
    (always : AlwaysLawful key host (World.Offered ⟨d, older, log, none⟩) w.timeline
      after.timeline)
    (stopped : StoppedAt w.timeline after d older)
    (logged : log = w.log ∨ ∃ s request, log = ⟨s, request, none⟩ :: w.log) :
    Kept key host ⟨d, older, log, none⟩ := by
  refine kept.grow stopped.started (always.until stopped.reached stopped.started)
    (fun process running => absurd running (Option.some_ne_none _).symm)
    (fun process running => absurd running (Option.some_ne_none _).symm) ?_
  rcases logged with same | ⟨s, request, same⟩
  · exact .inl same
  · refine .inr ⟨_, same, ?_, ?_⟩
    · rintro envelope ⟨admittedAtMs, recordId, -, reply⟩
      cases reply
    · intro batch delivered
      cases delivered

/-- The log only grows. -/
theorem Step.offered {move : Move} (moved : Step w move w') (s : Nat) (envelope : Envelope)
    (offer : w.Offered s envelope) : w'.Offered s envelope := by
  obtain ⟨event, inside, facts⟩ := offer
  cases moved with
  | returned | callStopped => exact ⟨event, List.mem_cons_of_mem _ inside, facts⟩
  | opened | openFailed | openStopped | openRefused | dropped | damaged | receiptDamaged
  | relisted => exact ⟨event, inside, facts⟩

theorem SameFiles.read {d e : Disk} (same : SameFiles d e) (path : Path) :
    e.read path = d.read path := by
  cases path with
  | sequence => exact same.sequence.symm
  | pending name => exact (AList.perm_lookup same.pending).symm
  | gap name => exact (AList.perm_lookup same.gaps).symm
  | receipt name => exact (AList.perm_lookup same.receipts).symm

/-- Opening, on each of its exits. -/
theorem Kept.opened (kept : Kept key host w) (distinct : DistinctNotices host w.Offered)
    {inner : Inner} (sameKey : inner.key = key ∧ inner.host = host) (lockHeld : Bool) (nowMs : I64)
    (faults : Faults) :
    Post (openSpool inner lockHeld nowMs) (w.opening faults)
      (fun _ m' => Sound key host w.Offered w.timeline m' ∧ Ready key m')
      (fun _ m' => AlwaysLawful key host w.Offered w.timeline m'.timeline) := by
  obtain ⟨rfl, rfl⟩ := sameKey
  exact (post_openSpool (P := fun _ => True) (m := w.opening faults) LoadSteps.trivial distinct
    kept.always rfl fun _ => trivial).monoOk fun _ _ facts => ⟨facts.1, facts.2.1⟩

theorem Kept.running_of_machine {inner : Inner} {m : Machine} {log : List Event}
    {offered : Nat → Envelope → Prop} {since : List Disk}
    (sameKey : inner.key = key ∧ inner.host = host) (sound : Sound key host offered since m)
    (ready : Ready key m) :
    ∀ process, (m.running inner log).process = some process →
      process.inner.key = key ∧ process.inner.host = host ∧
        ∀ faults, (AlwaysLawful key host offered m.timeline m.timeline →
          Sound key host offered m.timeline ((m.running inner log).machine process faults)) ∧
          Ready key ((m.running inner log).machine process faults) := by
  rintro process running
  obtain rfl := Option.some.inj running
  have backed := sound.backed
  refine ⟨sameKey.1, sameKey.2, fun faults => ⟨fun always => ⟨always, ?_, fun faithful => ?_,
    sound.stands⟩, ?_⟩⟩
  · exact ⟨backed.pathed, backed.entry, backed.gap, backed.next, backed.saved, backed.positive⟩
  · have accounts := sound.accounts faithful
    exact ⟨accounts.indexed, accounts.pendings, accounts.gapFiles, { accounts.tally with }⟩
  · exact ⟨ready.keyed, ready.numbered, ready.pathed,
      ⟨ready.receipts.batchId, ready.receipts.durable⟩, ready.settled⟩

/-- A call, on each of its exits, in a world that logs it. -/
theorem Kept.served (kept : Kept key host w) {process : Process} (running : w.process = some process)
    {request : Request} {reply : Option (Except SpoolError Reply)}
    (logged : w'.log = ⟨process.state.nextSpoolSequence, request, reply⟩ :: w.log)
    (distinct : DistinctNotices host w'.Offered) (faults : Faults) :
    Post (request.call process.inner).run (w.machine process faults)
      (fun answer m' => Sound key host w'.Offered w.timeline m' ∧ Ready key m' ∧
        answer.Tells process.inner (w.machine process faults) m' request)
      (fun _ m' => Sound key host w'.Offered w.timeline m' ∧ Ready key m') := by
  obtain ⟨rfl, rfl, backing⟩ := kept.running process running
  obtain ⟨before, ready⟩ := backing faults
  have grown : ∀ s envelope, w.Offered s envelope → w'.Offered s envelope := by
    rintro s envelope ⟨event, inside, facts⟩
    refine ⟨event, ?_, facts⟩
    rw [logged]
    exact List.mem_cons_of_mem _ inside
  have sound := before.offering grown
  have offer : ∀ envelope admittedAtMs, request = .enqueue envelope admittedAtMs →
      w'.Offered (w.machine process faults).state.nextSpoolSequence envelope := by
    intro envelope admittedAtMs same
    refine ⟨⟨process.state.nextSpoolSequence, request, reply⟩, ?_, rfl, admittedAtMs, same⟩
    rw [logged]
    exact List.mem_cons_self
  refine (request.post_chain ready (kept.configured process running) offer).mono ?_ ?_
  · rintro answer m' ⟨chain, ready', tells⟩
    exact ⟨chain.sound distinct sound, ready', tells⟩
  · rintro error m' ⟨chain, ready'⟩
    exact ⟨chain.sound distinct sound, ready'⟩

/-- What the answer of a finished call says of the files. -/
theorem Kept.answered (kept : Kept key host w) {process : Process}
    (running : w.process = some process) {request : Request} {faults : Faults}
    (logged : w'.log = ⟨process.state.nextSpoolSequence, request,
      some (answer (w.serve process request faults))⟩ :: w.log)
    (distinct : DistinctNotices host w'.Offered) :
    Sound key host w'.Offered w.timeline (finalState (w.serve process request faults)) ∧
      Ready key (finalState (w.serve process request faults)) ∧
      ∀ reply, answer (w.serve process request faults) = .ok reply →
        reply.Tells process.inner (w.machine process faults)
          (finalState (w.serve process request faults)) request := by
  have served := kept.served running logged distinct faults
  simp only [World.serve]
  cases ran : (request.call process.inner).run (w.machine process faults) with
  | ok reply m' =>
      obtain ⟨sound, ready, tells⟩ := served.of_ok ran
      refine ⟨sound, ready, fun other same => ?_⟩
      obtain rfl := Except.ok.inj same
      exact tells
  | error error m' =>
      obtain ⟨sound, ready⟩ := served.of_error ran
      exact ⟨sound, ready, fun other same => by cases same⟩

/-- Listing the directories in another order changes nothing. -/
theorem Kept.relist (kept : Kept key host w) {d : Disk} (same : SameFiles w.disk d) :
    Kept key host { w with disk := d } := by
  have reads := same.read
  have admitted : ∀ s record, Admitted key (d :: w.past) s record ↔
      Admitted key w.timeline s record := fun s record => by
    simp only [World.timeline, admitted_cons, reads]
  have receipted : ∀ receipt, Receipted key (d :: w.past) receipt ↔
      Receipted key w.timeline receipt := fun receipt => by
    simp only [World.timeline, receipted_cons, reads]
  have noticeOf : ∀ notice, NoticeOf key host (d :: w.past) notice ↔
      NoticeOf key host w.timeline notice := fun notice => by simp only [NoticeOf, admitted]
  have always : AlwaysLawful key host w.Offered (d :: w.past) (d :: w.past) := by
    refine ⟨fun e older within => ?_, List.suffix_refl _, fun e inside _ _ found _ =>
      ⟨e, inside, found⟩⟩
    rcases List.suffix_cons_iff.mp within with here | before
    · obtain ⟨rfl, rfl⟩ := List.cons.inj here
      exact (kept.always.laws _ _ (List.suffix_refl _)).relisted reads
    · exact kept.always.laws e older (before.trans (List.suffix_cons _ _))
  refine ⟨always, fun process running => ?_, kept.configured, ?_, ?_, kept.ordered⟩
  · obtain ⟨sameKey, sameHost, backing⟩ := kept.running process running
    refine ⟨sameKey, sameHost, fun faults => ?_⟩
    obtain ⟨⟨-, backed, accounts, stands⟩, ready⟩ := backing faults
    refine ⟨⟨always, ⟨backed.pathed, fun entry held => ?_, fun noticeId gap held =>
      (reads _).trans (backed.gap noticeId gap held), fun s record there =>
      backed.next s record ((admitted s record).mp there), ?_, backed.positive⟩,
      fun faithful => (accounts faithful).sameRecords (.refl _) rfl
        (listedSequences_congr (reads _)) (fun _ => reads _) fun _ => reads _,
      fun blameless entry held => ?_⟩,
      ready.keyed, ready.numbered, ready.pathed, ⟨ready.receipts.batchId, fun batchId entry found =>
        (receipted _).mpr (ready.receipts.durable batchId entry found)⟩, ?_⟩
    · obtain ⟨record, there, facts⟩ := backed.entry entry held
      exact ⟨record, (admitted _ _).mpr there, facts⟩
    · exact (savedNext_congr (reads .sequence)).trans_le backed.saved
    · have before : Blameless key host w.Offered w.timeline := by
        refine ⟨blameless.exact_, fun e inside name body found => ?_⟩
        rcases List.mem_cons.mp inside with rfl | inside
        · exact blameless.unharmed d List.mem_cons_self name body ((reads _).trans found)
        · exact blameless.unharmed e (List.mem_cons_of_mem _ inside) name body found
      obtain ⟨body, found⟩ := stands before entry held
      exact ⟨body, (reads _).trans found⟩
    · have sequence : d.sequence = w.disk.sequence := reads .sequence
      simpa only [Machine.Settled, World.machine, sequence] using ready.settled
  · intro event inside envelope stores
    obtain ⟨record, there, facts⟩ := kept.stored event inside envelope stores
    exact ⟨record, (admitted _ _).mpr there, facts⟩
  · intro event inside batch delivers
    have tells := kept.delivered event inside batch delivers
    refine ⟨fun delivered here => ?_, fun notice here => (noticeOf _).mpr (tells.gaps notice here)⟩
    obtain ⟨record, there, stems⟩ := tells.records delivered here
    exact ⟨record, (admitted _ _).mpr there, stems⟩

/-- Behind the latch `enqueue` stores nothing. -/
theorem enqueue_latched {process : Process} {envelope : Envelope} {admittedAtMs : I64}
    {faults : Faults} {reply : Reply} (latched : process.storageWriteFailed = true) :
    answer (w.serve process (.enqueue envelope admittedAtMs) faults) ≠ .ok reply := by
  have refused : Post ((Request.enqueue envelope admittedAtMs).call process.inner).run
      (w.machine process faults) (fun _ _ => False) (fun _ _ => True) := by
    simp only [Request.call, enqueue, Call.run_bind, post_bind]
    cases envelope.validate with
    | error error => trivial
    | ok _ =>
        simp only [Call.run_bind, Call.run_atomic, post_bind, post_get, post_ite, post_throw,
          post_pure]
        exact ⟨fun _ => trivial, fun unlatched => absurd latched unlatched⟩
  intro success
  cases ran : w.serve process (.enqueue envelope admittedAtMs) faults with
  | ok reply' m' => exact refused.of_ok ran
  | error error m' =>
      rw [ran] at success
      cases success

/-- Opening a spool whose lock is held does nothing. -/
theorem openSpool_locked {inner : Inner} {nowMs : I64} {m after : Machine} {error : SpoolError}
    (ran : openSpool inner true nowMs m = .error error after) : after = m := by
  unfold openSpool at ran
  cases checked : validateConfig inner.config with
  | error refused =>
      rw [checked] at ran
      cases ran
      rfl
  | ok _ =>
      rw [checked] at ran
      cases ran
      rfl

/-- A spool opens under a retention that is not negative. -/
theorem openSpool_retention {inner : Inner} {nowMs : I64} {lockHeld : Bool} {m after : Machine}
    (ran : openSpool inner lockHeld nowMs m = .ok () after) :
    0 ≤ inner.config.retentionMs.val := by
  by_contra negative
  have refused : validateConfig inner.config = .error .invalidConfig :=
    if_pos (.inr (.inr (.inl (by omega))))
  unfold openSpool at ran
  rw [refused] at ran
  cases ran

/-- Every move keeps a world accounted for. -/
theorem Kept.step {move : Move} (kept : Kept key host w) (may : UnderKey key host w move)
    (moved : Step w move w') (distinct : DistinctNotices host w'.Offered) : Kept key host w' := by
  cases moved with
  | @opened inner nowMs faults after closed ran =>
      obtain ⟨sound, ready⟩ := (kept.opened distinct may false nowMs faults).of_ok ran
      refine kept.grow sound.always.later sound.always
        (Kept.running_of_machine may sound ready) (fun process running => ?_) (.inl rfl)
      obtain rfl := Option.some.inj running
      exact openSpool_retention ran
  | @openFailed inner nowMs faults error after closed ran =>
      have always := (kept.opened distinct may false nowMs faults).of_error ran
      exact kept.grow always.later always
        (fun process running => absurd running (Option.some_ne_none _).symm)
        (fun process running => absurd running (Option.some_ne_none _).symm) (.inl rfl)
  | @openStopped inner nowMs faults d older closed stopped =>
      refine kept.stop ?_ stopped (.inl rfl)
      exact ((kept.opened distinct may false nowMs faults).mono (fun _ _ facts => facts.1.always)
        fun _ _ always => always).final (I := fun m : Machine =>
          AlwaysLawful key host w.Offered w.timeline m.timeline)
  | @openRefused inner nowMs faults process error after running ran =>
      have same := openSpool_locked ran
      rw [same]
      exact kept
  | @returned request faults process running =>
      obtain ⟨sound, ready, tells⟩ := kept.answered running rfl distinct
      obtain ⟨rfl, rfl, backing⟩ := kept.running process running
      refine kept.grow sound.always.later sound.always
        (Kept.running_of_machine ⟨rfl, rfl⟩ sound ready) (fun _ running' => ?_)
        (.inr ⟨_, rfl, ?_, ?_⟩)
      · obtain rfl := Option.some.inj running'
        exact kept.configured process running
      · rintro envelope ⟨admittedAtMs, recordId, asked, replied⟩
        obtain rfl : request = _ := asked
        have told := tells _ (Option.some.inj replied)
        obtain ⟨open_, -, durable⟩ := told
        refine ⟨⟨(storedRecord process.inner envelope admittedAtMs
          process.state.nextSpoolSequence).map process.inner.host.codec.print, ⟨rfl, durable⟩, rfl,
          rfl, rfl⟩, ?_⟩
        intro s other admitted'
        rcases (backing faults).1.backed.next s other admitted' with below | ⟨latched, -⟩
        · exact below
        · rw [open_] at latched
          cases latched
      · intro batch delivered
        have told := tells _ (Option.some.inj delivered)
        have built : ∃ items, BatchOf process.inner
            (finalState (w.serve process request faults)) batch items := by
          cases request <;> exact told
        obtain ⟨items, built⟩ := built
        exact built.tells ready.keyed sound
  | @callStopped request faults process d older running stopped =>
      refine kept.stop ?_ stopped (.inr ⟨_, _, rfl⟩)
      have served := @Kept.served key host w ⟨d, older,
        ⟨process.state.nextSpoolSequence, request, none⟩ :: w.log, none⟩ kept process running request
        none rfl distinct faults
      exact (served.mono (fun _ _ facts => facts.1.always) fun _ _ facts => facts.1.always).final
        (I := fun m : Machine => AlwaysLawful key host _ w.timeline m.timeline)
  | dropped running =>
      exact kept.grow (List.suffix_refl _) kept.always
        (fun process running => absurd running (Option.some_ne_none _).symm)
        (fun process running => absurd running (Option.some_ne_none _).symm) (.inl rfl)
  | @damaged name body old present =>
      have reads : ∀ path, (w.disk.put body (.pending name)).read path =
          if path = .pending name then some body else w.disk.read path :=
        fun path => Disk.read_put _ _ _ _
      have law := (kept.always.laws _ _ (List.suffix_refl _)).damaged reads may present
      refine kept.grow (List.suffix_cons _ _) (kept.always.restart.damaged law)
        (fun process running => ?_) kept.configured (.inl rfl)
      obtain ⟨sameKey, sameHost, backing⟩ := kept.running process running
      refine ⟨sameKey, sameHost, fun faults => ?_⟩
      obtain ⟨⟨-, backed, accounts, stands⟩, ready⟩ := backing faults
      refine ⟨fun always => ⟨always, backed.kept backed.pathed (List.suffix_cons _ _)
        (fun s record admitted => admitted.undamaged reads may) (fun _ held => held)
        (fun noticeId gap held => ?_) rfl (fun latched => latched) backed.saved,
        fun faithful => (accounts faithful).damaged reads present, fun blameless => ?_⟩,
        ready.keyed, ready.numbered, ready.pathed,
        ⟨ready.receipts.batchId, fun batchId entry found =>
          (ready.receipts.durable batchId entry found).mono (List.suffix_cons _ _)⟩, ready.settled⟩
      · change (w.disk.put body (.pending name)).read gap.path = _
        rw [reads, if_neg]
        · exact backed.gap noticeId gap held
        · rw [backed.pathed.gaps noticeId gap held]
          simp
      · have standing := (reads (.pending name)).trans (if_pos rfl)
        exact absurd may (blameless.unharmed _ List.mem_cons_self name body standing)
  | @receiptDamaged name body old closed present =>
      have reads : ∀ path, (w.disk.put body (.receipt name)).read path =
          if path = .receipt name then some body else w.disk.read path :=
        fun path => Disk.read_put _ _ _ _
      have law := (kept.always.laws _ _ (List.suffix_refl _)).receiptDamaged reads may
      refine kept.grow (List.suffix_cons _ _) (kept.always.cons law fun _ _ found => .inl found)
        (fun process running => ?_) kept.configured (.inl rfl)
      exact absurd running (by rw [closed]; simp)
  | @relisted d same => exact kept.relist same

theorem DistinctNotices.offering {offered permitted : Nat → Envelope → Prop}
    (distinct : DistinctNotices host permitted)
    (weaker : ∀ s envelope, offered s envelope → permitted s envelope) :
    DistinctNotices host offered := fun s a t b _ _ _ _ _ _ offer offer' =>
  distinct s a t b _ _ _ _ _ _ (weaker _ _ offer) (weaker _ _ offer')

/-- What is kept by every step is kept throughout a run. -/
theorem Reach.kept (reach : Reach (UnderKey key host) w)
    (distinct : DistinctNotices host w.Offered) : Kept key host w := by
  induction reach with
  | start => exact kept_fresh key host
  | @step w w' move before may moved ih =>
      exact (ih (distinct.offering moved.offered)).step may moved distinct

/-! ### What answers have said -/

/-- A call that returned: the machine it began on, the machine it left, and what it said. -/
structure Answered (key : EncryptionKey) (host : Host) (offered : Nat → Envelope → Prop)
    (inner : Inner) (m m' : Machine) (request : Request) (reply : Reply) : Prop where
  sameKey : inner.key = key
  sameHost : inner.host = host
  began : Sound key host offered m.timeline m
  sound : Sound key host offered m.timeline m'
  ready : Ready key m'
  tells : reply.Tells inner m m' request

/-- A delivered batch was built on the machine the call left. -/
theorem Answered.built {offered : Nat → Envelope → Prop} {inner : Inner} {m m' : Machine}
    {request : Request} {batch : HubBatchV2}
    (answered : Answered key host offered inner m m' request (.batchV2 batch)) :
    ∃ items, BatchOf inner m' batch items := by
  have tells := answered.tells
  cases request <;> exact tells

/-- What every answer says when it is given, and what no later step takes back, holds of all answers
at any later point. -/
theorem Reach.told {P : List Disk → Event → Prop} {offered : Nat → Envelope → Prop}
    (reach : Reach (UnderKey key host) w)
    (within : ∀ s envelope, w.Offered s envelope → offered s envelope)
    (distinct : DistinctNotices host offered)
    (mono : ∀ older newer event, older <:+ newer → P older event → P newer event)
    (relist : ∀ d e older event, SameFiles d e → P (d :: older) event → P (e :: older) event)
    (unanswered : ∀ timeline s request, P timeline ⟨s, request, none⟩)
    (failed : ∀ timeline s request error, P timeline ⟨s, request, some (.error error)⟩)
    (answered : ∀ inner m m' request reply, Answered key host offered inner m m' request reply →
      P m'.timeline ⟨m.state.nextSpoolSequence, request, some (.ok reply)⟩) :
    ∀ event ∈ w.log, P w.timeline event := by
  induction reach with
  | start => exact fun event inside => absurd inside List.not_mem_nil
  | @step w w' move before may moved ih =>
      have earlier := ih fun s envelope offer => within s envelope (moved.offered s envelope offer)
      have distinct' : DistinctNotices host w'.Offered := distinct.offering within
      have kept := before.kept (distinct'.offering moved.offered)
      have same : w.timeline <:+ w'.timeline → w'.log = w.log →
          ∀ event ∈ w'.log, P w'.timeline event := by
        intro later same event inside
        rw [same] at inside
        exact mono _ _ event later (earlier event inside)
      have more : ∀ newest, w.timeline <:+ w'.timeline → w'.log = newest :: w.log →
          P w'.timeline newest → ∀ event ∈ w'.log, P w'.timeline event := by
        intro newest later same holds event inside
        rw [same] at inside
        rcases List.mem_cons.mp inside with rfl | inside
        · exact holds
        · exact mono _ _ event later (earlier event inside)
      cases moved with
      | @opened inner nowMs faults after closed ran =>
          obtain ⟨sound, -⟩ := (kept.opened distinct' may false nowMs faults).of_ok ran
          exact same sound.always.later rfl
      | @openFailed inner nowMs faults error after closed ran =>
          have always := (kept.opened distinct' may false nowMs faults).of_error ran
          exact same always.later rfl
      | openStopped closed stopped => exact same stopped.started rfl
      | openRefused running ran =>
          have unchanged := openSpool_locked ran
          rw [unchanged]
          exact earlier
      | @returned request faults process running =>
          obtain ⟨sound, ready, tells⟩ := kept.answered running rfl distinct'
          obtain ⟨rfl, rfl, backing⟩ := kept.running process running
          refine more _ sound.always.later rfl ?_
          cases ran : answer (w.serve process request faults) with
          | error error => exact failed _ _ _ error
          | ok reply =>
              have began := (backing faults).1.offering
                (@Step.returned w request faults process running).offered
              exact answered process.inner (w.machine process faults) _ request reply
                ⟨rfl, rfl, began.offering within, sound.offering within, ready, tells reply ran⟩
      | callStopped running stopped => exact more _ stopped.started rfl (unanswered _ _ _)
      | dropped => exact same (List.suffix_refl _) rfl
      | damaged | receiptDamaged => exact same (List.suffix_cons _ _) rfl
      | @relisted d files =>
          exact fun event inside => relist _ _ _ event files (earlier event inside)

end Steps

/-! ### No admitted record is lost -/

/-- The receipt accepts the admission of the envelope under the sequence, or a gap notice of it. -/
def AckReceipt.AcceptsAdmission (host : Host) (receipt : AckReceipt) (s : Nat)
    (envelope : Envelope) : Prop :=
  { spoolSeq := s
    stableRecordId := envelope.stableRecordId host
    legacyRecordId := envelope.recordId host } ∈ receipt.acceptedAdmissions ∨
  ∃ identity occurredAtMs reason,
    (envelope.stableRecordId host = identity ∨ envelope.recordId host = identity) ∧
    (gapNoticeForIdentity host s identity occurredAtMs reason).noticeId ∈
      receipt.acceptedGapNoticeIds

/-- The disk holds a pending file or a gap file for the sequence, or a receipt that accepts it has
been durable. -/
def World.AccountsFor (key : EncryptionKey) (host : Host) (w : World) (s : Nat)
    (envelope : Envelope) : Prop :=
  (∃ recordId body, w.disk.pending.lookup (pendingFileName s recordId) = some body) ∨
  (∃ notice, notice.spoolSeq = s ∧
    w.disk.gaps.lookup (gapFileName notice.spoolSeq notice.noticeId) =
      some (key.encrypt (.gap notice))) ∨
  ∃ receipt, Receipted key w.timeline receipt ∧ receipt.AcceptsAdmission host s envelope

/-- Once `enqueue` has answered that a record is stored, it is accounted for at every later point. -/
theorem admitted_never_lost {key : EncryptionKey} {host : Host} {w : World}
    (reach : Reach (Untouched key host) w) (distinct : DistinctNotices host w.Offered)
    {event : Event} (inside : event ∈ w.log) {envelope : Envelope}
    (stored : event.Stored envelope) : w.AccountsFor key host event.spoolSeq envelope := by
  have kept := (reach.mono fun _ _ untouched => untouched.underKey).kept distinct
  have law := kept.always.laws _ _ (List.suffix_refl _)
  obtain ⟨record, admitted, legacy, stable, -⟩ := kept.stored event inside envelope stored
  rcases law.custody _ record admitted with ⟨body, stands⟩ | ⟨noticeId, body, stands⟩ |
    ⟨receipt, receipted, accepts⟩
  · exact .inl ⟨_, body, stands⟩
  · obtain ⟨notice, known, named, content⟩ := law.gap _ body stands
    obtain ⟨other, -, admitted', -⟩ := known
    have same := (gapFileName_injective (law.origin _ _ admitted).2.1.le
      (law.origin _ _ admitted').2.1.le named).1
    rw [named, content] at stands
    exact .inr (.inl ⟨notice, same.symm, stands⟩)
  · refine .inr (.inr ⟨receipt, receipted, ?_⟩)
    rcases accepts with ⟨admission, accepted, sequence, stable', legacy'⟩ |
      ⟨identity, occurredAtMs, reason, identified, accepted⟩
    · left
      rw [stable] at stable'
      rwa [Option.some.inj stable', ← legacy, legacy', ← sequence]
    · refine .inr ⟨identity, occurredAtMs, reason, ?_, accepted⟩
      rcases identified with same | same
      · rw [stable] at same
        exact .inl (Option.some.inj same)
      · exact .inr (legacy.symm.trans same)

/-- The envelope a successful admission stored. -/
def Event.storedEnvelope? (event : Event) : Option Envelope :=
  match event.request, event.reply with
  | .enqueue envelope _, some (.ok (.enqueued (.stored _))) => some envelope
  | _, _ => none

/-- What the log yields as stored was stored. -/
theorem Event.stored_of_storedEnvelope? {event : Event} {envelope : Envelope}
    (found : event.storedEnvelope? = some envelope) : event.Stored envelope := by
  obtain ⟨s, request, reply⟩ := event
  unfold Event.storedEnvelope? at found
  split at found
  · rename_i asked replied
    obtain rfl := Option.some.inj found
    exact ⟨_, _, asked, replied⟩
  · cases found

def Request.isEnqueue : Request → Bool
  | .enqueue _ _ => true
  | _ => false

/-- At most one call has been an `enqueue`. -/
def World.OffersOnce (w : World) : Prop :=
  w.log.countP (·.request.isEnqueue) ≤ 1

instance (w : World) : Decidable w.OffersOnce := inferInstanceAs (Decidable (_ ≤ 1))

/-- Where identities are offered once, an offer determines its number. -/
theorem World.OffersOnce.same {w : World} (once : w.OffersOnce) {s t : Nat} {a b : Envelope}
    (offer : w.Offered s a) (offer' : w.Offered t b) : s = t ∧ a = b := by
  obtain ⟨event, inside, rfl, _, asked⟩ := offer
  obtain ⟨event', inside', rfl, _, asked'⟩ := offer'
  have same : event = event' := by
    rw [World.OffersOnce, List.countP_eq_length_filter] at once
    have here : event ∈ w.log.filter (·.request.isEnqueue) :=
      List.mem_filter.mpr ⟨inside, by rw [asked]; rfl⟩
    have there : event' ∈ w.log.filter (·.request.isEnqueue) :=
      List.mem_filter.mpr ⟨inside', by rw [asked']; rfl⟩
    obtain ⟨i, at_⟩ := List.get_of_mem here
    obtain ⟨j, at_'⟩ := List.get_of_mem there
    have equal : i = j := Fin.ext (by omega)
    rw [← at_, ← at_', equal]
  rw [same, asked'] at asked
  cases asked
  exact ⟨by rw [same], rfl⟩

/-- While one envelope has been offered, notices cannot be confused. -/
theorem World.OffersOnce.distinctNotices {w : World} (once : w.OffersOnce) (host : Host) :
    DistinctNotices host w.Offered :=
  fun _ _ _ _ _ _ _ _ _ _ offer offer' _ _ _ => (once.same offer offer').1

/-- While one envelope has been offered, identities cannot be confused. -/
theorem World.OffersOnce.faithfulIds {w : World} (once : w.OffersOnce) (host : Host) :
    FaithfulIds host w.Offered :=
  fun _ _ _ _ offer offer' _ => by rw [(once.same offer offer').2]

/-- The envelopes that were offered, each with the sequence it was offered under. -/
def World.offers (w : World) : List (Nat × Envelope) :=
  w.log.filterMap fun event =>
    match event.request with
    | .enqueue envelope _ => some (event.spoolSeq, envelope)
    | _ => none

theorem World.mem_offers {w : World} {s : Nat} {envelope : Envelope} (offer : w.Offered s envelope) :
    (s, envelope) ∈ w.offers := by
  obtain ⟨event, inside, rfl, _, asked⟩ := offer
  exact List.mem_filterMap.mpr ⟨event, inside, by rw [asked]⟩

/-- The identities of all gap notices an offer can come to. -/
def noticeIds (host : Host) (offer : Nat × Envelope) : List RecordId :=
  [offer.2.stableRecordId host, offer.2.recordId host].flatMap fun identity =>
    [GapReasonV2.retentionExpired, .integrityQuarantine].map fun reason =>
      gapNoticeId host offer.1 reason (gapEvidence host offer.1 identity reason)

theorem mem_noticeIds {host : Host} {s : Nat} {envelope : Envelope} {identity : RecordId}
    (identified : envelope.stableRecordId host = identity ∨ envelope.recordId host = identity)
    (occurredAtMs : I64) (reason : GapReasonV2) :
    (gapNoticeForIdentity host s identity occurredAtMs reason).noticeId ∈
      noticeIds host (s, envelope) := by
  refine List.mem_flatMap.mpr ⟨identity, ?_, List.mem_map.mpr ⟨reason, ?_, rfl⟩⟩
  · rcases identified with rfl | rfl <;> simp
  · cases reason <;> simp

/-- The digests tell the offers apart. -/
def World.TellsApart (host : Host) (w : World) : Prop :=
  (∀ a ∈ w.offers, ∀ b ∈ w.offers, ∀ noticeId ∈ noticeIds host a,
    noticeId ∈ noticeIds host b → a.1 = b.1) ∧
  ∀ a ∈ w.offers, ∀ b ∈ w.offers, a.2.recordId host = b.2.recordId host →
    a.2.stableRecordId host = b.2.stableRecordId host

instance (host : Host) (w : World) : Decidable (w.TellsApart host) :=
  inferInstanceAs (Decidable (_ ∧ _))

/-- Offers that are told apart have notices of their own. -/
theorem World.TellsApart.distinctNotices {host : Host} {w : World} (apart : w.TellsApart host) :
    DistinctNotices host w.Offered := by
  intro s a t b identity identity' occurredAtMs _ reason _ offer offer' mine yours same
  refine apart.1 _ (World.mem_offers offer) _ (World.mem_offers offer') _
    (mem_noticeIds mine occurredAtMs reason) ?_
  rw [same]
  exact mem_noticeIds yours _ _

/-- Offers that are told apart have identities of their own. -/
theorem World.TellsApart.faithfulIds {host : Host} {w : World} (apart : w.TellsApart host) :
    FaithfulIds host w.Offered := fun _ _ _ _ offer offer' =>
  apart.2 _ (World.mem_offers offer) _ (World.mem_offers offer')

/-- One record is admitted to a fresh spool. -/
def singleAdmission : List Move :=
  [.openSpool (sampleInner 4) (sampleTime 0) .none,
    .call (.enqueue (sampleEnvelope "a") (sampleTime 1)) .none]

theorem singleAdmission_untouched :
    ∀ w, ∀ move ∈ singleAdmission, Untouched sampleKey (referenceHost integerCodec) w move := by
  intro w move inside
  simp only [singleAdmission, List.mem_cons, List.not_mem_nil, or_false] at inside
  rcases inside with rfl | rfl
  · exact ⟨rfl, rfl⟩
  · trivial

theorem reopenedSpool_untouched :
    ∀ player ∈ reopenedSpool, ∀ w move, player w = some move →
      Untouched sampleKey (referenceHost integerCodec) w move := by
  intro player inside w move chosen
  simp only [reopenedSpool, acknowledgedPull, cutPull, threeAdmissions, List.mem_append,
    List.mem_cons, List.not_mem_nil, or_false] at inside
  rcases inside with (((rfl | rfl | rfl | rfl) | rfl) | rfl) | rfl | rfl
  case inl.inr =>
    obtain ⟨batch, -, rfl⟩ := Option.map_eq_some_iff.mp chosen
    trivial
  all_goals
    obtain rfl := Option.some.inj chosen
    trivial

theorem acknowledgedPull_subset : acknowledgedPull ⊆ reopenedSpool := List.subset_append_left _ _

theorem threeAdmissions_subset : threeAdmissions ⊆ reopenedSpool := fun _ inside =>
  acknowledgedPull_subset (List.mem_append_left _ (List.mem_append_left _ inside))

theorem reopenedSpool_plays :
    ((World.fresh.follow reopenedSpool).any fun w =>
      decide (w.TellsApart (referenceHost integerCodec)) &&
      (decide ((w.log.countP fun event => event.storedEnvelope?.isSome) = 3) &&
        w.process.any fun process => decide (process.state.entries.size = 1 ∧
          process.state.receipts.size = 1))) = true := by
  decide +kernel

/-- Three records were admitted; one has expired, one was delivered, both were acknowledged, and one is
still pending after the spool was opened again. -/
theorem reopenedSpool_reached :
    ∃ (w : World) (process : Process), Reach (Untouched sampleKey (referenceHost integerCodec)) w ∧
      DistinctNotices (referenceHost integerCodec) w.Offered ∧ w.process = some process ∧
      (w.log.countP fun event => event.storedEnvelope?.isSome) = 3 ∧
      process.state.entries.size = 1 ∧ process.state.receipts.size = 1 := by
  obtain ⟨w, followed, shows⟩ := (Option.any_eq_true _ _).mp reopenedSpool_plays
  rw [Bool.and_eq_true, Bool.and_eq_true, decide_eq_true_eq, decide_eq_true_eq] at shows
  obtain ⟨apart, admitted, shows⟩ := shows
  obtain ⟨process, running, shows⟩ := (Option.any_eq_true _ _).mp shows
  rw [decide_eq_true_eq] at shows
  exact ⟨w, process, World.reach_of_follow .start reopenedSpool_untouched followed,
    apart.distinctNotices, running, admitted, shows⟩

theorem admitted_never_lost_reopenedSpool :
    ∃ (w : World) (process : Process), w.process = some process ∧
      (w.log.countP fun event => event.storedEnvelope?.isSome) = 3 ∧
      process.state.entries.size = 1 ∧ process.state.receipts.size = 1 ∧
      ∀ event ∈ w.log, ∀ envelope, event.Stored envelope →
        w.AccountsFor sampleKey (referenceHost integerCodec) event.spoolSeq envelope := by
  obtain ⟨w, process, reach, distinct, running, admitted, pending, receipts⟩ := reopenedSpool_reached
  exact ⟨w, process, running, admitted, pending, receipts, fun event inside envelope stored =>
    admitted_never_lost reach distinct inside stored⟩

/-! ### No sequence is used twice -/

/-- A file of the disk carries the sequence. -/
inductive Disk.Carries (key : EncryptionKey) (d : Disk) (s : Nat) : Prop where
  | pendingName {name : Str} {body : Blob} {recordId : RecordId}
      (stands : d.pending.lookup name = some body)
      (named : parseV2PendingFileName name = some (s, recordId))
  | pending {name : Str} {record : StoredRecord Str}
      (stands : d.pending.lookup name = some (key.encrypt (.record record)))
      (sequence : record.spoolSeq = some s)
  | gap {name : Str} {notice : GapNoticeV2}
      (stands : d.gaps.lookup name = some (key.encrypt (.gap notice)))
      (sequence : notice.spoolSeq = s)
  | receipt {name : Str} {receipt : AckReceipt} {admission : ReceiptAdmission}
      (stands : d.receipts.lookup name = some (key.encrypt (.receipt receipt)))
      (accepted : admission ∈ receipt.acceptedAdmissions) (sequence : admission.spoolSeq = s)

/-- A disk carries a sequence for a record that was admitted under it. -/
theorem Lawful.carries {key : EncryptionKey} {host : Host} {offered : Nat → Envelope → Prop}
    {d : Disk} {older : List Disk} {s : Nat} (law : Lawful key host offered d older)
    (carries : d.Carries key s) : ∃ record, Admitted key (d :: older) s record := by
  cases carries with
  | pendingName stands named =>
      obtain ⟨t, record, admitted, name, -⟩ := law.pending _ _ stands
      have range := law.origin t record admitted
      rw [name, parseV2PendingFileName_pendingFileName range.1 range.2.1.le] at named
      obtain ⟨rfl, -⟩ := Prod.mk.inj (Option.some.inj named)
      exact ⟨record, admitted⟩
  | @pending name record stands sequence =>
      obtain ⟨t, other, admitted, -, content⟩ := law.pending _ _ stands
      rcases content with content | unreadable
      · simp only [EncryptionKey.encrypt, Blob.encrypted.injEq, Plain.record.injEq, true_and]
          at content
        subst content
        have same := admitted.1
        rw [sequence] at same
        obtain rfl := Option.some.inj same
        exact ⟨record, admitted⟩
      · exact absurd (key.decrypt_encrypt host _) (unreadable _)
  | gap stands sequence =>
      obtain ⟨notice, known, -, content⟩ := law.gap _ _ stands
      simp only [EncryptionKey.encrypt, Blob.encrypted.injEq, Plain.gap.injEq, true_and] at content
      obtain ⟨record, -, admitted, -⟩ := known
      rw [← content, sequence] at admitted
      exact ⟨record, admitted⟩
  | @receipt name receipt admission stands accepted sequence =>
      rcases law.receipt _ _ stands with ⟨found, named, content⟩ | unreadable
      · simp only [EncryptionKey.encrypt, Blob.encrypted.injEq, Plain.receipt.injEq, true_and]
          at content
        subst content
        rw [named] at stands
        have receipted : Receipted key (d :: older) receipt := ⟨d, List.mem_cons_self, stands⟩
        obtain ⟨-, record, admitted, -⟩ := (law.accepted receipt receipted).admissions _ accepted
        rw [sequence] at admitted
        exact ⟨record, admitted⟩
      · exact absurd (key.decrypt_encrypt host _) (unreadable _)

/-- The item was delivered in some batch. -/
def World.Delivered (w : World) (item : BatchItemV2) : Prop :=
  ∃ event ∈ w.log, ∃ batch, event.Delivered batch ∧
    ((∃ record ∈ batch.records, item = .record record) ∨ ∃ notice ∈ batch.gaps, item = .gap notice)

theorem World.delivered_of_lastBatch {w : World} {batch : HubBatchV2} {item : BatchItemV2}
    (last : w.lastBatch = some batch)
    (inside : (∃ record ∈ batch.records, item = .record record) ∨
      ∃ notice ∈ batch.gaps, item = .gap notice) : w.Delivered item := by
  obtain ⟨event, head, found⟩ := Option.bind_eq_some_iff.mp last
  refine ⟨event, List.mem_of_mem_head? head, batch, ?_, inside⟩
  cases reply : event.reply with
  | none =>
      rw [reply] at found
      cases found
  | some answer =>
      rw [reply] at found
      cases answer with
      | error error => cases found
      | ok answer =>
          cases answer with
          | batchV2 delivered =>
              obtain rfl := Option.some.inj found
              exact reply
          | enqueued | batch | acknowledged | acknowledgedV2 | expired => cases found

/-- The delivered item is the admitted record, or a notice of its loss. -/
def BatchItemV2.StemsFrom (host : Host) (record : StoredRecord Str) : BatchItemV2 → Prop
  | .record delivered => delivered.StemsFrom host record
  | .gap notice => ∃ identity, record.IdentifiedBy identity ∧
      notice = gapNoticeForIdentity host notice.spoolSeq identity notice.occurredAtMs notice.reason

/-- Whatever was delivered comes from a record that was admitted. -/
theorem Kept.deliveredFrom {key : EncryptionKey} {host : Host} {w : World}
    (kept : Kept key host w) {item : BatchItemV2} (delivered : w.Delivered item) :
    ∃ record, Admitted key w.timeline item.spoolSeq record ∧ item.StemsFrom host record := by
  obtain ⟨event, inside, batch, success, source⟩ := delivered
  have tells := kept.delivered event inside batch success
  rcases source with ⟨record, here, rfl⟩ | ⟨notice, here, rfl⟩
  · exact tells.records record here
  · obtain ⟨record, identity, admitted, identified, named⟩ := tells.gaps notice here
    exact ⟨record, admitted, identity, identified, named⟩

/-- Something that has existed up to now carries the sequence. -/
def World.Carries (key : EncryptionKey) (w : World) (s : Nat) : Prop :=
  (∃ d ∈ w.timeline, d.Carries key s) ∨ ∃ item, w.Delivered item ∧ item.spoolSeq = s

/-- Whatever sequence a world carries, a record was admitted under it. -/
theorem Kept.carries {key : EncryptionKey} {host : Host} {w : World} (kept : Kept key host w)
    {s : Nat} (carries : w.Carries key s) : ∃ record, Admitted key w.timeline s record := by
  rcases carries with ⟨d, inside, carries⟩ | ⟨item, delivered, rfl⟩
  · obtain ⟨newer, older, split⟩ := List.append_of_mem inside
    have within : d :: older <:+ w.timeline := ⟨newer, split.symm⟩
    obtain ⟨record, admitted⟩ := (kept.always.laws d older within).carries carries
    exact ⟨record, admitted.mono within⟩
  · obtain ⟨record, admitted, -⟩ := kept.deliveredFrom delivered
    exact ⟨record, admitted⟩

/-- How sequences have been used up to now. -/
structure World.SequencesFresh (key : EncryptionKey) (host : Host) (w : World) : Prop where
  /-- A successful admission has made its record durable under its sequence. -/
  taken : ∀ event ∈ w.log, ∀ envelope, event.Stored envelope →
    ∃ record, Admitted key w.timeline event.spoolSeq record ∧
      record.recordId = envelope.recordId host ∧
      record.stableRecordId = some (envelope.stableRecordId host)
  increasing : w.log.Pairwise fun newer older => ∀ envelope envelope', newer.Stored envelope →
    older.Stored envelope' → older.spoolSeq < newer.spoolSeq
  /-- A further admission exceeds every sequence that files or delivered items have carried. -/
  exceeds : ∀ process request faults envelope, w.process = some process →
    Event.Stored ⟨process.state.nextSpoolSequence, request,
      some (answer (w.serve process request faults))⟩ envelope →
    ∀ s, w.Carries key s → s < process.state.nextSpoolSequence
  /-- Items delivered under one sequence stem from the one admission it belongs to. -/
  sameAdmission : ∀ item other, w.Delivered item → w.Delivered other →
    item.spoolSeq = other.spoolSeq →
    ∃ record, Admitted key w.timeline item.spoolSeq record ∧
      (∀ record', Admitted key w.timeline item.spoolSeq record' → record' = record) ∧
      WrittenFor host w.Offered item.spoolSeq record ∧
      item.StemsFrom host record ∧ other.StemsFrom host record

/-- No sequence is used twice. -/
theorem sequences_never_reused {key : EncryptionKey} {host : Host} {w : World}
    (reach : Reach (Untouched key host) w) (distinct : DistinctNotices host w.Offered) :
    w.SequencesFresh key host := by
  have kept := (reach.mono fun _ _ untouched => untouched.underKey).kept distinct
  have law := kept.always.laws _ _ (List.suffix_refl _)
  refine ⟨fun event inside envelope stored => ?_, kept.ordered, ?_, ?_⟩
  · obtain ⟨record, admitted, legacy, stable, -⟩ := kept.stored event inside envelope stored
    exact ⟨record, admitted, legacy, stable⟩
  · intro process request faults envelope running stored s carries
    obtain ⟨record, admitted⟩ := kept.carries carries
    obtain ⟨-, -, backing⟩ := kept.running process running
    rcases (backing faults).1.backed.next s record admitted with below | ⟨latched, -⟩
    · exact below
    · -- behind the latch `enqueue` stores nothing
      obtain ⟨admittedAtMs, recordId, rfl, replied⟩ := stored
      exact absurd (Option.some.inj replied) (enqueue_latched latched)
  · intro item other delivered delivered' same
    obtain ⟨record, admitted, stems⟩ := kept.deliveredFrom delivered
    obtain ⟨record', admitted', stems'⟩ := kept.deliveredFrom delivered'
    rw [← same] at admitted'
    obtain rfl := law.once _ record record' admitted admitted'
    exact ⟨record, admitted, fun _ there => law.once _ _ _ there admitted,
      (law.origin _ _ admitted).2.2, stems, stems'⟩

theorem sequences_never_reused_reopenedSpool :
    ∃ (w : World) (process : Process), w.process = some process ∧
      (w.log.countP fun event => event.storedEnvelope?.isSome) = 3 ∧
      process.state.entries.size = 1 ∧ process.state.receipts.size = 1 ∧
      w.SequencesFresh sampleKey (referenceHost integerCodec) := by
  obtain ⟨w, process, reach, distinct, running, admitted, pending, receipts⟩ := reopenedSpool_reached
  exact ⟨w, process, running, admitted, pending, receipts, sequences_never_reused reach distinct⟩

end TeslatlasEdge
