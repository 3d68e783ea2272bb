/-
Module: TeslatlasEdge.Spool.Latch
Purpose: Calls behind the write latch.  A call that does not get to a durable write does what it does
  with the latch open; one that gets to a durable write fails.  Neither gives any file new contents.
Trusted boundary: none
Main exports: Machine.reopened, Behind, Tracks, Request.tracks, Request.NeedsWrite
-/
import TeslatlasEdge.Runs

namespace TeslatlasEdge

open Lib
open Section

/-- The machine with the latch open.  Its faults decide on one durable write, which succeeds; a call
that makes a durable write uses that decision up. -/
def Machine.reopened (m : Machine) : Machine :=
  { m with storageWriteFailed := false, faults := { m.faults with writes := [none] } }

/-- What stays as it is behind the latch: the latch is set, and no file has new contents. -/
structure Behind (m m' : Machine) : Prop where
  latched : m'.storageWriteFailed = true
  files : ∀ path body, m'.disk.read path = some body → m.disk.read path = some body

/-- What is behind after two parts is behind after both. -/
theorem Behind.trans {m m₁ m' : Machine} (first : Behind m m₁) (second : Behind m₁ m') :
    Behind m m' :=
  ⟨second.latched, fun path body stands => first.files path body (second.files path body stands)⟩

/-- Only the latch and the files matter. -/
theorem Behind.of_same {m m' : Machine} (latched : m.storageWriteFailed = true)
    (latch : m'.storageWriteFailed = m.storageWriteFailed) (disk : m'.disk = m.disk) :
    Behind m m' :=
  ⟨latch.trans latched, fun path body stands => by rwa [disk] at stands⟩

/-- Behind the latch the section does what it does with the latch open, unless it fails with an input
or output error, which it may only where it writes. -/
def Tracks (writes : Prop) {α : Type} (s : Section α) : Prop :=
  ∀ m : Machine, m.storageWriteFailed = true → Post s m
    (fun a m' => Behind m m' ∧ s m.reopened = .ok a m'.reopened)
    (fun error m' => Behind m m' ∧
      (writes ∧ error = .io ∨ s m.reopened = .error error m'.reopened))

variable {inner : Inner} {writes : Prop} {α β : Type}

namespace Tracks

/-- A section that writes nothing tracks as one that may. -/
theorem weaken {s : Section α} (tracks : Tracks False s) : Tracks writes s := by
  intro m latched
  refine (tracks m latched).mono (fun _ _ kept => kept) ?_
  rintro error m' ⟨behind, ⟨none, -⟩ | same⟩
  · exact none.elim
  · exact ⟨behind, .inr same⟩

theorem pure (a : α) : Tracks writes (Pure.pure a : Section α) :=
  fun _ latched => ⟨.of_same latched rfl rfl, rfl⟩

theorem throw (error : SpoolError) : Tracks writes (MonadExcept.throw error : Section α) :=
  fun _ latched => ⟨.of_same latched rfl rfl, .inr rfl⟩

/-- A sequence tracks the latch when its parts do. -/
theorem bind {s : Section α} {f : α → Section β} (first : Tracks writes s)
    (second : ∀ a, Tracks writes (f a)) : Tracks writes (s >>= f) := by
  intro m latched
  refine post_bind.mpr ((first m latched).mono ?_ ?_)
  · rintro a m₁ ⟨behind, same⟩
    have goes : (s >>= f) m.reopened = f a m₁.reopened := by
      change EStateM.bind s f m.reopened = _
      rw [EStateM.bind, same]
    rw [goes]
    exact (second a m₁ behind.latched).mono (fun _ _ kept => ⟨behind.trans kept.1, kept.2⟩)
      fun _ _ kept => ⟨behind.trans kept.1, kept.2⟩
  · rintro error m' ⟨behind, refused | same⟩
    · exact ⟨behind, .inl refused⟩
    · refine ⟨behind, .inr ?_⟩
      change EStateM.bind s f m.reopened = _
      rw [EStateM.bind, same]

/-- A branch tracks it when both sides do. -/
theorem ite {c : Prop} [Decidable c] {s t : Section α} (yes : Tracks writes s)
    (no : Tracks writes t) : Tracks writes (if c then s else t) := by
  split
  · exact yes
  · exact no

/-- A check that may end the section comes before the rest of it. -/
theorem guard {c : Prop} [Decidable c] {error : SpoolError} {rest : PUnit → Section α}
    (tracks : Tracks writes (rest ⟨⟩)) :
    Tracks writes (if c then MonadExcept.throw error >>= rest else rest ⟨⟩) :=
  .ite ((Tracks.throw error).bind fun _ => tracks) tracks

/-- An error of a refused write has to get through the handler. -/
theorem tryCatch {s : Section α} {handler : SpoolError → Section α} (body : Tracks writes s)
    (recovers : ∀ error, Tracks writes (handler error))
    (passes : writes → ∀ m, handler .io m = .error .io m) :
    Tracks writes (MonadExcept.tryCatch s handler) := by
  intro m latched
  have run : ∀ start, MonadExcept.tryCatch s handler start =
      match s start with
      | .ok a m' => .ok a m'
      | .error error m' => handler error m' := by
    intro start
    simp only [MonadExcept.tryCatch, tryCatchThe, MonadExceptOf.tryCatch, EStateM.tryCatch]
    cases s start <;> rfl
  refine post_tryCatch.mpr ((body m latched).mono ?_ ?_)
  · rintro a m' ⟨behind, same⟩
    exact ⟨behind, by rw [run, same]⟩
  · rintro error m₁ ⟨behind, ⟨may, rfl⟩ | same⟩
    · unfold Post
      rw [passes may m₁]
      exact ⟨behind, .inl ⟨may, rfl⟩⟩
    · rw [run, same]
      exact (recovers error m₁ behind.latched).mono (fun _ _ kept => ⟨behind.trans kept.1, kept.2⟩)
        fun _ _ kept => ⟨behind.trans kept.1, kept.2⟩

/-- So does one section after another for a list of items. -/
theorem mapM {f : α → Section β} (each : ∀ a, Tracks writes (f a)) (items : List α) :
    Tracks writes (items.mapM f) := by
  induction items with
  | nil =>
      rw [List.mapM_nil]
      exact .pure _
  | cons item rest ih =>
      rw [List.mapM_cons]
      exact (each item).bind fun _ => ih.bind fun _ => .pure _

end Tracks

/-! ### Primitive sections -/

theorem tracks_state : Tracks writes Section.state :=
  fun _ latched => ⟨.of_same latched rfl rfl, rfl⟩

theorem tracks_disk : Tracks writes Section.disk :=
  fun _ latched => ⟨.of_same latched rfl rfl, rfl⟩

theorem tracks_modifyState (f : State → State) : Tracks writes (modifyState f) :=
  fun _ latched => ⟨.of_same latched rfl rfl, rfl⟩

theorem tracks_nextRemovalFault : Tracks writes nextRemovalFault :=
  fun _ latched => ⟨.of_same latched rfl rfl, rfl⟩

theorem tracks_nextRenameFault : Tracks writes nextRenameFault :=
  fun _ latched => ⟨.of_same latched rfl rfl, rfl⟩

theorem tracks_nextSyncFault : Tracks writes nextSyncFault :=
  fun _ latched => ⟨.of_same latched rfl rfl, rfl⟩

theorem tracks_nextListingFault : Tracks writes nextListingFault :=
  fun _ latched => ⟨.of_same latched rfl rfl, rfl⟩

/-- A file operation that only takes files away. -/
theorem tracks_commit {f : Disk → Disk}
    (takes : ∀ disk path body, (f disk).read path = some body → disk.read path = some body) :
    Tracks writes (commit f) :=
  fun m latched => ⟨⟨latched, takes m.disk⟩, rfl⟩

/-- What is read after a removal was there before. -/
theorem Disk.read_remove_some {disk : Disk} {path other : Path} {body : Blob}
    (stands : (disk.remove path).read other = some body) : disk.read other = some body := by
  rw [Disk.read_remove] at stands
  split at stands
  · cases stands
  · exact stands

theorem tracks_syncDirectory : Tracks writes syncDirectory := by
  refine tracks_nextSyncFault.bind fun fault => ?_
  cases fault with
  | none => exact .pure _
  | some full => exact .throw _

/-- A removal leaves the latch alone. -/
theorem tracks_removeFile (path : Path) : Tracks writes (removeFile path) := by
  refine tracks_nextRemovalFault.bind fun fault => ?_
  cases fault with
  | some full => exact .throw _
  | none =>
      refine tracks_disk.bind fun disk => .ite ?_ (.pure _)
      exact tracks_commit fun _ _ _ => Disk.read_remove_some

theorem tracks_ensureQuarantineCapacity (additionalBytes : Nat) (addingFile : Bool) :
    Tracks writes (ensureQuarantineCapacity inner additionalBytes addingFile) := by
  refine tracks_nextListingFault.bind fun fault => ?_
  cases fault with
  | some full => exact .throw _
  | none => exact tracks_disk.bind fun _ => .ite (.throw _) (.pure _)

/-- So does the move to the quarantine directory. -/
theorem tracks_quarantineFileBounded (path : Path) :
    Tracks writes (quarantineFileBounded inner path) := by
  refine tracks_disk.bind fun disk => Tracks.bind ?_ fun _ => ?_
  · exact tracks_ensureQuarantineCapacity _ _
  · refine tracks_nextRenameFault.bind fun fault => ?_
    cases fault with
    | some full => exact .throw _
    | none =>
        refine tracks_disk.bind fun disk => ?_
        cases disk.read path with
        | none => exact .throw _
        | some body =>
            refine Tracks.bind (tracks_commit ?_) fun _ =>
              tracks_syncDirectory.bind fun _ => tracks_syncDirectory
            intro disk other body stands
            have kept : (disk.remove path).read other = some body := by
              cases other <;> exact stands
            exact Disk.read_remove_some kept

/-- A durable write is where a call behind the latch fails. -/
theorem tracks_writeAtomic (path : Path) (body : Blob) : Tracks True (writeAtomic path body) := by
  intro m latched
  simp only [writeAtomic, post_bind, post_get, latched, if_true, post_throw]
  exact ⟨.of_same latched rfl rfl, .inl ⟨trivial, trivial⟩⟩

/-! ### Sections -/

theorem tracks_persistCurrentSequenceState : Tracks True (persistCurrentSequenceState inner) :=
  tracks_state.bind fun _ => tracks_writeAtomic _ _

/-- Persisting a gap tracks the latch. -/
theorem tracks_persistGapLocked (entry : Entry) (occurredAtMs : I64) (reason : GapReasonV2) :
    Tracks True (persistGapLocked inner entry occurredAtMs reason) := by
  refine tracks_state.bind fun state => .ite (.pure _) (.guard (.guard (.guard (.guard ?_))))
  exact (tracks_writeAtomic _ _).bind fun _ => (tracks_modifyState _).bind fun _ => .pure _

theorem tracks_removeAdmittedRecord (admission : ReceiptAdmission) :
    Tracks writes (removeAdmittedRecord admission) := by
  refine tracks_state.bind fun state => ?_
  have forget : Tracks writes (modifyState (·.forgetCounted admission.spoolSeq)) :=
    tracks_modifyState _
  cases admittedEntry state admission with
  | none => exact .ite (forget.bind fun _ => .pure _) (.pure _)
  | some entry =>
      refine (tracks_removeFile _).bind fun _ => (tracks_modifyState _).bind fun _ => ?_
      exact .ite (forget.bind fun _ => .pure _) (.pure _)

theorem tracks_completeAdmissions (admissions : List ReceiptAdmission) (removed : Bool) :
    Tracks writes (completeAdmissions admissions removed) := by
  induction admissions generalizing removed with
  | nil => exact .pure _
  | cons admission rest ih => exact (tracks_removeAdmittedRecord admission).bind fun _ => ih _

theorem tracks_completeNotice (noticeId : RecordId) :
    Tracks writes (completeNotice inner noticeId) := by
  refine tracks_state.bind fun state => ?_
  cases state.gaps.get? noticeId with
  | some gap =>
      exact (tracks_removeFile _).bind fun _ => (tracks_modifyState _).bind fun _ => .pure _
  | none =>
      refine Tracks.bind (tracks_state.bind fun state => ?_) fun _ => .pure _
      cases expiredBacking inner.host state noticeId with
      | none => exact .pure _
      | some entry =>
          exact (tracks_removeAdmittedRecord _).bind fun _ =>
            (tracks_modifyState _).bind fun _ => .pure _

theorem tracks_completeNotices (noticeIds : List RecordId) (flags : Bool × Bool) :
    Tracks writes (completeNotices inner noticeIds flags) := by
  induction noticeIds generalizing flags with
  | nil => exact .pure _
  | cons noticeId rest ih => exact (tracks_completeNotice noticeId).bind fun _ => ih _

/-- Completing a receipt tracks the latch. -/
theorem tracks_completeReceipt (receipt : AckReceipt) :
    Tracks True (completeReceipt inner receipt) := by
  refine (tracks_completeAdmissions _ _).bind fun _ => (tracks_completeNotices _ _).bind fun flags =>
    ?_
  have finish : Tracks True (do syncDirectory; persistCurrentSequenceState inner) :=
    tracks_syncDirectory.bind fun _ => tracks_persistCurrentSequenceState
  exact .ite (tracks_syncDirectory.bind fun _ => finish) finish

theorem tracks_expireEntries (entries : List Entry) (removedBacking : Bool) :
    Tracks True (expireEntries inner entries removedBacking) := by
  induction entries generalizing removedBacking with
  | nil => exact .pure _
  | cons entry rest ih =>
      refine Tracks.bind ?_ fun persisted => ?_
      · refine .tryCatch ((tracks_persistGapLocked _ _ _).bind fun _ => .pure _) (fun error => ?_)
          fun _ _ => rfl
        exact .ite (.pure _) (.throw _)
      · refine .ite ?_ (ih _)
        exact (tracks_removeAdmittedRecord _).bind fun _ => tracks_syncDirectory.bind fun _ =>
          (tracks_modifyState _).bind fun _ => ih _

/-- So does expiring. -/
theorem tracks_expireDueLocked (nowMs : I64) : Tracks True (expireDueLocked inner nowMs) := by
  refine tracks_state.bind fun state => ?_
  have finish : ∀ count : Nat, Tracks True (do
      let removedBacking ← expireEntries inner (dueEntries state nowMs) false
      if removedBacking then persistCurrentSequenceState inner
      return count) := by
    intro count
    refine (tracks_expireEntries _ _).bind fun removedBacking => ?_
    exact .ite (tracks_persistCurrentSequenceState.bind fun _ => .pure _) (.pure _)
  simp only
  generalize (dueEntries state nowMs).foldl (countExpired state.gaps.values) _ = counting
  obtain ⟨counted, expiredCount⟩ := counting
  refine .ite ?_ (finish expiredCount)
  cases checkedAdd state.expiredRecords expiredCount with
  | none => exact (Tracks.throw _).bind fun _ => finish expiredCount
  | some total =>
      exact (tracks_writeAtomic _ _).bind fun _ => (tracks_modifyState _).bind fun _ =>
        finish expiredCount

/-- So does an admission. -/
theorem tracks_enqueueLocked (envelope : Envelope) (admittedAtMs : I64) :
    Tracks True (enqueueLocked inner envelope admittedAtMs) := by
  refine tracks_state.bind fun state => ?_
  cases state.stableIndex.get? (envelope.stableRecordId inner.host) with
  | some existing => exact .pure _
  | none =>
      simp only
      cases checkedAdd state.nextSpoolSequence 1 with
      | none => exact .throw _
      | some next =>
          simp only
          generalize deliveryBytes inner envelope admittedAtMs state.nextSpoolSequence = bytes
          generalize Plain.ofStoredRecord inner.host.codec _ = plaintext
          have write : ∀ entry : Entry, Tracks True (do
              writeAtomic entry.path (inner.key.encrypt plaintext)
              modifyState fun state => { state.admitEntry entry with nextSpoolSequence := next }
              persistCurrentSequenceState inner
              return EnqueueOutcome.stored (envelope.recordId inner.host)) := fun _ =>
            (tracks_writeAtomic _ _).bind fun _ => (tracks_modifyState _).bind fun _ =>
              tracks_persistCurrentSequenceState.bind fun _ => .pure _
          exact .guard (.guard (.guard (.guard (write _))))

theorem tracks_readEntry (entry : Entry) : Tracks writes (readEntry inner entry) := by
  refine tracks_disk.bind fun disk => ?_
  cases decodeEntry inner entry (disk.read entry.path) with
  | error error => exact .throw _
  | ok stored => exact .pure _

/-- So does a quarantine. -/
theorem tracks_quarantineRuntimeEntry (entry : Entry) :
    Tracks True (quarantineRuntimeEntry inner entry) := by
  refine tracks_state.bind fun state => .ite (.pure _) ?_
  refine (tracks_persistGapLocked _ _ _).bind fun _ => .bind ?_ fun _ => tracks_modifyState _
  have moved : Tracks False (tryCatch (quarantineFileBounded inner entry.path) fun error => do
      if error = .io ∧ ((← disk).read entry.path).isNone then syncDirectory else throw error) := by
    refine .tryCatch (tracks_quarantineFileBounded _) (fun error => ?_) False.elim
    exact tracks_disk.bind fun _ => .ite tracks_syncDirectory (.throw _)
  exact moved.weaken

/-! ### Calls -/

section Calls

variable {α β : Type}

/-- Calls track the latch when their parts do. -/
theorem tracks_call_bind {call : SpoolCall α} {next : α → SpoolCall β}
    (first : Tracks writes call.run) (second : ∀ a, Tracks writes (next a).run) :
    Tracks writes (call >>= next).run := by
  rw [Call.run_bind]
  exact first.bind second

theorem tracks_atomic {label : Label} {s : Section α} (tracks : Tracks writes s) :
    Tracks writes (Call.atomic label s).run := by
  rwa [Call.run_atomic]

/-- A section that never writes can hand its error on. -/
theorem tracks_attempt {label : Label} {s : Section α} (tracks : Tracks False s) :
    Tracks writes (Call.attempt label s).run := by
  intro m latched
  have run : ∀ start, (Call.attempt label s).run start = .ok (answer (s start)) (finalState (s start)) :=
    fun _ => rfl
  refine Call.post_attempt.mpr ((tracks m latched).mono ?_ ?_)
  · rintro a m' ⟨behind, same⟩
    exact ⟨behind, by rw [run, same]; rfl⟩
  · rintro error m' ⟨behind, ⟨none, -⟩ | same⟩
    · exact none.elim
    · exact ⟨behind, by rw [run, same]; rfl⟩

theorem tracks_scanV1 (entries : List Entry) (records : List HubBatchRecordV1) (bodyBytes : Nat) :
    Tracks True (scanV1 inner entries records bodyBytes).run := by
  induction entries generalizing records bodyBytes with
  | nil => exact .pure _
  | cons entry rest ih =>
      simp only [scanV1]
      split
      · exact .pure _
      · refine tracks_call_bind (tracks_attempt (tracks_readEntry entry)) fun read => ?_
        cases read with
        | error error =>
            by_cases corrupt : error = .corruptRecord
            · subst corrupt
              exact tracks_call_bind (tracks_atomic (tracks_quarantineRuntimeEntry entry))
                fun _ => ih _ _
            · cases error <;> first | exact absurd rfl corrupt | exact .throw _
        | ok stored =>
            simp only
            generalize encodedSize inner.host _ = encodedBytes
            split
            · exact .pure _
            · split
              · exact .throw _
              · exact ih _ _

theorem tracks_requireNoGaps : Tracks writes requireNoGaps :=
  tracks_state.bind fun _ => .ite (.throw _) (.pure _)

theorem tracks_buildBatch : Tracks True (buildBatch inner).run := by
  refine tracks_call_bind (tracks_atomic ?_) fun ordered => ?_
  · exact tracks_state.bind fun _ => .guard (.pure _)
  · exact tracks_call_bind (tracks_scanV1 _ _ _) fun _ =>
      tracks_call_bind (tracks_atomic tracks_requireNoGaps) fun _ => .pure _

theorem tracks_candidateItem (counted : OrdMap Nat RecordId) (candidate : BatchCandidateV2) :
    Tracks True (candidateItem inner counted candidate).run := by
  cases candidate with
  | gap notice => exact .pure _
  | record entry =>
      simp only [candidateItem]
      split
      · exact tracks_call_bind (tracks_atomic (tracks_readEntry entry)) fun _ => .pure _
      · refine tracks_call_bind (tracks_attempt (tracks_readEntry entry)) fun read => ?_
        cases read with
        | error error =>
            by_cases corrupt : error = .corruptRecord
            · subst corrupt
              exact tracks_call_bind (tracks_atomic (tracks_quarantineRuntimeEntry entry))
                fun _ => .pure _
            · cases error <;> first | exact absurd rfl corrupt | exact .throw _
        | ok stored => exact .pure _

theorem tracks_scanV2 (counted : OrdMap Nat RecordId) (remaining : List BatchCandidateV2)
    (scan : ScanV2) : Tracks True (scanV2 inner counted remaining scan).run := by
  induction remaining generalizing scan with
  | nil => exact .pure _
  | cons candidate rest ih =>
      simp only [scanV2]
      split
      · exact .pure _
      · refine tracks_call_bind (tracks_candidateItem counted candidate) fun item => ?_
        cases item with
        | none => exact ih _
        | some item =>
            simp only
            generalize encodedSize inner.host item.toJson = encodedBytes
            split
            · exact .pure _
            · split
              · exact .pure _
              · split
                · exact .throw _
                · exact ih _

/-- A pull tracks it along its scans. -/
theorem tracks_buildBatchV2 (restarts : Nat) : Tracks True (buildBatchV2 inner restarts).run := by
  induction restarts with
  | zero => exact .throw _
  | succ restarts ih =>
      refine tracks_call_bind (tracks_atomic ?_) fun listed =>
        tracks_call_bind (tracks_atomic ?_) fun gaps => ?_
      · exact tracks_state.bind fun _ => .guard (.pure _)
      · exact tracks_state.bind fun _ => .pure _
      · simp only
        split
        · exact .throw _
        · refine tracks_call_bind (tracks_scanV2 _ _ _) fun scan => ?_
          split
          · exact ih
          · exact .pure _

theorem tracks_pruneReceiptsLoop (passes : Nat) :
    Tracks True (pruneReceiptsLoop inner passes).run := by
  induction passes with
  | zero => exact .throw _
  | succ passes ih =>
      refine tracks_call_bind (tracks_atomic (tracks_state.bind fun _ => .pure _)) fun oldest => ?_
      cases oldest with
      | none => exact .pure _
      | some oldest =>
          refine tracks_call_bind ?_ fun _ => ih
          have forget := @tracks_modifyState True fun state =>
            { state with receipts := state.receipts.erase oldest.receipt.batchId }
          have remove : Tracks True (do
              Call.atomic (.removeReceipt oldest) (removeFile oldest.path)
              Call.atomic (.forgetReceipt oldest) <| modifyState fun state =>
                { state with receipts := state.receipts.erase oldest.receipt.batchId }
              Call.atomic .sync syncDirectory : SpoolCall Unit).run :=
            tracks_call_bind (tracks_atomic (tracks_removeFile _)) fun _ =>
              tracks_call_bind (tracks_atomic forget) fun _ => tracks_atomic tracks_syncDirectory
          simp only [pruneReceipt]
          split
          · refine tracks_call_bind (tracks_atomic (tracks_state.bind fun _ => ?_)) fun _ => remove
            refine .ite ?_ (.pure _)
            exact (tracks_modifyState _).bind fun _ => tracks_persistCurrentSequenceState
          · exact remove

theorem tracks_allocateReceipt : Tracks writes allocateReceipt := by
  refine tracks_state.bind fun state => ?_
  simp only
  cases checkedAdd state.nextReceiptSequence 1 with
  | none => exact .throw _
  | some next => exact (tracks_modifyState _).bind fun _ => .pure _

/-- Committing a receipt tracks it. -/
theorem tracks_commitReceipt (receiptAt : Nat → AckReceipt) :
    Tracks True (commitReceipt inner receiptAt).run := by
  refine tracks_call_bind (tracks_atomic tracks_allocateReceipt) fun sequence => ?_
  simp only
  split
  · exact .throw _
  · refine tracks_call_bind (tracks_atomic (tracks_writeAtomic _ _)) fun _ =>
      tracks_call_bind (tracks_atomic (tracks_modifyState _)) fun _ =>
        tracks_call_bind (tracks_atomic (tracks_completeReceipt _)) fun _ =>
          tracks_call_bind ?_ fun _ => .pure _
    exact tracks_call_bind (tracks_atomic (tracks_state.bind fun _ => .pure _)) fun _ =>
      tracks_pruneReceiptsLoop _

theorem tracks_receiptAdmissionsV1 (delivered : HubBatchV1) (ack : HubAckV1) :
    Tracks writes (receiptAdmissionsV1 delivered ack) := by
  refine tracks_state.bind fun state => .mapM (fun record => ?_) _
  cases state.entries.get? record.recordId with
  | none => exact .throw _
  | some entry => exact .pure _

theorem tracks_receiptAdmissionsV2 (delivered : HubBatchV2) (ack : HubAckV2) :
    Tracks writes (receiptAdmissionsV2 delivered ack) := by
  refine tracks_state.bind fun state => .mapM (fun record => ?_) _
  cases state.entries.get? record.legacyRecordId with
  | none => exact .throw _
  | some entry => exact .ite (.throw _) (.pure _)

/-- So do acknowledgements of the first protocol. -/
theorem tracks_acknowledge (ack : HubAckV1) : Tracks True (acknowledge inner ack).run := by
  unfold acknowledge
  split
  · exact .throw _
  · refine tracks_call_bind (tracks_atomic (tracks_state.bind fun _ => .pure _)) fun prior => ?_
    cases prior with
    | some prior =>
        simp only
        split
        · exact .throw _
        · exact tracks_call_bind (tracks_atomic (tracks_completeReceipt _)) fun _ => .pure _
    | none =>
        refine tracks_call_bind (tracks_atomic ?_) fun _ =>
          tracks_call_bind tracks_buildBatch fun delivered => ?_
        · exact tracks_state.bind fun _ => .ite (.throw _) (.pure _)
        · split
          · exact .throw _
          · exact tracks_call_bind (tracks_atomic (tracks_receiptAdmissionsV1 _ _)) fun _ =>
              tracks_call_bind (tracks_commitReceipt _) fun _ => .pure _

/-- And those of the second. -/
theorem tracks_acknowledgeV2 (restarts : Nat) (ack : HubAckV2) :
    Tracks True (acknowledgeV2 inner restarts ack).run := by
  unfold acknowledgeV2
  split
  · exact .throw _
  · refine tracks_call_bind (tracks_atomic (tracks_state.bind fun _ => .pure _)) fun prior => ?_
    cases prior with
    | some prior =>
        simp only
        split
        · exact .throw _
        · exact tracks_call_bind (tracks_atomic (tracks_completeReceipt _)) fun _ => .pure _
    | none =>
        refine tracks_call_bind (tracks_buildBatchV2 _) fun delivered => ?_
        split
        · exact .throw _
        · exact tracks_call_bind (tracks_atomic (tracks_receiptAdmissionsV2 _ _)) fun _ =>
            tracks_call_bind (tracks_commitReceipt _) fun _ => .pure _

theorem tracks_enqueue (envelope : Envelope) (admittedAtMs : I64) :
    Tracks True (enqueue inner envelope admittedAtMs).run := by
  unfold enqueue
  split
  · exact .throw _
  · refine tracks_call_bind ?_ fun _ => tracks_atomic (tracks_enqueueLocked _ _)
    -- the only other section that looks at the latch, and behind it only fails
    intro m latched
    simp only [Call.run_atomic, post_bind, post_get, latched, if_true, post_throw]
    exact ⟨.of_same latched rfl rfl, .inl ⟨trivial, trivial⟩⟩

theorem tracks_expireDue (nowMs : I64) : Tracks True (expireDue inner nowMs).run :=
  tracks_atomic (tracks_expireDueLocked nowMs)

/-- Every request tracks the latch. -/
theorem Request.tracks (request : Request) : Tracks True (request.call inner).run := by
  cases request with
  | enqueue envelope admittedAtMs =>
      exact tracks_call_bind (tracks_enqueue _ _) fun _ => .pure _
  | nextBatch nowMs =>
      refine tracks_call_bind ?_ fun _ => .pure _
      refine tracks_call_bind (tracks_expireDue _) fun _ =>
        tracks_call_bind (tracks_atomic ?_) fun _ => tracks_buildBatch
      exact tracks_state.bind fun _ => .guard tracks_requireNoGaps
  | nextBatchV2 restarts nowMs =>
      refine tracks_call_bind ?_ fun _ => .pure _
      exact tracks_call_bind (tracks_expireDue _) fun _ => tracks_buildBatchV2 _
  | acknowledge ack => exact tracks_call_bind (tracks_acknowledge _) fun _ => .pure _
  | acknowledgeV2 restarts ack => exact tracks_call_bind (tracks_acknowledgeV2 _ _) fun _ => .pure _
  | expireDue nowMs => exact tracks_call_bind (tracks_expireDue _) fun _ => .pure _

end Calls

/-- With the latch open the call would make a durable write. -/
def Request.NeedsWrite (request : Request) (inner : Inner) (m : Machine) : Prop :=
  (finalState ((request.call inner).run m.reopened)).faults.writes = []

/-- Behind the latch a call that needs a durable write fails, and no call writes anything. -/
theorem Request.post_latched (request : Request) {m : Machine}
    (latched : m.storageWriteFailed = true) :
    Post (request.call inner).run m
      (fun _ m' => Behind m m' ∧ ¬ request.NeedsWrite inner m) (fun _ m' => Behind m m') := by
  refine (request.tracks m latched).mono ?_ fun _ _ kept => kept.1
  rintro reply m' ⟨behind, same⟩
  refine ⟨behind, ?_⟩
  rw [Request.NeedsWrite, same]
  exact List.cons_ne_nil _ _

end TeslatlasEdge
