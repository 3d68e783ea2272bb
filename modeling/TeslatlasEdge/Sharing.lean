/-
Module: TeslatlasEdge.Sharing
Purpose: Every public call keeps to the rules of the spool while any other calls run, and what it
  answers is true of the files, then and ever after.
Trusted boundary: none
Main exports: TellsV1, TellsV2, Told, Told.later, Request.within
-/
import TeslatlasEdge.Fidelity
import TeslatlasEdge.Spool.Interference

namespace TeslatlasEdge

open Lib
open Section
open Call (onOk Within)

/-! ### What answers say -/

section

variable {key : EncryptionKey} {host : Host} {older newer : List Disk}

/-- Every record of a v1 batch is an admitted one, none comes twice, and the batch carries the digest
of them. -/
structure TellsV1 (key : EncryptionKey) (host : Host) (timeline : List Disk) (batch : HubBatchV1) :
    Prop where
  digest : batch.batchId = batchId host batch.records
  single : (batch.records.map (·.recordId)).Nodup
  records : ∀ delivered ∈ batch.records,
    ∃ s record, Admitted key timeline s record ∧ delivered.StemsFrom host record

/-- What a batch told stays told. -/
theorem TellsV1.later {batch : HubBatchV1} (tells : TellsV1 key host older batch)
    (recalls : Recalls key older newer) : TellsV1 key host newer batch := by
  refine ⟨tells.digest, tells.single, fun delivered inside => ?_⟩
  obtain ⟨s, record, admitted, stems⟩ := tells.records delivered inside
  exact ⟨s, record, recalls.admitted s record admitted, stems⟩

/-- Every item of a v2 batch tells of an admission, and the batch carries the digest of them. -/
structure TellsV2 (key : EncryptionKey) (host : Host) (timeline : List Disk) (batch : HubBatchV2) :
    Prop where
  digest : batch.batchId = batchIdV2 host batch.records batch.gaps
  items : Tells key host timeline batch

/-- So it does under the second protocol. -/
theorem TellsV2.later {batch : HubBatchV2} (tells : TellsV2 key host older batch)
    (recalls : Recalls key older newer) : TellsV2 key host newer batch := by
  refine ⟨tells.digest, fun delivered inside => ?_, fun notice inside =>
    recalls.noticeOf (tells.items.gaps notice inside)⟩
  obtain ⟨record, admitted, stems⟩ := tells.items.records delivered inside
  exact ⟨record, recalls.admitted _ record admitted, stems⟩

/-- What an answer says of the files. -/
def Told (key : EncryptionKey) (host : Host) (offered : Nat → Envelope → Prop)
    (timeline : List Disk) : Request → Reply → Prop
  | .enqueue envelope _, .enqueued (.stored recordId) =>
      recordId = envelope.recordId host ∧
        ∃ s record, Admitted key timeline s record ∧ record.recordId = envelope.recordId host ∧
          record.stableRecordId = some (envelope.stableRecordId host) ∧
          record.envelope = envelope.map host.codec.print
  | .enqueue envelope _, .enqueued (.alreadyPresent recordId) =>
      FaithfulIds host offered → ∃ s record, Admitted key timeline s record ∧
        record.recordId = recordId ∧ record.stableRecordId = some (envelope.stableRecordId host)
  | _, .batch batch => TellsV1 key host timeline batch
  | _, .batchV2 batch => TellsV2 key host timeline batch
  | .acknowledge ack, .acknowledged result =>
      ∃ receipt, Receipted key timeline receipt ∧ receipt.batchId = ack.batchId ∧
        result = ackResult receipt
  | .acknowledgeV2 _ ack, .acknowledgedV2 result =>
      ∃ receipt, Receipted key timeline receipt ∧ receipt.batchId = ack.batchId ∧
        result = ackResultV2 receipt
  | _, _ => True

/-- What has been said once stays true. -/
theorem Told.later {offered : Nat → Envelope → Prop} {asked : Request} {reply : Reply}
    (told : Told key host offered older asked reply) (recalls : Recalls key older newer) :
    Told key host offered newer asked reply := by
  cases reply with
  | enqueued outcome =>
      cases asked with
      | enqueue envelope admittedAtMs =>
          cases outcome with
          | stored recordId =>
              obtain ⟨named, s, record, admitted, facts⟩ := told
              exact ⟨named, s, record, recalls.admitted s record admitted, facts⟩
          | alreadyPresent recordId =>
              intro faithful
              obtain ⟨s, record, admitted, facts⟩ := told faithful
              exact ⟨s, record, recalls.admitted s record admitted, facts⟩
      | nextBatch | nextBatchV2 | acknowledge | acknowledgeV2 | expireDue => trivial
  | batch delivered =>
      have tells : TellsV1 key host older delivered := by cases asked <;> exact told
      have later := tells.later recalls
      cases asked <;> exact later
  | batchV2 delivered =>
      have tells : TellsV2 key host older delivered := by cases asked <;> exact told
      have later := tells.later recalls
      cases asked <;> exact later
  | acknowledged result =>
      cases asked with
      | acknowledge ack =>
          obtain ⟨receipt, receipted, facts⟩ := told
          exact ⟨receipt, recalls.receipted receipt receipted, facts⟩
      | enqueue | nextBatch | nextBatchV2 | acknowledgeV2 | expireDue => trivial
  | acknowledgedV2 result =>
      cases asked with
      | acknowledgeV2 restarts ack =>
          obtain ⟨receipt, receipted, facts⟩ := told
          exact ⟨receipt, recalls.receipted receipt receipted, facts⟩
      | enqueue | nextBatch | nextBatchV2 | acknowledge | expireDue => trivial
  | expired count => cases asked <;> trivial

end

/-! ### Single sections -/

section

variable {inner : Inner} {offered : Nat → Envelope → Prop}
  {distinct : DistinctNotices inner.host offered} {limits : inner.config.WithinLimits}
  {m : Machine}

/-- A section whose answer does not matter, as long as it is due. -/
theorem within_moves {α : Type} {section_ : Section α} {label : Label}
    (is : SectionOf inner label fun m => finalState (section_ m))
    (pays : ∀ t, Advances inner.key inner.host m t → Due inner label t) :
    (Call.atomic label section_).Within (spoolRules inner offered distinct limits)
      (onOk fun _ t => Advances inner.key inner.host m t) m :=
  .moves is fun t relied _ _ => pays t relied

/-- What a section that looks has seen is true of the machine it leaves. -/
theorem within_observe {α : Type} {section_ : Section α} {P : α → Machine → Prop}
    (looks : ∀ m, Post section_ m (fun _ m' => m' = m) (fun _ m' => m' = m))
    (sees : ∀ t, Whole inner offered t → Post section_ t (fun a _ => P a t) fun _ _ => True) :
    (Call.atomic .observe section_).Within (spoolRules inner offered distinct limits) (onOk P) m := by
  refine .section (.observe (finalState_eq_of_post looks)) (fun _ => trivial) fun t between => ?_
  refine ((looks t).and (sees t between.always)).mono ?_ fun _ _ _ => trivial
  rintro a _ ⟨rfl, holds⟩
  exact holds

theorem met_of_mem_values {t : Machine} (whole : Whole inner offered t) {entry : Entry}
    (inside : entry ∈ t.state.entries.values) : Met inner.key t entry :=
  whole.sound.met whole.ready.numbered (whole.ready.keyed.holds inside)

/-- What reading the file of an entry has shown. -/
def Seen (inner : Inner) (m : Machine) (entry : Entry) :
    Except SpoolError (StoredRecord F64) → Prop
  | .error _ => Damaged inner m entry
  | .ok stored => ∃ record, Admitted inner.key m.timeline entry.spoolSeq record ∧
      record.recordId = entry.recordId ∧ record.stableRecordId = some entry.stableRecordId ∧
      stored = record.map inner.host.codec.parse

/-- What is read of an entry that was met is what was admitted, or nothing. -/
theorem post_readEntry_seen {entry : Entry} (whole : Whole inner offered m)
    (met : Met inner.key m entry) :
    Post (readEntry inner entry) m
      (fun stored m' => m' = m ∧ Seen inner m entry (.ok stored))
      (fun error m' => m' = m ∧ Seen inner m entry (.error error)) := by
  rw [post_readEntry]
  cases read : decodeEntry inner entry (m.disk.read entry.path) with
  | error error => exact ⟨rfl, not_ok_of_corrupt read⟩
  | ok stored => exact ⟨rfl, met.decoded whole.sound read⟩

/-- Reading an entry is within the rules. -/
theorem within_readEntry {entry : Entry} (met : Met inner.key m entry) :
    (Call.attempt (.read entry) (readEntry inner entry)).Within
      (spoolRules inner offered distinct limits)
      (onOk fun answer t => Met inner.key t entry ∧ Advances inner.key inner.host m t ∧
        Seen inner t entry answer) m := by
  refine .attempt (.read (finalState_eq_of_post readEntry_looks)) (fun _ _ _ _ => trivial)
    fun t between => ?_
  have met' := met.later between.relied
  refine (post_readEntry_seen between.always met').mono ?_ ?_
  · rintro stored _ ⟨rfl, seen⟩
    exact ⟨met', between.relied, seen⟩
  · rintro error _ ⟨rfl, seen⟩
    exact ⟨met', between.relied, seen⟩

/-- An entry is set aside only after its file has failed to read back. -/
theorem within_quarantine {entry : Entry} (met : Met inner.key m entry)
    (damaged : Damaged inner m entry) :
    (Call.atomic (.quarantine entry) (quarantineRuntimeEntry inner entry)).Within
      (spoolRules inner offered distinct limits)
      (onOk fun _ t => Advances inner.key inner.host m t) m :=
  within_moves .quarantine fun _ relied => damaged.later met relied

/-! ### Admission -/

/-- The two answers of an admission. -/
theorem post_enqueueLocked_answers {envelope : Envelope} {admittedAtMs : I64} :
    Post (enqueueLocked inner envelope admittedAtMs) m
      (fun outcome _ => outcome = .stored (envelope.recordId inner.host) ∨
        ∃ existing, outcome = .alreadyPresent existing ∧
          m.state.stableIndex.get? (envelope.stableRecordId inner.host) = some existing)
      (fun _ _ => True) := by
  simp only [enqueueLocked, post_bind, post_state]
  cases known : m.state.stableIndex.get? (envelope.stableRecordId inner.host) with
  | some existing => exact .inr ⟨existing, rfl, rfl⟩
  | none =>
      cases checkedAdd m.state.nextSpoolSequence 1 with
      | none => trivial
      | some next =>
          simp only [post_bind, post_ite, post_throw, post_pure, implies_true, true_and, true_or]
          exact fun _ _ _ _ => Post.trivial.monoOk fun _ _ _ => Post.trivial.monoOk fun _ _ _ =>
            Post.trivial

/-- The record of an admission is durable under the sequence it was stored under. -/
theorem within_enqueue {envelope : Envelope} {admittedAtMs : I64} :
    (enqueue inner envelope admittedAtMs).Within (spoolRules inner offered distinct limits)
      (onOk fun outcome t => Told inner.key inner.host offered t.timeline
        (.enqueue envelope admittedAtMs) (.enqueued outcome)) m := by
  unfold enqueue
  cases valid : envelope.validate with
  | error error => exact .failOk
  | ok _ =>
      refine Within.bindOk (P := fun _ _ => True) (within_observe (fun m => ?_) fun t _ => ?_)
        fun _ t _ => ?_
      · simp only [post_bind, post_get, post_ite, post_throw, post_pure, implies_true, and_self]
      · exact Post.trivial
      · refine .section (.enqueue valid) (fun _ => trivial) fun t between => ?_
        have whole := between.always
        refine ((post_enqueueLocked between.granted valid limits.retention_nonneg).and
          post_enqueueLocked_answers).mono ?_ fun _ _ _ => trivial
        rintro outcome t' ⟨⟨chain, stored⟩, rfl | ⟨existing, rfl, known⟩⟩
        · obtain ⟨-, durable⟩ := stored _ rfl
          exact ⟨rfl, _, (storedRecord inner envelope admittedAtMs
            t.state.nextSpoolSequence).map inner.host.codec.print, ⟨rfl, durable⟩, rfl, rfl, rfl⟩
        · intro faithful
          obtain ⟨entry, held, named, stable⟩ :=
            ((whole.coherent faithful).2.stable _ existing).mp known
          obtain ⟨record, admitted, legacy, stable'⟩ := whole.sound.backed.entry entry held
          refine ⟨entry.spoolSeq, record, admitted.mono chain.timeline, legacy.trans named, ?_⟩
          rw [stable', stable]

/-! ### v1 batches -/

/-- The records taken so far are admitted ones. -/
def AllStem (inner : Inner) (m : Machine) (records : List HubBatchRecordV1) : Prop :=
  ∀ delivered ∈ records, ∃ s record, Admitted inner.key m.timeline s record ∧
    delivered.StemsFrom inner.host record

theorem AllStem.later {t : Machine} {records : List HubBatchRecordV1}
    (stem : AllStem inner m records) (recalls : Recalls inner.key m.timeline t.timeline) :
    AllStem inner t records := by
  intro delivered inside
  obtain ⟨s, record, admitted, stems⟩ := stem delivered inside
  exact ⟨s, record, recalls.admitted s record admitted, stems⟩

/-- A scan keeps within the rules while others act between its sections. -/
theorem within_scanV1 {entries : List Entry} {records : List HubBatchRecordV1} {bodyBytes : Nat}
    (met : ∀ entry ∈ entries, Met inner.key m entry) (stem : AllStem inner m records)
    (single : (records.map (·.recordId) ++ entries.map (·.recordId)).Nodup) :
    (scanV1 inner entries records bodyBytes).Within (spoolRules inner offered distinct limits)
      (onOk fun result t => AllStem inner t result ∧ (result.map (·.recordId)).Nodup) m := by
  induction entries generalizing m records bodyBytes with
  | nil => exact .pure ⟨stem, by simpa using single⟩
  | cons entry rest ih =>
      have here := met entry List.mem_cons_self
      have others : ∀ other ∈ rest, Met inner.key m other :=
        fun other inside => met other (List.mem_cons_of_mem _ inside)
      have skipped : (records.map (·.recordId) ++ rest.map (·.recordId)).Nodup :=
        single.sublist (List.Sublist.append_left (List.sublist_cons_self _ _) _)
      have enough : AllStem inner m records ∧ (records.map (·.recordId)).Nodup :=
        ⟨stem, (List.nodup_append.mp single).1⟩
      simp only [scanV1]
      split
      · exact .pure enough
      · refine (within_readEntry here).bindOk fun answer t facts => ?_
        obtain ⟨here, relied, seen⟩ := facts
        cases answer with
        | error error =>
            have setAside : ((Call.atomic (.quarantine entry) (quarantineRuntimeEntry inner entry)) >>=
                fun _ => scanV1 inner rest records bodyBytes).Within
                (spoolRules inner offered distinct limits)
                (onOk fun result t => AllStem inner t result ∧ (result.map (·.recordId)).Nodup) t := by
              refine (within_quarantine here seen).bindOk fun _ u onward => ?_
              have gone := relied.trans onward
              exact ih (fun other inside => (others other inside).later gone)
                (stem.later gone.toRecalls) skipped
            cases error with
            | corruptRecord => exact setAside
            | _ => exact .failOk
        | ok stored =>
            obtain ⟨record, admitted, legacy, -, rfl⟩ := seen
            simp only
            generalize encodedSize inner.host _ = encodedBytes
            have enough : AllStem inner t records ∧ (records.map (·.recordId)).Nodup :=
              ⟨stem.later relied.toRecalls, enough.2⟩
            split
            · exact .pure enough
            · split
              · exact .failOk
              · refine ih (fun other inside => (others other inside).later relied) ?_ ?_
                · intro delivered inside
                  rcases List.mem_append.mp inside with before | new
                  · exact enough.1 delivered before
                  · obtain rfl := List.mem_singleton.mp new
                    exact ⟨entry.spoolSeq, record, admitted, rfl, rfl⟩
                · have same : (record.map inner.host.codec.parse).recordId = entry.recordId := legacy
                  rw [List.map_append, List.map_singleton, same, List.append_assoc]
                  exact single

theorem nodup_recordIds {t : Machine} (whole : Whole inner offered t) :
    (t.state.entries.values.map (·.recordId)).Nodup := by
  have keyed := whole.ready.keyed
  refine (List.nodup_map_iff_inj_on keyed.nodup_values).mpr fun entry inside other inside' same => ?_
  have held := keyed.holds inside
  have held' := keyed.holds inside'
  rw [State.Holds, same, held'] at held
  exact (Option.some.inj held).symm

/-- So does building a batch. -/
theorem within_buildBatch :
    (buildBatch inner).Within (spoolRules inner offered distinct limits)
      (onOk fun batch t => TellsV1 inner.key inner.host t.timeline batch) m := by
  unfold buildBatch
  refine Within.bindOk (P := fun ordered t => (∀ entry ∈ ordered, Met inner.key t entry) ∧
    (ordered.map (·.recordId)).Nodup) (within_observe (fun m => ?_) fun t whole => ?_) ?_
  · simp only [post_bind, post_state, post_ite, post_throw, post_pure, implies_true, and_self]
  · simp only [post_bind, post_state, post_ite, post_throw, post_pure, implies_true, true_and]
    refine fun _ => ⟨fun entry inside => ?_, ?_⟩
    · exact met_of_mem_values whole ((List.perm_insertionSort _ _).mem_iff.mp inside)
    · exact ((List.perm_insertionSort _ _).map _).nodup_iff.mpr (nodup_recordIds whole)
  · rintro ordered t ⟨met, single⟩
    refine (within_scanV1 met (fun _ inside => absurd inside List.not_mem_nil)
      (by simpa using single)).bindOk ?_
    rintro records u ⟨stem, single⟩
    refine Within.bindOk (P := fun _ t => AllStem inner t records) ?_ fun _ v stem =>
      .pure ⟨rfl, single, stem⟩
    refine .section (.observe (finalState_eq_of_post requireNoGaps_looks)) (fun _ => trivial)
      fun v between => (requireNoGaps_looks v).mono ?_ fun _ _ _ => trivial
    rintro _ _ rfl
    exact stem.later between.relied.toRecalls

theorem within_expireDue {nowMs : I64} :
    (expireDue inner nowMs).Within (spoolRules inner offered distinct limits)
      (onOk fun _ _ => True) m :=
  (within_moves .expire fun _ _ => trivial).monoOk fun _ _ _ => trivial

/-- So does a pull of the first protocol. -/
theorem within_nextBatch {nowMs : I64} :
    (nextBatch inner nowMs).Within (spoolRules inner offered distinct limits)
      (onOk fun batch t => TellsV1 inner.key inner.host t.timeline batch) m := by
  refine within_expireDue.bindOk fun _ t _ => Within.bindOk (P := fun _ _ => True)
    (within_observe (fun m => ?_) fun _ _ => Post.trivial) fun _ _ _ => within_buildBatch
  simp only [requireNoGaps, post_bind, post_state, post_ite, post_throw, post_pure, implies_true,
    and_self]

/-! ### v2 batches -/

/-- The candidate is an entry that has been held, or a notice of an admission. -/
def BatchCandidateV2.Met (inner : Inner) (m : Machine) : BatchCandidateV2 → Prop
  | .record entry => TeslatlasEdge.Met inner.key m entry
  | .gap notice => NoticeOf inner.key inner.host m.timeline notice

theorem BatchCandidateV2.Met.later {t : Machine} {candidate : BatchCandidateV2}
    (met : candidate.Met inner m) (advances : Advances inner.key inner.host m t) :
    candidate.Met inner t := by
  cases candidate with
  | record entry => exact TeslatlasEdge.Met.later met advances
  | gap notice => exact advances.noticeOf met

/-- The item tells of an admission. -/
def BatchItemV2.Tells (inner : Inner) (m : Machine) : BatchItemV2 → Prop
  | .record delivered => ∃ record, Admitted inner.key m.timeline delivered.spoolSeq record ∧
      delivered.StemsFrom inner.host record
  | .gap notice => NoticeOf inner.key inner.host m.timeline notice

/-- So does taking one candidate. -/
theorem within_candidateItem {counted : OrdMap Nat RecordId} {candidate : BatchCandidateV2}
    (met : candidate.Met inner m) :
    (candidateItem inner counted candidate).Within (spoolRules inner offered distinct limits)
      (onOk fun item t => Advances inner.key inner.host m t ∧
        ∀ delivered, item = some delivered → delivered.Tells inner t) m := by
  cases candidate with
  | gap notice =>
      refine .pure ⟨.refl m, fun delivered same => ?_⟩
      obtain rfl := Option.some.inj same
      exact met
  | record entry =>
      have here : Met inner.key m entry := met
      simp only [candidateItem]
      split
      · refine (within_moves (.read (finalState_eq_of_post readEntry_looks))
          fun _ _ => trivial).bindOk fun _ t relied => ?_
        refine .pure ⟨relied, fun delivered same => ?_⟩
        obtain rfl := Option.some.inj same
        exact (here.later relied).noticeOf inner.host _ _
      · refine (within_readEntry here).bindOk fun answer t facts => ?_
        obtain ⟨here, relied, seen⟩ := facts
        cases answer with
        | error error =>
            have setAside : ((Call.atomic (.quarantine entry) (quarantineRuntimeEntry inner entry)) >>=
                fun _ => (pure none : SpoolCall (Option BatchItemV2))).Within
                (spoolRules inner offered distinct limits)
                (onOk fun item u => Advances inner.key inner.host m u ∧
                  ∀ delivered, item = some delivered → delivered.Tells inner u) t := by
              refine (within_quarantine here seen).bindOk fun _ u onward =>
                .pure ⟨relied.trans onward, fun delivered none => ?_⟩
              cases none
            cases error with
            | corruptRecord => exact setAside
            | _ => exact .failOk
        | ok stored =>
            obtain ⟨record, admitted, legacy, stable, rfl⟩ := seen
            refine .pure ⟨relied, fun delivered same => ?_⟩
            obtain rfl := Option.some.inj same
            exact ⟨record, admitted, stable, legacy, admitted.1, rfl, rfl⟩

/-- The items taken so far tell of admissions. -/
structure ScanV2.Tells (inner : Inner) (m : Machine) (scan : ScanV2) : Prop where
  records : ∀ delivered ∈ scan.records, (BatchItemV2.record delivered).Tells inner m
  gaps : ∀ notice ∈ scan.gaps, (BatchItemV2.gap notice).Tells inner m

theorem BatchItemV2.Tells.later {t : Machine} {item : BatchItemV2} (tells : item.Tells inner m)
    (recalls : Recalls inner.key m.timeline t.timeline) : item.Tells inner t := by
  cases item with
  | record delivered =>
      obtain ⟨record, admitted, stems⟩ := tells
      exact ⟨record, recalls.admitted _ record admitted, stems⟩
  | gap notice => exact recalls.noticeOf tells

theorem ScanV2.Tells.later {t : Machine} {scan : ScanV2} (tells : scan.Tells inner m)
    (recalls : Recalls inner.key m.timeline t.timeline) : scan.Tells inner t :=
  ⟨fun delivered inside => (tells.records delivered inside).later recalls,
    fun notice inside => (tells.gaps notice inside).later recalls⟩

/-- One more true item leaves a scan true. -/
theorem ScanV2.Tells.push {scan : ScanV2} {item : BatchItemV2} {encodedBytes : Nat}
    (tells : scan.Tells inner m) (new : item.Tells inner m) :
    (scan.push encodedBytes item).Tells inner m := by
  cases item with
  | record delivered =>
      refine ⟨fun other inside => ?_, tells.gaps⟩
      rcases List.mem_append.mp inside with before | last
      · exact tells.records other before
      · obtain rfl := List.mem_singleton.mp last
        exact new
  | gap notice =>
      refine ⟨tells.records, fun other inside => ?_⟩
      rcases List.mem_append.mp inside with before | last
      · exact tells.gaps other before
      · obtain rfl := List.mem_singleton.mp last
        exact new

/-- A scan of the second protocol keeps within the rules. -/
theorem within_scanV2 {counted : OrdMap Nat RecordId} {remaining : List BatchCandidateV2}
    {scan : ScanV2} (met : ∀ candidate ∈ remaining, candidate.Met inner m)
    (tells : scan.Tells inner m) :
    (scanV2 inner counted remaining scan).Within (spoolRules inner offered distinct limits)
      (onOk fun result t => result.Tells inner t) m := by
  induction remaining generalizing m scan with
  | nil => exact .pure tells
  | cons candidate rest ih =>
      simp only [scanV2]
      split
      · exact .pure tells
      · refine (within_candidateItem (met candidate List.mem_cons_self)).bindOk fun item t facts => ?_
        obtain ⟨relied, told⟩ := facts
        have others : ∀ other ∈ rest, other.Met inner t := fun other inside =>
          (met other (List.mem_cons_of_mem _ inside)).later relied
        have earlier := tells.later relied.toRecalls
        cases item with
        | none => exact ih others ⟨earlier.records, earlier.gaps⟩
        | some item =>
            generalize encodedSize inner.host item.toJson = encodedBytes
            simp only
            split
            · exact .pure earlier
            · split
              · exact .pure earlier
              · split
                · exact .failOk
                · exact ih others (earlier.push (told item rfl))

/-- So does building a batch, with its restarts. -/
theorem within_buildBatchV2 {restarts : Nat} :
    (buildBatchV2 inner restarts).Within (spoolRules inner offered distinct limits)
      (onOk fun batch t => TellsV2 inner.key inner.host t.timeline batch) m := by
  induction restarts generalizing m with
  | zero => exact .failOk
  | succ restarts ih =>
      simp only [buildBatchV2]
      refine Within.bindOk (P := fun snapshot t => ∀ entry ∈ snapshot.1, Met inner.key t entry)
        (within_observe (fun m => ?_) fun t whole => ?_) fun snapshot t met => ?_
      · simp only [post_bind, post_state, post_ite, post_throw, post_pure, implies_true, and_self]
      · simp only [post_bind, post_state, post_ite, post_throw, post_pure, implies_true, true_and]
        exact fun _ entry inside => met_of_mem_values whole (mem_sortBySeq.mp inside)
      · refine Within.bindOk (P := fun pendingGaps u => Advances inner.key inner.host t u ∧
          ∀ notice ∈ pendingGaps, NoticeOf inner.key inner.host u.timeline notice)
          (.section (.observe (finalState_eq_of_post fun m => ?_)) (fun _ => trivial)
            fun u between => ?_) fun pendingGaps u facts => ?_
        · simp only [post_bind, post_state, post_pure]
        · simp only [post_bind, post_state, post_pure]
          refine ⟨between.relied, fun notice inside => ?_⟩
          obtain ⟨gap, held, rfl⟩ := List.mem_map.mp inside
          obtain ⟨noticeId, found⟩ := OrdMap.mem_values_iff.mp held
          exact between.always.sound.heldNotice found
        · obtain ⟨relied, known⟩ := facts
          split
          · exact .failOk
          · refine (within_scanV2 (fun candidate inside => ?_) ⟨?_, ?_⟩).bindOk fun scan v tells => ?_
            · rw [mem_sortBySeq, List.mem_append, List.mem_map, List.mem_map] at inside
              rcases inside with ⟨entry, held, rfl⟩ | ⟨notice, held, rfl⟩
              · exact (met entry held).later relied
              · exact known notice held
            · exact fun _ inside => absurd inside List.not_mem_nil
            · exact fun _ inside => absurd inside List.not_mem_nil
            · split
              · exact ih
              · exact .pure ⟨rfl, tells.records, tells.gaps⟩

/-- So does a pull of the second protocol. -/
theorem within_nextBatchV2 {restarts : Nat} {nowMs : I64} :
    (nextBatchV2 inner restarts nowMs).Within (spoolRules inner offered distinct limits)
      (onOk fun batch t => TellsV2 inner.key inner.host t.timeline batch) m :=
  within_expireDue.bindOk fun _ _ _ => within_buildBatchV2

/-! ### Acknowledgement -/

theorem within_pruneReceipt {oldest : ReceiptEntry} (path : ∃ name, oldest.path = .receipt name) :
    (pruneReceipt inner oldest).Within (spoolRules inner offered distinct limits)
      (onOk fun _ t => Advances inner.key inner.host m t) m := by
  have rest : ∀ {m₁ : Machine}, Advances inner.key inner.host m m₁ → (do
      Call.atomic (.removeReceipt oldest) (removeFile oldest.path)
      Call.atomic (.forgetReceipt oldest) <| modifyState fun state =>
        { state with receipts := state.receipts.erase oldest.receipt.batchId }
      Call.atomic .sync syncDirectory : SpoolCall Unit).Within
        (spoolRules inner offered distinct limits)
        (onOk fun _ t => Advances inner.key inner.host m t) m₁ := by
    intro m₁ before
    refine (within_moves .removeReceipt fun _ _ => path).bindOk fun _ m₂ removed => ?_
    refine Within.bindOk (within_moves .forgetReceipt fun _ _ => trivial) fun _ m₃ forgotten => ?_
    refine (within_moves .sync fun _ _ => trivial).monoOk fun _ m₄ synced => ?_
    exact (before.trans removed).trans (forgotten.trans synced)
  unfold pruneReceipt
  split
  · exact (within_moves .pruneHistory fun _ _ => trivial).bindOk fun _ m₁ noted => rest noted
  · exact rest (.refl m)

/-- So does pruning. -/
theorem within_pruneReceipts :
    (pruneReceipts inner).Within (spoolRules inner offered distinct limits)
      (onOk fun _ t => Advances inner.key inner.host m t) m := by
  have loop : ∀ passes {m₁ : Machine}, Advances inner.key inner.host m m₁ →
      (pruneReceiptsLoop inner passes).Within (spoolRules inner offered distinct limits)
        (onOk fun _ t => Advances inner.key inner.host m t) m₁ := by
    intro passes
    induction passes with
    | zero => exact fun _ => .failOk
    | succ passes ih =>
        intro m₁ before
        simp only [pruneReceiptsLoop]
        refine Within.bindOk (P := fun oldest t => Advances inner.key inner.host m t ∧
          ∀ entry, oldest = some entry → ∃ name, entry.path = .receipt name)
          (.section (.observe (finalState_eq_of_post fun m => ?_)) (fun _ => trivial)
            fun t between => ?_) fun oldest t facts => ?_
        · simp only [post_bind, post_state, post_pure]
        · simp only [post_bind, post_state, post_pure]
          refine ⟨before.trans between.relied, fun entry found => ?_⟩
          obtain ⟨stands, -⟩ := oldestReceipt_eq_some between.always.ready.receipts found
          exact ⟨_, between.always.ready.pathed.receipts _ entry stands⟩
        · obtain ⟨relied, path⟩ := facts
          cases oldest with
          | none => exact .pure relied
          | some oldest =>
              exact (within_pruneReceipt (path oldest rfl)).bindOk fun _ u pruned =>
                ih (relied.trans pruned)
  refine (within_moves (.observe (finalState_eq_of_post fun m => ?_)) fun _ _ => trivial).bindOk
    fun held t relied => loop (held + 1) relied
  simp only [post_bind, post_state, post_pure]

/-- Once its file has been renamed into place a receipt has been durable. -/
theorem post_writeReceipt {receipt : AckReceipt} :
    Post (writeAtomic (.receipt (receiptFileName receipt.sequence receipt.batchId))
        (inner.key.encrypt (.receipt receipt))) m
      (fun _ m' => Receipted inner.key m'.timeline receipt) (fun _ _ => True) := by
  apply post_writeAtomic
  · exact fun _ => trivial
  · exact fun _ faults _ => ⟨_, List.mem_cons_self, AList.lookup_insert _⟩
  · exact fun _ _ _ _ _ => trivial
  · exact fun _ _ _ _ _ => trivial
  · exact fun _ _ _ _ _ => trivial

/-- A receipt over admissions is durable when the acknowledgement is answered. -/
theorem within_commitReceipt {receiptAt : Nat → AckReceipt}
    (numbered : ∀ sequence, (receiptAt sequence).sequence = sequence)
    (vouched : ∀ sequence, Vouched inner.key inner.host m.timeline (receiptAt sequence)) :
    (commitReceipt inner receiptAt).Within (spoolRules inner offered distinct limits)
      (onOk fun receipt t => Receipted inner.key t.timeline receipt ∧
        ∃ sequence, receipt = receiptAt sequence) m := by
  unfold commitReceipt
  refine (within_moves .allocate fun _ _ => trivial).bindOk fun sequence t allocated => ?_
  simp only
  split
  · exact .failOk
  · rename_i small
    rw [not_lt] at small
    have write : SectionOf inner (.writeReceipt (receiptAt sequence)) _ := .writeReceipt small
    have insert : SectionOf inner (.insertReceipt (receiptAt sequence)) _ := .insertReceipt
    rw [numbered sequence] at write insert
    have vouched' := (vouched sequence).later allocated.toRecalls
    refine Within.bindOk (P := fun _ u => Receipted inner.key u.timeline (receiptAt sequence))
      (.atomic write (fun u relied _ _ => vouched'.later relied.toRecalls) fun u _ => ?_)
      fun _ u receipted => ?_
    · have written := @post_writeReceipt inner u (receiptAt sequence)
      rwa [numbered sequence] at written
    · refine Within.bindOk (within_moves insert fun v relied => relied.receipted _ receipted)
        fun _ v inserted => ?_
      have receipted := inserted.receipted _ receipted
      refine (within_moves .complete fun w relied => relied.receipted _ receipted).bindOk
        fun _ w completed => ?_
      have receipted := completed.receipted _ receipted
      exact within_pruneReceipts.bindOk fun _ x pruned =>
        .pure ⟨pruned.receipted _ receipted, sequence, rfl⟩

theorem receiptAdmissionsV1_looks {delivered : HubBatchV1} {ack : HubAckV1} (m : Machine) :
    Post (receiptAdmissionsV1 delivered ack) m (fun _ m' => m' = m) (fun _ m' => m' = m) := by
  simp only [receiptAdmissionsV1, post_bind, post_state]
  refine receiptAdmissions_looks m _ _ fun record m' => ?_
  cases m.state.entries.get? record.recordId <;> exact rfl

theorem receiptAdmissionsV2_looks {delivered : HubBatchV2} {ack : HubAckV2} (m : Machine) :
    Post (receiptAdmissionsV2 delivered ack) m (fun _ m' => m' = m) (fun _ m' => m' = m) := by
  simp only [receiptAdmissionsV2, post_bind, post_state]
  refine receiptAdmissions_looks m _ _ fun record m' => ?_
  cases m.state.entries.get? record.legacyRecordId with
  | none => exact rfl
  | some entry => simp only [post_ite, post_throw, post_pure, implies_true, and_self]

/-- The entries of a receipt's admissions have been met. -/
theorem met_of_admissions {admissions : List ReceiptAdmission} {t : Machine}
    (whole : Whole inner offered t)
    (held : ∀ admission ∈ admissions, ∃ entry, t.state.Holds entry ∧ entry.admission = admission) :
    ∀ admission ∈ admissions, ∃ record, Admitted inner.key t.timeline admission.spoolSeq record ∧
      record.stableRecordId = some admission.stableRecordId ∧
      record.recordId = admission.legacyRecordId := by
  intro admission accepted
  obtain ⟨entry, here, rfl⟩ := held admission accepted
  obtain ⟨record, admitted, legacy, stable⟩ := whole.sound.backed.entry entry here
  exact ⟨record, admitted, stable, legacy⟩

/-- A v1 acknowledgement of a batch that was rebuilt accepts what has been admitted. -/
theorem vouched_acknowledge {ack : HubAckV1} {delivered : HubBatchV1}
    {admissions : List ReceiptAdmission} {timeline : List Disk}
    (tells : TellsV1 inner.key inner.host timeline delivered)
    (matching : delivered.batchId = ack.batchId ∧ ¬ (ack.acceptedRecordIds.any fun recordId =>
      ! (delivered.records.map (·.recordId)).contains recordId) = true)
    (named : admissions.map (·.legacyRecordId) =
      (delivered.records.map (·.recordId)).filter ack.acceptedRecordIds.contains)
    (admitted : ∀ admission ∈ admissions,
      ∃ record, Admitted inner.key timeline admission.spoolSeq record ∧
        record.stableRecordId = some admission.stableRecordId ∧
        record.recordId = admission.legacyRecordId) (sequence : Nat) :
    Vouched inner.key inner.host timeline
      { version := 1
        sequence := sequence
        batchId := ack.batchId
        acceptedRecordIds := ack.acceptedRecordIds
        acceptedStableRecordIds := []
        acceptedGapNoticeIds := []
        acceptedAdmissions := admissions } := by
  refine ⟨admitted, fun _ none => absurd none List.not_mem_nil, .inl rfl, fun _ =>
    ⟨delivered.records, matching.1.symm.trans tells.digest, tells.single, fun record inside => ?_⟩,
    fun _ => ⟨rfl, HubAckV1.accepts_iff matching.2 named⟩, (fun version => by cases version),
    List.nodup_nil, fun version => by cases version⟩
  obtain ⟨s, stored, there, stems⟩ := tells.records record inside
  exact ⟨s, stored, there, stems.1⟩

/-- Acknowledgements of the first protocol keep within the rules. -/
theorem within_acknowledge {ack : HubAckV1} :
    (acknowledge inner ack).Within (spoolRules inner offered distinct limits)
      (onOk fun result t => ∃ receipt, Receipted inner.key t.timeline receipt ∧
        receipt.batchId = ack.batchId ∧ result = ackResult receipt) m := by
  unfold acknowledge
  split
  · exact .failOk
  · refine Within.bindOk (P := fun prior t => ∀ entry, prior = some entry →
      Receipted inner.key t.timeline entry.receipt ∧ entry.receipt.batchId = ack.batchId)
      (within_observe (fun m => ?_) fun t whole => ?_) fun prior t known => ?_
    · simp only [post_bind, post_state, post_pure]
    · simp only [post_bind, post_state, post_pure]
      exact fun entry found => ⟨whole.ready.receipts.durable _ entry found,
        whole.ready.receipts.batchId _ entry found⟩
    · cases prior with
      | some prior =>
          obtain ⟨receipted, here⟩ := known prior rfl
          simp only
          split
          · exact .failOk
          · exact (within_moves .complete fun u relied => relied.receipted _ receipted).bindOk
              fun _ u completed => .pure ⟨_, completed.receipted _ receipted, here, rfl⟩
      | none =>
          refine Within.bindOk (P := fun _ _ => True) (within_observe (fun m => ?_)
            fun _ _ => Post.trivial) fun _ u _ => within_buildBatch.bindOk fun delivered v tells => ?_
          · simp only [post_bind, post_state, post_ite, post_throw, post_pure, implies_true, and_self]
          · split
            · exact .failOk
            · rename_i matching
              simp only [not_or, not_not] at matching
              refine Within.bindOk (P := fun admissions w =>
                ∀ sequence, Vouched inner.key inner.host w.timeline
                  { version := 1
                    sequence := sequence
                    batchId := ack.batchId
                    acceptedRecordIds := ack.acceptedRecordIds
                    acceptedStableRecordIds := []
                    acceptedGapNoticeIds := []
                    acceptedAdmissions := admissions })
                (.section (.admissions (finalState_eq_of_post fun m => ?_)) (fun _ => trivial)
                  fun w between => ?_) fun admissions w vouched => ?_
              · exact receiptAdmissionsV1_looks m
              · refine (post_receiptAdmissionsV1 between.always.ready.keyed).mono ?_
                  fun _ _ _ => trivial
                rintro admissions _ ⟨rfl, named, held⟩
                exact vouched_acknowledge (tells.later between.relied.toRecalls) matching named
                  (met_of_admissions between.always held)
              · refine (within_commitReceipt (fun _ => rfl) vouched).bindOk fun receipt x facts => ?_
                obtain ⟨receipted, sequence, rfl⟩ := facts
                exact .pure ⟨_, receipted, rfl, rfl⟩

/-- A v2 acknowledgement of a batch that was rebuilt accepts what has been admitted. -/
theorem vouched_acknowledgeV2 {ack : HubAckV2} {delivered : HubBatchV2}
    {admissions : List ReceiptAdmission} {timeline : List Disk}
    (tells : TellsV2 inner.key inner.host timeline delivered) (wellFormed : ack.wellFormed = true)
    (matching : ¬ ¬ ack.matchesBatch delivered = true)
    (related : List.Forall₂ (fun (record : HubBatchRecordV2) admission => admission =
        { spoolSeq := record.spoolSeq
          stableRecordId := record.recordId
          legacyRecordId := record.legacyRecordId })
      (delivered.records.filter fun record => ack.acceptedRecordIds.contains record.recordId)
      admissions)
    (admitted : ∀ admission ∈ admissions,
      ∃ record, Admitted inner.key timeline admission.spoolSeq record ∧
        record.stableRecordId = some admission.stableRecordId ∧
        record.recordId = admission.legacyRecordId) (sequence : Nat) :
    Vouched inner.key inner.host timeline (ack.receipt admissions sequence) := by
  simp only [HubAckV2.matchesBatch, not_not, Bool.and_eq_true, List.all_eq_true,
    List.contains_iff_mem, List.mem_map, decide_eq_true_eq] at matching
  obtain ⟨⟨⟨same, -⟩, notices⟩, -⟩ := matching
  have second : ¬ (ack.receipt admissions sequence).version = 1 := by simp [HubAckV2.receipt]
  refine ⟨admitted, fun noticeId accepted => ?_, .inr rfl, fun first => absurd first second,
    fun first => absurd first second, fun _ => rfl, HubAckV2.nodup_notices wellFormed, fun _ =>
    ⟨delivered.records, delivered.gaps, same.symm.trans tells.digest, fun admission inside => ?_,
      notices, tells.items.gaps, fun record inside => ?_⟩⟩
  · obtain ⟨notice, inside, named⟩ := notices noticeId accepted
    exact ⟨notice, named, tells.items.gaps notice inside⟩
  · obtain ⟨record, there, rfl⟩ := exists_of_mem_forall₂ related inside
    obtain ⟨known, accepted⟩ := List.mem_filter.mp there
    exact ⟨record, known, List.contains_iff_mem.mp accepted, rfl⟩
  · obtain ⟨stored, there, -⟩ := tells.items.records record inside
    exact ⟨stored, there⟩

/-- So do those of the second. -/
theorem within_acknowledgeV2 {restarts : Nat} {ack : HubAckV2} :
    (acknowledgeV2 inner restarts ack).Within (spoolRules inner offered distinct limits)
      (onOk fun result t => ∃ receipt, Receipted inner.key t.timeline receipt ∧
        receipt.batchId = ack.batchId ∧ result = ackResultV2 receipt) m := by
  unfold acknowledgeV2
  split
  · exact .failOk
  · rename_i wellFormed
    rw [not_not] at wellFormed
    refine Within.bindOk (P := fun prior t => ∀ entry, prior = some entry →
      Receipted inner.key t.timeline entry.receipt ∧ entry.receipt.batchId = ack.batchId)
      (within_observe (fun m => ?_) fun t whole => ?_) fun prior t known => ?_
    · simp only [post_bind, post_state, post_pure]
    · simp only [post_bind, post_state, post_pure]
      exact fun entry found => ⟨whole.ready.receipts.durable _ entry found,
        whole.ready.receipts.batchId _ entry found⟩
    · cases prior with
      | some prior =>
          obtain ⟨receipted, here⟩ := known prior rfl
          simp only
          split
          · exact .failOk
          · exact (within_moves .complete fun u relied => relied.receipted _ receipted).bindOk
              fun _ u completed => .pure ⟨_, completed.receipted _ receipted, here, rfl⟩
      | none =>
          refine within_buildBatchV2.bindOk fun delivered v tells => ?_
          split
          · exact .failOk
          · rename_i matching
            refine Within.bindOk (P := fun admissions w =>
              ∀ sequence, Vouched inner.key inner.host w.timeline (ack.receipt admissions sequence))
              (.section (.admissions (finalState_eq_of_post fun m => ?_)) (fun _ => trivial)
                fun w between => ?_) fun admissions w vouched => ?_
            · exact receiptAdmissionsV2_looks m
            · refine (post_receiptAdmissionsV2 between.always.ready.keyed).mono ?_
                fun _ _ _ => trivial
              rintro admissions _ ⟨rfl, -, related, held⟩
              exact vouched_acknowledgeV2 (tells.later between.relied.toRecalls) wellFormed matching
                related (met_of_admissions between.always held)
            · refine (within_commitReceipt (fun _ => rfl) vouched).bindOk fun receipt x facts => ?_
              obtain ⟨receipted, sequence, rfl⟩ := facts
              exact .pure ⟨_, receipted, rfl, rfl⟩

/-! ### The calls -/

/-- Every call keeps to the rules, whatever the others do, and answers what is true. -/
theorem Request.within (request : Request) :
    (request.call inner).Within (spoolRules inner offered distinct limits)
      (onOk fun reply t => Told inner.key inner.host offered t.timeline request reply) m := by
  cases request with
  | enqueue envelope admittedAtMs => exact within_enqueue.bindOk fun _ _ told => .pure told
  | nextBatch nowMs => exact within_nextBatch.bindOk fun _ _ tells => .pure tells
  | nextBatchV2 restarts nowMs => exact within_nextBatchV2.bindOk fun _ _ tells => .pure tells
  | acknowledge ack => exact within_acknowledge.bindOk fun _ _ told => .pure told
  | acknowledgeV2 restarts ack => exact within_acknowledgeV2.bindOk fun _ _ told => .pure told
  | expireDue nowMs => exact within_expireDue.bindOk fun _ _ _ => .pure trivial

end

end TeslatlasEdge
