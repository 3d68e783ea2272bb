/-
Module: TeslatlasEdge.Protocols
Purpose: What a v1 acknowledgement can do to what the v2 protocol delivered or accepted.  It is
  refused and removes nothing, except that the empty list of identities under the batch of a retained
  v2 receipt completes that receipt.
Trusted boundary: none
Main exports: batchTexts, Sound.batchId_ne, HubAckV1.KeepsApart, Outstanding,
  protocols_separate_iff
-/
import TeslatlasEdge.Completions
import TeslatlasEdge.Separation
import TeslatlasEdge.Spool.Survival

namespace TeslatlasEdge

open Lib
open Section

/-! ### Batch texts -/

/-- What the identity of a v1 batch digests. -/
def batchText (ids : List RecordId) : Bytes :=
  domain "teslatlas-edge-batch-v1" ++ ids.flatMap fun recordId => Str.bytes recordId.text ++ [0]

/-- What the identity of a v2 batch digests. -/
def batchTextV2 (records : List HubBatchRecordV2) (gaps : List GapNoticeV2) : Bytes :=
  domain "teslatlas-edge-batch-v2" ++ (mergedItems records gaps).flatMap MergedItem.digestBytes

/-- The identity of a batch under the first protocol is that of its records' identities. -/
theorem batchId_eq (host : Host) (records : List HubBatchRecordV1) :
    batchId host records =
      hexEncode (host.sha256 (batchText (records.map (·.recordId)))).val := by
  rw [batchText, List.flatMap_map]
  rfl

/-- The two domains are of one length and differ, so no text belongs to both. -/
theorem batchText_ne (ids : List RecordId) (records : List HubBatchRecordV2)
    (gaps : List GapNoticeV2) : batchText ids ≠ batchTextV2 records gaps := by
  intro same
  have lengths : (domain "teslatlas-edge-batch-v1").length =
      (domain "teslatlas-edge-batch-v2").length := by decide
  exact absurd (List.append_inj same lengths).1 (by decide)

/-- The texts of v1 batches of offered envelopes. -/
def batchTexts (host : Host) (offered : Nat → Envelope → Prop) : Set Bytes :=
  {text | ∃ ids : List RecordId, ids.Nodup ∧
    (∀ recordId ∈ ids, ∃ s envelope, offered s envelope ∧ envelope.recordId host = recordId) ∧
    batchText ids = text}

section

variable {inner : Inner} {offered : Nat → Envelope → Prop} {since : List Disk} {m m' : Machine}
  {records : List HubBatchRecordV2} {gaps : List GapNoticeV2}

/-- A v1 batch of admitted records has another identity than a v2 batch. -/
theorem Sound.batchId_ne (sound : Sound inner.key inner.host offered since m)
    (collisionFree : (insert (batchTextV2 records gaps)
      (batchTexts inner.host offered)).InjOn inner.host.sha256)
    {listed : List HubBatchRecordV1} (single : (listed.map (·.recordId)).Nodup)
    (known : ∀ record ∈ listed, AdmittedAs inner.key m.timeline record.recordId) :
    batchId inner.host listed ≠ batchIdV2 inner.host records gaps := by
  intro same
  have text : batchText (listed.map (·.recordId)) ∈ batchTexts inner.host offered := by
    refine ⟨_, single, fun recordId inside => ?_, rfl⟩
    obtain ⟨record, here, rfl⟩ := List.mem_map.mp inside
    obtain ⟨s, stored, admitted, named⟩ := known record here
    obtain ⟨-, -, writer, envelope, admittedAtMs, host, offer, -, rfl⟩ :=
      sound.lawful.origin s stored admitted
    refine ⟨s, envelope, offer, ?_⟩
    rw [← named, ← host]
    rfl
  rw [batchId_eq] at same
  apply batchText_ne (listed.map (·.recordId)) records gaps
  exact collisionFree (Set.mem_insert_of_mem _ text) (Set.mem_insert _ _)
    (Subtype.ext (hexEncode_injective same))

/-! ### The property -/

/-- Every entry that reads back and every gap is still held, with its file. -/
structure RemovesNothing (inner : Inner) (m m' : Machine) : Prop where
  entries : ∀ entry stored, m.state.Holds entry →
    decodeEntry inner entry (m.disk.read entry.path) = .ok stored →
    m'.state.Holds entry ∧ m'.disk.read entry.path = m.disk.read entry.path
  gaps : ∀ noticeId gap, m.state.gaps.get? noticeId = some gap →
    m'.state.gaps.get? noticeId = some gap ∧ m'.disk.read gap.path = m.disk.read gap.path

/-- A v1 acknowledgement is accepted only for the v1 batch there is now or as the repetition of an
earlier one, and refused without effect for the given v2 batch and for every v2 receipt. -/
structure HubAckV1.KeepsApart (ack : HubAckV1) (inner : Inner) (m : Machine)
    (records : List HubBatchRecordV2) (gaps : List GapNoticeV2) : Prop where
  accepts : ∀ result m', (acknowledge inner ack).run m = .ok result m' →
    (∃ batch m₁, (buildBatch inner).run m = .ok batch m₁ ∧ batch.batchId = ack.batchId) ∨
      ∃ prior, m.state.receipts.get? ack.batchId = some prior ∧ prior.receipt.version = 1 ∧
        ∀ recordId, recordId ∈ prior.receipt.acceptedRecordIds ↔ recordId ∈ ack.acceptedRecordIds
  refuses : (ack.batchId = batchIdV2 inner.host records gaps ∨
      ∃ prior, m.state.receipts.get? ack.batchId = some prior ∧ prior.receipt.version = 2) →
    ∃ error m', (acknowledge inner ack).run m = .error error m' ∧ RemovesNothing inner m m'

/-- Something the receipt accepts is still there: an occurrence or a counted entry that reads back,
or a gap. -/
inductive Outstanding (inner : Inner) (m : Machine) (receipt : AckReceipt) : Prop where
  | record {entry : Entry} {stored : StoredRecord F64} (held : m.state.Holds entry)
      (reads : decodeEntry inner entry (m.disk.read entry.path) = .ok stored)
      (accepted : entry.admission ∈ receipt.acceptedAdmissions)
  | gap {noticeId : RecordId} {gap : GapEntry} (held : m.state.gaps.get? noticeId = some gap)
      (accepted : noticeId ∈ receipt.acceptedGapNoticeIds)
  | backing {entry : Entry} {stored : StoredRecord F64} (held : m.state.Holds entry)
      (reads : decodeEntry inner entry (m.disk.read entry.path) = .ok stored)
      (counted : m.state.countedPendingExpirations.contains entry.spoolSeq = true)
      (accepted : entry.retentionNoticeId inner.host ∈ receipt.acceptedGapNoticeIds)

/-! ### Removing nothing -/

/-- What is left alone loses nothing. -/
theorem RemovesNothing.refl (m : Machine) : RemovesNothing inner m m :=
  ⟨fun _ _ held _ => ⟨held, rfl⟩, fun _ _ found => ⟨found, rfl⟩⟩

/-- The files of gaps that are still held are the same. -/
theorem Sound.gap_file (sound : Sound inner.key inner.host offered since m)
    (sound' : Sound inner.key inner.host offered since m') {noticeId : RecordId} {gap : GapEntry}
    (before : m.state.gaps.get? noticeId = some gap)
    (after : m'.state.gaps.get? noticeId = some gap) :
    m'.disk.read gap.path = m.disk.read gap.path := by
  rw [sound.backed.gap _ _ before, sound'.backed.gap _ _ after]

/-- Building a batch removes nothing. -/
theorem Scans.removesNothing (scans : Scans inner m m')
    (sound : Sound inner.key inner.host offered since m)
    (sound' : Sound inner.key inner.host offered since m') : RemovesNothing inner m m' := by
  refine ⟨fun entry stored held reads => ?_, fun noticeId gap found => ?_⟩
  · exact (scans.intact entry held).resolve_right fun damaged => damaged stored reads
  · have after := scans.gaps noticeId gap found
    exact ⟨after, sound.gap_file sound' found after⟩

/-- Completing a receipt removes nothing if nothing it accepts is there any more. -/
theorem removesNothing_of_takes {receipt : AckReceipt} (ready : Ready inner.key m)
    (sound : Sound inner.key inner.host offered since m)
    (sound' : Sound inner.key inner.host offered since m') (chain : Chain inner noOffers m m')
    (takes : Takes inner.host receipt.acceptedAdmissions receipt.acceptedGapNoticeIds m.state
      m'.state)
    (settled : ¬ Outstanding inner m receipt) : RemovesNothing inner m m' := by
  refine ⟨fun entry stored held reads => ?_, fun noticeId gap found => ?_⟩
  · rcases takes.entries ready.keyed entry held with kept | accepted | ⟨counted, accepted⟩
    · exact ⟨kept, chain.keeps_file ready.pathed reads kept⟩
    · exact absurd (.record held reads accepted) settled
    · exact absurd (.backing held reads counted accepted) settled
  · rcases takes.gaps noticeId gap found with kept | accepted
    · exact ⟨kept, sound.gap_file sound' found kept⟩
    · exact absurd (.gap found accepted) settled

/-- Completing a receipt takes away what it accepts and is still there. -/
theorem Outstanding.not_removesNothing {receipt : AckReceipt}
    (sound : Sound inner.key inner.host offered since m) (ready : Ready inner.key m)
    (distinct : DistinctNotices inner.host offered) (fit : m.state.CountsFit)
    (receipted : Receipted inner.key m.timeline receipt) (outstanding : Outstanding inner m receipt)
    (completed : m'.state = m.state.complete inner.host receipt) : ¬ RemovesNothing inner m m' := by
  intro kept
  obtain ⟨-, -, done⟩ := (Taken.refl m.state).complete
    (sound.completable_held ready distinct fit receipted) (fun _ inside => .inl inside)
    fun _ inside => inside
  rw [← completed] at done
  cases outstanding with
  | record held reads accepted =>
      exact (done.admissions _ accepted).entry _ (kept.entries _ _ held reads).1 rfl
  | gap held accepted =>
      have gone := (done.notices _ accepted).gap
      rw [(kept.gaps _ _ held).1] at gone
      cases gone
  | @backing entry stored held reads counted accepted =>
      cases stands : m.state.gaps.get? (entry.retentionNoticeId inner.host) with
      | none =>
          have uncounted := (done.notices _ accepted).backing entry
            (kept.entries _ _ held reads).1 rfl stands
          exact absurd (uncounted.symm.trans counted) Bool.false_ne_true
      | some gap =>
          have gone := (done.notices _ accepted).gap
          rw [(kept.gaps _ _ stands).1] at gone
          cases gone

/-! ### Completion behind the write latch -/

/-- Behind the latch a completion never returns. -/
theorem post_completeReceipt_latched {receipt : AckReceipt} (ready : Ready inner.key m)
    (receipted : Receipted inner.key m.timeline receipt) (latched : m.storageWriteFailed = true) :
    Post (completeReceipt inner receipt) m (fun _ _ => False) (fun _ _ => True) := by
  simp only [completeReceipt]
  refine ((@post_completeAdmissions inner noOffers m receipt _ false receipted
    fun _ inside => inside).mono (fun _ _ kept => kept) fun _ _ _ => trivial).bind ?_
  rintro removed m₁ ⟨first, -, -⟩
  refine ((@post_completeNotices inner noOffers m₁ receipt _ _ (first.keyed ready.keyed)
    (first.numbered ready.numbered) (receipted.mono first.timeline) fun _ inside => inside).mono
    (fun _ _ kept => kept) fun _ _ _ => trivial).bind ?_
  rintro flags m₂ ⟨second, -⟩
  have latched₂ := second.keeps_latch (first.keeps_latch latched)
  have sync : ∀ m₃ : Machine, m₃.storageWriteFailed = true →
      Post syncDirectory m₃ (fun _ m' => m'.storageWriteFailed = true) (fun _ _ => True) :=
    fun m₃ latched₃ => post_syncDirectory (fun _ _ => latched₃) fun _ _ _ _ => trivial
  have finish : ∀ m₃ : Machine, m₃.storageWriteFailed = true →
      Post (do syncDirectory; persistCurrentSequenceState inner) m₃ (fun _ _ => False)
        (fun _ _ => True) := by
    intro m₃ latched₃
    refine (sync m₃ latched₃).bind fun _ m₄ latched₄ => ?_
    exact (post_persistCurrentSequenceState_latched latched₄).mono (fun _ _ none => none)
      fun _ _ _ => trivial
  rw [post_ite]
  exact ⟨fun _ => (sync m₂ latched₂).bind fun _ m₃ => finish m₃, fun _ => finish m₂ latched₂⟩

/-- While no file operation fails, a completion behind the latch is carried through up to the write
of the sequence file. -/
theorem post_completeReceipt_calm {receipt : AckReceipt} (calm : m.Calm true) :
    Post (completeReceipt inner receipt) m (fun _ _ => False)
      (fun _ m' => m'.state = m.state.complete inner.host receipt) := by
  simp only [completeReceipt]
  refine (((calms_completeAdmissions _ _ true m calm).and post_completeAdmissions_state).mono
    (fun _ _ facts => facts) fun _ _ failed => failed.1.1.elim).bind ?_
  rintro removed m₁ ⟨calm₁, admissions⟩
  refine (((calms_completeNotices _ _ true m₁ calm₁).and post_completeNotices_state).mono
    (fun _ _ facts => facts) fun _ _ failed => failed.1.1.elim).bind ?_
  rintro flags m₂ ⟨calm₂, notices⟩
  have done : m₂.state = m.state.complete inner.host receipt := by
    rw [notices, admissions]
    rfl
  have sync : ∀ {m₃ : Machine}, m₃.Calm true → m₃.state = m₂.state →
      Post syncDirectory m₃ (fun _ m' => m'.Calm true ∧ m'.state = m₂.state)
        (fun _ _ => False) := by
    intro m₃ calm₃ same
    refine ((calms_syncDirectory true m₃ calm₃).and post_syncDirectory_state).mono ?_
      fun _ _ failed => failed.1.1
    exact fun _ _ facts => ⟨facts.1, facts.2.trans same⟩
  have finish : ∀ {m₃ : Machine}, m₃.Calm true → m₃.state = m₂.state →
      Post (do syncDirectory; persistCurrentSequenceState inner) m₃ (fun _ _ => False)
        (fun _ m' => m'.state = m.state.complete inner.host receipt) := by
    intro m₃ calm₃ same
    refine ((sync calm₃ same).mono (fun _ _ facts => facts) fun _ _ none => none.elim).bind ?_
    rintro _ m₄ ⟨calm₄, same'⟩
    refine (post_persistCurrentSequenceState_latched calm₄.latched).mono (fun _ _ none => none) ?_
    rintro error m₅ ⟨-, rfl⟩
    exact same'.trans done
  rw [post_ite]
  refine ⟨fun _ => ?_, fun _ => finish calm₂ rfl⟩
  refine ((sync calm₂ rfl).mono (fun _ _ facts => facts) fun _ _ none => none.elim).bind ?_
  exact fun _ _ facts => finish facts.1 facts.2

/-! ### Acknowledging -/

/-- The same identities are the same sets. -/
theorem mem_iff_of_sameRecordIds {left right : List RecordId}
    (same : sameRecordIds left right = true) (recordId : RecordId) :
    recordId ∈ left ↔ recordId ∈ right := by
  simp only [sameRecordIds, Bool.and_eq_true, List.all_eq_true, List.contains_iff_mem] at same
  exact ⟨same.1.2 recordId, same.2 recordId⟩

/-- The empty acknowledgement names a retained v2 receipt, and its completion can be made durable or
finds something to remove. -/
structure HubAckV1.CompletesV2 (ack : HubAckV1) (inner : Inner) (m : Machine)
    (prior : ReceiptEntry) : Prop where
  version : ack.version = 1
  empty : ack.acceptedRecordIds = []
  found : m.state.receipts.get? ack.batchId = some prior
  v2 : prior.receipt.version = 2
  effective : m.storageWriteFailed = false ∨ Outstanding inner m prior.receipt

/-- The acknowledgement names the given v2 batch or a retained v2 receipt. -/
def HubAckV1.NamesV2 (ack : HubAckV1) (inner : Inner) (m : Machine)
    (records : List HubBatchRecordV2) (gaps : List GapNoticeV2) : Prop :=
  ack.batchId = batchIdV2 inner.host records gaps ∨
    ∃ prior, m.state.receipts.get? ack.batchId = some prior ∧ prior.receipt.version = 2

/-- An empty acknowledgement of a retained v2 receipt goes straight to its completion. -/
theorem HubAckV1.CompletesV2.post {ack : HubAckV1} {prior : ReceiptEntry}
    {onOk : HubAckResultV1 → Machine → Prop} {onError : SpoolError → Machine → Prop}
    (completes : ack.CompletesV2 inner m prior) (ready : Ready inner.key m)
    (sound : Sound inner.key inner.host offered since m)
    (rest : Post (completeReceipt inner prior.receipt) m
      (fun _ m' => onOk (ackResult prior.receipt) m') onError) :
    Post (acknowledge inner ack).run m onOk onError := by
  have drawn := sound.lawful.drawn _ (ready.receipts.durable _ _ completes.found)
  obtain ⟨listed, notices, named, -⟩ := drawn.v2 completes.v2
  have digest : validDigest ack.batchId = true := by
    rw [← ready.receipts.batchId _ _ completes.found, named]
    exact validDigest_hexEncode (inner.host.sha256 _).property
  have same : sameRecordIds prior.receipt.acceptedRecordIds ack.acceptedRecordIds = true := by
    rw [drawn.bare completes.v2, completes.empty]
    rfl
  unfold acknowledge
  rw [if_neg (by simp [completes.version, completes.empty, digest])]
  simp only [Call.run_bind, Call.run_atomic, post_bind, post_state, post_pure, completes.found, same,
    not_true_eq_false, if_false, Call.run_pure]
  exact rest

/-- Anything else keeps the protocols apart. -/
theorem post_acknowledge_apart {ack : HubAckV1} (ready : Ready inner.key m)
    (sound : Sound inner.key inner.host offered since m)
    (distinct : DistinctNotices inner.host offered)
    (collisionFree : (insert (batchTextV2 records gaps)
      (batchTexts inner.host offered)).InjOn inner.host.sha256)
    (separate : ∀ prior, ¬ ack.CompletesV2 inner m prior) :
    Post (acknowledge inner ack).run m
      (fun _ _ => ¬ ack.NamesV2 inner m records gaps ∧
        ((∃ batch m₁, (buildBatch inner).run m = .ok batch m₁ ∧ batch.batchId = ack.batchId) ∨
          ∃ prior, m.state.receipts.get? ack.batchId = some prior ∧ prior.receipt.version = 1 ∧
            ∀ recordId, recordId ∈ prior.receipt.acceptedRecordIds ↔
              recordId ∈ ack.acceptedRecordIds))
      (fun _ m' => ack.NamesV2 inner m records gaps → RemovesNothing inner m m') := by
  unfold acknowledge
  split
  · exact fun _ => .refl m
  · rename_i wellFormed
    simp only [not_or, not_not] at wellFormed
    simp only [Call.run_bind, Call.run_atomic, post_bind, post_state, post_pure]
    cases found : m.state.receipts.get? ack.batchId with
    | some prior =>
        simp only
        split
        · exact fun _ => .refl m
        · rename_i same
          rw [not_not] at same
          have receipted := ready.receipts.durable _ _ found
          have drawn := sound.lawful.drawn _ receipted
          simp only [Call.run_bind, Call.run_atomic, Call.run_pure, post_bind, post_pure]
          rcases drawn.protocol with v1 | v2
          · have other : ¬ ack.NamesV2 inner m records gaps := by
              rintro (named | ⟨retained, found', version⟩)
              · obtain ⟨listed, digest, single, known⟩ := drawn.v1 v1
                rw [← ready.receipts.batchId _ _ found, digest] at named
                exact sound.batchId_ne collisionFree single known named
              · rw [found] at found'
                obtain rfl := Option.some.inj found'
                rw [v1] at version
                cases version
            exact Post.trivial.mono
              (fun _ _ _ => ⟨other, .inr ⟨prior, rfl, v1, mem_iff_of_sameRecordIds same⟩⟩)
              fun _ _ _ named => absurd named other
          · -- the lists agree, so the acknowledged one is empty
            have empty : ack.acceptedRecordIds = [] := by
              rw [drawn.bare v2] at same
              exact List.eq_nil_iff_forall_not_mem.mpr fun recordId inside =>
                absurd ((mem_iff_of_sameRecordIds same recordId).mpr inside) List.not_mem_nil
            have closed : ¬ (m.storageWriteFailed = false ∨ Outstanding inner m prior.receipt) :=
              fun effective => separate prior ⟨wellFormed.1, empty, found, v2, effective⟩
            obtain ⟨latched, settled⟩ := not_or.mp closed
            rw [Bool.not_eq_false] at latched
            refine (((@post_completeReceipt inner noOffers m prior.receipt ready.keyed ready.numbered
              receipted).and (post_completeReceipt_latched ready receipted latched)).and
              (takesOnly_completeReceipt prior.receipt m ⟨ready.keyed, .refl m.state⟩)).mono
              (fun _ _ facts => facts.1.2.elim) ?_
            rintro error m' ⟨⟨chain, -⟩, -, -, takes⟩ -
            exact removesNothing_of_takes ready sound (chain.offering.sound distinct sound) chain
              takes settled
    | none =>
        simp only [Call.run_bind, Call.run_atomic, post_bind, post_state, post_ite, post_throw,
          post_pure]
        refine ⟨fun _ _ => .refl m, fun _ => ?_⟩
        have ran : Post (buildBatch inner).run m
            (fun batch m' => (buildBatch inner).run m = .ok batch m') (fun _ _ => True) :=
          post_iff_exits.mpr ⟨fun _ _ ran => ran, fun _ _ _ => trivial⟩
        refine ((((@post_buildBatch inner noOffers m ready.keyed ready.pathed).and
          (post_buildBatch_scans ready.keyed ready.pathed)).and
          (post_buildBatch_listed ready.keyed ready.pathed)).and ran).mono ?_ ?_
        · rintro delivered m₁ ⟨⟨⟨⟨chain, -⟩, scans⟩, digest, single, listed⟩, ran⟩
          have sound₁ := chain.offering.sound distinct sound
          split
          · exact fun _ => scans.removesNothing sound sound₁
          · rename_i matching
            simp only [not_or, not_not] at matching
            have other : ¬ ack.NamesV2 inner m records gaps := by
              rintro (named | ⟨retained, found', -⟩)
              · rw [← matching.1, digest] at named
                exact sound₁.batchId_ne collisionFree single
                  (fun record inside => sound₁.backed.admittedAs (listed record inside)) named
              · rw [found] at found'
                cases found'
            exact Post.trivial.mono (fun _ _ _ => ⟨other, .inl ⟨delivered, m₁, ran, matching.1⟩⟩)
              fun _ _ _ named => absurd named other
        · rintro error m₁ ⟨⟨⟨chain, scans⟩, -⟩, -⟩ -
          exact scans.removesNothing sound (chain.offering.sound distinct sound)

end

/-! ### Runs -/

section

variable {key : EncryptionKey} {host : Host} {w : World}

theorem Outstanding.of_faults {inner : Inner} {process : Process} {faults faults' : Faults}
    {receipt : AckReceipt} (outstanding : Outstanding inner (w.machine process faults) receipt) :
    Outstanding inner (w.machine process faults') receipt := by
  cases outstanding with
  | record held reads accepted => exact .record held reads accepted
  | gap held accepted => exact .gap held accepted
  | backing held reads counted accepted => exact .backing held reads counted accepted

/-- The v1 acknowledgement keeps to its protocol unless it is empty and names a retained v2
receipt whose completion has an effect. -/
theorem protocols_separate_iff {process : Process} (reach : Reach (UnderKey key host) w)
    (distinct : DistinctNotices host w.Offered) (running : w.process = some process)
    (ack : HubAckV1) (records : List HubBatchRecordV2) (gaps : List GapNoticeV2)
    (collisionFree : (insert (batchTextV2 records gaps)
      (batchTexts host w.Offered)).InjOn host.sha256) :
    (∀ faults, ack.KeepsApart process.inner (w.machine process faults) records gaps) ↔
      ∀ prior, ¬ ack.CompletesV2 process.inner (w.machine process .none) prior := by
  have kept := reach.kept distinct
  obtain ⟨rfl, rfl, backing⟩ := kept.running process running
  constructor
  · intro apart prior completes
    obtain ⟨sound, ready⟩ := backing .none
    have receipted := ready.receipts.durable _ _ completes.found
    obtain ⟨error, m', ran, kept⟩ := (apart .none).refuses (.inr ⟨prior, completes.found, completes.v2⟩)
    cases latch : process.storageWriteFailed with
    | false =>
        have returns : Post (acknowledge process.inner ack).run (w.machine process .none)
            (fun _ _ => True) (fun _ _ => False) :=
          completes.post ready sound ((succeeds_completeReceipt prior.receipt _ ⟨rfl, latch⟩).mono
            (fun _ _ _ => trivial) fun _ _ failed => failed.1)
        exact returns.of_error ran
    | true =>
        have stops : Post (acknowledge process.inner ack).run (w.machine process .none)
            (fun _ _ => False)
            (fun _ m' => m'.state = process.state.complete process.inner.host prior.receipt) :=
          completes.post ready sound (post_completeReceipt_calm ⟨rfl, latch⟩)
        have completed := stops.of_error ran
        have outstanding := completes.effective.resolve_left (by
          change process.storageWriteFailed ≠ false
          rw [latch]
          simp)
        exact outstanding.not_removesNothing sound ready distinct
          (reach.countsFit distinct process running) receipted completed kept
  · intro separate faults
    obtain ⟨sound, ready⟩ := backing faults
    have post := post_acknowledge_apart ready sound distinct collisionFree fun prior completes =>
      separate prior ⟨completes.version, completes.empty, completes.found, completes.v2,
        completes.effective.imp id Outstanding.of_faults⟩
    refine ⟨fun result m' ran => (post.of_ok ran).2, fun named => ?_⟩
    cases ran : (acknowledge process.inner ack).run (w.machine process faults) with
    | ok result m' => exact absurd named (post.of_ok ran).1
    | error error m' => exact ⟨error, m', rfl, post.of_error ran named⟩

end

/-! ### A batch acknowledged by the v2 protocol -/

/-- One record is admitted, delivered and acknowledged by the v2 protocol. -/
def acknowledgedV2 : List Player :=
  [always (.openSpool (sampleInner 4) (sampleTime 0) .none),
    always (.call (.enqueue (sampleEnvelope "a") (sampleTime 1)) .none),
    always (.call (.nextBatchV2 2 (sampleTime 2)) .none),
    acknowledgeAll]

theorem acknowledgedV2_untouched :
    ∀ player ∈ acknowledgedV2, ∀ w move, player w = some move →
      Untouched sampleKey (referenceHost integerCodec) w move := by
  intro player inside w move chosen
  simp only [acknowledgedV2, List.mem_cons, List.not_mem_nil, or_false] at inside
  rcases inside with rfl | rfl | rfl | rfl
  · obtain rfl := Option.some.inj chosen
    exact ⟨rfl, rfl⟩
  · obtain rfl := Option.some.inj chosen
    trivial
  · obtain rfl := Option.some.inj chosen
    trivial
  · obtain ⟨batch, -, rfl⟩ := Option.map_eq_some_iff.mp chosen
    trivial

/-- When one record is offered there are two texts of v1 batches. -/
theorem batchTexts_subset {host : Host} {offered : Nat → Envelope → Prop} {recordId : RecordId}
    (only : ∀ s envelope, offered s envelope → envelope.recordId host = recordId) :
    batchTexts host offered ⊆ {batchText [], batchText [recordId]} := by
  rintro text ⟨ids, single, known, rfl⟩
  have same : ∀ other ∈ ids, other = recordId := by
    intro other inside
    obtain ⟨s, envelope, offer, named⟩ := known other inside
    exact named.symm.trans (only s envelope offer)
  cases ids with
  | nil => exact .inl rfl
  | cons first rest =>
      cases rest with
      | nil =>
          rw [same first List.mem_cons_self]
          exact .inr rfl
      | cons second rest =>
          have equal := (same first List.mem_cons_self).trans
            (same second (List.mem_cons_of_mem _ List.mem_cons_self)).symm
          rw [equal] at single
          exact absurd List.mem_cons_self (List.nodup_cons.mp single).1

/-- The batch was delivered, its receipt is retained, and the texts have digests of their own. -/
theorem acknowledgedV2_plays :
    ((World.fresh.follow (acknowledgedV2.take 3)).any fun w => w.lastBatch.any fun batch =>
      (w.follow [acknowledgeAll]).any fun w' =>
        decide w'.OffersOnce &&
        ((w'.offers.all fun offer => decide (offer.2.recordId (referenceHost integerCodec) =
            (sampleEnvelope "a").recordId (referenceHost integerCodec))) &&
          (w'.process.any fun process => (process.state.receipts.get? batch.batchId).any fun prior =>
              decide (prior.receipt.version = 2)) &&
          decide (batch.records.length = 1 ∧
            ([batchTextV2 batch.records batch.gaps, batchText [],
              batchText [(sampleEnvelope "a").recordId (referenceHost integerCodec)]].map
                (referenceHost integerCodec).sha256).Nodup))) = true := by
  decide +kernel

/-- The v1 acknowledgement of the records of a v2 batch. -/
def HubBatchV2.ackV1 (batch : HubBatchV2) : HubAckV1 :=
  { version := 1, batchId := batch.batchId, acceptedRecordIds := batch.records.map (·.recordId) }

theorem protocols_separate_iff_acknowledgedV2 :
    ∃ (w : World) (process : Process) (batch : HubBatchV2) (prior : ReceiptEntry),
      w.process = some process ∧ batch.records.length = 1 ∧
      process.state.receipts.get? batch.batchId = some prior ∧ prior.receipt.version = 2 ∧
      ∀ faults, batch.ackV1.KeepsApart process.inner (w.machine process faults) batch.records
        batch.gaps := by
  obtain ⟨before, followed, shows⟩ := (Option.any_eq_true _ _).mp acknowledgedV2_plays
  obtain ⟨batch, -, shows⟩ := (Option.any_eq_true _ _).mp shows
  obtain ⟨w, acknowledged, shows⟩ := (Option.any_eq_true _ _).mp shows
  simp only [Bool.and_eq_true, decide_eq_true_eq] at shows
  obtain ⟨once, ⟨same, retained⟩, single, apart⟩ := shows
  obtain ⟨process, running, retained⟩ := (Option.any_eq_true _ _).mp retained
  obtain ⟨prior, found, v2⟩ := (Option.any_eq_true _ _).mp retained
  have reach : Reach (UnderKey sampleKey (referenceHost integerCodec)) w := by
    refine (World.reach_of_follow (World.reach_of_follow .start (fun player inside =>
      acknowledgedV2_untouched player (List.take_subset _ _ inside)) followed)
      (fun player inside => acknowledgedV2_untouched player ?_) acknowledged).mono
        fun _ _ untouched => untouched.underKey
    rw [List.mem_singleton.mp inside]
    exact List.mem_of_getLast? rfl
  have only : ∀ s envelope, w.Offered s envelope → envelope.recordId (referenceHost integerCodec) =
      (sampleEnvelope "a").recordId (referenceHost integerCodec) := fun s envelope offer =>
    of_decide_eq_true (List.all_eq_true.mp same (s, envelope) (World.mem_offers offer))
  have collisionFree : (insert (batchTextV2 batch.records batch.gaps)
      (batchTexts (referenceHost integerCodec) w.Offered)).InjOn
        (referenceHost integerCodec).sha256 := by
    refine (injOn_of_distinct apart).mono ?_
    apply Set.insert_subset_insert
    refine (batchTexts_subset only).trans ?_
    simp
  refine ⟨w, process, batch, prior, running, single, found, of_decide_eq_true v2, ?_⟩
  refine (protocols_separate_iff reach (once.distinctNotices _) running batch.ackV1 batch.records
    batch.gaps collisionFree).mpr fun other completes => ?_
  have some := congrArg List.length completes.empty
  rw [HubBatchV2.ackV1, List.length_map, single] at some
  cases some

/-! ### The empty acknowledgement of a v2 receipt -/

/-- The v1 acknowledgement of no record of the batch. -/
def emptyAck (batchId : Str) : HubAckV1 := { version := 1, batchId := batchId, acceptedRecordIds := [] }

/-- An empty acknowledgement of the first protocol is accepted under a receipt of the second. -/
theorem acknowledgedV2_accepts :
    ((World.fresh.follow acknowledgedV2).any fun w => w.process.any fun process =>
      process.state.receipts.values.any fun prior =>
        decide (prior.receipt.version = 2) &&
        decide (process.state.receipts.get? prior.receipt.batchId = some prior) &&
        match (acknowledge process.inner (emptyAck prior.receipt.batchId)).run
          (w.machine process .none) with
        | .ok _ _ => true
        | .error _ _ => false) = true := by
  decide +kernel

/-- A v1 acknowledgement that names a v2 receipt is accepted. -/
theorem acknowledge_accepts_acknowledgedV2 :
    ∃ (w : World) (process : Process) (ack : HubAckV1),
      Reach (Untouched sampleKey (referenceHost integerCodec)) w ∧ w.process = some process ∧
      ∀ records gaps, ¬ ack.KeepsApart process.inner (w.machine process .none) records gaps := by
  obtain ⟨w, followed, shows⟩ := (Option.any_eq_true _ _).mp acknowledgedV2_accepts
  obtain ⟨process, running, shows⟩ := (Option.any_eq_true _ _).mp shows
  simp only [List.any_eq_true, Bool.and_eq_true, decide_eq_true_eq] at shows
  obtain ⟨prior, -, ⟨v2, found⟩, accepted⟩ := shows
  refine ⟨w, process, emptyAck prior.receipt.batchId,
    World.reach_of_follow .start acknowledgedV2_untouched followed, running,
    fun records gaps apart => ?_⟩
  obtain ⟨error, m', ran, -⟩ := apart.refuses (.inr ⟨prior, found, v2⟩)
  rw [ran] at accepted
  cases accepted

end TeslatlasEdge
