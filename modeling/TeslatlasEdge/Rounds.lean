/-
Module: TeslatlasEdge.Rounds
Purpose: What the Hub may expect of a batch it has been delivered.  Every front of it can be
  acknowledged, and the next pull begins behind the front, unless a receipt stands under the identity
  of the batch already; an acknowledgement of no item leaves such a receipt.
Trusted boundary: none
Main exports: HubAckV2.parse_toJson, Acknowledgeable, State.OpenTo, FitsBehind, Sound.pullable,
  Pullable.acknowledgeable, batch_acknowledgeable_iff, empty_acknowledgement_blocks_batch
-/
import TeslatlasEdge.Telemetry

namespace TeslatlasEdge

open Lib
open Section

/-! ### Acknowledgements on the wire -/

section Wire

variable {codec : FloatCodec}

/-- Identities are admitted as they stand. -/
theorem uniqueItems_recordIds (codec : FloatCodec) (ids : List RecordId) :
    uniqueItems codec (ids.map RecordId.toJson) = .ok (ids.map RecordId.toJson) := by
  induction ids with
  | nil => rfl
  | cons id rest ih =>
      simp only [List.map_cons, RecordId.toJson, uniqueItems, uniqueValue] at ih ⊢
      rw [ih]
      rfl

/-- Identities are read back from their texts. -/
theorem asList_recordIds (ids : List RecordId) :
    Json.asList RecordId.fromJson (Json.arr (ids.map RecordId.toJson) : Value) = some ids := by
  rw [Json.asList]
  induction ids with
  | nil => rfl
  | cons id rest ih =>
      have here : RecordId.fromJson (id.toJson : Value) = some id := RecordId.parse_text id
      rw [List.map_cons, List.mapM_cons, here, ih]
      rfl

/-- An acknowledgement is what its four members say. -/
theorem HubAckV2.fromValue_of_fields {ack : HubAckV2} {fields : List (Str × Value)} {value : Value}
    (known : Json.structFields (["version", "batch_id", "accepted_record_ids",
      "accepted_gap_notice_ids"].map String.toList) value = some fields)
    (version : (Json.field "version".toList fields).bind Json.asU16 = some ack.version)
    (batchId : (Json.field "batch_id".toList fields).bind Json.asStr = some ack.batchId)
    (records : (Json.field "accepted_record_ids".toList fields).bind
      (Json.asList RecordId.fromJson) = some ack.acceptedRecordIds)
    (gaps : (Json.field "accepted_gap_notice_ids".toList fields).bind
      (Json.asList RecordId.fromJson) = some ack.acceptedGapNoticeIds) :
    HubAckV2.fromValue value = some ack := by
  rw [HubAckV2.fromValue, known]
  simp only [Option.bind_eq_bind, Option.bind_some, version, batchId, records, gaps]
  rfl

/-- The members of an acknowledgement, in key order. -/
def HubAckV2.members (ack : HubAckV2) : List (Str × Value) :=
  [("accepted_gap_notice_ids".toList, .arr (ack.acceptedGapNoticeIds.map RecordId.toJson)),
    ("accepted_record_ids".toList, .arr (ack.acceptedRecordIds.map RecordId.toJson)),
    ("batch_id".toList, .str ack.batchId), ("version".toList, .int ack.version)]

theorem HubAckV2.uniqueValue_toJson (ack : HubAckV2) :
    uniqueValue codec ack.toJson = .ok (.obj ack.members) := by
  simp only [HubAckV2.toJson, uniqueValue, uniqueFields, uniqueItems_recordIds]
  rfl

/-- The members are those an acknowledgement may have. -/
theorem HubAckV2.structFields_members (ack : HubAckV2) :
    Json.structFields (["version", "batch_id", "accepted_record_ids",
      "accepted_gap_notice_ids"].map String.toList) (.obj ack.members) = some ack.members := rfl

/-- An acknowledgement is read back from its own members. -/
theorem HubAckV2.fromValue_members {ack : HubAckV2} (version : ack.version = 2) :
    HubAckV2.fromValue (.obj ack.members) = some ack := by
  have first : Json.field "version".toList ack.members = some (.int ack.version) := rfl
  have second : Json.field "batch_id".toList ack.members = some (.str ack.batchId) := rfl
  have third : Json.field "accepted_record_ids".toList ack.members =
      some (.arr (ack.acceptedRecordIds.map RecordId.toJson)) := rfl
  have fourth : Json.field "accepted_gap_notice_ids".toList ack.members =
      some (.arr (ack.acceptedGapNoticeIds.map RecordId.toJson)) := rfl
  have number : Json.asU16 (Json.int ack.version : Value) = some ack.version := by
    rw [Json.asU16, if_pos ⟨by omega, by omega⟩, Int.toNat_natCast]
  refine fromValue_of_fields ack.structFields_members ?_ ?_ ?_ ?_
  · rw [first, Option.bind_some, number]
  · rw [second]
    rfl
  · rw [third, Option.bind_some, asList_recordIds]
  · rw [fourth, Option.bind_some, asList_recordIds]

/-- The text of an acknowledgement of at most 256 identities of each kind fits in a request. -/
theorem HubAckV2.size_toJson_le {ack : HubAckV2} (version : ack.version = 2)
    (digest : validDigest ack.batchId = true) (records : ack.acceptedRecordIds.length ≤ 256)
    (gaps : ack.acceptedGapNoticeIds.length ≤ 256) :
    (ack.toJson : JsonText).size ≤ maxHubAckBodyBytes := by
  have listed := size_recordIds_le ack.acceptedRecordIds
  have noticed := size_recordIds_le ack.acceptedGapNoticeIds
  have keys : Json.strSize "version".toList = 9 ∧ Json.strSize "batch_id".toList = 10 ∧
      Json.strSize "accepted_record_ids".toList = 21 ∧
      Json.strSize "accepted_gap_notice_ids".toList = 25 := by decide
  have two : Json.intSize (2 : Nat) = 1 := by decide
  have digestSize := strSize_digest digest
  simp only [HubAckV2.toJson, Json.size, Json.fieldsSize, version, maxHubAckBodyBytes]
    at listed noticed ⊢
  omega

/-- What is read from a small text is the acknowledgement it was parsed to, once its checks pass. -/
theorem HubAckV2.parse_of_read {ack : HubAckV2} {input : JsonText} {value : Value}
    (small : input.size ≤ maxHubAckBodyBytes) (unique : uniqueValue codec input = .ok value)
    (read : HubAckV2.fromValue value = some ack) (wellFormed : ack.wellFormed = true)
    (records : ack.acceptedRecordIds.length ≤ 256) (gaps : ack.acceptedGapNoticeIds.length ≤ 256) :
    HubAckV2.parse codec input = .ok ack := by
  simp only [HubAckV2.wellFormed, Bool.and_eq_true, decide_eq_true_eq] at wellFormed
  obtain ⟨⟨⟨version, digest⟩, recordIds⟩, noticeIds⟩ := wellFormed
  rw [HubAckV2.parse, if_neg (not_lt.mpr small), unique]
  simp only [bind, Except.bind, pure, Except.pure, read]
  rw [if_neg]
  simp [version, digest, records, gaps, recordIds, noticeIds]

/-- A well-formed acknowledgement of at most 256 identities of each kind is parsed from its own text. -/
theorem HubAckV2.parse_toJson {ack : HubAckV2} (wellFormed : ack.wellFormed = true)
    (records : ack.acceptedRecordIds.length ≤ 256) (gaps : ack.acceptedGapNoticeIds.length ≤ 256) :
    HubAckV2.parse codec ack.toJson = .ok ack := by
  have passes := wellFormed
  simp only [HubAckV2.wellFormed, Bool.and_eq_true, decide_eq_true_eq] at passes
  obtain ⟨⟨⟨version, digest⟩, -⟩, -⟩ := passes
  exact HubAckV2.parse_of_read (HubAckV2.size_toJson_le version digest records gaps)
    ack.uniqueValue_toJson (HubAckV2.fromValue_members version) wellFormed records gaps

end Wire

variable {inner : Inner} {m m' : Machine} {nowMs : I64} {batch : HubBatchV2}

/-! ### What the Hub may expect -/

/-- Every front of the batch can be acknowledged: the text of its acknowledgement is parsed, the answer
lists just what it names, and the next pull begins behind the front. -/
def Acknowledgeable (inner : Inner) (restarts : Nat) (nowMs : I64) (m : Machine)
    (batch : HubBatchV2) (queue : List BatchItemV2) : Prop :=
  ∀ k ≤ batch.records.length + batch.gaps.length,
    HubAckV2.parse inner.host.codec (batch.ackFront k).toJson = .ok (batch.ackFront k) ∧
    ∃ m₁ m₂ next items,
      (acknowledgeV2 inner restarts (batch.ackFront k)).run m = .ok (batch.ackFront k).result m₁ ∧
      (nextBatchV2 inner restarts nowMs).run m₁ = .ok next m₂ ∧
      DeliversPrefix inner (m₁.state.Due nowMs) m₂ next (queue.drop k) items ∧
      (queue.drop k ≠ [] → items ≠ [])

/-- What is retained leaves the batch open: there is no receipt under its identity, and one more can be
given out; or the batch is empty, and the receipt is that of an acknowledgement of nothing. -/
def State.OpenTo (state : State) (batch : HubBatchV2) : Prop :=
  match state.receipts.get? batch.batchId with
  | none => state.nextReceiptSequence < u64Max
  | some prior =>
      batch.records = [] ∧ batch.gaps = [] ∧ prior.receipt.version = 2 ∧
        prior.receipt.acceptedStableRecordIds = [] ∧ prior.receipt.acceptedGapNoticeIds = []

/-- The item behind the batch can be delivered. -/
def FitsBehind (inner : Inner) (batch : HubBatchV2) (queue : List BatchItemV2) : Prop :=
  ∀ item, (queue.drop (batch.records.length + batch.gaps.length)).head? = some item →
    item.bytes inner.host ≤ inner.config.batchMaxBytes

/-! ### Acknowledgements of fronts -/

section Fronts

variable {offered : Nat → Envelope → Prop} {since : List Disk} {items queue : List BatchItemV2}

/-- The acknowledgement of a front is parsed from its text. -/
theorem BatchOf.parse_ackFront (built : BatchOf inner m batch items) (single : batch.Distinct)
    (k : Nat) : HubAckV2.parse inner.host.codec (batch.ackFront k).toJson = .ok (batch.ackFront k) := by
  have records := built.recordCount
  have gaps := built.gapCount
  have names := batch.ackFront_names k
  have count : batch.records.length + batch.gaps.length ≤ u64Max := by
    unfold u64Max
    omega
  have wellFormed := ((HubAckV2.fits_iff single count built.digest).mpr
    ⟨rfl, single.kind _ _, single.kind _ _, rfl, k, names⟩).1
  refine HubAckV2.parse_toJson wellFormed ?_ ?_
  · refine (@length_le_of_known _ (batch.records.map (·.recordId)) (single.kind _ _)
      fun id listed => ?_).trans (by rwa [List.length_map])
    obtain ⟨item, inside, kind, rfl⟩ := (names.records id).mp listed
    rcases mem_mergedItems.mp (List.mem_of_mem_take inside) with
      ⟨record, there, rfl⟩ | ⟨gap, -, rfl⟩
    · exact List.mem_map_of_mem there
    · cases kind
  · refine (@length_le_of_known _ (batch.gaps.map (·.noticeId)) (single.kind _ _)
      fun id listed => ?_).trans (by rwa [List.length_map])
    obtain ⟨item, inside, kind, rfl⟩ := (names.gaps id).mp listed
    rcases mem_mergedItems.mp (List.mem_of_mem_take inside) with
      ⟨record, -, rfl⟩ | ⟨gap, there, rfl⟩
    · cases kind
    · exact List.mem_map_of_mem there

/-- A batch has as many records and gaps as items. -/
theorem BatchOf.length (built : BatchOf inner m batch items) :
    batch.records.length + batch.gaps.length = items.length := by
  rw [built.records, built.gaps, length_records_gaps]

/-- An empty acknowledgement lists nothing. -/
theorem HubBatchV2.ackFront_zero (batch : HubBatchV2) :
    (batch.ackFront 0).acceptedRecordIds = [] ∧ (batch.ackFront 0).acceptedGapNoticeIds = [] :=
  ⟨rfl, rfl⟩

/-- Where the whole batch is acknowledged by listing nothing, there is nothing in it. -/
theorem HubBatchV2.eq_nil_of_ackFront
    (records : (batch.ackFront (batch.records.length + batch.gaps.length)).acceptedRecordIds = [])
    (gaps : (batch.ackFront (batch.records.length + batch.gaps.length)).acceptedGapNoticeIds = []) :
    batch.records = [] ∧ batch.gaps = [] := by
  have names := batch.ackFront_names (batch.records.length + batch.gaps.length)
  have front : ∀ item ∈ mergedItems batch.records batch.gaps,
      item ∈ batch.front (batch.records.length + batch.gaps.length) := fun item inside => by
    rwa [HubBatchV2.front, ← length_mergedItems, List.take_length]
  refine ⟨List.eq_nil_iff_forall_not_mem.mpr fun record inside => ?_,
    List.eq_nil_iff_forall_not_mem.mpr fun gap inside => ?_⟩
  · have listed := (names.records record.recordId).mpr
      ⟨_, front _ (mem_mergedItems.mpr (.inl ⟨record, inside, rfl⟩)), rfl, rfl⟩
    rw [records] at listed
    cases listed
  · have listed := (names.gaps gap.noticeId).mpr
      ⟨_, front _ (mem_mergedItems.mpr (.inr ⟨gap, inside, rfl⟩)), rfl, rfl⟩
    rw [gaps] at listed
    cases listed

/-- A batch is built only while the integrity flag is down. -/
theorem post_buildBatchV2_resolved {restarts : Nat} :
    Post (buildBatchV2 inner restarts).run m
      (fun _ _ => m.state.unresolvedIntegrity = false) (fun _ _ => True) := by
  cases restarts with
  | zero => trivial
  | succ restarts =>
      simp only [buildBatchV2, Call.run_bind, Call.run_atomic, post_bind, post_state, post_ite,
        post_throw, post_pure, implies_true, true_and]
      exact fun resolved => Post.trivial.monoOk fun _ _ _ => Bool.eq_false_iff.mpr resolved

/-- A pull whose files all read back can be repeated and acknowledged. -/
theorem Sound.pullable {restarts : Nat} (sound : Sound inner.key inner.host offered since m)
    (ready : Ready inner.key m) (distinct : DistinctNotices inner.host offered)
    (short : ShortFloats inner.host.codec) (works : m.Works) (intact : ReadsBackAll inner m)
    (positive : 0 < inner.config.batchMaxRecords)
    (ran : (nextBatchV2 inner restarts nowMs).run m = .ok batch m') :
    ∃ queue items, Pullable inner nowMs m' queue ∧ m'.state.AllCounted nowMs ∧
      (buildBatchV2 inner restarts).run m' = .ok batch m' ∧ BatchOf inner m' batch items ∧
      Window (FitsV2 inner) queue items ∧ (queue ≠ [] → items ≠ []) ∧
      Sound inner.key inner.host offered since m' ∧ Ready inner.key m' := by
  have whole := ran
  obtain ⟨-, expired, intact', sound', ready', built, queue, items, batchOf, delivers⟩ :=
    sound.pulled ready distinct short intact ran
  have chain := ((@post_nextBatchV2 inner noOffers m restarts nowMs ready.keyed ready.numbered
    ready.pathed).of_ok whole).1
  have noted : m'.state.AllCounted nowMs := fun entry held due =>
    (expired.counted entry held).mpr ((expired.due held).mp due)
  obtain ⟨faultless, unlatched⟩ := chain.faultless works.faultless works.unlatched
  refine ⟨queue, items, ?_, noted, built, batchOf, delivers.window, fun some => ?_, sound', ready'⟩
  · constructor
    case isQueue =>
      exact ⟨delivers.isQueue.ordered, fun item =>
        (delivers.isQueue.mem item).trans (expired.pending_after item)⟩
    case works => exact ⟨faultless, unlatched⟩
    case intact => exact intact'
    case single => exact batchOf.single
    case resolved => exact post_buildBatchV2_resolved.of_ok built
    case positive => exact positive
    case counter =>
      rw [newlyExpired_eq_zero ready'.keyed noted]
      exact fun none => absurd none (lt_irrefl 0)
  · -- a candidate stands behind every item of the queue
    refine batchOf.progress positive fun none => some ?_
    have listed := @queue_pendingItems inner m' nowMs ready'.keyed batchOf.single
    rw [Machine.pendingItems, none] at listed
    exact delivers.isQueue.unique listed expired.pending_after

/-! ### A receipt under the identity of an empty batch -/

/-- Completing a receipt in a drained state leaves it drained. -/
theorem State.Drained.complete {state : State} (drained : state.Drained) (host : Host)
    (receipt : AckReceipt) : (state.complete host receipt).Drained := by
  have fold {α : Type} {step : State → α → State}
      (keeps : ∀ s a, State.Drained s → State.Drained (step s a)) (items : List α) :
      ∀ s : State, s.Drained → (items.foldl step s).Drained := by
    induction items with
    | nil => exact fun _ drained => drained
    | cons item rest ih => exact fun s drained => ih _ (keeps s item drained)
  have admission : ∀ (s : State) (a : ReceiptAdmission), s.Drained → (s.withoutAdmission a).Drained := by
    intro s a drained
    have absent : admittedEntry s a = none := by
      refine Option.eq_none_iff_forall_not_mem.mpr fun entry found => ?_
      rw [admittedEntry, Option.mem_def, Option.filter_eq_some_iff] at found
      have inside := OrdMap.mem_values_iff.mpr ⟨_, found.1⟩
      rw [drained.1] at inside
      cases inside
    simp only [State.withoutAdmission, absent]
    split <;> exact drained
  have notice : ∀ (s : State) (a : RecordId), s.Drained → (s.withoutNotice host a).Drained := by
    intro s a drained
    have gapless : s.gaps.get? a = none := by
      refine Option.eq_none_iff_forall_not_mem.mpr fun gap found => ?_
      have inside := OrdMap.mem_values_iff.mpr ⟨_, found⟩
      rw [drained.2] at inside
      cases inside
    have unbacked : expiredBacking host s a = none := by
      rw [expiredBacking, drained.1, List.find?_nil]
    simp only [State.withoutNotice, gapless, unbacked]
    exact drained
  exact fold notice _ _ (fold admission _ _ drained)

/-- Where nothing is pending, a receipt of nothing answers the acknowledgement of nothing. -/
theorem Pullable.replay (pullable : Pullable inner nowMs m []) (ready : Ready inner.key m)
    {restarts : Nat} {ack : HubAckV2} (wellFormed : ack.wellFormed = true)
    {prior : ReceiptEntry} (found : m.state.receipts.get? ack.batchId = some prior)
    (version : prior.receipt.version = 2)
    (records : prior.receipt.acceptedStableRecordIds = [] ∧ ack.acceptedRecordIds = [])
    (gaps : prior.receipt.acceptedGapNoticeIds = [] ∧ ack.acceptedGapNoticeIds = []) :
    ∃ m₁, (acknowledgeV2 inner restarts ack).run m = .ok ack.result m₁ ∧
      Chain inner noOffers m m₁ ∧ Pullable inner nowMs m₁ [] := by
  have drained := pullable.isQueue.drained ready.keyed pullable.intact
  have answers : Post (acknowledgeV2 inner restarts ack).run m
      (fun result m₁ => result = ack.result ∧ m₁.Works ∧
        m₁.state = m.state.complete inner.host prior.receipt) (fun _ _ => False) := by
    unfold acknowledgeV2
    rw [if_neg (not_not.mpr wellFormed)]
    simp only [Call.run_bind, Call.run_atomic, post_bind, post_state, post_pure, found]
    rw [if_neg (by simp [version, records, gaps, sameRecordIds])]
    simp only [Call.run_bind, Call.run_atomic, Call.run_pure, post_bind, post_pure]
    refine ((succeeds_completeReceipt prior.receipt m pullable.works).and
      post_completeReceipt_state).mono ?_ fun _ _ failed => failed.1.1
    rintro _ m₁ ⟨works, state⟩
    refine ⟨?_, works, state⟩
    rw [ackResultV2, HubAckV2.result, records.1, records.2, gaps.1, gaps.2]
  cases ran : (acknowledgeV2 inner restarts ack).run m with
  | error error m₁ => exact (answers.of_error ran).elim
  | ok result m₁ =>
      obtain ⟨rfl, works, state⟩ := answers.of_ok ran
      have chain := (post_acknowledgeV2 ready).of_ok ran
      have ready₁ := chain.ready ready
      have drained₁ : m₁.state.Drained := by
        rw [state]
        exact drained.complete inner.host prior.receipt
      have nothing : candidates m₁.state = [] := by
        rw [candidates, drained₁.1, drained₁.2]
        rfl
      have single : repeatsSequence (candidates m₁.state) = false := by rw [nothing]; rfl
      have isQueue := @queue_pendingItems inner m₁ nowMs ready₁.keyed single
      rw [Machine.pendingItems, nothing] at isQueue
      refine ⟨m₁, rfl, chain, isQueue, works, fun entry held => (drained₁.unheld held).elim, single,
        chain.resolved.trans pullable.resolved, pullable.positive, ?_⟩
      rw [newlyExpired_eq_zero ready₁.keyed fun entry held => (drained₁.unheld held).elim]
      exact fun none => absurd none (lt_irrefl 0)

/-! ### When a batch can be acknowledged -/

/-- An item of a batch within the limits is within them by itself. -/
theorem FitsV2.item (fits : FitsV2 inner items) {item : BatchItemV2} (inside : item ∈ items) :
    item.bytes inner.host ≤ inner.config.batchMaxBytes :=
  (List.le_sum_of_mem (List.mem_map_of_mem inside)).trans fits.bytes

/-- What the receipts leave open can be acknowledged, front by front. -/
theorem Pullable.acknowledgeable (pullable : Pullable inner nowMs m queue)
    (distinct : DistinctNotices inner.host offered) (faithful : FaithfulIds inner.host offered)
    (sound : Sound inner.key inner.host offered since m) (ready : Ready inner.key m)
    (short : ShortFloats inner.host.codec) (noted : m.state.AllCounted nowMs) {restarts : Nat}
    (ran : (buildBatchV2 inner (restarts + 1)).run m = .ok batch m)
    (built : BatchOf inner m batch items) (window : Window (FitsV2 inner) queue items)
    (some : queue ≠ [] → items ≠ []) (opened : m.state.OpenTo batch)
    (behind : FitsBehind inner batch queue) :
    Acknowledgeable inner (restarts + 1) nowMs m batch queue := by
  intro k inside
  rw [built.length] at inside
  have single : batch.Distinct := sound.distinct_batch ready.keyed distinct faithful built
  have answered : ∃ m₁, (acknowledgeV2 inner (restarts + 1) (batch.ackFront k)).run m =
      .ok (batch.ackFront k).result m₁ ∧ Chain inner noOffers m m₁ ∧
      Pullable inner nowMs m₁ (queue.drop k) := by
    rw [State.OpenTo] at opened
    cases found : m.state.receipts.get? batch.batchId with
    | none =>
        rw [found] at opened
        obtain ⟨m₁, acknowledged, chain, pullable₁, -⟩ := pullable.acknowledge distinct faithful sound
          ready noted ran built window.front found opened inside
        exact ⟨m₁, acknowledged, chain, pullable₁⟩
    | some prior =>
        rw [found] at opened
        obtain ⟨records, gaps, version, listed, noticed⟩ := opened
        have length := built.length
        rw [records, gaps] at length
        have none : items = [] := List.eq_nil_of_length_eq_zero length.symm
        obtain rfl : queue = [] := by_contra fun more => some more none
        obtain rfl : k = 0 := Nat.le_zero.mp (inside.trans length.symm.le)
        have count : batch.records.length + batch.gaps.length ≤ u64Max := by
          rw [built.length, none]
          exact Nat.zero_le _
        have wellFormed := ((HubAckV2.fits_iff single count built.digest).mpr
          ⟨rfl, single.kind _ _, single.kind _ _, rfl, 0, batch.ackFront_names 0⟩).1
        obtain ⟨m₁, acknowledged, chain, pullable₁⟩ := pullable.replay ready wellFormed found version
          ⟨listed, rfl⟩ ⟨noticed, rfl⟩
        exact ⟨m₁, acknowledged, chain, by rwa [List.drop_nil]⟩
  obtain ⟨m₁, acknowledged, chain, pullable₁⟩ := answered
  have fits : ∀ item, (queue.drop k).head? = .some item →
      item.bytes inner.host ≤ inner.config.batchMaxBytes := by
    intro item first
    rcases inside.lt_or_eq with early | rfl
    · -- the rest begins inside the batch
      obtain ⟨rest, rfl⟩ := window.front
      rw [List.drop_append_of_le_length early.le, List.head?_append_of_ne_nil] at first
      · exact window.admitted.item (List.mem_of_mem_drop (List.mem_of_mem_head? first))
      · rw [Ne, List.drop_eq_nil_iff]
        exact not_le.mpr early
    · exact behind item (by rw [built.length]; exact first)
  obtain ⟨next, m₂, later, pulled, -, -, -, -, -, -, delivers, progress⟩ := pullable₁.pull distinct
    (chain.offering.sound distinct sound) (chain.ready ready) short fits restarts
  exact ⟨built.parse_ackFront single k, m₁, m₂, next, later, acknowledged, pulled, delivers, progress⟩

/-- An acknowledgement is accepted only with a receipt left to give out, or with one that lists the
same. -/
theorem post_acknowledgeV2_allowed {restarts : Nat} {ack : HubAckV2} (keyed : m.state.Keyed)
    (ran : (buildBatchV2 inner restarts).run m = .ok batch m) :
    Post (acknowledgeV2 inner restarts ack).run m
      (fun _ _ =>
        (m.state.receipts.get? ack.batchId = none → m.state.nextReceiptSequence < u64Max) ∧
        ∀ prior, m.state.receipts.get? ack.batchId = some prior → prior.receipt.version = 2 ∧
          sameRecordIds prior.receipt.acceptedStableRecordIds ack.acceptedRecordIds = true ∧
          sameRecordIds prior.receipt.acceptedGapNoticeIds ack.acceptedGapNoticeIds = true)
      (fun _ _ => True) := by
  unfold acknowledgeV2
  split
  · trivial
  · simp only [Call.run_bind, Call.run_atomic, post_bind, post_state, post_pure]
    cases found : m.state.receipts.get? ack.batchId with
    | some prior =>
        simp only
        split
        · trivial
        · rename_i same
          simp only [not_or, not_not] at same
          refine Post.trivial.mono (fun _ _ _ => ⟨fun none => (Option.some_ne_none _ none).elim, ?_⟩)
            fun _ _ _ => trivial
          rintro other equal
          obtain rfl := Option.some.inj equal
          exact same
    | none =>
        simp only [Call.run_bind, post_bind]
        rw [post_iff_of_run ran]
        split
        · trivial
        · simp only [Call.run_bind, Call.run_atomic, Call.run_pure, post_bind, post_pure]
          refine (post_receiptAdmissionsV2 keyed).mono ?_ fun _ _ _ => trivial
          rintro admissions m₁ ⟨rfl, -⟩
          simp only [commitReceipt, Call.run_bind, Call.run_atomic, post_bind]
          refine post_allocateReceipt (fun room => ?_) fun _ => trivial
          exact Post.trivial.mono (fun _ _ _ => ⟨fun _ => room, fun _ found => by cases found⟩)
            fun _ _ _ => trivial

/-- The same identities as none are none. -/
theorem eq_nil_of_sameRecordIds {left right : List RecordId} (same : sameRecordIds left right = true)
    (none : left = [] ∨ right = []) : left = [] ∧ right = [] := by
  simp only [sameRecordIds, Bool.and_eq_true, decide_eq_true_eq] at same
  have length := same.1.1
  rcases none with rfl | rfl
  · exact ⟨rfl, List.eq_nil_of_length_eq_zero length.symm⟩
  · exact ⟨List.eq_nil_of_length_eq_zero length, rfl⟩

/-- Where every front can be acknowledged, the receipts leave the batch open. -/
theorem Acknowledgeable.openTo {restarts : Nat}
    (acknowledgeable : Acknowledgeable inner restarts nowMs m batch queue) (keyed : m.state.Keyed)
    (ran : (buildBatchV2 inner restarts).run m = .ok batch m) : m.state.OpenTo batch := by
  obtain ⟨-, m₁, -, -, -, first, -⟩ := acknowledgeable 0 (Nat.zero_le _)
  obtain ⟨-, m₂, -, -, -, whole, -⟩ := acknowledgeable _ le_rfl
  obtain ⟨room, least⟩ := (post_acknowledgeV2_allowed keyed ran).of_ok first
  obtain ⟨-, most⟩ := (post_acknowledgeV2_allowed keyed ran).of_ok whole
  rw [State.OpenTo]
  cases found : m.state.receipts.get? batch.batchId with
  | none => exact room found
  | some prior =>
      -- one receipt lists nothing and the whole batch
      obtain ⟨version, records, gaps⟩ := least prior found
      obtain ⟨-, allRecords, allGaps⟩ := most prior found
      have listed := (eq_nil_of_sameRecordIds records (.inr rfl)).1
      have noticed := (eq_nil_of_sameRecordIds gaps (.inr rfl)).1
      obtain ⟨noRecords, noGaps⟩ := HubBatchV2.eq_nil_of_ackFront
        (eq_nil_of_sameRecordIds allRecords (.inl listed)).2
        (eq_nil_of_sameRecordIds allGaps (.inl noticed)).2
      exact ⟨noRecords, noGaps, version, listed, noticed⟩

/-- Where the whole batch can be acknowledged, the item behind it can be delivered. -/
theorem Acknowledgeable.fitsBehind {restarts : Nat}
    (acknowledgeable : Acknowledgeable inner restarts nowMs m batch queue) :
    FitsBehind inner batch queue := by
  obtain ⟨-, m₁, m₂, next, items, -, -, delivers, progress⟩ := acknowledgeable _ le_rfl
  intro item first
  have more : queue.drop (batch.records.length + batch.gaps.length) ≠ [] := fun none => by
    rw [none] at first
    cases first
  obtain ⟨head, rest, rfl⟩ := List.exists_cons_of_ne_nil (progress more)
  obtain ⟨later, same⟩ := delivers.window.front
  rw [← same] at first
  obtain rfl := Option.some.inj first
  exact delivers.window.admitted.item List.mem_cons_self

end Fronts

/-! ### In any run -/

/-- A spool opens with room for a record in a batch. -/
theorem openSpool_positive {lockHeld : Bool} {after : Machine}
    (ran : openSpool inner lockHeld nowMs m = .ok () after) : 0 < inner.config.batchMaxRecords := by
  by_contra none
  have refused : validateConfig inner.config = .error .invalidConfig :=
    if_pos (.inr (.inr (.inr (.inr (.inl (by omega))))))
  unfold openSpool at ran
  rw [refused] at ran
  cases ran

/-- A running process has been opened so. -/
theorem Reach.positive {allowed : World → Move → Prop} {w : World} (reach : Reach allowed w)
    {process : Process} (running : w.process = some process) :
    0 < process.inner.config.batchMaxRecords := by
  refine reach.invariant (I := fun w => ∀ process, w.process = some process →
    0 < process.inner.config.batchMaxRecords) (fun process none => by cases none) ?_ process running
  intro w move w' _ before _ moved process running
  cases moved with
  | opened closed ran =>
      obtain rfl := Option.some.inj running
      exact openSpool_positive ran
  | openFailed | openStopped | callStopped | dropped => cases running
  | openRefused running' ran => exact before process running
  | @returned request faults previous running' =>
      obtain rfl := Option.some.inj running
      exact before previous running'
  | damaged | receiptDamaged | relisted => exact before process running

/-- A delivered batch can be acknowledged by every one of its fronts, with the next pull beginning
behind the front, exactly if what is retained leaves it open and the item behind it can be delivered;
and where no receipt stands under the identity of a batch of the pending items, pulls and
acknowledgements of whole batches deliver all of them in order and leave nothing pending. -/
theorem batch_acknowledgeable_iff {key : EncryptionKey} {host : Host} {w : World}
    (reach : Reach (UnderKey key host) w) (distinct : DistinctNotices host w.Offered)
    (faithful : FaithfulIds host w.Offered) (short : ShortFloats host.codec) {process : Process}
    (running : w.process = some process) (unlatched : process.storageWriteFailed = false)
    (intact : ReadsBackAll process.inner (w.machine process .none)) {restarts : Nat}
    (pulled : (nextBatchV2 process.inner restarts nowMs).run (w.machine process .none) =
      .ok batch m) :
    ∃ queue, Queue process.inner (m.state.Due nowMs) m queue ∧
      (Acknowledgeable process.inner restarts nowMs m batch queue ↔
        m.state.OpenTo batch ∧ FitsBehind process.inner batch queue) ∧
      (TellsBatches host queue →
        (∀ item ∈ queue, item.bytes host ≤ process.inner.config.batchMaxBytes) →
        (∀ items, items <:+: queue → items ≠ [] →
          m.state.receipts.get? (batchIdOf host items) = none) →
        m.state.nextReceiptSequence + queue.length ≤ u64Max →
        ∃ m', Rounds process.inner nowMs m queue m' ∧ m'.state.Drained) := by
  obtain ⟨rfl, rfl, backing⟩ := (reach.kept distinct).running process running
  obtain ⟨sound, ready⟩ := backing .none
  obtain ⟨queue, items, pullable, noted, ran, built, window, progress, sound', ready'⟩ :=
    sound.pullable ready distinct short ⟨rfl, unlatched⟩ intact (reach.positive running) pulled
  refine ⟨queue, pullable.isQueue, ⟨fun acknowledgeable => ?_, ?_⟩, fun tells fits unspent room => ?_⟩
  · exact ⟨acknowledgeable.openTo ready'.keyed ran, acknowledgeable.fitsBehind⟩
  · rintro ⟨opened, behind⟩
    cases restarts with
    | zero => cases ran
    | succ restarts =>
        exact pullable.acknowledgeable distinct faithful sound' ready' short noted ran built window
          progress opened behind
  · have unblocked : Unblocked process.inner nowMs m queue [] :=
      { pullable with
        fits := by rwa [List.append_nil]
        unspent := by rwa [List.append_nil]
        room := by rwa [List.append_nil] }
    exact unblocked.rounds distinct faithful sound' ready' short tells

/-! ### Acknowledgements of a front and of nothing -/

/-- Acknowledge the first items of the batch just delivered. -/
def acknowledgeFront (k : Nat) : Player := fun w => w.lastBatch.map fun batch =>
  .call (.acknowledgeV2 2 (batch.ackFront k)) .none

/-- Of the gap and the record that were pulled the first ones are acknowledged. -/
def frontAcknowledged (k : Nat) : List Player := cutPull ++ [acknowledgeFront k]

theorem frontAcknowledged_untouched {k : Nat} :
    ∀ player ∈ frontAcknowledged k, ∀ w move, player w = some move →
      Untouched sampleKey (referenceHost integerCodec) w move := by
  intro player inside w move chosen
  rcases List.mem_append.mp inside with before | last
  · exact reopenedSpool_untouched player
      (acknowledgedPull_subset (List.mem_append_left _ before)) w move chosen
  · obtain rfl := List.mem_singleton.mp last
    obtain ⟨batch, -, rfl⟩ := Option.map_eq_some_iff.mp chosen
    trivial

/-- After the acknowledgement of a gap the next pull finds two records that nothing blocks. -/
theorem frontAcknowledged_plays :
    ((World.fresh.follow (frontAcknowledged 1)).any fun w =>
      (w.pull (sampleTime 61500)).any fun pulled =>
        (w.machine pulled.1 .none).readsBackAll pulled.1.inner &&
        (pulled.2.2.unblocked pulled.1.inner (sampleTime 61500) [] &&
          decide ((w.pulled pulled.1 2 (sampleTime 61500) pulled.2.1 pulled.2.2).TellsApart
              (referenceHost integerCodec) ∧ pulled.2.2.faults = .none ∧
            pulled.1.storageWriteFailed = false ∧ pulled.1.state.receipts.size = 1 ∧
            pulled.2.2.state.receipts.get? pulled.2.1.batchId = none ∧
            ((pulled.2.2.pendingItems pulled.1.inner (sampleTime 61500)).map (·.spoolSeq) = [2, 3]) ∧
            pulled.2.1.records.length = 2 ∧
            ((infixes (pulled.2.2.pendingItems pulled.1.inner (sampleTime 61500))).map
              (batchIdOf (referenceHost integerCodec))).Nodup))) = true := by
  decide +kernel

theorem batch_acknowledgeable_iff_frontAcknowledged :
    ∃ (w : World) (process : Process) (batch : HubBatchV2) (m : Machine)
      (queue : List BatchItemV2),
      process.state.receipts.size = 1 ∧ queue.map (·.spoolSeq) = [2, 3] ∧
      (nextBatchV2 process.inner 2 (sampleTime 61500)).run (w.machine process .none) =
        .ok batch m ∧
      batch.records.length = 2 ∧
      Acknowledgeable process.inner 2 (sampleTime 61500) m batch queue ∧
      ∃ m', Rounds process.inner (sampleTime 61500) m queue m' ∧ m'.state.Drained := by
  obtain ⟨w, followed, shows⟩ := (Option.any_eq_true _ _).mp frontAcknowledged_plays
  obtain ⟨⟨process, batch, m⟩, pulled, shows⟩ := (Option.any_eq_true _ _).mp shows
  simp only [Bool.and_eq_true, decide_eq_true_eq] at shows
  obtain ⟨intact, passes, apart, faultless, unlatched, one, fresh, two, records, tells⟩ := shows
  obtain ⟨running, ran⟩ := World.pull_eq_some pulled
  have reach := (World.reach_of_follow .start frontAcknowledged_untouched followed).mono
    fun _ _ untouched => untouched.underKey
  have stepped := World.step_pulled running ran
  have after := @Reach.step _ w _ (.call _ _) reach trivial stepped
  have keyed : m.state.Keyed :=
    (((after.kept apart.distinctNotices).running _ rfl).2.2 m.faults).2.keyed
  have unblocked := unblocked_of_machine keyed faultless passes
  have hosted : process.inner.host = referenceHost integerCodec :=
    ((after.kept apart.distinctNotices).running _ rfl).2.1
  obtain ⟨queue, isQueue, acknowledgeable, drains⟩ := batch_acknowledgeable_iff reach
    (apart.distinctNotices.offering stepped.offered) (apart.faithfulIds.offering stepped.offered)
    integerCodec_shortFloats running unlatched (readsBackAll_of_machine intact) ran
  obtain rfl := isQueue.unique unblocked.isQueue fun _ => Iff.rfl
  have fits := unblocked.fits
  have room := unblocked.room
  have unspent := unblocked.unspent
  rw [List.append_nil] at fits room unspent
  have length := congrArg List.length two
  rw [List.length_map] at length
  have opened : m.state.OpenTo batch := by
    rw [State.OpenTo, fresh]
    simp only [List.length_cons, List.length_nil] at length
    omega
  refine ⟨w, process, batch, m, _, one, two, ran, records, acknowledgeable.mpr ⟨opened, ?_⟩, ?_⟩
  · exact fun item first => fits item (List.mem_of_mem_drop (List.mem_of_mem_head? first))
  · rw [hosted] at fits unspent
    exact drains (tellsBatches_of_nodup tells) fits unspent room

/-- What a pull gives whose batch cannot be acknowledged as a whole. -/
def World.pullRefused (w : World) (nowMs : I64) : Option (Process × HubBatchV2 × Machine) :=
  w.process.bind fun process =>
    match (nextBatchV2 process.inner 1 nowMs).run (w.machine process .none) with
    | .error _ _ => none
    | .ok batch m =>
        match (acknowledgeV2 process.inner 1
          (batch.ackFront (batch.records.length + batch.gaps.length))).run m with
        | .ok _ _ => none
        | .error _ _ => some (process, batch, m)

theorem World.pullRefused_eq_some {w : World} {process : Process}
    (refused : w.pullRefused nowMs = some (process, batch, m)) :
    w.process = some process ∧
      (nextBatchV2 process.inner 1 nowMs).run (w.machine process .none) = .ok batch m ∧
      ∀ result m₁, (acknowledgeV2 process.inner 1
        (batch.ackFront (batch.records.length + batch.gaps.length))).run m ≠ .ok result m₁ := by
  obtain ⟨other, running, refused⟩ := Option.bind_eq_some_iff.mp refused
  split at refused
  · cases refused
  · rename_i ran
    split at refused
    · cases refused
    · rename_i failed
      cases refused
      refine ⟨running, ran, fun result m₁ accepted => ?_⟩
      rw [failed] at accepted
      cases accepted

/-- After the acknowledgement of nothing the same batch is delivered again and refused. -/
theorem nothingAcknowledged_plays :
    ((World.fresh.follow (frontAcknowledged 0)).any fun w =>
      (w.pullRefused (sampleTime 61500)).any fun pulled =>
        (w.machine pulled.1 .none).readsBackAll pulled.1.inner &&
          decide (pulled.1.storageWriteFailed = false ∧ pulled.2.1.records.length = 1 ∧
            pulled.2.1.gaps.length = 1 ∧ pulled.1.state.gaps.values.length = 1)) = true := by
  decide +kernel

theorem empty_acknowledgement_blocks_batch :
    ∃ (w : World) (process : Process) (batch : HubBatchV2) (m : Machine),
      Reach (Untouched sampleKey (referenceHost integerCodec)) w ∧ w.process = some process ∧
      process.storageWriteFailed = false ∧
      ReadsBackAll process.inner (w.machine process .none) ∧
      (nextBatchV2 process.inner 1 (sampleTime 61500)).run (w.machine process .none) =
        .ok batch m ∧
      batch.records.length = 1 ∧ batch.gaps.length = 1 ∧
      (∀ queue, ¬ Acknowledgeable process.inner 1 (sampleTime 61500) m batch queue) ∧
      ∀ items m', Rounds process.inner (sampleTime 61500) (w.machine process .none) items m' →
        ¬ m'.state.Drained := by
  obtain ⟨w, followed, shows⟩ := (Option.any_eq_true _ _).mp nothingAcknowledged_plays
  obtain ⟨⟨process, batch, m⟩, pulled, shows⟩ := (Option.any_eq_true _ _).mp shows
  simp only [Bool.and_eq_true, decide_eq_true_eq] at shows
  obtain ⟨intact, unlatched, records, gaps, pending⟩ := shows
  obtain ⟨running, ran, refused⟩ := World.pullRefused_eq_some pulled
  refine ⟨w, process, batch, m, World.reach_of_follow .start frontAcknowledged_untouched followed,
    running, unlatched, readsBackAll_of_machine intact, ran, records, gaps,
    fun queue acknowledgeable => ?_, fun items m' rounds drained => ?_⟩
  · obtain ⟨-, m₁, -, -, -, accepted, -⟩ := acknowledgeable _ le_rfl
    exact refused _ m₁ accepted
  · cases rounds with
    | done =>
        have none : process.state.gaps.values = [] := drained.2
        rw [none] at pending
        cases pending
    | pulled again delivered accepted rest =>
        rw [ran] at again
        cases again
        rw [← length_records_gaps, ← delivered.1, ← delivered.2] at accepted
        exact refused _ _ accepted

end TeslatlasEdge
