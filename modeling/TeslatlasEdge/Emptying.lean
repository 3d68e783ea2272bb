/-
Module: TeslatlasEdge.Emptying
Purpose: When a queue can be emptied.  While nothing blocks it, each pull delivers a batch, the
  acknowledgement of the whole batch is accepted and takes just its items away, and so pulls at one
  time and acknowledgements come to the end of the queue.
Trusted boundary: none
Main exports: Drained, Rounds, Pullable, Unblocked, Expired.pending, Removed.pending, Pullable.pull,
  Pullable.acknowledge, Unblocked.rounds, Unblocked.drains
-/
import TeslatlasEdge.Acknowledgement
import TeslatlasEdge.Stability
import TeslatlasEdge.Spool.Survival

namespace TeslatlasEdge

open Lib
open Section

variable {inner : Inner} {m m' : Machine}

/-! ### Emptying a queue -/

/-- The answer that acknowledges just what is listed. -/
def HubAckV2.result (ack : HubAckV2) : HubAckResultV2 :=
  { version := 2
    acknowledgedRecordIds := ack.acceptedRecordIds
    acknowledgedGapNoticeIds := ack.acceptedGapNoticeIds
    unknownRecordIds := []
    unknownGapNoticeIds := [] }

/-- Pulls at one time, each followed by an acknowledgement of records it has delivered, lead from one
machine to another; the batches are those pulled. -/
inductive Drained (inner : Inner) (nowMs : I64) : Machine → List HubBatchV2 → Machine → Prop where
  | done (m : Machine) : Drained inner nowMs m [] m
  | pulled {m m₁ m₂ m' : Machine} {restarts again : Nat} {batch : HubBatchV2} {ack : HubAckV2}
      {result : HubAckResultV2} {batches : List HubBatchV2}
      (pulled : (nextBatchV2 inner restarts nowMs).run m = .ok batch m₁)
      (acknowledged : (acknowledgeV2 inner again ack).run m₁ = .ok result m₂)
      (named : ∀ id ∈ ack.acceptedRecordIds, ∃ record ∈ batch.records, record.recordId = id)
      (rest : Drained inner nowMs m₂ batches m') :
      Drained inner nowMs m (batch :: batches) m'

/-- Pulls at one time, each followed by the acknowledgement of its whole batch, lead from one machine
to another; the items are those delivered. -/
inductive Rounds (inner : Inner) (nowMs : I64) : Machine → List BatchItemV2 → Machine → Prop where
  | done (m : Machine) : Rounds inner nowMs m [] m
  | pulled {m m₁ m₂ m' : Machine} {batch : HubBatchV2} {items later : List BatchItemV2}
      (pulled : (nextBatchV2 inner 1 nowMs).run m = .ok batch m₁)
      (delivered : batch.records = items.filterMap BatchItemV2.record? ∧
        batch.gaps = items.filterMap BatchItemV2.gap?)
      (acknowledged : (acknowledgeV2 inner 1 (batch.ackFront items.length)).run m₁ =
        .ok (batch.ackFront items.length).result m₂)
      (rest : Rounds inner nowMs m₂ later m') :
      Rounds inner nowMs m (items ++ later) m'

/-- A queue emptied in rounds has been drained. -/
theorem Rounds.drained {nowMs : I64} {items : List BatchItemV2}
    (rounds : Rounds inner nowMs m items m') :
    ∃ batches, TeslatlasEdge.Drained inner nowMs m batches m' := by
  induction rounds with
  | done m => exact ⟨[], .done m⟩
  | @pulled m m₁ m₂ m' batch items later pulled delivered acknowledged rest ih =>
      obtain ⟨batches, drains⟩ := ih
      refine ⟨batch :: batches, .pulled pulled acknowledged (fun id listed => ?_) drains⟩
      obtain ⟨item, inside, kind, rfl⟩ := ((batch.ackFront_names _).records id).mp listed
      rcases mem_mergedItems.mp (List.mem_of_mem_take inside) with
        ⟨record, there, rfl⟩ | ⟨gap, -, rfl⟩
      · exact ⟨record, there, rfl⟩
      · cases kind

/-- Nothing is pending. -/
def State.Drained (state : State) : Prop :=
  state.entries.values = [] ∧ state.gaps.values = []

/-- A drained state holds nothing. -/
theorem State.Drained.unheld {state : State} (drained : state.Drained) {entry : Entry} :
    ¬ state.Holds entry := by
  intro held
  have inside := OrdMap.mem_values_iff.mpr ⟨_, held⟩
  rw [drained.1] at inside
  cases inside

/-- The identity of the batch of some items. -/
def batchIdOf (host : Host) (items : List BatchItemV2) : Str :=
  batchIdV2 host (items.filterMap BatchItemV2.record?) (items.filterMap BatchItemV2.gap?)

/-- Different batches of neighbouring items of a queue have different identities. -/
def TellsBatches (host : Host) (queue : List BatchItemV2) : Prop :=
  ∀ a b, a <:+: queue → b <:+: queue → batchIdOf host a = batchIdOf host b → a = b

/-- The lists of neighbouring items, the empty one once. -/
def infixes (queue : List BatchItemV2) : List (List BatchItemV2) :=
  [] :: queue.tails.flatMap fun rest => rest.inits.tail

/-- The infixes of a queue are listed. -/
theorem mem_infixes {items queue : List BatchItemV2} (within : items <:+: queue) :
    items ∈ infixes queue := by
  obtain ⟨rest, front, behind⟩ := List.infix_iff_prefix_suffix.mp within
  cases items with
  | nil => exact List.mem_cons_self
  | cons item items =>
      refine List.mem_cons_of_mem _ (List.mem_flatMap.mpr ⟨rest, (List.mem_tails _ _).mpr behind, ?_⟩)
      have listed := (List.mem_inits _ _).mpr front
      cases rest with
      | nil => exact absurd front (by simp)
      | cons head rest =>
          rw [List.inits_cons] at listed ⊢
          exact (List.mem_cons.mp listed).resolve_left (List.cons_ne_nil _ _)

theorem tellsBatches_of_nodup {host : Host} {queue : List BatchItemV2}
    (apart : ((infixes queue).map (batchIdOf host)).Nodup) : TellsBatches host queue :=
  fun _ _ within within' same =>
    List.inj_on_of_nodup_map apart (mem_infixes within) (mem_infixes within') same

/-- What a pull, and an acknowledgement after it, needs of a machine, apart from items that fit in a
batch and from receipts. -/
structure Pullable (inner : Inner) (nowMs : I64) (m : Machine) (queue : List BatchItemV2) : Prop where
  isQueue : Queue inner (m.state.Due nowMs) m queue
  works : m.Works
  intact : ReadsBackAll inner m
  single : repeatsSequence (candidates m.state) = false
  resolved : m.state.unresolvedIntegrity = false
  positive : 0 < inner.config.batchMaxRecords
  counter : 0 < m.state.newlyExpired nowMs →
    m.state.expiredRecords + m.state.newlyExpired nowMs ≤ u64Max

/-- Everything that is due has been counted. -/
def State.AllCounted (state : State) (nowMs : I64) : Prop :=
  ∀ entry, state.Holds entry → state.Due nowMs entry →
    state.countedPendingExpirations.contains entry.spoolSeq = true

/-- Nothing keeps a queue from being emptied, also when more items come in behind it. -/
structure Unblocked (inner : Inner) (nowMs : I64) (m : Machine) (queue coming : List BatchItemV2) :
    Prop where
  isQueue : Queue inner (m.state.Due nowMs) m queue
  works : m.Works
  intact : ReadsBackAll inner m
  single : repeatsSequence (candidates m.state) = false
  resolved : m.state.unresolvedIntegrity = false
  positive : 0 < inner.config.batchMaxRecords
  fits : ∀ item ∈ queue ++ coming, item.bytes inner.host ≤ inner.config.batchMaxBytes
  unspent : ∀ items, items <:+: queue ++ coming → items ≠ [] →
    m.state.receipts.get? (batchIdOf inner.host items) = none
  room : m.state.nextReceiptSequence + (queue ++ coming).length ≤ u64Max
  counter : 0 < m.state.newlyExpired nowMs →
    m.state.expiredRecords + m.state.newlyExpired nowMs ≤ u64Max

/-! ### Queues -/

/-- Two machines with the same pending items have the same queue. -/
theorem Queue.unique {due late : Entry → Prop} {queue other : List BatchItemV2}
    (mine : Queue inner due m queue) (yours : Queue inner late m' other)
    (same : ∀ item, PendingItem inner due m item ↔ PendingItem inner late m' item) :
    queue = other := by
  have distinct : ∀ {items : List BatchItemV2},
      (items.Pairwise fun a b => a.spoolSeq < b.spoolSeq) → items.Nodup := fun ordered =>
    List.Nodup.of_map _ (nodup_map_of_ordered ordered fun _ _ _ _ same => same)
  have perm : queue.Perm other := by
    refine (List.perm_ext_iff_of_nodup (distinct mine.ordered) (distinct yours.ordered)).mpr ?_
    intro item
    rw [mine.mem, yours.mem]
    exact same item
  refine perm.eq_of_pairwise (fun a b _ _ below above => ?_) mine.ordered yours.ordered
  exact absurd below above.asymm

/-- An empty queue is that of a state in which nothing is pending. -/
theorem Queue.drained {due : Entry → Prop} (isQueue : Queue inner due m []) (keyed : m.state.Keyed)
    (intact : ReadsBackAll inner m) : m.state.Drained := by
  have nothing : ∀ item, ¬ PendingItem inner due m item := fun item pending =>
    List.not_mem_nil ((isQueue.mem item).mpr pending)
  refine ⟨List.eq_nil_iff_forall_not_mem.mpr fun entry inside => ?_,
    List.eq_nil_iff_forall_not_mem.mpr fun gap inside => ?_⟩
  · have held := keyed.holds inside
    obtain ⟨stored, read⟩ := intact entry held
    by_cases past : due entry
    · exact nothing _ (.expired held past)
    · exact nothing _ (.live held past read)
  · obtain ⟨noticeId, found⟩ := OrdMap.mem_values_iff.mp inside
    exact nothing _ (.gap found)

/-- The pending item of a candidate, when its file reads back or is not needed. -/
def pendingItem (inner : Inner) (nowMs : I64) (m : Machine) :
    BatchCandidateV2 → Option BatchItemV2
  | .gap notice => some (.gap notice)
  | .record entry =>
      if m.state.Due nowMs entry then
        some (.gap (gapNotice inner.host entry entry.expiresAtMs .retentionExpired))
      else
        match decodeEntry inner entry (m.disk.read entry.path) with
        | .error _ => none
        | .ok stored => some (.record
            { recordId := entry.stableRecordId
              legacyRecordId := entry.recordId
              spoolSeq := entry.spoolSeq
              receivedAtMs := stored.admittedAtMs
              envelope := stored.envelope })

/-- A pending item is delivered under the candidate's sequence. -/
theorem pendingItem_spoolSeq {nowMs : I64} {candidate : BatchCandidateV2} {item : BatchItemV2}
    (found : pendingItem inner nowMs m candidate = some item) :
    item.spoolSeq = candidate.spoolSeq := by
  cases candidate with
  | gap notice =>
      obtain rfl := Option.some.inj found
      rfl
  | record entry =>
      simp only [pendingItem] at found
      split at found
      · obtain rfl := Option.some.inj found
        rfl
      · split at found
        · cases found
        · obtain rfl := Option.some.inj found
          rfl

/-- The pending items of a machine, in the order of its candidates. -/
def Machine.pendingItems (inner : Inner) (nowMs : I64) (m : Machine) : List BatchItemV2 :=
  (candidates m.state).filterMap (pendingItem inner nowMs m)

/-- A state in which no sequence repeats has a queue: its pending items. -/
theorem queue_pendingItems {nowMs : I64} (keyed : m.state.Keyed)
    (single : repeatsSequence (candidates m.state) = false) :
    Queue inner (m.state.Due nowMs) m (m.pendingItems inner nowMs) := by
  refine ⟨?_, fun item => ?_⟩
  · refine List.Pairwise.filterMap _ (fun a b below c found d found' => ?_)
      (candidates_ordered single)
    rw [pendingItem_spoolSeq found, pendingItem_spoolSeq found']
    exact below
  · rw [Machine.pendingItems, List.mem_filterMap]
    constructor
    · rintro ⟨candidate, inside, found⟩
      cases candidate with
      | gap notice =>
          obtain rfl := Option.some.inj found
          obtain ⟨gap, held, rfl⟩ := mem_candidates_gap.mp inside
          obtain ⟨noticeId, found⟩ := OrdMap.mem_values_iff.mp held
          exact .gap found
      | record entry =>
          have held := keyed.holds (mem_candidates_record.mp inside)
          simp only [pendingItem] at found
          split at found
          · rename_i past
            obtain rfl := Option.some.inj found
            exact .expired held past
          · rename_i current
            split at found
            · cases found
            · rename_i stored read
              obtain rfl := Option.some.inj found
              exact .live held current read
    · intro pending
      cases pending with
      | @gap noticeId gap found =>
          exact ⟨.gap gap.notice,
            mem_candidates_gap.mpr ⟨gap, OrdMap.mem_values_iff.mpr ⟨_, found⟩, rfl⟩, rfl⟩
      | @expired entry held past =>
          refine ⟨.record entry, mem_candidates_record.mpr (OrdMap.mem_values_iff.mpr ⟨_, held⟩), ?_⟩
          simp only [pendingItem, if_pos past]
      | @live entry stored held current read =>
          refine ⟨.record entry, mem_candidates_record.mpr (OrdMap.mem_values_iff.mpr ⟨_, held⟩), ?_⟩
          simp only [pendingItem, if_neg current, read]

/-- The items behind the first ones are those with other sequences. -/
theorem mem_drop_of_ordered {queue items : List BatchItemV2}
    (ordered : queue.Pairwise fun a b => a.spoolSeq < b.spoolSeq) (front : items <+: queue)
    {item : BatchItemV2} :
    item ∈ queue.drop items.length ↔
      item ∈ queue ∧ item.spoolSeq ∉ items.map BatchItemV2.spoolSeq := by
  obtain ⟨rest, rfl⟩ := front
  rw [List.drop_left]
  obtain ⟨-, -, apart⟩ := List.pairwise_append.mp ordered
  constructor
  · intro behind
    refine ⟨List.mem_append_right _ behind, fun early => ?_⟩
    obtain ⟨other, inside, same⟩ := List.mem_map.mp early
    exact absurd same (apart other inside item behind).ne
  · rintro ⟨inside, late⟩
    exact (List.mem_append.mp inside).resolve_left fun early => late (List.mem_map_of_mem early)

/-- When entries and gaps have sequences of their own, no candidate repeats one. -/
theorem repeatsSequence_of_apart {state : State} (keyed : state.Keyed)
    (gapKeyed : ∀ noticeId gap, state.gaps.get? noticeId = some gap → gap.notice.noticeId = noticeId)
    (entries : ∀ entry other, state.Holds entry → state.Holds other →
      entry.spoolSeq = other.spoolSeq → entry = other)
    (gaps : ∀ noticeId gap otherId other, state.gaps.get? noticeId = some gap →
      state.gaps.get? otherId = some other → gap.notice.spoolSeq = other.notice.spoolSeq →
      noticeId = otherId)
    (apart : ∀ entry noticeId gap, state.Holds entry → state.gaps.get? noticeId = some gap →
      entry.spoolSeq ≠ gap.notice.spoolSeq) :
    repeatsSequence (candidates state) = false := by
  have nodup : ((candidates state).map (·.spoolSeq)).Nodup := by
    refine ((candidates_perm state).map _).nodup_iff.mpr ?_
    rw [List.map_append, List.map_map, List.map_map, List.map_map]
    exact state.sequences_nodup keyed gapKeyed entries gaps apart
  refine repeatsSequence_of_ordered ?_
  have strict : ((candidates state).map (·.spoolSeq)).Pairwise (· < ·) :=
    (List.pairwise_map.mpr (candidates_sorted state)).imp₂ (fun _ _ le ne => lt_of_le_of_ne le ne) nodup
  exact List.pairwise_map.mp strict

/-! ### Expiry and the queue -/

section Expiry

variable {offered : Nat → Envelope → Prop} {since : List Disk} {nowMs : I64}

/-- Expiry leaves every sequence with one pending item. -/
theorem Expired.single (expired : Expired inner nowMs m m') (one : m.state.OneEach inner.host)
    (ready : Ready inner.key m') : repeatsSequence (candidates m'.state) = false := by
  refine repeatsSequence_of_apart ready.keyed ready.pathed.gapKeyed ready.numbered.single
    (fun noticeId gap otherId other found found' same => ?_)
    fun entry noticeId gap held found same => ?_
  · rcases expired.fresh noticeId gap found with old | ⟨entry, held, -, -, named⟩
    · rcases expired.fresh otherId other found' with old' | ⟨entry', held', -, -, named'⟩
      · exact one.gaps noticeId gap otherId other old old' same
      · rw [named'] at same
        exact absurd same.symm (one.apart entry' noticeId gap held' old)
    · rcases expired.fresh otherId other found' with old' | ⟨entry', held', -, -, named'⟩
      · rw [named] at same
        exact absurd same (one.apart entry otherId other held old')
      · rw [← ready.pathed.gapKeyed noticeId gap found,
          ← ready.pathed.gapKeyed otherId other found', named, named',
          one.entries entry entry' held held' (by rwa [named, named'] at same)]
  · rcases expired.fresh noticeId gap found with old | ⟨other, held', -, gone, named⟩
    · exact one.apart entry noticeId gap (expired.holds entry held) old same
    · rw [named] at same
      rw [one.entries entry other (expired.holds entry held) held' same] at held
      exact gone held

/-- Expiry leaves the pending items as they are: the entries that are due become the gaps they stood
for. -/
theorem Expired.pending (expired : Expired inner nowMs m m')
    (distinct : DistinctNotices inner.host offered)
    (sound : Sound inner.key inner.host offered since m) (ready : Ready inner.key m')
    (one : m.state.OneEach inner.host) (item : BatchItemV2) :
    PendingItem inner (m.state.Due nowMs) m' item ↔ PendingItem inner (m.state.Due nowMs) m item := by
  constructor
  · intro pending
    cases pending with
    | gap found =>
        rcases expired.fresh _ _ found with old | ⟨entry, held, due, -, named⟩
        · exact .gap old
        · rw [named]
          exact .expired held due
    | expired held past => exact .expired (expired.holds _ held) past
    | live held current read =>
        rw [expired.reads _ held] at read
        exact .live (expired.holds _ held) current read
  · intro pending
    cases pending with
    | gap found => exact .gap (expired.gaps _ _ found)
    | @expired entry held past =>
        rcases expired.gone entry held with kept | ⟨-, gap, found⟩
        · exact .expired kept past
        · -- the gap it has given way to is its own
          have mine := sound.backed.noticeOf held inner.host entry.expiresAtMs .retentionExpired
          have named := ready.pathed.gapKeyed _ _ found
          rcases expired.fresh _ _ found with old | ⟨other, held', -, -, told⟩
          · have same := sound.lawful.notice_seq distinct (sound.heldNotice old) mine named
            exact absurd same.symm (one.apart entry _ gap held old)
          · rw [told] at named
            have yours := sound.backed.noticeOf held' inner.host other.expiresAtMs .retentionExpired
            have same := sound.lawful.notice_seq distinct yours mine named
            rw [one.entries entry other held held' same.symm, ← told]
            exact .gap found
    | @live entry stored held current read =>
        have kept := (expired.gone entry held).resolve_right fun gone => current gone.1
        rw [← expired.reads entry kept] at read
        exact .live kept current read

/-- What expiry has counted stays due. -/
theorem Expired.due (expired : Expired inner nowMs m m') {entry : Entry}
    (held : m'.state.Holds entry) : m'.state.Due nowMs entry ↔ m.state.Due nowMs entry :=
  ⟨fun due => due.elim .inl (expired.counted entry held).mp,
    fun due => .inr ((expired.counted entry held).mpr due)⟩

theorem countExpired_foldl_counted {gaps : List GapEntry} {entries : List Entry}
    {start : OrdMap Nat RecordId × Nat}
    (counted : ∀ entry ∈ entries, start.1.contains entry.spoolSeq = true) :
    entries.foldl (countExpired gaps) start = start := by
  induction entries with
  | nil => rfl
  | cons entry rest ih =>
      have here : countExpired gaps start entry = start := by
        rw [countExpired, counted entry List.mem_cons_self]
        simp
      rw [List.foldl_cons, here]
      exact ih fun other inside => counted other (List.mem_cons_of_mem _ inside)

/-- Where everything that is due has been counted, expiry counts nothing anew. -/
theorem newlyExpired_eq_zero {state : State} (keyed : state.Keyed)
    (counted : ∀ entry, state.Holds entry → state.Due nowMs entry →
      state.countedPendingExpirations.contains entry.spoolSeq = true) :
    state.newlyExpired nowMs = 0 := by
  rw [State.newlyExpired, countExpired_foldl_counted fun entry inside => ?_]
  obtain ⟨held, due⟩ := (mem_dueEntries keyed).mp inside
  exact counted entry held due

end Expiry

/-! ### Removal and the queue -/

/-- A removal takes the items of its sequences out of the queue. -/
theorem Removed.pending {gone : Nat → Prop} {due late : Entry → Prop}
    (removed : Removed gone m.state m'.state)
    (reads : ∀ entry, m'.state.Holds entry → m'.disk.read entry.path = m.disk.read entry.path)
    (same : ∀ entry, m'.state.Holds entry → (late entry ↔ due entry)) (item : BatchItemV2) :
    PendingItem inner late m' item ↔ PendingItem inner due m item ∧ ¬ gone item.spoolSeq := by
  constructor
  · intro pending
    cases pending with
    | gap found =>
        obtain ⟨before, stays⟩ := (removed.gaps _ _).mp found
        exact ⟨.gap before, stays⟩
    | expired held past =>
        obtain ⟨before, stays⟩ := removed.holds.mp held
        exact ⟨.expired before ((same _ held).mp past), stays⟩
    | live held current read =>
        obtain ⟨before, stays⟩ := removed.holds.mp held
        rw [reads _ held] at read
        exact ⟨.live before (fun past => current ((same _ held).mpr past)) read, stays⟩
  · rintro ⟨pending, stays⟩
    cases pending with
    | gap found => exact .gap ((removed.gaps _ _).mpr ⟨found, stays⟩)
    | expired held past =>
        have after := removed.holds.mpr ⟨held, stays⟩
        exact .expired after ((same _ after).mpr past)
    | live held current read =>
        have after := removed.holds.mpr ⟨held, stays⟩
        rw [← reads _ after] at read
        exact .live after (fun past => current ((same _ after).mp past)) read

/-! ### One pull and one acknowledgement -/

section Steps

variable {offered : Nat → Envelope → Prop} {since : List Disk} {nowMs : I64}
  {queue : List BatchItemV2}

/-- No effect raises the integrity flag. -/
theorem Chain.resolved (chain : Chain inner offered m m') :
    m'.state.unresolvedIntegrity = m.state.unresolvedIntegrity := by
  refine chain.invariant (I := fun m₁ => m₁.state.unresolvedIntegrity =
    m.state.unresolvedIntegrity) (fun a b before effect => ?_) rfl
  refine Eq.trans ?_ before
  cases effect with
  | fault | writeFailed | orphaned | unsynced | setAside => rfl
  | wrote within open_ write => cases write <;> rfl
  | removed within removal =>
      simp only [Machine.update, Machine.discard_state]
      cases removal with
      | expired | acknowledged | backing =>
          simp only [State.release]
          split <;> rfl
      | gap | receipt => rfl
  | updated update => cases update <;> rfl

/-- An unblocked queue can be pulled. -/
theorem Unblocked.pullable (unblocked : Unblocked inner nowMs m queue []) :
    Pullable inner nowMs m queue :=
  { unblocked with }

/-- After expiry it makes no difference to the pending items when they are due by its count. -/
theorem Expired.pending_after (expired : Expired inner nowMs m m') (item : BatchItemV2) :
    PendingItem inner (m.state.Due nowMs) m' item ↔
      PendingItem inner (m'.state.Due nowMs) m' item :=
  ((Removed.refl m'.state).pending (fun _ _ => rfl) (fun _ held => (expired.due held).symm)
    item).trans (and_iff_left id)

/-- A queue can be pulled after expiry as well, and what is due has been counted then. -/
theorem Pullable.expired (pullable : Pullable inner nowMs m queue)
    (distinct : DistinctNotices inner.host offered)
    (sound : Sound inner.key inner.host offered since m) (ready : Ready inner.key m)
    (expired : Expired inner nowMs m m') (works : m'.Works) (ready' : Ready inner.key m') :
    Pullable inner nowMs m' queue ∧ m'.state.AllCounted nowMs := by
  have noted : m'.state.AllCounted nowMs := fun entry held due =>
    (expired.counted entry held).mpr ((expired.due held).mp due)
  have one := sound.oneEach ready distinct pullable.single
  refine ⟨?_, noted⟩
  constructor
  case isQueue =>
    refine ⟨pullable.isQueue.ordered, fun item => (pullable.isQueue.mem item).trans ?_⟩
    rw [← expired.pending distinct sound ready' one item]
    exact expired.pending_after item
  case works => exact works
  case intact => exact expired.readsBackAll pullable.intact
  case single => exact expired.single one ready'
  case resolved => exact expired.unresolved.trans pullable.resolved
  case positive => exact pullable.positive
  case counter =>
    rw [newlyExpired_eq_zero ready'.keyed noted]
    exact fun none => absurd none (lt_irrefl 0)

/-- A pull whose first item fits in a batch delivers the longest prefix of the queue. -/
theorem Pullable.pull (pullable : Pullable inner nowMs m queue)
    (distinct : DistinctNotices inner.host offered)
    (sound : Sound inner.key inner.host offered since m) (ready : Ready inner.key m)
    (short : ShortFloats inner.host.codec)
    (fits : ∀ item, queue.head? = some item →
      item.bytes inner.host ≤ inner.config.batchMaxBytes) (restarts : Nat) :
    ∃ batch m₁ items, (nextBatchV2 inner (restarts + 1) nowMs).run m = .ok batch m₁ ∧
      Chain inner noOffers m m₁ ∧ Expired inner nowMs m m₁ ∧ Pullable inner nowMs m₁ queue ∧
      m₁.state.AllCounted nowMs ∧ (buildBatchV2 inner (restarts + 1)).run m₁ = .ok batch m₁ ∧
      BatchOf inner m₁ batch items ∧
      DeliversPrefix inner (m.state.Due nowMs) m₁ batch queue items ∧
      (queue ≠ [] → items ≠ []) := by
  have one := sound.oneEach ready distinct pullable.single
  have separate := ready.numbered.separate ready.pathed
  have returns := @post_expireDueLocked_works inner m nowMs pullable.works ready.keyed separate
    (by
      rintro entry held ⟨noticeId, gap, found, same⟩
      exact one.apart entry noticeId gap held found same.symm)
    pullable.counter
  cases ran : expireDueLocked inner nowMs m with
  | error error m₁ => exact (returns.of_error ran).elim
  | ok count m₁ =>
      have expired := (post_expireDueLocked_expired ready.keyed separate).of_ok ran
      have chain := (@post_expireDueLocked inner noOffers m nowMs ready.keyed
        ready.numbered).of_ok ran
      have sound₁ := chain.offering.sound distinct sound
      have ready₁ := chain.ready ready
      obtain ⟨pullable₁, noted⟩ :=
        pullable.expired distinct sound ready expired (returns.of_ok ran) ready₁
      obtain ⟨listed, stands⟩ := pullable₁.intact.items ready₁.keyed
      have isQueue := queue_of_items ready₁.keyed (fun entry held => ⟨.inr, noted entry held⟩)
        pullable₁.single stands
      obtain rfl := isQueue.unique pullable₁.isQueue fun _ => Iff.rfl
      have modest := sound₁.modest ready₁.keyed short (fun _ inside => inside) stands
      have building := @post_buildBatchV2_intact inner m₁ restarts listed ready₁.keyed ready₁.pathed
        stands modest
      cases built : (buildBatchV2 inner (restarts + 1)).run m₁ with
      | error error m₂ =>
          -- nothing that makes a build fail is there
          obtain ⟨-, ⟨-, flagged | repeats⟩ | ⟨-, item, first, large⟩⟩ := building.of_error built
          · rw [pullable₁.resolved] at flagged
            cases flagged
          · rw [pullable₁.single] at repeats
            cases repeats
          · exact absurd large (not_lt.mpr (fits item first))
      | ok batch m₂ =>
          obtain ⟨rfl, items, whole⟩ := building.of_ok built
          have began : (expireDue inner nowMs).run m = .ok count m₂ := by
            rw [expireDue, Call.run_atomic]
            exact ran
          have delivers : DeliversPrefix inner (m.state.Due nowMs) m₂ batch listed items :=
            ⟨queue_of_items ready₁.keyed expired.counted pullable₁.single stands,
              whole.window stands modest, whole.records, whole.gaps⟩
          refine ⟨batch, m₂, items, (run_bind_of_ok began).trans built, chain, expired, pullable₁,
            noted, built, whole, delivers, fun some => ?_⟩
          refine whole.progress pullable₁.positive fun none => some ?_
          rw [none] at stands
          exact List.forall₂_nil_left_iff.mp stands

/-- A merged item stands for an item of a batch. -/
def BatchItemV2.merged : BatchItemV2 → MergedItem
  | .record delivered => ⟨delivered.spoolSeq, true, delivered.recordId⟩
  | .gap notice => ⟨notice.spoolSeq, false, notice.noticeId⟩

theorem BatchItemV2.merged_spoolSeq (item : BatchItemV2) : item.merged.spoolSeq = item.spoolSeq := by
  cases item <;> rfl

/-- The merged items of a batch are its items in their order. -/
theorem BatchOf.merged {batch : HubBatchV2} {items : List BatchItemV2}
    (built : BatchOf inner m batch items) :
    mergedItems batch.records batch.gaps = items.map BatchItemV2.merged := by
  have perm : ∀ items : List BatchItemV2, (items.map BatchItemV2.merged).Perm
      ((items.filterMap BatchItemV2.record?).map
          (fun record => (⟨record.spoolSeq, true, record.recordId⟩ : MergedItem)) ++
        (items.filterMap BatchItemV2.gap?).map fun gap => ⟨gap.spoolSeq, false, gap.noticeId⟩) := by
    intro items
    induction items with
    | nil => exact .nil
    | cons item rest ih =>
        cases item with
        | record delivered => exact ih.cons _
        | gap notice => exact (ih.cons _).trans List.perm_middle.symm
  have ordered : (items.map BatchItemV2.merged).Pairwise fun a b => a.spoolSeq < b.spoolSeq := by
    refine List.pairwise_map.mpr (built.ordered.imp fun below => ?_)
    rwa [BatchItemV2.merged_spoolSeq, BatchItemV2.merged_spoolSeq]
  refine (mergedItems_perm.trans ?_).eq_of_pairwise (fun a b listed inside first second => ?_)
    (pairwise_sortBySeq _ _) (ordered.imp le_of_lt)
  · rw [built.records, built.gaps]
    exact (perm items).symm
  · have distinct : ((items.map BatchItemV2.merged).map MergedItem.spoolSeq).Nodup :=
      List.pairwise_map.mpr (ordered.imp ne_of_lt)
    have here : a ∈ items.map BatchItemV2.merged := by
      have there := mergedItems_perm.mem_iff.mp listed
      rw [built.records, built.gaps] at there
      exact (perm items).mem_iff.mpr there
    exact List.inj_on_of_nodup_map distinct here inside (le_antisymm first second)

/-- The sequences of a front are those of the first items. -/
theorem BatchOf.front_sequences {batch : HubBatchV2} {items : List BatchItemV2}
    (built : BatchOf inner m batch items) (k s : Nat) :
    s ∈ (batch.front k).map (·.spoolSeq) ↔ s ∈ (items.take k).map BatchItemV2.spoolSeq := by
  rw [HubBatchV2.front, built.merged, ← List.map_take, List.map_map]
  have same : (fun item : MergedItem => item.spoolSeq) ∘ BatchItemV2.merged =
      BatchItemV2.spoolSeq := funext BatchItemV2.merged_spoolSeq
  rw [same]

/-- While no receipt stands under the identity of a batch that was just built, the acknowledgement of a
front of it is answered with what it lists, and takes just the items of the front away. -/
theorem Pullable.acknowledge (pullable : Pullable inner nowMs m queue)
    (distinct : DistinctNotices inner.host offered) (faithful : FaithfulIds inner.host offered)
    (sound : Sound inner.key inner.host offered since m) (ready : Ready inner.key m)
    (noted : m.state.AllCounted nowMs) {restarts : Nat} {batch : HubBatchV2}
    {items : List BatchItemV2} (ran : (buildBatchV2 inner restarts).run m = .ok batch m)
    (built : BatchOf inner m batch items) (front : items <+: queue)
    (fresh : m.state.receipts.get? batch.batchId = none)
    (room : m.state.nextReceiptSequence < u64Max) {k : Nat} (inside : k ≤ items.length) :
    ∃ m₁, (acknowledgeV2 inner restarts (batch.ackFront k)).run m =
        .ok (batch.ackFront k).result m₁ ∧
      Chain inner noOffers m m₁ ∧ Pullable inner nowMs m₁ (queue.drop k) ∧
      m₁.state.nextReceiptSequence = m.state.nextReceiptSequence + 1 ∧
      ∀ batchId entry, m₁.state.receipts.get? batchId = some entry →
        batchId = batch.batchId ∨ m.state.receipts.get? batchId = some entry := by
  set ack := batch.ackFront k with ack_eq
  have single := sound.distinct_batch ready.keyed distinct faithful built
  have named : ack.Names batch k := batch.ackFront_names _
  have accepts : ack.AcceptsFront batch :=
    ⟨rfl, single.kind _ _, single.kind _ _, rfl, _, named⟩
  have unspent : m.state.receipts.get? ack.batchId = none := fresh
  have answers := sound.acknowledged ready distinct faithful pullable.works room built ran unspent
  cases answered : (acknowledgeV2 inner restarts ack).run m with
  | error error m₁ => exact absurd accepts (answers.of_error answered).1
  | ok result m₁ =>
      obtain ⟨-, works, rfl, same, allocated, receipts⟩ := answers.of_ok answered
      have chain := (post_acknowledgeV2 ready).of_ok answered
      have ready₁ := chain.ready ready
      have removed := ((sound.removed_receipt ready distinct built single accepts.2.2.1 named
        m.state.nextReceiptSequence).of_sameHoldings same).congr (built.front_sequences k)
      have reads : ∀ entry, m₁.state.Holds entry →
          m₁.disk.read entry.path = m.disk.read entry.path := by
        intro entry held
        obtain ⟨stored, read⟩ := pullable.intact entry (removed.holds.mp held).1
        exact chain.keeps_file ready.pathed read held
      have counts : ∀ entry, m₁.state.Holds entry →
          (m₁.state.countedPendingExpirations.contains entry.spoolSeq = true ↔
            m.state.countedPendingExpirations.contains entry.spoolSeq = true) := by
        intro entry held
        rw [OrdMap.contains_iff, OrdMap.contains_iff]
        refine exists_congr fun identity => (removed.counted _ _).trans (and_iff_left ?_)
        exact fun gone => (removed.holds.mp held).2 gone.1
      have due : ∀ entry, m₁.state.Holds entry →
          (m₁.state.Due nowMs entry ↔ m.state.Due nowMs entry) := fun entry held =>
        or_congr_right (counts entry held)
      have one := removed.oneEach (sound.oneEach ready distinct pullable.single)
      refine ⟨m₁, rfl, chain, ?_, allocated, receipts⟩
      constructor
      case isQueue =>
        refine ⟨pullable.isQueue.ordered.sublist (List.drop_sublist _ _), fun item => ?_⟩
        have taken : items.take k <+: queue := (List.take_prefix k items).trans front
        have behind := @mem_drop_of_ordered _ _ pullable.isQueue.ordered taken item
        rw [List.length_take, min_eq_left inside] at behind
        rw [behind, pullable.isQueue.mem, removed.pending reads due]
      case works => exact works
      case intact =>
        intro entry held
        rw [reads entry held]
        exact pullable.intact entry (removed.holds.mp held).1
      case single =>
        exact repeatsSequence_of_apart ready₁.keyed ready₁.pathed.gapKeyed one.entries one.gaps
          one.apart
      case resolved => exact chain.resolved.trans pullable.resolved
      case positive => exact pullable.positive
      case counter =>
        rw [newlyExpired_eq_zero ready₁.keyed fun entry held past => (counts entry held).mpr
          (noted entry (removed.holds.mp held).1 ((due entry held).mp past))]
        exact fun none => absurd none (lt_irrefl 0)

/-- Nothing blocks a queue after a pull either. -/
theorem Unblocked.expired (unblocked : Unblocked inner nowMs m queue [])
    (expired : Expired inner nowMs m m') (pullable : Pullable inner nowMs m' queue) :
    Unblocked inner nowMs m' queue [] :=
  { pullable with
    fits := unblocked.fits
    unspent := fun items within some => by
      rw [expired.receipts]
      exact unblocked.unspent items within some
    room := by
      rw [expired.allocated]
      exact unblocked.room }

/-- Nothing blocks the rest of a queue after its first items have been acknowledged. -/
theorem Unblocked.behind (unblocked : Unblocked inner nowMs m queue [])
    (tells : TellsBatches inner.host queue) {items : List BatchItemV2} (front : items <+: queue)
    (some : items ≠ []) (pullable : Pullable inner nowMs m' (queue.drop items.length))
    (allocated : m'.state.nextReceiptSequence = m.state.nextReceiptSequence + 1)
    (receipts : ∀ batchId entry, m'.state.receipts.get? batchId = .some entry →
      batchId = batchIdOf inner.host items ∨ m.state.receipts.get? batchId = .some entry) :
    Unblocked inner nowMs m' (queue.drop items.length) [] := by
  refine { pullable with fits := ?_, unspent := ?_, room := ?_ }
  · intro item inside
    rw [List.append_nil] at inside
    exact unblocked.fits item (List.mem_append_left _ (List.mem_of_mem_drop inside))
  · intro later within more
    rw [List.append_nil] at within
    have inQueue : later <:+: queue := within.trans (List.drop_suffix _ _).isInfix
    cases found : m'.state.receipts.get? (batchIdOf inner.host later) with
    | none => rfl
    | some entry =>
        rcases receipts _ _ found with spent | old
        · -- the new receipt is that of items that have gone
          obtain rfl := tells later items inQueue front.isInfix spent
          obtain ⟨item, inside⟩ := List.exists_mem_of_ne_nil later more
          have behind := (mem_drop_of_ordered unblocked.isQueue.ordered front).mp
            (within.subset inside)
          exact absurd (List.mem_map_of_mem inside) behind.2
        · rw [unblocked.unspent later (by rwa [List.append_nil]) more] at old
          cases old
  · have room := unblocked.room
    have least := List.length_pos_of_ne_nil some
    rw [List.append_nil] at room
    rw [List.append_nil, allocated, List.length_drop]
    have shorter := front.length_le
    omega

/-- An unblocked queue can be emptied: pulls, each followed by the acknowledgement of its whole batch,
deliver its items in order. -/
theorem Unblocked.rounds (unblocked : Unblocked inner nowMs m queue [])
    (distinct : DistinctNotices inner.host offered) (faithful : FaithfulIds inner.host offered)
    (sound : Sound inner.key inner.host offered since m) (ready : Ready inner.key m)
    (short : ShortFloats inner.host.codec) (tells : TellsBatches inner.host queue) :
    ∃ m', Rounds inner nowMs m queue m' ∧ m'.state.Drained := by
  -- every round takes at least one item away
  induction length : queue.length using Nat.strong_induction_on generalizing m queue with
  | _ n ih =>
      by_cases none : queue = []
      · subst none
        exact ⟨m, .done m, unblocked.isQueue.drained ready.keyed unblocked.intact⟩
      · have fits : ∀ item, queue.head? = some item →
            item.bytes inner.host ≤ inner.config.batchMaxBytes := fun item first =>
          unblocked.fits item (List.mem_append_left _ (List.mem_of_mem_head? first))
        obtain ⟨batch, m₁, items, pulled, chain, expired, pullable, noted, ran, built, delivers,
          progress⟩ := unblocked.pullable.pull distinct sound ready short fits 0
        have front := delivers.window.front
        have some := progress none
        have sound₁ := chain.offering.sound distinct sound
        have ready₁ := chain.ready ready
        have unblocked₁ := unblocked.expired expired pullable
        have identity : batch.batchId = batchIdOf inner.host items := by
          rw [batchIdOf, ← built.records, ← built.gaps, ← built.batchId]
        have length₁ : 0 < queue.length := List.length_pos_of_ne_nil none
        have room : m₁.state.nextReceiptSequence < u64Max := by
          have room := unblocked₁.room
          rw [List.append_nil] at room
          omega
        have fresh : m₁.state.receipts.get? batch.batchId = .none := by
          rw [identity]
          exact unblocked₁.unspent items (by rw [List.append_nil]; exact front.isInfix) some
        obtain ⟨m₂, acknowledged, chain', pullable₂, allocated, receipts⟩ :=
          pullable.acknowledge distinct faithful sound₁ ready₁ noted ran built front fresh room le_rfl
        rw [identity] at receipts
        have unblocked₂ := unblocked₁.behind tells front some pullable₂ allocated receipts
        have shorter : (queue.drop items.length).length < n := by
          have least := List.length_pos_of_ne_nil some
          rw [List.length_drop]
          omega
        obtain ⟨m', rest, drained⟩ := ih _ shorter unblocked₂
          (chain'.offering.sound distinct sound₁) (chain'.ready ready₁)
          (fun a b within within' => tells a b (within.trans (List.drop_suffix _ _).isInfix)
            (within'.trans (List.drop_suffix _ _).isInfix)) rfl
        refine ⟨m', ?_, drained⟩
        rw [← List.prefix_iff_eq_append.mp front]
        exact .pulled pulled ⟨built.records, built.gaps⟩ acknowledged rest

/-- An unblocked queue can be drained. -/
theorem Unblocked.drains (unblocked : Unblocked inner nowMs m queue [])
    (distinct : DistinctNotices inner.host offered) (faithful : FaithfulIds inner.host offered)
    (sound : Sound inner.key inner.host offered since m) (ready : Ready inner.key m)
    (short : ShortFloats inner.host.codec) (tells : TellsBatches inner.host queue) :
    ∃ batches m', Drained inner nowMs m batches m' ∧ m'.state.Drained := by
  obtain ⟨m', rounds, drained⟩ := unblocked.rounds distinct faithful sound ready short tells
  obtain ⟨batches, drains⟩ := rounds.drained
  exact ⟨batches, m', drains, drained⟩

end Steps

end TeslatlasEdge
