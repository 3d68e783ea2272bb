/-
Module: TeslatlasEdge.Delivery
Purpose: What a v2 pull delivers.  The pending items form one queue in sequence order, a pull returns
  the longest prefix of it within the limits of a batch, and more admissions leave a full batch alone.
Trusted boundary: none
Main exports: PendingItem, Queue, nextBatchV2_longest_prefix, nextBatchV2_tells_counted_as_gap
-/
import TeslatlasEdge.Spool.Expiry
import TeslatlasEdge.Spool.Windows
import TeslatlasEdge.Ledger

namespace TeslatlasEdge

open Lib

/-! ### The queue -/

/-- An item the Hub is to be told of, when the entries that satisfy `due` count as expired. -/
inductive PendingItem (inner : Inner) (due : Entry → Prop) (m : Machine) : BatchItemV2 → Prop where
  | gap {noticeId : RecordId} {gap : GapEntry} (found : m.state.gaps.get? noticeId = some gap) :
      PendingItem inner due m (.gap gap.notice)
  | expired {entry : Entry} (held : m.state.Holds entry) (past : due entry) :
      PendingItem inner due m
        (.gap (gapNotice inner.host entry entry.expiresAtMs .retentionExpired))
  | live {entry : Entry} {stored : StoredRecord F64} (held : m.state.Holds entry)
      (current : ¬ due entry)
      (read : decodeEntry inner entry (m.disk.read entry.path) = .ok stored) :
      PendingItem inner due m (.record
        { recordId := entry.stableRecordId
          legacyRecordId := entry.recordId
          spoolSeq := entry.spoolSeq
          receivedAtMs := stored.admittedAtMs
          envelope := stored.envelope })

/-- The pending items, one for each sequence, in sequence order. -/
structure Queue (inner : Inner) (due : Entry → Prop) (m : Machine) (queue : List BatchItemV2) :
    Prop where
  ordered : queue.Pairwise fun a b => a.spoolSeq < b.spoolSeq
  mem : ∀ item, item ∈ queue ↔ PendingItem inner due m item

section Queue

variable {inner : Inner} {m : Machine}

/-- A sorted list without equal neighbours is strictly increasing. -/
theorem pairwise_lt_of_repeatsSequence {cands : List BatchCandidateV2}
    (sorted : cands.Pairwise fun a b => a.spoolSeq ≤ b.spoolSeq)
    (single : repeatsSequence cands = false) :
    cands.Pairwise fun a b => a.spoolSeq < b.spoolSeq := by
  induction cands with
  | nil => exact .nil
  | cons first rest ih =>
      obtain ⟨below, sorted⟩ := List.pairwise_cons.mp sorted
      cases rest with
      | nil => exact List.pairwise_singleton _ _
      | cons second rest =>
          simp only [repeatsSequence, Bool.or_eq_false_iff, decide_eq_false_iff_not] at single
          have later := ih sorted single.2
          have next : first.spoolSeq < second.spoolSeq :=
            lt_of_le_of_ne (below second List.mem_cons_self) single.1
          refine List.pairwise_cons.mpr ⟨fun other inside => ?_, later⟩
          rcases List.mem_cons.mp inside with rfl | inside
          · exact next
          · exact next.trans ((List.pairwise_cons.mp later).1 other inside)

/-- Candidates are ordered by sequence. -/
theorem candidates_sorted (state : State) :
    (candidates state).Pairwise fun a b => a.spoolSeq ≤ b.spoolSeq :=
  pairwise_sortBySeq _ _

/-- Where no sequence repeats they are strictly ordered. -/
theorem candidates_ordered {state : State} (single : repeatsSequence (candidates state) = false) :
    (candidates state).Pairwise fun a b => a.spoolSeq < b.spoolSeq :=
  pairwise_lt_of_repeatsSequence (candidates_sorted state) single

theorem pairwise_of_forall₂ {α β : Type} {R : α → β → Prop} {p : α → Nat} {q : β → Nat}
    {left : List α} {right : List β} (related : List.Forall₂ R left right)
    (same : ∀ a b, R a b → q b = p a) (ordered : left.Pairwise fun a b => p a < p b) :
    right.Pairwise fun a b => q a < q b := by
  have equal : right.map q = left.map p := (map_eq_of_forall₂ related fun a b holds =>
    (same a b holds).symm).symm
  rw [← List.pairwise_map (f := q) (R := (· < ·)), equal]
  exact List.pairwise_map.mpr ordered

/-- Every element on the left of a relation has its partner on the right. -/
theorem exists_right_of_mem_forall₂ {α β : Type} {R : α → β → Prop} {left : List α}
    {right : List β} (related : List.Forall₂ R left right) {a : α} (inside : a ∈ left) :
    ∃ b ∈ right, R a b := by
  obtain ⟨b, there, holds⟩ := exists_of_mem_forall₂ related.flip inside
  exact ⟨b, there, holds⟩

/-- The items of the candidates are the queue. -/
theorem queue_of_items {due : Entry → Prop} {queue : List BatchItemV2} (keyed : m.state.Keyed)
    (counted : ∀ entry, m.state.Holds entry →
      (m.state.countedPendingExpirations.contains entry.spoolSeq = true ↔ due entry))
    (single : repeatsSequence (candidates m.state) = false)
    (stands : ItemsOf inner m (candidates m.state) queue) : Queue inner due m queue := by
  refine ⟨pairwise_of_forall₂ stands (fun _ _ delivers => delivers.spoolSeq)
    (candidates_ordered single), fun item => ⟨fun inside => ?_, fun pending => ?_⟩⟩
  · obtain ⟨candidate, there, delivers⟩ := exists_of_mem_forall₂ stands inside
    cases delivers with
    | gap notice =>
        obtain ⟨gap, held, rfl⟩ := mem_candidates_gap.mp there
        obtain ⟨noticeId, found⟩ := OrdMap.mem_values_iff.mp held
        exact .gap found
    | backing expired =>
        have held := keyed.holds (mem_candidates_record.mp there)
        exact .expired held ((counted _ held).mp expired)
    | record live read =>
        have held := keyed.holds (mem_candidates_record.mp there)
        refine .live held (fun past => ?_) read
        rw [(counted _ held).mpr past] at live
        cases live
  · cases pending with
    | gap found =>
        have there := mem_candidates_gap.mpr ⟨_, OrdMap.mem_values_iff.mpr ⟨_, found⟩, rfl⟩
        obtain ⟨item, inside, delivers⟩ := exists_right_of_mem_forall₂ stands there
        cases delivers
        exact inside
    | @expired entry held past =>
        have there := mem_candidates_record.mpr (OrdMap.mem_values_iff.mpr ⟨_, held⟩)
        obtain ⟨item, inside, delivers⟩ := exists_right_of_mem_forall₂ stands there
        cases delivers with
        | backing => exact inside
        | record live =>
            rw [(counted _ held).mpr past] at live
            cases live
    | @live entry stored held current read =>
        have there := mem_candidates_record.mpr (OrdMap.mem_values_iff.mpr ⟨_, held⟩)
        obtain ⟨item, inside, delivers⟩ := exists_right_of_mem_forall₂ stands there
        cases delivers with
        | backing expired => exact absurd ((counted _ held).mp expired) current
        | record _ read' =>
            rw [read] at read'
            obtain rfl := Except.ok.inj read'
            exact inside

end Queue

/-! ### Batches of a sound machine -/

section Sound

variable {inner : Inner} {offered : Nat → Envelope → Prop} {since : List Disk} {m m' : Machine}

theorem Lawful.wellFormed {key : EncryptionKey} {host : Host} {d : Disk} {older : List Disk}
    (law : Lawful key host offered d older) {notice : GapNoticeV2}
    (known : NoticeOf key host (d :: older) notice) : notice.WellFormed := by
  obtain ⟨record, identity, admitted, -, named⟩ := known
  rw [named]
  exact gapNoticeForIdentity_wellFormed (law.origin _ _ admitted).2.1.le _ _ _

/-- No pending item is so long that adding up a batch could overflow. -/
theorem Sound.modest (sound : Sound inner.key inner.host offered since m)
    (keyed : m.state.Keyed) (short : ShortFloats inner.host.codec)
    {taken : List BatchCandidateV2} (within : taken ⊆ candidates m.state)
    {queue : List BatchItemV2} (stands : ItemsOf inner m taken queue) :
    Modest inner.host queue := by
  intro item inside
  obtain ⟨candidate, listed, delivers⟩ := exists_of_mem_forall₂ stands inside
  have there := within listed
  have gap : ∀ notice, NoticeOf inner.key inner.host m.timeline notice →
      encodedSize inner.host (notice.toJson : Value) ≤ 2 ^ 40 := fun notice known =>
    (encodedSize_gap_le inner.host (sound.lawful.wellFormed known)).trans (by norm_num)
  cases delivers with
  | gap notice =>
      obtain ⟨held, here, rfl⟩ := mem_candidates_gap.mp there
      obtain ⟨noticeId, found⟩ := OrdMap.mem_values_iff.mp here
      exact gap _ (sound.heldNotice found)
  | backing =>
      have held := keyed.holds (mem_candidates_record.mp there)
      exact gap _ (sound.backed.noticeOf held _ _ _)
  | record live read =>
      have held := keyed.holds (mem_candidates_record.mp there)
      obtain ⟨record, admitted, -⟩ := sound.backed.entry _ held
      obtain ⟨body, -, intact⟩ := decodeEntry_eq_ok read
      have bounded := (sound.lawful.origin _ _ admitted).2.1.le
      exact (intact.encodedSize_recordV2_le short bounded).trans (by norm_num)

/-- Images that tell the elements of an ordered list apart are distinct. -/
theorem nodup_map_of_ordered {α β : Type} {items : List α} {seq : α → Nat} {f : α → β}
    (ordered : items.Pairwise fun a b => seq a < seq b)
    (told : ∀ a ∈ items, ∀ b ∈ items, f a = f b → seq a = seq b) : (items.map f).Nodup := by
  refine List.pairwise_map.mpr (ordered.imp_of_mem ?_)
  intro a b inside inside' below same
  exact absurd (told a inside b inside' same) below.ne

/-- The batch is the longest prefix of the queue within its limits. -/
structure DeliversPrefix (inner : Inner) (due : Entry → Prop) (m : Machine) (batch : HubBatchV2)
    (queue items : List BatchItemV2) : Prop where
  isQueue : Queue inner due m queue
  window : Window (FitsV2 inner) queue items
  records : batch.records = items.filterMap BatchItemV2.record?
  gaps : batch.gaps = items.filterMap BatchItemV2.gap?

/-- No sequence and no identity occurs twice in a batch. -/
structure HubBatchV2.Distinct (batch : HubBatchV2) : Prop where
  sequences : (batch.records.map (·.spoolSeq) ++ batch.gaps.map (·.spoolSeq)).Nodup
  recordIds : (batch.records.map (·.recordId)).Nodup
  noticeIds : (batch.gaps.map (·.noticeId)).Nodup

/-- The sequences of items are those of the records and those of the gaps. -/
theorem perm_sequences (items : List BatchItemV2) :
    (items.map BatchItemV2.spoolSeq).Perm
      ((items.filterMap BatchItemV2.record?).map (·.spoolSeq) ++
        (items.filterMap BatchItemV2.gap?).map (·.spoolSeq)) := by
  induction items with
  | nil => exact .nil
  | cons item rest ih =>
      cases item with
      | record delivered => exact ih.cons _
      | gap notice => exact (ih.cons _).trans List.perm_middle.symm

/-- The items of a batch stand in sequence order. -/
theorem BatchOf.ordered {batch : HubBatchV2} {items : List BatchItemV2}
    (built : BatchOf inner m batch items) : items.Pairwise fun a b => a.spoolSeq < b.spoolSeq :=
  pairwise_of_forall₂ built.delivers (fun _ _ delivers => delivers.spoolSeq)
    ((candidates_ordered built.single).sublist (List.take_sublist _ _))

/-- A batch names no identity and no sequence twice. -/
theorem Sound.distinct_batch (sound : Sound inner.key inner.host offered since m)
    (keyed : m.state.Keyed) (distinct : DistinctNotices inner.host offered)
    (faithful : FaithfulIds inner.host offered) {batch : HubBatchV2} {items : List BatchItemV2}
    (built : BatchOf inner m batch items) : batch.Distinct := by
  have ordered := built.ordered
  have records : batch.records.Pairwise fun a b => a.spoolSeq < b.spoolSeq := by
    rw [built.records]
    refine ordered.filterMap BatchItemV2.record? ?_
    intro a b below x first y second
    cases a with
    | gap => cases first
    | record delivered =>
        cases b with
        | gap => cases second
        | record delivered' =>
            obtain rfl := Option.some.inj first
            obtain rfl := Option.some.inj second
            exact below
  have gaps : batch.gaps.Pairwise fun a b => a.spoolSeq < b.spoolSeq := by
    rw [built.gaps]
    refine ordered.filterMap BatchItemV2.gap? ?_
    intro a b below x first y second
    cases a with
    | record => cases first
    | gap notice =>
        cases b with
        | record => cases second
        | gap notice' =>
            obtain rfl := Option.some.inj first
            obtain rfl := Option.some.inj second
            exact below
  refine ⟨?_, nodup_map_of_ordered records fun a inside b inside' same => ?_,
    nodup_map_of_ordered gaps fun a inside b inside' same => ?_⟩
  · rw [built.records, built.gaps]
    refine (perm_sequences items).nodup_iff.mp ?_
    exact nodup_map_of_ordered ordered fun _ _ _ _ same => same
  · obtain ⟨entry, held, -, stable, -, sequence, -⟩ := built.record_source keyed inside
    obtain ⟨other, held', -, stable', -, sequence', -⟩ := built.record_source keyed inside'
    have accounts := sound.accounts faithful
    have mine := accounts.indexed entry held
    have yours := accounts.indexed other held'
    rw [← stable, same, stable', yours] at mine
    rw [State.Holds, ← Option.some.inj mine, held'] at held
    rw [sequence, sequence', Option.some.inj held]
  · have known : ∀ notice ∈ batch.gaps, NoticeOf inner.key inner.host m.timeline notice :=
      fun notice inside => sound.reported (built.gap_source keyed inside)
    exact sound.lawful.notice_seq distinct (known a inside) (known b inside') same

end Sound

/-! ### A pull delivers the longest prefix -/

section Pull

variable {inner : Inner} {m m' : Machine}

/-- A call that returns has returned from each of its parts. -/
theorem run_bind_ok {α β : Type} {first : SpoolCall α} {next : α → SpoolCall β} {b : β}
    (ran : (first >>= next).run m = .ok b m') :
    ∃ a m₁, first.run m = .ok a m₁ ∧ (next a).run m₁ = .ok b m' := by
  rw [Call.run_bind] at ran
  change EStateM.bind first.run (fun a => (next a).run) m = _ at ran
  unfold EStateM.bind at ran
  split at ran
  · exact ⟨_, _, ‹_›, ran⟩
  · cases ran

/-- A call goes on from where its first part returned. -/
theorem run_bind_of_ok {α β : Type} {first : SpoolCall α} {next : α → SpoolCall β} {a : α}
    (ran : first.run m = .ok a m') : (first >>= next).run m = (next a).run m' := by
  rw [Call.run_bind]
  change EStateM.bind first.run (fun a => (next a).run) m = _
  rw [EStateM.bind, ran]

theorem State.Numbered.separate {state : State} (numbered : state.Numbered)
    (pathed : state.Pathed) : state.Separate :=
  ⟨pathed.entries, numbered.single⟩

/-- Expiry leaves files that read back. -/
theorem Expired.readsBackAll {nowMs : I64} (expired : Expired inner nowMs m m')
    (intact : ReadsBackAll inner m) : ReadsBackAll inner m' := by
  intro entry held
  obtain ⟨stored, read⟩ := intact entry (expired.holds entry held)
  exact ⟨stored, by rw [expired.reads entry held]; exact read⟩

/-- A batch built while every file reads back: nothing has changed, and the batch is the longest
prefix of the queue. -/
theorem Sound.built {offered : Nat → Envelope → Prop} {since : List Disk} {due : Entry → Prop}
    {restarts : Nat} {batch : HubBatchV2} (sound : Sound inner.key inner.host offered since m)
    (ready : Ready inner.key m) (short : ShortFloats inner.host.codec)
    (intact : ReadsBackAll inner m)
    (counted : ∀ entry, m.state.Holds entry →
      (m.state.countedPendingExpirations.contains entry.spoolSeq = true ↔ due entry))
    (ran : (buildBatchV2 inner restarts).run m = .ok batch m') :
    m' = m ∧ ∃ queue items, BatchOf inner m batch items ∧
      DeliversPrefix inner due m batch queue items := by
  obtain ⟨queue, stands⟩ := intact.items ready.keyed
  have modest := sound.modest ready.keyed short (fun _ inside => inside) stands
  cases restarts with
  | zero => cases ran
  | succ restarts =>
      obtain ⟨rfl, items, built⟩ :=
        (post_buildBatchV2_intact ready.keyed ready.pathed stands modest).of_ok ran
      exact ⟨rfl, queue, items, built, queue_of_items ready.keyed counted built.single stands,
        built.window stands modest, built.records, built.gaps⟩

/-- A pull first expires what is due and then builds a batch. -/
theorem Sound.pulled {offered : Nat → Envelope → Prop} {since : List Disk} {restarts : Nat}
    {nowMs : I64} {batch : HubBatchV2} (sound : Sound inner.key inner.host offered since m)
    (ready : Ready inner.key m) (distinct : DistinctNotices inner.host offered)
    (short : ShortFloats inner.host.codec) (intact : ReadsBackAll inner m)
    (ran : (nextBatchV2 inner restarts nowMs).run m = .ok batch m') :
    (∃ count, (expireDue inner nowMs).run m = .ok count m') ∧
      Expired inner nowMs m m' ∧ ReadsBackAll inner m' ∧
      Sound inner.key inner.host offered since m' ∧ Ready inner.key m' ∧
      (buildBatchV2 inner restarts).run m' = .ok batch m' ∧
      ∃ queue items, BatchOf inner m' batch items ∧
        DeliversPrefix inner (m.state.Due nowMs) m' batch queue items := by
  obtain ⟨count, m₁, began, ran⟩ := run_bind_ok ran
  have locked : expireDueLocked inner nowMs m = .ok count m₁ := by
    rwa [expireDue, Call.run_atomic] at began
  have expired := (post_expireDueLocked_expired ready.keyed
    (ready.numbered.separate ready.pathed)).of_ok locked
  have chain := (@post_expireDueLocked inner noOffers m nowMs ready.keyed ready.numbered).of_ok locked
  have later := chain.offering.sound distinct sound
  have ready₁ := chain.ready ready
  have intact₁ := expired.readsBackAll intact
  obtain ⟨rfl, queue, items, built, delivers⟩ :=
    later.built ready₁ short intact₁ expired.counted ran
  exact ⟨⟨count, began⟩, expired, intact₁, later, ready₁, ran, queue, items, built, delivers⟩

end Pull

/-- A pull delivers the longest prefix of the pending items that fits: every entry past its deadline,
or counted as expired before, is told of as a gap, and every other entry is delivered as a record. -/
theorem nextBatchV2_longest_prefix {key : EncryptionKey} {host : Host} {w : World}
    (reach : Reach (UnderKey key host) w) (distinct : DistinctNotices host w.Offered)
    (faithful : FaithfulIds host w.Offered) (short : ShortFloats host.codec) {process : Process}
    (running : w.process = some process) {faults : Faults} {restarts : Nat} {nowMs : I64}
    (intact : ReadsBackAll process.inner (w.machine process faults)) {batch : HubBatchV2}
    {m' : Machine}
    (ran : (nextBatchV2 process.inner restarts nowMs).run (w.machine process faults) =
      .ok batch m') :
    (∃ count, (expireDue process.inner nowMs).run (w.machine process faults) = .ok count m') ∧
      (∃ queue items,
        DeliversPrefix process.inner (process.state.Due nowMs) m' batch queue items) ∧
      batch.Distinct ∧
      ∀ record ∈ batch.records, ∀ entry, process.state.Holds entry →
        entry.spoolSeq = record.spoolSeq → nowMs.val ≤ entry.expiresAtMs.val := by
  obtain ⟨rfl, rfl, backing⟩ := (reach.kept distinct).running process running
  obtain ⟨sound, ready⟩ := backing faults
  obtain ⟨began, expired, -, sound', ready', -, queue, items, built, delivers⟩ :=
    sound.pulled ready distinct short intact ran
  refine ⟨began, ⟨queue, items, delivers⟩,
    sound'.distinct_batch ready'.keyed distinct faithful built, ?_⟩
  intro record inside entry held sequence
  rw [delivers.records, List.mem_filterMap] at inside
  obtain ⟨item, here, same⟩ := inside
  have pending := (delivers.isQueue.mem item).mp (delivers.window.front.subset here)
  cases pending with
  | gap | expired => cases same
  | @live other stored held' current read =>
      obtain rfl := Option.some.inj same
      have before := expired.holds other held'
      rw [ready.numbered.single entry other held before sequence]
      exact not_lt.mp fun past => current (.inl past)

/-! ### Pulls that can be evaluated -/

/-- The world in which a pull has just delivered a batch. -/
def World.pulled (w : World) (process : Process) (restarts : Nat) (nowMs : I64) (batch : HubBatchV2)
    (after : Machine) : World :=
  after.running process.inner
    (⟨process.state.nextSpoolSequence, .nextBatchV2 restarts nowMs, some (.ok (.batchV2 batch))⟩ ::
      w.log)

theorem World.step_pulled {w : World} {process : Process} {faults : Faults} {restarts : Nat}
    {nowMs : I64} {batch : HubBatchV2} (running : w.process = some process)
    (ran : (nextBatchV2 process.inner restarts nowMs).run (w.machine process faults) =
      .ok batch m') :
    Step w (.call (.nextBatchV2 restarts nowMs) faults)
      (w.pulled process restarts nowMs batch m') := by
  have served : w.serve process (.nextBatchV2 restarts nowMs) faults = .ok (.batchV2 batch) m' := by
    rw [World.serve, Request.call, run_bind_of_ok ran]
    rfl
  have stepped := @Step.returned w (.nextBatchV2 restarts nowMs) faults process running
  rw [served] at stepped
  exact stepped

/-- What is computed to decode is decoded. -/
theorem exists_decoded_of_isOk {inner : Inner} {entry : Entry} {body : Option Blob}
    (decodes : (decodeEntry inner entry body).isOk = true) :
    ∃ stored, decodeEntry inner entry body = .ok stored := by
  cases decoded : decodeEntry inner entry body with
  | ok stored => exact ⟨stored, rfl⟩
  | error error =>
      rw [decoded] at decodes
      cases decodes

/-- Whether every pending file reads back. -/
def Machine.readsBackAll (inner : Inner) (m : Machine) : Bool :=
  m.state.entries.values.all fun entry =>
    (decodeEntry inner entry (m.disk.read entry.path)).isOk

/-- The check computes whether every file reads back. -/
theorem readsBackAll_of_machine {inner : Inner} {m : Machine}
    (intact : m.readsBackAll inner = true) : ReadsBackAll inner m := by
  intro entry held
  exact exists_decoded_of_isOk
    (List.all_eq_true.mp intact entry (OrdMap.mem_values_iff.mpr ⟨_, held⟩))

/-- What a pull of the running process would answer. -/
def World.pull (w : World) (nowMs : I64) : Option (Process × HubBatchV2 × Machine) :=
  match w.process with
  | none => none
  | some process =>
      match (nextBatchV2 process.inner 2 nowMs).run (w.machine process .none) with
      | .ok batch after => some (process, batch, after)
      | .error _ _ => none

/-- What a scripted pull gives is a pull of the world's process. -/
theorem World.pull_eq_some {w : World} {nowMs : I64} {process : Process} {batch : HubBatchV2}
    {after : Machine} (pulled : w.pull nowMs = some (process, batch, after)) :
    w.process = some process ∧
      (nextBatchV2 process.inner 2 nowMs).run (w.machine process .none) = .ok batch after := by
  unfold World.pull at pulled
  split at pulled
  · cases pulled
  · split at pulled
    · rename_i running _ _ _ ran
      obtain ⟨rfl, rfl, rfl⟩ := pulled
      exact ⟨running, ran⟩
    · cases pulled

/-- The batch the running process would build. -/
def World.build (w : World) : Option (Process × HubBatchV2 × Machine) :=
  match w.process with
  | none => none
  | some process =>
      match (buildBatchV2 process.inner 2).run (w.machine process .none) with
      | .ok batch after => some (process, batch, after)
      | .error _ _ => none

theorem World.build_eq_some {w : World} {process : Process} {batch : HubBatchV2} {after : Machine}
    (built : w.build = some (process, batch, after)) :
    w.process = some process ∧
      (buildBatchV2 process.inner 2).run (w.machine process .none) = .ok batch after := by
  unfold World.build at built
  split at built
  · cases built
  · split at built
    · rename_i running _ _ _ ran
      obtain ⟨rfl, rfl, rfl⟩ := built
      exact ⟨running, ran⟩
    · cases built

theorem integerCodec_shortFloats : ShortFloats integerCodec := by
  intro x
  change "0.0".toList.length ≤ 24
  decide

theorem cutPull_plays :
    ((World.fresh.follow threeAdmissions).any fun w => (w.pull (sampleTime 61500)).any fun pulled =>
      (w.machine pulled.1 .none).readsBackAll pulled.1.inner &&
      (decide (pulled.2.1.records.length = 1 ∧ pulled.2.1.gaps.length = 1 ∧
          pulled.2.2.state.entries.size = 2) &&
        (decide ((w.pulled pulled.1 2 (sampleTime 61500) pulled.2.1 pulled.2.2).TellsApart
            (referenceHost integerCodec)) &&
          (w.pulled pulled.1 2 (sampleTime 61500) pulled.2.1 pulled.2.2).build.any fun built =>
            ((w.pulled pulled.1 2 (sampleTime 61500) pulled.2.1 pulled.2.2).machine built.1
              .none).readsBackAll built.1.inner &&
            decide (built.1.storageWriteFailed = false ∧
              built.1.state.receipts.get? built.2.1.batchId = none ∧
              built.1.state.nextReceiptSequence < u64Max ∧
              ((built.2.1.records.map (·.spoolSeq) ++ built.2.1.gaps.map (·.spoolSeq)).Nodup ∧
                (built.2.1.records.map (·.recordId)).Nodup ∧
                (built.2.1.gaps.map (·.noticeId)).Nodup) ∧
              built.2.1.records.length = 1 ∧ built.2.1.gaps.length = 1 ∧ built.1.state.entries.size = 2 ∧
              built.1.state.gaps.size = 1)))) = true := by
  decide +kernel

/-- Of three records one has expired, and a pull delivers its gap and the next record; the same batch
is then built again. -/
theorem cutPull_reached :
    ∃ (w : World) (process : Process) (batch : HubBatchV2) (after : Machine),
      Reach (Untouched sampleKey (referenceHost integerCodec)) w ∧ w.process = some process ∧
      (nextBatchV2 process.inner 2 (sampleTime 61500)).run (w.machine process .none) =
        .ok batch after ∧
      ReadsBackAll process.inner (w.machine process .none) ∧
      (w.pulled process 2 (sampleTime 61500) batch after).TellsApart (referenceHost integerCodec) ∧
      batch.records.length = 1 ∧ batch.gaps.length = 1 ∧ after.state.entries.size = 2 ∧
      ∃ (process' : Process) (built : HubBatchV2) (after' : Machine),
        (w.pulled process 2 (sampleTime 61500) batch after).build = some (process', built, after') ∧
        ReadsBackAll process'.inner
          ((w.pulled process 2 (sampleTime 61500) batch after).machine process' .none) ∧
        process'.storageWriteFailed = false ∧
        process'.state.receipts.get? built.batchId = none ∧
        process'.state.nextReceiptSequence < u64Max ∧ built.Distinct ∧ built.records.length = 1 ∧
        built.gaps.length = 1 ∧ process'.state.entries.size = 2 ∧ process'.state.gaps.size = 1 := by
  obtain ⟨w, followed, shows⟩ := (Option.any_eq_true _ _).mp cutPull_plays
  obtain ⟨⟨process, batch, after⟩, pulled, shows⟩ := (Option.any_eq_true _ _).mp shows
  simp only [Bool.and_eq_true, decide_eq_true_eq] at shows
  obtain ⟨intact, ⟨records, gaps, pending⟩, apart, shows⟩ := shows
  obtain ⟨⟨process', built, after'⟩, rebuilt, shows⟩ := (Option.any_eq_true _ _).mp shows
  rw [Bool.and_eq_true, decide_eq_true_eq] at shows
  obtain ⟨intact', unlatched, fresh, room, ⟨sequences, recordIds, noticeIds⟩, sizes⟩ := shows
  obtain ⟨running, ran⟩ := World.pull_eq_some pulled
  have reach := World.reach_of_follow .start (fun player inside => reopenedSpool_untouched player
    (threeAdmissions_subset inside)) followed
  exact ⟨w, process, batch, after, reach, running, ran, readsBackAll_of_machine intact, apart, records,
    gaps, pending, process', built, after', rebuilt, readsBackAll_of_machine intact', unlatched, fresh,
    room, ⟨sequences, recordIds, noticeIds⟩, sizes⟩

theorem nextBatchV2_longest_prefix_cutPull :
    ∃ (process : Process) (batch : HubBatchV2) (after : Machine) (queue items : List BatchItemV2),
      batch.records.length = 1 ∧ batch.gaps.length = 1 ∧ after.state.entries.size = 2 ∧
        batch.Distinct ∧
        DeliversPrefix process.inner (process.state.Due (sampleTime 61500)) after batch queue items := by
  obtain ⟨w, process, batch, after, reach, running, ran, intact, apart, records, gaps, pending, -⟩ :=
    cutPull_reached
  have stepped := World.step_pulled running ran
  obtain ⟨-, ⟨queue, items, delivers⟩, distinct, -⟩ :=
    nextBatchV2_longest_prefix (reach.mono fun _ _ untouched => untouched.underKey)
      (apart.distinctNotices.offering stepped.offered) (apart.faithfulIds.offering stepped.offered)
      integerCodec_shortFloats running intact ran
  exact ⟨process, batch, after, queue, items, records, gaps, pending, distinct, delivers⟩

/-- An entry is counted as expired while there is no room for its gap, and the clock then steps back
behind its deadline. -/
def steppedBack : List Move :=
  [.openSpool (sampleInner 2) (sampleTime 0) .none,
    .call (.enqueue (sampleEnvelope "c") (sampleTime 100000)) .none,
    .call (.enqueue (sampleEnvelope "a") (sampleTime 0)) .none,
    .call (.nextBatchV2 2 (sampleTime 61000)) .none,
    .drop,
    .openSpool (sampleInner 1) (sampleTime 61000) .none,
    .call (.nextBatchV2 2 (sampleTime 200000)) .none]

theorem steppedBack_untouched :
    ∀ w, ∀ move ∈ steppedBack, Untouched sampleKey (referenceHost integerCodec) w move := by
  intro w move inside
  simp only [steppedBack, List.mem_cons, List.not_mem_nil, or_false] at inside
  rcases inside with rfl | rfl | rfl | rfl | rfl | rfl | rfl
  · exact ⟨rfl, rfl⟩
  · trivial
  · trivial
  · trivial
  · trivial
  · exact ⟨rfl, rfl⟩
  · trivial

/-- The pull after the step back tells of a gap that is not held, while nothing is past its
deadline. -/
theorem steppedBack_pulled :
    ((World.fresh.play steppedBack).any fun w =>
      (w.pull (sampleTime 100000)).any fun pulled =>
        (w.machine pulled.1 .none).readsBackAll pulled.1.inner &&
          (pulled.2.2.state.entries.values.all fun entry =>
            decide ((sampleTime 100000).val ≤ entry.expiresAtMs.val)) &&
          pulled.2.1.gaps.any fun notice => pulled.2.2.state.gaps.values.all fun gap =>
            decide (gap.notice.spoolSeq ≠ notice.spoolSeq)) = true := by
  decide +kernel

/-- A gap that is neither held nor that of an entry past its deadline is in no prefix of a queue. -/
theorem not_deliversPrefix {inner : Inner} {nowMs : I64} {m : Machine} {batch : HubBatchV2}
    {notice : GapNoticeV2} (inside : notice ∈ batch.gaps)
    (current : ∀ entry ∈ m.state.entries.values, nowMs.val ≤ entry.expiresAtMs.val)
    (unheld : ∀ gap ∈ m.state.gaps.values, gap.notice.spoolSeq ≠ notice.spoolSeq) :
    ¬ ∃ queue items,
      DeliversPrefix inner (fun entry => entry.expiresAtMs.val < nowMs.val) m batch queue items := by
  rintro ⟨queue, items, delivers⟩
  rw [delivers.gaps, List.mem_filterMap] at inside
  obtain ⟨item, here, same⟩ := inside
  have pending := (delivers.isQueue.mem item).mp (delivers.window.front.subset here)
  cases pending with
  | gap found =>
      obtain rfl := Option.some.inj same
      exact unheld _ (OrdMap.mem_values_iff.mpr ⟨_, found⟩) rfl
  | expired held past =>
      exact absurd past (not_lt.mpr (current _ (OrdMap.mem_values_iff.mpr ⟨_, held⟩)))
  | live => cases same

/-- After the clock is set back a counted expiry is still told as a gap. -/
theorem nextBatchV2_tells_counted_as_gap :
    ∃ (w : World) (process : Process) (batch : HubBatchV2) (after : Machine),
      Reach (Untouched sampleKey (referenceHost integerCodec)) w ∧ w.process = some process ∧
      ReadsBackAll process.inner (w.machine process .none) ∧
      (nextBatchV2 process.inner 2 (sampleTime 100000)).run (w.machine process .none) =
        .ok batch after ∧
      ¬ ∃ queue items, DeliversPrefix process.inner
        (fun entry => entry.expiresAtMs.val < (sampleTime 100000).val) after batch queue items := by
  obtain ⟨w, played, shows⟩ := (Option.any_eq_true _ _).mp steppedBack_pulled
  obtain ⟨⟨process, batch, after⟩, pulled, shows⟩ := (Option.any_eq_true _ _).mp shows
  simp only [Bool.and_eq_true, List.all_eq_true, List.any_eq_true, decide_eq_true_eq] at shows
  obtain ⟨⟨intact, current⟩, notice, inside, unheld⟩ := shows
  obtain ⟨running, ran⟩ := World.pull_eq_some pulled
  exact ⟨w, process, batch, after, World.reach_of_play .start steppedBack_untouched played,
    running, readsBackAll_of_machine intact, ran, not_deliversPrefix inside current unheld⟩

end TeslatlasEdge
