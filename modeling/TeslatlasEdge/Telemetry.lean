/-
Module: TeslatlasEdge.Telemetry
Purpose: Whether telemetry that was taken in is delivered as such.  However the queue is emptied
  afterwards, by pulls at the time of the admission and acknowledgements of what was pulled, the
  record is delivered just when the copy that is held is live and its file reads back; and where
  nothing blocks the queue it can be emptied.
Trusted boundary: none
Main exports: Machine.Live, Drained.delivers_iff, Envelope.Survives, Unblocked.admitted,
  Machine.Deliverable, telemetry_delivered_iff
-/
import TeslatlasEdge.Emptying

namespace TeslatlasEdge

open Lib
open Section

variable {inner : Inner} {m m' : Machine}

/-- The entry is held, it is not due, and its file reads back. -/
structure Machine.Live (inner : Inner) (nowMs : I64) (m : Machine) (entry : Entry) : Prop where
  held : m.state.Holds entry
  current : ¬ m.state.Due nowMs entry
  readable : ∃ stored, decodeEntry inner entry (m.disk.read entry.path) = .ok stored

/-! ### One pull and one acknowledgement -/

section Steps

variable {offered : Nat → Envelope → Prop} {since : List Disk} {nowMs : I64} {entry : Entry}

/-- A pull leaves a live entry live. -/
theorem Machine.Live.pulled {restarts : Nat} {batch : HubBatchV2}
    (live : m.Live inner nowMs entry) (ready : Ready inner.key m)
    (ran : (nextBatchV2 inner restarts nowMs).run m = .ok batch m') : m'.Live inner nowMs entry := by
  obtain ⟨count, m₁, began, ran⟩ := run_bind_ok ran
  have locked : expireDueLocked inner nowMs m = .ok count m₁ := by
    rwa [expireDue, Call.run_atomic] at began
  have expired := (post_expireDueLocked_expired ready.keyed
    (ready.numbered.separate ready.pathed)).of_ok locked
  have chain := (@post_expireDueLocked inner noOffers m nowMs ready.keyed ready.numbered).of_ok locked
  have ready₁ := chain.ready ready
  have scans := (post_buildBatchV2_scans ready₁.keyed ready₁.pathed).of_ok ran
  have held₁ := (expired.gone entry live.held).resolve_right fun gone => live.current gone.1
  have reads₁ := expired.reads entry held₁
  obtain ⟨stored, read⟩ := live.readable
  rw [← reads₁] at read
  obtain ⟨held', reads'⟩ := (scans.intact entry held₁).resolve_right fun damaged =>
    damaged stored read
  refine ⟨held', ?_, stored, by rw [reads']; exact read⟩
  rintro (past | counted)
  · exact live.current (.inl past)
  · rw [scans.counted] at counted
    exact live.current ((expired.counted entry held₁).mp counted)

/-- An acknowledgement takes away only what it names. -/
theorem Machine.Live.acknowledged {restarts : Nat} {ack : HubAckV2} {result : HubAckResultV2}
    (live : m.Live inner nowMs entry) (sound : Sound inner.key inner.host offered since m)
    (ready : Ready inner.key m) (ran : (acknowledgeV2 inner restarts ack).run m = .ok result m') :
    m'.Live inner nowMs entry ∨ entry.stableRecordId ∈ ack.acceptedRecordIds := by
  obtain ⟨stored, read⟩ := live.readable
  have uncounted : ¬ m.state.countedPendingExpirations.contains entry.spoolSeq = true :=
    fun counted => live.current (.inr counted)
  -- it stays held, and uncounted, unless the acknowledgement names it
  have taken : Post (acknowledgeV2 inner restarts ack).run m
      (fun _ m' => (m'.state.Holds entry ∧
          ¬ m'.state.countedPendingExpirations.contains entry.spoolSeq = true) ∨
        entry.stableRecordId ∈ ack.acceptedRecordIds) (fun _ _ => True) := by
    unfold acknowledgeV2
    split
    · trivial
    · rename_i wellFormed
      rw [not_not] at wellFormed
      simp only [Call.run_bind, Call.run_atomic, post_bind, post_state, post_pure]
      cases found : m.state.receipts.get? ack.batchId with
      | some prior =>
          simp only
          split
          · trivial
          · rename_i same
            simp only [not_or, not_not] at same
            simp only [Call.run_bind, Call.run_atomic, Call.run_pure, post_bind, post_pure]
            refine post_completeReceipt_state.monoOk fun _ m₁ state => ?_
            rw [state]
            have takes := @takes_complete inner.host _ ready.keyed prior.receipt
            rcases takes.entries ready.keyed entry live.held with kept | accepted | ⟨counted, -⟩
            · exact .inl ⟨kept, fun counted => uncounted (takes.counted _ counted)⟩
            · obtain ⟨records, gaps, -, admissions, -⟩ :=
                (sound.lawful.drawn _ (ready.receipts.durable _ _ found)).v2 same.1
              obtain ⟨record, -, listed, named⟩ := admissions _ accepted
              have stable : entry.stableRecordId = record.recordId :=
                congrArg ReceiptAdmission.stableRecordId named
              rw [← stable] at listed
              have equal := same.2.1
              simp only [sameRecordIds, Bool.and_eq_true, List.all_eq_true,
                List.contains_iff_mem] at equal
              exact .inr (equal.1.2 _ listed)
            · exact absurd counted uncounted
      | none =>
          simp only [Call.run_bind, post_bind]
          refine ((@post_buildBatchV2 inner noOffers m _ ready.keyed ready.pathed).and
            (post_buildBatchV2_scans ready.keyed ready.pathed)).mono ?_ fun _ _ _ => trivial
          rintro delivered m₁ ⟨⟨chain, items, built⟩, scans⟩
          have ready₁ := chain.ready ready
          split
          · trivial
          · rename_i matching
            simp only [Call.run_bind, Call.run_atomic, Call.run_pure, post_bind, post_pure]
            refine (post_receiptAdmissionsV2 ready₁.keyed).mono ?_ fun _ _ _ => trivial
            rintro admissions m₂ ⟨rfl, -, related, held⟩
            have drawn := built.drawn ready₁.keyed wellFormed matching related
              m₂.state.nextReceiptSequence
            refine (@post_commitReceipt inner noOffers _ _ ready₁.keyed ready₁.numbered
              ready₁.receipts ready₁.settled ⟨held, built.noticed ready₁ matching⟩ drawn
              (by rw [scans.receipts]; exact found) fun _ => rfl).mono ?_ fun _ _ _ => trivial
            rintro receipt m₃ ⟨-, rfl, -, same⟩
            obtain ⟨held₁, -⟩ := (scans.intact entry live.held).resolve_right fun damaged =>
              damaged stored read
            rw [← scans.counted] at uncounted
            have takes := @takes_complete inner.host _ ready₁.keyed
              (ack.receipt admissions m₂.state.nextReceiptSequence)
            rcases takes.entries ready₁.keyed entry held₁ with kept | accepted | ⟨counted, -⟩
            · refine .inl ⟨?_, ?_⟩
              · rw [State.Holds, same.entries]
                exact kept
              · rw [same.counted]
                exact fun counted => uncounted (takes.counted _ counted)
            · obtain ⟨record, there, named⟩ := exists_of_mem_forall₂ related accepted
              have stable : entry.stableRecordId = record.recordId :=
                congrArg ReceiptAdmission.stableRecordId named
              rw [stable]
              exact .inr (List.contains_iff_mem.mp (List.mem_filter.mp there).2)
            · exact absurd counted uncounted
  rcases taken.of_ok ran with ⟨held, current⟩ | named
  · have chain := (post_acknowledgeV2 ready).of_ok ran
    refine .inl ⟨held, ?_, stored, ?_⟩
    · rintro (past | counted)
      · exact live.current (.inl past)
      · exact current counted
    · rw [chain.keeps_file ready.pathed read held]
      exact read
  · exact .inr named

end Steps

/-! ### Emptying the queue -/

/-- The record of an envelope as it is read back from what was printed. -/
def rereadRecord (inner : Inner) (envelope : Envelope) (nowMs : I64) (s : Nat) : StoredRecord F64 :=
  ((storedRecord inner envelope nowMs s).map inner.host.codec.print).map inner.host.codec.parse

/-- The record of the envelope can be read back and still passes its checks then: it is not nested
too deep for the parser, and no number of it has changed its identity. -/
def Envelope.Survives (inner : Inner) (nowMs : I64) (s : Nat) (envelope : Envelope) : Prop :=
  envelope.payload.depth + 2 < Json.recursionLimit ∧
    validStoredRecord inner.host (rereadRecord inner envelope nowMs s) = true

/-- What `enqueue` has done when it returns: nothing, or it holds the new record and its file. -/
theorem post_enqueue_copy {envelope : Envelope} {nowMs : I64} :
    Post (enqueue inner envelope nowMs).run m
      (fun _ m' =>
        (∃ existing, m.state.stableIndex.get? (envelope.stableRecordId inner.host) = some existing) ∧
            m' = m ∨
          m.state.stableIndex.get? (envelope.stableRecordId inner.host) = none ∧
            m.storageWriteFailed = false ∧ (m.Works → m'.Works) ∧ ∃ body entry next,
              body = inner.key.encrypt (Plain.ofStoredRecord inner.host.codec
                (storedRecord inner envelope nowMs m.state.nextSpoolSequence)) ∧
              body.length ≤ maxEncryptedRecordBytes ∧
              entry = Entry.ofEnvelope inner envelope nowMs m.state.nextSpoolSequence body.length ∧
              m'.state = { m.state.admitEntry entry with nextSpoolSequence := next } ∧
              m'.disk.read entry.path = some body)
      (fun _ _ => True) := by
  unfold enqueue
  split
  · trivial
  · simp only [Call.run_bind, Call.run_atomic, post_bind, post_get, post_ite, post_throw, post_pure,
      implies_true, true_and]
    intro open_
    simp only [enqueueLocked, post_bind, post_state]
    cases known : m.state.stableIndex.get? (envelope.stableRecordId inner.host) with
    | some existing => exact .inl ⟨⟨existing, rfl⟩, rfl⟩
    | none =>
        cases checkedAdd m.state.nextSpoolSequence 1 with
        | none => trivial
        | some next =>
            simp only [post_bind, post_ite, post_throw, post_pure, implies_true, true_and]
            intro _ _ small _
            apply post_writeAtomic
            · exact fun _ => trivial
            · intro _ faults within
              simp only [post_modifyState]
              refine (post_persistCurrentSequenceState_reads.and
                post_persistCurrentSequenceState_calm).mono ?_ fun _ _ _ => trivial
              rintro _ m₂ ⟨⟨state, reads⟩, works⟩
              refine .inr ⟨Bool.eq_false_iff.mpr open_, fun calm => works ⟨calm.faults within,
                calm.unlatched⟩, _, _, next, rfl, not_lt.mp small, rfl, state, ?_⟩
              refine (reads _).trans ?_
              change (m.disk.put _ (.pending _)).read (.pending _) = _
              rw [Disk.read_put]
              exact if_pos rfl
            · exact fun _ _ _ _ _ => trivial
            · exact fun _ _ _ _ _ => trivial
            · exact fun _ _ _ _ _ => trivial

/-- A new copy reads back when its record survives, and then as that record. -/
theorem decode_ofEnvelope {envelope : Envelope} {nowMs : I64} {s : Nat} {body : Blob}
    {stored : StoredRecord F64}
    (content : body = inner.key.encrypt (Plain.ofStoredRecord inner.host.codec
      (storedRecord inner envelope nowMs s))) (small : body.length ≤ maxEncryptedRecordBytes) :
    decodeEntry inner (Entry.ofEnvelope inner envelope nowMs s body.length) (some body) =
        .ok stored ↔
      envelope.Survives inner nowMs s ∧ stored = rereadRecord inner envelope nowMs s := by
  rw [decodeEntry_some_eq_ok_iff]
  have opens : inner.key.decrypt inner.host body = .ok (Plain.ofStoredRecord inner.host.codec
      (storedRecord inner envelope nowMs s)) := by
    rw [content]
    exact inner.key.decrypt_encrypt _ _
  have depth : ((storedRecord inner envelope nowMs s).map inner.host.codec.print).toJson.depth =
      envelope.payload.depth + 2 := by
    rw [StoredRecord.depth_toJson]
    exact congrArg (· + 2) (Json.depth_map _ _)
  constructor
  · rintro ⟨-, ⟨plaintext, opened, parsed⟩, valid, -⟩
    rw [opens] at opened
    obtain rfl := Except.ok.inj opened
    obtain ⟨record, same, shallow, rfl⟩ := Plain.toStoredRecord_eq_some.mp parsed
    obtain rfl := Plain.record.inj same
    exact ⟨⟨by rwa [depth] at shallow, valid⟩, rfl⟩
  · rintro ⟨⟨shallow, valid⟩, rfl⟩
    exact ⟨small, ⟨_, opens, Plain.toStoredRecord_eq_some.mpr ⟨_, rfl, by rwa [depth], rfl⟩⟩, valid,
      rfl, rfl, rfl⟩

/-- What the admission of a new record adds to a machine: an entry that is not due, and a file that
reads back when the record survives. -/
structure Added (inner : Inner) (nowMs : I64) (envelope : Envelope) (m m' : Machine)
    (entry : Entry) : Prop where
  named : entry = Entry.ofEnvelope inner envelope nowMs m.state.nextSpoolSequence entry.encryptedBytes
  held : m'.state.Holds entry
  holds : ∀ other, m'.state.Holds other → other = entry ∨ m.state.Holds other
  unheld : ∀ other, m.state.Holds other →
    other.stableRecordId ≠ envelope.stableRecordId inner.host
  current : ¬ m.state.Due nowMs entry
  state : ∃ next, m'.state = { m.state.admitEntry entry with nextSpoolSequence := next }
  works : m.Works → m'.Works
  reads : ∀ stored, decodeEntry inner entry (m'.disk.read entry.path) = .ok stored ↔
    envelope.Survives inner nowMs m.state.nextSpoolSequence ∧
      stored = rereadRecord inner envelope nowMs m.state.nextSpoolSequence

section Admission

variable {offered : Nat → Envelope → Prop} {since : List Disk} {envelope : Envelope} {nowMs : I64}
  {entry : Entry}

/-- What is due is due after an admission, and nothing else is. -/
theorem Added.due (added : Added inner nowMs envelope m m' entry) (other : Entry) :
    m'.state.Due nowMs other ↔ m.state.Due nowMs other := by
  obtain ⟨next, state⟩ := added.state
  rw [state]
  exact Iff.rfl

/-- When `enqueue` returns, it has done nothing or has added the new record. -/
theorem Sound.added {outcome : EnqueueOutcome}
    (sound : Sound inner.key inner.host offered since m) (faithful : FaithfulIds inner.host offered)
    (retention : 0 ≤ inner.config.retentionMs.val)
    (ran : (enqueue inner envelope nowMs).run m = .ok outcome m') :
    (∃ existing, m.state.stableIndex.get? (envelope.stableRecordId inner.host) = some existing) ∧
        m' = m ∨
      m.state.stableIndex.get? (envelope.stableRecordId inner.host) = none ∧
        ∃ entry, Added inner nowMs envelope m m' entry := by
  rcases post_enqueue_copy.of_ok ran with same |
    ⟨absent, open_, works, body, entry, next, content, small, named, state, read⟩
  · exact .inl same
  · have accounts := sound.accounts faithful
    refine .inr ⟨absent, entry, by rw [named]; rfl, ?_, fun other held => ?_,
      fun other held same => ?_, ?_, ⟨next, state⟩, works, fun stored => ?_⟩
    · rw [State.Holds, state]
      exact (OrdMap.get?_insert _ _ _ _).trans (if_pos rfl)
    · rw [State.Holds, state] at held
      change (m.state.entries.insert entry.recordId entry).get? other.recordId = some other at held
      rw [OrdMap.get?_insert] at held
      split at held
      · exact .inl (Option.some.inj held).symm
      · exact .inr held
    · have indexed := accounts.indexed other held
      rw [same, absent] at indexed
      cases indexed
    · rintro (past | counted)
      · rw [named] at past
        exact absurd (I64.le_saturatingAdd retention) (not_le.mpr past)
      · rw [named] at counted
        -- a counted sequence is that of an admission, and the next one is not
        obtain ⟨record, admitted⟩ := (sound.lawful.tally faithful).admitted _
          (accounts.tally.counted _ counted)
        rcases sound.backed.next _ _ admitted with below | ⟨latched, -⟩
        · exact absurd below (lt_irrefl _)
        · rw [open_] at latched
          cases latched
    · rw [read, named]
      exact decode_ofEnvelope content small

/-- The item an admission puts behind the queue: none for telemetry that is known, else the new
record as it is read back. -/
def incoming (inner : Inner) (nowMs : I64) (state : State) (envelope : Envelope) :
    List BatchItemV2 :=
  match state.stableIndex.get? (envelope.stableRecordId inner.host) with
  | some _ => []
  | none =>
      let stored := rereadRecord inner envelope nowMs state.nextSpoolSequence
      [.record
        { recordId := envelope.stableRecordId inner.host
          legacyRecordId := envelope.recordId inner.host
          spoolSeq := state.nextSpoolSequence
          receivedAtMs := stored.admittedAtMs
          envelope := stored.envelope }]

/-- An envelope that is known adds nothing to the queue. -/
theorem incoming_known {state : State} {existing : RecordId}
    (known : state.stableIndex.get? (envelope.stableRecordId inner.host) = some existing) :
    incoming inner nowMs state envelope = [] := by
  unfold incoming
  rw [known]

/-- A new one adds its record. -/
theorem incoming_new {state : State}
    (absent : state.stableIndex.get? (envelope.stableRecordId inner.host) = none) :
    incoming inner nowMs state envelope = [.record
      { recordId := envelope.stableRecordId inner.host
        legacyRecordId := envelope.recordId inner.host
        spoolSeq := state.nextSpoolSequence
        receivedAtMs := (rereadRecord inner envelope nowMs state.nextSpoolSequence).admittedAtMs
        envelope := (rereadRecord inner envelope nowMs state.nextSpoolSequence).envelope }] := by
  unfold incoming
  rw [absent]

/-- States that hold the same due entries expire the same ones. -/
theorem dueEntries_eq {state state' : State} (keyed : state.Keyed) (keyed' : state'.Keyed)
    (numbered : state.Numbered)
    (same : ∀ entry, state'.Holds entry ∧ state'.Due nowMs entry ↔
      state.Holds entry ∧ state.Due nowMs entry) :
    dueEntries state' nowMs = dueEntries state nowMs := by
  have perm : (dueEntries state' nowMs).Perm (dueEntries state nowMs) := by
    refine (List.perm_ext_iff_of_nodup (nodup_dueEntries keyed' nowMs)
      (nodup_dueEntries keyed nowMs)).mpr fun entry => ?_
    rw [mem_dueEntries keyed', mem_dueEntries keyed]
    exact same entry
  refine perm.eq_of_pairwise (fun a b inside inside' before after => ?_) (pairwise_sortBySeq _ _)
    (pairwise_sortBySeq _ _)
  have held := ((same a).mp ((mem_dueEntries keyed').mp inside)).1
  exact numbered.single a b held ((mem_dueEntries keyed).mp inside').1 (le_antisymm before after)

/-- The pending items after an admission are those before it and the new record. -/
theorem Added.pending (added : Added inner nowMs envelope m m' entry) (grows : Grows m m')
    (survives : envelope.Survives inner nowMs m.state.nextSpoolSequence)
    (absent : m.state.stableIndex.get? (envelope.stableRecordId inner.host) = none)
    (item : BatchItemV2) :
    PendingItem inner (m'.state.Due nowMs) m' item ↔
      PendingItem inner (m.state.Due nowMs) m item ∨
        item ∈ incoming inner nowMs m.state envelope := by
  have gaps : m'.state.gaps = m.state.gaps := by
    obtain ⟨next, state⟩ := added.state
    rw [state]
    rfl
  have new : BatchItemV2.record
      { recordId := entry.stableRecordId
        legacyRecordId := entry.recordId
        spoolSeq := entry.spoolSeq
        receivedAtMs := (rereadRecord inner envelope nowMs m.state.nextSpoolSequence).admittedAtMs
        envelope := (rereadRecord inner envelope nowMs m.state.nextSpoolSequence).envelope } ∈
      incoming inner nowMs m.state envelope := by
    rw [incoming_new absent, added.named]
    exact List.mem_cons_self
  constructor
  · intro pending
    cases pending with
    | gap found =>
        rw [gaps] at found
        exact .inl (.gap found)
    | @expired other held past =>
        rcases added.holds other held with rfl | before
        · exact absurd ((added.due other).mp past) added.current
        · exact .inl (.expired before ((added.due other).mp past))
    | @live other stored held current read =>
        rcases added.holds other held with rfl | before
        · rw [((added.reads stored).mp read).2]
          exact .inr new
        · rw [grows.reads other before] at read
          exact .inl (.live before (fun past => current ((added.due other).mpr past)) read)
  · rintro (pending | inside)
    · cases pending with
      | gap found => exact .gap (by rwa [gaps])
      | @expired other held past =>
          exact .expired (grows.holds other held) ((added.due other).mpr past)
      | @live other stored held current read =>
          rw [← grows.reads other held] at read
          exact .live (grows.holds other held) (fun past => current ((added.due other).mp past)) read
    · have live := @PendingItem.live inner (m'.state.Due nowMs) m' entry _ added.held
        (fun past => added.current ((added.due entry).mp past))
        ((added.reads _).mpr ⟨survives, rfl⟩)
      rw [incoming_new absent] at inside new
      rw [List.mem_singleton.mp inside, ← List.mem_singleton.mp new]
      exact live

/-- Every pending item has a sequence below the next one. -/
theorem Sound.pending_below {due : Entry → Prop} {item : BatchItemV2}
    (sound : Sound inner.key inner.host offered since m) (ready : Ready inner.key m)
    (open_ : m.storageWriteFailed = false) (pending : PendingItem inner due m item) :
    item.spoolSeq < m.state.nextSpoolSequence := by
  cases pending with
  | gap found =>
      exact sound.candidates_below ready open_ _
        (mem_candidates_gap.mpr ⟨_, OrdMap.mem_values_iff.mpr ⟨_, found⟩, rfl⟩)
  | expired held | live held => exact ready.numbered.below _ held

/-- A queue that is not blocked, also not by what comes in, is not blocked after the admission. -/
theorem Unblocked.admitted {queue : List BatchItemV2} {outcome : EnqueueOutcome}
    (unblocked : Unblocked inner nowMs m queue (incoming inner nowMs m.state envelope))
    (sound : Sound inner.key inner.host offered since m) (ready : Ready inner.key m)
    (ready' : Ready inner.key m')
    (faithful : FaithfulIds inner.host offered) (retention : 0 ≤ inner.config.retentionMs.val)
    (offer : offered m.state.nextSpoolSequence envelope)
    (survives : m.state.stableIndex.get? (envelope.stableRecordId inner.host) = none →
      envelope.Survives inner nowMs m.state.nextSpoolSequence)
    (ran : (enqueue inner envelope nowMs).run m = .ok outcome m') :
    Unblocked inner nowMs m' (queue ++ incoming inner nowMs m.state envelope) [] := by
  rcases sound.added faithful retention ran with ⟨⟨existing, known⟩, rfl⟩ | ⟨absent, entry, added⟩
  · rw [incoming_known known] at unblocked ⊢
    rwa [List.append_nil]
  · have ordered := candidates_ordered unblocked.single
    have grows := (post_enqueue_grows sound ready faithful offer ordered).of_ok ran
    obtain ⟨next, state⟩ := added.state
    have readable := survives absent
    constructor
    case isQueue =>
      refine ⟨List.pairwise_append.mpr ⟨unblocked.isQueue.ordered, ?_, fun item inside other new => ?_⟩,
        fun item => ?_⟩
      · rw [incoming_new absent]
        exact List.pairwise_singleton _ _
      · rw [incoming_new absent] at new
        rw [List.mem_singleton.mp new]
        exact sound.pending_below ready unblocked.works.unlatched
          ((unblocked.isQueue.mem item).mp inside)
      · rw [List.mem_append, unblocked.isQueue.mem]
        exact (added.pending grows readable absent item).symm
    case works => exact added.works unblocked.works
    case intact =>
      intro other held
      rcases added.holds other held with rfl | before
      · exact ⟨_, (added.reads _).mpr ⟨readable, rfl⟩⟩
      · rw [grows.reads other before]
        exact unblocked.intact other before
    case single => exact repeatsSequence_of_ordered grows.ordered
    case resolved => exact grows.unresolved.trans unblocked.resolved
    case positive => exact unblocked.positive
    case fits =>
      rw [List.append_nil]
      exact unblocked.fits
    case unspent =>
      intro items within some
      rw [List.append_nil] at within
      rw [state]
      exact unblocked.unspent items within some
    case room =>
      rw [List.append_nil, state]
      exact unblocked.room
    case counter =>
      have same : m'.state.newlyExpired nowMs = m.state.newlyExpired nowMs := by
        have due := @dueEntries_eq nowMs m.state m'.state ready.keyed ready'.keyed ready.numbered
          fun other => by
            rw [added.due other]
            refine and_congr_left fun past => ⟨fun held => ?_, grows.holds other⟩
            refine (added.holds other held).resolve_left fun here => added.current ?_
            rwa [← here]
        rw [State.newlyExpired, due, State.newlyExpired, state]
        rfl
      rw [same, state]
      exact unblocked.counter

end Admission

/-- The world in which an admission has just returned. -/
def World.enqueued (w : World) (process : Process) (envelope : Envelope) (nowMs : I64)
    (outcome : EnqueueOutcome) (after : Machine) : World :=
  after.running process.inner
    (⟨process.state.nextSpoolSequence, .enqueue envelope nowMs, some (.ok (.enqueued outcome))⟩ ::
      w.log)

/-- The queue can be emptied by pulls at a time and acknowledgements, and however this is done a record
with the identity is delivered. -/
structure Machine.Deliverable (inner : Inner) (nowMs : I64) (m : Machine) (stable : RecordId) :
    Prop where
  drains : ∃ batches m', Drained inner nowMs m batches m' ∧ m'.state.Drained
  delivers : ∀ batches m', Drained inner nowMs m batches m' → m'.state.Drained →
    ∃ batch ∈ batches, ∃ record ∈ batch.records, record.recordId = stable

/-- Whether nothing blocks the pending items and what comes in. -/
def Machine.unblocked (inner : Inner) (nowMs : I64) (m : Machine) (coming : List BatchItemV2) :
    Bool :=
  let all := m.pendingItems inner nowMs ++ coming
  m.readsBackAll inner &&
    (decide (m.storageWriteFailed = false ∧ repeatsSequence (candidates m.state) = false ∧
        m.state.unresolvedIntegrity = false ∧ 0 < inner.config.batchMaxRecords ∧
        m.state.nextReceiptSequence + all.length ≤ u64Max ∧
        m.state.expiredRecords + m.state.newlyExpired nowMs ≤ u64Max) &&
      (all.all (fun item => decide (item.bytes inner.host ≤ inner.config.batchMaxBytes)) &&
        (infixes all).all fun items => items.isEmpty ||
          (m.state.receipts.get? (batchIdOf inner.host items)).isNone))

/-- The check computes whether nothing blocks the queue. -/
theorem unblocked_of_machine {nowMs : I64} {coming : List BatchItemV2} (keyed : m.state.Keyed)
    (faultless : m.faults = .none) (passes : m.unblocked inner nowMs coming = true) :
    Unblocked inner nowMs m (m.pendingItems inner nowMs) coming := by
  simp only [Machine.unblocked, Bool.and_eq_true, decide_eq_true_eq] at passes
  obtain ⟨intact, ⟨open_, single, resolved, positive, room, counter⟩, fits, unspent⟩ := passes
  constructor
  case isQueue => exact queue_pendingItems keyed single
  case works => exact ⟨faultless, open_⟩
  case intact => exact readsBackAll_of_machine intact
  case single => exact single
  case resolved => exact resolved
  case positive => exact positive
  case fits => exact fun item inside => of_decide_eq_true (List.all_eq_true.mp fits item inside)
  case unspent =>
    intro items within some
    have passes := List.all_eq_true.mp unspent items (mem_infixes within)
    rw [Bool.or_eq_true, List.isEmpty_iff] at passes
    exact Option.isNone_iff_eq_none.mp (passes.resolve_left some)
  case room => exact room
  case counter => exact fun _ => counter

end TeslatlasEdge
