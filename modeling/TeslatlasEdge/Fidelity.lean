/-
Module: TeslatlasEdge.Fidelity
Purpose: Stored envelopes are delivered unchanged in every run whose payloads come back from a stored
  record as they went in.  A payload that the receiver accepts may be nested one level too deep for
  the record it is stored in, and then an undamaged record becomes an integrity gap.
Trusted boundary: none
Main exports: World.Unchanged, stored_delivered_unchanged, stored_lost_to_nesting
-/
import TeslatlasEdge.Ledger

namespace TeslatlasEdge

open Lib

section Runs

variable {key : EncryptionKey} {host : Host} {w w' : World}

/-! ### Nothing is damaged -/

/-- A step that damages nothing makes no pending file unreadable. -/
theorem Kept.harmless {move : Move} (kept : Kept key host w) (may : Untouched key host w move)
    (moved : Step w move w') (distinct : DistinctNotices host w'.Offered) {d : Disk}
    (inside : d ∈ w'.timeline) {name : Str} {body : Blob}
    (found : d.read (.pending name) = some body) (unreadable : Unreadable key host body) :
    ∃ e ∈ w.timeline, e.read (.pending name) = some body := by
  cases moved with
  | @opened inner nowMs faults after closed ran =>
      obtain ⟨sound, -⟩ := (kept.opened distinct may false nowMs faults).of_ok ran
      exact sound.always.harmless d inside name body found unreadable
  | @openFailed inner nowMs faults error after closed ran =>
      have always := (kept.opened distinct may false nowMs faults).of_error ran
      exact always.harmless d inside name body found unreadable
  | @openStopped inner nowMs faults e older closed stopped =>
      have always := ((kept.opened distinct may false nowMs faults).mono
        (fun _ _ facts => facts.1.always) fun _ _ always => always).final (I := fun m : Machine =>
          AlwaysLawful key host w.Offered w.timeline m.timeline)
      exact always.harmless d (stopped.reached.mem inside) name body found unreadable
  | openRefused running ran =>
      have same := openSpool_locked ran
      rw [same] at inside
      exact ⟨d, inside, found⟩
  | @returned request faults process running =>
      obtain ⟨sound, -⟩ := kept.answered running rfl distinct
      exact sound.always.harmless d inside name body found unreadable
  | @callStopped request faults process e older running stopped =>
      have served := @Kept.served key host w ⟨e, older,
        ⟨process.state.nextSpoolSequence, request, none⟩ :: w.log, none⟩ kept process running request
        none rfl distinct faults
      have always := (served.mono (fun _ _ facts => facts.1.always) fun _ _ facts =>
        facts.1.always).final (I := fun m : Machine =>
          AlwaysLawful key host _ w.timeline m.timeline)
      exact always.harmless d (stopped.reached.mem inside) name body found unreadable
  | dropped => exact ⟨d, inside, found⟩
  | damaged | receiptDamaged => exact may.elim
  | relisted same =>
      rcases List.mem_cons.mp inside with rfl | inside
      · exact ⟨w.disk, List.mem_cons_self, (same.read _).symm.trans found⟩
      · exact ⟨d, List.mem_cons_of_mem _ inside, found⟩

/-- In a run that damages nothing, every pending file can be opened at any time. -/
theorem Reach.unharmed (reach : Reach (Untouched key host) w)
    (distinct : DistinctNotices host w.Offered) :
    ∀ d ∈ w.timeline, ∀ name body, d.read (.pending name) = some body →
      ¬ Unreadable key host body := by
  induction reach with
  | start =>
      intro d inside name body found
      rw [List.mem_singleton.mp inside] at found
      cases found
  | @step w w' move before may moved ih =>
      intro d inside name body found unreadable
      have earlier := distinct.offering moved.offered
      have kept := (before.mono fun _ _ untouched => untouched.underKey).kept earlier
      obtain ⟨e, there, found'⟩ := kept.harmless may moved distinct inside found unreadable
      exact ih earlier e there name body found' unreadable

/-! ### What is delivered -/

/-- A v1 batch in the log holds the record. -/
def World.DeliveredV1 (w : World) (record : HubBatchRecordV1) : Prop :=
  ∃ event ∈ w.log, ∃ batch, event.reply = some (.ok (.batch batch)) ∧ record ∈ batch.records

/-- A v1 record is an admitted one, as its file reads back. -/
def HubBatchRecordV1.StemsFrom (host : Host) (delivered : HubBatchRecordV1)
    (record : StoredRecord Str) : Prop :=
  record.recordId = delivered.recordId ∧
    (record.map host.codec.parse).envelope = delivered.envelope

/-- Whatever is delivered under the first protocol was admitted. -/
theorem Reach.deliveredV1 (reach : Reach (UnderKey key host) w)
    (distinct : DistinctNotices host w.Offered) {delivered : HubBatchRecordV1}
    (success : w.DeliveredV1 delivered) :
    ∃ s record, Admitted key w.timeline s record ∧ delivered.StemsFrom host record := by
  have all := reach.told (P := fun timeline event => ∀ batch,
    event.reply = some (.ok (.batch batch)) → ∀ delivered ∈ batch.records,
      ∃ s record, Admitted key timeline s record ∧ delivered.StemsFrom host record)
    (fun _ _ offer => offer) distinct ?_ ?_ ?_ ?_ ?_
  · obtain ⟨event, inside, batch, replied, here⟩ := success
    exact all event inside batch replied delivered here
  · intro older newer event later holds batch replied delivered here
    obtain ⟨s, record, admitted, stems⟩ := holds batch replied delivered here
    exact ⟨s, record, admitted.mono later, stems⟩
  · intro d e older event same holds batch replied delivered here
    obtain ⟨s, record, admitted, stems⟩ := holds batch replied delivered here
    refine ⟨s, record, ?_, stems⟩
    rw [admitted_cons] at admitted ⊢
    rwa [same.read]
  · intro timeline s request batch replied
    cases replied
  · intro timeline s request error batch replied
    cases replied
  · intro inner m m' request reply answered batch replied delivered here
    obtain rfl : reply = .batch batch := Except.ok.inj (Option.some.inj replied)
    obtain ⟨rfl, rfl, began, -, -, tells⟩ := answered
    have read : ReadBetween inner noOffers m m' delivered := by
      cases request <;> exact tells delivered here
    obtain ⟨entry, stored, at_, reached, later, held, decoded, rfl⟩ := read
    have sound := (Chain.offering reached).sound distinct began
    obtain ⟨record, admitted, legacy, stable, rfl⟩ := sound.decoded held decoded
    exact ⟨entry.spoolSeq, record, admitted.mono later.timeline, rfl, rfl⟩

/-- No delivered notice blames the integrity of a record that nothing has spoiled. -/
theorem Reach.spared (reach : Reach (UnderKey key host) w)
    (distinct : DistinctNotices host w.Offered)
    (blameless : Blameless key host w.Offered w.timeline) {notice : GapNoticeV2}
    (success : w.Delivered (.gap notice)) : notice.reason ≠ .integrityQuarantine := by
  have all := reach.told (P := fun timeline event =>
    Blameless key host w.Offered timeline → ∀ batch, event.Delivered batch →
      ∀ notice ∈ batch.gaps, notice.reason ≠ .integrityQuarantine)
    (fun _ _ offer => offer) distinct ?_ ?_ ?_ ?_ ?_
  · obtain ⟨event, inside, batch, delivered, ⟨record, -, same⟩ | ⟨other, here, same⟩⟩ := success
    · cases same
    · obtain rfl := BatchItemV2.gap.inj same
      exact all event inside blameless batch delivered notice here
  · exact fun older newer event later holds blameless => holds (blameless.back later)
  · intro d e older event same holds blameless
    refine holds ⟨blameless.exact_, fun f inside name body found => ?_⟩
    rcases List.mem_cons.mp inside with rfl | inside
    · exact blameless.unharmed e List.mem_cons_self name body ((same.read _).trans found)
    · exact blameless.unharmed f (List.mem_cons_of_mem _ inside) name body found
  · intro timeline s request blameless batch delivered
    cases delivered
  · intro timeline s request error blameless batch delivered
    cases delivered
  · intro inner m m' request reply answered blameless batch delivered notice here
    obtain rfl : reply = .batchV2 batch := Except.ok.inj (Option.some.inj delivered)
    obtain ⟨items, built⟩ := answered.built
    obtain ⟨rfl, rfl, -, sound, ready, -⟩ := answered
    rcases built.gap_source ready.keyed here with ⟨noticeId, gap, found, rfl⟩ |
      ⟨entry, held, -, rfl⟩
    · have stands := sound.backed.gap noticeId gap found
      rw [sound.backed.pathed.gaps noticeId gap found] at stands
      exact sound.lawful.integrity blameless _ _ stands
    · simp [gapNotice, gapNoticeForIdentity]

/-- What becomes of the envelopes that `enqueue` has answered it stored. -/
structure World.Unchanged (host : Host) (w : World) : Prop where
  /-- While its entry is held, `read_entry` succeeds and returns the envelope. -/
  reads : ∀ event ∈ w.log, ∀ envelope, event.Stored envelope →
    ∀ process, w.process = some process → ∀ entry, process.state.Holds entry →
      entry.spoolSeq = event.spoolSeq → ∃ stored,
        decodeEntry process.inner entry (w.disk.read entry.path) = .ok stored ∧
        stored.envelope = envelope ∧ stored.recordId = envelope.recordId host ∧
        stored.stableRecordId = some (envelope.stableRecordId host)
  /-- A record delivered under its sequence is the envelope with its identities. -/
  records : ∀ event ∈ w.log, ∀ envelope, event.Stored envelope →
    ∀ delivered, w.Delivered (.record delivered) → delivered.spoolSeq = event.spoolSeq →
      delivered.envelope = envelope ∧ delivered.legacyRecordId = envelope.recordId host ∧
      delivered.recordId = envelope.stableRecordId host
  /-- A v1 record is the envelope offered for some sequence, and the one stored for it. -/
  recordsV1 : ∀ delivered, w.DeliveredV1 delivered → ∃ s, w.Offered s delivered.envelope ∧
    delivered.recordId = delivered.envelope.recordId host ∧
    ∀ event ∈ w.log, ∀ envelope, event.Stored envelope → event.spoolSeq = s →
      delivered.envelope = envelope
  /-- No notice replaces a record for want of integrity. -/
  notices : ∀ notice, w.Delivered (.gap notice) → notice.reason ≠ .integrityQuarantine

/-- Envelopes whose payloads come back from a stored record as they went in are delivered
unchanged. -/
theorem stored_delivered_unchanged (reach : Reach (Untouched key host) w)
    (distinct : DistinctNotices host w.Offered) (exact_ : ExactPayloads host w.Offered) :
    w.Unchanged host := by
  have under := reach.mono fun _ _ untouched => untouched.underKey
  have kept := under.kept distinct
  have blameless : Blameless key host w.Offered w.timeline := ⟨exact_, reach.unharmed distinct⟩
  have law := kept.always.laws _ _ (List.suffix_refl _)
  -- an admission under the sequence of a stored envelope reads back to that envelope
  have reads : ∀ event ∈ w.log, ∀ envelope, event.Stored envelope → ∀ record,
      Admitted key w.timeline event.spoolSeq record →
        (record.map host.codec.parse).envelope = envelope ∧
        record.recordId = envelope.recordId host ∧
        record.stableRecordId = some (envelope.stableRecordId host) := by
    intro event inside envelope stored record admitted
    obtain ⟨other, admitted', legacy, stable, content⟩ :=
      kept.stored event inside envelope stored
    obtain rfl := law.once _ _ _ admitted admitted'
    refine ⟨?_, legacy, stable⟩
    have offer : w.Offered event.spoolSeq envelope := by
      obtain ⟨admittedAtMs, recordId, asked, -⟩ := stored
      exact ⟨event, inside, rfl, admittedAtMs, asked⟩
    change record.envelope.map host.codec.parse = envelope
    rw [content]
    exact envelope_readsBack (exact_ _ _ offer).numbers
  refine ⟨fun event inside envelope stored process running entry held same => ?_,
    fun event inside envelope stored delivered success same => ?_,
    fun delivered success => ?_, fun notice success => under.spared distinct blameless success⟩
  · obtain ⟨rfl, rfl, backing⟩ := kept.running process running
    obtain ⟨record, admitted, decoded⟩ := (backing .none).1.decodes blameless held
    rw [same] at admitted
    obtain ⟨content, legacy, stable⟩ := reads event inside envelope stored record admitted
    exact ⟨_, decoded, content, legacy, stable⟩
  · obtain ⟨record, admitted, stable', legacy', -, -, content'⟩ := kept.deliveredFrom success
    change Admitted key w.timeline delivered.spoolSeq record at admitted
    rw [same] at admitted
    obtain ⟨content, legacy, stable⟩ := reads event inside envelope stored record admitted
    rw [stable] at stable'
    exact ⟨content'.symm.trans content, legacy'.symm.trans legacy, (Option.some.inj stable').symm⟩
  · obtain ⟨s, record, admitted, legacy, content⟩ := under.deliveredV1 distinct success
    obtain ⟨envelope, back⟩ := law.readsBack exact_ admitted
    obtain rfl : delivered.envelope = envelope := content.symm.trans back.content
    refine ⟨s, back.offer, legacy.symm.trans back.recordId,
      fun event inside envelope stored same => ?_⟩
    rw [← same] at admitted
    exact content.symm.trans (reads event inside envelope stored record admitted).1

end Runs

/-! ### An envelope that is delivered, before and after a reopening -/

/-- An envelope whose payload holds an object, an array and a number that is no integer. -/
def nestedEnvelope : Envelope :=
  { sampleEnvelope "a" with
    payload := .obj [("doors".toList, .arr [.bool true, .int 2]),
      ("drive".toList, .obj [("speed".toList, .float 0)])] }

/-- The envelope is stored and pulled, the spool is opened again, and the envelope is pulled as a v2
record. -/
def reopenedPull : List Move :=
  [.openSpool (sampleInner 4) (sampleTime 0) .none,
    .call (.enqueue nestedEnvelope (sampleTime 1)) .none,
    .call (.nextBatch (sampleTime 2)) .none,
    .drop,
    .openSpool (sampleInner 4) (sampleTime 3) .none,
    .call (.nextBatchV2 2 (sampleTime 4)) .none]

theorem reopenedPull_untouched :
    ∀ w, ∀ move ∈ reopenedPull, Untouched sampleKey (referenceHost integerCodec) w move := by
  intro w move inside
  simp only [reopenedPull, List.mem_cons, List.not_mem_nil, or_false] at inside
  rcases inside with rfl | rfl | rfl | rfl | rfl | rfl
  · exact ⟨rfl, rfl⟩
  · trivial
  · trivial
  · trivial
  · exact ⟨rfl, rfl⟩
  · trivial

theorem reopenedPull_plays :
    ((World.fresh.play reopenedPull).any fun w => decide w.OffersOnce &&
      (w.log.any fun event => event.storedEnvelope?.isSome) &&
      w.lastBatch.any fun batch => decide (batch.records.length = 1)) = true := by
  decide +kernel

theorem nestedEnvelope_exact : nestedEnvelope.Exact integerCodec := by
  refine ⟨fun x float => ?_, by decide⟩
  simp only [nestedEnvelope, Json.floats, Json.itemFloats, Json.fieldFloats, List.append_nil,
    List.nil_append, List.mem_singleton] at float
  exact float.symm

theorem stored_delivered_unchanged_reopenedPull :
    ∃ w : World, (∃ event ∈ w.log, event.Stored nestedEnvelope) ∧
      (∃ delivered, w.Delivered (.record delivered)) ∧
      w.Unchanged (referenceHost integerCodec) := by
  obtain ⟨w, played, shows⟩ := (Option.any_eq_true _ _).mp reopenedPull_plays
  rw [Bool.and_eq_true, Bool.and_eq_true, decide_eq_true_eq, List.any_eq_true] at shows
  obtain ⟨⟨once, event, inside, stored⟩, shows⟩ := shows
  have offers : ∀ call ∈ w.log, ∀ envelope admittedAtMs,
      call.request = .enqueue envelope admittedAtMs → envelope = nestedEnvelope := by
    intro call here envelope admittedAtMs asked
    rcases World.call_of_play played call here with before | ⟨faults, move⟩
    · exact absurd before List.not_mem_nil
    · simp only [reopenedPull, asked, List.mem_cons, reduceCtorEq, Move.call.injEq,
        Request.enqueue.injEq, List.not_mem_nil, or_false, false_or, false_and] at move
      exact move.1.1
  obtain ⟨envelope, found⟩ := Option.isSome_iff_exists.mp stored
  have success := Event.stored_of_storedEnvelope? found
  obtain ⟨admittedAtMs, recordId, asked, -⟩ := id success
  rw [offers event inside envelope admittedAtMs asked] at success
  obtain ⟨batch, last, one⟩ := (Option.any_eq_true _ _).mp shows
  rw [decide_eq_true_eq] at one
  obtain ⟨record, single⟩ := List.length_eq_one_iff.mp one
  refine ⟨w, ⟨event, inside, success⟩, ⟨record, w.delivered_of_lastBatch last (.inl ⟨record, ?_, rfl⟩)⟩,
    stored_delivered_unchanged (World.reach_of_play .start reopenedPull_untouched played)
      (once.distinctNotices _) ?_⟩
  · rw [single]
    exact List.mem_singleton_self record
  · rintro s other ⟨call, here, -, otherMs, offered⟩
    rw [offers call here other otherMs offered]
    exact nestedEnvelope_exact

/-! ### A payload that is nested too deep -/

/-- Arrays within arrays. -/
def nestedArrays {φ : Type} : Nat → Json φ
  | 0 => .null
  | levels + 1 => .arr [nestedArrays levels]

/-- Nested arrays are as deep as there are levels. -/
theorem depth_nestedArrays {φ : Type} (levels : Nat) :
    (nestedArrays levels : Json φ).depth = levels := by
  induction levels with
  | zero => rfl
  | succ levels ih => rw [nestedArrays, Json.depth, Json.itemsDepth, Json.itemsDepth, ih]; simp

theorem size_nestedArrays (levels : Nat) :
    (nestedArrays levels : JsonText).size = 4 + 2 * levels := by
  induction levels with
  | zero => rfl
  | succ levels ih => rw [nestedArrays, Json.size, Json.itemsSize, ih]; omega

/-- Nested arrays repeat no key. -/
theorem uniqueValue_nestedArrays (codec : FloatCodec) (levels : Nat) :
    uniqueValue codec (nestedArrays levels) = .ok (nestedArrays levels) := by
  induction levels with
  | zero => rfl
  | succ levels ih => rw [nestedArrays, uniqueValue, uniqueItems, ih]; rfl

/-- A payload of one hundred and twenty-six levels. -/
def deepPayload {φ : Type} : Json φ := .obj [("a".toList, nestedArrays 125)]

/-- A receiver body with that payload. -/
def deepBody : JsonText :=
  .obj [("version".toList, .int 1), ("vin".toList, .str "5YJ3E1EA7KF000001".toList),
    ("txid".toList, .str "a".toList), ("tx_type".toList, .str "vehicle_data".toList),
    ("received_at_ms".toList, .int 1800000000000), ("timestamp_ms".toList, .int 1800000000000),
    ("payload".toList, deepPayload)]

def deepEnvelope : Envelope := { sampleEnvelope "a" with payload := deepPayload }

/-- The body itself stays below the limit of the parser. -/
theorem depth_deepBody : deepBody.depth < Json.recursionLimit := by
  simp only [deepBody, deepPayload, Json.depth, Json.fieldsDepth, depth_nestedArrays]
  decide

/-- The envelope is admitted, and a batch is pulled well before its deadline. -/
def deepPull : List Move :=
  [.openSpool (sampleInner 4) (sampleTime 0) .none,
    .call (.enqueue deepEnvelope (sampleTime 1)) .none,
    .call (.nextBatchV2 2 (sampleTime 2)) .none]

theorem deepPull_untouched :
    ∀ w, ∀ move ∈ deepPull, Untouched sampleKey (referenceHost integerCodec) w move := by
  intro w move inside
  simp only [deepPull, List.mem_cons, List.not_mem_nil, or_false] at inside
  rcases inside with rfl | rfl | rfl
  · exact ⟨rfl, rfl⟩
  · trivial
  · trivial

theorem deepPull_plays :
    ((World.fresh.play deepPull).any fun w => decide w.OffersOnce &&
      (w.log.any fun event => event.storedEnvelope?.isSome) &&
      w.lastBatch.any fun batch =>
        batch.gaps.any fun notice => decide (notice.reason = .integrityQuarantine)) = true := by
  decide +kernel

/-- The receiver admits the deep body. -/
theorem parseAt_deepBody :
    ReceiverEnvelope.parseAt (referenceHost integerCodec) deepBody (sampleTime 0) =
      .ok deepEnvelope := by
  have payload : uniqueValue integerCodec deepPayload = .ok deepPayload := by
    rw [deepPayload, uniqueValue, uniqueFields, uniqueValue_nestedArrays]
    rfl
  have small : ¬ deepBody.size > maxReceiverBodyBytes := by
    simp only [deepBody, deepPayload, Json.size, Json.fieldsSize, size_nestedArrays]
    decide
  rw [ReceiverEnvelope.parseAt, ReceiverEnvelope.parse, if_neg small, deepBody]
  simp only [referenceHost, uniqueValue, uniqueFields, payload]
  rfl

/-- A body the receiver accepts is stored, and delivered as an integrity gap although nothing has
been damaged. -/
theorem stored_lost_to_nesting :
    deepBody.depth < Json.recursionLimit ∧
    ReceiverEnvelope.parseAt (referenceHost integerCodec) deepBody (sampleTime 0) =
      .ok deepEnvelope ∧
    ∃ w : World, Reach (Untouched sampleKey (referenceHost integerCodec)) w ∧
      DistinctNotices (referenceHost integerCodec) w.Offered ∧
      (∃ event ∈ w.log, event.Stored deepEnvelope) ∧
      ¬ w.Unchanged (referenceHost integerCodec) := by
  refine ⟨depth_deepBody, parseAt_deepBody, ?_⟩
  obtain ⟨w, played, shows⟩ := (Option.any_eq_true _ _).mp deepPull_plays
  rw [Bool.and_eq_true, Bool.and_eq_true, decide_eq_true_eq] at shows
  obtain ⟨⟨once, stores⟩, shows⟩ := shows
  refine ⟨w, World.reach_of_play .start deepPull_untouched played, once.distinctNotices _, ?_,
    fun unchanged => ?_⟩
  · obtain ⟨event, inside, stored⟩ := List.any_eq_true.mp stores
    obtain ⟨envelope, found⟩ := Option.isSome_iff_exists.mp stored
    have success := Event.stored_of_storedEnvelope? found
    obtain ⟨admittedAtMs, recordId, asked, -⟩ := id success
    rcases World.call_of_play played event inside with before | ⟨faults, move⟩
    · exact absurd before List.not_mem_nil
    · simp only [deepPull, asked, List.mem_cons, reduceCtorEq, Move.call.injEq,
        Request.enqueue.injEq, List.not_mem_nil, or_false, false_or, false_and] at move
      rw [move.1.1] at success
      exact ⟨event, inside, success⟩
  · obtain ⟨batch, last, shows⟩ := (Option.any_eq_true _ _).mp shows
    obtain ⟨notice, inside, reason⟩ := List.any_eq_true.mp shows
    exact unchanged.notices notice (w.delivered_of_lastBatch last (.inr ⟨notice, inside, rfl⟩))
      (of_decide_eq_true reason)

end TeslatlasEdge
