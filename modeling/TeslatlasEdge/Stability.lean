/-
Module: TeslatlasEdge.Stability
Purpose: Admissions go behind everything that is pending, so a v2 batch that was closed by a limit is
  built again however much telemetry arrives.
Trusted boundary: none
Main exports: Grows, scanV2_append, World.ingest, full_batch_stable_under_ingest
-/
import TeslatlasEdge.Delivery

namespace TeslatlasEdge

open Lib
open Section

variable {inner : Inner} {m m₁ m' : Machine}

/-! ### Scanning more candidates -/

theorem candidateItem_run {counted : OrdMap Nat RecordId} {candidate : BatchCandidateV2}
    {item : BatchItemV2} (delivers : Delivers inner m.disk counted candidate item) :
    (candidateItem inner counted candidate).run m = .ok (some item) m := by
  have post := post_candidateItem_delivers delivers
  cases ran : (candidateItem inner counted candidate).run m with
  | ok answer m' =>
      obtain ⟨rfl, rfl⟩ := post.of_ok ran
      rfl
  | error error m' => exact (post.of_error ran).elim

/-- A scan that stops early does not see the candidates behind, and depends on a machine only through
the files of the candidates. -/
theorem scanV2_append {counted : OrdMap Nat RecordId} {remaining : List BatchCandidateV2}
    {items : List BatchItemV2} {scan result : ScanV2} (more : List BatchCandidateV2)
    (stands : List.Forall₂ (Delivers inner m.disk counted) remaining items)
    (stands₁ : List.Forall₂ (Delivers inner m₁.disk counted) remaining items)
    (ran : (scanV2 inner counted remaining scan).run m = .ok result m') :
    result.quarantined = scan.quarantined ∧
      (result.records.length + result.gaps.length <
          scan.records.length + scan.gaps.length + remaining.length →
        (scanV2 inner counted (remaining ++ more) scan).run m₁ = .ok result m₁) := by
  induction stands generalizing scan with
  | nil =>
      obtain ⟨rfl, -⟩ := EStateM.Result.ok.inj ran
      exact ⟨rfl, fun early => absurd early (by simp)⟩
  | @cons candidate item remaining items delivers stands ih =>
      cases stands₁ with
      | cons delivers₁ stands₁ =>
          rw [List.cons_append]
          simp only [scanV2] at ran ⊢
          by_cases full :
              saturatingAdd scan.records.length scan.gaps.length ≥ inner.config.batchMaxRecords
          · rw [if_pos full] at ran ⊢
            obtain ⟨rfl, -⟩ := EStateM.Result.ok.inj ran
            exact ⟨rfl, fun _ => rfl⟩
          · rw [if_neg full, run_bind_of_ok (candidateItem_run delivers)] at ran
            rw [if_neg full, run_bind_of_ok (candidateItem_run delivers₁)]
            simp only at ran ⊢
            split at ran
            · obtain ⟨rfl, -⟩ := EStateM.Result.ok.inj ran
              rw [if_pos ‹_›]
              exact ⟨rfl, fun _ => rfl⟩
            · rw [if_neg ‹_›]
              split at ran
              · obtain ⟨rfl, -⟩ := EStateM.Result.ok.inj ran
                rw [if_pos ‹_›]
                exact ⟨rfl, fun _ => rfl⟩
              · rw [if_neg ‹_›]
                split at ran
                · cases ran
                · rw [if_neg ‹_›]
                  have pushed : (scan.push (encodedSize inner.host item.toJson) item).quarantined =
                      scan.quarantined := by
                    cases item <;> rfl
                  obtain ⟨clean, further⟩ := ih stands₁ ran
                  refine ⟨clean.trans pushed, fun early => further ?_⟩
                  cases item <;> simp only [ScanV2.push, List.length_append,
                    List.length_cons] at early ⊢ <;> omega

/-! ### Admissions go to the end -/

/-- The candidates are the entries and the gaps. -/
theorem candidates_perm (state : State) :
    (candidates state).Perm
      (state.entries.values.map .record ++ (state.gaps.values.map (·.notice)).map .gap) := by
  refine (List.perm_insertionSort _ _).trans ?_
  exact ((List.perm_insertionSort _ _).map _).append_right _

/-- Candidates in strict order repeat no sequence. -/
theorem repeatsSequence_of_ordered {cands : List BatchCandidateV2}
    (ordered : cands.Pairwise fun a b => a.spoolSeq < b.spoolSeq) :
    repeatsSequence cands = false := by
  induction cands with
  | nil => rfl
  | cons first rest ih =>
      obtain ⟨below, ordered⟩ := List.pairwise_cons.mp ordered
      cases rest with
      | nil => rfl
      | cons second rest =>
          simp only [repeatsSequence, ih ordered, Bool.or_false, decide_eq_false_iff_not]
          exact (below second List.mem_cons_self).ne

/-- An entry behind everything that is pending becomes the last candidate. -/
theorem candidates_insert {state state' : State} {entry : Entry}
    (entries : state'.entries = state.entries.insert entry.recordId entry)
    (absent : state.entries.get? entry.recordId = none) (gaps : state'.gaps = state.gaps)
    (ordered : (candidates state).Pairwise fun a b => a.spoolSeq < b.spoolSeq)
    (last : ∀ candidate ∈ candidates state, candidate.spoolSeq < entry.spoolSeq) :
    candidates state' = candidates state ++ [.record entry] ∧
      (candidates state').Pairwise fun a b => a.spoolSeq < b.spoolSeq := by
  have behind : (candidates state ++ [BatchCandidateV2.record entry]).Pairwise
      fun a b => a.spoolSeq < b.spoolSeq :=
    List.pairwise_append.mpr ⟨ordered, List.pairwise_singleton _ _,
      fun a inside b same => by rw [List.mem_singleton.mp same]; exact last a inside⟩
  have values : state'.entries.values.Perm (entry :: state.entries.values) := by
    rw [entries]
    exact OrdMap.values_insert_perm entry absent
  have perm : (candidates state').Perm (candidates state ++ [.record entry]) := by
    refine (candidates_perm state').trans ?_
    rw [gaps]
    refine ((values.map _).append_right _).trans ?_
    exact ((candidates_perm state).symm.cons _).trans (List.perm_append_singleton _ _).symm
  have same : candidates state' = candidates state ++ [.record entry] := by
    refine perm.eq_of_pairwise ?_ (candidates_sorted state') (behind.imp le_of_lt)
    intro a b inside inside' le ge
    have distinct := nodup_map_of_ordered behind fun a _ b _ same => same
    exact List.inj_on_of_nodup_map distinct (perm.subset inside) inside' (le_antisymm le ge)
  exact ⟨same, by rw [same]; exact behind⟩

/-- What admissions do to the pending items: more of them stand behind those there were. -/
structure Grows (m m' : Machine) : Prop where
  queued : ∃ more, candidates m'.state = candidates m.state ++ more
  ordered : (candidates m'.state).Pairwise fun a b => a.spoolSeq < b.spoolSeq
  holds : ∀ entry, m.state.Holds entry → m'.state.Holds entry
  reads : ∀ entry, m.state.Holds entry → m'.disk.read entry.path = m.disk.read entry.path
  counted : m'.state.countedPendingExpirations = m.state.countedPendingExpirations
  unresolved : m'.state.unresolvedIntegrity = m.state.unresolvedIntegrity

theorem Grows.trans (first : Grows m m₁) (later : Grows m₁ m') : Grows m m' where
  queued := by
    obtain ⟨some, first⟩ := first.queued
    obtain ⟨more, later⟩ := later.queued
    exact ⟨some ++ more, by rw [later, first, List.append_assoc]⟩
  ordered := later.ordered
  holds entry held := later.holds entry (first.holds entry held)
  reads entry held := (later.reads entry (first.holds entry held)).trans (first.reads entry held)
  counted := later.counted.trans first.counted
  unresolved := later.unresolved.trans first.unresolved

/-- A machine that keeps its state and the files of its entries keeps its queue. -/
theorem Grows.of_same (ordered : (candidates m.state).Pairwise fun a b => a.spoolSeq < b.spoolSeq)
    (state : m'.state = m.state)
    (reads : ∀ entry, m.state.Holds entry → m'.disk.read entry.path = m.disk.read entry.path) :
    Grows m m' where
  queued := ⟨[], by rw [state, List.append_nil]⟩
  ordered := by rwa [state]
  holds entry held := by rwa [state]
  reads := reads
  counted := by rw [state]
  unresolved := by rw [state]

theorem Grows.of_admitted {entry : Entry} {next : Nat}
    (absent : m.state.entries.get? entry.recordId = none)
    (ordered : (candidates m.state).Pairwise fun a b => a.spoolSeq < b.spoolSeq)
    (last : ∀ candidate ∈ candidates m.state, candidate.spoolSeq < entry.spoolSeq)
    (state : m'.state = { m.state.admitEntry entry with nextSpoolSequence := next })
    (reads : ∀ other, m.state.Holds other → m'.disk.read other.path = m.disk.read other.path) :
    Grows m m' := by
  have entries : m'.state.entries = m.state.entries.insert entry.recordId entry := by rw [state]; rfl
  obtain ⟨queued, ordered'⟩ :=
    candidates_insert entries absent (by rw [state]; rfl) ordered last
  refine ⟨⟨_, queued⟩, ordered', fun other held => ?_, reads, by rw [state]; rfl,
    by rw [state]; rfl⟩
  rw [State.Holds, entries, OrdMap.get?_insert, if_neg]
  · exact held
  · intro same
    rw [State.Holds, same, absent] at held
    cases held

/-- Only the state and the disk of the machines matter. -/
theorem Grows.congr {n n' : Machine} (grows : Grows m m') (state : n.state = m.state)
    (disk : n.disk = m.disk) (state' : n'.state = m'.state) (disk' : n'.disk = m'.disk) :
    Grows n n' := by
  obtain ⟨queued, ordered, holds, reads, counted, unresolved⟩ := grows
  constructor
  · rwa [state, state']
  · rwa [state']
  · rwa [state, state']
  · rwa [state, disk, disk']
  · rwa [state, state']
  · rwa [state, state']

/-- Everything that is pending has a sequence below the next one. -/
theorem Sound.candidates_below {offered : Nat → Envelope → Prop} {since : List Disk}
    (sound : Sound inner.key inner.host offered since m) (ready : Ready inner.key m)
    (open_ : m.storageWriteFailed = false) :
    ∀ candidate ∈ candidates m.state, candidate.spoolSeq < m.state.nextSpoolSequence := by
  intro candidate inside
  cases candidate with
  | record entry => exact ready.numbered.below entry (ready.keyed.holds (mem_candidates_record.mp inside))
  | gap notice =>
      obtain ⟨gap, here, rfl⟩ := mem_candidates_gap.mp inside
      obtain ⟨noticeId, found⟩ := OrdMap.mem_values_iff.mp here
      obtain ⟨record, -, admitted, -⟩ := sound.heldNotice found
      refine (sound.backed.next _ _ admitted).resolve_right fun latched => ?_
      rw [open_] at latched
      cases latched.1

/-- A record that is not indexed has an identity no entry has. -/
theorem Sound.entries_absent {offered : Nat → Envelope → Prop} {since : List Disk}
    (sound : Sound inner.key inner.host offered since m) (keyed : m.state.Keyed)
    (faithful : FaithfulIds inner.host offered) {envelope : Envelope} {s : Nat}
    (offer : offered s envelope)
    (absent : m.state.stableIndex.get? (envelope.stableRecordId inner.host) = none) :
    m.state.entries.get? (envelope.recordId inner.host) = none := by
  cases found : m.state.entries.get? (envelope.recordId inner.host) with
  | none => rfl
  | some entry =>
      have held : m.state.Holds entry := by
        rw [State.Holds, keyed _ _ found]
        exact found
      obtain ⟨record, admitted, recordId, stable⟩ := sound.backed.entry entry held
      obtain ⟨-, -, inner', other, _, sameHost, offer', -, rfl⟩ :=
        sound.lawful.origin _ _ admitted
      have sameStable : other.stableRecordId inner.host = envelope.stableRecordId inner.host := by
        refine faithful _ _ _ _ offer' offer ?_
        rw [← keyed _ _ found, ← recordId, ← sameHost]
        rfl
      have indexed := (sound.accounts faithful).indexed entry held
      have here : entry.stableRecordId = other.stableRecordId inner.host := by
        rw [← sameHost]
        exact (Option.some.inj stable).symm
      rw [here, sameStable, absent] at indexed
      cases indexed

/-- One admission, whatever comes of it. -/
theorem post_enqueue_grows {offered : Nat → Envelope → Prop} {since : List Disk}
    {envelope : Envelope} {admittedAtMs : I64}
    (sound : Sound inner.key inner.host offered since m) (ready : Ready inner.key m)
    (faithful : FaithfulIds inner.host offered)
    (offer : offered m.state.nextSpoolSequence envelope)
    (ordered : (candidates m.state).Pairwise fun a b => a.spoolSeq < b.spoolSeq) :
    Post (enqueue inner envelope admittedAtMs).run m (fun _ m' => Grows m m')
      (fun _ m' => Grows m m') := by
  have same : Grows m m := .of_same ordered rfl fun _ _ => rfl
  unfold enqueue
  split
  · exact same
  · simp only [Call.run_bind, Call.run_atomic, post_bind, post_get, post_ite, post_throw, post_pure]
    refine ⟨fun _ => same, fun open_ => ?_⟩
    rw [Bool.not_eq_true] at open_
    simp only [enqueueLocked, post_bind, post_state]
    cases known : m.state.stableIndex.get? (envelope.stableRecordId inner.host) with
    | some existing => exact same
    | none =>
        cases sum : checkedAdd m.state.nextSpoolSequence 1 with
        | none => exact same
        | some next =>
            simp only [post_bind, post_ite, post_throw, post_pure]
            refine ⟨fun _ => same, fun _ => ⟨fun _ => same, fun _ => ⟨fun _ => same,
              fun _ => ⟨fun _ => same, fun _ => ?_⟩⟩⟩⟩
            -- the file of the new entry is none of those there are
            have absent := sound.entries_absent ready.keyed faithful offer known
            have apart : ∀ entry, m.state.Holds entry → entry.path ≠
                .pending (pendingFileName m.state.nextSpoolSequence
                  (envelope.recordId inner.host)) := by
              intro entry held
              rw [ready.pathed.entries entry held]
              intro clash
              have id := pendingFileName_recordId (Path.pending.inj clash)
              rw [State.Holds, id, absent] at held
              cases held
            have unplaced : ∀ {m₁ : Machine}, m₁.state = m.state → (∀ path, path ≠
                .pending (pendingFileName m.state.nextSpoolSequence
                  (envelope.recordId inner.host)) → m₁.disk.read path = m.disk.read path) →
                Grows m m₁ := fun state reads =>
              .of_same ordered state fun entry held => reads _ (apart entry held)
            apply post_writeAtomic
            · exact fun _ => same
            · intro _ faults _
              simp only [post_modifyState]
              suffices grown : ∀ m₂ : Machine, _ → Grows m m₂ from
                post_persistCurrentSequenceState_reads.mono (fun _ => grown) fun _ => grown
              rintro m₂ ⟨state, reads⟩
              refine Grows.of_admitted ?_ ordered ?_ state fun entry held => ?_
              · exact absent
              · exact sound.candidates_below ready open_
              · rw [ready.pathed.entries entry held, reads]
                change (m.disk.put _ (.pending _)).read _ = _
                rw [Disk.read_put, ← ready.pathed.entries entry held, if_neg (apart entry held)]
            · exact fun _ _ _ _ _ => unplaced rfl fun _ _ => rfl
            · exact fun _ _ _ _ _ => unplaced rfl fun _ _ => rfl
            · exact fun _ _ _ _ _ => unplaced rfl fun path different =>
                (Disk.read_put _ _ _ _).trans (if_neg different)

/-! ### Ingest -/

/-- The calls that offer envelopes, each at a time and with what may fail in it. -/
def ingest (offers : List (Envelope × I64 × Faults)) : List Move :=
  offers.map fun offer => .call (.enqueue offer.1 offer.2.1) offer.2.2

/-- What was offered before a script was offered after it. -/
theorem World.offered_of_play {moves : List Move} {w w' : World} (played : w.play moves = some w')
    (s : Nat) (envelope : Envelope) (offer : w.Offered s envelope) : w'.Offered s envelope := by
  induction moves generalizing w with
  | nil =>
      obtain rfl := Option.some.inj played
      exact offer
  | cons move rest ih =>
      obtain ⟨next, acted, played⟩ := Option.bind_eq_some_iff.mp played
      exact ih played ((World.step_of_act acted).offered s envelope offer)

/-- Any number of admissions. -/
theorem grows_of_ingest {key : EncryptionKey} {host : Host} {w w' : World} {process : Process}
    {offers : List (Envelope × I64 × Faults)} (reach : Reach (UnderKey key host) w)
    (running : w.process = some process)
    (ordered : (candidates process.state).Pairwise fun a b => a.spoolSeq < b.spoolSeq)
    (played : w.play (ingest offers) = some w') (distinct : DistinctNotices host w'.Offered)
    (faithful : FaithfulIds host w'.Offered) :
    ∃ process', w'.process = some process' ∧ process'.inner = process.inner ∧
      ∀ faults faults', Grows (w.machine process faults) (w'.machine process' faults') := by
  induction offers generalizing w process with
  | nil =>
      obtain rfl := Option.some.inj played
      exact ⟨process, running, rfl, fun faults faults' => .of_same ordered rfl fun _ _ => rfl⟩
  | cons offer rest ih =>
      obtain ⟨envelope, admittedAtMs, faults₁⟩ := offer
      obtain ⟨next, acted, played⟩ := Option.bind_eq_some_iff.mp played
      have stepped := World.step_of_act acted
      have later := World.offered_of_play played
      have before := fun s envelope offer => later s envelope (stepped.offered s envelope offer)
      obtain ⟨rfl, rfl, backing⟩ :=
        (reach.kept (distinct.offering before)).running process running
      obtain ⟨sound, ready⟩ := backing faults₁
      simp only [World.act, running, Option.some.injEq] at acted
      subst acted
      have grown : Grows (w.machine process faults₁)
          (finalState (w.serve process (.enqueue envelope admittedAtMs) faults₁)) := by
        refine Post.final ?_
        simp only [Request.call, Call.run_bind, post_bind, Call.run_pure, post_pure]
        refine post_enqueue_grows (sound.offering before) ready faithful ?_ ordered
        exact later _ _ ⟨_, List.mem_cons_self, rfl, admittedAtMs, rfl⟩
      obtain ⟨process', running', sameInner, grows⟩ :=
        ih (@Reach.step _ w _ (.call _ _) reach trivial stepped) rfl grown.ordered played
      refine ⟨process', running', sameInner, fun faults faults' => ?_⟩
      refine Grows.trans ?_ (grows .none faults')
      exact grown.congr rfl rfl rfl rfl

/-! ### A full batch stays -/

/-- The batch contains an item of the sequence. -/
def HubBatchV2.Lists (batch : HubBatchV2) (s : Nat) : Prop :=
  (∃ record ∈ batch.records, record.spoolSeq = s) ∨ ∃ notice ∈ batch.gaps, notice.spoolSeq = s

/-- A record or a gap of the sequence is pending. -/
def State.Pends (state : State) (s : Nat) : Prop :=
  (∃ entry, state.Holds entry ∧ entry.spoolSeq = s) ∨ state.HoldsGapFor s

theorem BatchItemV2.lists {items : List BatchItemV2} {batch : HubBatchV2}
    (records : batch.records = items.filterMap BatchItemV2.record?)
    (gaps : batch.gaps = items.filterMap BatchItemV2.gap?) {item : BatchItemV2}
    (inside : item ∈ items) : batch.Lists item.spoolSeq := by
  cases item with
  | record delivered =>
      refine .inl ⟨delivered, ?_, rfl⟩
      rw [records]
      exact List.mem_filterMap.mpr ⟨_, inside, rfl⟩
  | gap notice =>
      refine .inr ⟨notice, ?_, rfl⟩
      rw [gaps]
      exact List.mem_filterMap.mpr ⟨_, inside, rfl⟩

/-- A batch that leaves something out has fewer items than are pending. -/
theorem BatchOf.length_lt {batch : HubBatchV2} {items : List BatchItemV2}
    (built : BatchOf inner m batch items) {s : Nat} (pends : m.state.Pends s)
    (left : ¬ batch.Lists s) : items.length < (candidates m.state).length := by
  by_contra full
  have whole : List.Forall₂ (Delivers inner m.disk m.state.countedPendingExpirations)
      (candidates m.state) items := by
    have delivers := built.delivers
    rwa [List.take_of_length_le (not_lt.mp full)] at delivers
  have listed : ∀ candidate ∈ candidates m.state, batch.Lists candidate.spoolSeq := by
    intro candidate inside
    obtain ⟨item, here, delivers⟩ := exists_right_of_mem_forall₂ whole inside
    rw [← delivers.spoolSeq]
    exact BatchItemV2.lists built.records built.gaps here
  rcases pends with ⟨entry, held, rfl⟩ | ⟨noticeId, gap, found, rfl⟩
  · exact left (listed (.record entry)
      (mem_candidates_record.mpr (OrdMap.mem_values_iff.mpr ⟨_, held⟩)))
  · exact left (listed (.gap gap.notice)
      (mem_candidates_gap.mpr ⟨gap, OrdMap.mem_values_iff.mpr ⟨_, found⟩, rfl⟩))

/-- What a pass of `build_batch_v2` that returns has seen. -/
theorem buildBatchV2_scanned {restarts : Nat} {batch : HubBatchV2}
    (ran : (buildBatchV2 inner (restarts + 1)).run m = .ok batch m') :
    m.state.unresolvedIntegrity = false ∧ ∃ result m₂,
      (scanV2 inner m.state.countedPendingExpirations (candidates m.state) .start).run m =
        .ok result m₂ ∧
      (result.quarantined = false → batch =
        { version := 2
          batchId := batchIdV2 inner.host result.records result.gaps
          records := result.records
          gaps := result.gaps }) := by
  rw [buildBatchV2] at ran
  obtain ⟨⟨entries, counted⟩, m₁, observed, ran⟩ := run_bind_ok ran
  obtain ⟨notices, m₂, listed, ran⟩ := run_bind_ok ran
  rw [Call.run_atomic] at observed listed
  have first : Post (do
        let state ← state
        if state.unresolvedIntegrity then throw .corruptRecord
        return (sortBySeq Entry.spoolSeq state.entries.values, state.countedPendingExpirations))
      m (fun answer m' => m' = m ∧ m.state.unresolvedIntegrity = false ∧
        answer = (sortBySeq Entry.spoolSeq m.state.entries.values,
          m.state.countedPendingExpirations)) (fun _ _ => True) := by
    simp only [post_bind, post_state, post_ite, post_throw, post_pure]
    refine ⟨fun _ => trivial, fun clear => ⟨trivial, by simpa using clear, trivial⟩⟩
  obtain ⟨rfl, clear, same⟩ := first.of_ok observed
  obtain ⟨rfl, rfl⟩ := Prod.mk.inj same
  have second : Post (do return (← state).gaps.values.map (·.notice) : Section (List GapNoticeV2)) m₁
      (fun answer m' => m' = m₁ ∧ answer = m₁.state.gaps.values.map (·.notice))
      (fun _ _ => True) := by
    simp only [post_bind, post_state, post_pure, and_self]
  obtain ⟨rfl, rfl⟩ := second.of_ok listed
  refine ⟨clear, ?_⟩
  dsimp only at ran
  change (if repeatsSequence (candidates m₂.state) = true then _ else _ :
    SpoolCall HubBatchV2).run m₂ = _ at ran
  split at ran
  · cases ran
  · obtain ⟨result, m₃, scanned, ran⟩ := run_bind_ok ran
    refine ⟨result, m₃, scanned, fun clean => ?_⟩
    rw [clean] at ran
    exact (EStateM.Result.ok.inj ran).1.symm

/-- The files of what was pending are as they were. -/
theorem Grows.items {candidate : BatchCandidateV2} {item : BatchItemV2} (grows : Grows m m₁)
    (keyed : m.state.Keyed) (inside : candidate ∈ candidates m.state)
    (delivers : Delivers inner m.disk m.state.countedPendingExpirations candidate item) :
    Delivers inner m₁.disk m.state.countedPendingExpirations candidate item := by
  cases delivers with
  | gap notice => exact .gap notice
  | backing expired read =>
      have held := keyed.holds (mem_candidates_record.mp inside)
      rw [← grows.reads _ held] at read
      exact .backing expired read
  | record live read =>
      have held := keyed.holds (mem_candidates_record.mp inside)
      rw [← grows.reads _ held] at read
      exact .record live read

/-- A batch that was closed by a limit is built again on a machine that has grown. -/
theorem Grows.built {restarts : Nat} {batch : HubBatchV2} {items queue : List BatchItemV2}
    (grows : Grows m m₁) (keyed : m.state.Keyed)
    (stands : ItemsOf inner m (candidates m.state) queue) (built : BatchOf inner m batch items)
    (short : items.length < (candidates m.state).length)
    (ran : (buildBatchV2 inner (restarts + 1)).run m = .ok batch m) (restarts' : Nat) :
    (buildBatchV2 inner (restarts' + 1)).run m₁ = .ok batch m₁ := by
  obtain ⟨clear, result, m₂, scanned, same⟩ := buildBatchV2_scanned ran
  obtain ⟨more, queued⟩ := grows.queued
  have stands₁ : List.Forall₂ (Delivers inner m₁.disk m.state.countedPendingExpirations)
      (candidates m.state) queue := by
    refine List.forall₂_iff_zip.mpr ⟨stands.length_eq, fun inside => ?_⟩
    exact grows.items keyed (List.of_mem_zip inside).1 (List.forall₂_iff_zip.mp stands |>.2 inside)
  obtain ⟨clean, further⟩ := scanV2_append more stands stands₁ scanned
  have batch_eq := same clean
  have early : result.records.length + result.gaps.length < 0 + 0 + (candidates m.state).length := by
    have records : batch.records = result.records := by rw [batch_eq]
    have gaps : batch.gaps = result.gaps := by rw [batch_eq]
    rw [← records, ← gaps, built.records, built.gaps, length_records_gaps]
    omega
  have again := further early
  have single := repeatsSequence_of_ordered grows.ordered
  have post : Post (buildBatchV2 inner (restarts' + 1)).run m₁
      (fun answer m' => answer = batch ∧ m' = m₁) (fun _ _ => False) := by
    simp only [buildBatchV2, Call.run_bind, Call.run_atomic, post_bind, post_state, post_ite,
      post_throw, post_pure]
    refine ⟨fun unresolved => ?_, fun _ => ?_⟩
    · rw [grows.unresolved, clear] at unresolved
      cases unresolved
    · change Post (if repeatsSequence (candidates m₁.state) = true then _ else _ :
        SpoolCall HubBatchV2).run m₁ _ _
      rw [if_neg (by rw [single]; exact Bool.false_ne_true), grows.counted]
      unfold Post
      rw [← candidates, queued, run_bind_of_ok again, clean]
      exact ⟨batch_eq.symm, rfl⟩
  cases ran₁ : (buildBatchV2 inner (restarts' + 1)).run m₁ with
  | ok answer m' =>
      obtain ⟨rfl, rfl⟩ := post.of_ok ran₁
      rfl
  | error error m' => exact (post.of_error ran₁).elim

/-- A batch that leaves something pending out is built again, identity and all, after any number of
admissions, whatever comes of them. -/
theorem full_batch_stable_under_ingest {key : EncryptionKey} {host : Host} {w w' : World}
    (reach : Reach (UnderKey key host) w) {process : Process} (running : w.process = some process)
    {faults : Faults} {restarts : Nat} {nowMs : I64}
    (intact : ReadsBackAll process.inner (w.machine process faults)) {batch : HubBatchV2}
    {after : Machine}
    (ran : (nextBatchV2 process.inner restarts nowMs).run (w.machine process faults) =
      .ok batch after) {s : Nat} (pends : after.state.Pends s) (left : ¬ batch.Lists s)
    {offers : List (Envelope × I64 × Faults)}
    (played : (w.pulled process restarts nowMs batch after).play (ingest offers) = some w')
    (distinct : DistinctNotices host w'.Offered) (faithful : FaithfulIds host w'.Offered)
    (short : ShortFloats host.codec) :
    ∃ process', w'.process = some process' ∧ process'.inner = process.inner ∧
      ∀ faults' restarts', (buildBatchV2 process.inner (restarts' + 1)).run
        (w'.machine process' faults') = .ok batch (w'.machine process' faults') := by
  have stepped := World.step_pulled running ran
  have later := World.offered_of_play played
  have before := fun s envelope offer => later s envelope (stepped.offered s envelope offer)
  obtain ⟨rfl, rfl, backing⟩ := (reach.kept (distinct.offering before)).running process running
  obtain ⟨sound, ready⟩ := backing faults
  obtain ⟨-, -, intact', -, ready', built, queue, items, batchOf, delivers⟩ :=
    (sound.offering before).pulled ready distinct short intact ran
  obtain ⟨queue', stands⟩ := intact'.items ready'.keyed
  obtain ⟨process', running', sameInner, grows⟩ :=
    grows_of_ingest (@Reach.step _ w _ (.call _ _) reach trivial stepped) rfl
      (candidates_ordered batchOf.single) played distinct faithful
  refine ⟨process', running', sameInner, fun faults' restarts' => ?_⟩
  cases restarts with
  | zero => cases built
  | succ restarts =>
      have grown : Grows after (w'.machine process' faults') :=
        (grows .none faults').congr rfl rfl rfl rfl
      exact grown.built ready'.keyed stands batchOf (batchOf.length_lt pends left) built restarts'

/-! ### A batch of one -/

/-- A spool that delivers one item at a time. -/
def narrowInner : Inner :=
  { sampleInner 4 with
    config :=
      { (sampleInner 4).config with batchMaxRecords := 1, batchMaxRecords_le := by decide } }

/-- Two records are admitted. -/
def twoAdmissions : List Move :=
  [.openSpool narrowInner (sampleTime 0) .none,
    .call (.enqueue (sampleEnvelope "a") (sampleTime 1)) .none,
    .call (.enqueue (sampleEnvelope "b") (sampleTime 2)) .none]

theorem twoAdmissions_untouched :
    ∀ w, ∀ move ∈ twoAdmissions, Untouched sampleKey (referenceHost integerCodec) w move := by
  intro w move inside
  simp only [twoAdmissions, List.mem_cons, List.not_mem_nil, or_false] at inside
  rcases inside with rfl | rfl | rfl
  · exact ⟨rfl, rfl⟩
  · trivial
  · trivial

/-- A pull delivers the first of them, and a third is admitted. -/
theorem twoAdmissions_plays :
    ((World.fresh.play twoAdmissions).any fun w =>
      (w.pull (sampleTime 3)).any fun pulled =>
        (w.machine pulled.1 .none).readsBackAll pulled.1.inner &&
          (pulled.2.2.state.entries.values.any fun entry =>
            (pulled.2.1.records.all fun record => decide (record.spoolSeq ≠ entry.spoolSeq)) &&
              pulled.2.1.gaps.all fun notice => decide (notice.spoolSeq ≠ entry.spoolSeq)) &&
          ((w.pulled pulled.1 2 (sampleTime 3) pulled.2.1 pulled.2.2).play
            (ingest [(sampleEnvelope "c", sampleTime 4, .none)])).any fun w' =>
              decide (w'.TellsApart (referenceHost integerCodec)) &&
                decide (pulled.2.1.records.length = 1)) = true := by
  decide +kernel

theorem full_batch_stable_under_ingest_twoAdmissions :
    ∃ (w' : World) (process : Process) (batch : HubBatchV2), w'.process = some process ∧
      batch.records.length = 1 ∧
      (buildBatchV2 process.inner 2).run (w'.machine process .none) =
        .ok batch (w'.machine process .none) := by
  obtain ⟨w, played, shows⟩ := (Option.any_eq_true _ _).mp twoAdmissions_plays
  obtain ⟨⟨process, batch, after⟩, pulled, shows⟩ := (Option.any_eq_true _ _).mp shows
  simp only [Bool.and_eq_true, List.all_eq_true, List.any_eq_true, decide_eq_true_eq,
    Option.any_eq_true] at shows
  obtain ⟨⟨intact, entry, there, noRecord, noGap⟩, w', ingested, apart, single⟩ := shows
  obtain ⟨running, ran⟩ := World.pull_eq_some pulled
  have reach := (World.reach_of_play .start twoAdmissions_untouched played).mono
    fun _ _ untouched => untouched.underKey
  have stepped := @Reach.step _ w _ (.call _ _) reach trivial (World.step_pulled running ran)
  have kept := stepped.kept (apart.distinctNotices.offering (World.offered_of_play ingested))
  have keyed : after.state.Keyed := ((kept.running _ rfl).2.2 .none).2.keyed
  have pends : after.state.Pends entry.spoolSeq := .inl ⟨entry, keyed.holds there, rfl⟩
  have left : ¬ batch.Lists entry.spoolSeq := by
    rintro (⟨record, inside, same⟩ | ⟨notice, inside, same⟩)
    · exact noRecord record inside same
    · exact noGap notice inside same
  obtain ⟨process', running', sameInner, built⟩ :=
    full_batch_stable_under_ingest reach running (readsBackAll_of_machine intact) ran pends left
      ingested apart.distinctNotices apart.faithfulIds integerCodec_shortFloats
  refine ⟨w', process', batch, running', single, ?_⟩
  rw [sameInner]
  exact built .none 1

end TeslatlasEdge
