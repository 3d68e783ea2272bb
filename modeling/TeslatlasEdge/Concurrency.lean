/-
Module: TeslatlasEdge.Concurrency
Purpose: What a spool promises its callers when it serves them side by side: the record of an
  admission stays in custody, delivered items and acknowledgements are true, and no sequence is used
  twice, whatever order the sections of the calls come in.  Serving one call at a time is one of the
  orders.
Trusted boundary: none
Main exports: World.AnswersFor, answers_stay_true, admissions_kept_safe, sequences_kept_apart,
  one_at_a_time_interleaves
-/
import TeslatlasEdge.Interleavings

namespace TeslatlasEdge

open Lib
open Call (onOk)

section

variable {key : EncryptionKey} {host : Host} {s : Shared}

/-! ### Answers -/

/-- Whatever order the sections come in, every answer is true of the files, and stays so. -/
theorem answers_stay_true (reach : (sharedSystem (Limited key host)).Reachable s)
    (distinct : DistinctNotices host s.world.Offered) {asked : Request} {reply : Reply}
    (answered : (asked, .ok reply) ∈ s.answers) :
    Told key host s.world.Offered s.world.timeline asked reply :=
  (standing_of_reachable reach (fun _ _ offer => offer) distinct).told _ answered reply rfl

theorem answers_stay_true_racingAdmissions :
    ∃ (s : Shared) (asked : Request) (reply : Reply), (asked, .ok reply) ∈ s.answers ∧
      Told sampleKey (referenceHost integerCodec) s.world.Offered s.world.timeline asked reply := by
  obtain ⟨s, reach, apart, -, asked, batch, record, answered, -⟩ := racingAdmissions_reached
  exact ⟨s, asked, _, answered, answers_stay_true reach apart.distinctNotices answered⟩

/-- The spool answers for the record: its pending file stands, or a gap file for its sequence does, or
a receipt that accepts it has been durable. -/
def World.AnswersFor (key : EncryptionKey) (host : Host) (w : World) (n : Nat)
    (record : StoredRecord Str) : Prop :=
  w.disk.HasPending n record ∨ w.disk.HasGap n ∨ AcceptedBy key host w.timeline n record

/-- The identity an admission answers with. -/
def EnqueueOutcome.recordId : EnqueueOutcome → RecordId
  | .stored recordId | .alreadyPresent recordId => recordId

/-- What was answered as admitted is answered for. -/
theorem Shared.Standing.keeps_safe {offered : Nat → Envelope → Prop}
    (standing : s.Standing key host offered) (faithful : FaithfulIds host offered)
    {envelope : Envelope} {admittedAtMs : I64} {outcome : EnqueueOutcome}
    (answered : (.enqueue envelope admittedAtMs, .ok (.enqueued outcome)) ∈ s.answers) :
    ∃ n record, Admitted key s.world.timeline n record ∧ record.recordId = outcome.recordId ∧
      record.stableRecordId = some (envelope.stableRecordId host) ∧
      (∀ recordId, outcome = .stored recordId → record.envelope = envelope.map host.codec.print) ∧
      s.world.AnswersFor key host n record := by
  have told := standing.told _ answered _ rfl
  have law := standing.kept.always.laws _ _ (List.suffix_refl _)
  cases outcome with
  | stored recordId =>
      obtain ⟨rfl, n, record, admitted, legacy, stable, content⟩ := told
      exact ⟨n, record, admitted, legacy, stable, fun _ _ => content, law.custody n record admitted⟩
  | alreadyPresent recordId =>
      obtain ⟨n, record, admitted, legacy, stable⟩ := told faithful
      exact ⟨n, record, admitted, legacy, stable, (fun recordId other => by cases other),
        law.custody n record admitted⟩

/-- The spool answers at every later point for what has been admitted. -/
theorem answersFor_of_later {t : Shared} (reach : (sharedSystem (Limited key host)).Reachable s)
    (later : (sharedSystem (Limited key host)).Later s t)
    (distinct : DistinctNotices host t.world.Offered) {n : Nat} {record : StoredRecord Str}
    (admitted : Admitted key s.world.timeline n record) : t.world.AnswersFor key host n record := by
  have standing := standing_of_reachable (reach.later later) (fun _ _ offer => offer) distinct
  have law := standing.kept.always.laws _ _ (List.suffix_refl _)
  exact law.custody n record ((recalls_of_later reach later distinct).admitted n record admitted)

/-- Once an admission has been answered, by a new copy or by a copy that was there, there is one record
that the spool answers for then and at every later point, whatever its other callers do. -/
theorem admissions_kept_safe (reach : (sharedSystem (Limited key host)).Reachable s)
    (distinct : DistinctNotices host s.world.Offered) (faithful : FaithfulIds host s.world.Offered)
    {envelope : Envelope} {admittedAtMs : I64} {outcome : EnqueueOutcome}
    (answered : (.enqueue envelope admittedAtMs, .ok (.enqueued outcome)) ∈ s.answers) :
    ∃ n record, Admitted key s.world.timeline n record ∧ record.recordId = outcome.recordId ∧
      record.stableRecordId = some (envelope.stableRecordId host) ∧
      (∀ recordId, outcome = .stored recordId → record.envelope = envelope.map host.codec.print) ∧
      ∀ t, (sharedSystem (Limited key host)).Later s t → DistinctNotices host t.world.Offered →
        t.world.AnswersFor key host n record := by
  obtain ⟨n, record, admitted, legacy, stable, content, -⟩ :=
    (standing_of_reachable reach (fun _ _ offer => offer) distinct).keeps_safe faithful answered
  exact ⟨n, record, admitted, legacy, stable, content, fun t later distinct' =>
    answersFor_of_later reach later distinct' admitted⟩

theorem admissions_kept_safe_racingAdmissions :
    ∃ (s : Shared) (n : Nat) (record : StoredRecord Str),
      Admitted sampleKey s.world.timeline n record ∧
      s.world.AnswersFor sampleKey (referenceHost integerCodec) n record ∧
      ∀ t, (sharedSystem (Limited sampleKey (referenceHost integerCodec))).Later s t →
        DistinctNotices (referenceHost integerCodec) t.world.Offered →
        t.world.AnswersFor sampleKey (referenceHost integerCodec) n record := by
  obtain ⟨s, reach, apart, ⟨envelope, admittedAtMs, outcome, answered⟩, -⟩ :=
    racingAdmissions_reached
  obtain ⟨n, record, admitted, -, -, -, answersFor⟩ :=
    admissions_kept_safe reach apart.distinctNotices apart.faithfulIds answered
  exact ⟨s, n, record, admitted, answersFor s .refl apart.distinctNotices, answersFor⟩

/-! ### Sequences -/

/-- The item was delivered in the v2 batch of some answer. -/
def Shared.Delivered (s : Shared) (item : BatchItemV2) : Prop :=
  ∃ asked batch, (asked, .ok (.batchV2 batch)) ∈ s.answers ∧
    ((∃ record ∈ batch.records, item = .record record) ∨ ∃ notice ∈ batch.gaps, item = .gap notice)

/-- What was delivered was admitted. -/
theorem Shared.Standing.deliveredFrom {offered : Nat → Envelope → Prop}
    (standing : s.Standing key host offered) {item : BatchItemV2} (delivered : s.Delivered item) :
    ∃ record, Admitted key s.world.timeline item.spoolSeq record ∧ item.StemsFrom host record := by
  obtain ⟨asked, batch, answered, source⟩ := delivered
  have told := standing.told _ answered _ rfl
  have tells : TellsV2 key host s.world.timeline batch := by cases asked <;> exact told
  rcases source with ⟨record, here, rfl⟩ | ⟨notice, here, rfl⟩
  · exact tells.items.records record here
  · obtain ⟨record, identity, admitted, identified, named⟩ := tells.items.gaps notice here
    exact ⟨record, admitted, identity, identified, named⟩

/-- How sequences have been used by calls side by side. -/
structure Shared.SequencesApart (key : EncryptionKey) (host : Host) (s : Shared) : Prop where
  /-- One record at most has been admitted under a sequence, and it was offered under it. -/
  once : ∀ n record, Admitted key s.world.timeline n record →
    WrittenFor host s.world.Offered n record ∧
      ∀ other, Admitted key s.world.timeline n other → other = record
  /-- A process that has not failed to write hands out a sequence that nothing has been admitted
  under. -/
  fresh : ∀ process, s.world.process = some process → process.storageWriteFailed = false →
    ∀ n record, Admitted key s.world.timeline n record → n < process.state.nextSpoolSequence
  /-- Items delivered under one sequence, in whatever batches, stem from the one admission. -/
  items : ∀ item other, s.Delivered item → s.Delivered other → item.spoolSeq = other.spoolSeq →
    ∃ record, Admitted key s.world.timeline item.spoolSeq record ∧ item.StemsFrom host record ∧
      other.StemsFrom host record

/-- No sequence is used twice, whatever order the sections of the calls come in. -/
theorem sequences_kept_apart (reach : (sharedSystem (Limited key host)).Reachable s)
    (distinct : DistinctNotices host s.world.Offered) : s.SequencesApart key host := by
  have standing := standing_of_reachable reach (fun _ _ offer => offer) distinct
  have law := standing.kept.always.laws _ _ (List.suffix_refl _)
  refine ⟨fun n record admitted => ⟨(law.origin n record admitted).2.2, fun other there =>
    law.once n other record there admitted⟩, fun process running open_ n record admitted => ?_,
    fun item other delivered delivered' same => ?_⟩
  · obtain ⟨-, -, backing⟩ := standing.kept.running process running
    rcases (backing .none).1.backed.next n record admitted with below | ⟨latched, -⟩
    · exact below
    · exact absurd (open_.symm.trans latched) Bool.false_ne_true
  · obtain ⟨record, admitted, stems⟩ := standing.deliveredFrom delivered
    obtain ⟨record', admitted', stems'⟩ := standing.deliveredFrom delivered'
    rw [← same] at admitted'
    obtain rfl := law.once _ record record' admitted admitted'
    exact ⟨record, admitted, stems, stems'⟩

theorem sequences_kept_apart_racingAdmissions :
    ∃ s : Shared, (∃ item, s.Delivered item) ∧
      s.SequencesApart sampleKey (referenceHost integerCodec) := by
  obtain ⟨s, reach, apart, -, asked, batch, record, answered, inside⟩ := racingAdmissions_reached
  exact ⟨s, ⟨.record record, asked, batch, answered, .inl ⟨record, inside, rfl⟩⟩,
    sequences_kept_apart reach apart.distinctNotices⟩

end

/-! ### One call at a time -/

section

variable {key : EncryptionKey} {host : Host} {offered : Nat → Envelope → Prop} {inner : Inner}
  {distinct : DistinctNotices inner.host offered} {limits : inner.config.WithinLimits}
  {onDone : Except SpoolError Reply → Machine → Prop} {asked : Request} {log : List Event}
  {answers : List (Request × Except SpoolError Reply)}

theorem Granted.undisplaced {label : Label} {m : Machine} (granted : Granted offered label m) :
    Undisplaced m.state label := by
  cases label with
  | quarantine entry => exact granted
  | observe | enqueue | expire | read | admissions | allocate | writeReceipt | insertReceipt
  | complete | pruneHistory | removeReceipt | forgetReceipt | sync => trivial

/-- A call that is served alone gets to its answer in turns. -/
theorem Call.alone_answers {c : SpoolCall Reply} :
    ∀ {m : Machine} {log : List Event}, c.Along (Granted offered) m →
      ∃ log', (sharedSystem (Limited key host)).Later
        ⟨m.running inner log, [⟨asked, c⟩], answers⟩
        ⟨(finalState (c.run m)).running inner log', [], (asked, answer (c.run m)) :: answers⟩ := by
  induction c with
  | done result =>
      intro m log _
      refine ⟨log, .single ⟨.answer, trivial, ?_⟩⟩
      have taken := @Shared.Takes.answer ⟨m.running inner log, [⟨asked, .done result⟩], answers⟩ asked
        result [] [] rfl
      cases result with
      | ok reply => exact taken
      | error error => exact taken
  | step label act next ih =>
      intro m log along
      obtain ⟨log', later⟩ := @ih m (act m) (label.events m.state.nextSpoolSequence ++ log) along.2
      refine ⟨log', .head ⟨.advance label m.faults, ?_, ?_⟩ later⟩
      · rintro process running
        obtain rfl := Option.some.inj running
        exact Granted.undisplaced along.1
      · exact @Shared.Takes.advance ⟨m.running inner log, [⟨asked, .step label act next⟩], answers⟩
          label m.faults ⟨inner, m.state, m.storageWriteFailed⟩ asked act next [] [] rfl rfl

/-- The disks of a call go on from one section to the next. -/
theorem Call.later_of_within {c : SpoolCall Reply} :
    ∀ {m : Machine}, c.Within (spoolRules inner offered distinct limits) onDone m →
      Whole inner offered m → c.Along (Granted offered) m →
      m.timeline <:+ (finalState (c.run m)).timeline := by
  induction c with
  | done result =>
      intro m _ _ _
      cases result <;> exact List.suffix_refl _
  | step label act next ih =>
      intro m within whole along
      obtain ⟨is, follow⟩ := within
      obtain ⟨due, rest⟩ := follow m (.refl m) whole along.1
      have follows := is.kept distinct limits.retention_nonneg whole.sound whole.ready along.1 due
      exact follows.later.trans (ih m rest (is.whole distinct limits whole along.1 due) along.2)

/-- A process that stops while it serves one call stops inside one of the sections. -/
theorem Call.alone_stops {c : SpoolCall Reply} {d : Disk} {older : List Disk} :
    ∀ {m : Machine} {log : List Event},
      c.Within (spoolRules inner offered distinct limits) onDone m → Whole inner offered m →
      c.Along (Granted offered) m → StoppedAt m.timeline (finalState (c.run m)) d older →
      ∃ log', (sharedSystem (Limited key host)).Later ⟨m.running inner log, [⟨asked, c⟩], answers⟩
        ⟨⟨d, older, log', none⟩, [], answers⟩ := by
  induction c with
  | done result =>
      intro m log _ _ _ stopped
      have final : (finalState ((Call.done result : SpoolCall Reply).run m)) = m := by
        cases result <;> rfl
      rw [final] at stopped
      have same := stopped.reached.eq_of_length_le stopped.started.length_le
      obtain ⟨rfl, rfl⟩ := List.cons.inj same
      refine ⟨log, .single ⟨.outside .drop, trivial, ?_⟩⟩
      exact @Shared.Takes.outside ⟨m.running inner log, [⟨asked, .done result⟩], answers⟩ .drop _
        (fun _ _ same => by cases same) (.dropped rfl)
  | step label act next ih =>
      intro m log within whole along stopped
      obtain ⟨is, follow⟩ := within
      obtain ⟨due, rest⟩ := follow m (.refl m) whole along.1
      have whole' := is.whole distinct limits whole along.1 due
      have undisplaced : ∀ process, (m.running inner log).process = some process →
          Undisplaced process.state label := by
        intro process running
        obtain rfl := Option.some.inj running
        exact Granted.undisplaced along.1
      have onward := Call.later_of_within rest whole' along.2
      have reached : d :: older <:+ (finalState ((next m).run (act m))).timeline := stopped.reached
      rcases List.suffix_or_suffix_of_suffix reached onward with inside | beyond
      · refine ⟨label.events m.state.nextSpoolSequence ++ log,
          .single ⟨.stop label m.faults, undisplaced, ?_⟩⟩
        exact @Shared.Takes.stop ⟨m.running inner log, [⟨asked, .step label act next⟩], answers⟩ label
          m.faults ⟨inner, m.state, m.storageWriteFailed⟩ asked act next [] [] d older rfl rfl
          ⟨inside, stopped.started⟩
      · obtain ⟨log', later⟩ := @ih m (act m) (label.events m.state.nextSpoolSequence ++ log) rest
          whole' along.2 ⟨reached, beyond⟩
        refine ⟨log', .head ⟨.advance label m.faults, undisplaced, ?_⟩ later⟩
        exact @Shared.Takes.advance ⟨m.running inner log, [⟨asked, .step label act next⟩], answers⟩
          label m.faults ⟨inner, m.state, m.storageWriteFailed⟩ asked act next [] [] rfl rfl

/-- The answers in the log of a world. -/
def World.replies (w : World) : List (Request × Except SpoolError Reply) :=
  w.log.filterMap fun event => event.reply.map (event.request, ·)

/-- The shared directory is idle and looks like the world. -/
structure Shared.LooksLike (s : Shared) (w : World) : Prop where
  disk : s.world.disk = w.disk
  past : s.world.past = w.past
  process : s.world.process = w.process
  calls : s.calls = []
  answers : s.answers = w.replies

/-- What happens outside of calls does not depend on the log, and adds nothing to it. -/
theorem Step.outside_relogged {w w' : World} {move : Move} (moved : Step w move w')
    (apart : ∀ request faults, move ≠ .call request faults) (log : List Event) :
    Step { w with log := log } move { w' with log := log } ∧ w'.log = w.log := by
  cases moved with
  | opened closed ran => exact ⟨.opened closed ran, rfl⟩
  | openFailed closed ran => exact ⟨.openFailed closed ran, rfl⟩
  | openStopped closed stopped => exact ⟨.openStopped closed stopped, rfl⟩
  | openRefused running ran => exact ⟨.openRefused running ran, rfl⟩
  | returned | callStopped => exact absurd rfl (apart _ _)
  | dropped running => exact ⟨.dropped running, rfl⟩
  | damaged present => exact ⟨.damaged present, rfl⟩
  | receiptDamaged closed present => exact ⟨.receiptDamaged closed present, rfl⟩
  | relisted same => exact ⟨.relisted same, rfl⟩

/-- A shared world without calls in flight is a world of whole calls. -/
theorem Shared.LooksLike.eq {s : Shared} {w : World} (looks : s.LooksLike w) :
    s = ⟨{ w with log := s.world.log }, [], w.replies⟩ := by
  obtain ⟨⟨d, past, log, process⟩, calls, answers⟩ := s
  obtain ⟨disk, pasts, processes, idle, answered⟩ := looks
  simp only at disk pasts processes idle answered
  rw [disk, pasts, processes, idle, answered]

/-- Running a machine changes what the machine changes. -/
theorem World.running_machine {w : World} {process : Process} (running : w.process = some process)
    (faults : Faults) (log : List Event) :
    (w.machine process faults).running process.inner log = { w with log := log } := by
  obtain ⟨d, past, log', held⟩ := w
  obtain rfl : held = some process := running
  rfl

/-- The sections of a call find what they are granted when it is served alone. -/
theorem Kept.along_granted {w : World} (kept : Kept key host w) {process : Process}
    (running : w.process = some process) {request : Request}
    (offer : ∀ envelope admittedAtMs, request = .enqueue envelope admittedAtMs →
      offered process.state.nextSpoolSequence envelope) (faults : Faults) :
    (request.call process.inner).Along (Granted offered) (w.machine process faults) := by
  obtain ⟨rfl, rfl, backing⟩ := kept.running process running
  obtain ⟨-, ready⟩ := backing faults
  refine Call.Along.mono (fun label m presented => ?_) (request.along_presented (m := w.machine
    process faults) ready.keyed ready.numbered ready.pathed offer)
  cases label with
  | quarantine entry => exact presented.1
  | observe | enqueue | expire | read | admissions | allocate | writeReceipt | insertReceipt
  | complete | pruneHistory | removeReceipt | forgetReceipt | sync => exact presented

/-- Whatever serving one call at a time leads to, serving calls side by side leads to as well. -/
theorem one_at_a_time_interleaves {w : World} (reach : Reach (Limited key host) w)
    (distinct : DistinctNotices host w.Offered) (faithful : FaithfulIds host w.Offered) :
    ∃ s, (sharedSystem (Limited key host)).Reachable s ∧ s.LooksLike w := by
  induction reach with
  | start => exact ⟨⟨.fresh, [], []⟩, .start rfl, rfl, rfl, rfl, rfl, rfl⟩
  | @step w w' move before may moved ih =>
      have earlier := distinct.offering moved.offered
      have faithful' := faithful.offering moved.offered
      obtain ⟨s, reach, looks⟩ := ih earlier faithful'
      have kept := (before.mono fun _ _ limited => limited.underKey).kept earlier
      have cohering := before.coherent earlier faithful'
      rw [looks.eq] at reach
      have outside : (∀ request faults, move ≠ .call request faults) →
          ∃ s, (sharedSystem (Limited key host)).Reachable s ∧ s.LooksLike w' := by
        intro apart
        obtain ⟨relogged, logged⟩ := moved.outside_relogged apart s.world.log
        have same : w'.replies = w.replies := by rw [World.replies, World.replies, logged]
        refine ⟨_, reach.step ⟨.outside move, ?_, .outside apart relogged⟩, rfl, rfl, rfl, ?_, ?_⟩
        · cases move <;> exact may
        · exact ite_self _
        · exact same.symm
      have joined : ∀ {process : Process} (request : Request) (faults : Faults),
          w.process = some process → (sharedSystem (Limited key host)).Reachable
            ⟨(w.machine process faults).running process.inner s.world.log,
              [⟨request, request.call process.inner⟩], w.replies⟩ := by
        intro process request faults running
        rw [World.running_machine running]
        exact reach.step ⟨.join request, trivial, .join running fun _ _ none =>
          absurd none List.not_mem_nil⟩
      cases moved with
      | opened | openFailed | openStopped | openRefused | dropped | damaged | receiptDamaged
      | relisted => exact outside fun _ _ same => by cases same
      | @returned request faults process running =>
          have along : (request.call process.inner).Along (Granted fun _ _ => True)
              (w.machine process faults) :=
            kept.along_granted running (fun _ _ _ => trivial) faults
          obtain ⟨log, later⟩ := @Call.alone_answers key host _ process.inner request w.replies _ _
            s.world.log along
          exact ⟨_, (joined request faults running).later later, rfl, rfl, rfl, rfl, rfl⟩
      | @callStopped request faults process d older running stopped =>
          obtain ⟨rfl, rfl, -⟩ := kept.running process running
          have offers : ∀ envelope admittedAtMs, request = .enqueue envelope admittedAtMs →
              World.Offered ⟨d, older, ⟨process.state.nextSpoolSequence, request, none⟩ :: w.log,
                none⟩ process.state.nextSpoolSequence envelope := fun envelope admittedAtMs asks =>
            ⟨_, List.mem_cons_self, rfl, admittedAtMs, asks⟩
          have along := kept.along_granted running offers faults
          have grown := (Step.callStopped running stopped).offered
          have whole := kept.whole running grown (fun _ => cohering) faults
          have within := @Request.within process.inner _ distinct (cohering process running).1
            (w.machine process faults) request
          obtain ⟨log, later⟩ := @Call.alone_stops process.inner.key process.inner.host _ _ _ _ _
            request w.replies _ _ _ _ s.world.log within whole along stopped
          exact ⟨_, (joined request faults running).later later, rfl, rfl, rfl, rfl, rfl⟩

theorem cutInner_withinLimits : cutInner.config.WithinLimits := by
  refine ⟨⟨?_, ?_⟩, ⟨?_, ?_⟩, ⟨?_, ?_⟩, ⟨?_, ?_⟩, ⟨?_, ?_⟩, ?_, ?_⟩ <;> decide

theorem reopenedSpool_limited :
    ∀ player ∈ reopenedSpool, ∀ w move, player w = some move →
      Limited sampleKey (referenceHost integerCodec) w move := by
  intro player inside w move chosen
  have untouched := reopenedSpool_untouched player inside w move chosen
  cases move with
  | openSpool inner nowMs faults =>
      simp only [reopenedSpool, acknowledgedPull, cutPull, threeAdmissions, List.mem_append,
        List.mem_cons, List.not_mem_nil, or_false] at inside
      refine ⟨untouched.1, untouched.2, ?_⟩
      rcases inside with (((rfl | rfl | rfl | rfl) | rfl) | rfl) | rfl | rfl
      case openSpool.inl.inr =>
        obtain ⟨batch, -, same⟩ := Option.map_eq_some_iff.mp chosen
        cases same
      all_goals cases Option.some.inj chosen
      all_goals exact cutInner_withinLimits
  | damage | damageReceipt => exact untouched.elim
  | call | drop | relist => trivial

theorem one_at_a_time_interleaves_reopenedSpool :
    ∃ (w : World) (s : Shared), (w.log.countP fun event => event.storedEnvelope?.isSome) = 3 ∧
      s.LooksLike w ∧
      (sharedSystem (Limited sampleKey (referenceHost integerCodec))).Reachable s := by
  obtain ⟨w, followed, shows⟩ := (Option.any_eq_true _ _).mp reopenedSpool_plays
  rw [Bool.and_eq_true, Bool.and_eq_true, decide_eq_true_eq, decide_eq_true_eq] at shows
  obtain ⟨apart, admitted, -⟩ := shows
  have reach := World.reach_of_follow .start reopenedSpool_limited followed
  obtain ⟨s, reachable, looks⟩ :=
    one_at_a_time_interleaves reach apart.distinctNotices apart.faithfulIds
  exact ⟨w, s, admitted, looks, reachable⟩

end

end TeslatlasEdge
