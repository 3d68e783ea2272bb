/-
Module: TeslatlasEdge.Budgets
Purpose: Every store stays within its budget.  In every run under one configuration the entries, the
  gaps, their bytes and the quarantine directory stay within the limits, receipts are pruned, an
  admission needs a free place, and no record that is intact and not yet due makes way for another.
Trusted boundary: none
Main exports: State.Within, Disk.QuarantineWithin, stable_budgeted, Reach.budgeted, Unfailing,
  Reach.pruned, stores_within_budget
-/
import TeslatlasEdge.Lifetimes
import TeslatlasEdge.Spool.Working

namespace TeslatlasEdge

open Lib
open Section

/-! ### Budgets -/

/-- The state holds no more entries, gaps and bytes of them than the configuration allows. -/
structure State.Within (config : SpoolConfig) (state : State) : Prop where
  entries : state.entries.size ≤ config.maxRecords
  gaps : state.gaps.size ≤ config.maxRecords
  pendingBytes : state.pendingBytes ≤ config.maxBytes
  pendingGapBytes : state.pendingGapBytes ≤ config.maxBytes

/-- Nothing is within any budget. -/
theorem State.within_initial (config : SpoolConfig) : State.initial.Within config :=
  ⟨Nat.zero_le _, Nat.zero_le _, Nat.zero_le _, Nat.zero_le _⟩

/-- What is no fuller stays within the budget. -/
theorem State.Within.shed {config : SpoolConfig} {mayCount : Nat → Prop} {state state' : State}
    (within : state.Within config) (fuller : State.NoFuller mayCount state' state) :
    state'.Within config :=
  ⟨fuller.entries.trans within.entries, fuller.gaps.trans within.gaps,
    fuller.pendingBytes.trans within.pendingBytes, fuller.pendingGapBytes.trans within.pendingGapBytes⟩

/-- The quarantine directory is within its limits, as far as counters that saturate can tell. -/
structure Disk.QuarantineWithin (config : SpoolConfig) (d : Disk) : Prop where
  files : min d.quarantine.length u64Max ≤ config.maxRecords
  bytes : min (d.quarantine.map Blob.length).sum u64Max ≤ config.maxBytes

/-- The bytes in quarantine are summed up until the sum saturates. -/
theorem quarantineBytes_eq (d : Disk) :
    quarantineBytes d = min (d.quarantine.map Blob.length).sum u64Max := by
  have counted : ∀ (bodies : List Blob) (bytes : Nat), bytes ≤ u64Max →
      bodies.foldl (fun bytes body => saturatingAdd bytes body.length) bytes =
        min (bytes + (bodies.map Blob.length).sum) u64Max := by
    intro bodies
    induction bodies with
    | nil =>
        intro bytes small
        rw [List.foldl_nil, List.map_nil, List.sum_nil, Nat.add_zero, Nat.min_eq_left small]
    | cons body rest ih =>
        intro bytes _
        have small : saturatingAdd bytes body.length ≤ u64Max := Nat.min_le_right _ _
        rw [List.foldl_cons, ih _ small, List.map_cons, List.sum_cons]
        unfold saturatingAdd
        omega
  rw [quarantineBytes, counted _ 0 (Nat.zero_le _), Nat.zero_add]

/-- Listing a directory in another order counts the same. -/
theorem Disk.QuarantineWithin.perm {config : SpoolConfig} {d e : Disk}
    (within : d.QuarantineWithin config) (same : d.quarantine.Perm e.quarantine) :
    e.QuarantineWithin config :=
  ⟨by rw [← same.length_eq]; exact within.files,
    by rw [← (same.map Blob.length).sum_eq]; exact within.bytes⟩

/-- The state is within its budget, and on every disk the quarantine directory has been. -/
structure Machine.Budgeted (config : SpoolConfig) (m : Machine) : Prop where
  disks : ∀ d ∈ m.timeline, d.QuarantineWithin config
  state : m.state.Within config

section

variable {inner : Inner} {config : SpoolConfig} {m m' : Machine}

namespace Machine.Budgeted

/-- There is one more disk, with the same quarantine directory. -/
theorem next (budgeted : m.Budgeted config) (history : m'.history = m.disk :: m.history)
    (state : m'.state = m.state) (same : m'.disk.quarantine = m.disk.quarantine) :
    m'.Budgeted config := by
  refine ⟨fun d inside => ?_, by rw [state]; exact budgeted.state⟩
  rw [Machine.timeline, history] at inside
  rcases List.mem_cons.mp inside with rfl | before
  · exact (budgeted.disks m.disk List.mem_cons_self).perm (by rw [same])
  · exact budgeted.disks d before

/-- A file for which there is room has been moved to quarantine. -/
theorem setAside {path : Path} {body : Blob} (budgeted : m.Budgeted inner.config)
    (found : m.disk.read path = some body) (room : QuarantineRoom inner m.disk path) :
    (m.setAside path body).Budgeted inner.config := by
  refine ⟨fun d inside => ?_, budgeted.state⟩
  rcases List.mem_cons.mp inside with rfl | before
  · obtain ⟨files, bytes⟩ := room
    rw [quarantineBytes_eq, found, Option.map_some, Option.getD_some] at bytes
    unfold saturatingAdd at files bytes
    refine ⟨files, ?_⟩
    change min (((body :: m.disk.quarantine).map Blob.length).sum) u64Max ≤ _
    rw [List.map_cons, List.sum_cons]
    omega
  · exact budgeted.disks d before

end Machine.Budgeted

/-- Writing a file leaves the quarantine directory. -/
theorem Disk.put_quarantine (d : Disk) (body : Blob) (path : Path) :
    (d.put body path).quarantine = d.quarantine := by
  cases path <;> rfl

/-- So does removing one. -/
theorem Disk.remove_quarantine (d : Disk) (path : Path) :
    (d.remove path).quarantine = d.quarantine := by
  cases path <;> rfl

/-- Budgets are kept whatever is written. -/
theorem stable_budgeted : Stable inner (fun _ _ => True) (fun _ => True)
    (Machine.Budgeted inner.config) where
  counters _ _ _ := trivial
  saved _ _ _ _ _ := trivial
  shed budgeted same fuller := ⟨by rw [same]; exact budgeted.disks, budgeted.state.shed fuller⟩
  place budgeted _ := budgeted.next rfl rfl (Disk.put_quarantine _ _ _)
  orphan _ budgeted := budgeted.next rfl rfl rfl
  discard {m} path budgeted := by
    by_cases present : (m.disk.read path).isSome = true
    · refine budgeted.next ?_ (m.discard_state path) ?_
      · simp only [Machine.discard, present, if_true]
      · simp only [Machine.discard, present, if_true, Disk.remove_quarantine]
    · have same : m.discard path = m := if_neg present
      rwa [same]
  setAside budgeted found room := budgeted.setAside found room
  rename budgeted _ := budgeted.next rfl rfl rfl
  mark budgeted := budgeted.next rfl rfl rfl
  recordGap _ _ _ budgeted room fits :=
    ⟨budgeted.disks, ⟨budgeted.state.entries, (OrdMap.size_insert_le _ _ _).trans room,
      budgeted.state.pendingBytes, fits⟩⟩
  admitEntry _ budgeted room fits :=
    ⟨budgeted.disks, ⟨(OrdMap.size_insert_le _ _ _).trans room, budgeted.state.gaps, fits,
      budgeted.state.pendingGapBytes⟩⟩
  retain _ budgeted :=
    ⟨budgeted.disks, ⟨budgeted.state.entries, budgeted.state.gaps, budgeted.state.pendingBytes,
      budgeted.state.pendingGapBytes⟩⟩

/-! ### Calls -/

/-- Where everything is allowed, so is what any section writes. -/
theorem Label.allowed_all (label : Label) : label.Allowed inner (fun _ _ => True) (fun _ => True) m := by
  cases label with
  | enqueue => exact fun _ => trivial
  | expire => exact fun _ _ => ⟨fun _ _ => trivial, trivial⟩
  | quarantine => exact fun _ _ => trivial
  | _ => trivial

/-- Every call keeps the budgets. -/
theorem Machine.Budgeted.call (budgeted : m.Budgeted inner.config) (request : Request) :
    Post (request.call inner).run m (fun _ m' => m'.Budgeted inner.config)
      (fun _ m' => m'.Budgeted inner.config) :=
  Call.run_invariant (C := fun _ _ => True) (I := Machine.Budgeted inner.config)
    (Call.Steps.mono request.sections fun label _ is _ _ holds =>
      stable_budgeted.keeps_sectionOf is label.allowed_all holds)
    (Call.Along.of_steps (Call.Steps.mono request.sections fun _ _ _ _ => trivial)) budgeted

/-- So does opening. -/
theorem Machine.Budgeted.opened (budgeted : m.Budgeted inner.config) (lockHeld : Bool) (nowMs : I64) :
    Post (openSpool inner lockHeld nowMs) m (fun _ m' => m'.Budgeted inner.config)
      (fun _ m' => m'.Budgeted inner.config) :=
  (stable_budgeted.post_openSpool_keeps budgeted
    (fun _ _ => ⟨fun _ _ _ _ _ _ => trivial, fun _ _ _ _ => trivial⟩)
    fun _ => ⟨fun _ _ => trivial, trivial⟩).mono (fun _ _ kept => kept) fun _ _ kept => kept.2

/-- A record is stored only where entries and gaps leave a place. -/
theorem post_enqueue_room {envelope : Envelope} {admittedAtMs : I64} :
    Post (enqueue inner envelope admittedAtMs).run m
      (fun outcome _ => ∀ recordId, outcome = .stored recordId →
        m.state.entries.size + m.state.gaps.size < inner.config.maxRecords)
      (fun _ _ => True) := by
  unfold enqueue
  split
  · trivial
  · simp only [Call.run_bind, Call.run_atomic, post_bind, post_get, post_ite, post_throw, post_pure]
    refine ⟨fun _ => trivial, fun _ => ?_⟩
    simp only [enqueueLocked, post_bind, post_state]
    split
    · intro recordId same
      cases same
    · split
      · trivial
      · simp only [post_ite, post_throw, post_bind, post_pure]
        refine ⟨fun _ => trivial, fun _ => ⟨fun _ => trivial, fun room => ⟨fun _ => trivial,
          fun _ => ⟨fun _ => trivial, fun _ => Post.trivial.mono (fun _ _ _ => ?_)
            fun _ _ _ => trivial⟩⟩⟩⟩
        rw [not_or, not_le] at room
        have limit := inner.config.maxRecords_le
        have below := room.1
        unfold saturatingAdd at below
        refine Post.trivial.mono (fun _ _ _ => ?_) fun _ _ _ => trivial
        refine Post.trivial.mono (fun _ _ _ recordId _ => ?_) fun _ _ _ => trivial
        omega

/-! ### Receipts -/

/-- The receipts stay as they are whatever else is done. -/
theorem steady_receipts {receipts : OrdMap Str ReceiptEntry} :
    Steady inner (fun _ _ => True) (fun _ => True) fun m => m.state.receipts = receipts where
  counters _ _ _ := trivial
  saved _ _ _ _ _ := trivial
  shed same _ fuller := fuller.receipts.trans same
  place same _ := same
  orphan _ same := same
  discard path same := by rwa [Machine.discard_state]
  setAside same _ _ := same
  rename same _ := same
  mark same := same
  recordGap _ _ _ same _ _ := same
  admitEntry _ same _ _ := same

/-- The call ends with the receipts it began with. -/
def Retains {α : Type} (call : EStateM SpoolError Machine α) (m : Machine) : Prop :=
  Post call m (fun _ m' => m'.state.receipts = m.state.receipts)
    (fun _ m' => m'.state.receipts = m.state.receipts)

/-- Admissions change no receipt. -/
theorem retains_enqueueLocked {envelope : Envelope} {admittedAtMs : I64} :
    Retains (enqueueLocked inner envelope admittedAtMs) m :=
  (@steady_receipts inner m.state.receipts).post_enqueueLocked_keeps rfl fun _ => trivial

theorem retains_expireDueLocked {nowMs : I64} : Retains (expireDueLocked inner nowMs) m :=
  ((@steady_receipts inner m.state.receipts).post_expireDueLocked_keeps rfl fun _ _ =>
    ⟨fun _ _ => trivial, trivial⟩).mono (fun _ _ same => same) fun _ _ same => same.2

/-- Completing a receipt removes what it accepts, and no receipt. -/
theorem retains_completeReceipt {receipt : AckReceipt} : Retains (completeReceipt inner receipt) m :=
  ((@steady_receipts inner m.state.receipts).keeps_completeReceipt receipt m rfl).mono
    (fun _ _ same => same) fun _ _ same => same.2

/-- Only acknowledgements change the receipts. -/
theorem Request.retains (request : Request) (ready : Ready inner.key m)
    (other : request.acknowledges = false) : Retains (request.call inner).run m := by
  cases request with
  | acknowledge | acknowledgeV2 => cases other
  | enqueue envelope admittedAtMs =>
      rw [Retains, Request.call, Call.run_bind, post_bind, TeslatlasEdge.enqueue]
      simp only [Call.run_pure, post_pure]
      split
      · trivial
      · simp only [Call.run_bind, Call.run_atomic, post_bind, post_get, post_ite, post_throw,
          post_pure]
        exact ⟨fun _ => trivial, fun _ => retains_enqueueLocked⟩
  | expireDue nowMs =>
      rw [Retains, Request.call, Call.run_bind, post_bind, TeslatlasEdge.expireDue, Call.run_atomic]
      simp only [Call.run_pure, post_pure]
      exact retains_expireDueLocked
  | nextBatch nowMs =>
      rw [Retains, Request.call, Call.run_bind, post_bind, TeslatlasEdge.nextBatch]
      simp only [TeslatlasEdge.expireDue, Call.run_bind, Call.run_atomic, Call.run_pure, post_bind,
        post_pure]
      refine ((@post_expireDueLocked inner noOffers m nowMs ready.keyed ready.numbered).and
        retains_expireDueLocked).mono ?_ fun _ _ facts => facts.2
      rintro _ m₁ ⟨chain, same⟩
      simp only [requireNoGaps, post_bind, post_state, post_ite, post_throw, post_pure]
      refine ⟨fun _ => same, fun _ => ⟨fun _ => same, fun _ => ?_⟩⟩
      exact (post_buildBatch_scans (chain.keyed ready.keyed) (chain.pathed ready.pathed)).mono
        (fun _ _ scans => scans.receipts.trans same) fun _ _ scans => scans.receipts.trans same
  | nextBatchV2 restarts nowMs =>
      rw [Retains, Request.call, Call.run_bind, post_bind, TeslatlasEdge.nextBatchV2]
      simp only [TeslatlasEdge.expireDue, Call.run_bind, Call.run_atomic, Call.run_pure, post_bind,
        post_pure]
      refine ((@post_expireDueLocked inner noOffers m nowMs ready.keyed ready.numbered).and
        retains_expireDueLocked).mono ?_ fun _ _ facts => facts.2
      rintro _ m₁ ⟨chain, same⟩
      exact (post_buildBatchV2_scans (chain.keyed ready.keyed) (chain.pathed ready.pathed)).mono
        (fun _ _ scans => scans.receipts.trans same) fun _ _ scans => scans.receipts.trans same

/-- Pruning that returns leaves no more receipts than are kept. -/
theorem post_pruneReceipts_few :
    Post (pruneReceipts inner).run m (fun _ m' => m'.state.receipts.size ≤ maxAckReceipts)
      (fun _ _ => True) := by
  have loop : ∀ (passes : Nat) (m : Machine), Post (pruneReceiptsLoop inner passes).run m
      (fun _ m' => m'.state.receipts.size ≤ maxAckReceipts) (fun _ _ => True) := by
    intro passes
    induction passes with
    | zero => exact fun _ => trivial
    | succ passes ih =>
        intro m
        simp only [pruneReceiptsLoop, Call.run_bind, Call.run_atomic, post_bind, post_state, post_pure]
        cases oldest : oldestReceipt m.state.receipts with
        | some receipt =>
            simp only [Call.run_bind, post_bind]
            exact Post.trivial.mono (fun _ m₁ _ => ih m₁) fun _ _ _ => trivial
        | none =>
            -- there is an oldest receipt wherever there are too many
            change m.state.receipts.size ≤ maxAckReceipts
            unfold oldestReceipt at oldest
            split at oldest
            · assumption
            · have empty := congrArg List.length (List.argmin_eq_none.mp oldest)
              rw [OrdMap.values, List.length_map] at empty
              exact empty.trans_le (Nat.zero_le _)
  simp only [pruneReceipts, Call.run_bind, Call.run_atomic, post_bind, post_state, post_pure]
  exact loop _ m

/-- Without faults a receipt is entered only if the receipts are pruned afterwards. -/
theorem post_commitReceipt_few {receiptAt : Nat → AckReceipt} (calm : m.faults = .none)
    (keyed : m.state.ReceiptsKeyed) (few : m.state.receipts.size ≤ maxAckReceipts) :
    Post (commitReceipt inner receiptAt).run m
      (fun _ m' => m'.state.receipts.size ≤ maxAckReceipts)
      (fun _ m' => m'.state.receipts.size ≤ maxAckReceipts) := by
  by_cases goes : m.storageWriteFailed = false ∧ m.state.nextReceiptSequence < u64Max ∧
      (inner.key.encrypt (.receipt (receiptAt m.state.nextReceiptSequence))).length ≤
        maxEncryptedReceiptBytes
  · obtain ⟨unlatched, room, small⟩ := goes
    have pruned : Post (commitReceipt inner receiptAt).run m
        (fun _ m' => m'.state.receipts.size ≤ maxAckReceipts) (fun _ _ => True) := by
      simp only [commitReceipt, Call.run_bind, Call.run_atomic, post_bind]
      refine Post.trivial.mono (fun sequence m₁ _ => ?_) fun _ _ _ => trivial
      split
      · trivial
      · simp only [Call.run_bind, Call.run_atomic, Call.run_pure, post_bind, post_pure]
        refine Post.trivial.mono (fun _ m₂ _ => ?_) fun _ _ _ => trivial
        rw [post_modifyState]
        exact Post.trivial.mono (fun _ _ _ => post_pruneReceipts_few) fun _ _ _ => trivial
    exact ((@post_commitReceipt_works inner m receiptAt ⟨calm, unlatched⟩ keyed room small).and
      pruned).mono (fun _ _ facts => facts.2) fun _ _ failed => failed.1.elim
  · simp only [commitReceipt, Call.run_bind, Call.run_atomic, post_bind]
    apply post_allocateReceipt
    · intro bounded
      split
      · exact few
      · rename_i small
        have latched : m.storageWriteFailed = true := by
          by_contra unlatched
          exact goes ⟨Bool.eq_false_iff.mpr unlatched, by omega, not_lt.mp small⟩
        simp only [Call.run_bind, Call.run_atomic, Call.run_pure, post_bind, post_pure]
        refine (@post_writeAtomic_latched (m.update fun state =>
          { state with nextReceiptSequence := state.nextReceiptSequence + 1 }) _ _ latched).mono
            (fun _ _ none => none.elim) ?_
        rintro _ m₁ ⟨-, rfl⟩
        exact few
    · exact fun _ => few

/-- An acknowledgement without faults leaves no more receipts than are kept. -/
theorem Request.prunes (request : Request) (ready : Ready inner.key m)
    (acknowledges : request.acknowledges = true) (calm : m.faults = .none)
    (few : m.state.receipts.size ≤ maxAckReceipts) :
    Post (request.call inner).run m (fun _ m' => m'.state.receipts.size ≤ maxAckReceipts)
      (fun _ m' => m'.state.receipts.size ≤ maxAckReceipts) := by
  have still : ∀ {m' : Machine}, m'.state.receipts = m.state.receipts →
      m'.state.receipts.size ≤ maxAckReceipts := fun same => by rwa [same]
  have replayed : ∀ receipt, Post (completeReceipt inner receipt) m
      (fun _ m' => m'.state.receipts.size ≤ maxAckReceipts)
      (fun _ m' => m'.state.receipts.size ≤ maxAckReceipts) := fun receipt =>
    retains_completeReceipt.mono (fun _ _ same => still same) fun _ _ same => still same
  have committed : ∀ {m₁ : Machine} (receiptAt : Nat → AckReceipt), Chain inner noOffers m m₁ →
      Scans inner m m₁ → Post (commitReceipt inner receiptAt).run m₁
        (fun _ m' => m'.state.receipts.size ≤ maxAckReceipts)
        (fun _ m' => m'.state.receipts.size ≤ maxAckReceipts) := by
    intro m₁ receiptAt chain scans
    have calm₁ : m₁.faults = .none :=
      chain.invariant (I := fun m => m.faults = .none) (fun _ _ none effect => by
        have within := effect.faults_within
        rw [none] at within
        exact within.eq_none) calm
    exact post_commitReceipt_few calm₁ (chain.ready ready).receipts.batchId (still scans.receipts)
  cases request with
  | enqueue | nextBatch | nextBatchV2 | expireDue => cases acknowledges
  | acknowledge ack =>
      rw [Request.call, Call.run_bind, post_bind, TeslatlasEdge.acknowledge]
      simp only [Call.run_pure, post_pure]
      split
      · exact few
      · simp only [Call.run_bind, Call.run_atomic, post_bind, post_state, post_pure]
        cases m.state.receipts.get? ack.batchId with
        | some prior =>
            simp only
            split
            · exact few
            · simp only [Call.run_bind, Call.run_atomic, Call.run_pure, post_bind, post_pure]
              exact replayed prior.receipt
        | none =>
            simp only [Call.run_bind, Call.run_atomic, post_bind, post_state, post_ite, post_throw,
              post_pure]
            refine ⟨fun _ => few, fun _ => ?_⟩
            refine ((@post_buildBatch inner noOffers m ready.keyed ready.pathed).and
              (post_buildBatch_scans ready.keyed ready.pathed)).mono ?_ fun _ _ facts =>
                still facts.2.receipts
            rintro delivered m₁ ⟨⟨chain, -⟩, scans⟩
            split
            · exact still scans.receipts
            · simp only [Call.run_bind, Call.run_atomic, Call.run_pure, post_bind, post_pure]
              refine (post_receiptAdmissionsV1 (chain.keyed ready.keyed)).mono ?_ ?_
              · rintro admissions m₂ ⟨rfl, -⟩
                exact committed _ chain scans
              · rintro _ m₂ rfl
                exact still scans.receipts
  | acknowledgeV2 restarts ack =>
      rw [Request.call, Call.run_bind, post_bind, TeslatlasEdge.acknowledgeV2]
      simp only [Call.run_pure, post_pure]
      split
      · exact few
      · simp only [Call.run_bind, Call.run_atomic, post_bind, post_state, post_pure]
        cases m.state.receipts.get? ack.batchId with
        | some prior =>
            simp only
            split
            · exact few
            · simp only [Call.run_bind, Call.run_atomic, Call.run_pure, post_bind, post_pure]
              exact replayed prior.receipt
        | none =>
            simp only [Call.run_bind, post_bind]
            refine ((@post_buildBatchV2 inner noOffers m restarts ready.keyed ready.pathed).and
              (post_buildBatchV2_scans ready.keyed ready.pathed)).mono ?_ fun _ _ facts =>
                still facts.2.receipts
            rintro delivered m₁ ⟨⟨chain, -⟩, scans⟩
            split
            · exact still scans.receipts
            · simp only [Call.run_bind, Call.run_atomic, Call.run_pure, post_bind, post_pure]
              refine (post_receiptAdmissionsV2 (chain.keyed ready.keyed)).mono ?_ ?_
              · rintro admissions m₂ ⟨rfl, -⟩
                exact committed _ chain scans
              · rintro _ m₂ rfl
                exact still scans.receipts

/-- A spool that opens has pruned its receipts. -/
theorem post_openSpool_few {lockHeld : Bool} {nowMs : I64} :
    Post (openSpool inner lockHeld nowMs) m (fun _ m' => m'.state.receipts.size ≤ maxAckReceipts)
      (fun _ _ => True) := by
  refine post_openSpool_recovering (fun _ _ _ => trivial) (fun m' _ => ?_)
    (fun m' (few : m'.state.receipts.size ≤ maxAckReceipts) => few) fun m' few => ?_
  · simp only [recover, post_bind]
    exact Post.trivial.mono (fun _ m₁ _ => Post.trivial.mono (fun _ m₂ _ => Post.trivial.mono
      (fun _ m₃ _ => post_pruneReceipts_few) fun _ _ _ => trivial) fun _ _ _ => trivial)
        fun _ _ _ => trivial
  · refine post_writeCurrentSpoolFormatMarker.mono ?_ fun _ _ _ => trivial
    rintro _ m₁ ⟨state, -⟩
    rwa [state]

end

/-! ### Runs -/

/-- The running process is within its budget, and the quarantine directory has been at all times. -/
structure World.Budgeted (inner : Inner) (w : World) : Prop where
  disks : ∀ d ∈ w.timeline, d.QuarantineWithin inner.config
  running : ∀ process, w.process = some process →
    process.inner = inner ∧ process.state.Within inner.config

section

variable {inner : Inner} {latest : I64} {w w' : World} {m : Machine}

/-- A machine within its budget goes on as the process of a world. -/
theorem Machine.Budgeted.world {log : List Event} (budgeted : m.Budgeted inner.config) :
    (m.running inner log).Budgeted inner := by
  refine ⟨budgeted.disks, fun process running => ?_⟩
  obtain rfl := Option.some.inj running
  exact ⟨rfl, budgeted.state⟩

/-- A process that stops leaves a disk it went through. -/
theorem Machine.Budgeted.stopped {start older : List Disk} {d : Disk} {log : List Event}
    (budgeted : m.Budgeted inner.config) (stopped : StoppedAt start m d older) :
    World.Budgeted inner ⟨d, older, log, none⟩ :=
  ⟨fun e inside => budgeted.disks e (stopped.reached.mem inside), fun process running => by
    cases running⟩

/-- The outside changes no file in quarantine. -/
theorem World.Budgeted.cons (budgeted : w.Budgeted inner) {d : Disk}
    (same : w.disk.quarantine.Perm d.quarantine) :
    World.Budgeted inner { w with disk := d, past := w.disk :: w.past } := by
  refine ⟨fun e inside => ?_, budgeted.running⟩
  rcases List.mem_cons.mp inside with rfl | before
  · exact (budgeted.disks w.disk List.mem_cons_self).perm same
  · exact budgeted.disks e before

/-- Every move under the configuration keeps the budgets. -/
theorem World.Budgeted.step {move : Move} (budgeted : w.Budgeted inner)
    (may : OneConfig inner latest w move) (moved : Step w move w') : w'.Budgeted inner := by
  have opening : ∀ (nowMs : I64) (faults : Faults), Post (openSpool inner false nowMs)
      (w.opening faults) (fun _ m' => m'.Budgeted inner.config)
      (fun _ m' => m'.Budgeted inner.config) := by
    intro nowMs faults
    have start : (w.opening faults).Budgeted inner.config :=
      ⟨budgeted.disks, State.within_initial _⟩
    exact start.opened false nowMs
  have calling : ∀ {process : Process} (request : Request) (faults : Faults),
      w.process = some process →
      (finalState ((request.call inner).run (w.machine process faults))).Budgeted inner.config := by
    intro process request faults running
    have start : (w.machine process faults).Budgeted inner.config :=
      ⟨budgeted.disks, (budgeted.running process running).2⟩
    exact (start.call request).final (I := Machine.Budgeted inner.config)
  cases moved with
  | opened closed ran =>
      obtain ⟨same, -⟩ := may
      rw [same] at ran ⊢
      exact ((opening _ _).of_ok ran).world
  | openFailed closed ran =>
      obtain ⟨same, -⟩ := may
      rw [same] at ran
      exact ⟨((opening _ _).of_error ran).disks, fun process running => by cases running⟩
  | openStopped closed stopped =>
      obtain ⟨same, -⟩ := may
      rw [same] at stopped
      exact ((opening _ _).final (I := Machine.Budgeted inner.config)).stopped stopped
  | openRefused running ran =>
      rw [openSpool_locked ran]
      exact budgeted
  | returned running =>
      rw [World.serve, (budgeted.running _ running).1]
      exact (calling _ _ running).world
  | callStopped running stopped =>
      rw [World.serve, (budgeted.running _ running).1] at stopped
      exact (calling _ _ running).stopped stopped
  | dropped running => exact ⟨budgeted.disks, fun process running => by cases running⟩
  | damaged present => exact budgeted.cons (List.Perm.refl _)
  | receiptDamaged closed present => exact budgeted.cons (List.Perm.refl _)
  | @relisted d same =>
      refine ⟨fun e inside => ?_, budgeted.running⟩
      rcases List.mem_cons.mp inside with rfl | before
      · exact (budgeted.disks w.disk List.mem_cons_self).perm same.quarantine
      · exact budgeted.disks e (List.mem_cons_of_mem _ before)

/-- So budgets are kept in every run under one configuration. -/
theorem Reach.budgeted (reach : Reach (OneConfig inner latest) w) : w.Budgeted inner := by
  induction reach with
  | start =>
      refine ⟨fun d inside => ?_, fun process running => by cases running⟩
      obtain rfl := List.mem_singleton.mp inside
      exact ⟨Nat.zero_le _, Nat.zero_le _⟩
  | step before may moved ih => exact ih.step may moved

/-- A move under the configuration in which no file operation of an acknowledgement fails. -/
def Unfailing (inner : Inner) (latest : I64) (w : World) (move : Move) : Prop :=
  OneConfig inner latest w move ∧
    ∀ request faults, move = .call request faults → request.acknowledges = true → faults = .none

/-- No more receipts are retained than are kept. -/
def World.Pruned (w : World) : Prop :=
  ∀ process, w.process = some process → process.state.receipts.size ≤ maxAckReceipts

/-- Every such move leaves the receipts pruned. -/
theorem World.Pruned.step {move : Move} (pruned : w.Pruned) (budgeted : w.Budgeted inner)
    (kept : Kept inner.key inner.host w) (may : Unfailing inner latest w move)
    (moved : Step w move w') : w'.Pruned := by
  have none : ∀ process : Process, Option.none = some process →
      process.state.receipts.size ≤ maxAckReceipts := fun _ running => by cases running
  cases moved with
  | opened closed ran =>
      intro process running
      obtain rfl := Option.some.inj running
      exact post_openSpool_few.of_ok ran
  | openFailed | openStopped | callStopped | dropped => exact none
  | openRefused running ran => exact pruned
  | @returned request faults process running =>
      intro process' running'
      obtain rfl := Option.some.inj running'
      obtain ⟨-, -, backing⟩ := kept.running process running
      obtain ⟨-, ready⟩ := backing faults
      obtain rfl := (budgeted.running process running).1
      have few := pruned process running
      cases acknowledges : request.acknowledges with
      | true =>
          have calm := may.2 request faults rfl acknowledges
          exact Post.final (I := fun m : Machine => m.state.receipts.size ≤ maxAckReceipts)
            (request.prunes ready acknowledges calm few)
      | false =>
          have same := Post.final (I := fun m : Machine => m.state.receipts = process.state.receipts)
            (request.retains ready acknowledges)
          rw [← same] at few
          exact few
  | damaged | receiptDamaged | relisted => exact pruned

/-- So it is in every run in which no file operation of an acknowledgement fails. -/
theorem Reach.pruned (reach : Reach (Unfailing inner latest) w)
    (distinct : DistinctNotices inner.host w.Offered) : w.Pruned := by
  induction reach with
  | start => exact fun process running => by cases running
  | step before may moved ih =>
      have earlier := distinct.offering moved.offered
      have single := before.mono fun _ _ (may : Unfailing inner latest _ _) => may.1
      exact (ih earlier).step single.budgeted
        ((single.mono fun _ _ may => may.underKey).kept earlier) may moved

/-- Every store stays within its budget.  At any moment of any run under one configuration the
quarantine directory, the entries and the gaps are within the limits on files and bytes, and a record
is stored only where entries and gaps leave a place; an acknowledgement leaves no more receipts than are
kept; and a record that is intact and has not reached its deadline is pending unless it was accepted. -/
theorem stores_within_budget (reach : Reach (OneConfig inner latest) w) :
    (inner.config.maxRecords < u64Max →
      w.disk.quarantine.length ≤ inner.config.maxRecords) ∧
    (inner.config.maxBytes < u64Max →
      (w.disk.quarantine.map Blob.length).sum ≤ inner.config.maxBytes) ∧
    (∀ process, w.process = some process →
      process.state.entries.size ≤ inner.config.maxRecords ∧
      process.state.gaps.size ≤ inner.config.maxRecords ∧
      process.state.pendingBytes ≤ inner.config.maxBytes ∧
      process.state.pendingGapBytes ≤ inner.config.maxBytes ∧
      ∀ envelope admittedAtMs faults recordId,
        answer (w.serve process (.enqueue envelope admittedAtMs) faults) =
          .ok (.enqueued (.stored recordId)) →
        process.state.entries.size + process.state.gaps.size < inner.config.maxRecords) ∧
    (DistinctNotices inner.host w.Offered →
      (Reach (Unfailing inner latest) w → ∀ process, w.process = some process →
        process.state.receipts.size ≤ maxAckReceipts) ∧
      ∀ s record, Admitted inner.key w.timeline s record →
        latest.val ≤ record.expiresAtMs.val → record.Intact inner w.timeline s →
        w.disk.read (.pending (pendingFileName s record.recordId)) =
            some (inner.key.encrypt (.record record)) ∨
          AcceptedBy inner.key inner.host w.timeline s record) := by
  have budgeted := reach.budgeted
  obtain ⟨files, bytes⟩ := budgeted.disks w.disk List.mem_cons_self
  refine ⟨fun below => by omega, fun below => by omega, fun process running => ?_, fun distinct =>
    ⟨fun unfailing => unfailing.pruned distinct, fun s record admitted unexpired intact => ?_⟩⟩
  · obtain ⟨rfl, within⟩ := budgeted.running process running
    refine ⟨within.entries, within.gaps, within.pendingBytes, within.pendingGapBytes, ?_⟩
    intro envelope admittedAtMs faults recordId stored
    have room := @post_enqueue_room process.inner (w.machine process faults) envelope admittedAtMs
    rw [World.serve, Request.call] at stored
    simp only [Call.run_bind, Call.run_pure] at stored
    cases ran : (enqueue process.inner envelope admittedAtMs).run (w.machine process faults) with
    | ok outcome m₁ =>
        simp only [bind, EStateM.bind, ran, pure, EStateM.pure, answer_ok, Except.ok.injEq,
          Reply.enqueued.injEq] at stored
        exact room.of_ok ran recordId stored
    | error error m₁ =>
        simp only [bind, EStateM.bind, ran, answer_error] at stored
        cases stored
  · exact (reach.explained distinct).keeps ((reach.mono fun _ _ may => may.underKey).kept distinct)
      admitted unexpired intact

end

/-! ### A spool for two records -/

/-- Two records are admitted and one of them is damaged; a third does not fit until the other two have
been acknowledged. -/
def fullSpool : List Player :=
  [always (.openSpool (sampleInner 2) (sampleTime 0) .none),
    always (.call (.enqueue (sampleEnvelope "a") (sampleTime 1)) .none),
    always (.call (.enqueue (sampleEnvelope "b") (sampleTime 2)) .none),
    damageSequence 1,
    always (.call (.enqueue (sampleEnvelope "c") (sampleTime 3)) .none),
    always (.call (.nextBatchV2 2 (sampleTime 4)) .none),
    acknowledgeAll,
    always (.call (.enqueue (sampleEnvelope "c") (sampleTime 5)) .none),
    always .drop,
    always (.openSpool (sampleInner 2) (sampleTime 6) .none)]

theorem always_unfailing {inner : Inner} {latest : I64} {w : World} {made move : Move}
    (chosen : always made w = some move) (may : Unfailing inner latest w made) :
    Unfailing inner latest w move := by
  obtain rfl := Option.some.inj chosen
  exact may

/-- Without faults a call has only to be made in time. -/
theorem unfailing_call {inner : Inner} {latest : I64} {w : World} {request : Request}
    (timely : ∀ nowMs, request.nowMs? = some nowMs → nowMs.val ≤ latest.val) :
    Unfailing inner latest w (.call request .none) := by
  refine ⟨timely, fun other faults same _ => ?_⟩
  cases same
  rfl

theorem fullSpool_unfailing :
    ∀ player ∈ fullSpool, ∀ w move, player w = some move →
      Unfailing (sampleInner 2) (sampleTime 6) w move := by
  intro player inside w move chosen
  have untimed : ∀ {request : Request}, request.nowMs? = none →
      Unfailing (sampleInner 2) (sampleTime 6) w (.call request .none) := fun none =>
    unfailing_call fun nowMs asked => by rw [none] at asked; cases asked
  simp only [fullSpool, List.mem_cons, List.not_mem_nil, or_false] at inside
  rcases inside with rfl | rfl | rfl | rfl | rfl | rfl | rfl | rfl | rfl | rfl
  · exact always_unfailing chosen ⟨⟨rfl, by decide⟩, fun _ _ same => by cases same⟩
  · exact always_unfailing chosen (untimed rfl)
  · exact always_unfailing chosen (untimed rfl)
  · obtain ⟨name, -, rfl⟩ := Option.map_eq_some_iff.mp chosen
    refine ⟨fun plain opened => ?_, fun _ _ same => by cases same⟩
    cases decrypt_eq_ok opened
  · exact always_unfailing chosen (untimed rfl)
  · refine always_unfailing chosen (unfailing_call fun nowMs asked => ?_)
    obtain rfl := Option.some.inj asked
    decide
  · obtain ⟨batch, -, rfl⟩ := Option.map_eq_some_iff.mp chosen
    exact untimed rfl
  · exact always_unfailing chosen (untimed rfl)
  · exact always_unfailing chosen ⟨trivial, fun _ _ same => by cases same⟩
  · exact always_unfailing chosen ⟨⟨rfl, by decide⟩, fun _ _ same => by cases same⟩

/-- The record of the sequence, where the file holds one. -/
def recordIn (s : Nat) : Blob → Option (StoredRecord Str)
  | .encrypted key (.record record) =>
      if key = sampleKey ∧ record.spoolSeq = some s then some record else none
  | _ => none

theorem recordIn_eq_some {s : Nat} {body : Blob} {record : StoredRecord Str}
    (found : recordIn s body = some record) :
    body = sampleKey.encrypt (.record record) ∧ record.spoolSeq = some s := by
  unfold recordIn at found
  split at found
  · split at found
    · rename_i same
      obtain rfl := Option.some.inj found
      exact ⟨by rw [same.1]; rfl, same.2⟩
    · cases found
  · cases found

/-- A file of the sequence parses, is not due by `latest`, and has held its record at all times. -/
def World.keepsRecord (w : World) (latest : I64) (s : Nat) : Bool :=
  w.disk.pending.entries.any fun file =>
    (recordIn s file.2).any fun record =>
      decide (file.1 = pendingFileName s record.recordId ∧
        record.toJson.depth < Json.recursionLimit ∧
        validStoredRecord (referenceHost integerCodec) (record.map integerCodec.parse) = true ∧
        latest.val ≤ record.expiresAtMs.val) &&
      w.timeline.all fun d => (d.read (.pending file.1)).all fun body =>
        (recordIn s body).any fun other => decide (other.recordId = record.recordId)

/-- What the run comes to. -/
theorem fullSpool_plays :
    ((World.fresh.follow fullSpool).any fun w =>
      decide (w.TellsApart (referenceHost integerCodec)) &&
      (w.keepsRecord (sampleTime 6) 3 &&
        (decide (w.disk.quarantine.length = 1 ∧
          (w.log.countP fun event => event.storedEnvelope?.isSome) = 3) &&
        w.process.any fun process => decide (process.state.entries.size = 1 ∧
          process.state.receipts.size = 1)))) = true := by
  decide +kernel

/-- Such a record was admitted, and it is intact. -/
theorem World.keepsRecord_spec {inner : Inner} {w : World} {latest : I64} {s : Nat}
    (kept : Kept inner.key inner.host w) (key : inner.key = sampleKey)
    (host : inner.host = referenceHost integerCodec) (shows : w.keepsRecord latest s = true) :
    ∃ record, Admitted inner.key w.timeline s record ∧ latest.val ≤ record.expiresAtMs.val ∧
      record.Intact inner w.timeline s := by
  obtain ⟨file, listed, shows⟩ := List.any_eq_true.mp shows
  obtain ⟨record, found, shows⟩ := (Option.any_eq_true _ _).mp shows
  rw [Bool.and_eq_true, decide_eq_true_eq] at shows
  obtain ⟨⟨named, shallow, valid, unexpired⟩, throughout⟩ := shows
  obtain ⟨content, sequence⟩ := recordIn_eq_some found
  have stands : w.disk.read (.pending file.1) = some file.2 := AList.mem_lookup_iff.mpr listed
  have law := kept.always.laws _ _ (List.suffix_refl _)
  have admitted : Admitted inner.key w.timeline s record := by
    refine ⟨sequence, w.disk, List.mem_cons_self, ?_⟩
    rw [← named, stands, content, key]
  refine ⟨record, admitted, unexpired, ⟨shallow, by rw [host]; exact valid⟩,
    fun d inside body there => ?_⟩
  have held := List.all_eq_true.mp throughout d inside
  rw [named, there, Option.all_some] at held
  obtain ⟨other, found', same⟩ := (Option.any_eq_true _ _).mp held
  rw [decide_eq_true_eq] at same
  obtain ⟨content', sequence'⟩ := recordIn_eq_some found'
  have admitted' : Admitted inner.key w.timeline s other :=
    ⟨sequence', d, inside, by rw [same, there, content', key]⟩
  rw [content', key, law.once s other record admitted' admitted]

/-- In the end one file is in quarantine, and the record that came last, which did not fit at first, is
pending and stays so. -/
theorem stores_within_budget_fullSpool :
    ∃ (w : World) (process : Process) (record : StoredRecord Str), w.process = some process ∧
      (w.log.countP fun event => event.storedEnvelope?.isSome) = 3 ∧
      process.state.entries.size = 1 ∧ process.state.receipts.size = 1 ∧
      w.disk.quarantine.length = 1 ∧ w.disk.quarantine.length ≤ (sampleInner 2).config.maxRecords ∧
      (w.disk.quarantine.map Blob.length).sum ≤ (sampleInner 2).config.maxBytes ∧
      process.state.receipts.size ≤ maxAckReceipts ∧
      Admitted sampleKey w.timeline 3 record ∧
      (w.disk.read (.pending (pendingFileName 3 record.recordId)) =
          some (sampleKey.encrypt (.record record)) ∨
        AcceptedBy sampleKey (referenceHost integerCodec) w.timeline 3 record) := by
  obtain ⟨w, followed, shows⟩ := (Option.any_eq_true _ _).mp fullSpool_plays
  rw [Bool.and_eq_true, Bool.and_eq_true, Bool.and_eq_true, decide_eq_true_eq, decide_eq_true_eq]
    at shows
  obtain ⟨apart, keeps, ⟨aside, admissions⟩, shows⟩ := shows
  obtain ⟨process, running, shows⟩ := (Option.any_eq_true _ _).mp shows
  rw [decide_eq_true_eq] at shows
  have unfailing := World.reach_of_follow .start fullSpool_unfailing followed
  have reach := unfailing.mono fun _ _ (may : Unfailing (sampleInner 2) (sampleTime 6) _ _) => may.1
  have distinct : DistinctNotices (sampleInner 2).host w.Offered := apart.distinctNotices
  have kept := (reach.mono fun _ _ may => may.underKey).kept distinct
  obtain ⟨record, admitted, unexpired, intact⟩ := World.keepsRecord_spec kept rfl rfl keeps
  obtain ⟨files, bytes, -, stays⟩ := stores_within_budget reach
  obtain ⟨pruned, pending⟩ := stays distinct
  exact ⟨w, process, record, running, admissions, shows.1, shows.2, aside, files (by decide),
    bytes (by decide), pruned unfailing process running, admitted, pending 3 record admitted unexpired
      intact⟩

end TeslatlasEdge
