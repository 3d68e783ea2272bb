/-
Module: TeslatlasEdge.Spool.Working
Purpose: Calls on working storage.  While no file operation fails, completing a receipt, pruning
  receipts and expiring records always return, and so does the end of an acknowledgement with a
  receipt of bounded length.
Trusted boundary: none
Main exports: Machine.Works, Machine.Calm, Succeeds, Calms, succeeds_completeReceipt,
  post_pruneReceipts_works, post_commitReceipt_works, post_expireDueLocked_works,
  HubAckV2.receipt_length_le
-/
import TeslatlasEdge.Spool.CallChains
import TeslatlasEdge.Spool.Expiry

namespace TeslatlasEdge

open Lib
open Section

/-- No file operation still to come fails, and none has failed. -/
structure Machine.Works (m : Machine) : Prop where
  faultless : m.faults = .none
  unlatched : m.storageWriteFailed = false

/-- On working storage the section returns, and the storage keeps working. -/
abbrev Succeeds {α : Type} (s : Section α) : Prop := Preserves Machine.Works (fun _ => False) s

/-- No file operation still to come fails; the write latch is as it is. -/
structure Machine.Calm (latch : Bool) (m : Machine) : Prop where
  faultless : m.faults = .none
  latched : m.storageWriteFailed = latch

/-- While no file operation fails the section returns, and it leaves the write latch alone. -/
abbrev Calms {α : Type} (s : Section α) : Prop :=
  ∀ latch, Preserves (Machine.Calm latch) (fun _ => False) s

section Works

variable {inner : Inner} {m : Machine}

/-- Whether storage works is not a matter of the state. -/
theorem Machine.Works.update (works : m.Works) (f : State → State) : (m.update f).Works :=
  ⟨works.faultless, works.unlatched⟩

/-- What is within no faults is no faults. -/
theorem Machine.Works.faults {faults : Faults} (works : m.Works) (within : faults.Within m.faults) :
    faults = .none := by
  rw [works.faultless] at within
  exact within.eq_none

theorem Machine.discard_latch (m : Machine) (path : Path) :
    (m.discard path).storageWriteFailed = m.storageWriteFailed := by
  unfold Machine.discard
  split <;> rfl

/-- A section that cannot fail on calm storage succeeds on working storage. -/
theorem Calms.succeeds {α : Type} {s : Section α} (calms : Calms s) : Succeeds s :=
  fun m works => (calms false m ⟨works.faultless, works.unlatched⟩).mono
    (fun _ _ calm => ⟨calm.faultless, calm.latched⟩) fun _ _ failed => ⟨failed.1, failed.1.elim⟩

/-! ### Sections -/

theorem calms_state : Calms Section.state := fun _ _ calm => calm

theorem calms_modifyState (f : State → State) : Calms (modifyState f) :=
  fun _ _ calm => ⟨calm.faultless, calm.latched⟩

theorem calms_syncDirectory : Calms syncDirectory := by
  intro latch m calm
  apply post_syncDirectory
  · intro faults within
    rw [calm.faultless] at within
    exact ⟨within.eq_none, calm.latched⟩
  · intro full inside
    rw [calm.faultless] at inside
    cases inside

/-- A removal cannot fail on calm storage. -/
theorem calms_removeFile (path : Path) : Calms (removeFile path) := by
  intro latch m calm
  apply post_removeFile
  · intro faults within
    rw [calm.faultless] at within
    exact ⟨within.eq_none, (m.discard_latch path).trans calm.latched⟩
  · intro full inside
    rw [calm.faultless] at inside
    cases inside

theorem calms_removeAdmittedRecord (admission : ReceiptAdmission) :
    Calms (removeAdmittedRecord admission) := by
  intro latch
  refine (calms_state latch).bind fun state => ?_
  have forget : Preserves (Machine.Calm latch) (fun _ => False)
      (modifyState (·.forgetCounted admission.spoolSeq)) := calms_modifyState _ latch
  cases admittedEntry state admission with
  | none => exact .ite (forget.bind fun _ => .pure _) (.pure _)
  | some entry =>
      refine (calms_removeFile _ latch).bind fun _ => (calms_modifyState _ latch).bind fun _ => ?_
      exact .ite (forget.bind fun _ => .pure _) (.pure _)

/-- Completing admissions succeeds on calm storage. -/
theorem calms_completeAdmissions (admissions : List ReceiptAdmission) (removed : Bool) :
    Calms (completeAdmissions admissions removed) := by
  induction admissions generalizing removed with
  | nil => exact fun _ => .pure _
  | cons admission rest ih =>
      exact fun latch => (calms_removeAdmittedRecord admission latch).bind fun _ => ih _ latch

theorem calms_completeNotice (noticeId : RecordId) : Calms (completeNotice inner noticeId) := by
  intro latch
  refine (calms_state latch).bind fun state => ?_
  cases state.gaps.get? noticeId with
  | some gap =>
      exact (calms_removeFile _ latch).bind fun _ =>
        (calms_modifyState _ latch).bind fun _ => .pure _
  | none =>
      refine Preserves.bind ((calms_state latch).bind fun state => ?_) fun _ => .pure _
      cases expiredBacking inner.host state noticeId with
      | none => exact .pure _
      | some entry =>
          exact (calms_removeAdmittedRecord _ latch).bind fun _ =>
            (calms_modifyState _ latch).bind fun _ => .pure _

/-- So does completing notices. -/
theorem calms_completeNotices (noticeIds : List RecordId) (flags : Bool × Bool) :
    Calms (completeNotices inner noticeIds flags) := by
  induction noticeIds generalizing flags with
  | nil => exact fun _ => .pure _
  | cons noticeId rest ih =>
      exact fun latch => (calms_completeNotice noticeId latch).bind fun _ => ih _ latch

/-- A write succeeds on working storage. -/
theorem succeeds_writeAtomic (path : Path) (body : Blob) : Succeeds (writeAtomic path body) := by
  intro m works
  apply post_writeAtomic
  · intro latched
    rw [works.unlatched] at latched
    cases latched
  · exact fun _ _ within => ⟨works.faults within, works.unlatched⟩
  · exact fun _ faulty => absurd works.faultless faulty
  · exact fun _ faulty => absurd works.faultless faulty
  · exact fun _ faulty => absurd works.faultless faulty

theorem succeeds_persistCurrentSequenceState : Succeeds (persistCurrentSequenceState inner) :=
  calms_state.succeeds.bind fun _ => succeeds_writeAtomic _ _

/-- Where writing the sequence file returns, storage that worked still works. -/
theorem post_persistCurrentSequenceState_calm :
    Post (persistCurrentSequenceState inner) m (fun _ m' => m.Works → m'.Works)
      (fun _ _ => True) := by
  by_cases works : m.Works
  · exact (succeeds_persistCurrentSequenceState m works).mono (fun _ _ after _ => after)
      fun _ _ _ => trivial
  · exact Post.trivial.mono (fun _ _ _ works' => absurd works' works) fun _ _ _ => trivial

/-- Completing a receipt succeeds on working storage. -/
theorem succeeds_completeReceipt (receipt : AckReceipt) :
    Succeeds (completeReceipt inner receipt) := by
  refine (calms_completeAdmissions _ _).succeeds.bind fun _ =>
    (calms_completeNotices _ _).succeeds.bind fun flags => ?_
  have finish : Succeeds (do syncDirectory; persistCurrentSequenceState inner) :=
    calms_syncDirectory.succeeds.bind fun _ => succeeds_persistCurrentSequenceState
  exact .ite (calms_syncDirectory.succeeds.bind fun _ => finish) finish

/-! ### The write latch -/

/-- No effect opens the latch. -/
theorem Effect.keeps_latch {offered : Nat → Envelope → Prop} {m' : Machine}
    (effect : Effect inner offered m m') (latched : m.storageWriteFailed = true) :
    m'.storageWriteFailed = true := by
  cases effect with
  | fault | wrote | setAside | updated => exact latched
  | writeFailed | orphaned | unsynced => rfl
  | removed => exact (m.discard_latch _).trans latched

/-- Nothing releases the latch. -/
theorem Chain.keeps_latch {offered : Nat → Envelope → Prop} {m' : Machine}
    (chain : Chain inner offered m m') (latched : m.storageWriteFailed = true) :
    m'.storageWriteFailed = true :=
  chain.invariant (I := fun m => m.storageWriteFailed = true)
    (fun _ _ before effect => effect.keeps_latch before) latched

/-- A durable write behind the latch is refused, and leaves everything as it is. -/
theorem post_writeAtomic_latched {path : Path} {body : Blob} (latched : m.storageWriteFailed = true) :
    Post (writeAtomic path body) m (fun _ _ => False) (fun error m' => error = .io ∧ m' = m) := by
  apply post_writeAtomic
  · exact fun _ => ⟨rfl, rfl⟩
  all_goals
    intro open_
    rw [latched] at open_
    cases open_

/-- Under the latch the counters are not written. -/
theorem post_persistCurrentSequenceState_latched (latched : m.storageWriteFailed = true) :
    Post (persistCurrentSequenceState inner) m (fun _ _ => False)
      (fun error m' => error = .io ∧ m' = m) := by
  simp only [persistCurrentSequenceState, persistSequenceState, post_bind, post_state]
  exact post_writeAtomic_latched latched

/-! ### Receipts -/

/-- Receipts are held under their batch. -/
def State.ReceiptsKeyed (state : State) : Prop :=
  ∀ batchId entry, state.receipts.get? batchId = some entry → entry.receipt.batchId = batchId

/-- From one state to the other receipts may have been forgotten, and none has been numbered. -/
structure State.Sheds (a b : State) : Prop where
  receipts : ∀ batchId entry, b.receipts.get? batchId = some entry →
    a.receipts.get? batchId = some entry
  allocated : b.nextReceiptSequence = a.nextReceiptSequence

theorem State.Sheds.refl (state : State) : state.Sheds state := ⟨fun _ _ found => found, rfl⟩

/-- What loses entries twice loses entries. -/
theorem State.Sheds.trans {a b c : State} (first : a.Sheds b) (later : b.Sheds c) : a.Sheds c :=
  ⟨fun batchId entry found => first.receipts batchId entry (later.receipts batchId entry found),
    later.allocated.trans first.allocated⟩

theorem State.Sheds.release (state : State) (entry : Entry) : state.Sheds (state.release entry) := by
  refine ⟨fun _ _ found => by rwa [State.release_receipts] at found, ?_⟩
  unfold State.release
  split <;> rfl

/-- A state loses entries, and no gap, with an admission. -/
theorem State.Sheds.withoutAdmission (state : State) (admission : ReceiptAdmission) :
    state.Sheds (state.withoutAdmission admission) := by
  unfold State.withoutAdmission
  cases admittedEntry state admission with
  | some entry => exact .release state entry
  | none =>
      simp only
      split
      · exact ⟨fun _ _ found => found, rfl⟩
      · exact .refl state

theorem State.Sheds.withoutNotice (host : Host) (state : State) (noticeId : RecordId) :
    state.Sheds (state.withoutNotice host noticeId) := by
  unfold State.withoutNotice
  cases state.gaps.get? noticeId with
  | some gap => exact ⟨fun _ _ found => found, rfl⟩
  | none =>
      simp only
      cases expiredBacking host state noticeId with
      | none => exact .refl state
      | some entry =>
          exact (State.Sheds.withoutAdmission state entry.admission).trans ⟨fun _ _ found => found, rfl⟩

/-- Completing a receipt touches no receipt. -/
theorem State.Sheds.complete (host : Host) (state : State) (receipt : AckReceipt) :
    state.Sheds (state.complete host receipt) := by
  have fold {α : Type} {step : State → α → State} (sheds : ∀ s a, State.Sheds s (step s a))
      (items : List α) : ∀ state : State, state.Sheds (items.foldl step state) := by
    induction items with
    | nil => exact .refl
    | cons item rest ih => exact fun state => (sheds state item).trans (ih _)
  exact (fold State.Sheds.withoutAdmission _ _).trans (fold (State.Sheds.withoutNotice host) _ _)

/-- A pass of pruning returns and forgets one receipt. -/
theorem post_pruneReceipt_works (works : m.Works) (oldest : ReceiptEntry) :
    Post (pruneReceipt inner oldest).run m
      (fun _ m' => m'.Works ∧
        m'.state.receipts = m.state.receipts.erase oldest.receipt.batchId ∧
        m'.state.nextReceiptSequence = m.state.nextReceiptSequence)
      (fun _ _ => False) := by
  have finish : ∀ {m₁ : Machine}, m₁.Works → m₁.state.receipts = m.state.receipts →
      m₁.state.nextReceiptSequence = m.state.nextReceiptSequence →
      Post (do
          Call.atomic (.removeReceipt oldest) (removeFile oldest.path)
          Call.atomic (.forgetReceipt oldest) <| modifyState fun state =>
            { state with receipts := state.receipts.erase oldest.receipt.batchId }
          Call.atomic .sync syncDirectory : SpoolCall Unit).run m₁
        (fun _ m' => m'.Works ∧
          m'.state.receipts = m.state.receipts.erase oldest.receipt.batchId ∧
          m'.state.nextReceiptSequence = m.state.nextReceiptSequence)
        (fun _ _ => False) := by
    intro m₁ works₁ same allocated
    simp only [Call.run_bind, Call.run_atomic, post_bind, post_modifyState]
    apply post_removeFile
    · intro faults within
      have removed : ({ m₁.discard oldest.path with faults := faults } : Machine).Works :=
        ⟨works₁.faults within, (m₁.discard_latch oldest.path).trans works₁.unlatched⟩
      refine ((calms_syncDirectory.succeeds _ (removed.update _)).and post_syncDirectory_state).mono ?_
        fun _ _ failed => failed.1.1
      rintro _ m₂ ⟨works₂, state⟩
      refine ⟨works₂, ?_⟩
      rw [state]
      simp only [Machine.update, Machine.discard_state, same, allocated, and_self]
    · intro full inside
      rw [works₁.faultless] at inside
      cases inside
  unfold pruneReceipt
  split
  · simp only [Call.run_bind, Call.run_atomic, post_bind, post_state, post_ite, post_pure]
    refine ⟨fun _ => ?_, fun _ => ?_⟩
    · rw [post_modifyState]
      have noted := (@succeeds_persistCurrentSequenceState inner _ (works.update fun state =>
        { state with v1AckHistoryPruned := true })).and post_persistCurrentSequenceState_state
      refine noted.mono ?_ fun _ _ failed => failed.1.1
      rintro _ m₁ ⟨works₁, state⟩
      have rest := finish works₁ (by rw [state]; rfl) (by rw [state]; rfl)
      simpa only [Call.run_bind, Call.run_atomic, post_bind, post_modifyState] using rest
    · have rest := finish works rfl rfl
      simpa only [Call.run_bind, Call.run_atomic, post_bind, post_modifyState] using rest
  · exact finish works rfl rfl

/-- Every pass forgets a receipt, so pruning comes to its end. -/
theorem post_pruneReceiptsLoop_works {passes : Nat} (works : m.Works)
    (keyed : m.state.ReceiptsKeyed) (enough : m.state.receipts.size < passes) :
    Post (pruneReceiptsLoop inner passes).run m (fun _ m' => m'.Works ∧ m.state.Sheds m'.state)
      (fun _ _ => False) := by
  induction passes generalizing m with
  | zero => cases enough
  | succ passes ih =>
      simp only [pruneReceiptsLoop, Call.run_bind, Call.run_atomic, post_bind, post_state,
        post_pure]
      cases found : oldestReceipt m.state.receipts with
      | none => exact ⟨works, .refl _⟩
      | some oldest =>
          simp only [Call.run_bind, post_bind]
          refine (post_pruneReceipt_works works oldest).monoOk ?_
          rintro _ m₁ ⟨works₁, erased, allocated⟩
          have stands : m.state.receipts.get? oldest.receipt.batchId = some oldest := by
            unfold oldestReceipt at found
            split at found
            · cases found
            · obtain ⟨batchId, inside⟩ := OrdMap.mem_values_iff.mp (List.argmin_mem found)
              rw [keyed batchId oldest inside]
              exact inside
          have smaller := OrdMap.size_erase_of_get? stands
          have sheds : m.state.Sheds m₁.state :=
            ⟨fun batchId entry held => OrdMap.get?_of_get?_erase (by rwa [erased] at held), allocated⟩
          refine (ih works₁ (fun batchId entry held => keyed batchId entry
            (sheds.receipts batchId entry held)) ?_).monoOk fun _ _ facts =>
              ⟨facts.1, sheds.trans facts.2⟩
          rw [erased]
          omega

/-- Pruning receipts succeeds on working storage. -/
theorem post_pruneReceipts_works (works : m.Works) (keyed : m.state.ReceiptsKeyed) :
    Post (pruneReceipts inner).run m (fun _ m' => m'.Works ∧ m.state.Sheds m'.state)
      (fun _ _ => False) := by
  simp only [pruneReceipts, Call.run_bind, Call.run_atomic, post_bind, post_state, post_pure]
  exact post_pruneReceiptsLoop_works works keyed (Nat.lt_succ_self _)

/-- With a number left and a receipt of bounded length, the end of an acknowledgement returns; the
one new receipt is that of its batch. -/
theorem post_commitReceipt_works {receiptAt : Nat → AckReceipt} (works : m.Works)
    (keyed : m.state.ReceiptsKeyed) (room : m.state.nextReceiptSequence < u64Max)
    (small : (inner.key.encrypt (.receipt (receiptAt m.state.nextReceiptSequence))).length ≤
      maxEncryptedReceiptBytes) :
    Post (commitReceipt inner receiptAt).run m
      (fun _ m' => m'.Works ∧ m'.state.nextReceiptSequence = m.state.nextReceiptSequence + 1 ∧
        ∀ batchId entry, m'.state.receipts.get? batchId = some entry →
          batchId = (receiptAt m.state.nextReceiptSequence).batchId ∨
            m.state.receipts.get? batchId = some entry)
      (fun _ _ => False) := by
  simp only [commitReceipt, Call.run_bind, Call.run_atomic, post_bind]
  apply post_allocateReceipt
  · intro _
    rw [if_neg (not_lt.mpr small)]
    simp only [Call.run_bind, Call.run_atomic, post_bind, post_modifyState]
    set receipt := receiptAt m.state.nextReceiptSequence with receipt_eq
    refine ((succeeds_writeAtomic _ _ _ (works.update _)).and post_writeAtomic_state).mono ?_
      fun _ _ failed => failed.1.1
    rintro _ m₁ ⟨works₁, state₁⟩
    refine ((succeeds_completeReceipt receipt _ (works₁.update _)).and
      post_completeReceipt_state).mono ?_ fun _ _ failed => failed.1.1
    rintro _ m₂ ⟨works₂, state₂⟩
    have completed := State.Sheds.complete inner.host (m₁.update fun state => { state with
      receipts := state.receipts.insert receipt.batchId
        { receipt := receipt
          path := .receipt (receiptFileName m.state.nextReceiptSequence receipt.batchId) } }).state
      receipt
    rw [← state₂] at completed
    have inserted : ∀ batchId entry, m₂.state.receipts.get? batchId = some entry →
        batchId = receipt.batchId ∧ entry.receipt = receipt ∨
          m.state.receipts.get? batchId = some entry := by
      intro batchId entry found
      have found₁ := completed.receipts batchId entry found
      change (m₁.state.receipts.insert receipt.batchId _).get? batchId = some entry at found₁
      rw [state₁, OrdMap.get?_insert] at found₁
      split at found₁
      · rw [← Option.some.inj found₁]
        exact .inl ⟨‹_›, rfl⟩
      · exact .inr found₁
    refine (post_pruneReceipts_works works₂ fun batchId entry found => ?_).monoOk ?_
    · rcases inserted batchId entry found with ⟨named, same⟩ | old
      · rw [same, named]
      · exact keyed batchId entry old
    · rintro _ m₃ ⟨works₃, sheds⟩
      refine ⟨works₃, ?_, fun batchId entry found => ?_⟩
      · rw [sheds.allocated, completed.allocated]
        change m₁.state.nextReceiptSequence = _
        rw [state₁]
        rfl
      · exact (inserted batchId entry (sheds.receipts batchId entry found)).imp And.left id
  · intro exhausted
    omega

/-! ### Expiry -/

/-- Nothing but the entry stands for its sequence. -/
def State.Alone (state : State) (entry : Entry) : Prop :=
  ¬ state.HoldsGapFor entry.spoolSeq ∧
    ∀ other, state.Holds other → other.spoolSeq = entry.spoolSeq → other.recordId = entry.recordId

/-- An entry stays alone while entries go and gaps of other sequences come. -/
theorem State.Alone.of_less {state state' : State} {entry : Entry} {replaced : Nat}
    (alone : state.Alone entry) (other : entry.spoolSeq ≠ replaced)
    (entries : ∀ entry, state'.Holds entry → state.Holds entry)
    (gaps : ∀ s, state'.HoldsGapFor s → state.HoldsGapFor s ∨ s = replaced) :
    state'.Alone entry :=
  ⟨fun gapped => (gaps _ gapped).elim alone.1 other,
    fun held inside => alone.2 held (entries held inside)⟩

/-- On working storage the gap of an entry that is alone is persisted, or there is no room for it. -/
theorem post_persistGapLocked_works {entry : Entry} {occurredAtMs : I64} {reason : GapReasonV2}
    (works : m.Works) (keyed : m.state.Keyed) (alone : m.state.Alone entry) :
    Post (persistGapLocked inner entry occurredAtMs reason) m
      (fun _ m' => m'.Works ∧ m'.state.entries = m.state.entries ∧
        ∀ s, m'.state.HoldsGapFor s → m.state.HoldsGapFor s ∨ s = entry.spoolSeq)
      (fun error m' => error = .capacityExceeded ∧ m' = m) := by
  have ungapped : ¬ (m.state.gaps.values.any fun gap => gap.notice.spoolSeq = entry.spoolSeq) =
      true := by
    intro gapped
    obtain ⟨gap, inside, same⟩ := List.any_eq_true.mp gapped
    obtain ⟨noticeId, found⟩ := OrdMap.mem_values_iff.mp inside
    exact alone.1 ⟨noticeId, gap, found, of_decide_eq_true same⟩
  have single : ¬ (m.state.entries.values.any fun pending =>
      pending.spoolSeq = entry.spoolSeq && pending.recordId ≠ entry.recordId) = true := by
    intro shared
    obtain ⟨other, inside, facts⟩ := List.any_eq_true.mp shared
    rw [Bool.and_eq_true, decide_eq_true_eq, decide_eq_true_eq] at facts
    exact facts.2 (alone.2 other (keyed.holds inside) facts.1)
  simp only [persistGapLocked, post_bind, post_state, post_ite, post_throw, post_pure,
    post_modifyState]
  refine ⟨fun _ => ⟨works, trivial, fun _ gapped => .inl gapped⟩, fun _ =>
    ⟨fun gapped => absurd gapped ungapped, fun _ => ⟨fun shared => absurd shared single, fun _ =>
      ⟨fun _ => ⟨trivial, trivial⟩, fun _ => ⟨fun _ => ⟨trivial, trivial⟩, fun _ => ?_⟩⟩⟩⟩⟩
  refine ((succeeds_writeAtomic _ _ _ works).and post_writeAtomic_state).mono ?_
    fun _ _ failed => failed.1.1.elim
  rintro _ m₁ ⟨works₁, state⟩
  refine ⟨works₁.update _, by rw [← state]; rfl, ?_⟩
  rintro s ⟨noticeId, gap, found, rfl⟩
  change (m₁.state.gaps.insert _ _).get? noticeId = some gap at found
  rw [OrdMap.get?_insert] at found
  split at found
  · rw [← Option.some.inj found]
    exact .inr rfl
  · rw [state] at found
    exact .inl ⟨noticeId, gap, found, rfl⟩

/-- Taking a replaced entry out of the state leaves the gaps alone. -/
theorem post_replaced {entry : Entry} :
    Post (do
        let _ ← removeAdmittedRecord entry.admission
        syncDirectory
        modifyState (·.forgetCounted entry.spoolSeq)) m
      (fun _ m' => m'.state.gaps = m.state.gaps ∧ ∀ id other,
        m'.state.entries.get? id = some other → m.state.entries.get? id = some other)
      (fun _ _ => True) := by
  have finish : ∀ {m₁ : Machine}, m₁.state.gaps = m.state.gaps →
      (∀ id other, m₁.state.entries.get? id = some other → m.state.entries.get? id = some other) →
      Post (do
          syncDirectory
          modifyState (·.forgetCounted entry.spoolSeq)) m₁
        (fun _ m' => m'.state.gaps = m.state.gaps ∧ ∀ id other,
          m'.state.entries.get? id = some other → m.state.entries.get? id = some other)
        (fun _ _ => True) := by
    intro m₁ gaps entries
    rw [post_bind]
    refine post_syncDirectory (fun faults _ => ?_) fun _ _ _ _ => trivial
    exact ⟨gaps, entries⟩
  rw [post_bind]
  apply post_removeAdmittedRecord_exits
  · exact fun _ => finish rfl fun _ _ found => found
  · exact fun _ _ => finish rfl fun _ _ found => found
  · intro other held same faults _
    have state : (m.discard other.path).state = m.state := m.discard_state other.path
    refine finish ?_ fun id kept still => ?_
    · change ((m.discard other.path).state.release other).gaps = _
      rw [state, State.release_gaps]
    · change ((m.discard other.path).state.release other).entries.get? id = some kept at still
      rw [state, State.release_entries] at still
      exact OrdMap.get?_of_get?_erase still
  · exact fun _ _ _ _ => trivial

/-- On working storage a replaced entry is taken out, and the section goes on. -/
theorem post_replaced_works {entry : Entry} {α : Type} {later : Section α} {onOk : α → Machine → Prop}
    (works : m.Works)
    (continues : ∀ m', m'.Works → m'.state.gaps = m.state.gaps →
      (∀ id other, m'.state.entries.get? id = some other → m.state.entries.get? id = some other) →
      Post later m' onOk fun _ _ => False) :
    Post (do
        let _ ← removeAdmittedRecord entry.admission
        syncDirectory
        modifyState (·.forgetCounted entry.spoolSeq)
        later) m onOk (fun _ _ => False) := by
  have goes : Succeeds (do
      let _ ← removeAdmittedRecord entry.admission
      syncDirectory
      modifyState (·.forgetCounted entry.spoolSeq)) :=
    (calms_removeAdmittedRecord _).succeeds.bind fun _ => calms_syncDirectory.succeeds.bind fun _ =>
      (calms_modifyState _).succeeds
  have whole := (((goes m works).and post_replaced).mono (fun _ _ facts => facts)
    fun _ _ failed => failed.1.1).bind fun _ m' facts => continues m' facts.1 facts.2.1 facts.2.2
  simpa only [bind_assoc] using whole

/-- On working storage the loop over expired entries comes to its end. -/
theorem post_expireEntries_works {expired : List Entry} {removedBacking : Bool} (works : m.Works)
    (keyed : m.state.Keyed) (alone : ∀ entry ∈ expired, m.state.Alone entry)
    (distinct : expired.Pairwise fun a b => a.spoolSeq ≠ b.spoolSeq) :
    Post (expireEntries inner expired removedBacking) m (fun _ m' => m'.Works)
      (fun _ _ => False) := by
  induction expired generalizing m removedBacking with
  | nil => exact works
  | cons entry rest ih =>
      obtain ⟨apart, distinct⟩ := List.pairwise_cons.mp distinct
      rw [expireEntries, post_bind, post_tryCatch, post_bind]
      refine (post_persistGapLocked_works works keyed (alone entry List.mem_cons_self)).mono ?_ ?_
      · rintro answer m₁ ⟨works₁, entries, gaps⟩
        rw [post_pure, if_pos rfl]
        refine post_replaced_works works₁ fun m₂ works₂ gaps₂ entries₂ => ?_
        rw [entries] at entries₂
        refine ih works₂ (fun id other found => keyed id other (entries₂ id other found))
          (fun other inside => ?_) distinct
        -- the entries behind stay alone, for they have other sequences
        refine (alone other (List.mem_cons_of_mem _ inside)).of_less (apart other inside).symm
          (fun other held => entries₂ _ other held) ?_
        rintro s ⟨noticeId, gap, found, same⟩
        exact gaps s ⟨noticeId, gap, by rwa [← gaps₂], same⟩
      · rintro error m₁ ⟨rfl, rfl⟩
        rw [if_pos rfl, post_pure, if_neg Bool.false_ne_true]
        exact ih works keyed (fun other inside => alone other (List.mem_cons_of_mem _ inside)) distinct

/-- How many expirations `expire_due` counts anew. -/
def State.newlyExpired (state : State) (nowMs : I64) : Nat :=
  ((dueEntries state nowMs).foldl (countExpired state.gaps.values)
    (state.countedPendingExpirations, 0)).2

/-- On working storage expiry returns, unless the counter of expired records is used up or a
sequence stands for two things. -/
theorem post_expireDueLocked_works {nowMs : I64} (works : m.Works) (keyed : m.state.Keyed)
    (separate : m.state.Separate)
    (ungapped : ∀ entry, m.state.Holds entry → ¬ m.state.HoldsGapFor entry.spoolSeq)
    (room : 0 < m.state.newlyExpired nowMs →
      m.state.expiredRecords + m.state.newlyExpired nowMs ≤ u64Max) :
    Post (expireDueLocked inner nowMs) m (fun _ m' => m'.Works) (fun _ _ => False) := by
  have loop : ∀ {m₁ : Machine}, m₁.Works → m₁.state.entries = m.state.entries →
      m₁.state.gaps = m.state.gaps →
      Post (do
          let removedBacking ← expireEntries inner (dueEntries m.state nowMs) false
          if removedBacking then persistCurrentSequenceState inner) m₁
        (fun _ m' => m'.Works) (fun _ _ => False) := by
    intro m₁ works₁ entries gaps
    refine (post_expireEntries_works works₁ (by rw [State.Keyed, entries]; exact keyed)
      (fun entry inside => ⟨?_, fun other held same => ?_⟩) ?_).bind fun removed m₂ works₂ => ?_
    · rw [State.HoldsGapFor, gaps]
      exact ungapped entry ((mem_dueEntries keyed).mp inside).1
    · rw [State.Holds, entries] at held
      rw [separate.single other entry held ((mem_dueEntries keyed).mp inside).1 same]
    · refine (nodup_dueEntries keyed nowMs).imp_of_mem fun first second different same => ?_
      exact different (separate.single _ _ ((mem_dueEntries keyed).mp first).1
        ((mem_dueEntries keyed).mp second).1 same)
    · rw [post_ite]
      exact ⟨fun _ => (succeeds_persistCurrentSequenceState m₂ works₂).mono (fun _ _ works => works)
        fun _ _ failed => failed.1, fun _ => works₂⟩
  simp only [post_bind, post_ite, post_pure] at loop
  simp only [expireDueLocked, post_bind, post_state, post_ite, post_pure]
  refine ⟨fun some => ?_, fun none => loop works rfl rfl⟩
  cases added : checkedAdd m.state.expiredRecords _ with
  | none =>
      cases added.symm.trans (checkedAdd_of_le (room some))
  | some total =>
      simp only [post_bind, persistSequenceState]
      refine ((succeeds_writeAtomic _ _ _ works).and post_writeAtomic_state).mono ?_
        fun _ _ failed => failed.1.1
      rintro _ m₁ ⟨works₁, state⟩
      rw [post_modifyState]
      simp only [post_bind, post_ite, post_pure]
      exact loop (works₁.update _) (by rw [← state]; rfl) (by rw [← state]; rfl)

end Works

/-! ### The length of a receipt -/

theorem Json.itemsSize_le {bound : Nat} {items : List JsonText}
    (short : ∀ item ∈ items, item.size ≤ bound) :
    Json.itemsSize items ≤ (bound + 1) * items.length := by
  induction items with
  | nil => exact Nat.zero_le _
  | cons item rest ih =>
      have here := short item List.mem_cons_self
      have later := ih fun other inside => short other (List.mem_cons_of_mem _ inside)
      rw [List.length_cons, Nat.mul_succ]
      cases rest with
      | nil => simp only [Json.itemsSize, List.length_nil] at later ⊢; omega
      | cons => simp only [Json.itemsSize] at later ⊢; omega

/-- The size of a list of identities is bounded by its length. -/
theorem size_recordIds_le (ids : List RecordId) :
    (Json.arr (ids.map RecordId.toJson) : JsonText).size ≤ 2 + 67 * ids.length := by
  have items := @Json.itemsSize_le 66 (ids.map RecordId.toJson) fun item inside => by
    obtain ⟨id, -, rfl⟩ := List.mem_map.mp inside
    exact (strSize_digest id.valid).le
  rw [List.length_map] at items
  rw [Json.size]
  omega

/-- So is that of a list of admissions. -/
theorem size_admissions_le {admissions : List ReceiptAdmission}
    (bounded : ∀ admission ∈ admissions, admission.spoolSeq ≤ u64Max) :
    (Json.arr (admissions.map ReceiptAdmission.toJson) : JsonText).size ≤
      2 + 212 * admissions.length := by
  have items := @Json.itemsSize_le 211 (admissions.map ReceiptAdmission.toJson) fun item inside => by
    obtain ⟨admission, here, rfl⟩ := List.mem_map.mp inside
    have sequence := intSize_nat_le (bounded admission here)
    have keys : Json.strSize "spool_seq".toList = 11 ∧
        Json.strSize "stable_record_id".toList = 18 ∧
        Json.strSize "legacy_record_id".toList = 18 := by decide
    simp only [ReceiptAdmission.toJson, RecordId.toJson, Json.size, Json.fieldsSize,
      strSize_digest admission.stableRecordId.valid, strSize_digest admission.legacyRecordId.valid]
    omega
  rw [List.length_map] at items
  rw [Json.size]
  omega

/-- The receipt of a batch is short enough to be written. -/
theorem HubAckV2.receipt_length_le (key : EncryptionKey) {ack : HubAckV2}
    {admissions : List ReceiptAdmission} {sequence : Nat} (bounded : sequence ≤ u64Max)
    (digest : validDigest ack.batchId = true) (records : ack.acceptedRecordIds.length ≤ 256)
    (gaps : ack.acceptedGapNoticeIds.length ≤ 256) (count : admissions.length ≤ 256)
    (sequences : ∀ admission ∈ admissions, admission.spoolSeq ≤ u64Max) :
    (key.encrypt (.receipt (ack.receipt admissions sequence))).length ≤
      maxEncryptedReceiptBytes := by
  have number := intSize_nat_le bounded
  have stable := size_recordIds_le ack.acceptedRecordIds
  have notices := size_recordIds_le ack.acceptedGapNoticeIds
  have items := size_admissions_le sequences
  have keys : Json.strSize "version".toList = 9 ∧ Json.strSize "sequence".toList = 10 ∧
      Json.strSize "batch_id".toList = 10 ∧ Json.strSize "accepted_record_ids".toList = 21 ∧
      Json.strSize "accepted_stable_record_ids".toList = 28 ∧
      Json.strSize "accepted_gap_notice_ids".toList = 25 ∧
      Json.strSize "accepted_admissions".toList = 21 := by decide
  have two : Json.intSize (2 : Nat) = 1 := by decide
  have digestSize := strSize_digest digest
  simp only [EncryptionKey.encrypt, Blob.length, Plain.size, Plain.text, AckReceipt.toJson,
    HubAckV2.receipt, headerBytes, maxEncryptedReceiptBytes, Json.size]
  cases first : ack.acceptedRecordIds <;> cases second : ack.acceptedGapNoticeIds <;>
    simp only [listMember, first, second, List.cons_append, List.nil_append, List.append_nil,
      Json.fieldsSize, List.map_nil] at stable notices records gaps ⊢ <;>
    simp only [Json.size, Json.itemsSize] at stable notices items ⊢ <;> omega

end TeslatlasEdge
