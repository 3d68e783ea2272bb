/-
Module: TeslatlasEdge.Quarantine
Purpose: Whose admission a quarantine acts on when calls run side by side.  As long as no later
  admission has taken over the identity of the entry it was handed, a quarantine touches that entry
  alone, and an entry whose file reads back stays until it is acknowledged or expired; an identical
  post that comes in between loses its place.
Trusted boundary: none
Main exports: Label.Ends, SectionOf.keeps_entry, Shared.Spared, quarantine_keeps_to_its_admission,
  quarantine_displaces_repost
-/
import TeslatlasEdge.Acknowledgement
import TeslatlasEdge.Concurrency
import TeslatlasEdge.Spool.Expiry

namespace TeslatlasEdge

open Lib
open Section
open Call (onOk)

variable {inner : Inner} {offered : Nat → Envelope → Prop} {m : Machine} {entry : Entry}

/-! ### What each section does to an entry -/

/-- The section acknowledges the entry, or finds it due. -/
def Label.Ends (host : Host) (state : State) (entry : Entry) : Label → Prop
  | .complete receipt => entry.admission ∈ receipt.acceptedAdmissions ∨
      state.countedPendingExpirations.contains entry.spoolSeq = true ∧
        entry.retentionNoticeId host ∈ receipt.acceptedGapNoticeIds
  | .expire nowMs => state.Due nowMs entry
  | _ => False

/-- Admitting an entry does not touch those with other identities. -/
theorem State.holds_admitEntry {state : State} {new : Entry} (other : entry.recordId ≠ new.recordId) :
    (state.admitEntry new).Holds entry ↔ state.Holds entry := by
  rw [State.Holds, State.admitEntry, OrdMap.get?_insert, if_neg other]
  exact Iff.rfl

/-- An admission leaves the entries with other identities. -/
theorem post_enqueueLocked_holds {envelope : Envelope} {admittedAtMs : I64}
    (held : m.state.Holds entry)
    (other : m.state.stableIndex.get? (envelope.stableRecordId inner.host) = none →
      entry.recordId ≠ envelope.recordId inner.host) :
    Post (enqueueLocked inner envelope admittedAtMs) m
      (fun _ m' => m'.state.Holds entry) (fun _ m' => m'.state.Holds entry) := by
  simp only [enqueueLocked, post_bind, post_state]
  cases known : m.state.stableIndex.get? (envelope.stableRecordId inner.host) with
  | some existing => exact held
  | none =>
      cases checkedAdd m.state.nextSpoolSequence 1 with
      | none => exact held
      | some next =>
          simp only [post_bind, post_ite, post_throw, post_pure]
          refine ⟨fun _ => held, fun _ => ⟨fun _ => held, fun _ => ⟨fun _ => held,
            fun _ => ⟨fun _ => held, fun _ => ?_⟩⟩⟩⟩
          apply post_writeAtomic
          · exact fun _ => held
          · intro _ faults _
            simp only [post_modifyState]
            refine post_persistCurrentSequenceState_state.mono (fun _ m' same => ?_) fun _ m' same => ?_
            · rw [same]
              exact (State.holds_admitEntry (other known)).mpr held
            · rw [same]
              exact (State.holds_admitEntry (other known)).mpr held
          · exact fun _ _ _ _ _ => held
          · exact fun _ _ _ _ _ => held
          · exact fun _ _ _ _ _ => held

/-- Removing another admission leaves the entry. -/
theorem State.withoutAdmission_holds {state : State} {admission : ReceiptAdmission}
    (keyed : state.Keyed) (held : state.Holds entry) (other : admission ≠ entry.admission)
    (host : Host) : (state.withoutAdmission admission).Holds entry := by
  have takes := @Takes.withoutAdmission host [admission] [] state admission List.mem_cons_self
  rcases takes.entries keyed entry held with kept | accepted | ⟨-, noticed⟩
  · exact kept
  · exact absurd (List.mem_singleton.mp accepted).symm other
  · cases noticed

/-- Expiring other entries leaves the entry. -/
theorem post_expireEntries_holds {entries : List Entry} {removed : Bool}
    (keyed : m.state.Keyed) (held : m.state.Holds entry)
    (others : ∀ other ∈ entries, other.admission ≠ entry.admission) :
    Post (expireEntries inner entries removed) m
      (fun _ m' => m'.state.Holds entry) (fun _ m' => m'.state.Holds entry) := by
  induction entries generalizing m removed with
  | nil => exact held
  | cons first rest ih =>
      have later : ∀ other ∈ rest, other.admission ≠ entry.admission :=
        fun other inside => others other (List.mem_cons_of_mem _ inside)
      simp only [expireEntries, post_bind, post_tryCatch]
      refine post_persistGapLocked_noted.mono ?_ ?_
      · rintro _ m₁ ⟨note, -⟩
        have keyed₁ : m₁.state.Keyed := by
          rw [State.Keyed, note.entries]
          exact keyed
        have held₁ := note.holds.mpr held
        simp only [post_pure, if_true, post_bind]
        refine post_removeAdmittedRecord_state.mono (fun _ m₂ state => ?_) fun _ m₂ state => by
          rwa [state]
        have kept : m₂.state.Holds entry := by
          rw [state]
          exact State.withoutAdmission_holds keyed₁ held₁ (others first List.mem_cons_self) inner.host
        have keyed₂ : m₂.state.Keyed := by
          rw [state]
          exact (@Takes.withoutAdmission inner.host [first.admission] [] m₁.state first.admission
            List.mem_cons_self).keyed keyed₁
        refine post_syncDirectory_state.mono (fun _ m₃ same => ?_) fun _ m₃ same => by rwa [same]
        simp only [post_modifyState]
        have kept₃ : m₃.state.Holds entry ∧ m₃.state.Keyed := by rw [same]; exact ⟨kept, keyed₂⟩
        exact ih (m := m₃.update (·.forgetCounted first.spoolSeq)) kept₃.2 kept₃.1 later
      · rintro error m₁ ⟨state, -⟩
        have held₁ : m₁.state.Holds entry := by rwa [state]
        simp only [post_ite, post_pure, post_throw, Bool.false_eq_true]
        exact ⟨fun _ => ⟨False.elim, fun _ => ih (by rwa [state]) held₁ later⟩, fun _ => held₁⟩

/-- Expiry leaves what is not due. -/
theorem post_expireDueLocked_holds {nowMs : I64} (keyed : m.state.Keyed) (held : m.state.Holds entry)
    (current : ¬ m.state.Due nowMs entry) :
    Post (expireDueLocked inner nowMs) m
      (fun _ m' => m'.state.Holds entry) (fun _ m' => m'.state.Holds entry) := by
  have others : ∀ other ∈ dueEntries m.state nowMs, other.admission ≠ entry.admission := by
    intro other inside same
    obtain ⟨held', due⟩ := (mem_dueEntries keyed).mp inside
    have named : other.recordId = entry.recordId := congrArg ReceiptAdmission.legacyRecordId same
    rw [State.Holds, named, held] at held'
    obtain rfl := Option.some.inj held'
    exact current due
  have loop : ∀ {m₁ : Machine}, m₁.state.entries = m.state.entries →
      Post (do
          let removedBacking ← expireEntries inner (dueEntries m.state nowMs) false
          if removedBacking then persistCurrentSequenceState inner) m₁
        (fun _ m' => m'.state.Holds entry) (fun _ m' => m'.state.Holds entry) := by
    intro m₁ same
    have keyed₁ : m₁.state.Keyed := by
      rw [State.Keyed, same]
      exact keyed
    have held₁ : m₁.state.Holds entry := by
      rw [State.Holds, same]
      exact held
    refine (post_expireEntries_holds keyed₁ held₁ others).bind fun removed m₂ kept => ?_
    simp only [post_ite, post_pure]
    refine ⟨fun _ => ?_, fun _ => kept⟩
    exact post_persistCurrentSequenceState_state.mono (fun _ m₃ state => by rwa [state])
      fun _ m₃ state => by rwa [state]
  simp only [post_bind, post_ite, post_pure] at loop
  simp only [expireDueLocked, post_bind, post_state, post_ite, post_pure]
  refine ⟨fun _ => ?_, fun _ => loop rfl⟩
  split
  · exact held
  · simp only [post_bind, persistSequenceState]
    apply post_writeAtomic
    · exact fun _ => held
    · intro _ faults _
      simp only [post_modifyState, post_ite, post_bind, post_pure]
      exact loop rfl
    · exact fun _ _ _ _ _ => held
    · exact fun _ _ _ _ _ => held
    · exact fun _ _ _ _ _ => held

/-- A quarantine that finds no entry under the identity does nothing. -/
theorem quarantineRuntimeEntry_free (free : m.state.entries.get? entry.recordId = none) :
    finalState (quarantineRuntimeEntry inner entry m) = m := by
  have nothing : Post (quarantineRuntimeEntry inner entry) m (fun _ m' => m' = m)
      (fun _ m' => m' = m) := by
    simp only [quarantineRuntimeEntry, post_bind, post_state, OrdMap.contains_eq_false_iff.mpr free,
      Bool.false_eq_true, not_false_eq_true, if_true, post_pure]
  exact nothing.final (I := fun m' => m' = m)

/-- A quarantine takes away at most the entry under the identity it was handed. -/
theorem post_quarantineRuntimeEntry_holds {other : Entry} (held : m.state.Holds other)
    (apart : other.recordId ≠ entry.recordId) :
    Post (quarantineRuntimeEntry inner entry) m
      (fun _ m' => m'.state.Holds other) (fun _ m' => m'.state.Holds other) := by
  simp only [quarantineRuntimeEntry, post_bind, post_state, post_ite, post_pure]
  refine ⟨fun _ => held, fun _ => ?_⟩
  refine post_persistGapLocked_noted.mono ?_ fun _ m₁ failed => by rwa [failed.1]
  rintro _ m₁ ⟨note, -⟩
  have held₁ := note.holds.mpr held
  have finish : ∀ {m₂ : Machine}, m₂.state = m₁.state →
      Post (modifyState (·.dropQuarantined entry)) m₂
        (fun _ m' => m'.state.Holds other) (fun _ m' => m'.state.Holds other) := by
    intro m₂ same
    rw [post_modifyState]
    change (m₂.state.entries.erase entry.recordId).get? other.recordId = some other
    rw [OrdMap.get?_erase, if_neg apart, same]
    exact held₁
  simp only [post_tryCatch]
  apply post_quarantineFileBounded
  · exact fun _ _ _ _ => finish rfl
  · intro error faults _ _
    simp only [post_ite, post_bind, post_disk, post_throw]
    exact ⟨fun _ => post_syncDirectory (fun _ _ => finish rfl) fun _ _ _ _ => held₁,
      fun _ => held₁⟩
  · intro body _ _ full faults _
    simp only [post_ite, post_bind, post_disk, post_throw]
    exact ⟨fun _ => post_syncDirectory (fun _ _ => finish rfl) fun _ _ _ _ => held₁,
      fun _ => held₁⟩

/-- A section that admits, expires, sets aside and completes nothing leaves the entries. -/
theorem SectionOf.entries_of_quiet {label : Label} {act : Machine → Machine}
    (is : SectionOf inner label act)
    (quiet : match label with
      | .enqueue _ _ | .expire _ | .quarantine _ | .complete _ => False
      | _ => True) : (act m).state.entries = m.state.entries := by
  have final : ∀ {α : Type} {section_ : Section α},
      Post section_ m (fun _ m' => m'.state.entries = m.state.entries)
        (fun _ m' => m'.state.entries = m.state.entries) →
      (finalState (section_ m)).state.entries = m.state.entries :=
    fun holds => holds.final (I := fun m' : Machine => m'.state.entries = m.state.entries)
  cases is with
  | observe same | read same | admissions same => rw [same]
  | enqueue | expire | quarantine | complete => exact quiet.elim
  | allocate =>
      apply final
      simp only [allocateReceipt, post_bind, post_state]
      cases checkedAdd m.state.nextReceiptSequence 1 with
      | none => exact rfl
      | some next => exact rfl
  | writeReceipt =>
      exact final (post_writeAtomic_state.mono (fun _ _ same => by rw [same])
        fun _ _ same => by rw [same])
  | insertReceipt | forgetReceipt => rfl
  | pruneHistory =>
      apply final
      simp only [post_bind, post_state, post_ite, post_modifyState, post_pure]
      refine ⟨fun _ => ?_, fun _ => trivial⟩
      exact post_persistCurrentSequenceState_state.mono (fun _ _ same => by rw [same]; rfl)
        fun _ _ same => by rw [same]; rfl
  | removeReceipt =>
      apply final
      refine post_removeFile (fun faults within => ?_) fun _ _ _ _ => rfl
      exact congrArg State.entries (m.discard_state _)
  | sync =>
      exact final (post_syncDirectory_state.mono (fun _ _ same => by rw [same])
        fun _ _ same => by rw [same])

/-- An entry whose file reads back stays through every section that does not acknowledge it or find it
due. -/
theorem SectionOf.keeps_entry {label : Label} {act : Machine → Machine}
    (is : SectionOf inner label act) (whole : Whole inner offered m)
    (faithful : FaithfulIds inner.host offered) (granted : Granted offered label m)
    (due : Due inner label m) (held : m.state.Holds entry) {stored : StoredRecord F64}
    (reads : decodeEntry inner entry (m.disk.read entry.path) = .ok stored)
    (spared : ¬ label.Ends inner.host m.state entry) : (act m).state.Holds entry := by
  have final : ∀ {α : Type} {section_ : Section α},
      Post section_ m (fun _ m' => m'.state.Holds entry) (fun _ m' => m'.state.Holds entry) →
      (finalState (section_ m)).state.Holds entry :=
    fun holds => holds.final (I := fun m' : Machine => m'.state.Holds entry)
  obtain ⟨-, coherent⟩ := whole.coherent faithful
  cases label with
  | enqueue envelope admittedAtMs =>
      cases is
      refine final (post_enqueueLocked_holds held fun absent same => ?_)
      -- the same identity would be known by its stable identity
      obtain ⟨s, other, offer, legacy, stable⟩ := coherent.origin entry held
      have known := (coherent.stable entry.stableRecordId entry.recordId).mpr
        ⟨entry, held, rfl, rfl⟩
      rw [stable, faithful s other _ envelope offer granted (legacy.symm.trans same), absent] at known
      cases known
  | expire nowMs =>
      cases is
      exact final (post_expireDueLocked_holds whole.ready.keyed held spared)
  | quarantine other =>
      cases is
      rcases granted with free | held'
      · have nothing := @quarantineRuntimeEntry_free inner m other free
        change (finalState (quarantineRuntimeEntry inner other m)).state.Holds entry
        rw [nothing]
        exact held
      · refine final (post_quarantineRuntimeEntry_holds held fun same => ?_)
        rw [State.Holds, ← same, held] at held'
        obtain rfl := Option.some.inj held'
        exact due stored reads
  | complete receipt =>
      cases is
      have start : TakesOnly inner.host receipt.acceptedAdmissions receipt.acceptedGapNoticeIds m.state
          m := ⟨whole.ready.keyed, .refl m.state⟩
      refine final ((takesOnly_completeReceipt receipt m start).mono (fun _ m' takes => ?_)
        fun _ m' takes => ?_)
      · rcases takes.2.entries whole.ready.keyed entry held with kept | accepted | noticed
        · exact kept
        · exact absurd (.inl accepted) spared
        · exact absurd (.inr noticed) spared
      · rcases takes.2.2.entries whole.ready.keyed entry held with kept | accepted | noticed
        · exact kept
        · exact absurd (.inl accepted) spared
        · exact absurd (.inr noticed) spared
  | observe | read | admissions | allocate | writeReceipt | insertReceipt | pruneHistory
  | removeReceipt | forgetReceipt | sync =>
      rw [State.Holds, is.entries_of_quiet trivial]
      exact held

/-! ### Runs of calls side by side -/

/-- The running process holds the entry and knows it by its stable identity. -/
def Shared.Keeps (s : Shared) (entry : Entry) : Prop :=
  ∃ process, s.world.process = some process ∧ process.state.Holds entry ∧
    process.state.stableIndex.get? entry.stableRecordId = some entry.recordId

/-- The turn acknowledges the entry, or expires it. -/
def Turn.Ends (host : Host) (state : State) (entry : Entry) : Turn → Prop
  | .advance label _ => label.Ends host state entry
  | .outside _ | .join _ | .stop _ _ | .answer => False

/-- From one point of a run to another the process stays up, the file of the entry reads back, and the
entry is neither acknowledged nor expired. -/
inductive Shared.Spared (allowed : World → Move → Prop) (entry : Entry) (s : Shared) : Shared → Prop where
  | here : Shared.Spared allowed entry s s
  | step {t u : Shared} {turn : Turn} {process : Process} (before : Shared.Spared allowed entry s t)
      (may : t.Permits allowed turn) (taken : t.Takes turn u)
      (running : t.world.process = some process)
      (reads : ∃ stored, decodeEntry process.inner entry (t.world.disk.read entry.path) = .ok stored)
      (spared : ¬ turn.Ends process.inner.host process.state entry)
      (up : u.world.process.isSome = true) : Shared.Spared allowed entry s u

/-- A quarantine that led from one point to another has removed no admission but that of the entry it
was handed, and where none is pending under its sequence it has done nothing. -/
structure Shared.QuarantinesOnly (s t : Shared) (entry : Entry) : Prop where
  removes : ∀ process after other, s.world.process = some process →
    t.world.process = some after → process.state.Holds other →
    after.state.Holds other ∨ other.spoolSeq = entry.spoolSeq
  records : ∀ process, s.world.process = some process →
    (∃ other, process.state.Holds other ∧ other.spoolSeq = entry.spoolSeq) ∨
      t.world.disk = s.world.disk ∧
        ∀ after, t.world.process = some after → after.state = process.state

section

variable {key : EncryptionKey} {host : Host} {s t u : Shared}

/-- A run in which the entry is spared is a run. -/
theorem Shared.Spared.later {allowed : World → Move → Prop}
    (spared : Shared.Spared allowed entry s t) : (sharedSystem allowed).Later s t := by
  induction spared with
  | here => exact .refl
  | step before may taken running reads spares up ih => exact ih.tail ⟨_, may, taken⟩

/-- A turn in which the entry is spared keeps it. -/
theorem Shared.Keeps.step {turn : Turn} {process : Process} (keeps : s.Keeps entry)
    (standing : s.Standing key host t.world.Offered) (may : s.Permits (Limited key host) turn)
    (taken : s.Takes turn t) (running : s.world.process = some process)
    (reads : ∃ stored, decodeEntry process.inner entry (s.world.disk.read entry.path) = .ok stored)
    (spared : ¬ turn.Ends process.inner.host process.state entry)
    (up : t.world.process.isSome = true) (distinct : DistinctNotices host t.world.Offered)
    (faithful : FaithfulIds host t.world.Offered) : t.Keeps entry := by
  obtain ⟨other, running', held, indexed⟩ := keeps
  rw [running] at running'
  obtain rfl := Option.some.inj running'
  cases taken with
  | @outside move w apart moved =>
      obtain ⟨after, here⟩ := Option.isSome_iff_exists.mp up
      have busy : s.world.process ≠ none := by
        rw [running]
        exact Option.some_ne_none _
      obtain ⟨same, -⟩ := moved.outside_advances apart (Limited.underKey may) here busy .none
      rw [running] at same
      obtain rfl := Option.some.inj same
      exact ⟨process, here, held, indexed⟩
  | join | answer => exact ⟨process, running, held, indexed⟩
  | stop => cases up
  | @advance label faults process' asked act next before after running' here =>
      rw [running] at running'
      obtain rfl := Option.some.inj running'
      have undisplaced : Undisplaced process.state label := may process running
      obtain ⟨follows, coherent⟩ := @Shared.Standing.left _ _ _ _ _ faults _ _ _ _ _ _
        (s.world.perform process label act faults) standing running here undisplaced rfl
        (fun _ _ offer => offer) distinct
      obtain ⟨rfl, rfl, -⟩ := standing.kept.running process running
      have limits := standing.limits process running
      have grown := @World.offered_of_suffix s.world (s.world.perform process label act faults)
        (label.events process.state.nextSpoolSequence) rfl
      have granted := @Label.granted s.world label process
        (s.world.perform process label act faults) faults rfl undisplaced
      have crowd := standing.crowd_at running grown distinct limits faults
      rw [here] at crowd
      obtain ⟨is, due⟩ := crowd.due granted
      have whole := standing.kept.whole running grown (fun _ => standing.cohering faithful) faults
      obtain ⟨stored, read⟩ := reads
      have kept := is.keeps_entry whole faithful granted due held read spared
      exact ⟨_, rfl, kept, ((coherent faithful).2.stable _ _).mpr ⟨entry, kept, rfl, rfl⟩⟩

/-- Along a run in which the entry is spared it is kept. -/
theorem Shared.Keeps.spared (keeps : s.Keeps entry)
    (reach : (sharedSystem (Limited key host)).Reachable s)
    (spared : Shared.Spared (Limited key host) entry s t)
    (distinct : DistinctNotices host t.world.Offered) (faithful : FaithfulIds host t.world.Offered) :
    t.Keeps entry := by
  induction spared with
  | here => exact keeps
  | step before may taken running reads spares up ih =>
      have grown := taken.keeps_offers
      have standing := standing_of_reachable (reach.later before.later) grown distinct
      exact (ih (distinct.offering grown) (faithful.offering grown)).step standing may taken running
        reads spares up distinct faithful

/-- What a quarantine that is about to run finds, and what it is. -/
theorem Shared.Standing.quarantine {process : Process} {asked : Request} {act : Machine → Machine}
    {next : Machine → SpoolCall Reply} {before after : List SpoolThread}
    (standing : s.Standing key host s.world.Offered) (running : s.world.process = some process)
    (here : s.calls = before ++ ⟨asked, .step (.quarantine entry) act next⟩ :: after)
    (undisplaced : Undisplaced process.state (.quarantine entry))
    (distinct : DistinctNotices host s.world.Offered) (faults : Faults) :
    act (s.world.machine process faults) = s.world.machine process faults ∨
      process.state.Holds entry ∧ ∀ other, process.state.Holds other →
        (act (s.world.machine process faults)).state.Holds other ∨
          other.spoolSeq = entry.spoolSeq := by
  obtain ⟨rfl, rfl, backing⟩ := standing.kept.running process running
  obtain ⟨-, ready⟩ := backing faults
  have crowd := standing.crowd_at running (fun _ _ offer => offer) distinct
    (standing.limits process running) faults
  rw [here] at crowd
  obtain ⟨is, -⟩ := crowd.due undisplaced
  cases is
  rcases undisplaced with free | held
  · exact .inl (quarantineRuntimeEntry_free free)
  · refine .inr ⟨held, fun other held' => ?_⟩
    by_cases same : other.recordId = entry.recordId
    · rw [State.Holds, same, held] at held'
      exact .inr (congrArg Entry.spoolSeq (Option.some.inj held')).symm
    · have kept := @post_quarantineRuntimeEntry_holds process.inner (s.world.machine process faults)
        entry other held' same
      exact .inl (kept.final (I := fun m' : Machine => m'.state.Holds other))

/-- A quarantine that no later admission has been put in the way of acts on the admission it was handed
alone. -/
theorem Shared.Standing.quarantinesOnly {faults : Faults}
    (standing : s.Standing key host s.world.Offered)
    (may : s.Permits (Limited key host) (.advance (.quarantine entry) faults))
    (taken : s.Takes (.advance (.quarantine entry) faults) t ∨
      s.Takes (.stop (.quarantine entry) faults) t)
    (distinct : DistinctNotices host s.world.Offered) : s.QuarantinesOnly t entry := by
  rcases taken with advanced | stopped
  · cases advanced with
    | @advance _ _ process asked act next before after running here =>
        constructor
        case removes =>
          intro first last other running' up held
          rw [running] at running'
          obtain rfl := Option.some.inj running'
          obtain rfl := Option.some.inj up
          rcases standing.quarantine running here (may _ running) distinct faults with
            nothing | ⟨-, keeps⟩
          · left
            change (act (s.world.machine process faults)).state.Holds other
            rw [nothing]
            exact held
          · exact keeps other held
        case records =>
          intro first running'
          rw [running] at running'
          obtain rfl := Option.some.inj running'
          rcases standing.quarantine running here (may _ running) distinct faults with
            nothing | ⟨held, -⟩
          · right
            refine ⟨?_, fun last up => ?_⟩
            · change (act (s.world.machine process faults)).disk = s.world.disk
              rw [nothing]
              rfl
            · obtain rfl := Option.some.inj up
              change (act (s.world.machine process faults)).state = process.state
              rw [nothing]
              rfl
          · exact .inl ⟨entry, held, rfl⟩
  · cases stopped with
    | @stop _ _ process asked act next before after d older running here stopped =>
        refine ⟨fun _ _ _ _ up => (by cases up), fun first running' => ?_⟩
        rw [running] at running'
        obtain rfl := Option.some.inj running'
        rcases standing.quarantine running here (may _ running) distinct faults with
          nothing | ⟨held, -⟩
        · right
          refine ⟨?_, fun last up => by cases up⟩
          have reached := stopped.reached
          rw [nothing] at reached
          exact (List.cons.inj (reached.eq_of_length_le stopped.started.length_le)).1
        · exact .inl ⟨entry, held, rfl⟩

/-- An admission that answers that it has stored the record keeps it. -/
theorem Shared.Standing.admits {envelope : Envelope} {admittedAtMs : I64} {faults : Faults}
    {process : Process} {recordId : RecordId} (standing : s.Standing key host t.world.Offered)
    (taken : s.Takes (.advance (.enqueue envelope admittedAtMs) faults) t)
    (running : s.world.process = some process)
    (stored : enqueueLocked process.inner envelope admittedAtMs (s.world.machine process faults) =
      .ok (.stored recordId) m)
    (distinct : DistinctNotices host t.world.Offered) (faithful : FaithfulIds host t.world.Offered) :
    ∃ entry, entry.recordId = recordId ∧ entry.spoolSeq = process.state.nextSpoolSequence ∧
      t.Keeps entry := by
  cases taken with
  | @advance _ _ process' asked act next before after running' here =>
      rw [running] at running'
      obtain rfl := Option.some.inj running'
      have undisplaced : Undisplaced process.state (.enqueue envelope admittedAtMs) := trivial
      obtain ⟨-, coherent⟩ := @Shared.Standing.left _ _ _ _ _ faults _ _ _ _ _ _
        (s.world.perform process (.enqueue envelope admittedAtMs) act faults) standing running here
        undisplaced rfl (fun _ _ offer => offer) distinct
      obtain ⟨rfl, rfl, -⟩ := standing.kept.running process running
      have limits := standing.limits process running
      have grown := @World.offered_of_suffix s.world
        (s.world.perform process (.enqueue envelope admittedAtMs) act faults)
        ((Label.enqueue envelope admittedAtMs).events process.state.nextSpoolSequence) rfl
      have granted := @Label.granted s.world (.enqueue envelope admittedAtMs) process
        (s.world.perform process (.enqueue envelope admittedAtMs) act faults) faults rfl undisplaced
      have crowd := standing.crowd_at running grown distinct limits faults
      rw [here] at crowd
      obtain ⟨is, -⟩ := crowd.due granted
      cases is with
      | enqueue valid =>
          have ended : finalState (enqueueLocked process.inner envelope admittedAtMs
              (s.world.machine process faults)) = m := by
            rw [stored]
            rfl
          have offer : World.Offered _ (s.world.machine process faults).state.nextSpoolSequence
              envelope := granted
          obtain ⟨-, told⟩ := (post_enqueueLocked offer valid limits.retention_nonneg).of_ok stored
          obtain ⟨⟨entry, held, sequence, named, -⟩, -⟩ := told recordId rfl
          have answer := post_enqueueLocked_answers.of_ok stored
          have same : recordId = envelope.recordId process.inner.host := by
            rcases answer with equal | ⟨existing, other, -⟩
            · exact EnqueueOutcome.stored.inj equal
            · cases other
          have kept : (finalState (enqueueLocked process.inner envelope admittedAtMs
              (s.world.machine process faults))).state.Holds entry := by
            rwa [ended]
          exact ⟨entry, named.trans same.symm, sequence, _, rfl, kept,
            ((coherent faithful).2.stable _ _).mpr ⟨entry, kept, rfl, rfl⟩⟩

end

/-! ### Scripts that end before a section -/

/-- The section the newest call has next, and the world after it; nothing fails. -/
def Shared.next (s : Shared) : Option (Label × Shared) :=
  match s.world.process, s.calls with
  | some process, ⟨asked, .step label act next⟩ :: rest =>
      some (label,
        { s with
          world := s.world.perform process label act .none
          calls := ⟨asked, next (s.world.machine process .none)⟩ :: rest })
  | _, _ => none

/-- The newest call takes the section it has next. -/
theorem Shared.takes_of_next {s t : Shared} {label : Label} (stepped : s.next = some (label, t)) :
    s.Takes (.advance label .none) t := by
  simp only [Shared.next] at stepped
  split at stepped
  · rename_i process asked label' act next rest running here
    cases stepped
    exact @Shared.Takes.advance s label .none process asked act next [] rest running here
  · cases stepped

/-- The entry the newest call is about to set aside, and the world after that. -/
def Shared.setAside (s : Shared) : Option (Entry × Shared) :=
  s.next.bind fun stepped =>
    match stepped with
    | (.quarantine entry, t) => some (entry, t)
    | _ => none

theorem Shared.takes_of_setAside {s t : Shared} (aside : s.setAside = some (entry, t)) :
    s.Takes (.advance (.quarantine entry) .none) t := by
  obtain ⟨⟨label, u⟩, stepped, aside⟩ := Option.bind_eq_some_iff.mp aside
  split at aside
  · rename_i labelled
    cases labelled
    cases aside
    exact Shared.takes_of_next stepped
  · cases aside

/-- What the newest call is about to admit under a sequence of its own, and the world after that. -/
def Shared.admitNext (s : Shared) :
    Option (Process × (Envelope × I64) × (RecordId × Machine) × Shared) :=
  s.world.process.bind fun process => s.next.bind fun stepped =>
    match stepped with
    | (.enqueue envelope admittedAtMs, t) =>
        match enqueueLocked process.inner envelope admittedAtMs (s.world.machine process .none) with
        | .ok (.stored recordId) m => some (process, (envelope, admittedAtMs), (recordId, m), t)
        | _ => none
    | _ => none

theorem Shared.takes_of_admitNext {s t : Shared} {process : Process} {envelope : Envelope}
    {admittedAtMs : I64} {recordId : RecordId}
    (admitted : s.admitNext = some (process, (envelope, admittedAtMs), (recordId, m), t)) :
    s.Takes (.advance (.enqueue envelope admittedAtMs) .none) t ∧ s.world.process = some process ∧
      enqueueLocked process.inner envelope admittedAtMs (s.world.machine process .none) =
        .ok (.stored recordId) m := by
  obtain ⟨process', running, admitted⟩ := Option.bind_eq_some_iff.mp admitted
  obtain ⟨⟨label, u⟩, stepped, admitted⟩ := Option.bind_eq_some_iff.mp admitted
  split at admitted
  · rename_i labelled
    cases labelled
    split at admitted
    · rename_i stored
      cases admitted
      exact ⟨Shared.takes_of_next stepped, running, stored⟩
    · cases admitted
  · cases admitted

/-- A record is admitted, and another is about to be. -/
def secondAdmission : List Pick :=
  [.outside (.openSpool (sampleInner 4) (sampleTime 0) .none),
    .join (.enqueue (sampleEnvelope "a") (sampleTime 1)), .advance 0, .advance 0, .answer 0,
    .join (.enqueue (sampleEnvelope "b") (sampleTime 1)), .advance 0]

/-- The file of the first record is damaged, and a pull has failed to read it. -/
def damagedRead : Option Shared :=
  ((Shared.mk .fresh [] []).playAll (secondAdmission ++ [.advance 0, .answer 0])).bind fun s =>
    (damageSequence 1 s.world).bind fun move =>
      s.playAll (.outside move :: .join (.nextBatchV2 2 (sampleTime 2)) ::
        List.replicate 4 (.advance 0))

theorem damageSequence_limited {key : EncryptionKey} {host : Host} {n : Nat} {w : World} {move : Move}
    (chosen : damageSequence n w = some move) (w' : World) : Limited key host w' move := by
  obtain ⟨name, -, rfl⟩ := Option.map_eq_some_iff.mp chosen
  exact unreadable_raw key host []

theorem secondAdmission_limited {picks : List Pick} (w : World) (move : Move)
    (quiet : .outside move ∉ picks)
    (inside : .outside move ∈ secondAdmission ++ picks) :
    Limited sampleKey (referenceHost integerCodec) w move := by
  rcases List.mem_append.mp inside with inside | inside
  · simp only [secondAdmission, List.mem_cons, Pick.outside.injEq, reduceCtorEq, List.not_mem_nil,
      or_false] at inside
    rw [inside]
    exact ⟨rfl, rfl, sampleInner_withinLimits (by decide)⟩
  · exact absurd inside quiet

theorem damagedRead_reached {s : Shared} (ran : damagedRead = some s) :
    (sharedSystem (Limited sampleKey (referenceHost integerCodec))).Reachable s := by
  obtain ⟨before, played, ran⟩ := Option.bind_eq_some_iff.mp ran
  obtain ⟨move, chosen, ran⟩ := Option.bind_eq_some_iff.mp ran
  have reach := Shared.reachable_of_playAll (.start rfl)
    (fun w other inside => secondAdmission_limited w other (by simp) inside) played
  refine Shared.reachable_of_playAll reach (fun w other inside => ?_) ran
  rcases List.mem_cons.mp inside with same | inside
  · cases same
    exact damageSequence_limited chosen w
  · simp at inside

theorem secondAdmission_plays :
    (((Shared.mk .fresh [] []).playAll secondAdmission).any fun s =>
      s.admitNext.any fun admitted =>
        decide (admitted.2.2.2.world.TellsApart (referenceHost integerCodec))) = true := by
  decide +kernel

/-- The first record is set aside and the second stays. -/
theorem damagedRead_plays :
    (damagedRead.any fun s => s.setAside.any fun aside =>
      s.world.process.any fun process => aside.2.world.process.any fun after =>
        (process.state.entries.values.find? fun other => decide (other.spoolSeq = 2)).any fun other =>
          (decodeEntry process.inner other (s.world.disk.read other.path)).isOk &&
            decide (aside.2.world.TellsApart (referenceHost integerCodec) ∧
              process.state.entries.get? aside.1.recordId = some aside.1 ∧
              process.state.entries.get? other.recordId = some other ∧
              process.state.stableIndex.get? other.stableRecordId = some other.recordId ∧
              after.state.entries.get? aside.1.recordId = none)) = true := by
  decide +kernel

/-- In a run in which no admission takes over the identity of an entry between the read of its file and
its quarantine, a quarantine removes at most the admission it was handed and does nothing where that one
is not pending; and what an admission has stored is kept, as long as its file reads back, until it is
acknowledged or expired. -/
theorem quarantine_keeps_to_its_admission {key : EncryptionKey} {host : Host} {s : Shared}
    (reach : (sharedSystem (Limited key host)).Reachable s) :
    (∀ entry faults t, DistinctNotices host s.world.Offered →
      s.Permits (Limited key host) (.advance (.quarantine entry) faults) →
      (s.Takes (.advance (.quarantine entry) faults) t ∨
        s.Takes (.stop (.quarantine entry) faults) t) → s.QuarantinesOnly t entry) ∧
    (∀ envelope admittedAtMs faults t process recordId m,
      s.Takes (.advance (.enqueue envelope admittedAtMs) faults) t →
      s.world.process = some process →
      enqueueLocked process.inner envelope admittedAtMs (s.world.machine process faults) =
        .ok (.stored recordId) m →
      DistinctNotices host t.world.Offered → FaithfulIds host t.world.Offered →
      ∃ entry, entry.recordId = recordId ∧ entry.spoolSeq = process.state.nextSpoolSequence ∧
        t.Keeps entry) ∧
    ∀ entry t, s.Keeps entry → Shared.Spared (Limited key host) entry s t →
      DistinctNotices host t.world.Offered → FaithfulIds host t.world.Offered → t.Keeps entry := by
  refine ⟨fun entry faults t distinct may taken => ?_,
    fun envelope admittedAtMs faults t process recordId m taken running stored distinct faithful => ?_,
    fun entry t keeps spared distinct faithful => keeps.spared reach spared distinct faithful⟩
  · have standing := standing_of_reachable reach (fun _ _ offer => offer) distinct
    exact standing.quarantinesOnly may taken distinct
  · have standing := standing_of_reachable reach taken.keeps_offers distinct
    exact standing.admits taken running stored distinct faithful

theorem quarantine_keeps_to_its_admission_damagedRead :
    (∃ (s t : Shared) (envelope : Envelope) (admittedAtMs : I64) (entry : Entry),
      s.Takes (.advance (.enqueue envelope admittedAtMs) .none) t ∧ t.Keeps entry) ∧
    ∃ (s t : Shared) (entry other : Entry),
      s.Takes (.advance (.quarantine entry) .none) t ∧ s.QuarantinesOnly t entry ∧
      (∀ after, t.world.process = some after → ¬ after.state.Holds entry) ∧
      s.Keeps other ∧ t.Keeps other := by
  constructor
  · obtain ⟨s, played, shows⟩ := (Option.any_eq_true _ _).mp secondAdmission_plays
    obtain ⟨⟨process, ⟨envelope, admittedAtMs⟩, ⟨recordId, m⟩, t⟩, admitted, apart⟩ :=
      (Option.any_eq_true _ _).mp shows
    rw [decide_eq_true_eq] at apart
    obtain ⟨taken, running, stored⟩ := Shared.takes_of_admitNext admitted
    have reach := Shared.reachable_of_playAll (.start rfl)
      (fun w other inside => secondAdmission_limited w other List.not_mem_nil
        (List.mem_append_left [] inside)) played
    obtain ⟨-, admits, -⟩ := quarantine_keeps_to_its_admission reach
    obtain ⟨entry, -, -, keeps⟩ := admits envelope admittedAtMs .none t process recordId m taken
      running stored apart.distinctNotices apart.faithfulIds
    exact ⟨s, t, envelope, admittedAtMs, entry, taken, keeps⟩
  · obtain ⟨s, ran, shows⟩ := (Option.any_eq_true _ _).mp damagedRead_plays
    obtain ⟨⟨entry, t⟩, aside, shows⟩ := (Option.any_eq_true _ _).mp shows
    obtain ⟨process, running, shows⟩ := (Option.any_eq_true _ _).mp shows
    obtain ⟨after, up, shows⟩ := (Option.any_eq_true _ _).mp shows
    obtain ⟨other, -, shows⟩ := (Option.any_eq_true _ _).mp shows
    simp only [Bool.and_eq_true, decide_eq_true_eq] at shows
    obtain ⟨reads, apart, held, held', indexed, gone⟩ := shows
    have taken := Shared.takes_of_setAside aside
    have may : s.Permits (Limited sampleKey (referenceHost integerCodec))
        (.advance (.quarantine entry) .none) := by
      intro process' running'
      rw [running] at running'
      obtain rfl := Option.some.inj running'
      exact .inr held
    have keeps : s.Keeps other := ⟨process, running, held', indexed⟩
    obtain ⟨only, -, kept⟩ := quarantine_keeps_to_its_admission (damagedRead_reached ran)
    refine ⟨s, t, entry, other, taken, ?_, fun after' up' => ?_, keeps, ?_⟩
    · exact only entry .none t (apart.distinctNotices.offering taken.keeps_offers) may (.inl taken)
    · rw [up] at up'
      obtain rfl := Option.some.inj up'
      rw [State.Holds, gone]
      exact (Option.some_ne_none _).symm
    · have spared : Shared.Spared (Limited sampleKey (referenceHost integerCodec)) other s t :=
        .step .here may taken running (exists_decoded_of_isOk reads) id (by rw [up]; rfl)
      exact kept other t keeps spared apart.distinctNotices apart.faithfulIds

/-- A record is delivered, and another pull has listed it but not read its file. -/
def stalledPull : List Pick :=
  [.outside (.openSpool (sampleInner 4) (sampleTime 0) .none),
    .join (.enqueue (sampleEnvelope "a") (sampleTime 1)), .advance 0, .advance 0, .answer 0,
    .join (.nextBatchV2 2 (sampleTime 2)), .advance 0, .advance 0, .advance 0, .advance 0,
    .answer 0,
    .join (.nextBatchV2 2 (sampleTime 2)), .advance 0, .advance 0, .advance 0]

/-- The batch is acknowledged and the same envelope admitted again before the stalled pull reads. -/
def readmitted (batch : HubBatchV2) : List Pick :=
  .join (.acknowledgeV2 2 (batch.ackFront 1)) :: List.replicate 11 (.advance 0) ++
    [.answer 0, .join (.enqueue (sampleEnvelope "a") (sampleTime 3)), .advance 0, .advance 0,
      .answer 0, .advance 0]

def displacedRun : Option Shared :=
  ((Shared.mk .fresh [] []).playAll stalledPull).bind fun s =>
    s.batches.head?.bind fun delivered => s.playAll (readmitted delivered.2)

theorem stalledPull_limited (w : World) (move : Move) (inside : .outside move ∈ stalledPull) :
    Limited sampleKey (referenceHost integerCodec) w move := by
  simp only [stalledPull, List.mem_cons, Pick.outside.injEq, reduceCtorEq, List.not_mem_nil,
    or_false] at inside
  rw [inside]
  exact ⟨rfl, rfl, sampleInner_withinLimits (by decide)⟩

theorem displacedRun_reached {s : Shared} (ran : displacedRun = some s) :
    (sharedSystem (Limited sampleKey (referenceHost integerCodec))).Reachable s := by
  obtain ⟨before, played, ran⟩ := Option.bind_eq_some_iff.mp ran
  obtain ⟨delivered, -, ran⟩ := Option.bind_eq_some_iff.mp ran
  have reach := Shared.reachable_of_playAll (.start rfl) stalledPull_limited played
  refine Shared.reachable_of_playAll reach (fun w move inside => ?_) ran
  simp [readmitted] at inside

/-- The stalled pull finds no file and sets aside what is pending under the identity by then. -/
theorem displacedRun_plays :
    (displacedRun.any fun s => s.setAside.any fun aside =>
      s.world.process.any fun process => aside.2.world.process.any fun after =>
        (process.state.entries.get? aside.1.recordId).any fun other =>
          (decodeEntry process.inner other (s.world.disk.read other.path)).isOk &&
            decide (other.recordId = aside.1.recordId ∧ other.spoolSeq ≠ aside.1.spoolSeq ∧
              after.state.entries.get? aside.1.recordId = none ∧
              (∀ pending ∈ process.state.entries.values, pending.spoolSeq ≠ aside.1.spoolSeq) ∧
              process.state.gaps.values = [] ∧
              after.state.gaps.values.map (·.notice.spoolSeq) = [aside.1.spoolSeq])) = true := by
  decide +kernel

theorem quarantine_displaces_repost :
    ∃ (s t : Shared) (entry other : Entry) (process after : Process),
      (sharedSystem (Limited sampleKey (referenceHost integerCodec))).Reachable s ∧
      s.Takes (.advance (.quarantine entry) .none) t ∧
      s.world.process = some process ∧ t.world.process = some after ∧
      process.state.Holds other ∧
      (∃ stored, decodeEntry process.inner other (s.world.disk.read other.path) = .ok stored) ∧
      other.spoolSeq ≠ entry.spoolSeq ∧ ¬ after.state.Holds other ∧
      (∀ pending, process.state.Holds pending → pending.spoolSeq ≠ entry.spoolSeq) ∧
      ¬ process.state.HoldsGapFor entry.spoolSeq ∧ after.state.HoldsGapFor entry.spoolSeq := by
  obtain ⟨s, ran, shows⟩ := (Option.any_eq_true _ _).mp displacedRun_plays
  obtain ⟨⟨entry, t⟩, aside, shows⟩ := (Option.any_eq_true _ _).mp shows
  obtain ⟨process, running, shows⟩ := (Option.any_eq_true _ _).mp shows
  obtain ⟨after, up, shows⟩ := (Option.any_eq_true _ _).mp shows
  obtain ⟨other, found, shows⟩ := (Option.any_eq_true _ _).mp shows
  simp only [Bool.and_eq_true, decide_eq_true_eq] at shows
  obtain ⟨reads, named, later, gone, none, gapless, gap⟩ := shows
  refine ⟨s, t, entry, other, process, after, displacedRun_reached ran, Shared.takes_of_setAside aside,
    running, up, ?_, exists_decoded_of_isOk reads, later, ?_, fun pending held => ?_, ?_, ?_⟩
  · rw [State.Holds, named, found]
  · rw [State.Holds, named, gone]
    exact (Option.some_ne_none _).symm
  · exact none pending (OrdMap.mem_values_iff.mpr ⟨_, held⟩)
  · rintro ⟨noticeId, held, there, -⟩
    have inside := OrdMap.mem_values_iff.mpr ⟨_, there⟩
    rw [gapless] at inside
    cases inside
  · have inside : entry.spoolSeq ∈ after.state.gaps.values.map (·.notice.spoolSeq) := by
      rw [gap]
      exact List.mem_singleton_self _
    obtain ⟨held, inside, same⟩ := List.mem_map.mp inside
    obtain ⟨noticeId, there⟩ := OrdMap.mem_values_iff.mp inside
    exact ⟨noticeId, held, there, same⟩

end TeslatlasEdge
