/-
Module: TeslatlasEdge.Interleavings
Purpose: Calls side by side.  The process serves any number of calls at once; whichever call comes
  next performs its next section, file operations may fail in it, and the process may stop inside it.
  Whatever order the sections come in, the files stay lawful and every answer is true.
Trusted boundary: human-reviewed model of the scheduler
Main exports: Shared, Turn, Shared.Takes, Undisplaced, sharedSystem, Shared.Standing
-/
import TeslatlasEdge.Lib.System
import TeslatlasEdge.Limits
import TeslatlasEdge.Sharing

namespace TeslatlasEdge

open Lib
open Call (onOk)

/-! ### Calls in progress -/

abbrev SpoolThread := Thread Request Label SpoolError Machine Reply

/-- A spool directory, the calls its process is serving, and the answers given (newest first). -/
structure Shared where
  world : World
  calls : List SpoolThread
  answers : List (Request × Except SpoolError Reply)

/-- An envelope is on offer from the section that admits it on. -/
def Label.events (spoolSeq : Nat) : Label → List Event
  | .enqueue envelope admittedAtMs => [⟨spoolSeq, .enqueue envelope admittedAtMs, none⟩]
  | _ => []

/-- The world after the process has performed a section. -/
def World.perform (w : World) (process : Process) (label : Label) (act : Machine → Machine)
    (faults : Faults) : World :=
  (act (w.machine process faults)).running process.inner
    (label.events process.state.nextSpoolSequence ++ w.log)

/-- Whose turn it is: the surroundings', or that of a call with the given section next. -/
inductive Turn where
  | outside (move : Move)
  | join (request : Request)
  | advance (label : Label) (faults : Faults)
  | stop (label : Label) (faults : Faults)
  | answer

inductive Shared.Takes (s : Shared) : Turn → Shared → Prop where
  | outside {move : Move} {w : World} (apart : ∀ request faults, move ≠ .call request faults)
      (moved : Step s.world move w) :
      Takes s (.outside move)
        { s with world := w, calls := if w.process.isSome then s.calls else [] }
  | join {request : Request} {process : Process} (running : s.world.process = some process)
      (alone : request.acknowledges = true → ∀ call ∈ s.calls, call.asked.acknowledges = false) :
      Takes s (.join request)
        { s with calls := ⟨request, request.call process.inner⟩ :: s.calls }
  | advance {label : Label} {faults : Faults} {process : Process} {asked : Request}
      {act : Machine → Machine} {next : Machine → SpoolCall Reply} {before after : List SpoolThread}
      (running : s.world.process = some process)
      (here : s.calls = before ++ ⟨asked, .step label act next⟩ :: after) :
      Takes s (.advance label faults)
        { s with
          world := s.world.perform process label act faults
          calls := before ++ ⟨asked, next (s.world.machine process faults)⟩ :: after }
  | stop {label : Label} {faults : Faults} {process : Process} {asked : Request}
      {act : Machine → Machine} {next : Machine → SpoolCall Reply} {before after : List SpoolThread}
      {d : Disk} {older : List Disk} (running : s.world.process = some process)
      (here : s.calls = before ++ ⟨asked, .step label act next⟩ :: after)
      (stopped : StoppedAt s.world.timeline (act (s.world.machine process faults)) d older) :
      Takes s (.stop label faults)
        { s with
          world := ⟨d, older, label.events process.state.nextSpoolSequence ++ s.world.log, none⟩
          calls := [] }
  | answer {asked : Request} {result : Except SpoolError Reply} {before after : List SpoolThread}
      (here : s.calls = before ++ ⟨asked, .done result⟩ :: after) :
      Takes s .answer
        { s with calls := before ++ after, answers := (asked, result) :: s.answers }

/-- The identity of the entry a quarantine is handed is free, or still the entry's own. -/
def Undisplaced (state : State) : Label → Prop
  | .quarantine entry => state.entries.get? entry.recordId = none ∨ state.Holds entry
  | _ => True

/-- Outside moves are as allowed, and no admission takes over the identity of an entry between the
read of its file and its quarantine. -/
def Shared.Permits (allowed : World → Move → Prop) (s : Shared) : Turn → Prop
  | .outside move => allowed s.world move
  | .advance label _ | .stop label _ =>
      ∀ process, s.world.process = some process → Undisplaced process.state label
  | .join _ | .answer => True

/-- Calls side by side on a fresh directory. -/
def sharedSystem (allowed : World → Move → Prop) : System Shared where
  starts s := s = ⟨.fresh, [], []⟩
  moves s t := ∃ turn, s.Permits allowed turn ∧ s.Takes turn t

/-! ### Moves from outside -/

section

variable {key : EncryptionKey} {host : Host} {w w' : World}

/-- A section logs an offer that has not been answered, or nothing. -/
theorem Label.logged (label : Label) (spoolSeq : Nat) (log : List Event) :
    label.events spoolSeq ++ log = log ∨
      ∃ request, label.events spoolSeq ++ log = ⟨spoolSeq, request, none⟩ :: log := by
  cases label with
  | enqueue envelope admittedAtMs => exact .inr ⟨_, rfl⟩
  | observe | expire | read | quarantine | admissions | allocate | writeReceipt | insertReceipt
  | complete | pruneHistory | removeReceipt | forgetReceipt | sync => exact .inl rfl

theorem recalls_relisted {d : Disk} (same : SameFiles w.disk d) :
    Recalls key w.timeline (d :: w.past) := by
  refine ⟨fun s record admitted => ?_, fun receipt receipted => ?_⟩
  · rw [World.timeline, admitted_cons] at admitted
    rwa [admitted_cons, same.read]
  · rw [World.timeline, receipted_cons] at receipted
    rwa [receipted_cons, same.read]

/-- What happens outside of calls takes back nothing that has been durable. -/
theorem Step.recalls {move : Move} (moved : Step w move w')
    (may : UnderKey key host w move) (kept : Kept key host w)
    (distinct : DistinctNotices host w'.Offered) : Recalls key w.timeline w'.timeline := by
  cases moved with
  | @opened inner nowMs faults after closed ran =>
      obtain ⟨sound, -⟩ := (kept.opened distinct may false nowMs faults).of_ok ran
      exact .of_later sound.always.later
  | @openFailed inner nowMs faults error after closed ran =>
      exact .of_later ((kept.opened distinct may false nowMs faults).of_error ran).later
  | openStopped closed stopped => exact .of_later stopped.started
  | openRefused running ran =>
      rw [openSpool_locked ran]
      exact .of_later (List.suffix_refl _)
  | @returned request faults process running =>
      exact .of_later (kept.answered running rfl distinct).1.always.later
  | callStopped running stopped => exact .of_later stopped.started
  | dropped => exact .of_later (List.suffix_refl _)
  | damaged | receiptDamaged => exact .of_later (List.suffix_cons _ _)
  | relisted same => exact recalls_relisted same

/-- Calls in progress can rely on what happens outside of them. -/
theorem Step.outside_advances {move : Move} (moved : Step w move w')
    (apart : ∀ request faults, move ≠ .call request faults) (may : UnderKey key host w move)
    {process : Process} (running : w'.process = some process) (busy : w.process ≠ none)
    (faults : Faults) :
    w.process = some process ∧
      Advances key host (w.machine process faults) (w'.machine process faults) := by
  cases moved with
  | opened closed | receiptDamaged closed => exact absurd closed busy
  | openFailed | openStopped | callStopped | dropped => cases running
  | openRefused here ran =>
      rw [openSpool_locked ran]
      exact ⟨running, .refl _⟩
  | returned => exact absurd rfl (apart _ _)
  | @damaged name body old present =>
      refine ⟨running, .of_later (List.suffix_cons _ _) le_rfl fun s recordId content _ _ found => ?_⟩
      change (w.disk.put body (.pending name)).read _ = some content at found
      rw [Disk.read_put] at found
      split at found
      · obtain rfl := Option.some.inj found
        exact .inr may
      · exact .inl found
  | relisted same =>
      refine ⟨running, recalls_relisted same, le_rfl, fun s recordId content _ _ found => .inl ?_⟩
      exact (same.read _).symm.trans found

/-- Only opening starts a process, and within the limits. -/
theorem Step.outside_limits {move : Move} (moved : Step w move w')
    (apart : ∀ request faults, move ≠ .call request faults) (may : Limited key host w move)
    (limits : ∀ process, w.process = some process → process.inner.config.WithinLimits) :
    ∀ process, w'.process = some process → process.inner.config.WithinLimits := by
  intro process running
  cases moved with
  | opened =>
      obtain rfl := Option.some.inj running
      exact may.2.2
  | openFailed | openStopped | callStopped | dropped => cases running
  | openRefused | damaged | receiptDamaged | relisted => exact limits process running
  | returned => exact absurd rfl (apart _ _)

end

/-! ### The invariant -/

/-- A call that succeeds answers what is true. -/
def Truthful (key : EncryptionKey) (host : Host) (offered : Nat → Envelope → Prop)
    (asked : Request) : Except SpoolError Reply → Machine → Prop :=
  onOk fun reply m => Told key host offered m.timeline asked reply

/-- What is told truly stays true while others act. -/
theorem truthful_stable {inner : Inner} {offered : Nat → Envelope → Prop}
    {distinct : DistinctNotices inner.host offered} {limits : inner.config.WithinLimits}
    (asked : Request) :
    Call.Stable (spoolRules inner offered distinct limits)
      (Truthful inner.key inner.host offered asked) :=
  Call.stable_onOk fun _ _ _ relied told => told.later relied.toRecalls

/-- A directory with calls side by side, at any point of a run that offers these envelopes. -/
structure Shared.Standing (key : EncryptionKey) (host : Host) (offered : Nat → Envelope → Prop)
    (s : Shared) : Prop where
  kept : Kept key host s.world
  limits : ∀ process, s.world.process = some process → process.inner.config.WithinLimits
  cohering : FaithfulIds host offered → Cohering host s.world
  idle : s.world.process = none → s.calls = []
  crowd : ∀ process, s.world.process = some process → ∀ distinct limits,
    (spoolRules process.inner offered distinct limits).Crowd
      (Truthful process.inner.key process.inner.host offered) s.calls
      (s.world.machine process .none)
  told : ∀ answer ∈ s.answers, ∀ reply, answer.2 = .ok reply →
    Told key host offered s.world.timeline answer.1 reply

section

variable {key : EncryptionKey} {host : Host} {offered : Nat → Envelope → Prop} {w : World}
  {s t : Shared}

/-- Every section begins on a whole machine. -/
theorem Kept.whole (kept : Kept key host w) {process : Process} (running : w.process = some process)
    (within : ∀ s envelope, w.Offered s envelope → offered s envelope)
    (cohering : FaithfulIds host offered → Cohering host w) (faults : Faults) :
    Whole process.inner offered (w.machine process faults) := by
  obtain ⟨rfl, rfl, backing⟩ := kept.running process running
  obtain ⟨sound, ready⟩ := backing faults
  refine ⟨sound.offering within, ready, fun faithful => ?_⟩
  obtain ⟨-, ranged, coherent⟩ := cohering faithful process running
  exact ⟨ranged, coherent.offering within⟩

/-- A section that is due is permitted in the world as it stands. -/
theorem Label.granted {label : Label} {process : Process} {w' : World} {faults : Faults}
    (logged : w'.log = label.events process.state.nextSpoolSequence ++ w.log)
    (undisplaced : Undisplaced process.state label) :
    Granted w'.Offered label (w.machine process faults) := by
  cases label with
  | enqueue envelope admittedAtMs =>
      refine ⟨⟨process.state.nextSpoolSequence, .enqueue envelope admittedAtMs, none⟩, ?_, rfl,
        admittedAtMs, rfl⟩
      rw [logged]
      exact List.mem_cons_self
  | quarantine entry => exact undisplaced
  | observe | expire | read | admissions | allocate | writeReceipt | insertReceipt | complete
  | pruneHistory | removeReceipt | forgetReceipt | sync => trivial

theorem Granted.offering {permitted : Nat → Envelope → Prop} {label : Label} {m : Machine}
    (granted : Granted permitted label m)
    (within : ∀ n envelope, permitted n envelope → offered n envelope) :
    Granted offered label m := by
  cases label with
  | enqueue => exact within _ _ granted
  | quarantine entry => exact granted
  | observe | expire | read | admissions | allocate | writeReceipt | insertReceipt | complete
  | pruneHistory | removeReceipt | forgetReceipt | sync => trivial

/-- What was offered stays offered as the log grows. -/
theorem World.offered_of_suffix {w' : World} {events : List Event} (logged : w'.log = events ++ w.log)
    (n : Nat) (envelope : Envelope) (offer : w.Offered n envelope) : w'.Offered n envelope := by
  obtain ⟨event, inside, facts⟩ := offer
  refine ⟨event, ?_, facts⟩
  rw [logged]
  exact List.mem_append_right events inside

theorem Machine.advances_of_running {inner : Inner} (m : Machine) (log : List Event)
    (faults : Faults) :
    Advances key host m
      ((m.running inner log).machine ⟨inner, m.state, m.storageWriteFailed⟩ faults) :=
  .of_later (List.suffix_refl m.timeline) le_rfl fun _ _ _ _ _ found => .inl found

namespace Shared.Standing

/-- What the calls in progress find is the same under any faults. -/
theorem crowd_at (standing : s.Standing key host offered) {process : Process}
    (running : s.world.process = some process)
    (within : ∀ n envelope, s.world.Offered n envelope → offered n envelope)
    (distinct : DistinctNotices process.inner.host offered)
    (limits : process.inner.config.WithinLimits) (faults : Faults) :
    (spoolRules process.inner offered distinct limits).Crowd
      (Truthful process.inner.key process.inner.host offered) s.calls
      (s.world.machine process faults) := by
  refine (standing.crowd process running distinct limits).disturb truthful_stable ?_
    (standing.kept.whole running within standing.cohering faults)
  exact .of_later (List.suffix_refl s.world.timeline) le_rfl fun _ _ _ _ _ found => .inl found

/-- Moves outside of calls keep what stands. -/
theorem outside {move : Move} {w' : World} (standing : s.Standing key host offered)
    (apart : ∀ request faults, move ≠ .call request faults) (may : Limited key host s.world move)
    (moved : Step s.world move w')
    (within : ∀ n envelope, w'.Offered n envelope → offered n envelope)
    (distinct : DistinctNotices host offered) :
    Standing key host offered
      { s with world := w', calls := if w'.process.isSome then s.calls else [] } := by
  have distinct' : DistinctNotices host w'.Offered := distinct.offering within
  have kept' := standing.kept.step may.underKey moved distinct'
  have recalls := moved.recalls may.underKey standing.kept distinct'
  have cohering' : FaithfulIds host offered → Cohering host w' := fun faithful =>
    (standing.cohering faithful).step standing.kept may moved distinct' (faithful.offering within)
  have limits' := moved.outside_limits apart may standing.limits
  refine ⟨kept', limits', cohering', fun gone => ?_, fun process running distinct₁ limits₁ => ?_,
    fun answer inside reply success => (standing.told answer inside reply success).later recalls⟩
  · rw [if_neg]
    rw [show w'.process = none from gone]
    exact Bool.false_ne_true
  · have running' : w'.process = some process := running
    have here : w'.process.isSome = true := by rw [running']; rfl
    have whole := kept'.whole running' within cohering' .none
    rw [if_pos here]
    by_cases closed : s.world.process = none
    · rw [standing.idle closed]
      exact ⟨whole, fun call inside => absurd inside List.not_mem_nil⟩
    · obtain ⟨before, advances⟩ :=
        moved.outside_advances apart may.underKey running' closed .none
      obtain ⟨rfl, rfl, -⟩ := standing.kept.running process before
      exact (standing.crowd process before distinct₁ limits₁).disturb truthful_stable advances whole

/-- So does a request that comes in. -/
theorem join {request : Request} {process : Process} (standing : s.Standing key host offered)
    (running : s.world.process = some process) :
    Standing key host offered
      { s with calls := ⟨request, request.call process.inner⟩ :: s.calls } := by
  refine ⟨standing.kept, standing.limits, standing.cohering, fun gone => ?_,
    fun other running' distinct limits => ?_, standing.told⟩
  · rw [show s.world.process = none from gone] at running
    cases running
  · rw [show s.world.process = some other from running'] at running
    obtain rfl := Option.some.inj running
    exact (standing.crowd other running' distinct limits).join request.within

/-- So does an answer that goes out. -/
theorem answer {asked : Request} {result : Except SpoolError Reply}
    {before after : List SpoolThread} (standing : s.Standing key host offered)
    (here : s.calls = before ++ ⟨asked, .done result⟩ :: after)
    (distinct : DistinctNotices host offered) :
    Standing key host offered
      { s with calls := before ++ after, answers := (asked, result) :: s.answers } := by
  refine ⟨standing.kept, standing.limits, standing.cohering, fun gone => ?_,
    fun process running distinct limits => ?_, fun other inside reply success => ?_⟩
  · have none := standing.idle gone
    rw [here] at none
    exact absurd none (List.append_ne_nil_of_right_ne_nil _ (List.cons_ne_nil _ _))
  · have crowd := standing.crowd process running distinct limits
    rw [here] at crowd
    exact crowd.leave
  · rcases List.mem_cons.mp inside with rfl | inside
    · obtain rfl : result = .ok reply := success
      cases running : s.world.process with
      | none =>
          have none := standing.idle running
          rw [here] at none
          exact absurd none (List.append_ne_nil_of_right_ne_nil _ (List.cons_ne_nil _ _))
      | some process =>
          obtain ⟨rfl, rfl, -⟩ := standing.kept.running process running
          have crowd := standing.crowd process running distinct (standing.limits process running)
          rw [here] at crowd
          exact crowd.finished
    · exact standing.told other inside reply success

section

variable {process : Process} {faults : Faults} {label : Label} {asked : Request}
  {act : Machine → Machine} {next : Machine → SpoolCall Reply} {before after : List SpoolThread}

/-- What a section of a call in progress leaves, as the world that logs it sees it. -/
structure Left (host : Host) (offered : Nat → Envelope → Prop) (s : Shared) (process : Process)
    (w' : World) (m m' : Machine) : Prop where
  follows : Follows process.inner w'.Offered s.world.timeline m m'
  coherent : FaithfulIds host offered → Ranged m'.state ∧ Coherent host w'.Offered m'.state

/-- What the calls left behind rely on is kept by a section of another. -/
theorem left {w' : World} (standing : s.Standing key host offered)
    (running : s.world.process = some process)
    (here : s.calls = before ++ ⟨asked, .step label act next⟩ :: after)
    (undisplaced : Undisplaced process.state label)
    (logged : w'.log = label.events process.state.nextSpoolSequence ++ s.world.log)
    (within : ∀ n envelope, w'.Offered n envelope → offered n envelope)
    (distinct : DistinctNotices host offered) :
    Left host offered s process w' (s.world.machine process faults)
      (act (s.world.machine process faults)) := by
  obtain ⟨rfl, rfl, backing⟩ := standing.kept.running process running
  obtain ⟨sound, ready⟩ := backing faults
  have limits := standing.limits process running
  have grown := World.offered_of_suffix logged
  have granted := @Label.granted s.world label process w' faults logged undisplaced
  have crowd := standing.crowd_at running (fun n envelope offer => within n envelope
    (grown n envelope offer)) distinct limits faults
  rw [here] at crowd
  obtain ⟨is, due⟩ := crowd.due (granted.offering within)
  have distinct' : DistinctNotices process.inner.host w'.Offered := distinct.offering within
  refine ⟨is.kept distinct' limits.retention_nonneg (sound.offering grown) ready granted due,
    fun faithful => ?_⟩
  have faithful' : FaithfulIds process.inner.host w'.Offered := faithful.offering within
  have whole := standing.kept.whole running grown (fun _ => standing.cohering faithful) faults
  exact (is.whole distinct' limits whole granted due).coherent faithful'

/-- A section that is performed keeps what stands. -/
theorem advance (standing : s.Standing key host offered) (running : s.world.process = some process)
    (here : s.calls = before ++ ⟨asked, .step label act next⟩ :: after)
    (undisplaced : Undisplaced process.state label)
    (within : ∀ n envelope, (s.world.perform process label act faults).Offered n envelope →
      offered n envelope)
    (distinct : DistinctNotices host offered) :
    Standing key host offered
      { s with
        world := s.world.perform process label act faults
        calls := before ++ ⟨asked, next (s.world.machine process faults)⟩ :: after } := by
  have logged : (s.world.perform process label act faults).log =
      label.events process.state.nextSpoolSequence ++ s.world.log := rfl
  obtain ⟨follows, coherent⟩ := @left _ _ _ _ _ faults _ _ _ _ _ _ _ standing running here
    undisplaced logged within distinct
  have limits := standing.limits process running
  have grown := World.offered_of_suffix logged
  obtain ⟨rfl, rfl, -⟩ := standing.kept.running process running
  have granted := @Label.granted _ _ _ _ faults logged undisplaced
  have kept' : Kept process.inner.key process.inner.host
      (s.world.perform process label act faults) := by
    refine standing.kept.grow follows.later follows.sound.always
      (Kept.running_of_machine ⟨rfl, rfl⟩ follows.sound follows.ready) (fun other running' => ?_) ?_
    · obtain rfl := Option.some.inj running'
      exact limits.retention_nonneg
    · rcases label.logged process.state.nextSpoolSequence s.world.log with same | ⟨request, same⟩
      · exact .inl same
      · refine .inr ⟨_, same, ?_, ?_⟩
        · rintro envelope ⟨admittedAtMs, recordId, -, replied⟩
          cases replied
        · intro batch delivered
          cases delivered
  have cohering' : FaithfulIds process.inner.host offered → Cohering process.inner.host
      (s.world.perform process label act faults) := by
    intro faithful other running'
    obtain rfl := Option.some.inj running'
    exact ⟨limits, coherent faithful⟩
  refine ⟨kept', fun other running' => ?_, cohering', (fun gone => by cases gone),
    fun other running' distinct₁ limits₁ => ?_, fun answer inside reply success =>
    (standing.told answer inside reply success).later (.of_later follows.later)⟩
  · obtain rfl := Option.some.inj running'
    exact limits
  · obtain rfl := Option.some.inj running'
    have crowd := standing.crowd_at running (fun n envelope offer => within n envelope
      (grown n envelope offer)) distinct₁ limits₁ faults
    rw [here] at crowd
    exact (crowd.advance truthful_stable (granted.offering within)).disturb truthful_stable
      (Machine.advances_of_running _ _ _) (kept'.whole rfl within cohering' .none)

/-- So does a process that stops within one. -/
theorem stop {d : Disk} {older : List Disk} (standing : s.Standing key host offered)
    (running : s.world.process = some process)
    (here : s.calls = before ++ ⟨asked, .step label act next⟩ :: after)
    (undisplaced : Undisplaced process.state label)
    (stopped : StoppedAt s.world.timeline (act (s.world.machine process faults)) d older)
    (within : ∀ n envelope, World.Offered ⟨d, older,
      label.events process.state.nextSpoolSequence ++ s.world.log, none⟩ n envelope →
      offered n envelope)
    (distinct : DistinctNotices host offered) :
    Standing key host offered
      { s with
        world := ⟨d, older, label.events process.state.nextSpoolSequence ++ s.world.log, none⟩
        calls := [] } := by
  obtain ⟨follows, -⟩ := @left _ _ _ _ _ faults _ _ _ _ _ _
    ⟨d, older, label.events process.state.nextSpoolSequence ++ s.world.log, none⟩ standing running
    here undisplaced rfl within distinct
  obtain ⟨rfl, rfl, -⟩ := standing.kept.running process running
  have gone : ∀ {P : Process → Prop} process', (none : Option Process) = some process' →
      P process' := fun _ running' => by cases running'
  refine ⟨standing.kept.stop follows.sound.always stopped ?_, gone, fun _ => gone, fun _ => rfl, gone,
    fun answer inside reply success =>
      (standing.told answer inside reply success).later (.of_later stopped.started)⟩
  rcases label.logged process.state.nextSpoolSequence s.world.log with same | ⟨request, same⟩
  · exact .inl same
  · exact .inr ⟨_, request, same⟩

end

/-- Every turn keeps what holds. -/
theorem takes {turn : Turn} (standing : s.Standing key host offered)
    (may : s.Permits (Limited key host) turn) (taken : s.Takes turn t)
    (within : ∀ n envelope, t.world.Offered n envelope → offered n envelope)
    (distinct : DistinctNotices host offered) : t.Standing key host offered := by
  cases taken with
  | outside apart moved => exact standing.outside apart may moved within distinct
  | join running alone => exact standing.join running
  | advance running here => exact standing.advance running here (may _ running) within distinct
  | stop running here stopped =>
      exact standing.stop running here (may _ running) stopped within distinct
  | answer here => exact standing.answer here distinct

end Shared.Standing

/-- No turn takes back what has been durable. -/
theorem Shared.Standing.recalls {turn : Turn} (standing : s.Standing key host offered)
    (may : s.Permits (Limited key host) turn) (taken : s.Takes turn t)
    (within : ∀ n envelope, t.world.Offered n envelope → offered n envelope)
    (distinct : DistinctNotices host offered) : Recalls key s.world.timeline t.world.timeline := by
  cases taken with
  | outside apart moved =>
      exact moved.recalls (Limited.underKey may) standing.kept (distinct.offering within)
  | join | answer => exact .of_later (List.suffix_refl _)
  | @advance label faults process asked act next before after running here =>
      have left := @Shared.Standing.left _ _ _ _ _ faults _ _ _ _ _ _
        (s.world.perform process label act faults) standing running here (may _ running) rfl within
        distinct
      exact .of_later left.follows.later
  | stop running here stopped => exact .of_later stopped.started

/-- It stands in a fresh world. -/
theorem standing_fresh : Shared.Standing key host offered ⟨.fresh, [], []⟩ := by
  refine ⟨kept_fresh key host, ?_, fun _ => ?_, fun _ => rfl, ?_, ?_⟩
  · intro process running
    cases running
  · intro process running
    cases running
  · intro process running
    cases running
  · exact fun answer inside => absurd inside List.not_mem_nil

/-- No turn takes an offer back. -/
theorem Shared.Takes.keeps_offers {turn : Turn} (taken : s.Takes turn t) (n : Nat) (envelope : Envelope)
    (offer : s.world.Offered n envelope) : t.world.Offered n envelope := by
  cases taken with
  | outside apart moved => exact moved.offered n envelope offer
  | join | answer => exact offer
  | advance | stop => exact World.offered_of_suffix rfl n envelope offer

/-- What holds throughout every run, whichever order the sections of the calls come in. -/
theorem standing_of_reachable (reach : (sharedSystem (Limited key host)).Reachable s)
    (within : ∀ n envelope, s.world.Offered n envelope → offered n envelope)
    (distinct : DistinctNotices host offered) : s.Standing key host offered := by
  induction reach with
  | start begins =>
      rw [begins]
      exact standing_fresh
  | step before moved ih =>
      obtain ⟨turn, may, taken⟩ := moved
      exact (ih fun n envelope offer => within n envelope (taken.keeps_offers n envelope offer)).takes may
        taken within distinct

end

/-- What has been durable at some point of a run is known to have been at every later one. -/
theorem recalls_of_later (reach : (sharedSystem (Limited key host)).Reachable s)
    (later : (sharedSystem (Limited key host)).Later s t)
    (distinct : DistinctNotices host t.world.Offered) :
    Recalls key s.world.timeline t.world.timeline := by
  induction later with
  | refl => exact .of_later (List.suffix_refl _)
  | tail before moved ih =>
      obtain ⟨turn, may, taken⟩ := moved
      have standing := standing_of_reachable (reach.later before) taken.keeps_offers distinct
      exact (ih (distinct.offering taken.keeps_offers)).trans
        (standing.recalls may taken (fun _ _ offer => offer) distinct)

/-! ### Scripts with several calls -/

/-- A turn that names a call by its place. -/
inductive Pick where
  | outside (move : Move)
  | join (request : Request)
  | advance (place : Nat)
  | answer (place : Nat)

def Move.isCall : Move → Bool
  | .call _ _ => true
  | _ => false

def Label.isQuarantine : Label → Bool
  | .quarantine _ => true
  | _ => false

/-- The turn, if it can be taken; no quarantine is picked, and nothing fails. -/
def Shared.pick (s : Shared) : Pick → Option Shared
  | .outside move =>
      if move.isCall then none
      else (s.world.act move).map fun w =>
        { s with world := w, calls := if w.process.isSome then s.calls else [] }
  | .join request =>
      s.world.process.bind fun process =>
        if request.acknowledges && s.calls.any (·.asked.acknowledges) then none
        else some { s with calls := ⟨request, request.call process.inner⟩ :: s.calls }
  | .advance place =>
      match s.world.process, s.calls[place]? with
      | some process, some ⟨asked, .step label act next⟩ =>
          if label.isQuarantine then none
          else some
            { s with
              world := s.world.perform process label act .none
              calls := s.calls.set place ⟨asked, next (s.world.machine process .none)⟩ }
      | _, _ => none
  | .answer place =>
      match s.calls[place]? with
      | some ⟨asked, .done result⟩ =>
          some { s with calls := s.calls.eraseIdx place, answers := (asked, result) :: s.answers }
      | _ => none

def Shared.playAll (s : Shared) : List Pick → Option Shared
  | [] => some s
  | pick :: rest => (s.pick pick).bind fun next => next.playAll rest

section

variable {allowed : World → Move → Prop} {s t : Shared}

theorem split_at {α : Type} {items : List α} {place : Nat} {item : α}
    (there : items[place]? = some item) :
    items = items.take place ++ item :: items.drop (place + 1) := by
  obtain ⟨bound, here⟩ := List.getElem?_eq_some_iff.mp there
  rw [← here, List.getElem_cons_drop, List.take_append_drop]

theorem undisplaced_of_harmless {label : Label} (state : State) (harmless : ¬ label.isQuarantine = true) :
    Undisplaced state label := by
  cases label with
  | quarantine entry => exact absurd rfl harmless
  | observe | enqueue | expire | read | admissions | allocate | writeReceipt
  | insertReceipt | complete | pruneHistory | removeReceipt | forgetReceipt | sync => trivial

/-- What a pick computes is a turn. -/
theorem Shared.taken_of_pick {pick : Pick} (picked : s.pick pick = some t)
    (may : ∀ w move, pick = .outside move → allowed w move) :
    ∃ turn, s.Permits allowed turn ∧ s.Takes turn t := by
  cases pick with
  | outside move =>
      simp only [Shared.pick] at picked
      split at picked
      · cases picked
      · rename_i apart
        obtain ⟨w, acted, rfl⟩ := Option.map_eq_some_iff.mp picked
        refine ⟨.outside move, may _ move rfl, .outside (fun request faults same => ?_)
          (World.step_of_act acted)⟩
        rw [same] at apart
        exact apart rfl
  | join request =>
      obtain ⟨process, running, picked⟩ := Option.bind_eq_some_iff.mp picked
      split at picked
      · cases picked
      · rename_i alone
        obtain rfl := Option.some.inj picked
        refine ⟨.join request, trivial, .join running fun acknowledges call inside => ?_⟩
        rw [acknowledges, Bool.true_and, Bool.not_eq_true, List.any_eq_false] at alone
        exact Bool.eq_false_iff.mpr (alone call inside)
  | advance place =>
      simp only [Shared.pick] at picked
      split at picked
      · rename_i process asked label act next running there
        split at picked
        · cases picked
        · rename_i harmless
          obtain rfl := Option.some.inj picked
          obtain ⟨bound, -⟩ := List.getElem?_eq_some_iff.mp there
          have taken := @Shared.Takes.advance s label .none process asked act next _ _ running
            (split_at there)
          have set : ∀ call, s.calls.set place call =
              s.calls.take place ++ call :: s.calls.drop (place + 1) := fun call => by
            rw [List.set_eq_take_append_cons_drop, if_pos bound]
          rw [← set] at taken
          exact ⟨.advance label .none, fun other _ => undisplaced_of_harmless other.state harmless,
            taken⟩
      · cases picked
  | answer place =>
      simp only [Shared.pick] at picked
      split at picked
      · rename_i asked result there
        obtain rfl := Option.some.inj picked
        have taken := Shared.Takes.answer (split_at there)
        rw [← List.eraseIdx_eq_take_drop_succ] at taken
        exact ⟨.answer, trivial, taken⟩
      · cases picked

/-- A script of picks reaches where it ends. -/
theorem Shared.reachable_of_playAll {picks : List Pick}
    (before : (sharedSystem allowed).Reachable s)
    (may : ∀ w move, .outside move ∈ picks → allowed w move)
    (played : s.playAll picks = some t) : (sharedSystem allowed).Reachable t := by
  induction picks generalizing s with
  | nil =>
      obtain rfl := Option.some.inj played
      exact before
  | cons pick rest ih =>
      obtain ⟨next, picked, played⟩ := Option.bind_eq_some_iff.mp played
      refine ih (before.step (Shared.taken_of_pick picked fun w move same => ?_))
        (fun w move inside => may w move (List.mem_cons_of_mem _ inside)) played
      exact may w move (by rw [same]; exact List.mem_cons_self)

end

/-- Two admissions of one envelope and a delivery, side by side. -/
def racingAdmissions : List Pick :=
  [.outside (.openSpool (sampleInner 4) (sampleTime 0) .none),
    .join (.nextBatchV2 2 (sampleTime 2)),
    .join (.enqueue (sampleEnvelope "a") (sampleTime 1)),
    .join (.enqueue (sampleEnvelope "a") (sampleTime 1)),
    .advance 0, .advance 2, .advance 1, .advance 1, .advance 0, .advance 2, .advance 2, .advance 2,
    .answer 0, .answer 0, .answer 0]

theorem racingAdmissions_limited (w : World) (move : Move)
    (inside : .outside move ∈ racingAdmissions) :
    Limited sampleKey (referenceHost integerCodec) w move := by
  simp only [racingAdmissions, List.mem_cons, Pick.outside.injEq, reduceCtorEq, List.not_mem_nil,
    or_false] at inside
  rw [inside]
  exact ⟨rfl, rfl, sampleInner_withinLimits (by decide)⟩

/-- The admissions among the answers. -/
def Shared.admissions (s : Shared) : List (Envelope × I64 × EnqueueOutcome) :=
  s.answers.filterMap fun answer =>
    match answer with
    | (.enqueue envelope admittedAtMs, .ok (.enqueued outcome)) =>
        some (envelope, admittedAtMs, outcome)
    | _ => none

theorem Shared.mem_admissions {s : Shared} {envelope : Envelope} {admittedAtMs : I64}
    {outcome : EnqueueOutcome} (inside : (envelope, admittedAtMs, outcome) ∈ s.admissions) :
    (.enqueue envelope admittedAtMs, .ok (.enqueued outcome)) ∈ s.answers := by
  obtain ⟨answer, here, found⟩ := List.mem_filterMap.mp inside
  split at found
  · simp only [Option.some.injEq, Prod.mk.injEq] at found
    obtain ⟨rfl, rfl, rfl⟩ := found
    exact here
  · cases found

/-- The v2 batches among the answers. -/
def Shared.batches (s : Shared) : List (Request × HubBatchV2) :=
  s.answers.filterMap fun answer =>
    match answer with
    | (asked, .ok (.batchV2 batch)) => some (asked, batch)
    | _ => none

theorem Shared.mem_batches {s : Shared} {asked : Request} {batch : HubBatchV2}
    (inside : (asked, batch) ∈ s.batches) : (asked, .ok (.batchV2 batch)) ∈ s.answers := by
  obtain ⟨answer, here, found⟩ := List.mem_filterMap.mp inside
  split at found
  · simp only [Option.some.injEq, Prod.mk.injEq] at found
    obtain ⟨rfl, rfl⟩ := found
    exact here
  · cases found

theorem racingAdmissions_plays :
    ((Shared.mk .fresh [] []).playAll racingAdmissions).any (fun s =>
      decide (s.world.TellsApart (referenceHost integerCodec)) && decide (s.admissions.length = 2) &&
        s.batches.any fun delivered => ! delivered.2.records.isEmpty) = true := by
  decide +kernel

/-- An admission was answered twice, and its record was delivered. -/
theorem racingAdmissions_reached :
    ∃ s, (sharedSystem (Limited sampleKey (referenceHost integerCodec))).Reachable s ∧
      s.world.TellsApart (referenceHost integerCodec) ∧
      (∃ envelope admittedAtMs outcome,
        (.enqueue envelope admittedAtMs, .ok (.enqueued outcome)) ∈ s.answers) ∧
      ∃ asked batch record, (asked, .ok (.batchV2 batch)) ∈ s.answers ∧ record ∈ batch.records := by
  obtain ⟨s, played, shows⟩ := (Option.any_eq_true _ _).mp racingAdmissions_plays
  simp only [Bool.and_eq_true, decide_eq_true_eq, List.any_eq_true] at shows
  obtain ⟨⟨apart, admissions⟩, ⟨asked, batch⟩, delivered, nonempty⟩ := shows
  have reach := Shared.reachable_of_playAll (.start rfl) racingAdmissions_limited played
  refine ⟨s, reach, apart, ?_, asked, batch, ?_⟩
  · cases admitted : s.admissions with
    | nil =>
        rw [admitted] at admissions
        cases admissions
    | cons first rest =>
        obtain ⟨envelope, admittedAtMs, outcome⟩ := first
        exact ⟨envelope, admittedAtMs, outcome, Shared.mem_admissions (by simp [admitted])⟩
  · cases records : batch.records with
    | nil => simp [records] at nonempty
    | cons record rest => exact ⟨record, Shared.mem_batches delivered, List.mem_cons_self⟩

end TeslatlasEdge
