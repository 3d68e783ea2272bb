/-
Module: TeslatlasEdge.Lib.Rely
Purpose: Calls that share a state.  Each call keeps to common rules: it relies on how the others may
  change the state between two of its sections, and guarantees as much to them.  What the rules say
  always holds then holds throughout every interleaving, whichever call moves next.
Trusted boundary: none
Main exports: Rules, Call.Within, Call.Within.bind, Call.Within.later, Rules.Crowd, Rules.Crowd.join,
  Rules.Crowd.advance, Rules.Crowd.disturb
-/
import TeslatlasEdge.Lib.Call

namespace TeslatlasEdge.Lib

/-- The rules of the calls that share a state. -/
structure Rules (ℓ σ : Type) where
  /-- What a section with a label may do. -/
  sections : ℓ → (σ → σ) → Prop
  /-- What holds whenever a section begins. -/
  always : σ → Prop
  /-- How the others may change the state between two sections of a call. -/
  rely : σ → σ → Prop
  /-- What the surroundings grant a section when it begins. -/
  granted : ℓ → σ → Prop
  /-- What a call owes for a section when it begins it. -/
  due : ℓ → σ → Prop
  rely_refl : ∀ s, rely s s
  rely_trans : ∀ s t u, rely s t → rely t u → rely s u
  keeps : ∀ label act s, sections label act → always s → granted label s → due label s →
    always (act s)
  guarantees : ∀ label act s, sections label act → always s → granted label s → due label s →
    rely s (act s)

namespace Call

variable {ℓ ε σ α β : Type} {R : Rules ℓ σ}

/-- From the state on the call keeps to the rules and ends with a result as described, whatever the
others do in between. -/
def Within (R : Rules ℓ σ) (onDone : Except ε α → σ → Prop) : Call ℓ ε σ α → σ → Prop
  | .done result, s => onDone result s
  | .step label act next, s =>
      R.sections label act ∧ ∀ t, R.rely s t → R.always t → R.granted label t →
        R.due label t ∧ (next t).Within R onDone (act t)

/-- Results described this way are not spoilt by the others. -/
def Stable (R : Rules ℓ σ) (onDone : Except ε α → σ → Prop) : Prop :=
  ∀ result s t, R.rely s t → onDone result s → onDone result t

variable {onDone : Except ε α → σ → Prop} {s t : σ}

/-- A call that is within its rules stays within them while others act as it relies on. -/
theorem Within.later (stable : Stable R onDone) {c : Call ℓ ε σ α} (within : c.Within R onDone s)
    (relied : R.rely s t) : c.Within R onDone t := by
  cases c with
  | done result => exact stable result s t relied within
  | step label act next =>
      exact ⟨within.1, fun u later => within.2 u (R.rely_trans s t u relied later)⟩

/-- A call within its rules may promise less in the end. -/
theorem Within.mono {weaker : Except ε α → σ → Prop} {c : Call ℓ ε σ α} :
    ∀ {s : σ}, c.Within R onDone s → (∀ result t, onDone result t → weaker result t) →
      c.Within R weaker s := by
  induction c with
  | done result => exact fun within weaken => weaken result _ within
  | step label act next ih =>
      intro s within weaken
      refine ⟨within.1, fun t relied always granted => ?_⟩
      obtain ⟨due, rest⟩ := within.2 t relied always granted
      exact ⟨due, ih t rest weaken⟩

theorem Within.pure {a : α} (done : onDone (.ok a) s) :
    (Pure.pure a : Call ℓ ε σ α).Within R onDone s := done

theorem Within.fail {e : ε} (done : onDone (.error e) s) :
    (Call.fail e : Call ℓ ε σ α).Within R onDone s := done

/-- A call is followed by another one that goes by its answer. -/
theorem Within.bind {after : Except ε β → σ → Prop} {c : Call ℓ ε σ α} {f : α → Call ℓ ε σ β} :
    ∀ {s : σ}, c.Within R onDone s → (∀ a t, onDone (.ok a) t → (f a).Within R after t) →
      (∀ e t, onDone (.error e) t → after (.error e) t) → (c >>= f).Within R after s := by
  change ∀ {s : σ}, c.Within R onDone s → (∀ a t, onDone (.ok a) t → (f a).Within R after t) →
    (∀ e t, onDone (.error e) t → after (.error e) t) → (Call.bind c f).Within R after s
  induction c with
  | done result =>
      intro s within next failed
      cases result with
      | ok a => exact next a s within
      | error e => exact failed e s within
  | step label act next ih =>
      intro s within follow failed
      refine ⟨within.1, fun t relied always granted => ?_⟩
      obtain ⟨due, rest⟩ := within.2 t relied always granted
      exact ⟨due, ih t rest follow failed⟩

/-- What may be taken for granted of a section that began on `t` after `s`, and of its end. -/
structure Between (R : Rules ℓ σ) (label : ℓ) (m : EStateM ε σ α) (s t : σ) : Prop where
  relied : R.rely s t
  always : R.always t
  granted : R.granted label t
  kept : R.always (finalState (m t))
  onward : R.rely t (finalState (m t))

/-- A section that keeps the rules may be performed between the acts of others. -/
theorem Between.of_due {label : ℓ} {m : EStateM ε σ α}
    (is : R.sections label fun s => finalState (m s)) (relied : R.rely s t) (always : R.always t)
    (granted : R.granted label t) (due : R.due label t) : Between R label m s t :=
  ⟨relied, always, granted, R.keeps label _ t is always granted due,
    R.guarantees label _ t is always granted due⟩

/-- One section, which is due, and whose exits are as described. -/
theorem Within.atomic {label : ℓ} {m : EStateM ε σ α}
    (is : R.sections label fun s => finalState (m s))
    (pays : ∀ t, R.rely s t → R.always t → R.granted label t → R.due label t)
    (ends : ∀ t, Between R label m s t →
      Post m t (fun a u => onDone (.ok a) u) (fun e u => onDone (.error e) u)) :
    (Call.atomic label m).Within R onDone s := by
  refine ⟨is, fun t relied always granted => ?_⟩
  have due := pays t relied always granted
  have post := ends t (.of_due is relied always granted due)
  refine ⟨due, ?_⟩
  simp only [Within]
  cases ran : m t with
  | ok a u => exact post.of_ok ran
  | error e u => exact post.of_error ran

/-- One section whose error is handed on. -/
theorem Within.attempt {label : ℓ} {m : EStateM ε σ α} {handed : Except ε (Except ε α) → σ → Prop}
    (is : R.sections label fun s => finalState (m s))
    (pays : ∀ t, R.rely s t → R.always t → R.granted label t → R.due label t)
    (ends : ∀ t, Between R label m s t →
      Post m t (fun a u => handed (.ok (.ok a)) u) (fun e u => handed (.ok (.error e)) u)) :
    (Call.attempt label m).Within R handed s := by
  refine ⟨is, fun t relied always granted => ?_⟩
  have due := pays t relied always granted
  have post := ends t (.of_due is relied always granted due)
  refine ⟨due, ?_⟩
  simp only [Within]
  cases ran : m t with
  | ok a u => exact post.of_ok ran
  | error e u => exact post.of_error ran

/-! ### Calls described by their answers -/

/-- The call answers as described, unless it fails. -/
def onOk (P : α → σ → Prop) : Except ε α → σ → Prop
  | .ok a, s => P a s
  | .error _, _ => True

variable {P : α → σ → Prop} {Q : β → σ → Prop}

/-- A promise about successes is stable when its condition survives what others do. -/
theorem stable_onOk (stable : ∀ a s t, R.rely s t → P a s → P a t) :
    Stable R (onOk P : Except ε α → σ → Prop) := by
  intro result s t relied holds
  cases result with
  | ok a => exact stable a s t relied holds
  | error e => exact trivial

theorem Within.monoOk {weaker : α → σ → Prop} {c : Call ℓ ε σ α} (within : c.Within R (onOk P) s)
    (weaken : ∀ a t, P a t → weaker a t) : c.Within R (onOk weaker) s := by
  refine within.mono fun result t holds => ?_
  cases result with
  | ok a => exact weaken a t holds
  | error e => exact trivial

/-- The rule of sequence for calls among others: an error ends the sequence. -/
theorem Within.bindOk {c : Call ℓ ε σ α} {f : α → Call ℓ ε σ β} (within : c.Within R (onOk P) s)
    (follow : ∀ a t, P a t → (f a).Within R (onOk Q) t) : (c >>= f).Within R (onOk Q) s :=
  within.bind follow fun _ _ _ => trivial

theorem Within.failOk {e : ε} : (Call.fail e : Call ℓ ε σ α).Within R (onOk P) s := trivial

/-- One section that is always due. -/
theorem Within.section {label : ℓ} {m : EStateM ε σ α}
    (is : R.sections label fun s => finalState (m s)) (free : ∀ t, R.due label t)
    (ends : ∀ t, Between R label m s t → Post m t P fun _ _ => True) :
    (Call.atomic label m).Within R (onOk P) s :=
  .atomic is (fun t _ _ _ => free t) ends

/-- One section whose answer does not matter: it moves the state as the others may rely on. -/
theorem Within.moves {label : ℓ} {m : EStateM ε σ α}
    (is : R.sections label fun s => finalState (m s))
    (pays : ∀ t, R.rely s t → R.always t → R.granted label t → R.due label t) :
    (Call.atomic label m).Within R (onOk fun _ t => R.rely s t) s := by
  refine .atomic is pays fun t between => ?_
  have onward := R.rely_trans s t _ between.relied between.onward
  unfold finalState at onward
  unfold Post
  cases ran : m t with
  | ok a u =>
      rw [ran] at onward
      exact onward
  | error e u => exact trivial

end Call

/-! ### Calls in progress -/

/-- A call in progress, and what it was asked. -/
structure Thread (ρ ℓ ε σ α : Type) where
  asked : ρ
  rest : Call ℓ ε σ α

namespace Rules

variable {ρ ℓ ε σ α : Type} (R : Rules ℓ σ) (onDone : ρ → Except ε α → σ → Prop)

/-- The state is as it always is, and every call in progress keeps to the rules from here on. -/
structure Crowd (threads : List (Thread ρ ℓ ε σ α)) (s : σ) : Prop where
  always : R.always s
  within : ∀ thread ∈ threads, thread.rest.Within R (onDone thread.asked) s

variable {R onDone} {threads before after : List (Thread ρ ℓ ε σ α)} {s t : σ}

namespace Crowd

/-- A call that keeps the rules may join. -/
theorem join (crowd : R.Crowd onDone threads s) {thread : Thread ρ ℓ ε σ α}
    (within : thread.rest.Within R (onDone thread.asked) s) :
    R.Crowd onDone (thread :: threads) s := by
  refine ⟨crowd.always, fun other inside => ?_⟩
  rcases List.mem_cons.mp inside with rfl | inside
  · exact within
  · exact crowd.within other inside

/-- The others go on when a call has left. -/
theorem leave {thread : Thread ρ ℓ ε σ α}
    (crowd : R.Crowd onDone (before ++ thread :: after) s) :
    R.Crowd onDone (before ++ after) s := by
  refine ⟨crowd.always, fun other inside => crowd.within other ?_⟩
  rw [List.mem_append] at inside
  rw [List.mem_append, List.mem_cons]
  exact inside.imp_right .inr

/-- The result of a finished call is as described. -/
theorem finished {asked : ρ} {result : Except ε α}
    (crowd : R.Crowd onDone (before ++ ⟨asked, .done result⟩ :: after) s) :
    onDone asked result s :=
  crowd.within ⟨asked, .done result⟩ (List.mem_append_right before List.mem_cons_self)

/-- A change that the calls rely on, such as one from outside. -/
theorem disturb (stable : ∀ asked, Call.Stable R (onDone asked))
    (crowd : R.Crowd onDone threads s) (relied : R.rely s t) (always : R.always t) :
    R.Crowd onDone threads t :=
  ⟨always, fun thread inside => (crowd.within thread inside).later (stable thread.asked) relied⟩

/-- The section a call is about to begin does what its label says and is paid for. -/
theorem due {asked : ρ} {label : ℓ} {act : σ → σ} {next : σ → Call ℓ ε σ α}
    (crowd : R.Crowd onDone (before ++ ⟨asked, .step label act next⟩ :: after) s)
    (granted : R.granted label s) : R.sections label act ∧ R.due label s := by
  have within := crowd.within ⟨asked, .step label act next⟩
    (List.mem_append_right before List.mem_cons_self)
  exact ⟨within.1, (within.2 s (R.rely_refl s) crowd.always granted).1⟩

/-- One call performs its next section, and all calls go on within the rules. -/
theorem advance (stable : ∀ asked, Call.Stable R (onDone asked)) {asked : ρ} {label : ℓ}
    {act : σ → σ} {next : σ → Call ℓ ε σ α}
    (crowd : R.Crowd onDone (before ++ ⟨asked, .step label act next⟩ :: after) s)
    (granted : R.granted label s) :
    R.Crowd onDone (before ++ ⟨asked, next s⟩ :: after) (act s) := by
  obtain ⟨is, due⟩ := crowd.due granted
  have kept := R.keeps label act s is crowd.always granted due
  have relied := R.guarantees label act s is crowd.always granted due
  have within := crowd.within ⟨asked, .step label act next⟩
    (List.mem_append_right before List.mem_cons_self)
  have others : ∀ thread, thread ∈ before ∨ thread ∈ after →
      thread.rest.Within R (onDone thread.asked) (act s) := by
    intro thread inside
    refine (crowd.within thread ?_).later (stable thread.asked) relied
    rw [List.mem_append, List.mem_cons]
    exact inside.imp_right .inr
  refine ⟨kept, fun thread inside => ?_⟩
  rw [List.mem_append, List.mem_cons] at inside
  rcases inside with inside | rfl | inside
  · exact others thread (.inl inside)
  · exact (within.2 s (R.rely_refl s) crowd.always granted).2
  · exact others thread (.inr inside)

end Crowd

end Rules

end TeslatlasEdge.Lib
