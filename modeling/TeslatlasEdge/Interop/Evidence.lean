/-
Module: TeslatlasEdge.Interop.Evidence
Purpose: What a passed matrix case rests on: exactly the operations of its binding, permitted actors,
  observed sequences, and evidence of facts or of a specialised kind.  The binding's schema ids are
  not among the checks, so the kind is a declared one exactly when the evidence offered is.
Trusted boundary: none
Main exports: Evidenced, Checked, admitCase_passed_iff, passed_evidence_declared_iff
-/
import TeslatlasEdge.Interop.MatrixContract

namespace TeslatlasEdge.Interop

/-- The payload of the evidence that an invocation names. -/
def evidencePayload (context : AdmissionContext) (invocation : AdmittedInvocation) : Obj :=
  (rawEvidence context invocation).get "payload"

/-- The controller observed both ends of an invocation. -/
def ObservedBetween (context : AdmissionContext) (invocation : AdmittedInvocation) : Prop :=
  ∃ before after, invocation.sessionSequenceBefore.asInt = some before ∧
    invocation.sessionSequenceAfter.asInt = some after ∧ 0 < before ∧ before ≤ after ∧
      context.observed before = true ∧ context.observed after = true

/-- A payload of facts that states the expected ones and a clean cleanup. -/
def StatesFacts (context : AdmissionContext) (caseId : Str) (payload : Obj) : Prop :=
  payload.hasKeys genericKeys = true ∧
    (∃ expected, expectedFacts caseId context = some expected ∧
      (payload.get "facts").typedEqual expected = true) ∧
    ((payload.get "cleanup").get "status").eqStr "clean".toList = true ∧
    ((payload.get "cleanup").get "errors").isEmptySequence = true

/-- A specialised payload of a kind that the binding declares. -/
def DeclaredKind (binding : CaseBinding) (payload : Obj) : Prop :=
  ∃ schemaId ∈ binding.schemaIds, specializedSchema payload = some schemaId

/-- The requests of the operations, one after the other. -/
def caseTranscript (context : AdmissionContext) (caseId : Str) : List Obj :=
  (caseInvocations context caseId).flatMap fun invocation =>
    transcriptPayload (evidencePayload context invocation)

/-- The evidence of a case, as its binding describes it. -/
structure Evidenced (case : Obj) (caseId : Str) (binding : CaseBinding)
    (context : AdmissionContext) : Prop where
  operations :
    (caseInvocations context caseId).map (·.operation) = binding.operations.map String.toList
  actors : ∀ invocation ∈ caseInvocations context caseId,
    invocation.actorId ∈ binding.actorIds.map String.toList
  sequences : ∀ invocation ∈ caseInvocations context caseId, ObservedBetween context invocation
  payloads : ∀ invocation ∈ caseInvocations context caseId,
    StatesFacts context caseId (evidencePayload context invocation) ∨
      DeclaredKind binding (evidencePayload context invocation)
  transcript : (case.get "request_transcript").typedEqual
    (.list (caseTranscript context caseId)) = true

/-- Everything that the validator looks at. -/
structure Checked (case : Obj) (caseId : Str) (binding : CaseBinding)
    (context : AdmissionContext) : Prop where
  isDict : case.isDict = true
  shape : case.hasKeys ["id", "status", "expected", "actual", "evidence_kind",
    "request_transcript"] = true
  named : (case.get "id").asStr = some caseId
  required : caseId ∈ requiredCases
  admissible : validateContext context = none
  notRunnerOwned : caseId ≠ "installed_service_runtime".toList
  bound : caseBinding caseId = some binding
  literals : ∃ expected, expectedFacts caseId context = some expected ∧
    (case.get "status").eqStr "passed".toList = true ∧
    (case.get "evidence_kind").eqStr binding.evidenceKind.toList = true ∧
    (case.get "expected").typedEqual expected = true ∧
    (case.get "actual").typedEqual expected = true
  operations :
    (caseInvocations context caseId).map (·.operation) = binding.operations.map String.toList
  actors : ∀ invocation ∈ caseInvocations context caseId,
    invocation.actorId ∈ binding.actorIds.map String.toList
  sequences : ∀ invocation ∈ caseInvocations context caseId, ObservedBetween context invocation
  raw : ∀ invocation ∈ caseInvocations context caseId,
    (rawEvidence context invocation).isMapping = true ∧
      validateRaw (rawEvidence context invocation) context invocation caseId = .ok none
  transcript : (case.get "request_transcript").typedEqual
    (.list (caseTranscript context caseId)) = true

/-! ### The dictionary of operations -/

/-- An invocation under its operation. -/
def underOperation (invocation : AdmittedInvocation) : Str × AdmittedInvocation :=
  (invocation.operation, invocation)

/-- An operation met again leaves the number of keys as it was; a new one is added at the end. -/
theorem setOperation_cases (items : List (Str × AdmittedInvocation))
    (invocation : AdmittedInvocation) :
    (setOperation items invocation).length = items.length ∨
      setOperation items invocation = items ++ [underOperation invocation] := by
  unfold setOperation
  split
  · exact .inl (List.length_map _)
  · exact .inr rfl

/-- Each invocation adds at most one operation. -/
theorem length_foldl_setOperation_le (invocations : List AdmittedInvocation)
    (items : List (Str × AdmittedInvocation)) :
    (invocations.foldl setOperation items).length ≤ items.length + invocations.length := by
  induction invocations generalizing items with
  | nil => rfl
  | cons invocation invocations ih =>
      have rest := ih (setOperation items invocation)
      rw [List.foldl_cons, List.length_cons]
      rcases setOperation_cases items invocation with same | added
      · omega
      · rw [added, List.length_append, List.length_singleton] at rest
        rw [added]
        omega

/-- As many keys as invocations: no operation came twice. -/
theorem foldl_setOperation_of_length {invocations : List AdmittedInvocation}
    {items : List (Str × AdmittedInvocation)}
    (full : (invocations.foldl setOperation items).length = items.length + invocations.length) :
    invocations.foldl setOperation items = items ++ invocations.map underOperation := by
  induction invocations generalizing items with
  | nil => exact (List.append_nil items).symm
  | cons invocation invocations ih =>
      rw [List.foldl_cons] at full ⊢
      have rest := length_foldl_setOperation_le invocations (setOperation items invocation)
      rw [List.length_cons] at full
      have added : setOperation items invocation = items ++ [underOperation invocation] := by
        rcases setOperation_cases items invocation with same | added
        · omega
        · exact added
      rw [added] at full ⊢
      rw [ih (by rw [full, List.length_append, List.length_singleton]; omega), List.append_assoc]
      rfl

/-- When there are as many operations as invocations, each invocation is the one of its operation.
-/
theorem byOperation_of_keys {invocations : List AdmittedInvocation} {operations : List Str}
    (counted : invocations.length = operations.length)
    (keys : (byOperation invocations).map (·.1) = operations) :
    byOperation invocations = invocations.map underOperation := by
  have full : (byOperation invocations).length = invocations.length := by
    rw [counted, ← keys, List.length_map]
  apply foldl_setOperation_of_length
  rw [List.length_nil, Nat.zero_add]
  exact full

theorem foldl_setOperation_of_nodup {invocations : List AdmittedInvocation}
    {items : List (Str × AdmittedInvocation)}
    (distinct : (items.map (·.1) ++ invocations.map (·.operation)).Nodup) :
    invocations.foldl setOperation items = items ++ invocations.map underOperation := by
  induction invocations generalizing items with
  | nil => exact (List.append_nil items).symm
  | cons invocation invocations ih =>
      have added : setOperation items invocation = items ++ [underOperation invocation] := by
        apply if_neg
        simp only [List.any_eq_true, decide_eq_true_eq, not_exists, not_and]
        intro member inside same
        have apart := (List.nodup_append'.mp distinct).2.2
        exact apart (List.mem_map.mpr ⟨member, inside, rfl⟩)
          (same ▸ List.mem_cons_self)
      rw [List.foldl_cons, added, ih, List.append_assoc]
      · rfl
      · rw [List.map_append, List.append_assoc]
        exact distinct

/-- Invocations of different operations are all kept. -/
theorem byOperation_of_nodup {invocations : List AdmittedInvocation}
    (distinct : (invocations.map (·.operation)).Nodup) :
    byOperation invocations = invocations.map underOperation :=
  @foldl_setOperation_of_nodup invocations [] distinct

/-- An invocation is found under its operation. -/
theorem find_underOperation {invocations : List AdmittedInvocation}
    (distinct : (invocations.map (·.operation)).Nodup) {invocation : AdmittedInvocation}
    (inside : invocation ∈ invocations) :
    (invocations.map underOperation).find? (fun member => member.1 = invocation.operation) =
      some (underOperation invocation) := by
  induction invocations with
  | nil => exact absurd inside List.not_mem_nil
  | cons first rest ih =>
      rw [List.map_cons, List.nodup_cons] at distinct
      rcases List.mem_cons.mp inside with rfl | later
      · simp [underOperation]
      · have other : first.operation ≠ invocation.operation := fun same =>
          distinct.1 (same ▸ List.mem_map.mpr ⟨invocation, later, rfl⟩)
        rw [List.map_cons, List.find?_cons_of_neg]
        · exact ih distinct.2 later
        · rw [decide_eq_true_eq]
          exact other

/-- No binding lists an operation twice. -/
theorem operations_nodup {caseId : Str} {binding : CaseBinding}
    (bound : caseBinding caseId = some binding) :
    (binding.operations.map String.toList).Nodup := by
  have all : ∀ member ∈ caseBindings, (member.2.operations.map String.toList).Nodup := by decide
  obtain ⟨member, found, rfl⟩ := Option.map_eq_some_iff.mp bound
  exact all member (List.mem_of_find?_eq_some found)

/-! ### One operation -/

/-- What an invocation has to satisfy to be let through. -/
theorem checkOperation_ok_iff {context : AdmissionContext} {caseId : Str} {binding : CaseBinding}
    {invocation : AdmittedInvocation} :
    checkOperation context caseId binding invocation = .ok none ↔
      invocation.actorId ∈ binding.actorIds.map String.toList ∧
        ObservedBetween context invocation ∧
        (rawEvidence context invocation).isMapping = true ∧
          validateRaw (rawEvidence context invocation) context invocation caseId = .ok none := by
  unfold checkOperation ObservedBetween
  by_cases permitted : invocation.actorId ∈ binding.actorIds.map String.toList
  · rw [if_neg (not_not.mpr permitted)]
    cases first : invocation.sessionSequenceBefore.asInt with
    | none => simp
    | some before =>
        cases second : invocation.sessionSequenceAfter.asInt with
        | none => simp
        | some after =>
            simp only [permitted, true_and, Option.some.injEq]
            by_cases outside : before ≤ 0 ∨ after < before ∨ ¬ context.observed before = true ∨
                ¬ context.observed after = true
            · rw [if_pos outside]
              constructor
              · intro wrong
                cases wrong
              · rintro ⟨⟨before, after, rfl, rfl, positive, ordered, here, there⟩, -⟩
                rcases outside with low | late | absent | absent
                · omega
                · omega
                · exact (absent here).elim
                · exact (absent there).elim
            · rw [if_neg outside]
              simp only [not_or, not_not, not_le, not_lt] at outside
              by_cases held : (rawEvidence context invocation).isMapping = true
              · rw [if_neg (not_not.mpr held)]
                simp [held, outside]
              · rw [if_pos held]
                constructor
                · intro wrong
                  cases wrong
                · rintro ⟨-, here, -⟩
                  exact absurd here held
  · rw [if_pos permitted]
    constructor
    · intro wrong
      cases wrong
    · rintro ⟨here, -⟩
      exact absurd here permitted

/-- The loop ends with a transcript exactly when every operation passes its checks. -/
theorem admitOperations_ok_iff {context : AdmissionContext} {caseId : Str} {binding : CaseBinding}
    {items : List (Str × AdmittedInvocation)} {transcript : List Obj} :
    ∀ {invocations : List AdmittedInvocation},
      (∀ invocation ∈ invocations,
        items.find? (fun member => member.1 = invocation.operation) =
          some (underOperation invocation)) →
      (admitOperations context caseId binding items (invocations.map (·.operation)) =
          .ok (.ok transcript) ↔
        (∀ invocation ∈ invocations, checkOperation context caseId binding invocation = .ok none) ∧
          transcript = invocations.flatMap fun invocation =>
            transcriptPayload (evidencePayload context invocation))
  | [], _ => by
      simp only [List.map_nil, admitOperations, Except.ok.injEq, List.not_mem_nil, false_imp_iff,
        implies_true, true_and, List.flatMap_nil]
      exact eq_comm
  | invocation :: invocations, found => by
      have here := found invocation List.mem_cons_self
      rw [List.map_cons, admitOperations, here]
      simp only [underOperation, List.forall_mem_cons, List.flatMap_cons]
      cases checked : checkOperation context caseId binding invocation with
      | error raised => simp [bind, Except.bind]
      | ok problem =>
          cases problem with
          | some code => simp [bind, Except.bind, pure, Except.pure]
          | none =>
              have rest := fun later : List Obj =>
                @admitOperations_ok_iff context caseId binding items later invocations
                  fun other inside => found other (List.mem_cons_of_mem _ inside)
              cases looped : admitOperations context caseId binding items
                  (invocations.map (·.operation)) with
              | error raised =>
                  have fails := rest (invocations.flatMap fun invocation =>
                    transcriptPayload (evidencePayload context invocation))
                  rw [looped] at fails
                  simp only [reduceCtorEq, and_true, false_iff] at fails
                  simp [bind, Except.bind, fails]
              | ok outcome =>
                  cases outcome with
                  | error code =>
                      have fails := rest (invocations.flatMap fun invocation =>
                        transcriptPayload (evidencePayload context invocation))
                      rw [looped] at fails
                      simp only [Except.ok.injEq, reduceCtorEq, and_true, false_iff] at fails
                      simp [bind, Except.bind, pure, Except.pure, fails]
                  | ok later =>
                      have passes := (rest later).mp looped
                      simp only [bind, Except.bind, pure, Except.pure, Except.ok.injEq, true_and]
                      rw [passes.2]
                      exact ⟨fun same => ⟨passes.1, same.symm⟩, fun ⟨_, same⟩ => same.symm⟩

/-! ### The decision -/

/-- A bound case passes exactly if its invocations satisfy every check. -/
theorem admitInvocations_passed_iff {case : Obj} {caseId : Str} {binding : CaseBinding}
    {context : AdmissionContext} (bound : caseBinding caseId = some binding)
    {code : DecisionCode} :
    admitInvocations case caseId binding context = .ok ⟨.passed, code⟩ ↔
      code = .accepted ∧
      (caseInvocations context caseId).map (·.operation) = binding.operations.map String.toList ∧
      (∀ invocation ∈ caseInvocations context caseId,
        checkOperation context caseId binding invocation = .ok none) ∧
      (case.get "request_transcript").typedEqual (.list (caseTranscript context caseId)) = true := by
  have distinct := operations_nodup bound
  unfold admitInvocations
  dsimp only
  by_cases operations : (caseInvocations context caseId).map (·.operation) =
      binding.operations.map String.toList
  · rw [← operations] at distinct
    have loop := fun transcript : List Obj =>
      @admitOperations_ok_iff context caseId binding _ transcript _
        fun invocation inside => find_underOperation distinct inside
    rw [← operations, byOperation_of_nodup distinct]
    rw [if_neg (by rw [List.length_map]; exact not_not.mpr rfl),
      if_neg (by rw [List.map_map]; exact not_not.mpr rfl)]
    cases looped : admitOperations context caseId binding
        ((caseInvocations context caseId).map underOperation)
        ((caseInvocations context caseId).map (·.operation)) with
    | error raised =>
        have fails := loop (caseTranscript context caseId)
        rw [looped] at fails
        simp only [reduceCtorEq, false_iff, not_and] at fails
        simp only [bind, Except.bind, reduceCtorEq, false_iff]
        rintro ⟨-, -, checked, -⟩
        exact fails checked rfl
    | ok outcome =>
        cases outcome with
        | error problem =>
            have fails := loop (caseTranscript context caseId)
            rw [looped] at fails
            simp only [Except.ok.injEq, reduceCtorEq, false_iff, not_and] at fails
            simp only [bind, Except.bind, pure, Except.pure, Except.ok.injEq,
              AdmissionDecision.mk.injEq, reduceCtorEq, false_and, false_iff]
            rintro ⟨-, -, checked, -⟩
            exact fails checked rfl
        | ok transcript =>
            obtain ⟨checked, same⟩ := (loop transcript).mp looped
            change transcript = caseTranscript context caseId at same
            subst same
            simp only [bind, Except.bind, pure, Except.pure]
            by_cases equal : (case.get "request_transcript").typedEqual
                (.list (caseTranscript context caseId)) = true
            · rw [if_neg (not_not.mpr equal)]
              simp only [Except.ok.injEq, AdmissionDecision.mk.injEq, true_and]
              exact ⟨fun same => ⟨same.symm, checked, equal⟩, fun ⟨same, _⟩ => same.symm⟩
            · rw [if_pos equal]
              simp only [Except.ok.injEq, AdmissionDecision.mk.injEq, reduceCtorEq, false_and,
                false_iff]
              rintro ⟨-, -, -, here⟩
              exact equal here
  · have fails : ¬ ((caseInvocations context caseId).length =
        (binding.operations.map String.toList).length ∧
        (byOperation (caseInvocations context caseId)).map (·.1) =
          binding.operations.map String.toList) := by
      rintro ⟨counted, keys⟩
      apply operations
      rw [← keys, byOperation_of_keys counted keys, List.map_map]
      rfl
    simp only [operations, false_and, and_false, iff_false]
    intro passed
    split at passed
    · cases passed
    · split at passed
      · cases passed
      · rename_i counted keys
        exact fails ⟨not_not.mp counted, not_not.mp keys⟩

/-- A bound case passes exactly if the facts it expects are those it states and its invocations
pass. -/
theorem admitBound_passed_iff {case : Obj} {caseId : Str} {binding : CaseBinding}
    {context : AdmissionContext} {code : DecisionCode} :
    admitBound case caseId binding context = .ok ⟨.passed, code⟩ ↔
      (∃ expected, expectedFacts caseId context = some expected ∧
        (case.get "status").eqStr "passed".toList = true ∧
        (case.get "evidence_kind").eqStr binding.evidenceKind.toList = true ∧
        (case.get "expected").typedEqual expected = true ∧
        (case.get "actual").typedEqual expected = true) ∧
      admitInvocations case caseId binding context = .ok ⟨.passed, code⟩ := by
  unfold admitBound
  cases facts : expectedFacts caseId context with
  | none => simp
  | some expected =>
      simp only [Option.some.injEq, exists_eq_left']
      by_cases literal : ¬ (case.get "status").eqStr "passed".toList = true ∨
          ¬ (case.get "evidence_kind").eqStr binding.evidenceKind.toList = true ∨
          ¬ (case.get "expected").typedEqual expected = true ∨
          ¬ (case.get "actual").typedEqual expected = true
      · rw [if_pos literal]
        constructor
        · intro wrong
          cases wrong
        · rintro ⟨⟨status, kind, left, right⟩, -⟩
          rcases literal with absent | absent | absent | absent
          · exact (absent status).elim
          · exact (absent kind).elim
          · exact (absent left).elim
          · exact (absent right).elim
      · rw [if_neg literal]
        simp only [not_or, not_not] at literal
        exact ⟨fun passed => ⟨literal, passed⟩, fun ⟨_, passed⟩ => passed⟩

/-- A case of the service runtime never passes. -/
theorem admitServiceRuntime_not_passed {case : Obj} {caseId : Str} {context : AdmissionContext}
    {code : DecisionCode} : admitServiceRuntime case caseId context ≠ .ok ⟨.passed, code⟩ := by
  unfold admitServiceRuntime
  cases (case.get "status").inSet ["pending", "passed"] with
  | error raised => simp [bind, Except.bind]
  | ok known =>
      simp only [bind, Except.bind, pure, Except.pure]
      intro wrong
      repeat' split at wrong
      all_goals cases wrong

/-- A case passes exactly when everything the validator looks at is in order. -/
theorem admitCase_passed_iff {case : Obj} {context : AdmissionContext} :
    (∃ code, admitCase case context = .ok ⟨.passed, code⟩) ↔
      ∃ caseId binding, Checked case caseId binding context := by
  constructor
  · rintro ⟨code, passed⟩
    unfold admitCase at passed
    split at passed
    · cases passed
    · rename_i shaped
      split at passed
      · cases passed
      · rename_i caseId named
        split at passed
        · cases passed
        · rename_i required
          split at passed
          · cases passed
          · rename_i admissible
            split at passed
            · exact absurd passed admitServiceRuntime_not_passed
            · rename_i notRunnerOwned
              split at passed
              · cases passed
              · rename_i binding bound
                obtain ⟨literals, invoked⟩ := admitBound_passed_iff.mp passed
                obtain ⟨-, operations, checked, transcript⟩ :=
                  (admitInvocations_passed_iff bound).mp invoked
                simp only [not_or, not_not] at shaped
                refine ⟨caseId, binding, ?_⟩
                exact
                  { isDict := shaped.1
                    shape := shaped.2
                    named := named
                    required := not_not.mp required
                    admissible := admissible
                    notRunnerOwned := notRunnerOwned
                    bound := bound
                    literals := literals
                    operations := operations
                    actors := fun invocation inside =>
                      (checkOperation_ok_iff.mp (checked invocation inside)).1
                    sequences := fun invocation inside =>
                      (checkOperation_ok_iff.mp (checked invocation inside)).2.1
                    raw := fun invocation inside =>
                      (checkOperation_ok_iff.mp (checked invocation inside)).2.2
                    transcript := transcript }
  · rintro ⟨caseId, binding, checked⟩
    refine ⟨.accepted, ?_⟩
    unfold admitCase
    rw [if_neg (by simp [checked.isDict, checked.shape]), checked.named]
    dsimp only
    rw [if_neg (not_not.mpr checked.required), checked.admissible]
    dsimp only
    rw [if_neg checked.notRunnerOwned, checked.bound]
    apply admitBound_passed_iff.mpr
    refine ⟨checked.literals, (admitInvocations_passed_iff checked.bound).mpr ⟨rfl,
      checked.operations, fun invocation inside => ?_, checked.transcript⟩⟩
    exact checkOperation_ok_iff.mpr ⟨checked.actors invocation inside,
      checked.sequences invocation inside, checked.raw invocation inside⟩

/-! ### The kind of the evidence -/

/-- The test of keys is about the set of keys. -/
theorem hasKeys_eq_true_iff {value : Obj} {keys : List String} :
    value.hasKeys keys = true ↔ ∃ type fields, value = .mapping type fields ∧
      ∀ key, key ∈ fields.map (·.1) ↔ key ∈ keys.map String.toList := by
  cases value with
  | mapping type fields =>
      simp only [Obj.hasKeys, Bool.and_eq_true, List.all_eq_true, List.contains_iff_mem,
        Obj.mapping.injEq]
      constructor
      · rintro ⟨inside, outside⟩
        refine ⟨type, fields, ⟨rfl, rfl⟩, fun key => ⟨fun held => ?_, outside key⟩⟩
        obtain ⟨member, here, rfl⟩ := List.mem_map.mp held
        exact inside member here
      · rintro ⟨_, _, ⟨rfl, rfl⟩, same⟩
        refine ⟨fun member here => ?_, fun key listed => (same key).mpr listed⟩
        exact (same member.1).mp (List.mem_map.mpr ⟨member, here, rfl⟩)
  | none | bool | int | float | str | list | tuple => simp [Obj.hasKeys]

/-- A payload of facts has no specialised schema: no schema has its key `case_id`. -/
theorem specializedSchema_generic {payload : Obj} (generic : payload.hasKeys genericKeys = true) :
    specializedSchema payload = none := by
  have foreign : ∀ schema ∈ specializedPayloads,
      "case_id".toList ∉ schema.2.map String.toList := by decide
  rw [specializedSchema, Option.map_eq_none_iff, List.find?_eq_none]
  intro schema listed specialised
  obtain ⟨type, fields, rfl, same⟩ := hasKeys_eq_true_iff.mp generic
  obtain ⟨_, _, equal, other⟩ := hasKeys_eq_true_iff.mp specialised
  cases equal
  have held : "case_id".toList ∈ fields.map (·.1) := (same _).mpr (by decide)
  exact foreign schema listed ((other _).mp held)

/-- A payload that passes states the facts of its case. -/
theorem validateFacts_ok {payload : Obj} {context : AdmissionContext}
    {invocation : AdmittedInvocation} {caseId : Str}
    (generic : payload.hasKeys genericKeys = true)
    (valid : validateFacts payload context invocation caseId = .ok none) :
    StatesFacts context caseId payload := by
  unfold validateFacts at valid
  split at valid
  · cases valid
  · cases requests : validateRequests invocation.operation (payload.get "requests") with
    | error raised =>
        rw [requests] at valid
        cases valid
    | ok passed =>
        simp only [requests, bind, Except.bind, pure, Except.pure] at valid
        split at valid
        · cases valid
        · split at valid
          · cases valid
          · rename_i cleanup
            simp only [not_or, not_not] at cleanup
            split at valid
            · cases valid
            · rename_i expected facts
              split at valid
              · cases valid
              · rename_i stated
                exact ⟨generic, ⟨expected, facts, not_not.mp stated⟩, cleanup.2⟩

/-- Evidence that passes is a payload of facts or of some specialised kind. -/
theorem validateRaw_ok {raw : Obj} {context : AdmissionContext} {invocation : AdmittedInvocation}
    {caseId : Str} (valid : validateRaw raw context invocation caseId = .ok none) :
    StatesFacts context caseId (raw.get "payload") ∨
      ∃ schemaId, specializedSchema (raw.get "payload") = some schemaId := by
  unfold validateRaw at valid
  split at valid
  · cases valid
  · dsimp only at valid
    split at valid
    · cases valid
    · split at valid
      · rename_i generic
        exact .inl (validateFacts_ok generic valid)
      · split at valid
        · cases valid
        · rename_i schemaId found
          exact .inr ⟨schemaId, found⟩

/-- A passed case rests on the evidence its binding describes exactly when every specialised payload
of a case in order is of a kind that the binding declares. -/
theorem passed_evidence_declared_iff (case : Obj) (context : AdmissionContext) :
    ((∃ code, admitCase case context = .ok ⟨.passed, code⟩) →
        ∃ caseId binding, (case.get "id").asStr = some caseId ∧
          caseBinding caseId = some binding ∧ Evidenced case caseId binding context) ↔
      ∀ caseId binding, Checked case caseId binding context →
        ∀ invocation ∈ caseInvocations context caseId, ∀ schemaId,
          specializedSchema (evidencePayload context invocation) = some schemaId →
            schemaId ∈ binding.schemaIds := by
  constructor
  · intro claim caseId binding checked invocation inside schemaId found
    obtain ⟨other, otherBinding, named, bound, evidenced⟩ :=
      claim (admitCase_passed_iff.mpr ⟨caseId, binding, checked⟩)
    rw [checked.named] at named
    cases named
    rw [checked.bound] at bound
    cases bound
    rcases evidenced.payloads invocation inside with facts | ⟨declared, listed, same⟩
    · rw [specializedSchema_generic facts.1] at found
      cases found
    · rw [found] at same
      cases same
      exact listed
  · intro declared passed
    obtain ⟨caseId, binding, checked⟩ := admitCase_passed_iff.mp passed
    refine ⟨caseId, binding, checked.named, checked.bound, ?_⟩
    refine
      { operations := checked.operations
        actors := checked.actors
        sequences := checked.sequences
        payloads := fun invocation inside => ?_
        transcript := checked.transcript }
    rcases validateRaw_ok (checked.raw invocation inside).2 with facts | ⟨schemaId, found⟩
    · exact .inl facts
    · exact .inr ⟨schemaId, declared caseId binding checked invocation inside schemaId found, found⟩

/-! ### Evidence of an undeclared kind -/

/-- A string of one character repeated to the length of a digest. -/
def repeatedDigest (c : Char) : Obj := .str (List.replicate 64 c)

def sampleSession : Str := "11111111-1111-4111-8111-111111111111".toList

def sampleBinding : Obj :=
  .ofFields [("path", .str "/evidence".toList), ("sha256", repeatedDigest 'a')]

/-- A payload of the kind `edge_cleanup_v1`. -/
def cleanupPayload : Obj :=
  .ofFields [("resource_id", .str "spool".toList), ("acquired", sampleBinding),
    ("stop", sampleBinding), ("current_absence", sampleBinding), ("retention", sampleBinding),
    ("status", .str "clean".toList), ("errors", .list [])]

/-- The raw evidence of one invocation around a payload. -/
def sampleRaw (invocation : AdmittedInvocation) (sequence : Int) (payload : Obj) : Obj :=
  .ofFields [("schema_version", .int 1), ("session_id", .str sampleSession),
    ("cell_id", .str "edge_v2__debian13_amd64".toList), ("instance_nonce", repeatedDigest 'd'),
    ("session_input_sha256", repeatedDigest 'e'), ("actor_id", .str invocation.actorId),
    ("invocation_id", .str invocation.id), ("stage", .str invocation.operation),
    ("observation", .ofFields [("session_sequence", .int sequence),
      ("proof_sha256", repeatedDigest 'f')]),
    ("payload", payload)]

def positiveInvocation : AdmittedInvocation :=
  { id := "invocation-1".toList
    caseId := "edge_mtls_bearer_identity".toList
    actorId := "edge_producer".toList
    operation := "deliver_positive".toList
    sessionSequenceBefore := .int 1
    sessionSequenceAfter := .int 2
    evidenceId := "evidence-1".toList }

def negativeInvocation : AdmittedInvocation :=
  { id := "invocation-2".toList
    caseId := "edge_mtls_bearer_identity".toList
    actorId := "edge_normal".toList
    operation := "negative_auth".toList
    sessionSequenceBefore := .int 2
    sessionSequenceAfter := .int 3
    evidenceId := "evidence-2".toList }

/-- The context of the mutual TLS case with one payload as the evidence of both operations. -/
def mtlsContext (payload : Obj) : AdmissionContext :=
  { adapterId := adapterId
    cellId := "edge_v2__debian13_amd64".toList
    sessionId := sampleSession
    header := .ofFields [("product_version", .str productVersion),
      ("profile_id", .str "hub-http-v1".toList), ("profile_revision", .str "1.0.0".toList),
      ("profile_sha256", repeatedDigest 'c')]
    actors := actorContract.map fun member => (member.1.toList,
      { kind := member.2.kind.toList
        runtimeRef := member.2.runtimeRef.toList
        entrypointRef := member.2.entrypointRef.toList
        artifactRoles := member.2.artifactRoles.map String.toList
        sourceRoles := member.2.sourceRoles.map String.toList
        installedManifest := .ofFields [("sha256", repeatedDigest 'a')]
        runtime := .ofFields [] })
    invocations := [positiveInvocation, negativeInvocation]
    raw := [("evidence-1".toList, sampleRaw positiveInvocation 2 payload),
      ("evidence-2".toList, sampleRaw negativeInvocation 3 payload)]
    controllerObservations := [(1, .ofFields []), (2, .ofFields []), (3, .ofFields [])] }

def mtlsCase : Obj :=
  let facts := .ofFields [("mtls_verified", .bool true), ("bearer_identity_verified", .bool true)]
  .ofFields [("id", .str "edge_mtls_bearer_identity".toList), ("status", .str "passed".toList),
    ("expected", facts), ("actual", facts), ("evidence_kind", .str "http".toList),
    ("request_transcript", .list [])]

/-- The mutual TLS case declares `edge_http_v1` evidence and passes on two cleanup receipts. -/
theorem mtlsCase_passes_on_cleanup :
    admitCase mtlsCase (mtlsContext cleanupPayload) = .ok ⟨.passed, .accepted⟩ ∧
      ¬ ∃ caseId binding, (mtlsCase.get "id").asStr = some caseId ∧
        caseBinding caseId = some binding ∧
          Evidenced mtlsCase caseId binding (mtlsContext cleanupPayload) := by
  refine ⟨by rfl, ?_⟩
  rintro ⟨caseId, binding, named, bound, evidenced⟩
  have caseIs : caseId = "edge_mtls_bearer_identity".toList := (Option.some.inj named).symm
  subst caseIs
  have bindingIs : binding.schemaIds = ["edge_http_v1"] := by
    rw [← Option.some.inj bound]
  have inside : positiveInvocation ∈
      caseInvocations (mtlsContext cleanupPayload) "edge_mtls_bearer_identity".toList :=
    List.mem_cons_self
  rcases evidenced.payloads positiveInvocation inside with facts | ⟨schemaId, listed, found⟩
  · exact absurd facts.1 (by decide)
  · have cleanup : specializedSchema (evidencePayload (mtlsContext cleanupPayload)
        positiveInvocation) = some "edge_cleanup_v1" := by rfl
    rw [cleanup] at found
    rw [bindingIs, ← Option.some.inj found] at listed
    exact absurd listed (by decide)

end TeslatlasEdge.Interop
