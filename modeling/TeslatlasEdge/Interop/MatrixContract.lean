/-
Module: TeslatlasEdge.Interop.MatrixContract
Purpose: The admission of one case of the installed matrix, as `matrix_contract.py` decides it: the
  runner's context, the case, the invocations and the raw evidence of each operation.
Trusted boundary: human-reviewed embedding; fields of the runner's dataclasses have their declared
  types, except those whose type the validator tests, which are arbitrary values
Main exports: AdmissionContext, CaseBinding, caseBindings, validateRaw, admitCase
-/
import TeslatlasEdge.Interop.Python

namespace TeslatlasEdge.Interop

def adapterId : Str := "edge_v2".toList

def productVersion : Str := "2026.36.2".toList

def actorIds : List Str :=
  ["installed_controller", "edge_normal", "edge_producer", "edge_reference", "edge_fault",
    "edge_transport"].map String.toList

def requiredCases : List Str :=
  ["candidate_artifact_identity", "installed_service_runtime", "edge_linux_runtime",
    "edge_mtls_bearer_identity", "edge_no_v1_downgrade", "edge_source_owner_exclusivity",
    "edge_uninterrupted_delivery_parity", "edge_restart_delivery_parity",
    "edge_duplicate_reenqueue_dedup", "edge_gap_interleaving_later_ack_rejected",
    "edge_unsupported_event_bounded_disposition", "edge_conflicting_identity_blocks_ack",
    "edge_transaction_fault_redelivery", "edge_lost_ack_body_redelivery",
    "edge_pending_publication_offline_recovery", "edge_clean_shutdown_resume"].map String.toList

/-- The members of `DECISION_CODES` that a decision can carry. -/
inductive DecisionCode where
  | accepted
  | runnerOwnedServiceRuntime
  | caseShape
  | unknownCase
  | wrongContext
  | wrongActor
  | wrongSourceRole
  | wrongArtifactRole
  | installedManifestMismatch
  | invocationMissing
  | operationMismatch
  | sequenceMismatch
  | rawMissing
  | rawIdentityMismatch
  | rawFactMismatch
  | requestMismatch
  | literalMismatch
  | cleanupFailure
deriving Repr, DecidableEq

inductive DecisionStatus where
  | passed
  | failed
  | pending
deriving Repr, DecidableEq

structure AdmissionDecision where
  status : DecisionStatus
  code : DecisionCode
deriving Repr, DecidableEq

/-! ### The runner's views -/

structure AdmittedActor where
  kind : Str
  runtimeRef : Str
  entrypointRef : Str
  artifactRoles : List Str
  sourceRoles : List Str
  installedManifest : Obj
  runtime : Obj

structure AdmittedInvocation where
  id : Str
  caseId : Str
  actorId : Str
  operation : Str
  sessionSequenceBefore : Obj
  sessionSequenceAfter : Obj
  evidenceId : Str

structure AdmissionContext where
  adapterId : Str
  cellId : Str
  sessionId : Str
  header : Obj
  actors : List (Str × AdmittedActor)
  invocations : List AdmittedInvocation
  raw : List (Str × Obj)
  controllerObservations : List (Int × Obj)

namespace AdmissionContext

/-- `context.actors.get`. -/
def actor (context : AdmissionContext) (actorId : Str) : Option AdmittedActor :=
  (context.actors.find? fun member => member.1 = actorId).map (·.2)

/-- `sequence in context.controller_observations`. -/
def observed (context : AdmissionContext) (sequence : Int) : Bool :=
  (context.controllerObservations.map (·.1)).contains sequence

end AdmissionContext

/-! ### Tables -/

structure ActorContract where
  kind : String
  runtimeRef : String
  entrypointRef : String
  artifactRoles : List String
  sourceRoles : List String

/-- `ACTOR_CONTRACT`, in the order of `ACTOR_IDS`. -/
def actorContract : List (String × ActorContract) :=
  [("installed_controller",
      ⟨"installed_controller", "root_controller", "installed_controller", ["hub_executable"],
        ["hub_source", "protocol_source"]⟩),
    ("edge_normal",
      ⟨"edge_normal", "root_python", "edge_matrix", [], ["hub_source", "protocol_source"]⟩),
    ("edge_producer",
      ⟨"edge_normal", "edge_linux", "edge_producer", ["edge_executable"],
        ["edge_source", "protocol_source"]⟩),
    ("edge_reference",
      ⟨"edge_normal", "hub_target_aux", "edge_reference", ["hub_executable"],
        ["hub_source", "protocol_source"]⟩),
    ("edge_fault",
      ⟨"edge_fault", "hub_target_aux", "edge_fault", [], ["hub_source", "protocol_source"]⟩),
    ("edge_transport",
      ⟨"edge_fault", "edge_linux", "edge_negative_transport", [],
        ["hub_source", "protocol_source"]⟩)]

structure CaseBinding where
  actorIds : List String
  operations : List String
  evidenceKind : String
  schemaIds : List String

/-- `CASE_BINDINGS`. -/
def caseBindings : List (String × CaseBinding) :=
  [("candidate_artifact_identity",
      ⟨["installed_controller", "edge_producer"], ["observe_identity"], "identity",
        ["edge_fixture_v1"]⟩),
    ("installed_service_runtime",
      ⟨["installed_controller"], ["observe_identity"], "identity", ["edge_fixture_v1"]⟩),
    ("edge_linux_runtime",
      ⟨["edge_producer"], ["observe_runtime"], "identity", ["edge_fixture_v1"]⟩),
    ("edge_mtls_bearer_identity",
      ⟨["edge_producer", "edge_normal", "edge_transport"], ["deliver_positive", "negative_auth"],
        "http", ["edge_http_v1"]⟩),
    ("edge_no_v1_downgrade",
      ⟨["edge_reference", "edge_transport"],
        ["negative_v1_404", "negative_v1_body", "negative_redirect"], "http", ["edge_http_v1"]⟩),
    ("edge_source_owner_exclusivity",
      ⟨["installed_controller", "edge_reference"], ["observe_owner"], "identity",
        ["edge_fixture_v1", "edge_cleanup_v1"]⟩),
    ("edge_uninterrupted_delivery_parity",
      ⟨["edge_reference", "edge_producer", "edge_normal"], ["reference_delivery"], "http",
        ["edge_checkpoint_v1", "edge_snapshot_v1"]⟩),
    ("edge_restart_delivery_parity",
      ⟨["installed_controller", "edge_producer", "edge_normal"], ["restart_delivery"], "http",
        ["edge_checkpoint_v1", "edge_snapshot_v1"]⟩),
    ("edge_duplicate_reenqueue_dedup",
      ⟨["edge_producer", "edge_normal"], ["duplicate_reenqueue"], "http",
        ["edge_checkpoint_v1", "edge_snapshot_v1"]⟩),
    ("edge_gap_interleaving_later_ack_rejected",
      ⟨["edge_producer", "edge_normal"], ["gap_prepare", "gap_reject", "gap_consume"], "http",
        ["edge_checkpoint_v1", "edge_http_v1", "edge_snapshot_v1"]⟩),
    ("edge_unsupported_event_bounded_disposition",
      ⟨["edge_producer", "edge_normal"], ["unsupported_event"], "http",
        ["edge_checkpoint_v1", "edge_snapshot_v1"]⟩),
    ("edge_conflicting_identity_blocks_ack",
      ⟨["edge_reference", "edge_transport"], ["conflicting_identity"], "http",
        ["edge_http_v1", "edge_snapshot_v1"]⟩),
    ("edge_transaction_fault_redelivery",
      ⟨["edge_fault", "edge_producer"],
        ["fault_raw_insert", "fault_lifecycle_write", "fault_receipt_insert",
          "fault_frontier_update", "fault_commit", "fault_before_commit", "fault_after_commit"],
        "http", ["edge_fault_v1", "edge_checkpoint_v1", "edge_snapshot_v1"]⟩),
    ("edge_lost_ack_body_redelivery",
      ⟨["edge_fault", "edge_producer"], ["fault_lost_ack"], "http",
        ["edge_fault_v1", "edge_checkpoint_v1"]⟩),
    ("edge_pending_publication_offline_recovery",
      ⟨["edge_fault", "edge_producer"], ["fault_offline_recovery"], "http",
        ["edge_fault_v1", "edge_snapshot_v1", "edge_cleanup_v1"]⟩),
    ("edge_clean_shutdown_resume",
      ⟨["installed_controller", "edge_producer", "edge_normal"],
        ["resume_stop", "resume_start", "actors_closed"], "identity",
        ["edge_cleanup_v1", "edge_checkpoint_v1"]⟩)]

/-- `CASE_BINDINGS[case_id]`. -/
def caseBinding (caseId : Str) : Option CaseBinding :=
  (caseBindings.find? fun member => member.1.toList = caseId).map (·.2)

/-- `STATIC_FACTS`. -/
def staticFacts : List (String × Obj) :=
  [("edge_mtls_bearer_identity",
      .ofFields [("mtls_verified", .bool true), ("bearer_identity_verified", .bool true)]),
    ("edge_no_v1_downgrade", .ofFields [("v2_attempted", .bool true), ("v1_requests", .int 0)]),
    ("edge_source_owner_exclusivity",
      .ofFields [("selected_source", .str "fleet".toList),
        ("active_ingestion_authorities", .int 1)]),
    ("edge_uninterrupted_delivery_parity",
      .ofFields [("public_current_equal", .bool true), ("history_equal", .bool true)]),
    ("edge_restart_delivery_parity",
      .ofFields [("public_current_equal", .bool true), ("history_equal", .bool true),
        ("restart_observed", .bool true)]),
    ("edge_duplicate_reenqueue_dedup",
      .ofFields [("duplicate_reenqueued", .bool true), ("duplicate_rows_added", .int 0)]),
    ("edge_gap_interleaving_later_ack_rejected",
      .ofFields [("later_ack_rejected", .bool true), ("contiguous_prefix_preserved", .bool true)]),
    ("edge_unsupported_event_bounded_disposition",
      .ofFields [("unsupported_event_disposition", .str "projection_unsupported".toList),
        ("bounded", .bool true)]),
    ("edge_conflicting_identity_blocks_ack",
      .ofFields [("conflict_observed", .bool true), ("ack_blocked", .bool true)]),
    ("edge_transaction_fault_redelivery",
      .ofFields [("fault_injected", .bool true), ("ack_absent", .bool true),
        ("redelivered", .bool true)]),
    ("edge_lost_ack_body_redelivery",
      .ofFields [("ack_committed", .bool true), ("body_lost", .bool true),
        ("redelivered_without_duplicate", .bool true)]),
    ("edge_pending_publication_offline_recovery",
      .ofFields [("offline_commit_durable", .bool true), ("publication_recovered", .bool true)]),
    ("edge_clean_shutdown_resume",
      .ofFields [("clean_shutdown", .bool true), ("resume_contiguous", .bool true)])]

/-! ### The context -/

/-- One round of the loop over `ACTOR_IDS` in `_validate_context`. -/
def validateActor (context : AdmissionContext) (expected : String × ActorContract) :
    Option DecisionCode :=
  match context.actor expected.1.toList with
  | none => some .wrongActor
  | some actor =>
      if actor.kind ≠ expected.2.kind.toList ∨ actor.runtimeRef ≠ expected.2.runtimeRef.toList ∨
          actor.entrypointRef ≠ expected.2.entrypointRef.toList then
        some .wrongActor
      else if actor.artifactRoles ≠ expected.2.artifactRoles.map String.toList then
        some .wrongArtifactRole
      else if actor.sourceRoles ≠ expected.2.sourceRoles.map String.toList then
        some .wrongSourceRole
      else
        match actor.installedManifest with
        | .mapping _ (_ :: _) => none
        | _ => some .installedManifestMismatch

/-- `_validate_context`. -/
def validateContext (context : AdmissionContext) : Option DecisionCode :=
  if context.adapterId ≠ adapterId ∨
      context.cellId ∉ ["edge_v2__macos_arm64", "edge_v2__debian13_amd64",
        "edge_v2__debian13_arm64"].map String.toList ∨
      ¬ validUuid (.str context.sessionId) then
    some .wrongContext
  else if ¬ context.header.isMapping ∨
      ¬ (context.header.get "product_version").eqStr productVersion ∨
      ¬ (context.header.get "profile_id").eqStr "hub-http-v1".toList ∨
      ¬ (context.header.get "profile_revision").eqStr "1.0.0".toList then
    some .wrongContext
  else if ¬ validDigest (context.header.get "profile_sha256") then
    some .wrongContext
  else if context.actors.map (·.1) ≠ actorIds then
    some .wrongActor
  else
    actorContract.findSome? (validateActor context)

/-- `_value(context.actors.get("edge_producer"), "runtime")`. -/
def producerRuntime (context : AdmissionContext) : Obj :=
  match context.actor "edge_producer".toList with
  | some actor => actor.runtime
  | none => .none

/-- `_expected_facts`. -/
def expectedFacts (caseId : Str) (context : AdmissionContext) : Option Obj :=
  if caseId = "candidate_artifact_identity".toList then
    let artifact := (producerRuntime context).get "artifact"
    if ¬ artifact.isMapping ∨ ¬ validDigest (artifact.get "sha256") ∨
        ¬ (artifact.get "version").eqStr productVersion ∨
        ¬ (artifact.get "storage_format").eqInt 3 then
      none
    else
      some (.ofFields [("edge_sha256", artifact.get "sha256"),
        ("product_version", .str productVersion), ("storage_format", .int 3),
        ("normal_fault_distinct", .bool (artifact.get "normal_fault_distinct").isTrue)])
  else if caseId = "installed_service_runtime".toList then
    let mode := ((context.header.get "runtime").get "hub").get "service_mode"
    if mode.isFilledStr then some (.ofFields [("service_mode", mode)]) else none
  else if caseId = "edge_linux_runtime".toList then
    let runtime := producerRuntime context
    if ¬ runtime.isMapping ∨ ¬ (runtime.get "process_bound").isTrue ∨
        ¬ (runtime.get "namespace_bound").isTrue ∨ (runtime.get "architecture").asStr = none then
      none
    else
      some (.ofFields [("process_bound", .bool true), ("namespace_bound", .bool true),
        ("architecture", runtime.get "architecture")])
  else
    (staticFacts.find? fun member => member.1.toList = caseId).map (·.2)

/-! ### Requests -/

/-- The loop of `_validate_requests`; `ids` are the identifiers met so far. -/
def validateRequestItems (ids : List Str) : List Obj → Except PyException Bool
  | [] => .ok true
  | request :: requests => do
      if ¬ request.hasKeys ["request_id", "method", "route", "status"] then return false
      match (request.get "request_id").asStr with
      | none => return false
      | some id =>
          if id = [] ∨ id ∈ ids then return false
          if ¬ (← (request.get "method").inSet ["GET", "POST"]) then return false
          match (request.get "route").asStr, (request.get "status").asInt with
          | some route, some status =>
              if ¬ "/".toList <+: route then return false
              if ¬ (100 ≤ status ∧ status ≤ 599) then return false
              validateRequestItems (id :: ids) requests
          | _, _ => return false

/-- `_validate_requests`. -/
def validateRequests (operation : Str) (requests : Obj) : Except PyException Bool :=
  match requests.asList with
  | none => .ok false
  | some items =>
      if items.length > 128 then .ok false
      else do
        if ¬ (← validateRequestItems [] items) then return false
        return ! (decide ("negative_v1".toList <+: operation) && items.any fun item =>
          match (item.get "route").asStr with
          | some route => decide ("/v1/".toList <:+: route)
          | none => false)

/-! ### Specialised payloads -/

/-- `_SPECIALIZED_PAYLOADS`. -/
def specializedPayloads : List (String × List String) :=
  [("edge_fixture_v1",
      ["seal_sha256", "http_profile_sha256", "edge_profile_sha256", "primary_context_sha256",
        "baseline_clone_equal", "custody_manifest_sha256", "root_runtime_observation",
        "root_transport_observation"]),
    ("edge_checkpoint_v1",
      ["lane", "frontier", "applications", "sequences", "pending_publications", "batch",
        "dispositions", "snapshot", "public_current", "producer_generation_sha256",
        "hub_generation_sha256", "ack_census"]),
    ("edge_http_v1", ["role", "transcript", "tls", "transport_failures", "census"]),
    ("edge_fault_v1",
      ["point", "witness", "witness_text", "process", "before", "after", "delivery_before",
        "delivery_after", "publication_witness"]),
    ("edge_snapshot_v1",
      ["lane", "store_id", "store_schema_version", "selector_sha256", "current",
        "retained_observations", "lifecycle", "accumulator_jcs", "applications", "dispositions",
        "materialised_states", "open_rows", "sync_mutations", "counts"]),
    ("edge_cleanup_v1",
      ["resource_id", "acquired", "stop", "current_absence", "retention", "status", "errors"])]

/-- `_specialized_schema`. -/
def specializedSchema (payload : Obj) : Option String :=
  (specializedPayloads.find? fun schema => payload.hasKeys schema.2).map (·.1)

/-- `_valid_binding`. -/
def validBinding (value : Obj) : Bool :=
  value.hasKeys ["path", "sha256"] &&
    (match (value.get "path").asStr with
      | some path => decide ("/".toList <+: path)
      | none => false) &&
    validDigest (value.get "sha256")

/-- A binding that may be missing. -/
def validOptionalBinding (value : Obj) : Bool := value.isNone || validBinding value

/-- The four fields of a request that a transcript keeps. -/
def transcriptItem (item : Obj) : Obj :=
  .ofFields (["request_id", "method", "route", "status"].map fun key => (key, item.get key))

def natural (value : Obj) : Bool :=
  match value.asInt with
  | some n => decide (0 ≤ n)
  | none => false

def validateFixture (payload : Obj) : Option DecisionCode :=
  if ¬ (payload.get "baseline_clone_equal").isTrue ∨
      ¬ (["seal_sha256", "http_profile_sha256", "edge_profile_sha256", "primary_context_sha256",
        "custody_manifest_sha256"].all fun key => validDigest (payload.get key)) ∨
      ¬ validBinding (payload.get "root_runtime_observation") ∨
      ¬ validBinding (payload.get "root_transport_observation") then
    some .rawFactMismatch
  else none

def validateCheckpoint (payload : Obj) : Except PyException (Option DecisionCode) := do
  if ¬ (← (payload.get "lane").inSet ["primary", "reference", "fault", "negative"]) then
    return some .rawFactMismatch
  if ¬ (["applications", "sequences", "pending_publications"].all
        fun key => (payload.get key).asInt.isSome) ∨
      ¬ (["batch", "dispositions", "snapshot", "ack_census"].all
        fun key => validBinding (payload.get key)) ∨
      ¬ validOptionalBinding (payload.get "public_current") ∨
      ¬ (["producer_generation_sha256", "hub_generation_sha256"].all
        fun key => validDigest (payload.get key)) then
    return some .rawFactMismatch
  return none

def validateHttp (payload : Obj) (operation : Str) : Except PyException (Option DecisionCode) := do
  if ¬ (← (payload.get "role").inSet ["hub_public", "edge_delivery", "negative_responder"]) then
    return some .rawFactMismatch
  match (payload.get "transcript").asList with
  | none => return some .rawFactMismatch
  | some transcript =>
      if transcript.length > 128 then return some .rawFactMismatch
      if ¬ (transcript.all fun item =>
          item.hasKeys ["request_id", "method", "route", "status", "request_body_sha256",
            "response_body"] && validBinding (item.get "response_body")) then
        return some .rawFactMismatch
      let tls := payload.get "tls"
      if ¬ tls.hasKeys ["server_der_sha256", "client_der_sha256", "chain_verified",
            "hostname_verified"] ∨
          ¬ validDigest (tls.get "server_der_sha256") ∨
          ¬ ((tls.get "client_der_sha256").isNone ∨ validDigest (tls.get "client_der_sha256")) then
        return some .rawFactMismatch
      if ¬ (← validateRequests operation (.list (transcript.map transcriptItem))) then
        return some .requestMismatch
      let census := payload.get "census"
      match (payload.get "transport_failures").asList with
      | none => return some .rawFactMismatch
      | some failures =>
          if failures.length > 32 ∨
              ¬ census.hasKeys ["v2_gets", "v2_acks", "v1_requests", "redirect_requests"] ∨
              ¬ (["v2_gets", "v2_acks", "v1_requests", "redirect_requests"].all
                fun key => natural (census.get key)) then
            return some .rawFactMismatch
          if "negative_v1".toList <+: operation ∧ ¬ (census.get "v1_requests").eqInt 0 then
            return some .requestMismatch
          return none

def validateFault (payload : Obj) : Except PyException (Option DecisionCode) := do
  if ¬ (← (payload.get "point").inSet ["raw_insert", "lifecycle_write", "receipt_insert",
      "frontier_update", "commit", "before_commit", "after_commit",
      "after_ack_accepted_before_response"]) then
    return some .rawFactMismatch
  match (payload.get "witness_text").asStr with
  | none => return some .rawFactMismatch
  | some text =>
      if ¬ (0 < text.length ∧ text.length ≤ 128) ∨
          ¬ (["witness", "process", "before", "after", "delivery_before", "delivery_after"].all
            fun key => validBinding (payload.get key)) ∨
          ¬ validOptionalBinding (payload.get "publication_witness") then
        return some .rawFactMismatch
      return none

def validateSnapshot (payload : Obj) : Except PyException (Option DecisionCode) := do
  if ¬ (← (payload.get "lane").inSet ["primary", "reference", "fault", "negative"]) then
    return some .rawFactMismatch
  if ¬ validUuid (payload.get "store_id") ∨ ¬ (payload.get "store_schema_version").eqInt 59 ∨
      ¬ validDigest (payload.get "selector_sha256") then
    return some .rawFactMismatch
  match (payload.get "accumulator_jcs").asStr with
  | none => return some .rawFactMismatch
  | some text =>
      if text.bytes.length > 1048576 then return some .rawFactMismatch
      if ¬ (["current", "retained_observations", "applications", "dispositions",
          "materialised_states", "open_rows", "sync_mutations"].all fun key =>
            match (payload.get key).asList with
            | some items => decide (items.length ≤ 256)
            | none => false) then
        return some .rawFactMismatch
      let counts := payload.get "counts"
      if ¬ counts.hasKeys ["applications", "sequences", "pending_publications", "ack_frontier"] ∨
          ¬ (["applications", "sequences", "pending_publications"].all
            fun key => natural (counts.get key)) ∨
          ¬ ((counts.get "ack_frontier").isNone ∨ natural (counts.get "ack_frontier")) then
        return some .rawFactMismatch
      return none

def validateCleanup (payload : Obj) : Option DecisionCode :=
  if ¬ (payload.get "resource_id").isFilledStr ∨
      ¬ (["acquired", "stop", "current_absence", "retention"].all
        fun key => validBinding (payload.get key)) ∨
      ¬ (payload.get "status").eqStr "clean".toList ∨
      ¬ (payload.get "errors").isEmptySequence then
    some .cleanupFailure
  else none

/-- `_validate_specialized_payload`. -/
def validateSpecializedPayload (payload : Obj) (schemaId : String) (operation : Str) :
    Except PyException (Option DecisionCode) :=
  if schemaId = "edge_fixture_v1" then .ok (validateFixture payload)
  else if schemaId = "edge_checkpoint_v1" then validateCheckpoint payload
  else if schemaId = "edge_http_v1" then validateHttp payload operation
  else if schemaId = "edge_fault_v1" then validateFault payload
  else if schemaId = "edge_snapshot_v1" then validateSnapshot payload
  else if schemaId = "edge_cleanup_v1" then .ok (validateCleanup payload)
  else .ok none

/-! ### Raw evidence -/

/-- The keys of the payload that states facts. -/
def genericKeys : List String := ["case_id", "facts", "requests", "cleanup"]

/-- `_transcript_payload`. -/
def transcriptPayload (payload : Obj) : List Obj :=
  if payload.hasKeys genericKeys then ((payload.get "requests").asList).getD []
  else if specializedSchema payload = some "edge_http_v1" then
    (((payload.get "transcript").asList).getD []).map transcriptItem
  else []

/-- The part of `_validate_raw` that reads the envelope of the evidence. -/
def validateEnvelope (raw : Obj) (context : AdmissionContext) (invocation : AdmittedInvocation) :
    Option DecisionCode :=
  if ¬ raw.hasKeys ["schema_version", "session_id", "cell_id", "instance_nonce",
      "session_input_sha256", "actor_id", "invocation_id", "stage", "observation", "payload"] then
    some .rawIdentityMismatch
  else if ¬ (raw.get "schema_version").eqInt 1 ∨
      ¬ (raw.get "session_id").eqStr context.sessionId ∨
      ¬ (raw.get "cell_id").eqStr context.cellId ∨ ¬ validDigest (raw.get "instance_nonce") ∨
      ¬ validDigest (raw.get "session_input_sha256") ∨
      ¬ (raw.get "actor_id").eqStr invocation.actorId ∨
      ¬ (raw.get "invocation_id").eqStr invocation.id then
    some .rawIdentityMismatch
  else
    let observation := raw.get "observation"
    if ¬ observation.hasKeys ["session_sequence", "proof_sha256"] then some .rawIdentityMismatch
    else
      match (observation.get "session_sequence").asInt with
      | none => some .rawIdentityMismatch
      | some sequence =>
          if sequence ≤ 0 ∨ ¬ validDigest (observation.get "proof_sha256") then
            some .rawIdentityMismatch
          else if ¬ invocation.sessionSequenceAfter.eqInt sequence then some .sequenceMismatch
          else none

/-- The part of `_validate_raw` that reads a payload of facts. -/
def validateFacts (payload : Obj) (context : AdmissionContext) (invocation : AdmittedInvocation)
    (caseId : Str) : Except PyException (Option DecisionCode) := do
  if ¬ (payload.get "case_id").eqStr caseId then return some .requestMismatch
  if ¬ (← validateRequests invocation.operation (payload.get "requests")) then
    return some .requestMismatch
  let cleanup := payload.get "cleanup"
  if ¬ cleanup.isMapping ∨ ¬ (cleanup.get "status").eqStr "clean".toList ∨
      ¬ (cleanup.get "errors").isEmptySequence then
    return some .cleanupFailure
  match expectedFacts caseId context with
  | none => return some .rawFactMismatch
  | some expected =>
      if ¬ (payload.get "facts").typedEqual expected then return some .rawFactMismatch
      return none

/-- `_validate_raw`. -/
def validateRaw (raw : Obj) (context : AdmissionContext) (invocation : AdmittedInvocation)
    (caseId : Str) : Except PyException (Option DecisionCode) :=
  match validateEnvelope raw context invocation with
  | some problem => .ok (some problem)
  | none =>
      let payload := raw.get "payload"
      if ¬ payload.isMapping then .ok (some .rawFactMismatch)
      else if payload.hasKeys genericKeys then validateFacts payload context invocation caseId
      else
        match specializedSchema payload with
        | none => .ok (some .rawFactMismatch)
        | some schemaId =>
            if schemaId = "edge_fault_v1" ∧ invocation.actorId ≠ "edge_fault".toList then
              .ok (some .wrongActor)
            else validateSpecializedPayload payload schemaId invocation.operation

/-! ### The decision -/

/-- `by_operation[operation] = item` of the dictionary comprehension: a key met again keeps its
place and takes the new value. -/
def setOperation (items : List (Str × AdmittedInvocation)) (invocation : AdmittedInvocation) :
    List (Str × AdmittedInvocation) :=
  if items.any fun member => member.1 = invocation.operation then
    items.map fun member =>
      if member.1 = invocation.operation then (member.1, invocation) else member
  else items ++ [(invocation.operation, invocation)]

def byOperation (invocations : List AdmittedInvocation) : List (Str × AdmittedInvocation) :=
  invocations.foldl setOperation []

/-- The evidence that an invocation names. -/
def rawEvidence (context : AdmissionContext) (invocation : AdmittedInvocation) : Obj :=
  (Obj.lookup context.raw invocation.evidenceId).getD .none

/-- The checks of one round of the loop over the operations. -/
def checkOperation (context : AdmissionContext) (caseId : Str) (binding : CaseBinding)
    (invocation : AdmittedInvocation) : Except PyException (Option DecisionCode) :=
  if invocation.actorId ∉ binding.actorIds.map String.toList then .ok (some .wrongActor)
  else
    match invocation.sessionSequenceBefore.asInt, invocation.sessionSequenceAfter.asInt with
    | some before, some after =>
        if before ≤ 0 ∨ after < before ∨ ¬ context.observed before ∨ ¬ context.observed after then
          .ok (some .sequenceMismatch)
        else if ¬ (rawEvidence context invocation).isMapping then .ok (some .rawMissing)
        else validateRaw (rawEvidence context invocation) context invocation caseId
    | _, _ => .ok (some .sequenceMismatch)

/-- The loop over the operations: the first problem, or the transcript. -/
def admitOperations (context : AdmissionContext) (caseId : Str) (binding : CaseBinding)
    (invocations : List (Str × AdmittedInvocation)) :
    List Str → Except PyException (Except DecisionCode (List Obj))
  | [] => .ok (.ok [])
  | operation :: operations =>
      match invocations.find? fun member => member.1 = operation with
      | none => .error .keyError
      | some (_, invocation) => do
          match ← checkOperation context caseId binding invocation with
          | some problem => return .error problem
          | none =>
              match ← admitOperations context caseId binding invocations operations with
              | .error problem => return .error problem
              | .ok transcript =>
                  return .ok (transcriptPayload ((rawEvidence context invocation).get "payload") ++
                    transcript)

/-- The branch of `admit_case` for the case that the runner owns. -/
def admitServiceRuntime (case : Obj) (caseId : Str) (context : AdmissionContext) :
    Except PyException AdmissionDecision := do
  if ¬ (← (case.get "status").inSet ["pending", "passed"]) then return ⟨.failed, .caseShape⟩
  if ¬ (case.get "evidence_kind").eqStr "identity".toList then return ⟨.failed, .caseShape⟩
  match expectedFacts caseId context with
  | none => return ⟨.failed, .literalMismatch⟩
  | some expected =>
      if ¬ (case.get "expected").typedEqual expected ∨
          ¬ (case.get "actual").typedEqual expected then
        return ⟨.failed, .literalMismatch⟩
      return ⟨.pending, .runnerOwnedServiceRuntime⟩

/-- The invocations of one case, in the order of the context. -/
def caseInvocations (context : AdmissionContext) (caseId : Str) : List AdmittedInvocation :=
  context.invocations.filter fun item => item.caseId = caseId

/-- The part of `admit_case` from the invocations on. -/
def admitInvocations (case : Obj) (caseId : Str) (binding : CaseBinding)
    (context : AdmissionContext) : Except PyException AdmissionDecision :=
  let operations := binding.operations.map String.toList
  let invocations := byOperation (caseInvocations context caseId)
  if (caseInvocations context caseId).length ≠ operations.length then
    .ok ⟨.failed, .invocationMissing⟩
  else if invocations.map (·.1) ≠ operations then .ok ⟨.failed, .operationMismatch⟩
  else do
    match ← admitOperations context caseId binding invocations operations with
    | .error problem => return ⟨.failed, problem⟩
    | .ok transcript =>
        if ¬ (case.get "request_transcript").typedEqual (.list transcript) then
          return ⟨.failed, .requestMismatch⟩
        return ⟨.passed, .accepted⟩

/-- The rest of `admit_case`, for a case with its binding. -/
def admitBound (case : Obj) (caseId : Str) (binding : CaseBinding) (context : AdmissionContext) :
    Except PyException AdmissionDecision :=
  match expectedFacts caseId context with
  | none => .ok ⟨.failed, .wrongContext⟩
  | some expected =>
      if ¬ (case.get "status").eqStr "passed".toList ∨
          ¬ (case.get "evidence_kind").eqStr binding.evidenceKind.toList ∨
          ¬ (case.get "expected").typedEqual expected ∨
          ¬ (case.get "actual").typedEqual expected then
        .ok ⟨.failed, .literalMismatch⟩
      else admitInvocations case caseId binding context

/-- `admit_case`. -/
def admitCase (case : Obj) (context : AdmissionContext) :
    Except PyException AdmissionDecision :=
  if ¬ case.isDict ∨ ¬ case.hasKeys ["id", "status", "expected", "actual", "evidence_kind",
      "request_transcript"] then
    .ok ⟨.failed, .caseShape⟩
  else
    match (case.get "id").asStr with
    | none => .ok ⟨.failed, .unknownCase⟩
    | some caseId =>
        if caseId ∉ requiredCases then .ok ⟨.failed, .unknownCase⟩
        else
          match validateContext context with
          | some problem => .ok ⟨.failed, problem⟩
          | none =>
              if caseId = "installed_service_runtime".toList then
                admitServiceRuntime case caseId context
              else
                match caseBinding caseId with
                | none => .error .keyError
                | some binding => admitBound case caseId binding context

end TeslatlasEdge.Interop
