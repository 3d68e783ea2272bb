/-
Module: TeslatlasEdge.Services.Config
Purpose: The configuration of an edge and the checks `config.rs` makes of it: an accepted configuration
  keeps its files apart, lets receivers come from the machine only, and fits the spool.
Trusted boundary: human-reviewed embedding.  A configuration is given as `toml` reads it, a path as the
  components `Path` compares.
Main exports: EdgeConfig, EdgeConfig.validateShape, EdgeConfig.spoolConfig, EdgeConfig.Accepted,
  validateShape_eq_ok, EdgeConfig.Accepted.spoolConfig
-/
import TeslatlasEdge.Spool.Identity

namespace TeslatlasEdge

/-! ### Configurations -/

inductive ConfigError where
  | invalidToml
  | unsupportedVersion
  | invalidPath
  | unsafeBind
  | invalidLimit
  | missingFile
  | unsafePermissions
  | alreadyInitialized
  | io
deriving Repr, DecidableEq

/-- A path, by what `Path` compares. -/
structure PathBuf where
  absolute : Bool
  components : List Str
deriving DecidableEq

inductive IpAddr where
  | v4 (octets : BitVec 32)
  | v6 (segments : BitVec 128)
deriving DecidableEq

/-- `is_loopback`: `127.0.0.0/8` and `::1`. -/
def IpAddr.isLoopback : IpAddr → Bool
  | .v4 octets => octets.toNat / 2 ^ 24 = 127
  | .v6 segments => segments.toNat = 1

structure SocketAddr where
  ip : IpAddr
  port : UInt16
deriving DecidableEq

structure SpoolLimits where
  maxBytes : UInt64
  maxRecords : UInt64
  retentionSeconds : UInt64
  batchMaxBytes : UInt64
  batchMaxRecords : UInt64

structure EdgeConfig where
  version : UInt16
  stateDirectory : PathBuf
  receiverBind : SocketAddr
  hubBind : SocketAddr
  allowLocalSourceRunHubLoopback : Bool
  receiverBearerPath : PathBuf
  spoolKeyPath : PathBuf
  credentialStorePath : PathBuf
  hubServerCertificatePath : PathBuf
  hubServerPrivateKeyPath : PathBuf
  hubClientCaPath : PathBuf
  spool : SpoolLimits

def maxSpoolBytes : Nat := 8 * 1024 * 1024 * 1024

def maxSpoolRecords : Nat := 1000000

def maxRetentionSeconds : Nat := 30 * 24 * 60 * 60

def maxBatchBytes : Nat := 4 * 1024 * 1024

def maxBatchRecords : Nat := 1024

/-- `(low..=high).contains(&value)`. -/
def within (low high : Nat) (value : UInt64) : Bool := decide (low ≤ value.toNat ∧ value.toNat ≤ high)

namespace EdgeConfig

/-- The files `serve` reads, in the order of the check. -/
def runtimePaths (config : EdgeConfig) : List PathBuf :=
  [config.receiverBearerPath, config.spoolKeyPath, config.credentialStorePath,
    config.hubServerCertificatePath, config.hubServerPrivateKeyPath, config.hubClientCaPath]

/-- The scan for a path that is the state directory or has been met before. -/
def anyRepeated (stateDirectory : PathBuf) (met : List PathBuf) : List PathBuf → Bool
  | [] => false
  | path :: paths =>
      decide (path = stateDirectory) || met.contains path ||
        anyRepeated stateDirectory (path :: met) paths

def unsafeBinds (config : EdgeConfig) : Bool :=
  ! config.receiverBind.ip.isLoopback ||
    config.hubBind.ip.isLoopback != config.allowLocalSourceRunHubLoopback ||
    config.receiverBind.port == 0 || config.hubBind.port == 0 ||
    config.receiverBind.port == config.hubBind.port

def invalidLimits (limits : SpoolLimits) : Bool :=
  ! within 1048576 maxSpoolBytes limits.maxBytes ||
    ! within 1 maxSpoolRecords limits.maxRecords ||
    ! within 60 maxRetentionSeconds limits.retentionSeconds ||
    ! within 1 maxBatchBytes limits.batchMaxBytes ||
    ! within 1 maxBatchRecords limits.batchMaxRecords ||
    decide (limits.batchMaxBytes.toNat > limits.maxBytes.toNat) ||
    decide (limits.batchMaxRecords.toNat > limits.maxRecords.toNat)

/-- `validate_shape`. -/
def validateShape (config : EdgeConfig) : Except ConfigError Unit :=
  if config.version ≠ 1 then .error .unsupportedVersion
  else if (config.stateDirectory :: config.runtimePaths).any (! ·.absolute) then .error .invalidPath
  else if anyRepeated config.stateDirectory [] config.runtimePaths then .error .invalidPath
  else if config.unsafeBinds then .error .unsafeBind
  else if invalidLimits config.spool then .error .invalidLimit
  else .ok ()

theorem uint64_le (value : UInt64) : value.toNat ≤ u64Max := by
  have below := value.toNat_lt
  unfold u64Max
  omega

/-- `spool_config`; the product is checked against `u64` and then against `i64`. -/
def spoolConfig (config : EdgeConfig) : Except ConfigError SpoolConfig :=
  let retentionMs := config.spool.retentionSeconds.toNat * 1000
  if retentionMs > u64Max then .error .invalidLimit
  else
    match Json.asI64 (φ := Empty) (.int retentionMs) with
    | none => .error .invalidLimit
    | some retentionMs => .ok
        { maxBytes := config.spool.maxBytes.toNat
          maxRecords := config.spool.maxRecords.toNat
          retentionMs := retentionMs
          batchMaxBytes := config.spool.batchMaxBytes.toNat
          batchMaxRecords := config.spool.batchMaxRecords.toNat
          maxBytes_le := uint64_le config.spool.maxBytes
          maxRecords_le := uint64_le config.spool.maxRecords
          batchMaxBytes_le := uint64_le config.spool.batchMaxBytes
          batchMaxRecords_le := uint64_le config.spool.batchMaxRecords }

end EdgeConfig

/-! ### Accepted configurations -/

section

variable {config : EdgeConfig}

theorem EdgeConfig.anyRepeated_eq_false {stateDirectory : PathBuf} {met paths : List PathBuf} :
    anyRepeated stateDirectory met paths = false ↔
      stateDirectory ∉ paths ∧ paths.Nodup ∧ ∀ path ∈ paths, path ∉ met := by
  induction paths generalizing met with
  | nil => simp [anyRepeated]
  | cons path paths ih =>
      simp only [anyRepeated, Bool.or_eq_false_iff, decide_eq_false_iff_not, ih, List.mem_cons,
        List.nodup_cons, not_or, List.contains_eq_mem, forall_eq_or_imp]
      constructor
      · rintro ⟨⟨other, fresh⟩, elsewhere, distinct, apart⟩
        refine ⟨⟨Ne.symm other, elsewhere⟩, ⟨fun again => ?_, distinct⟩, fresh, fun path' later => ?_⟩
        · exact (apart path again).1 rfl
        · exact (apart path' later).2
      · rintro ⟨⟨other, elsewhere⟩, ⟨once, distinct⟩, fresh, apart⟩
        refine ⟨⟨Ne.symm other, fresh⟩, elsewhere, distinct, fun path' later => ⟨?_, apart path' later⟩⟩
        rintro rfl
        exact once later

theorem within_eq_true {low high : Nat} {value : UInt64} :
    within low high value = true ↔ low ≤ value.toNat ∧ value.toNat ≤ high :=
  decide_eq_true_iff

/-- The limits are within their ranges, and a batch fits into the spool. -/
theorem EdgeConfig.invalidLimits_eq_false {limits : SpoolLimits} :
    invalidLimits limits = false ↔
      (1048576 ≤ limits.maxBytes.toNat ∧ limits.maxBytes.toNat ≤ maxSpoolBytes) ∧
        (1 ≤ limits.maxRecords.toNat ∧ limits.maxRecords.toNat ≤ maxSpoolRecords) ∧
        (60 ≤ limits.retentionSeconds.toNat ∧ limits.retentionSeconds.toNat ≤ maxRetentionSeconds) ∧
        (1 ≤ limits.batchMaxBytes.toNat ∧ limits.batchMaxBytes.toNat ≤ maxBatchBytes) ∧
        (1 ≤ limits.batchMaxRecords.toNat ∧ limits.batchMaxRecords.toNat ≤ maxBatchRecords) ∧
        limits.batchMaxBytes.toNat ≤ limits.maxBytes.toNat ∧
        limits.batchMaxRecords.toNat ≤ limits.maxRecords.toNat := by
  simp only [invalidLimits, Bool.or_eq_false_iff, Bool.not_eq_false', within_eq_true,
    decide_eq_false_iff_not, not_lt, gt_iff_lt, and_assoc]

/-- An accepted configuration keeps its files apart from each other and from the state directory, and
lets receivers come from the machine only. -/
structure EdgeConfig.Accepted (config : EdgeConfig) : Prop where
  version : config.version = 1
  absolute : ∀ path ∈ config.stateDirectory :: config.runtimePaths, path.absolute = true
  distinct : (config.stateDirectory :: config.runtimePaths).Nodup
  receiver : config.receiverBind.ip.isLoopback = true
  hub : config.hubBind.ip.isLoopback = config.allowLocalSourceRunHubLoopback
  ports : config.receiverBind.port ≠ 0 ∧ config.hubBind.port ≠ 0 ∧
    config.receiverBind.port ≠ config.hubBind.port
  limits : EdgeConfig.invalidLimits config.spool = false

/-- A configuration is loaded exactly when it is acceptable. -/
theorem validateShape_eq_ok : config.validateShape = .ok () ↔ config.Accepted := by
  have paths : (config.stateDirectory :: config.runtimePaths).any (! ·.absolute) = true ↔
      ¬ ∀ path ∈ config.stateDirectory :: config.runtimePaths, path.absolute = true := by
    simp only [List.any_eq_true, Bool.not_eq_true', not_forall, Bool.not_eq_true, exists_prop]
  have repeated : EdgeConfig.anyRepeated config.stateDirectory [] config.runtimePaths = false ↔
      (config.stateDirectory :: config.runtimePaths).Nodup := by
    simp only [EdgeConfig.anyRepeated_eq_false, List.nodup_cons, List.not_mem_nil, not_false_eq_true,
      implies_true, and_true]
  have binds : config.unsafeBinds = false ↔ config.receiverBind.ip.isLoopback = true ∧
      config.hubBind.ip.isLoopback = config.allowLocalSourceRunHubLoopback ∧
      config.receiverBind.port ≠ 0 ∧ config.hubBind.port ≠ 0 ∧
      config.receiverBind.port ≠ config.hubBind.port := by
    simp only [EdgeConfig.unsafeBinds, Bool.or_eq_false_iff, Bool.not_eq_false', bne_eq_false_iff_eq,
      beq_eq_false_iff_ne, and_assoc]
  unfold EdgeConfig.validateShape
  constructor
  · intro accepted
    split at accepted
    · cases accepted
    · rename_i version
      split at accepted
      · cases accepted
      · rename_i absolute
        split at accepted
        · cases accepted
        · rename_i distinct
          split at accepted
          · cases accepted
          · rename_i bound
            split at accepted
            · cases accepted
            · rename_i limits
              rw [paths, not_not] at absolute
              rw [Bool.not_eq_true] at distinct bound limits
              obtain ⟨receiver, hub, ports⟩ := binds.mp bound
              exact ⟨not_not.mp version, absolute, repeated.mp distinct, receiver, hub, ports, limits⟩
  · rintro ⟨version, absolute, distinct, receiver, hub, ports, limits⟩
    rw [if_neg (not_not.mpr version), if_neg (fun bad => paths.mp bad absolute),
      if_neg (Bool.not_eq_true _ ▸ repeated.mpr distinct),
      if_neg (Bool.not_eq_true _ ▸ binds.mpr ⟨receiver, hub, ports⟩),
      if_neg (Bool.not_eq_true _ ▸ limits)]

theorem EdgeConfig.Accepted.bearer_ne_key (accepted : config.Accepted) :
    config.receiverBearerPath ≠ config.spoolKeyPath := by
  have distinct := (List.nodup_cons.mp accepted.distinct).2
  rw [EdgeConfig.runtimePaths, List.nodup_cons, List.mem_cons, not_or] at distinct
  exact distinct.1.1

/-- The limits of an accepted configuration fit the spool. -/
theorem EdgeConfig.Accepted.spoolConfig (accepted : config.Accepted) :
    ∃ spool, config.spoolConfig = .ok spool ∧ spool.WithinLimits := by
  obtain ⟨bytes, records, ⟨long, short⟩, batchBytes, batchRecords, bytesFit, recordsFit⟩ :=
    EdgeConfig.invalidLimits_eq_false.mp accepted.limits
  have small : ¬ config.spool.retentionSeconds.toNat * 1000 > u64Max := by
    unfold maxRetentionSeconds at short
    unfold u64Max
    omega
  have range : -2 ^ 63 ≤ ((config.spool.retentionSeconds.toNat * 1000 : Nat) : Int) ∧
      ((config.spool.retentionSeconds.toNat * 1000 : Nat) : Int) < 2 ^ 63 := by
    unfold maxRetentionSeconds at short
    omega
  have converted : Json.asI64 (φ := Empty) (.int (config.spool.retentionSeconds.toNat * 1000 : Nat)) =
      some ⟨_, range⟩ := by
    rw [Json.asI64, dif_pos range]
  unfold EdgeConfig.spoolConfig
  rw [if_neg small]
  split
  · rename_i impossible
    rw [converted] at impossible
    cases impossible
  · rename_i retention same
    obtain rfl := Option.some.inj (converted.symm.trans same)
    refine ⟨_, rfl, bytes, records, ⟨?_, ?_⟩, batchBytes, batchRecords, bytesFit, recordsFit⟩
    · simp only
      omega
    · unfold maxRetentionSeconds at short
      simp only
      omega

end

end TeslatlasEdge
