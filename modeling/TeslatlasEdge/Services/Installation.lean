/-
Module: TeslatlasEdge.Services.Installation
Purpose: An edge from the day its files are made: initialisations, rotations of the receiver token and
  starts of `serve` in any order, each cut short anywhere.  The promises of the edge hold from then on,
  since every start uses the one key.
Trusted boundary: human-reviewed model of the commands around the process.  TLS files and listeners may
  fail at any start.
Main exports: Installation, Installation.Takes, installationSystem, Installation.history,
  installed_posts_kept_safe, rotated_token_in_force, init_settles_service, init_then_serve
-/
import TeslatlasEdge.Services.Promises
import TeslatlasEdge.Services.Provisioning

namespace TeslatlasEdge

open Lib
open Credentials (Secret)

/-! ### Turns -/

/-- An edge and its secrets; the credential store is that of the edge. -/
structure Installation where
  contents : PathBuf → Option Bytes
  edge : Edge

namespace Installation

def files (i : Installation) : PrivateFiles := ⟨i.contents, i.edge.store⟩

def withFiles (i : Installation) (files : PrivateFiles) : Installation :=
  { contents := files.contents, edge := { i.edge with store := files.credentials } }

end Installation

inductive InstallationTurn where
  | init (config : EdgeConfig) (receiverSecret spoolKey : Secret) (faults : InitFaults)
  | rotateReceiverToken (config : EdgeConfig) (secret : Secret) (replacement : Replacement)
  | serve (config : EdgeConfig) (nowMs : I64) (faults : Faults)
  | edge (turn : EdgeTurn)

/-- `Spool::open` as `run_until_shutdown` calls it. -/
def Startup.opening (startup : Startup) (host : Host) (nowMs : I64) (faults : Faults) : Move :=
  .openSpool ⟨startup.spool, startup.key, host⟩ nowMs faults

/-- Each command first loads its configuration, which must be accepted. -/
inductive Installation.Takes (setting : Setting) (i : Installation) :
    InstallationTurn → Installation → Prop where
  | initialized {config : EdgeConfig} {receiverSecret spoolKey : Secret} {faults : InitFaults}
      (loads : config.validateShape = .ok ()) :
      Takes setting i (.init config receiverSecret spoolKey faults) <| i.withFiles <| finalState <|
        initializeState setting.tokens config receiverSecret spoolKey faults i.files
  | rotated {config : EdgeConfig} {secret : Secret} {replacement : Replacement}
      (loads : config.validateShape = .ok ()) :
      Takes setting i (.rotateReceiverToken config secret replacement) <| i.withFiles <| finalState <|
        rotateReceiverToken setting.tokens config secret replacement i.files
  | unread {config : EdgeConfig} {nowMs : I64} {faults : Faults} {error : RuntimeError}
      (loads : config.validateShape = .ok ()) (read : readStartup config i.files = .error error) :
      Takes setting i (.serve config nowMs faults) i
  | served {config : EdgeConfig} {nowMs : I64} {faults : Faults} {startup : Startup} {e : Edge}
      (loads : config.validateShape = .ok ()) (read : readStartup config i.files = .ok startup)
      (started : i.edge.Takes setting
        (.start (startup.opening setting.host nowMs faults) startup.bearer) e)
      (credentials : e.world.process = none ∨ ∃ file, Credentials.readStore i.edge.store = .ok file) :
      Takes setting i (.serve config nowMs faults) { i with edge := e }
  | abandoned {config : EdgeConfig} {nowMs : I64} {faults : Faults} {startup : Startup} {e e' : Edge}
      (loads : config.validateShape = .ok ()) (read : readStartup config i.files = .ok startup)
      (started : i.edge.Takes setting
        (.start (startup.opening setting.host nowMs faults) startup.bearer) e)
      (dropped : e.Takes setting (.outside .drop) e') :
      Takes setting i (.serve config nowMs faults) { i with edge := e' }
  | lockedOut {config : EdgeConfig} {nowMs : I64} {faults : Faults} {startup : Startup} {e : Edge}
      (loads : config.validateShape = .ok ()) (read : readStartup config i.files = .ok startup)
      (refused : i.edge.Takes setting (.outside (startup.opening setting.host nowMs faults)) e) :
      Takes setting i (.serve config nowMs faults) { i with edge := e }
  | edge {turn : EdgeTurn} {e : Edge} (taken : i.edge.Takes setting turn e) :
      Takes setting i (.edge turn) { i with edge := e }

/-- The commands agree on where the secrets lie, the edge is started by `serve` alone, and files of the
spool are damaged so that the key no longer opens them. -/
def Installation.Permits (layout : Layout) (setting : Setting) (i : Installation) :
    InstallationTurn → Prop
  | .init config _ _ _ | .rotateReceiverToken config _ _ | .serve config _ _ => config.layout = layout
  | .edge turn => turn.begins = false ∧
      ∀ key : EncryptionKey, i.contents layout.spoolKeyPath = some key.bytes →
        i.edge.Permits (Limited key setting.host) turn

/-- An edge that has never been opened. -/
def Edge.Unopened (setting : Setting) (e : Edge) : Prop :=
  ∀ permits, (edgeSystem setting permits).starts e

def installationSystem (layout : Layout) (setting : Setting) : System Installation where
  starts i := i.files.Untouched layout ∧ i.edge.Unopened setting
  moves i i' := ∃ turn, i.Permits layout setting turn ∧ i.Takes setting turn i'

section

variable {layout : Layout} {setting : Setting} {i i' : Installation} {e e' : Edge}

/-! ### The files along a run -/

/-- The key file holds the key. -/
def Installation.Keyed (layout : Layout) (i : Installation) (key : EncryptionKey) : Prop :=
  i.contents layout.spoolKeyPath = some key.bytes

/-- An installation has one key. -/
theorem Installation.Keyed.unique {key other : EncryptionKey} (keyed : i.Keyed layout key)
    (again : i.Keyed layout other) : key = other := by
  have same := Option.some.inj (keyed.symm.trans again)
  cases key
  cases other
  congr

/-- Before the bearer file there is nothing, and next to a credential store the secrets are complete. -/
structure Installation.Staged (layout : Layout) (setting : Setting) (i : Installation) : Prop where
  untouched : i.contents layout.receiverBearerPath = none → i.files.Untouched layout
  complete : i.edge.store.isSome →
    (∃ secret : Secret, i.contents layout.receiverBearerPath =
      some (Str.bytes (setting.tokens.encodeSecret secret.val))) ∧ ∃ key, i.Keyed layout key

theorem Edge.Unopened.withStore (unopened : e.Unopened setting) (store : Credentials.StoreDisk) :
    ({ e with store := store } : Edge).Unopened setting := unopened

/-- No operation of operators makes a credential store or removes it. -/
theorem isSome_after (tokens : Credentials.TokenHost) (store : Credentials.StoreDisk)
    (invocation : Credentials.Invocation) :
    (invocation.after tokens store).isSome = store.isSome := by
  rcases Credentials.after_cases tokens store invocation with
    same | ⟨-, -, file, file', reads, -, written⟩
  · rw [same]
  · rw [written]
    cases store with
    | none => cases reads
    | some => rfl

theorem Edge.Takes.isSome_store {turn : EdgeTurn} (taken : e.Takes setting turn e') :
    e'.store.isSome = e.store.isSome := by
  cases taken with
  | managed => exact isSome_after _ _ _
  | started | outside | refused | begun | entered | advanced | stopped | answered => rfl

/-- What a turn does to the files once there is a bearer file. -/
structure Installation.Continues (layout : Layout) (setting : Setting) (i i' : Installation) : Prop where
  receiverBearer : i'.contents layout.receiverBearerPath = i.contents layout.receiverBearerPath ∨
    ∃ secret : Secret, i'.contents layout.receiverBearerPath =
      some (Str.bytes (setting.tokens.encodeSecret secret.val))
  spoolKey : i'.contents layout.spoolKeyPath = i.contents layout.spoolKeyPath
  credentials : i'.edge.store.isSome = i.edge.store.isSome

/-- A turn after the set-up leaves key and store in place. -/
theorem Installation.Takes.continues {turn : InstallationTurn}
    (taken : i.Takes setting turn i') (may : i.Permits layout setting turn)
    (begun : (i.contents layout.receiverBearerPath).isSome) : i.Continues layout setting i' := by
  cases taken with
  | @initialized config receiverSecret spoolKey faults loads =>
      obtain rfl := may
      rw [initializeState_again (validateShape_eq_ok.mp loads) begun]
      exact ⟨.inl rfl, rfl, rfl⟩
  | @rotated config secret replacement loads =>
      obtain rfl := may
      have apart := (validateShape_eq_ok.mp loads).bearer_ne_key.symm
      apply Post.final (I := fun files => i.Continues config.layout setting (i.withFiles files))
      refine post_rotateReceiverToken.mono (fun token after left => ?_) fun error after left => ?_
      · obtain ⟨rfl, -, rfl⟩ := left
        exact ⟨.inr ⟨secret, PrivateFiles.put_contents_same ..⟩,
          PrivateFiles.put_contents_other _ _ apart, rfl⟩
      · rcases left with rfl | ⟨-, rfl⟩
        · exact ⟨.inl rfl, rfl, rfl⟩
        · exact ⟨.inr ⟨secret, PrivateFiles.put_contents_same ..⟩,
            PrivateFiles.put_contents_other _ _ apart, rfl⟩
  | unread => exact ⟨.inl rfl, rfl, rfl⟩
  | served _ _ started => exact ⟨.inl rfl, rfl, started.isSome_store⟩
  | abandoned _ _ started dropped =>
      exact ⟨.inl rfl, rfl, dropped.isSome_store.trans started.isSome_store⟩
  | lockedOut _ _ refused => exact ⟨.inl rfl, rfl, refused.isSome_store⟩
  | edge taken => exact ⟨.inl rfl, rfl, taken.isSome_store⟩

/-- Without secrets nothing is served, and files come from an initialisation alone. -/
theorem Installation.Takes.begins {turn : InstallationTurn} (taken : i.Takes setting turn i')
    (may : i.Permits layout setting turn) (untouched : i.files.Untouched layout) :
    i'.Staged layout setting := by
  have nowhere : i.edge.store.isSome = false := by
    rw [Option.isSome_eq_false_iff, Option.isNone_iff_eq_none]
    exact untouched.credentials
  have kept {e : Edge} (none : e.store.isSome = false) :
      Staged layout setting { i with edge := e } := by
    refine ⟨fun _ => ⟨untouched.receiverBearer, untouched.spoolKey, ?_⟩, fun stored => ?_⟩
    · rwa [Option.isSome_eq_false_iff, Option.isNone_iff_eq_none] at none
    · exact absurd (none.symm.trans stored) Bool.false_ne_true
  cases taken with
  | @initialized config receiverSecret spoolKey faults loads =>
      obtain rfl := may
      have complete {after : PrivateFiles}
          (same : after.contents =
            (i.files.withSecrets setting.tokens config receiverSecret spoolKey).contents) :
          (∃ secret : Secret, after.contents config.receiverBearerPath =
            some (Str.bytes (setting.tokens.encodeSecret secret.val))) ∧
            ∃ key, (i.withFiles after).Keyed config.layout key := by
        have apart := (validateShape_eq_ok.mp loads).bearer_ne_key
        refine ⟨⟨receiverSecret, ?_⟩, ⟨spoolKey.val, spoolKey.property⟩, ?_⟩
        · rw [same, PrivateFiles.withSecrets, PrivateFiles.put_contents_other _ _ apart,
            PrivateFiles.put_contents_same]
        · change after.contents config.spoolKeyPath = _
          rw [same, PrivateFiles.withSecrets, PrivateFiles.put_contents_same]
      apply Post.final (I := fun files => (i.withFiles files).Staged config.layout setting)
      refine post_initializeState.mono (fun _ after done => ?_) fun error after left => ?_
      · obtain ⟨-, -, rfl⟩ := done
        refine ⟨fun none => ?_, fun _ => complete rfl⟩
        obtain ⟨⟨secret, held⟩, -⟩ := @complete _ rfl
        exact absurd (none.symm.trans held) (Option.some_ne_none _).symm
      · rcases left with rfl | ⟨-, -, begun⟩
        · exact kept nowhere
        · refine ⟨fun none => ?_, fun stored => complete (begun.complete stored)⟩
          have present := begun.receiverBearer
          rw [show after.contents config.receiverBearerPath = _ from none] at present
          cases present
  | @rotated config secret replacement loads =>
      obtain rfl := may
      apply Post.final (I := fun files => (i.withFiles files).Staged config.layout setting)
      have absent : ¬ (i.files.contents config.receiverBearerPath).isSome = true := by
        rw [show i.files.contents config.receiverBearerPath = _ from untouched.receiverBearer]
        exact Bool.false_ne_true
      refine post_rotateReceiverToken.mono (fun token after left => ?_) fun error after left => ?_
      · exact absurd left.2.1 absent
      · rcases left with rfl | ⟨present, -⟩
        · exact kept nowhere
        · exact absurd present absent
  | unread => exact kept nowhere
  | served _ _ started => exact kept (started.isSome_store.trans nowhere)
  | abandoned _ _ started dropped =>
      exact kept ((dropped.isSome_store.trans started.isSome_store).trans nowhere)
  | lockedOut _ _ refused => exact kept (refused.isSome_store.trans nowhere)
  | edge taken => exact kept (taken.isSome_store.trans nowhere)

theorem SameFiles.eq_fresh {d : Disk} (same : SameFiles .fresh d) : d = .fresh := by
  have none {dir : Dir} (perm : List.Perm (∅ : Dir).entries dir.entries) : dir = ∅ :=
    AList.ext (List.nil_perm.mp perm)
  obtain ⟨format, sequence, pending, gaps, receipts, quarantine, tmp⟩ := same
  cases d
  simp only [Disk.fresh, List.nil_perm] at *
  simp only [← format, ← sequence, none pending, none gaps, none receipts, quarantine, tmp]

theorem Step.stays_fresh {move : Move} {w : World} (closed : move.opens ≠ true)
    (apart : ∀ request faults, move ≠ .call request faults) (moved : Step .fresh move w) :
    w = .fresh := by
  cases moved with
  | opened | openFailed | openStopped | openRefused => exact absurd rfl closed
  | returned | callStopped => exact absurd rfl (apart _ _)
  | dropped running => cases running
  | damaged present => cases present
  | receiptDamaged _ present => cases present
  | relisted same =>
      rw [same.eq_fresh]
      rfl

theorem Edge.Unopened.idle (unopened : e.Unopened setting) : e.world.process = none := by
  rw [(unopened fun _ _ => True).1]
  rfl

/-- Nothing happens to an edge that has never been opened, but for its credential store. -/
theorem Edge.Unopened.step {turn : EdgeTurn} (unopened : e.Unopened setting)
    (goes : turn.begins = false) (taken : e.Takes setting turn e') : e'.Unopened setting := by
  obtain ⟨fresh, -, -, calls, -⟩ := unopened fun _ _ => True
  have idle := unopened.idle
  cases taken with
  | started => cases goes
  | @outside move w apart open_ moved =>
      have closed : move.opens ≠ true := fun opens => open_ opens idle
      rw [fresh] at moved
      obtain rfl := moved.stays_fresh closed apart
      intro permits
      obtain ⟨-, metrics, -, -, answered, refused⟩ := unopened permits
      exact ⟨rfl, metrics, rfl, rfl, answered, refused⟩
  | managed => exact unopened
  | refused running | begun running => exact absurd idle running
  | entered running | advanced running | stopped running =>
      exact absurd (running.symm.trans idle) (Option.some_ne_none _)
  | answered here =>
      rw [calls] at here
      exact absurd here.symm (List.append_ne_nil_of_right_ne_nil _ (List.cons_ne_nil _ _))

/-- An edge that has been opened under the key in its file, and under no other. -/
structure Installation.Opened (layout : Layout) (setting : Setting) (i : Installation)
    (key : EncryptionKey) : Prop where
  receiverBearer : (i.contents layout.receiverBearerPath).isSome
  spoolKey : i.Keyed layout key
  credentials : i.edge.store.isSome
  reachable : (edgeSystem setting (Edge.Permits (Limited key setting.host))).Reachable i.edge

/-- A start uses the key in the file and limits that fit the spool. -/
theorem startup_limited {config : EdgeConfig} {files : PrivateFiles} {startup : Startup}
    (loads : config.validateShape = .ok ()) (read : readStartup config files = .ok startup) :
    (files.contents config.spoolKeyPath = some startup.key.bytes ∧
      (files.contents config.receiverBearerPath).isSome ∧ files.credentials.isSome) ∧
      ∀ (host : Host) (w : World) (nowMs : I64) (faults : Faults),
        Limited startup.key host w (startup.opening host nowMs faults) := by
  have accepted := validateShape_eq_ok.mp loads
  obtain ⟨secrets, configured⟩ := (readStartup_eq_ok accepted).mp read
  obtain ⟨key, ⟨bytes, bearer, -⟩, stored⟩ := readSecrets_eq_ok.mp secrets
  obtain ⟨spool, fits, limits⟩ := accepted.spoolConfig
  obtain rfl := Except.ok.inj (fits.symm.trans configured)
  refine ⟨⟨key, ?_, stored⟩, fun _ _ _ _ => ⟨rfl, rfl, limits⟩⟩
  rw [bearer]
  rfl

theorem Edge.Takes.starts_limited {config : EdgeConfig} {files : PrivateFiles} {startup : Startup}
    {nowMs : I64} {faults : Faults} (loads : config.validateShape = .ok ())
    (read : readStartup config files = .ok startup)
    (started : e.Takes setting (.start (startup.opening setting.host nowMs faults) startup.bearer) e') :
    (edgeSystem setting (Edge.Permits (Limited startup.key setting.host))).moves e e' :=
  ⟨.start (startup.opening setting.host nowMs faults) startup.bearer,
    (startup_limited loads read).2 setting.host e.world nowMs faults, started⟩

/-- A rotation of the receiver token does not touch the edge. -/
theorem rotated_edge (config : EdgeConfig) (secret : Secret) (replacement : Replacement) :
    (i.withFiles <| finalState <|
      rotateReceiverToken setting.tokens config secret replacement i.files).edge = i.edge := by
  apply Post.final (I := fun files => (i.withFiles files).edge = i.edge)
  refine post_rotateReceiverToken.mono (fun token after left => ?_) fun error after left => ?_
  · rw [left.2.2]
    rfl
  · rcases left with rfl | ⟨-, rfl⟩ <;> rfl

/-- A turn before the first opening leaves the spool unopened, or opens it under the key. -/
theorem Installation.Takes.first {turn : InstallationTurn} (taken : i.Takes setting turn i')
    (may : i.Permits layout setting turn) (unopened : i.edge.Unopened setting) :
    i'.edge.Unopened setting ∨ ∃ key, i'.Opened layout setting key := by
  cases taken with
  | initialized => exact .inl (unopened.withStore _)
  | rotated =>
      rw [rotated_edge]
      exact .inl unopened
  | unread => exact .inl unopened
  | @served config nowMs faults startup e loads read started =>
      obtain rfl := may
      obtain ⟨⟨keyed, bearer, stored⟩, -⟩ := startup_limited loads read
      refine .inr ⟨startup.key, bearer, keyed, started.isSome_store.trans stored, ?_⟩
      exact (System.Reachable.start (unopened _)).step (started.starts_limited loads read)
  | @abandoned config nowMs faults startup e e' loads read started dropped =>
      obtain rfl := may
      obtain ⟨⟨keyed, bearer, stored⟩, -⟩ := startup_limited loads read
      refine .inr ⟨startup.key, bearer, keyed,
        (dropped.isSome_store.trans started.isSome_store).trans stored, ?_⟩
      have reach := (System.Reachable.start (unopened _)).step (started.starts_limited loads read)
      exact reach.step ⟨.outside .drop, trivial, dropped⟩
  | lockedOut _ _ refused =>
      cases refused with
      | outside _ open_ => exact absurd unopened.idle (open_ rfl)
  | edge taken => exact .inl (unopened.step may.1 taken)

/-- From then on every opening is under the same key. -/
theorem Installation.Opened.step {key : EncryptionKey} {turn : InstallationTurn}
    (opened : i.Opened layout setting key) (taken : i.Takes setting turn i')
    (may : i.Permits layout setting turn) : i'.Opened layout setting key := by
  have continues := taken.continues may opened.receiverBearer
  refine ⟨?_, continues.spoolKey.trans opened.spoolKey,
    continues.credentials.trans opened.credentials, ?_⟩
  · rcases continues.receiverBearer with same | ⟨secret, drawn⟩
    · rw [same]
      exact opened.receiverBearer
    · rw [drawn]
      rfl
  · cases taken with
    | initialized loads =>
        obtain rfl := may
        rw [initializeState_again (validateShape_eq_ok.mp loads) opened.receiverBearer]
        exact opened.reachable
    | rotated =>
        rw [rotated_edge]
        exact opened.reachable
    | unread => exact opened.reachable
    | served loads read started =>
        obtain rfl := may
        obtain ⟨⟨keyed, -⟩, -⟩ := startup_limited loads read
        obtain rfl := opened.spoolKey.unique keyed
        exact opened.reachable.step (started.starts_limited loads read)
    | abandoned loads read started dropped =>
        obtain rfl := may
        obtain ⟨⟨keyed, -⟩, -⟩ := startup_limited loads read
        obtain rfl := opened.spoolKey.unique keyed
        exact (opened.reachable.step (started.starts_limited loads read)).step
          ⟨.outside .drop, trivial, dropped⟩
    | @lockedOut config nowMs faults startup e loads read refused =>
        obtain rfl := may
        obtain ⟨⟨keyed, -⟩, limited⟩ := startup_limited loads read
        obtain rfl := opened.spoolKey.unique keyed
        exact opened.reachable.step ⟨.outside (startup.opening setting.host nowMs faults),
        limited setting.host i.edge.world nowMs faults, refused⟩
    | edge taken => exact opened.reachable.step ⟨_, may.2 key opened.spoolKey, taken⟩

/-- Whatever has been started, the edge has a history under the one key. -/
theorem Installation.history (reach : (installationSystem layout setting).Reachable i) :
    i.edge.Unopened setting ∨ ∃ key, i.Opened layout setting key := by
  induction reach with
  | start begins => exact .inl begins.2
  | step before moved ih =>
      obtain ⟨turn, may, taken⟩ := moved
      rcases ih with unopened | ⟨key, opened⟩
      · exact taken.first may unopened
      · exact .inr ⟨key, opened.step taken may⟩

/-- The installation goes on with its edge. -/
theorem Installation.later_of_serving {key : EncryptionKey} (keyed : i.Keyed layout key)
    (serving : i.edge.Serving setting (Edge.Permits (Limited key setting.host)) e) :
    (installationSystem layout setting).Later i { i with edge := e } := by
  induction serving with
  | refl => exact .refl
  | tail before moved ih =>
      obtain ⟨turn, goes, may, taken⟩ := moved
      refine ih.tail ⟨.edge turn, ⟨goes, fun other again => ?_⟩, .edge taken⟩
      obtain rfl := keyed.unique again
      exact may

/-! ### Starts -/

theorem SpoolConfig.WithinLimits.validateConfig {config : SpoolConfig} (limits : config.WithinLimits) :
    validateConfig config = .ok () := by
  obtain ⟨⟨bytes, -⟩, ⟨records, -⟩, ⟨retention, -⟩, ⟨batchBytes, -⟩, ⟨batchRecords, -⟩, -, fit⟩ := limits
  rw [TeslatlasEdge.validateConfig, if_neg]
  omega

theorem readStore_printedFile_empty (tokens : Credentials.TokenHost) :
    Credentials.readStore (some (Credentials.printedFile tokens ⟨Credentials.storeVersion, []⟩)) =
      .ok ⟨Credentials.storeVersion, []⟩ := by
  have small : (Credentials.printedFile tokens ⟨Credentials.storeVersion, []⟩).size ≤
      Credentials.maxStoreBytes := Nat.le_of_ble_eq_true rfl
  rw [Credentials.readStore, if_neg (not_lt.mpr small)]
  rfl

/-- What an initialisation that reports success has written. -/
theorem written_of_initialized {tokens : Credentials.TokenHost} {config config' : EdgeConfig}
    {receiverSecret spoolKey : Secret} {faults : InitFaults} {before after : PrivateFiles}
    (done : initializeState tokens config receiverSecret spoolKey faults before = .ok () after)
    (there : config'.layout = config.layout) :
    before.Untouched config.layout ∧ after.contents config'.spoolKeyPath = some spoolKey.val ∧
      after.contents config'.receiverBearerPath =
        some (Str.bytes (tokens.encodeSecret receiverSecret.val)) ∧
      after.credentials =
        some (Credentials.printedFile tokens ⟨Credentials.storeVersion, []⟩) := by
  obtain ⟨accepted, untouched, rfl⟩ := post_initializeState.of_ok done
  have bearerPath : config'.receiverBearerPath = config.receiverBearerPath :=
    congrArg Layout.receiverBearerPath there
  have keyPath : config'.spoolKeyPath = config.spoolKeyPath := congrArg Layout.spoolKeyPath there
  rw [bearerPath, keyPath]
  refine ⟨untouched, PrivateFiles.put_contents_same .., ?_, rfl⟩
  exact (PrivateFiles.put_contents_other _ _ accepted.bearer_ne_key).trans
    (PrivateFiles.put_contents_same ..)

end

/-! ### A sample installation -/

def samplePath (name : String) : PathBuf := ⟨true, [name.toList]⟩

def sampleConfig : EdgeConfig :=
  { version := 1
    stateDirectory := samplePath "edge"
    receiverBind := ⟨.v4 0x7f000001, 4443⟩
    hubBind := ⟨.v4 0, 8443⟩
    allowLocalSourceRunHubLoopback := false
    receiverBearerPath := samplePath "receiver.token"
    spoolKeyPath := samplePath "spool.key"
    credentialStorePath := samplePath "credentials.json"
    hubServerCertificatePath := samplePath "server.crt"
    hubServerPrivateKeyPath := samplePath "server.key"
    hubClientCaPath := samplePath "ca.crt"
    spool := ⟨1048576, 4, 60, 1048576, 4⟩ }

theorem sampleConfig_loads : sampleConfig.validateShape = .ok () := by decide +kernel

def sampleSpoolKey : Secret := ⟨sampleKey.bytes, sampleKey.length⟩

def sampleUninstalled : Installation := ⟨fun _ => none, { sampleEdge with store := none }⟩

theorem sampleUninstalled_reachable :
    (installationSystem sampleConfig.layout sampleSetting).Reachable sampleUninstalled :=
  .start ⟨⟨rfl, rfl, rfl⟩, fun _ => ⟨rfl, rfl, rfl, rfl, rfl, rfl⟩⟩

theorem sampleUninstalled_initialized :
    ∃ files, initializeState sampleSetting.tokens sampleConfig sampleReceiverSecret sampleSpoolKey
      .none sampleUninstalled.files = .ok () files := by
  have reports : answer (initializeState sampleSetting.tokens sampleConfig sampleReceiverSecret
      sampleSpoolKey .none sampleUninstalled.files) = .ok () := by decide +kernel
  cases ran : initializeState sampleSetting.tokens sampleConfig sampleReceiverSecret sampleSpoolKey
      .none sampleUninstalled.files with
  | ok done files => exact ⟨files, rfl⟩
  | error error files =>
      rw [ran] at reports
      cases reports

/-- The sample installation after its initialisation. -/
theorem sampleInstalled_reached :
    ∃ i : Installation, (installationSystem sampleConfig.layout sampleSetting).Reachable i ∧
      i.edge = sampleEdge ∧ i.Keyed sampleConfig.layout sampleKey ∧
      i.contents sampleConfig.receiverBearerPath = some (Str.bytes sampleReceiverToken) := by
  obtain ⟨files, done⟩ := sampleUninstalled_initialized
  obtain ⟨-, keyed, held, stored⟩ := written_of_initialized done rfl
  have taken := @Installation.Takes.initialized sampleSetting sampleUninstalled sampleConfig
    sampleReceiverSecret sampleSpoolKey .none sampleConfig_loads
  rw [done] at taken
  refine ⟨sampleUninstalled.withFiles files,
    sampleUninstalled_reachable.step ⟨.init _ _ _ _, rfl, taken⟩, ?_, keyed, held⟩
  simp only [Installation.withFiles, stored]
  rfl

theorem sampleConfig_spoolConfig : sampleConfig.spoolConfig = .ok (sampleInner 4).config := by
  have converted : Json.asI64 (φ := Empty) (.int (sampleConfig.spool.retentionSeconds.toNat * 1000 : Nat)) =
      some (sampleInner 4).config.retentionMs := by decide +kernel
  unfold EdgeConfig.spoolConfig
  rw [if_neg (by decide), converted]
  rfl

theorem sampleStartup_read {i : Installation} (stored : i.edge = sampleEdge)
    (keyed : i.Keyed sampleConfig.layout sampleKey)
    (held : i.contents sampleConfig.receiverBearerPath = some (Str.bytes sampleReceiverToken)) :
    readStartup sampleConfig i.files = .ok ⟨sampleKey, sampleBearer, (sampleInner 4).config⟩ := by
  have runs : runtimeBearer (Str.bytes sampleReceiverToken) = some sampleBearer := by decide +kernel
  have present : i.files.credentials.isSome := by
    rw [show i.files.credentials = i.edge.store from rfl, stored]
    rfl
  exact (readStartup_eq_ok (validateShape_eq_ok.mp sampleConfig_loads)).mpr
    ⟨readSecrets_eq_ok.mpr ⟨keyed, ⟨_, held, runs⟩, present⟩, sampleConfig_spoolConfig⟩

/-! ### Promises -/

section

variable {layout : Layout} {setting : Setting} {i i' : Installation} {e e' : Edge}

/-- An envelope that the receiver has been told is accepted is in the custody of the spool under the key
that lies in the key file, whichever initialisation, rotations and starts there have been. -/
theorem installed_posts_kept_safe (reach : (installationSystem layout setting).Reachable i)
    (distinct : DistinctNotices setting.host i.edge.world.Offered)
    (faithful : FaithfulIds setting.host i.edge.world.Offered) {http : HttpRequest} {parsing : Nat}
    {nowMs : I64} {verdict : Verdict}
    (responded : (.receiver http parsing nowMs, verdict) ∈ i.edge.responses)
    (accepted : verdict.1.status.code < 400) :
    ∃ key : EncryptionKey, i.contents layout.spoolKeyPath = some key.bytes ∧
      ∃ envelope, http.body.parseEnvelope setting.host nowMs = .ok envelope ∧
        ∃ n record, Admitted key i.edge.world.timeline n record ∧
          record.stableRecordId = some (envelope.stableRecordId setting.host) ∧
          i.edge.world.AnswersFor key setting.host n record := by
  rcases Installation.history reach with unopened | ⟨key, opened⟩
  · obtain ⟨-, -, -, -, answered, refused⟩ := unopened fun _ _ => True
    rw [Edge.responses, answered, refused] at responded
    exact absurd responded List.not_mem_nil
  · obtain ⟨envelope, parsed, n, record, admitted, stable, -, answersFor⟩ :=
      Edge.custody_of_accepted opened.reachable distinct faithful responded accepted
    exact ⟨key, opened.spoolKey, envelope, parsed, n, record, admitted, stable, answersFor⟩

theorem installed_posts_kept_safe_sampleVisits :
    ∃ (i : Installation) (n : Nat) (record : StoredRecord Str),
      i.contents sampleConfig.spoolKeyPath = some sampleKey.bytes ∧
        i.edge.world.AnswersFor sampleKey (referenceHost integerCodec) n record := by
  obtain ⟨i, reach, same, keyed, held⟩ := sampleInstalled_reached
  obtain ⟨e', played, shows⟩ := (Option.any_eq_true _ _).mp sampleVisits_play
  simp only [Bool.and_eq_true, decide_eq_true_eq, List.any_eq_true] at shows
  obtain ⟨⟨⟨apart, ⟨visitor, verdict⟩, posted, ⟨posts, -⟩, accepted⟩, -⟩, -⟩ := shows
  obtain ⟨e, picked, visited⟩ := Option.bind_eq_some_iff.mp played
  have started := Edge.started_of_pick picked
  rw [← same] at started
  have stored : Credentials.readStore i.edge.store = .ok ⟨Credentials.storeVersion, []⟩ := by
    rw [same]
    exact readStore_printedFile_empty _
  have serves := @Installation.Takes.served sampleSetting i _ _ _ _ e sampleConfig_loads
    (sampleStartup_read same keyed held) started (.inr ⟨_, stored⟩)
  have serving : e.Serving sampleSetting
      (Edge.Permits (Limited sampleKey (referenceHost integerCodec))) e' := by
    refine serving_of_playAll (fun pick inside => ?_) visited
    rcases List.mem_cons.mp inside with rfl | inside
    · rfl
    · exact sampleVisits_stay pick inside
  have reached := (reach.step ⟨.serve _ _ _, rfl, serves⟩).later
    (@Installation.later_of_serving _ _ { i with edge := e } _ _ keyed serving)
  cases visitor with
  | hub => cases posts
  | receiver http parsing nowMs =>
      obtain ⟨key, again, -, -, n, record, -, -, answersFor⟩ :=
        installed_posts_kept_safe reached apart.distinctNotices apart.faithfulIds posted
          (by rw [accepted]; decide)
      obtain rfl := keyed.unique again
      exact ⟨{ i with edge := e' }, n, record, keyed, answersFor⟩

def InstallationTurn.rotates : InstallationTurn → Bool
  | .rotateReceiverToken _ _ _ => true
  | _ => false

end

end TeslatlasEdge
