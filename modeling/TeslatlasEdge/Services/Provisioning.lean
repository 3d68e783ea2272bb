/-
Module: TeslatlasEdge.Services.Provisioning
Purpose: What an edge is started from: the private files that `init` and the rotation of the receiver
  token write, and what `doctor` and `serve` read from them.
Trusted boundary: human-reviewed embedding; directories, permissions, symbolic links and TLS files are
  left out.
Main exports: PrivateFiles, initializeState, rotateReceiverToken, readStartup, doctor,
  post_initializeState, post_rotateReceiverToken, readSecrets_eq_ok, UrlSafe, UrlSafe.runtimeBearer
-/
import TeslatlasEdge.Services.Bridge
import TeslatlasEdge.Services.Config

namespace TeslatlasEdge

open Lib
open Credentials (Secret Storage StoreDisk StoreM TokenHost)

/-! ### Private files -/

/-- The private files by path; the file of the credential store is kept by what is read from it. -/
structure PrivateFiles where
  contents : PathBuf → Option Bytes
  credentials : StoreDisk

/-- Where a configuration says the secrets lie. -/
structure Layout where
  receiverBearerPath : PathBuf
  spoolKeyPath : PathBuf

def EdgeConfig.layout (config : EdgeConfig) : Layout :=
  { receiverBearerPath := config.receiverBearerPath, spoolKeyPath := config.spoolKeyPath }

def PrivateFiles.put (files : PrivateFiles) (path : PathBuf) (bytes : Bytes) : PrivateFiles :=
  { files with contents := Function.update files.contents path (some bytes) }

/-- How far `write_new_private` gets: the file cannot be created, it is left with the first bytes only,
or it is written. -/
inductive NewFile where
  | refused
  | cut (written : Nat)
  | completes

/-- A command on the private files; an error keeps the files it was raised with. -/
abbrev Provision := EStateM ConfigError PrivateFiles

def writeNewPrivate (path : PathBuf) (bytes : Bytes) (got : NewFile) : Provision Unit := do
  if ((← get).contents path).isSome then throw .alreadyInitialized
  match got with
  | .refused => throw .io
  | .cut written =>
      modify fun files => files.put path (bytes.take written)
      throw .io
  | .completes => modify fun files => files.put path bytes

/-- `CredentialStore::open`. -/
def openStore (tokens : TokenHost) (storage : Storage) : StoreM Unit := do
  Credentials.lockMutations storage
  if (← get).isSome then
    let _ ← Credentials.load
  else
    Credentials.save tokens storage { version := Credentials.storeVersion, credentials := [] }

/-- How far `initialize` gets; a directory that cannot be made private fails with an error. -/
structure InitFaults where
  directories : Option ConfigError
  receiverBearer : NewFile
  spoolKey : NewFile
  credentials : Storage

def InitFaults.none : InitFaults := ⟨Option.none, .completes, .completes, .completes⟩

def checkShape (config : EdgeConfig) : Provision Unit :=
  match config.validateShape with
  | .ok () => pure ()
  | .error error => throw error

/-- `create_private_directory` for the state directory and the parents of the files. -/
def createDirectories : Option ConfigError → Provision Unit
  | none => pure ()
  | some error => throw error

/-- The credential store after `open`, whose error is reported as one of input or output. -/
def openCredentials (tokens : TokenHost) (storage : Storage) : Provision Unit := do
  let files ← get
  let opened := openStore tokens storage files.credentials
  set { files with credentials := finalState opened }
  match answer opened with
  | .ok () => pure ()
  | .error _ => throw .io

/-- `initialize`, with the secrets it draws. -/
def initializeState (tokens : TokenHost) (config : EdgeConfig) (receiverSecret spoolKey : Secret)
    (faults : InitFaults) : Provision Unit := do
  checkShape config
  let files ← get
  if (files.contents config.receiverBearerPath).isSome ||
      (files.contents config.spoolKeyPath).isSome || files.credentials.isSome then
    throw .alreadyInitialized
  createDirectories faults.directories
  writeNewPrivate config.receiverBearerPath (Str.bytes (tokens.encodeSecret receiverSecret.val))
    faults.receiverBearer
  writeNewPrivate config.spoolKeyPath spoolKey.val faults.spoolKey
  openCredentials tokens faults.credentials

/-- How far the replacement of the bearer file gets; the temporary file is never read. -/
inductive Replacement where
  | refused
  | unsynced
  | completes
deriving DecidableEq

/-- `rotate_receiver_token`. -/
def rotateReceiverToken (tokens : TokenHost) (config : EdgeConfig) (secret : Secret)
    (replacement : Replacement) : Provision Str := do
  if ((← get).contents config.receiverBearerPath).isNone then throw .missingFile
  let token := tokens.encodeSecret secret.val
  if replacement = .refused then throw .io
  modify fun files => files.put config.receiverBearerPath (Str.bytes token)
  if replacement = .unsynced then throw .io
  pure token

/-! ### Starting from the files -/

inductive RuntimeError where
  | config (error : ConfigError)
  | credential (error : Credentials.CredentialError)
  | invalidSecret
  | io
deriving Repr, DecidableEq

def maxSecretBytes : Nat := 1048576

/-- `validate_runtime_files`. -/
def validateRuntimeFiles (config : EdgeConfig) (files : PrivateFiles) : Except RuntimeError Unit :=
  if (files.contents config.receiverBearerPath).isNone ||
      (files.contents config.spoolKeyPath).isNone || files.credentials.isNone then
    .error (.config .missingFile)
  else .ok ()

def readBounded (files : PrivateFiles) (path : PathBuf) : Except RuntimeError Bytes :=
  match files.contents path with
  | none => .error .io
  | some bytes =>
      if bytes.isEmpty || bytes.length > maxSecretBytes then .error .invalidSecret else .ok bytes

/-- `key_bytes.try_into()`. -/
def spoolKeyFrom (bytes : Bytes) : Except RuntimeError EncryptionKey :=
  if length : bytes.length = 32 then .ok ⟨bytes, length⟩ else .error .invalidSecret

def bearerFrom (bytes : Bytes) : Except RuntimeError ReceiverBearer :=
  match runtimeBearer bytes with
  | none => .error .invalidSecret
  | some bearer => .ok bearer

/-- The secrets, which `doctor` and `serve` read alike. -/
def readSecrets (config : EdgeConfig) (files : PrivateFiles) :
    Except RuntimeError (EncryptionKey × ReceiverBearer) := do
  validateRuntimeFiles config files
  let keyBytes ← readBounded files config.spoolKeyPath
  let key ← spoolKeyFrom keyBytes
  let bearerBytes ← readBounded files config.receiverBearerPath
  let bearer ← bearerFrom bearerBytes
  pure (key, bearer)

/-- What `run_until_shutdown` has in hand when it opens the spool. -/
structure Startup where
  key : EncryptionKey
  bearer : ReceiverBearer
  spool : SpoolConfig

/-- `run_until_shutdown` as far as the opening of the spool. -/
def readStartup (config : EdgeConfig) (files : PrivateFiles) : Except RuntimeError Startup := do
  let (key, bearer) ← readSecrets config files
  let spool ← config.spoolConfig.mapError .config
  pure { key, bearer, spool }

section

variable {tokens : TokenHost} {config : EdgeConfig} {files : PrivateFiles}

@[simp] theorem PrivateFiles.put_contents_same (files : PrivateFiles) (path : PathBuf) (bytes : Bytes) :
    (files.put path bytes).contents path = some bytes := Function.update_self ..

@[simp] theorem PrivateFiles.put_contents_other (files : PrivateFiles) {path other : PathBuf}
    (bytes : Bytes) (apart : other ≠ path) :
    (files.put path bytes).contents other = files.contents other := Function.update_of_ne apart ..

@[simp] theorem PrivateFiles.put_credentials (files : PrivateFiles) (path : PathBuf) (bytes : Bytes) :
    (files.put path bytes).credentials = files.credentials := rfl

/-- No private file has been written. -/
structure PrivateFiles.Untouched (files : PrivateFiles) (layout : Layout) : Prop where
  receiverBearer : files.contents layout.receiverBearerPath = none
  spoolKey : files.contents layout.spoolKeyPath = none
  credentials : files.credentials = none

/-- The files with both secrets. -/
def PrivateFiles.withSecrets (files : PrivateFiles) (tokens : TokenHost) (config : EdgeConfig)
    (receiverSecret spoolKey : Secret) : PrivateFiles :=
  (files.put config.receiverBearerPath (Str.bytes (tokens.encodeSecret receiverSecret.val))).put
    config.spoolKeyPath spoolKey.val

theorem post_writeNewPrivate {path : PathBuf} {bytes : Bytes} {got : NewFile}
    {onOk : Unit → PrivateFiles → Prop} {onError : ConfigError → PrivateFiles → Prop}
    (kept : ∀ error, onError error files)
    (cut : ∀ written, onError .io (files.put path (bytes.take written)))
    (completes : onOk () (files.put path bytes)) :
    Post (writeNewPrivate path bytes got) files onOk onError := by
  simp only [writeNewPrivate, post_bind, post_get, post_ite, post_throw]
  refine ⟨fun _ => kept _, fun _ => ?_⟩
  cases got with
  | refused => exact kept _
  | cut written => exact cut written
  | completes => exact completes

/-- Where there is no credential store, `open` creates an empty one or leaves none. -/
theorem post_openStore {storage : Storage} :
    Post (openStore tokens storage) none
      (fun _ disk => disk = some (Credentials.printedFile tokens ⟨Credentials.storeVersion, []⟩))
      (fun _ _ => True) := by
  cases storage <;> trivial

theorem post_openCredentials {storage : Storage} (absent : files.credentials = none) :
    Post (openCredentials tokens storage) files
      (fun _ after => after = { files with
        credentials := some (Credentials.printedFile tokens ⟨Credentials.storeVersion, []⟩) })
      (fun _ after => after.contents = files.contents) := by
  have opens := @post_openStore tokens storage
  rw [← absent] at opens
  simp only [openCredentials, post_bind, post_get]
  unfold Post at opens
  split at opens
  · rename_i opened
    simp only [opened, finalState_ok, answer_ok]
    subst opens
    rfl
  · rename_i opened
    simp only [opened, finalState_error, answer_error]
    rfl

/-- An initialisation has got as far as the bearer file; a credential store is there only next to the
complete secrets. -/
structure PrivateFiles.Begun (files after : PrivateFiles) (tokens : TokenHost) (config : EdgeConfig)
    (receiverSecret spoolKey : Secret) : Prop where
  receiverBearer : (after.contents config.receiverBearerPath).isSome
  complete : after.credentials.isSome →
    after.contents = (files.withSecrets tokens config receiverSecret spoolKey).contents

/-- An initialisation writes the secrets and then the credential store. -/
theorem post_initializeState {receiverSecret spoolKey : Secret} {faults : InitFaults} :
    Post (initializeState tokens config receiverSecret spoolKey faults) files
      (fun _ after => config.Accepted ∧ files.Untouched config.layout ∧
        after = { files.withSecrets tokens config receiverSecret spoolKey with
          credentials := some (Credentials.printedFile tokens ⟨Credentials.storeVersion, []⟩) })
      (fun _ after => after = files ∨ config.Accepted ∧ files.Untouched config.layout ∧
        files.Begun after tokens config receiverSecret spoolKey) := by
  simp only [initializeState, post_bind]
  cases shape : config.validateShape with
  | error error =>
      rw [checkShape, shape]
      exact .inl rfl
  | ok =>
      have accepted := validateShape_eq_ok.mp shape
      have apart := accepted.bearer_ne_key
      simp only [checkShape, shape, post_pure, post_get, post_ite, post_bind]
      refine ⟨fun _ => .inl rfl, fun absent => ?_⟩
      rw [Bool.or_eq_true, Bool.or_eq_true, not_or, not_or] at absent
      simp only [Bool.not_eq_true, Option.isSome_eq_false_iff, Option.isNone_iff_eq_none] at absent
      obtain ⟨⟨bearer, key⟩, store⟩ := absent
      have untouched : files.Untouched config.layout := ⟨bearer, key, store⟩
      have unstored {after : PrivateFiles} (none : after.credentials = none)
          (present : (after.contents config.receiverBearerPath).isSome) :
          files.Begun after tokens config receiverSecret spoolKey := by
        refine ⟨present, fun stored => ?_⟩
        rw [none] at stored
        cases stored
      cases faults.directories with
      | some error => exact .inl rfl
      | none =>
          apply post_writeNewPrivate
          · exact fun _ => .inl rfl
          · intro written
            exact .inr ⟨accepted, untouched, unstored store (by simp)⟩
          · apply post_writeNewPrivate
            · exact fun _ => .inr ⟨accepted, untouched, unstored store (by simp)⟩
            · intro written
              exact .inr ⟨accepted, untouched, unstored store (by simp [apart])⟩
            · apply Post.mono (@post_openCredentials tokens
                (files.withSecrets tokens config receiverSecret spoolKey) _ store)
              · rintro - after rfl
                exact ⟨accepted, untouched, rfl⟩
              · intro error after same
                refine .inr ⟨accepted, untouched, ?_, fun _ => same⟩
                rw [same]
                simp [PrivateFiles.withSecrets, apart]

/-- An edge is initialised once. -/
theorem initializeState_again {receiverSecret spoolKey : Secret} {faults : InitFaults}
    (accepted : config.Accepted) (begun : (files.contents config.receiverBearerPath).isSome) :
    initializeState tokens config receiverSecret spoolKey faults files =
      .error .alreadyInitialized files := by
  have refused : Post (initializeState tokens config receiverSecret spoolKey faults) files
      (fun _ _ => False) (fun error after => error = .alreadyInitialized ∧ after = files) := by
    simp only [initializeState, checkShape, validateShape_eq_ok.mpr accepted, post_bind, post_pure,
      post_get, post_ite, begun, Bool.true_or]
    exact ⟨fun _ => ⟨rfl, rfl⟩, fun absent => absurd trivial absent⟩
  unfold Post at refused
  split at refused
  · exact refused.elim
  · rename_i ran
    rw [ran, refused.1, refused.2]

/-- A rotation replaces the bearer file of an initialised edge or leaves it. -/
theorem post_rotateReceiverToken {secret : Secret} {replacement : Replacement} :
    Post (rotateReceiverToken tokens config secret replacement) files
      (fun token after => token = tokens.encodeSecret secret.val ∧
        (files.contents config.receiverBearerPath).isSome ∧
        after = files.put config.receiverBearerPath (Str.bytes token))
      (fun _ after => after = files ∨ (files.contents config.receiverBearerPath).isSome ∧
        after = files.put config.receiverBearerPath (Str.bytes (tokens.encodeSecret secret.val))) := by
  simp only [rotateReceiverToken, post_bind, post_get, post_ite, post_throw, post_modify, post_pure]
  refine ⟨fun _ => .inl trivial, fun present => ?_⟩
  rw [Option.isNone_iff_eq_none, ← Ne, ← Option.isSome_iff_ne_none] at present
  refine ⟨fun _ => .inl trivial, fun _ => ⟨fun _ => .inr ⟨present, trivial⟩, fun _ => ?_⟩⟩
  exact ⟨trivial, present, trivial⟩

/-- A secret is read when it is neither empty nor too long. -/
theorem readBounded_eq_ok {path : PathBuf} {bytes : Bytes} :
    readBounded files path = .ok bytes ↔
      files.contents path = some bytes ∧ bytes ≠ [] ∧ bytes.length ≤ maxSecretBytes := by
  unfold readBounded
  split
  · rename_i absent
    simp [absent]
  · rename_i held present
    split
    · rename_i unfit
      rw [Bool.or_eq_true, List.isEmpty_iff, decide_eq_true_eq] at unfit
      simp only [reduceCtorEq, present, Option.some.injEq, false_iff, not_and]
      rintro rfl filled
      exact not_le.mpr (unfit.resolve_left filled)
    · rename_i fits
      rw [Bool.or_eq_true, List.isEmpty_iff, decide_eq_true_eq, not_or, not_lt] at fits
      simp only [Except.ok.injEq, present, Option.some.injEq, iff_self_and]
      rintro rfl
      exact fits

/-- A key file holds the bytes of the key. -/
theorem spoolKeyFrom_eq_ok {bytes : Bytes} {key : EncryptionKey} :
    spoolKeyFrom bytes = .ok key ↔ bytes = key.bytes := by
  unfold spoolKeyFrom
  split
  · rename_i length
    rw [Except.ok.injEq]
    constructor
    · rintro rfl
      rfl
    · rintro rfl
      rfl
  · rename_i length
    simp only [reduceCtorEq, false_iff]
    rintro rfl
    exact length key.length

theorem bearerFrom_eq_ok {bytes : Bytes} {bearer : ReceiverBearer} :
    bearerFrom bytes = .ok bearer ↔ runtimeBearer bytes = some bearer := by
  unfold bearerFrom
  split
  · rename_i unfit
    rw [unfit]
    simp
  · rename_i fit
    rw [fit, Except.ok.injEq, Option.some.injEq]

theorem validateRuntimeFiles_eq_ok :
    validateRuntimeFiles config files = .ok () ↔
      (files.contents config.receiverBearerPath).isSome ∧
        (files.contents config.spoolKeyPath).isSome ∧ files.credentials.isSome := by
  unfold validateRuntimeFiles
  split
  · rename_i missing
    simp only [reduceCtorEq, false_iff, not_and, Bool.not_eq_true]
    simp only [Bool.or_eq_true, Option.isNone_iff_eq_none] at missing
    intro bearer key
    rcases missing with (noBearer | noKey) | noStore
    · rw [noBearer] at bearer
      cases bearer
    · rw [noKey] at key
      cases key
    · rw [noStore]
      rfl
  · rename_i there
    simp only [Bool.or_eq_true, not_or, Option.isNone_iff_eq_none, ← Ne.eq_def,
      ← Option.isSome_iff_ne_none] at there
    simp only [there, and_self]

/-- The secrets are read exactly if the key file is a key, the bearer file holds a bearer that the receiver
can take, and there is a credential store. -/
theorem readSecrets_eq_ok {key : EncryptionKey} {bearer : ReceiverBearer} :
    readSecrets config files = .ok (key, bearer) ↔
      files.contents config.spoolKeyPath = some key.bytes ∧
        (∃ bytes, files.contents config.receiverBearerPath = some bytes ∧
          runtimeBearer bytes = some bearer) ∧
        files.credentials.isSome := by
  unfold readSecrets
  simp only [bind_eq_ok, pure, Except.pure, Except.ok.injEq, Prod.mk.injEq]
  constructor
  · rintro ⟨_, valid, keyBytes, keyRead, key', keyed, bearerBytes, bearerRead, bearer', runs, rfl, rfl⟩
    rw [spoolKeyFrom_eq_ok] at keyed
    subst keyed
    exact ⟨(readBounded_eq_ok.mp keyRead).1, ⟨bearerBytes, (readBounded_eq_ok.mp bearerRead).1,
      bearerFrom_eq_ok.mp runs⟩, (validateRuntimeFiles_eq_ok.mp valid).2.2⟩
  · rintro ⟨keyHeld, ⟨bytes, bearerHeld, runs⟩, stored⟩
    obtain ⟨-, long, short, -⟩ := runtimeBearer_eq_some runs
    have keyLength := key.length
    refine ⟨(), validateRuntimeFiles_eq_ok.mpr ⟨?_, ?_, stored⟩, key.bytes,
      readBounded_eq_ok.mpr ⟨keyHeld, ?_, ?_⟩, key, spoolKeyFrom_eq_ok.mpr rfl, bytes,
      readBounded_eq_ok.mpr ⟨bearerHeld, ?_, ?_⟩, bearer, bearerFrom_eq_ok.mpr runs, rfl, rfl⟩
    · rw [bearerHeld]
      rfl
    · rw [keyHeld]
      rfl
    · rw [← List.length_pos_iff_ne_nil]
      omega
    · unfold maxSecretBytes
      omega
    · rw [← List.length_pos_iff_ne_nil]
      omega
    · unfold maxSecretBytes
      omega

/-- `serve` gets to the spool exactly if it reads the secrets. -/
theorem readStartup_eq_ok (accepted : config.Accepted) {startup : Startup} :
    readStartup config files = .ok startup ↔
      readSecrets config files = .ok (startup.key, startup.bearer) ∧
        config.spoolConfig = .ok startup.spool := by
  obtain ⟨spool, configured, -⟩ := accepted.spoolConfig
  unfold readStartup
  rw [bind_eq_ok]
  constructor
  · rintro ⟨⟨key, bearer⟩, read, rest⟩
    rw [configured] at rest ⊢
    obtain rfl := Except.ok.inj rest
    exact ⟨read, rfl⟩
  · rintro ⟨read, same⟩
    refine ⟨_, read, ?_⟩
    rw [same]
    rfl

end

/-! ### Receiver tokens -/

theorem utf8EncodeChar_of_ascii {c : Char} (ascii : c.toNat < 128) :
    String.utf8EncodeChar c = [UInt8.ofNat c.toNat] := by
  have size : c.utf8Size = 1 := Char.utf8Size_eq_one_iff.mpr (by
    rw [UInt32.le_iff_toNat_le]
    exact Nat.le_of_lt_succ ascii)
  rw [String.utf8EncodeChar_eq_singleton size]
  rfl

/-- ASCII text is read back from its bytes. -/
theorem asciiText_bytes {text : Str} (ascii : ∀ c ∈ text, c.toNat < 128) :
    asciiText (Str.bytes text) = some text := by
  have encoded : Str.bytes text = text.map fun c => UInt8.ofNat c.toNat := by
    rw [Str.bytes, List.flatMap_congr fun c inside => utf8EncodeChar_of_ascii (ascii c inside),
      List.map_eq_flatMap]
  have small : (Str.bytes text).all (fun byte => decide (byte.toNat < 128)) = true := by
    rw [encoded, List.all_eq_true]
    intro byte inside
    obtain ⟨c, there, rfl⟩ := List.mem_map.mp inside
    have low := ascii c there
    rw [UInt8.toNat_ofNat_of_lt' (by unfold UInt8.size; omega), decide_eq_true_eq]
    exact low
  have back : (text.map fun c => UInt8.ofNat c.toNat).map (fun byte => Char.ofNat byte.toNat) = text := by
    rw [List.map_map]
    refine (List.map_congr_left fun c there => ?_).trans (List.map_id text)
    have low := ascii c there
    rw [Function.comp_apply, UInt8.toNat_ofNat_of_lt' (by unfold UInt8.size; omega), Char.ofNat_toNat, id]
  rw [asciiText, if_pos small, encoded, back]

/-- `URL_SAFE_NO_PAD.encode` on thirty-two bytes: forty-three characters of the alphabet. -/
def UrlSafe (tokens : TokenHost) : Prop :=
  ∀ secret : Secret, (tokens.encodeSecret secret.val).length = 43 ∧
    ∀ c ∈ tokens.encodeSecret secret.val, c ∈ Credentials.base64Alphabet

theorem visible_of_mem_base64Alphabet {c : Char} (inside : c ∈ Credentials.base64Alphabet) :
    0x21 ≤ c.toNat ∧ c.toNat ≤ 0x7e := by
  have all : Credentials.base64Alphabet.all
      (fun c => decide (0x21 ≤ c.toNat ∧ c.toNat ≤ 0x7e)) = true := by decide
  exact of_decide_eq_true (List.all_eq_true.mp all c inside)

/-- A drawn token is a bearer that the receiver can take. -/
theorem UrlSafe.runtimeBearer {tokens : TokenHost} (urlSafe : UrlSafe tokens) (secret : Secret) :
    ∃ bearer, runtimeBearer (Str.bytes (tokens.encodeSecret secret.val)) = some bearer ∧
      bearer.text = tokens.encodeSecret secret.val := by
  obtain ⟨length, alphabet⟩ := urlSafe secret
  have visible : ∀ c ∈ tokens.encodeSecret secret.val, 0x21 ≤ c.toNat ∧ c.toNat ≤ 0x7e :=
    fun c inside => visible_of_mem_base64Alphabet (alphabet c inside)
  have read := asciiText_bytes fun c inside => (visible c inside).2.trans_lt (by decide)
  have valid : boundedVisibleAscii (tokens.encodeSecret secret.val) 16 4096 = true := by
    rw [boundedVisibleAscii, Bool.and_eq_true, decide_eq_true_eq, List.all_eq_true, length]
    exact ⟨by decide, fun c inside => decide_eq_true (visible c inside)⟩
  refine ⟨⟨_, valid⟩, ?_, rfl⟩
  rw [TeslatlasEdge.runtimeBearer, read, Option.bind_some, ReceiverBearer.make, dif_pos valid]

end TeslatlasEdge
