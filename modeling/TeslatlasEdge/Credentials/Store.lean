/-
Module: TeslatlasEdge.Credentials.Store
Purpose: The store of Hub credentials.  One JSON file holds every credential; an operation reads and
  checks the whole file, edits it and replaces it by a rename.  Operations of all processes are
  serialised by the lock on the sidecar file, so a run is a sequence of whole operations.
Trusted boundary: human-reviewed.  Identifiers and secrets are drawn by the environment and written
  and read by the host; a file is known by its length and by what `serde_json` reads from it.
Main exports: TokenHost, StoredCredential, CredentialFile, StoreFile, load, save, enrol, rotate,
  revoke, verify, Invocation, storeAfter
-/
import TeslatlasEdge.Json
import TeslatlasEdge.Lib.Effect

namespace TeslatlasEdge.Credentials

open Lib

def storeVersion : Nat := 1

def maxTtlMs : Int := 366 * 24 * 60 * 60 * 1000

def maxRotationOverlapMs : Int := 24 * 60 * 60 * 1000

/-- The longest file `load` reads. -/
def maxStoreBytes : Nat := 1048576

abbrev Uuid := { bytes : Bytes // bytes.length = 16 }

abbrev Secret := { bytes : Bytes // bytes.length = 32 }

/-- What the store takes from the crates `sha2`, `uuid` and `base64`. -/
structure TokenHost where
  /-- `Sha256::digest`. -/
  sha256 : Bytes → { digest : Bytes // digest.length = 32 }
  /-- `Uuid::to_string`. -/
  formatUuid : Uuid → Str
  /-- `Uuid::parse_str`. -/
  parseUuid : Str → Option Uuid
  /-- `URL_SAFE_NO_PAD.encode`. -/
  encodeSecret : Bytes → Str
  /-- `URL_SAFE_NO_PAD.decode`. -/
  decodeSecret : Str → Option Bytes

inductive CredentialError where
  | invalidPath
  | invalidLabel
  | invalidLifetime
  | invalidOverlap
  | unknownCredential
  | inactiveCredential
  | invalidStore
  | io
deriving Repr, DecidableEq

structure StoredCredential where
  id : Uuid
  label : Str
  secretDigest : Str
  createdAtMs : I64
  expiresAtMs : I64
  validUntilMs : Option I64
  revokedAtMs : Option I64
  rotationOf : Option Uuid
deriving DecidableEq

structure CredentialFile where
  version : Nat
  credentials : List StoredCredential
deriving DecidableEq

structure IssuedCredential where
  credentialId : Str
  token : Str
  secretComponent : Str
deriving DecidableEq

def StoredCredential.activeAt (credential : StoredCredential) (nowMs : I64) : Bool :=
  decide (credential.createdAtMs.val ≤ nowMs.val) && decide (nowMs.val < credential.expiresAtMs.val)
    && credential.validUntilMs.all (fun cutoff => decide (nowMs.val < cutoff.val))
    && credential.revokedAtMs.all (fun revoked => decide (nowMs.val < revoked.val))

/-! ### The printed file -/

section Printing

variable (host : TokenHost)

def printTime : Option I64 → JsonText
  | none => .null
  | some time => .int time.val

def printUuid : Option Uuid → JsonText
  | none => .null
  | some id => .str (host.formatUuid id)

def StoredCredential.toJson (credential : StoredCredential) : JsonText :=
  .obj
    [("id".toList, .str (host.formatUuid credential.id)),
      ("label".toList, .str credential.label),
      ("secret_digest".toList, .str credential.secretDigest),
      ("created_at_ms".toList, .int credential.createdAtMs.val),
      ("expires_at_ms".toList, .int credential.expiresAtMs.val),
      ("valid_until_ms".toList, printTime credential.validUntilMs),
      ("revoked_at_ms".toList, printTime credential.revokedAtMs),
      ("rotation_of".toList, printUuid host credential.rotationOf)]

def CredentialFile.toJson (file : CredentialFile) : JsonText :=
  .obj
    [("version".toList, .int file.version),
      ("credentials".toList, .arr (file.credentials.map (StoredCredential.toJson host)))]

end Printing

/-- The bytes under the store's path. -/
structure StoreFile where
  /-- Their number. -/
  size : Nat
  /-- What `serde_json::from_slice::<CredentialFile>` reads from them. -/
  contents : Option CredentialFile
deriving DecidableEq

/-- The file under the store's path, if there is one. -/
abbrev StoreDisk := Option StoreFile

/-- A computation on the store file; an error keeps the file it was raised with. -/
abbrev StoreM := EStateM CredentialError StoreDisk

/-- How far the operating system lets an operation get. -/
inductive Storage where
  | lockFails
  | failsBeforeRename
  | failsAfterRename
  | completes
deriving Repr, DecidableEq

/-! ### Validation -/

/-- `char::is_control`: the general category Cc. -/
def isControl (c : Char) : Bool := c.toNat < 32 || (127 ≤ c.toNat && c.toNat ≤ 159)

def validLabel (label : Str) : Bool :=
  1 ≤ (Str.bytes label).length && (Str.bytes label).length ≤ 64 && !label.any isControl

def validateLabel (label : Str) : StoreM Unit :=
  if validLabel label then pure () else throw .invalidLabel

def validateTtl (ttlMs : I64) : StoreM Unit :=
  if 1000 ≤ ttlMs.val ∧ ttlMs.val ≤ maxTtlMs then pure () else throw .invalidLifetime

/-- What `load` requires of one credential, besides that its identifier is new. -/
def StoredCredential.wellFormed (credential : StoredCredential) : Bool :=
  validLabel credential.label && decide (credential.createdAtMs.val < credential.expiresAtMs.val)
    && validDigest credential.secretDigest

/-- The scan of `load`, with the identifiers met so far. -/
def anyInvalid (ids : List Uuid) : List StoredCredential → Bool
  | [] => false
  | credential :: credentials =>
      ids.contains credential.id || !credential.wellFormed
        || anyInvalid (credential.id :: ids) credentials

/-- What `load` makes of the file. -/
def readStore : StoreDisk → Except CredentialError CredentialFile
  | none => .error .io
  | some stored =>
      if stored.size > maxStoreBytes then .error .invalidStore
      else
        match stored.contents with
        | none => .error .invalidStore
        | some file =>
            if file.version ≠ storeVersion then .error .invalidStore
            else if anyInvalid [] file.credentials then .error .invalidStore
            else .ok file

def load : StoreM CredentialFile := do
  match readStore (← get) with
  | .ok file => pure file
  | .error error => throw error

/-- The bytes `save` writes: `serde_json::to_vec_pretty`. -/
def printedFile (host : TokenHost) (file : CredentialFile) : StoreFile :=
  { size := (file.toJson host).prettySize 0, contents := some file }

def save (host : TokenHost) (storage : Storage) (file : CredentialFile) : StoreM Unit := do
  if storage = .failsBeforeRename then throw .io
  set (some (printedFile host file))
  if storage = .failsAfterRename then throw .io

def lockMutations (storage : Storage) : StoreM Unit :=
  if storage = .lockFails then throw .io else pure ()

/-! ### Issuing and parsing tokens -/

section Tokens

variable (host : TokenHost)

def digestSecret (id : Uuid) (secret : Bytes) : Str :=
  hexEncode (host.sha256
    (Str.bytes "teslatlas-edge-hub-credential-v1".toList ++ [0] ++ id.val ++ [0] ++ secret)).val

/-- What one operation draws at random. -/
structure Draw where
  id : Uuid
  secret : Secret
deriving DecidableEq

structure IssuedPair where
  stored : StoredCredential
  issued : IssuedCredential

def issue (draw : Draw) (label : Str) (rotationOf : Option Uuid) (nowMs ttlMs : I64) :
    IssuedPair :=
  let secretComponent := host.encodeSecret draw.secret.val
  { stored :=
      { id := draw.id
        label := label
        secretDigest := digestSecret host draw.id draw.secret.val
        createdAtMs := nowMs
        expiresAtMs := I64.saturatingAdd nowMs ttlMs
        validUntilMs := none
        revokedAtMs := none
        rotationOf := rotationOf }
    issued :=
      { credentialId := host.formatUuid draw.id
        token := "tte1".toList ++ '.' :: host.formatUuid draw.id ++ '.' :: secretComponent
        secretComponent := secretComponent } }

structure ParsedToken where
  id : Uuid
  secret : Secret

def ParsedToken.parse (token : Str) : Option ParsedToken :=
  match token.splitOn '.' with
  | [scheme, id, secret] =>
      if scheme ≠ "tte1".toList then none
      else do
        let id ← host.parseUuid id
        let decoded ← host.decodeSecret secret
        if length : decoded.length = 32 then some { id := id, secret := ⟨decoded, length⟩ }
        else none
  | _ => none

end Tokens

/-! ### Operations -/

/-- The credential an identifier finds. -/
def CredentialFile.find (file : CredentialFile) (id : Uuid) : Option StoredCredential :=
  file.credentials.find? fun credential => credential.id = id

/-- `Vec::push` on the credentials. -/
def CredentialFile.push (file : CredentialFile) (credential : StoredCredential) : CredentialFile :=
  { file with credentials := file.credentials ++ [credential] }

/-- An edit of the first credential with an identifier. -/
def editCredential (id : Uuid) (change : StoredCredential → StoredCredential) :
    List StoredCredential → List StoredCredential
  | [] => []
  | credential :: credentials =>
      if credential.id = id then change credential :: credentials
      else credential :: editCredential id change credentials

def CredentialFile.edit (file : CredentialFile) (id : Uuid)
    (change : StoredCredential → StoredCredential) : CredentialFile :=
  { file with credentials := editCredential id change file.credentials }

/-- `Ord::min` on times. -/
def earlier (a b : I64) : I64 := if b.val < a.val then b else a

/-- When a rotation ends the credential it replaces. -/
def StoredCredential.cutoff (credential : StoredCredential) (nowMs overlapMs : I64) : I64 :=
  earlier (I64.saturatingAdd nowMs overlapMs) credential.expiresAtMs

def StoredCredential.cutOff (credential : StoredCredential) (nowMs overlapMs : I64) :
    StoredCredential :=
  { credential with validUntilMs := some (credential.cutoff nowMs overlapMs) }

/-- When a revocation ends a credential. -/
def StoredCredential.revocation (credential : StoredCredential) (nowMs : I64) : I64 :=
  match credential.revokedAtMs with
  | none => nowMs
  | some existing => earlier existing nowMs

def StoredCredential.revoked (credential : StoredCredential) (nowMs : I64) : StoredCredential :=
  { credential with revokedAtMs := some (credential.revocation nowMs) }

section Operations

variable (host : TokenHost) (draw : Draw) (storage : Storage)

def enrol (label : Str) (nowMs ttlMs : I64) : StoreM IssuedCredential := do
  validateLabel label
  validateTtl ttlMs
  lockMutations storage
  let file ← load
  let pair := issue host draw label none nowMs ttlMs
  save host storage (file.push pair.stored)
  pure pair.issued

def rotate (credentialId : Str) (nowMs overlapMs ttlMs : I64) : StoreM IssuedCredential := do
  validateTtl ttlMs
  if ¬ (0 ≤ overlapMs.val ∧ overlapMs.val ≤ maxRotationOverlapMs) then throw .invalidOverlap
  match host.parseUuid credentialId with
  | none => throw .unknownCredential
  | some id =>
      lockMutations storage
      let file ← load
      match file.find id with
      | none => throw .unknownCredential
      | some old =>
          if old.activeAt nowMs = false then throw .inactiveCredential
          let pair := issue host draw old.label (some old.id) nowMs ttlMs
          save host storage ((file.edit id (·.cutOff nowMs overlapMs)).push pair.stored)
          pure pair.issued

def revoke (credentialId : Str) (nowMs : I64) : StoreM Unit := do
  match host.parseUuid credentialId with
  | none => throw .unknownCredential
  | some id =>
      lockMutations storage
      let file ← load
      match file.find id with
      | none => throw .unknownCredential
      | some _ => save host storage (file.edit id (·.revoked nowMs))

def verify (token : Str) (nowMs : I64) : StoreM Bool := do
  match ParsedToken.parse host token with
  | none => pure false
  | some parsed =>
      let file ← load
      match file.find parsed.id with
      | none => pure false
      | some credential =>
          if credential.activeAt nowMs = false then pure false
          else pure (decide (digestSecret host credential.id parsed.secret.val
            = credential.secretDigest))

end Operations

/-! ### Runs -/

inductive Command where
  | enrol (label : Str) (nowMs ttlMs : I64)
  | rotate (credentialId : Str) (nowMs overlapMs ttlMs : I64)
  | revoke (credentialId : Str) (nowMs : I64)
deriving DecidableEq

/-- One operation of some process, with what the environment contributes to it. -/
structure Invocation where
  command : Command
  draw : Draw
  storage : Storage
deriving DecidableEq

/-- Carry an operation out.  A revocation issues nothing. -/
def Invocation.perform (host : TokenHost) (invocation : Invocation) :
    StoreM (Option IssuedCredential) :=
  match invocation.command with
  | .enrol label nowMs ttlMs =>
      some <$> enrol host invocation.draw invocation.storage label nowMs ttlMs
  | .rotate credentialId nowMs overlapMs ttlMs =>
      some <$> rotate host invocation.draw invocation.storage credentialId nowMs overlapMs ttlMs
  | .revoke credentialId nowMs =>
      (fun _ => none) <$> revoke host invocation.storage credentialId nowMs

/-- The file after one operation. -/
def Invocation.after (host : TokenHost) (disk : StoreDisk) (invocation : Invocation) : StoreDisk :=
  finalState (invocation.perform host disk)

/-- The file after a sequence of operations. -/
def storeAfter (host : TokenHost) (disk : StoreDisk) (run : List Invocation) : StoreDisk :=
  run.foldl (Invocation.after host) disk

end TeslatlasEdge.Credentials
