/-
Module: TeslatlasEdge.Credentials.Acceptance
Purpose: Whether a successful operation leaves a store that can be loaded again.  `load` refuses a
  file of more than one mebibyte and `save` writes files of any length, so it does exactly as long as
  the printed credentials fit.
Trusted boundary: none
Main exports: Invocation.Fits, Invocation.Sound, StaysLoadable, stays_loadable_iff
-/
import TeslatlasEdge.Credentials.Validity

namespace TeslatlasEdge.Credentials

open Lib

/-! ### The length of the printed file -/

/-- Length of an optional time. -/
def timeSize : Option I64 → Nat
  | none => 4
  | some time => Json.intSize time.val

/-- Length of the identifier of the rotated credential, or of `null`. -/
def rotationSize : Bool → Nat
  | true => 38
  | false => 4

/-- Length of a printed credential with its separators: the field names, the layout, an identifier
and a digest take 296 bytes. -/
def entrySize (label : Str) (createdAtMs expiresAtMs : I64) (validUntilMs revokedAtMs : Option I64)
    (rotated : Bool) : Nat :=
  296 + Json.strSize label + Json.intSize createdAtMs.val + Json.intSize expiresAtMs.val
    + timeSize validUntilMs + timeSize revokedAtMs + rotationSize rotated

def StoredCredential.printedSize (credential : StoredCredential) : Nat :=
  entrySize credential.label credential.createdAtMs credential.expiresAtMs credential.validUntilMs
    credential.revokedAtMs credential.rotationOf.isSome

/-- Length of a printed file that holds at least one credential. -/
def CredentialFile.printedSize (file : CredentialFile) : Nat :=
  41 + (file.credentials.map StoredCredential.printedSize).sum

section Sizes

variable {host : TokenHost}

theorem strSize_uuid (lawful : host.Lawful) (id : Uuid) :
    Json.strSize (host.formatUuid id) = 38 := by
  have ones : (host.formatUuid id).map Json.escapedLength = (host.formatUuid id).map fun _ => 1 := by
    refine List.map_congr_left fun c inside => ?_
    rcases lawful.plainUuid id c inside with hex | rfl
    · exact escapedLength_lowerHex hex
    · decide
  rw [Json.strSize, ones, List.map_const', List.sum_replicate, lawful.uuidLength]
  rfl

theorem prettySize_printTime (depth : Nat) (time : Option I64) :
    (printTime time).prettySize depth = timeSize time := by
  cases time <;> rfl

theorem prettySize_printUuid (lawful : host.Lawful) (depth : Nat) (id : Option Uuid) :
    (printUuid host id).prettySize depth = rotationSize id.isSome := by
  cases id with
  | none => rfl
  | some id => exact strSize_uuid lawful id

/-- How long a credential is printed. -/
theorem prettySize_credential (lawful : host.Lawful) {credential : StoredCredential}
    (digest : validDigest credential.secretDigest = true) :
    6 + (credential.toJson host).prettySize 2 = credential.printedSize := by
  have keys : Json.strSize "id".toList = 4 ∧ Json.strSize "label".toList = 7 ∧
      Json.strSize "secret_digest".toList = 15 ∧ Json.strSize "created_at_ms".toList = 15 ∧
      Json.strSize "expires_at_ms".toList = 15 ∧ Json.strSize "valid_until_ms".toList = 16 ∧
      Json.strSize "revoked_at_ms".toList = 15 ∧ Json.strSize "rotation_of".toList = 13 := by
    decide
  simp only [StoredCredential.toJson, Json.prettySize, Json.prettyFieldsSize, strSize_uuid lawful,
    strSize_digest digest, prettySize_printTime, prettySize_printUuid lawful,
    StoredCredential.printedSize, entrySize]
  omega

theorem prettyItemsSize_credentials (lawful : host.Lawful) {credentials : List StoredCredential}
    (digests : ∀ credential ∈ credentials, validDigest credential.secretDigest = true) :
    Json.prettyItemsSize 2 (credentials.map (StoredCredential.toJson host)) =
      (credentials.map StoredCredential.printedSize).sum := by
  induction credentials with
  | nil => rfl
  | cons credential credentials ih =>
      have first := prettySize_credential lawful (digests credential List.mem_cons_self)
      have rest := ih fun other inside => digests other (List.mem_cons_of_mem _ inside)
      simp only [List.map_cons, Json.prettyItemsSize, List.sum_cons, rest]
      omega

/-- How long a file of credentials is printed. -/
theorem printedFile_size (lawful : host.Lawful) {file : CredentialFile}
    (version : file.version = storeVersion) (occupied : file.credentials ≠ [])
    (digests : ∀ credential ∈ file.credentials, validDigest credential.secretDigest = true) :
    (printedFile host file).size = file.printedSize := by
  have keys : Json.strSize "version".toList = 9 ∧ Json.strSize "credentials".toList = 13 ∧
      Json.intSize (storeVersion : Nat) = 1 := by decide
  have items := prettyItemsSize_credentials lawful digests
  obtain ⟨_, credentials⟩ := file
  subst version
  cases credentials with
  | nil => exact absurd rfl occupied
  | cons credential credentials =>
      rw [List.map_cons] at items
      simp only [printedFile, CredentialFile.toJson, CredentialFile.printedSize, List.map_cons,
        Json.prettySize, Json.prettyFieldsSize, items]
      omega

end Sizes

/-! ### What `load` accepts -/

theorem anyInvalid_eq_false_iff {ids : List Uuid} {credentials : List StoredCredential} :
    anyInvalid ids credentials = false ↔
      (∀ credential ∈ credentials, credential.wellFormed = true ∧ credential.id ∉ ids) ∧
        (credentials.map StoredCredential.id).Nodup := by
  induction credentials generalizing ids with
  | nil => simp [anyInvalid]
  | cons credential credentials ih =>
      rw [List.forall_mem_cons]
      simp only [anyInvalid, Bool.or_eq_false_iff, ih, List.map_cons, List.nodup_cons,
        List.mem_cons, not_or, List.contains_eq_mem, decide_eq_false_iff_not, Bool.not_eq_false',
        List.mem_map, not_exists, not_and]
      constructor
      · rintro ⟨⟨new, formed⟩, rest, distinct⟩
        exact ⟨⟨⟨formed, new⟩, fun other inside => ⟨(rest other inside).1, (rest other inside).2.2⟩⟩,
          fun other inside => (rest other inside).2.1, distinct⟩
      · rintro ⟨⟨⟨formed, new⟩, rest⟩, apart, distinct⟩
        exact ⟨⟨new, formed⟩, fun other inside =>
          ⟨(rest other inside).1, apart other inside, (rest other inside).2⟩, distinct⟩

/-- The checks of `load`, apart from the length of the file. -/
structure CredentialFile.Acceptable (file : CredentialFile) : Prop where
  version : file.version = storeVersion
  formed : ∀ credential ∈ file.credentials, credential.wellFormed = true
  distinct : (file.credentials.map StoredCredential.id).Nodup

/-- What a store reads as is acceptable. -/
theorem acceptable_of_readStore {disk : StoreDisk} {file : CredentialFile}
    (reads : readStore disk = .ok file) : file.Acceptable := by
  obtain ⟨-, -, -, -, version, valid⟩ := readStore_eq_ok reads
  obtain ⟨formed, distinct⟩ := anyInvalid_eq_false_iff.mp valid
  exact ⟨version, fun credential inside => (formed credential inside).1, distinct⟩

/-- An acceptable file that is small reads back. -/
theorem CredentialFile.Acceptable.reads {stored : StoreFile} {file : CredentialFile}
    (acceptable : file.Acceptable) (contents : stored.contents = some file)
    (small : stored.size ≤ maxStoreBytes) : readStore (some stored) = .ok file := by
  have valid : anyInvalid [] file.credentials = false :=
    anyInvalid_eq_false_iff.mpr
      ⟨fun credential inside => ⟨acceptable.formed credential inside, List.not_mem_nil⟩,
        acceptable.distinct⟩
  simp only [readStore, contents, valid, acceptable.version, if_neg (not_lt.mpr small),
    ne_eq, not_true, if_false, Bool.false_eq_true]

/-- A credential is well formed when its label and digest are and it lasts. -/
theorem StoredCredential.wellFormed_iff {credential : StoredCredential} :
    credential.wellFormed = true ↔ validLabel credential.label = true ∧
      credential.createdAtMs.val < credential.expiresAtMs.val ∧
      validDigest credential.secretDigest = true := by
  simp only [wellFormed, Bool.and_eq_true, decide_eq_true_eq, and_assoc]

/-! ### Editing and appending -/

section Edits

variable {file : CredentialFile} {id : Uuid} {old : StoredCredential}
  {change : StoredCredential → StoredCredential}

theorem mem_editCredential {credentials : List StoredCredential} {credential : StoredCredential}
    (inside : credential ∈ editCredential id change credentials) :
    credential ∈ credentials ∨ ∃ old ∈ credentials, credential = change old := by
  induction credentials with
  | nil => cases inside
  | cons first rest ih =>
      unfold editCredential at inside
      split at inside
      · rcases List.mem_cons.mp inside with rfl | later
        · exact .inr ⟨first, List.mem_cons_self, rfl⟩
        · exact .inl (List.mem_cons_of_mem _ later)
      · rcases List.mem_cons.mp inside with rfl | later
        · exact .inl List.mem_cons_self
        · rcases ih later with kept | ⟨old, held, rfl⟩
          · exact .inl (List.mem_cons_of_mem _ kept)
          · exact .inr ⟨old, List.mem_cons_of_mem _ held, rfl⟩

/-- An edit keeps the identifiers. -/
theorem map_id_editCredential (id : Uuid) {change : StoredCredential → StoredCredential}
    (keeps : ∀ credential, (change credential).id = credential.id)
    (credentials : List StoredCredential) :
    (editCredential id change credentials).map StoredCredential.id =
      credentials.map StoredCredential.id := by
  induction credentials with
  | nil => rfl
  | cons first rest ih =>
      unfold editCredential
      split
      · simp only [List.map_cons, keeps]
      · simp only [List.map_cons, ih]

/-- An edit of a credential that keeps its identifier and stays well formed keeps a file
acceptable. -/
theorem CredentialFile.Acceptable.edit (acceptable : file.Acceptable)
    (keeps : ∀ credential, (change credential).id = credential.id)
    (stays : ∀ credential, credential.wellFormed = true → (change credential).wellFormed = true) :
    (file.edit id change).Acceptable where
  version := acceptable.version
  formed := by
    intro credential inside
    rcases mem_editCredential inside with kept | ⟨old, held, rfl⟩
    · exact acceptable.formed credential kept
    · exact stays old (acceptable.formed old held)
  distinct := by
    change ((editCredential id change file.credentials).map StoredCredential.id).Nodup
    rw [map_id_editCredential id keeps]
    exact acceptable.distinct

theorem CredentialFile.find_eq_none_iff :
    file.find id = none ↔ id ∉ file.credentials.map StoredCredential.id := by
  simp only [find, List.find?_eq_none, decide_eq_true_eq, List.mem_map, not_exists, not_and]

/-- A fresh credential keeps a file acceptable. -/
theorem CredentialFile.Acceptable.push (acceptable : file.Acceptable)
    {credential : StoredCredential} (fresh : file.find credential.id = none)
    (formed : credential.wellFormed = true) : (file.push credential).Acceptable where
  version := acceptable.version
  formed := by
    intro other inside
    rcases List.mem_append.mp inside with held | new
    · exact acceptable.formed other held
    · rw [List.mem_singleton.mp new]
      exact formed
  distinct := by
    change ((file.credentials ++ [credential]).map StoredCredential.id).Nodup
    rw [List.map_append, List.nodup_append]
    refine ⟨acceptable.distinct, List.nodup_singleton _, fun held inside other new same => ?_⟩
    rw [List.map_singleton, List.mem_singleton] at new
    rw [same, new] at inside
    exact CredentialFile.find_eq_none_iff.mp fresh inside

/-- It makes the file longer by its own size. -/
theorem CredentialFile.printedSize_push (credential : StoredCredential) :
    (file.push credential).printedSize = file.printedSize + credential.printedSize := by
  simp only [printedSize, push, List.map_append, List.sum_append, List.map_singleton,
    List.sum_singleton, add_assoc]

/-- An edit makes it longer by the difference. -/
theorem CredentialFile.printedSize_edit (change : StoredCredential → StoredCredential)
    (found : file.find id = some old) :
    (file.edit id change).printedSize + old.printedSize =
      file.printedSize + (change old).printedSize := by
  obtain ⟨version, credentials⟩ := file
  simp only [printedSize, CredentialFile.edit]
  simp only [find] at found
  induction credentials with
  | nil => cases found
  | cons first rest ih =>
      by_cases here : first.id = id
      · simp only [List.find?_cons, here, decide_true, Option.some.injEq] at found
        subst found
        simp only [editCredential, here, if_true, List.map_cons, List.sum_cons]
        omega
      · simp only [List.find?_cons, here, decide_false] at found
        have rest := ih found
        simp only [editCredential, here, if_false, List.map_cons, List.sum_cons]
        omega

end Edits

/-! ### One operation -/

/-- The clock an operation is given. -/
def Command.nowMs : Command → I64
  | .enrol _ nowMs _ => nowMs
  | .rotate _ nowMs _ _ => nowMs
  | .revoke _ nowMs => nowMs

/-- The credential an operation is about. -/
def Command.Targets (host : TokenHost) (id : Uuid) : Command → Prop
  | .enrol _ _ _ => False
  | .rotate credentialId _ _ _ => host.parseUuid credentialId = some id
  | .revoke credentialId _ => host.parseUuid credentialId = some id

/-- The stored credentials leave room for what an accepted operation adds: the printed file, the new
credential, and a time in the place of an older one or of `null`. -/
def Command.Fits (host : TokenHost) (file : CredentialFile) : Command → Prop
  | .enrol label nowMs ttlMs =>
      validLabel label = true → ValidTtl ttlMs →
      file.printedSize + entrySize label nowMs (I64.saturatingAdd nowMs ttlMs) none none false
        ≤ maxStoreBytes
  | .rotate credentialId nowMs overlapMs ttlMs => ∀ id old,
      ValidTtl ttlMs → ValidOverlap overlapMs → host.parseUuid credentialId = some id →
      file.find id = some old → old.activeAt nowMs = true →
      file.printedSize + timeSize (some (old.cutoff nowMs overlapMs))
        + entrySize old.label nowMs (I64.saturatingAdd nowMs ttlMs) none none true
        ≤ maxStoreBytes + timeSize old.validUntilMs
  | .revoke credentialId nowMs => ∀ id old,
      host.parseUuid credentialId = some id → file.find id = some old →
      file.printedSize + timeSize (some (old.revocation nowMs))
        ≤ maxStoreBytes + timeSize old.revokedAtMs

def Invocation.Fits (host : TokenHost) (disk : StoreDisk) (invocation : Invocation) : Prop :=
  ∀ file, readStore disk = .ok file → invocation.command.Fits host file

/-- What a successful operation must leave behind. -/
structure Invocation.Sound (host : TokenHost) (disk : StoreDisk) (invocation : Invocation)
    (reply : Option IssuedCredential) : Prop where
  /-- The saved file can be loaded. -/
  loads : ∃ file, readStore (invocation.after host disk) = .ok file
  /-- The new token verifies at its creation time. -/
  verifies : ∀ issued, reply = some issued →
    answer (verify host issued.token invocation.command.nowMs (invocation.after host disk)) = .ok true
  /-- Every other token verifies where it did. -/
  others : ∀ token parsed time, ParsedToken.parse host token = some parsed →
    ¬ invocation.command.Targets host parsed.id →
    answer (verify host token time disk) = .ok true →
    answer (verify host token time (invocation.after host disk)) = .ok true

section Steps

variable {host : TokenHost} {disk : StoreDisk} {draw : Draw} {file file' : CredentialFile}
  {command : Command} {reply : Option IssuedCredential}

/-- The clock leaves room for the longest lifetime. -/
def Command.Timely (command : Command) : Prop := command.nowMs.val ≤ 2 ^ 63 - 1 - maxTtlMs

/-- An issued credential is well formed. -/
theorem issue_wellFormed {label : Str} {rotationOf : Option Uuid} {nowMs ttlMs : I64}
    (labelled : validLabel label = true) (lasting : ValidTtl ttlMs)
    (timely : nowMs.val ≤ 2 ^ 63 - 1 - maxTtlMs) :
    (issue host draw label rotationOf nowMs ttlMs).stored.wellFormed = true := by
  rw [StoredCredential.wellFormed_iff]
  refine ⟨labelled, ?_, validDigest_hexEncode (host.sha256 _).property⟩
  obtain ⟨now, low, high⟩ := nowMs
  unfold ValidTtl at lasting
  change now ≤ 2 ^ 63 - 1 - maxTtlMs at timely
  change now < max (-2 ^ 63) (min (now + ttlMs.val) (2 ^ 63 - 1))
  omega

theorem CredentialFile.find_edit_eq_none {id other : Uuid}
    {change : StoredCredential → StoredCredential}
    (keeps : ∀ credential, (change credential).id = credential.id) (absent : file.find other = none) :
    (file.edit id change).find other = none := by
  rw [CredentialFile.find_edit file id change keeps]
  split
  · rename_i same
    rw [← same, absent]
    rfl
  · exact absent

/-- An accepted operation writes an acceptable file. -/
theorem Writes.acceptable (writes : Writes host draw file command file' reply)
    (acceptable : file.Acceptable) (fresh : file.find draw.id = none) (timely : command.Timely) :
    file'.Acceptable ∧ file'.credentials ≠ [] := by
  cases writes with
  | enrol labelled lasting =>
      exact ⟨acceptable.push fresh (issue_wellFormed labelled lasting timely), by
        simp [CredentialFile.push]⟩
  | @rotate _ nowMs overlapMs _ id old lasting overlapping named found active =>
      have labelled := (StoredCredential.wellFormed_iff.mp
        (acceptable.formed old (List.mem_of_find?_eq_some found))).1
      have edited : (file.edit id (·.cutOff nowMs overlapMs)).Acceptable :=
        acceptable.edit (fun _ => rfl) fun _ formed => formed
      refine ⟨edited.push ?_ (issue_wellFormed labelled lasting timely), by
        simp [CredentialFile.push]⟩
      exact CredentialFile.find_edit_eq_none (fun _ => rfl) fresh
  | @revoke _ nowMs id old named found =>
      have edited : (file.edit id (·.revoked nowMs)).Acceptable :=
        acceptable.edit (fun _ => rfl) fun _ formed => formed
      refine ⟨edited, fun empty => ?_⟩
      have ids := @map_id_editCredential id (·.revoked nowMs) (fun _ => rfl) file.credentials
      rw [show editCredential id (·.revoked nowMs) file.credentials = [] from empty] at ids
      have none_ : file.find id = none := by
        rw [CredentialFile.find_eq_none_iff, ← ids]
        exact List.not_mem_nil
      rw [found] at none_
      cases none_

/-- An accepted operation fits exactly when the file it writes is short enough. -/
theorem Writes.fits_iff (writes : Writes host draw file command file' reply) :
    command.Fits host file ↔ file'.printedSize ≤ maxStoreBytes := by
  cases writes with
  | enrol labelled lasting =>
      rw [CredentialFile.printedSize_push]
      exact ⟨fun fits => fits labelled lasting, fun fits _ _ => fits⟩
  | @rotate credentialId nowMs overlapMs ttlMs id old lasting overlapping named found active =>
      have edited := CredentialFile.printedSize_edit (·.cutOff nowMs overlapMs) found
      have moved : (old.cutOff nowMs overlapMs).printedSize + timeSize old.validUntilMs =
          old.printedSize + timeSize (some (old.cutoff nowMs overlapMs)) := by
        simp only [StoredCredential.printedSize, entrySize, StoredCredential.cutOff]
        omega
      have added : (issue host draw old.label (some old.id) nowMs ttlMs).stored.printedSize =
          entrySize old.label nowMs (I64.saturatingAdd nowMs ttlMs) none none true := rfl
      rw [CredentialFile.printedSize_push, added]
      constructor
      · intro fits
        have room := fits id old lasting overlapping named found active
        omega
      · rintro small other held - - named' found' -
        obtain rfl : id = other := Option.some.inj (named.symm.trans named')
        obtain rfl : old = held := Option.some.inj (found.symm.trans found')
        omega
  | @revoke credentialId nowMs id old named found =>
      have edited := CredentialFile.printedSize_edit (·.revoked nowMs) found
      have moved : (old.revoked nowMs).printedSize + timeSize old.revokedAtMs =
          old.printedSize + timeSize (some (old.revocation nowMs)) := by
        simp only [StoredCredential.printedSize, entrySize, StoredCredential.revoked]
        omega
      constructor
      · intro fits
        have room := fits id old named found
        omega
      · rintro small other held named' found'
        obtain rfl : id = other := Option.some.inj (named.symm.trans named')
        obtain rfl : old = held := Option.some.inj (found.symm.trans found')
        omega

/-- An issued token parses to the credential's identifier and secret. -/
theorem parse_issued (lawful : host.Lawful) (label : Str) (rotationOf : Option Uuid)
    (nowMs ttlMs : I64) :
    ParsedToken.parse host (issue host draw label rotationOf nowMs ttlMs).issued.token =
      some { id := draw.id, secret := draw.secret } := by
  have undotted : ∀ part ∈ ["tte1".toList, host.formatUuid draw.id,
      host.encodeSecret draw.secret.val], '.' ∉ part := by
    simp only [List.forall_mem_cons, List.not_mem_nil, false_implies, implies_true, and_true]
    refine ⟨by decide, fun inside => ?_, lawful.plainSecret draw.secret⟩
    exact absurd (lawful.plainUuid draw.id '.' inside) (by decide)
  have parts : (issue host draw label rotationOf nowMs ttlMs).issued.token.splitOn '.' =
      ["tte1".toList, host.formatUuid draw.id, host.encodeSecret draw.secret.val] := by
    have joined := List.splitOn_intercalate _ undotted (List.cons_ne_nil _ _)
    simpa [List.intercalate, List.intersperse, issue] using joined
  simp only [ParsedToken.parse, parts, ne_eq, not_true, if_false, lawful.readsUuid,
    lawful.readsSecret, Option.bind_eq_bind, Option.bind_some, draw.secret.property, dif_pos]

/-- A new credential is found in the written file and active at its creation. -/
theorem issued_verifies (lawful : host.Lawful) {label : Str} {rotationOf : Option Uuid}
    {nowMs ttlMs : I64} (fresh : file.find draw.id = none)
    (formed : (issue host draw label rotationOf nowMs ttlMs).stored.wellFormed = true)
    (reads : readStore disk = .ok (file.push (issue host draw label rotationOf nowMs ttlMs).stored)) :
    answer (verify host (issue host draw label rotationOf nowMs ttlMs).issued.token nowMs disk) =
      .ok true := by
  rw [verify_eq_true_iff]
  refine ⟨_, _, (issue host draw label rotationOf nowMs ttlMs).stored,
    parse_issued lawful label rotationOf nowMs ttlMs, reads, ?_, ?_, rfl⟩
  · rw [CredentialFile.find_push, fresh]
    exact if_pos rfl
  · rw [StoredCredential.activeAt_iff]
    refine ⟨le_rfl, (StoredCredential.wellFormed_iff.mp formed).2.1, ?_, ?_⟩
    · intro _ cut
      cases cut
    · intro _ revoked
      cases revoked

/-- The new token verifies at its creation time in the written file. -/
theorem Writes.verifies (lawful : host.Lawful) (writes : Writes host draw file command file' reply)
    (acceptable : file.Acceptable) (fresh : file.find draw.id = none) (timely : command.Timely)
    (reads : readStore disk = .ok file') {issued : IssuedCredential} (replied : reply = some issued) :
    answer (verify host issued.token command.nowMs disk) = .ok true := by
  cases writes with
  | enrol labelled lasting =>
      cases replied
      exact issued_verifies lawful fresh (issue_wellFormed labelled lasting timely) reads
  | @rotate _ nowMs overlapMs _ id old lasting overlapping named found active =>
      cases replied
      have labelled := (StoredCredential.wellFormed_iff.mp
        (acceptable.formed old (List.mem_of_find?_eq_some found))).1
      have fresh' : (file.edit id (·.cutOff nowMs overlapMs)).find draw.id = none :=
        CredentialFile.find_edit_eq_none (fun _ => rfl) fresh
      exact issued_verifies lawful fresh' (issue_wellFormed labelled lasting timely) reads
  | revoke named found => cases replied

/-- A credential the operation is not about stays as it is. -/
theorem Writes.find_other (writes : Writes host draw file command file' reply) {id : Uuid}
    {old : StoredCredential} (found : file.find id = some old) (other : ¬ command.Targets host id) :
    file'.find id = some old := by
  rcases writes.find found with stays | ⟨_, _, _, _, rfl, -, -, named, -⟩ | ⟨_, _, rfl, named, -⟩
  · exact stays
  · exact absurd named other
  · exact absurd named other

/-- A successful operation is sound exactly when it fits. -/
theorem Invocation.sound_iff_fits (lawful : host.Lawful) {invocation : Invocation}
    (works : invocation.storage = .completes) (timely : invocation.command.Timely)
    (fresh : ∀ file, readStore disk = .ok file → file.find invocation.draw.id = none) :
    (∀ reply, answer (invocation.perform host disk) = .ok reply → invocation.Sound host disk reply) ↔
      invocation.Fits host disk := by
  have runs {file file' : CredentialFile} {reply : Option IssuedCredential}
      (reads : readStore disk = .ok file)
      (writes : Writes host invocation.draw file invocation.command file' reply) :
      invocation.perform host disk = .ok reply (some (printedFile host file')) := by
    have posts := post_of_writes invocation reads writes (.inl works)
    cases run : invocation.perform host disk with
    | ok answered disk' =>
        obtain ⟨rfl, rfl⟩ := posts.of_ok run
        rfl
    | error e disk' =>
        have late := (posts.of_error run).1
        rw [works] at late
        cases late
  -- An accepted operation writes a file that differs from a loadable one in its length only.
  have loadable {file file' : CredentialFile} {reply : Option IssuedCredential}
      (reads : readStore disk = .ok file)
      (writes : Writes host invocation.draw file invocation.command file' reply) :
      readStore (some (printedFile host file')) = .ok file' ↔ invocation.command.Fits host file := by
    obtain ⟨acceptable, occupied⟩ :=
      writes.acceptable (acceptable_of_readStore reads) (fresh file reads) timely
    have size := printedFile_size lawful acceptable.version occupied fun credential inside =>
      (StoredCredential.wellFormed_iff.mp (acceptable.formed credential inside)).2.2
    rw [writes.fits_iff, ← size]
    constructor
    · intro loads
      obtain ⟨stored, same, -, small, -⟩ := readStore_eq_ok loads
      cases same
      exact small
    · exact acceptable.reads rfl
  constructor
  · intro sound file reads
    have whole {file' : CredentialFile} {reply : Option IssuedCredential}
        (writes : Writes host invocation.draw file invocation.command file' reply) :
        invocation.command.Fits host file := by
      have run := runs reads writes
      have after : invocation.after host disk = some (printedFile host file') := by
        rw [Invocation.after, run]
        rfl
      obtain ⟨other, loads⟩ := (sound reply (by rw [run]; rfl)).loads
      rw [after] at loads
      obtain ⟨stored, same, contents, -⟩ := readStore_eq_ok loads
      cases same
      cases contents
      exact (loadable reads writes).mp loads
    obtain ⟨command, draw, storage⟩ := invocation
    cases command with
    | enrol label nowMs ttlMs =>
        intro labelled lasting
        exact whole (.enrol labelled lasting) labelled lasting
    | rotate credentialId nowMs overlapMs ttlMs =>
        intro id old lasting overlapping named found active
        exact whole (.rotate lasting overlapping named found active) id old lasting overlapping
          named found active
    | revoke credentialId nowMs =>
        intro id old named found
        exact whole (.revoke named found) id old named found
  · intro fits reply answered
    cases run : invocation.perform host disk with
    | error e disk' =>
        rw [run] at answered
        cases answered
    | ok reply' disk' =>
        rw [run] at answered
        obtain rfl : reply' = reply := Except.ok.inj answered
        obtain ⟨-, file, file', reads, writes, rfl⟩ := (post_perform invocation).of_ok run
        have after : invocation.after host disk = some (printedFile host file') := by
          rw [Invocation.after, run]
          rfl
        have loads := (loadable reads writes).mpr (fits file reads)
        have acceptable := acceptable_of_readStore reads
        refine ⟨?_, ?_, ?_⟩
        · rw [after]
          exact ⟨file', loads⟩
        · intro issued replied
          rw [after]
          exact writes.verifies lawful acceptable (fresh file reads) timely loads replied
        · intro token parsed time parse other verified
          rw [after, verify_eq_true_iff]
          obtain ⟨parsed', file'', credential, parse', reads', found, active, digest⟩ :=
            verify_eq_true_iff.mp verified
          obtain rfl : parsed = parsed' := Option.some.inj (parse.symm.trans parse')
          obtain rfl : file = file'' := Except.ok.inj (reads.symm.trans reads')
          exact ⟨parsed, file', credential, parse, loads, writes.find_other found other, active,
            digest⟩

end Steps

/-! ### Whole runs -/

/-- Every successful operation of a run leaves a store that can be loaded, in which the new token
verifies and the others verify as before. -/
def StaysLoadable (host : TokenHost) (disk : StoreDisk) (run : List Invocation) : Prop :=
  ∀ past invocation, past ++ [invocation] <+: run → ∀ reply,
    answer (invocation.perform host (storeAfter host disk past)) = .ok reply →
    invocation.Sound host (storeAfter host disk past) reply

/-- What the environment grants a run: file operations succeed, the clock leaves room for the
longest lifetime, and every drawn identifier is new. -/
structure Granted (file : CredentialFile) (run : List Invocation) : Prop where
  works : ∀ invocation ∈ run, invocation.storage = .completes
  timely : ∀ invocation ∈ run, invocation.command.Timely
  unused : ∀ invocation ∈ run, file.find invocation.draw.id = none
  distinct : (run.map fun invocation => invocation.draw.id).Nodup

section Runs

variable {host : TokenHost} {disk : StoreDisk} {run : List Invocation}

/-- An operation adds no identifier but the one it draws. -/
theorem credentialIn_after {invocation : Invocation} {id : Uuid}
    (absent : credentialIn disk id = none) (other : invocation.draw.id ≠ id) :
    credentialIn (invocation.after host disk) id = none := by
  rcases after_cases host disk invocation with same | ⟨-, reply, file, file', reads, writes, written⟩
  · rw [same]
    exact absent
  · rw [credentialIn_of_readStore reads] at absent
    rw [written, credentialIn_printedFile]
    obtain ⟨command, draw, storage⟩ := invocation
    cases writes with
    | enrol labelled lasting =>
        rw [CredentialFile.find_push, absent]
        exact if_neg other
    | @rotate _ nowMs overlapMs _ target _ lasting overlapping named found active =>
        have absent' : (file.edit target (·.cutOff nowMs overlapMs)).find id = none :=
          CredentialFile.find_edit_eq_none (fun _ => rfl) absent
        rw [CredentialFile.find_push, absent']
        exact if_neg other
    | revoke named found => exact CredentialFile.find_edit_eq_none (fun _ => rfl) absent

/-- An identifier nobody draws stays absent. -/
theorem credentialIn_storeAfter (past : List Invocation) :
    ∀ disk, ∀ id : Uuid, credentialIn disk id = none →
      (∀ invocation ∈ past, invocation.draw.id ≠ id) →
      credentialIn (storeAfter host disk past) id = none := by
  induction past with
  | nil => exact fun _ _ absent _ => absent
  | cons invocation past ih =>
      intro disk id absent others
      refine ih _ id (credentialIn_after absent (others invocation List.mem_cons_self)) ?_
      exact fun later inside => others later (List.mem_cons_of_mem _ inside)

/-- A successful operation never bricks the store exactly when each operation of the run finds room
for what it adds. -/
theorem stays_loadable_iff (lawful : host.Lawful) {file : CredentialFile}
    (accepted : readStore disk = .ok file) (granted : Granted file run) :
    StaysLoadable host disk run ↔
      ∀ past invocation, past ++ [invocation] <+: run →
        invocation.Fits host (storeAfter host disk past) := by
  have step (past : List Invocation) (invocation : Invocation)
      (inside : past ++ [invocation] <+: run) :=
    @Invocation.sound_iff_fits host (storeAfter host disk past) lawful invocation
      (granted.works invocation (inside.subset (List.mem_append_right past List.mem_cons_self)))
      (granted.timely invocation (inside.subset (List.mem_append_right past List.mem_cons_self)))
      (by
        intro file' reads
        rw [← credentialIn_of_readStore reads]
        apply credentialIn_storeAfter
        · rw [credentialIn_of_readStore accepted]
          exact granted.unused invocation
            (inside.subset (List.mem_append_right past List.mem_cons_self))
        · intro earlier member same
          have distinct := granted.distinct.sublist (inside.sublist.map _)
          rw [List.map_append, List.nodup_append] at distinct
          exact distinct.2.2 _ (List.mem_map_of_mem member) _ (List.mem_singleton.mpr rfl) same)
  constructor
  · intro sound past invocation inside
    exact (step past invocation inside).mp (sound past invocation inside)
  · intro fits past invocation inside
    exact (step past invocation inside).mpr (fits past invocation inside)

end Runs

theorem stays_loadable_twoRotations :
    StaysLoadable referenceTokenHost emptyStore twoRotations ↔
      ∀ past invocation, past ++ [invocation] <+: twoRotations →
        invocation.Fits referenceTokenHost (storeAfter referenceTokenHost emptyStore past) := by
  have accepted : readStore emptyStore = .ok ⟨storeVersion, []⟩ := by decide +kernel
  have works : ∀ invocation ∈ twoRotations, invocation.storage = .completes := by decide +kernel
  have timely : ∀ invocation ∈ twoRotations,
      invocation.command.nowMs.val ≤ 2 ^ 63 - 1 - maxTtlMs := by decide +kernel
  exact stays_loadable_iff referenceTokenHost_lawful accepted
    ⟨works, timely, fun _ _ => rfl, by decide +kernel⟩

/-! ### A store that no longer loads -/

def crowdUuid (n : Nat) : Uuid :=
  ⟨List.replicate 14 0 ++ [UInt8.ofNat (n / 256), UInt8.ofNat (n % 256)], rfl⟩

def crowdCredential (n : Nat) : StoredCredential :=
  { id := crowdUuid n
    label := "home-hub".toList
    secretDigest := List.replicate 64 '0'
    createdAtMs := sampleClock 0
    expiresAtMs := sampleClock 60000
    validUntilMs := none
    revokedAtMs := none
    rotationOf := none }

def crowdedFile (count : Nat) : CredentialFile :=
  ⟨storeVersion, (List.range count).map crowdCredential⟩

def crowdedStore (count : Nat) : StoreDisk :=
  some (printedFile referenceTokenHost (crowdedFile count))

theorem oneMore_secret_length : (List.replicate 32 7 : Bytes).length = 32 := rfl

/-- One more enrolment. -/
def oneMore : Invocation :=
  ⟨.enrol "home-hub".toList (sampleClock 1000) (sampleSpan 60000),
    { id := ⟨List.replicate 16 255, rfl⟩, secret := ⟨List.replicate 32 7, oneMore_secret_length⟩ },
    .completes⟩

theorem crowdUuid_injOn {m n : Nat} (hm : m < 65536) (hn : n < 65536)
    (same : crowdUuid m = crowdUuid n) : m = n := by
  have tails := List.append_cancel_left (congrArg Subtype.val same)
  simp only [List.cons.injEq, and_true] at tails
  have high := congrArg UInt8.toNat tails.1
  have low := congrArg UInt8.toNat tails.2
  simp only [UInt8.toNat_ofNat'] at high low
  omega

section Crowd

variable {count : Nat}

theorem crowdedFile_acceptable (bounded : count ≤ 65536) : (crowdedFile count).Acceptable where
  version := rfl
  formed := by
    intro credential inside
    obtain ⟨n, -, rfl⟩ := List.mem_map.mp inside
    rw [StoredCredential.wellFormed_iff]
    change validLabel "home-hub".toList = true ∧ (sampleClock 0).val < (sampleClock 60000).val ∧
      validDigest (List.replicate 64 '0') = true
    decide +kernel
  distinct := by
    change (((List.range count).map crowdCredential).map StoredCredential.id).Nodup
    rw [List.map_map]
    refine List.Nodup.map_on (fun m hm n hn same => ?_) List.nodup_range
    exact crowdUuid_injOn ((List.mem_range.mp hm).trans_le bounded)
      ((List.mem_range.mp hn).trans_le bounded) same

theorem crowdedFile_printedSize : (crowdedFile count).printedSize = 41 + 344 * count := by
  have each : StoredCredential.printedSize ∘ crowdCredential = fun _ => 344 := by
    funext n
    change entrySize "home-hub".toList (sampleClock 0) (sampleClock 60000) none none false = 344
    decide +kernel
  change 41 + (((List.range count).map crowdCredential).map StoredCredential.printedSize).sum = _
  rw [List.map_map, each, List.map_const', List.sum_replicate, List.length_range, smul_eq_mul,
    Nat.mul_comm]

/-- A crowded store below the limit reads back. -/
theorem crowdedStore_reads (some_ : count ≠ 0) (bounded : count ≤ 65536)
    (room : 41 + 344 * count ≤ maxStoreBytes) :
    readStore (crowdedStore count) = .ok (crowdedFile count) := by
  have acceptable := crowdedFile_acceptable bounded
  refine acceptable.reads rfl ?_
  rw [printedFile_size referenceTokenHost_lawful rfl, crowdedFile_printedSize]
  · exact room
  · intro empty
    have none_ := congrArg List.length empty
    rw [crowdedFile, List.length_map, List.length_range] at none_
    exact some_ none_
  · exact fun credential inside =>
      (StoredCredential.wellFormed_iff.mp (acceptable.formed credential inside)).2.2

theorem oneMore_granted : Granted (crowdedFile count) [oneMore] := by
  refine ⟨?_, ?_, ?_, List.nodup_singleton _⟩
  · decide +kernel
  · rw [List.forall_mem_singleton]
    change (sampleClock 1000).val ≤ 2 ^ 63 - 1 - maxTtlMs
    decide +kernel
  · rw [List.forall_mem_singleton, CredentialFile.find_eq_none_iff]
    intro inside
    obtain ⟨credential, held, same⟩ := List.mem_map.mp inside
    obtain ⟨n, -, rfl⟩ := List.mem_map.mp held
    have first := congrArg (fun id : Uuid => id.val.head?) same
    cases first

/-- A full store has been loaded and one more enrolment succeeds; then it no longer loads. -/
theorem crowdedStore_full (some_ : count ≠ 0) (bounded : count ≤ 65536)
    (room : 41 + 344 * count ≤ maxStoreBytes) (full : maxStoreBytes < 41 + 344 * count + 344) :
    readStore (crowdedStore count) = .ok (crowdedFile count) ∧
      Granted (crowdedFile count) [oneMore] ∧
      ¬ StaysLoadable referenceTokenHost (crowdedStore count) [oneMore] := by
  have reads := crowdedStore_reads some_ bounded room
  have granted := @oneMore_granted count
  refine ⟨reads, granted, fun loadable => ?_⟩
  have fits := (Invocation.sound_iff_fits referenceTokenHost_lawful
    (granted.works oneMore List.mem_cons_self) (granted.timely oneMore List.mem_cons_self)
    fun file reads' => by
      obtain rfl : crowdedFile count = file := Except.ok.inj (reads.symm.trans reads')
      exact granted.unused oneMore List.mem_cons_self).mp
    (loadable [] oneMore (List.prefix_refl _)) (crowdedFile count) reads
  have more := fits (by decide +kernel) (by unfold ValidTtl; decide +kernel)
  have entry : entrySize "home-hub".toList (sampleClock 1000)
      (I64.saturatingAdd (sampleClock 1000) (sampleSpan 60000)) none none false = 344 := by
    decide +kernel
  rw [crowdedFile_printedSize, entry] at more
  omega

end Crowd

/-- One credential more, and it does not. -/
theorem enrolment_bricks_crowdedStore :
    readStore (crowdedStore 3048) = .ok (crowdedFile 3048) ∧
      Granted (crowdedFile 3048) [oneMore] ∧
      ¬ StaysLoadable referenceTokenHost (crowdedStore 3048) [oneMore] :=
  crowdedStore_full (by decide) (by decide) (by decide) (by decide)

end TeslatlasEdge.Credentials
