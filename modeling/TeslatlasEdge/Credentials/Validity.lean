/-
Module: TeslatlasEdge.Credentials.Validity
Purpose: When a credential is active over a whole run of operations.  An operation can reopen a
  credential in one way only: a second rotation replaces an earlier cutoff by a later one.
Trusted boundary: none
Main exports: Writes, post_perform, Invocation.KeepsCutoff, ShrinksOnly, validity_shrinks_iff
-/
import TeslatlasEdge.Credentials.Reference

namespace TeslatlasEdge.Credentials

open Lib

/-- The lifetimes `validate_ttl` accepts. -/
def ValidTtl (ttlMs : I64) : Prop := 1000 ≤ ttlMs.val ∧ ttlMs.val ≤ maxTtlMs

/-- The overlaps `rotate` accepts. -/
def ValidOverlap (overlapMs : I64) : Prop :=
  0 ≤ overlapMs.val ∧ overlapMs.val ≤ maxRotationOverlapMs

/-- What an accepted operation writes over the file it has loaded, and what it issues. -/
inductive Writes (host : TokenHost) (draw : Draw) (file : CredentialFile) :
    Command → CredentialFile → Option IssuedCredential → Prop where
  | enrol {label : Str} {nowMs ttlMs : I64} (labelled : validLabel label = true)
      (lasting : ValidTtl ttlMs) :
      Writes host draw file (.enrol label nowMs ttlMs)
        (file.push (issue host draw label none nowMs ttlMs).stored)
        (some (issue host draw label none nowMs ttlMs).issued)
  | rotate {credentialId : Str} {nowMs overlapMs ttlMs : I64} {id : Uuid} {old : StoredCredential}
      (lasting : ValidTtl ttlMs) (overlapping : ValidOverlap overlapMs)
      (named : host.parseUuid credentialId = some id) (found : file.find id = some old)
      (active : old.activeAt nowMs = true) :
      Writes host draw file (.rotate credentialId nowMs overlapMs ttlMs)
        ((file.edit id (·.cutOff nowMs overlapMs)).push
          (issue host draw old.label (some old.id) nowMs ttlMs).stored)
        (some (issue host draw old.label (some old.id) nowMs ttlMs).issued)
  | revoke {credentialId : Str} {nowMs : I64} {id : Uuid} {old : StoredCredential}
      (named : host.parseUuid credentialId = some id) (found : file.find id = some old) :
      Writes host draw file (.revoke credentialId nowMs)
        (file.edit id (·.revoked nowMs)) none

/-! ### What an operation does to the file -/

section Operations

variable {host : TokenHost} {disk : StoreDisk} {storage : Storage}

/-- Loading gives what the store reads as, and changes nothing. -/
theorem post_load {onOk : CredentialFile → StoreDisk → Prop}
    {onError : CredentialError → StoreDisk → Prop}
    (ok : ∀ file, readStore disk = .ok file → onOk file disk) (error : ∀ e, onError e disk) :
    Post load disk onOk onError := by
  simp only [load, post_bind, post_get]
  cases reads : readStore disk with
  | ok file => exact ok file reads
  | error e => exact error e

/-- Saving replaces the store, unless the write fails before its rename. -/
theorem post_save {file : CredentialFile} {onOk : Unit → StoreDisk → Prop}
    {onError : CredentialError → StoreDisk → Prop}
    (ok : storage ≠ .failsBeforeRename → storage ≠ .failsAfterRename →
      onOk () (some (printedFile host file)))
    (kept : onError .io disk)
    (late : storage = .failsAfterRename → onError .io (some (printedFile host file))) :
    Post (save host storage file) disk onOk onError := by
  cases storage with
  | lockFails => exact ok (by simp) (by simp)
  | failsBeforeRename => exact kept
  | failsAfterRename => exact late rfl
  | completes => exact ok (by simp) (by simp)

/-- The file an operation leaves when it has written, and what it issued. -/
def Invocation.Wrote (host : TokenHost) (invocation : Invocation) (disk : StoreDisk)
    (reply : Option IssuedCredential) (disk' : StoreDisk) : Prop :=
  ∃ file file', readStore disk = .ok file ∧
    Writes host invocation.draw file invocation.command file' reply ∧
    disk' = some (printedFile host file')

/-- The common end of the operations: the edited file is saved. -/
theorem post_save_wrote (invocation : Invocation) {file file' : CredentialFile}
    {reply : Option IssuedCredential} (unlocked : invocation.storage ≠ .lockFails)
    (reads : readStore disk = .ok file)
    (writes : Writes host invocation.draw file invocation.command file' reply) :
    Post (save host invocation.storage file') disk
      (fun _ disk' => invocation.storage = .completes ∧ invocation.Wrote host disk reply disk')
      (fun _ disk' => disk' = disk ∨
        invocation.storage = .failsAfterRename ∧ ∃ reply, invocation.Wrote host disk reply disk') := by
  refine post_save (fun early late => ?_) (.inl rfl) fun late => ?_
  · refine ⟨?_, file, file', reads, writes, rfl⟩
    cases stored : invocation.storage with
    | lockFails => exact absurd stored unlocked
    | failsBeforeRename => exact absurd stored early
    | failsAfterRename => exact absurd stored late
    | completes => rfl
  · exact .inr ⟨late, reply, file, file', reads, writes, rfl⟩

/-- Every operation either writes what it describes or leaves the file alone. -/
theorem post_perform (invocation : Invocation) :
    Post (invocation.perform host) disk
      (fun reply disk' =>
        invocation.storage = .completes ∧ invocation.Wrote host disk reply disk')
      (fun _ disk' => disk' = disk ∨
        invocation.storage = .failsAfterRename ∧ ∃ reply, invocation.Wrote host disk reply disk') := by
  obtain ⟨command, draw, storage⟩ := invocation
  cases command with
  | enrol label nowMs ttlMs =>
      simp only [Invocation.perform, enrol, validateLabel, validateTtl, lockMutations, post_map,
        post_bind, post_ite, post_pure, post_throw, true_or, implies_true, and_true, true_and]
      intro labelled lasting unlocked
      apply post_load
      · intro file reads
        exact post_save_wrote ⟨.enrol label nowMs ttlMs, draw, storage⟩ unlocked reads
          (.enrol labelled lasting)
      · exact fun _ => .inl rfl
  | rotate credentialId nowMs overlapMs ttlMs =>
      simp only [Invocation.perform, rotate, validateTtl, post_map, post_bind, post_ite, post_pure,
        post_throw, true_or, implies_true, and_true, true_and, not_not]
      intro lasting overlapping
      cases named : host.parseUuid credentialId with
      | none => exact .inl rfl
      | some id =>
          simp only [lockMutations, post_bind, post_ite, post_pure, post_throw, true_or,
            implies_true, true_and]
          intro unlocked
          apply post_load
          · intro file reads
            cases found : file.find id with
            | none => exact .inl rfl
            | some old =>
                simp only [post_bind, post_ite, post_pure, post_throw, true_or, implies_true,
                  true_and, Bool.not_eq_false]
                intro active
                exact post_save_wrote ⟨.rotate credentialId nowMs overlapMs ttlMs, draw, storage⟩
                  unlocked reads (.rotate lasting overlapping named found active)
          · exact fun _ => .inl rfl
  | revoke credentialId nowMs =>
      simp only [Invocation.perform, revoke, post_map]
      cases named : host.parseUuid credentialId with
      | none => exact .inl rfl
      | some id =>
          simp only [lockMutations, post_bind, post_ite, post_pure, post_throw, true_or,
            implies_true, true_and]
          intro unlocked
          apply post_load
          · intro file reads
            cases found : file.find id with
            | none => exact .inl rfl
            | some old =>
                exact post_save_wrote ⟨.revoke credentialId nowMs, draw, storage⟩ unlocked reads
                  (.revoke named found)
          · exact fun _ => .inl rfl

/-- An operation that is accepted and whose save reaches the rename replaces the file. -/
theorem post_of_writes (invocation : Invocation) {file file' : CredentialFile}
    {reply : Option IssuedCredential} (reads : readStore disk = .ok file)
    (writes : Writes host invocation.draw file invocation.command file' reply)
    (reached : invocation.storage = .completes ∨ invocation.storage = .failsAfterRename) :
    Post (invocation.perform host) disk
      (fun answered disk' => answered = reply ∧ disk' = some (printedFile host file'))
      (fun _ disk' => invocation.storage = .failsAfterRename ∧
        disk' = some (printedFile host file')) := by
  obtain ⟨command, draw, storage⟩ := invocation
  have unlocked : lockMutations storage disk = .ok () disk := by
    rcases reached with rfl | rfl <;> rfl
  have loaded : load disk = .ok file disk := by
    simp only [load, bind, EStateM.bind, get, getThe, MonadStateOf.get, EStateM.get, reads]
    rfl
  have saved (file : CredentialFile) :
      Post (save host storage file) disk (fun _ disk' => disk' = some (printedFile host file))
        (fun _ disk' => storage = .failsAfterRename ∧ disk' = some (printedFile host file)) := by
    rcases reached with rfl | rfl
    · exact rfl
    · exact ⟨rfl, rfl⟩
  cases writes with
  | enrol labelled lasting =>
      simp only [Invocation.perform, enrol, validateLabel, validateTtl, post_map, post_bind,
        labelled, if_true, if_pos (show _ ∧ _ from lasting), post_pure, post_iff_of_run unlocked,
        post_iff_of_run loaded]
      exact (saved _).monoOk fun _ _ written => ⟨trivial, written⟩
  | rotate lasting overlapping named found active =>
      have overlaps := overlapping
      unfold ValidOverlap at overlaps
      simp only [Invocation.perform, rotate, validateTtl, post_map, post_bind, named, overlaps,
        not_true, if_false, if_pos (show _ ∧ _ from lasting), post_pure, post_iff_of_run unlocked,
        post_iff_of_run loaded, found, active, and_self, Bool.true_eq_false]
      exact (saved _).monoOk fun _ _ written => ⟨trivial, written⟩
  | revoke named found =>
      simp only [Invocation.perform, revoke, post_map, post_bind, named, post_iff_of_run unlocked,
        post_iff_of_run loaded, found]
      exact (saved _).monoOk fun _ _ written => ⟨trivial, written⟩

/-- An invocation that reaches its rename leaves the file it wrote. -/
theorem after_of_writes (invocation : Invocation) {file file' : CredentialFile}
    {reply : Option IssuedCredential} (reads : readStore disk = .ok file)
    (writes : Writes host invocation.draw file invocation.command file' reply)
    (reached : invocation.storage = .completes ∨ invocation.storage = .failsAfterRename) :
    invocation.after host disk = some (printedFile host file') := by
  apply Post.final (I := fun disk' => disk' = some (printedFile host file'))
  exact (post_of_writes invocation reads writes reached).mono (fun _ _ written => written.2)
    fun _ _ written => written.2

end Operations

/-! ### Looking credentials up -/

/-- The credential the file holds under an identifier. -/
def credentialIn (disk : StoreDisk) (id : Uuid) : Option StoredCredential :=
  (disk.bind StoreFile.contents).bind fun file => file.find id

theorem credentialIn_printedFile (host : TokenHost) (file : CredentialFile) (id : Uuid) :
    credentialIn (some (printedFile host file)) id = file.find id := rfl

/-- A store that reads is small, of the present version and without conflicts. -/
theorem readStore_eq_ok {disk : StoreDisk} {file : CredentialFile}
    (reads : readStore disk = .ok file) :
    ∃ stored, disk = some stored ∧ stored.contents = some file ∧ stored.size ≤ maxStoreBytes ∧
      file.version = storeVersion ∧ anyInvalid [] file.credentials = false := by
  unfold readStore at reads
  split at reads
  · cases reads
  · rename_i stored
    split at reads
    · cases reads
    · rename_i small
      split at reads
      · cases reads
      · rename_i contents
        split at reads
        · cases reads
        · rename_i versioned
          split at reads
          · cases reads
          · rename_i valid
            cases reads
            exact ⟨stored, rfl, contents, not_lt.mp small, not_not.mp versioned,
              Bool.eq_false_iff.mpr valid⟩

theorem credentialIn_of_readStore {disk : StoreDisk} {file : CredentialFile}
    (reads : readStore disk = .ok file) (id : Uuid) : credentialIn disk id = file.find id := by
  obtain ⟨stored, rfl, contents, -⟩ := readStore_eq_ok reads
  simp only [credentialIn, Option.bind_some, contents]

namespace CredentialFile

variable {file : CredentialFile} {id : Uuid}

/-- A pushed credential is found where no older one is. -/
theorem find_push (credential : StoredCredential) :
    (file.push credential).find id =
      (file.find id).or (if credential.id = id then some credential else none) := by
  simp only [find, push, List.find?_append, List.find?_singleton, decide_eq_true_eq]

theorem find_push_of_some {credential held : StoredCredential} (found : file.find id = some held) :
    (file.push credential).find id = some held := by
  rw [find_push, found]
  rfl

/-- An edit changes the credential it names. -/
theorem find_edit (file : CredentialFile) (id : Uuid) (change : StoredCredential → StoredCredential)
    (keeps : ∀ credential, (change credential).id = credential.id) (other : Uuid) :
    (file.edit id change).find other =
      if other = id then (file.find id).map change else file.find other := by
  obtain ⟨version, credentials⟩ := file
  simp only [find, edit]
  induction credentials with
  | nil => simp [editCredential]
  | cons credential credentials ih =>
      by_cases here : credential.id = id
      · simp only [editCredential, here, if_true, List.find?_cons, keeps, decide_true]
        by_cases same : other = id
        · simp [same]
        · simp [same, Ne.symm same]
      · simp only [editCredential, here, if_false, List.find?_cons, decide_false]
        by_cases same : other = id
        · subst same
          simp only [here, decide_false, if_true] at ih ⊢
          exact ih
        · simp only [same, if_false] at ih ⊢
          rw [ih]

end CredentialFile

/-! ### When a credential is active -/

namespace StoredCredential

variable {credential : StoredCredential} {nowMs overlapMs time : I64}

/-- A credential is active from its creation to its expiry, cutoff and revocation. -/
theorem activeAt_iff :
    credential.activeAt time = true ↔
      credential.createdAtMs.val ≤ time.val ∧ time.val < credential.expiresAtMs.val ∧
        (∀ cutoff, credential.validUntilMs = some cutoff → time.val < cutoff.val) ∧
        ∀ revoked, credential.revokedAtMs = some revoked → time.val < revoked.val := by
  cases validUntil : credential.validUntilMs <;> cases revokedAt : credential.revokedAtMs <;>
    simp [activeAt, validUntil, revokedAt, and_assoc]

theorem earlier_val (a b : I64) : (earlier a b).val = min a.val b.val := by
  unfold earlier
  split
  · rw [min_eq_right (by omega)]
  · rw [min_eq_left (by omega)]

/-- A rotation does not move an earlier cutoff to a later time, unless a revocation ends the
credential before that cutoff anyway. -/
def KeepsCutoff (credential : StoredCredential) (nowMs overlapMs : I64) : Prop :=
  ∀ cutoff, credential.validUntilMs = some cutoff →
    (credential.cutoff nowMs overlapMs).val ≤ cutoff.val ∨
      ∃ revoked, credential.revokedAtMs = some revoked ∧ revoked.val ≤ cutoff.val

/-- A cutoff that keeps the earlier one makes nothing active that was not. -/
theorem activeAt_of_cutOff (keeps : credential.KeepsCutoff nowMs overlapMs)
    (active : (credential.cutOff nowMs overlapMs).activeAt time = true) :
    credential.activeAt time = true := by
  rw [activeAt_iff] at active ⊢
  obtain ⟨created, unexpired, uncut, unrevoked⟩ := active
  have before := uncut _ rfl
  refine ⟨created, unexpired, fun cutoff set_ => ?_, unrevoked⟩
  rcases keeps cutoff set_ with sooner | ⟨revoked, ended, sooner⟩
  · exact lt_of_lt_of_le before sooner
  · exact lt_of_lt_of_le (unrevoked revoked ended) sooner

/-- A rotation that moves a cutoff to a later time makes the credential active at the old cutoff. -/
theorem keepsCutoff_of_shrinks (active : credential.activeAt nowMs = true)
    (shrinks : ∀ time, (credential.cutOff nowMs overlapMs).activeAt time = true →
      credential.activeAt time = true) : credential.KeepsCutoff nowMs overlapMs := by
  intro cutoff set_
  by_contra later
  rw [not_or, not_le] at later
  obtain ⟨later, unended⟩ := later
  rw [activeAt_iff] at active
  have unexpired : cutoff.val < credential.expiresAtMs.val := by
    have bound := later
    rw [StoredCredential.cutoff, earlier_val] at bound
    omega
  have reopened : (credential.cutOff nowMs overlapMs).activeAt cutoff = true := by
    rw [activeAt_iff]
    refine ⟨?_, unexpired, ?_, ?_⟩
    · exact (active.1.trans_lt (active.2.2.1 cutoff set_)).le
    · intro moved same
      cases same
      exact later
    · intro revoked ended
      by_contra sooner
      exact unended ⟨revoked, ended, not_lt.mp sooner⟩
  have still := shrinks cutoff reopened
  rw [activeAt_iff] at still
  exact absurd (still.2.2.1 cutoff set_) (lt_irrefl _)

/-- Nor does a revocation. -/
theorem activeAt_of_revoked (active : (credential.revoked nowMs).activeAt time = true) :
    credential.activeAt time = true := by
  rw [activeAt_iff] at active ⊢
  obtain ⟨created, unexpired, uncut, unrevoked⟩ := active
  refine ⟨created, unexpired, uncut, fun revoked ended => ?_⟩
  have before := unrevoked _ rfl
  simp only [revocation, ended, earlier_val] at before
  omega

end StoredCredential

/-! ### One operation -/

/-- An operation that rotates an active credential and gets as far as the rename does not move an
earlier cutoff to a later time. -/
def Invocation.KeepsCutoff (host : TokenHost) (disk : StoreDisk) (invocation : Invocation) : Prop :=
  ∀ credentialId nowMs overlapMs ttlMs id file old,
    invocation.command = .rotate credentialId nowMs overlapMs ttlMs →
    (invocation.storage = .completes ∨ invocation.storage = .failsAfterRename) →
    ValidTtl ttlMs → ValidOverlap overlapMs → host.parseUuid credentialId = some id →
    readStore disk = .ok file → file.find id = some old → old.activeAt nowMs = true →
    old.KeepsCutoff nowMs overlapMs

section Steps

variable {host : TokenHost} {disk : StoreDisk}

/-- What happens to a credential in a write: it stays, is cut off or is revoked. -/
theorem Writes.find {draw : Draw} {file file' : CredentialFile} {command : Command}
    {reply : Option IssuedCredential} (writes : Writes host draw file command file' reply)
    {id : Uuid} {old : StoredCredential} (found : file.find id = some old) :
    file'.find id = some old ∨
      (∃ credentialId nowMs overlapMs ttlMs,
        command = .rotate credentialId nowMs overlapMs ttlMs ∧ ValidTtl ttlMs ∧
        ValidOverlap overlapMs ∧ host.parseUuid credentialId = some id ∧
        old.activeAt nowMs = true ∧ file'.find id = some (old.cutOff nowMs overlapMs)) ∨
      ∃ credentialId nowMs, command = .revoke credentialId nowMs ∧
        host.parseUuid credentialId = some id ∧ file'.find id = some (old.revoked nowMs) := by
  cases writes with
  | enrol labelled lasting => exact .inl (CredentialFile.find_push_of_some found)
  | @rotate credentialId nowMs overlapMs ttlMs target rotated lasting overlapping named here active =>
      have looked := file.find_edit target (·.cutOff nowMs overlapMs) (fun _ => rfl) id
      by_cases same : id = target
      · subst same
        obtain rfl : old = rotated := Option.some.inj (found.symm.trans here)
        rw [if_pos rfl, found] at looked
        refine .inr (.inl ⟨_, _, _, _, rfl, lasting, overlapping, named, active, ?_⟩)
        exact CredentialFile.find_push_of_some looked
      · rw [if_neg same, found] at looked
        exact .inl (CredentialFile.find_push_of_some looked)
  | @revoke credentialId nowMs target revoked named here =>
      have looked := file.find_edit target (·.revoked nowMs) (fun _ => rfl) id
      by_cases same : id = target
      · subst same
        rw [if_pos rfl, found] at looked
        exact .inr (.inr ⟨credentialId, nowMs, rfl, named, looked⟩)
      · rw [if_neg same, found] at looked
        exact .inl looked

/-- The file after an operation is the old one or a written one. -/
theorem after_cases (host : TokenHost) (disk : StoreDisk) (invocation : Invocation) :
    invocation.after host disk = disk ∨
      (invocation.storage = .completes ∨ invocation.storage = .failsAfterRename) ∧
        ∃ reply, invocation.Wrote host disk reply (invocation.after host disk) := by
  apply Post.final (I := fun disk' => disk' = disk ∨
    (invocation.storage = .completes ∨ invocation.storage = .failsAfterRename) ∧
      ∃ reply, invocation.Wrote host disk reply disk')
  refine (post_perform invocation).mono (fun reply disk' wrote => ?_) fun _ disk' failed => ?_
  · exact .inr ⟨.inl wrote.1, reply, wrote.2⟩
  · exact failed.imp id fun late => ⟨.inr late.1, late.2⟩

/-- A credential stays in the store, and an operation that keeps its cutoff does not make it active
where it was not. -/
theorem Invocation.KeepsCutoff.shrinks {invocation : Invocation}
    (keeps : invocation.KeepsCutoff host disk) {id : Uuid} {old : StoredCredential}
    (held : credentialIn disk id = some old) :
    ∃ new, credentialIn (invocation.after host disk) id = some new ∧
      ∀ time, new.activeAt time = true → old.activeAt time = true := by
  rcases after_cases host disk invocation with same | ⟨reached, reply, wrote⟩
  · rw [same]
    exact ⟨old, held, fun _ active => active⟩
  · obtain ⟨file, file', reads, writes, written⟩ := wrote
    rw [written, credentialIn_printedFile]
    rw [credentialIn_of_readStore reads] at held
    rcases writes.find held with stays | ⟨_, _, _, _, rotates, lasting, overlapping, named, active,
      cut⟩ | ⟨_, nowMs, -, -, revoked⟩
    · exact ⟨old, stays, fun _ active => active⟩
    · refine ⟨_, cut, fun time => StoredCredential.activeAt_of_cutOff ?_⟩
      exact keeps _ _ _ _ id file old rotates reached lasting overlapping named reads held active
    · exact ⟨_, revoked, fun time => StoredCredential.activeAt_of_revoked⟩

/-- An operation that never makes a credential active where it was not keeps every cutoff. -/
theorem Invocation.keepsCutoff_of_shrinks {invocation : Invocation}
    (shrinks : ∀ id old new, credentialIn disk id = some old →
      credentialIn (invocation.after host disk) id = some new →
      ∀ time, new.activeAt time = true → old.activeAt time = true) :
    invocation.KeepsCutoff host disk := by
  intro credentialId nowMs overlapMs ttlMs id file old rotates reached lasting overlapping named
    reads found active
  obtain ⟨command, draw, storage⟩ := invocation
  obtain rfl : command = .rotate credentialId nowMs overlapMs ttlMs := rotates
  have written := after_of_writes ⟨_, draw, storage⟩ reads
    (.rotate lasting overlapping named found active) reached
  have looked := file.find_edit id (·.cutOff nowMs overlapMs) (fun _ => rfl) id
  rw [if_pos rfl, found] at looked
  refine StoredCredential.keepsCutoff_of_shrinks active (shrinks id old _ ?_ ?_)
  · rw [credentialIn_of_readStore reads, found]
  · rw [written, credentialIn_printedFile]
    exact CredentialFile.find_push_of_some looked

end Steps

/-! ### Whole runs -/

/-- Validity only shrinks along a run. -/
structure ShrinksOnly (host : TokenHost) (disk : StoreDisk) (run : List Invocation) : Prop where
  /-- A credential that is not active at a time after some call is not active then later on. -/
  inactive : ∀ past later, past ++ later <+: run → ∀ id old new,
    credentialIn (storeAfter host disk past) id = some old →
    credentialIn (storeAfter host disk (past ++ later)) id = some new →
    ∀ time, old.activeAt time = false → new.activeAt time = false
  /-- The token of a credential that has been cut off or revoked does not verify from that time
  on. -/
  ended : ∀ past later, past ++ later <+: run → ∀ old token parsed ending,
    ParsedToken.parse host token = some parsed →
    credentialIn (storeAfter host disk past) parsed.id = some old →
    (old.validUntilMs = some ending ∨ old.revokedAtMs = some ending) →
    ∀ time : I64, ending.val ≤ time.val →
    answer (verify host token time (storeAfter host disk (past ++ later))) ≠ .ok true

section Runs

variable {host : TokenHost} {disk : StoreDisk} {run : List Invocation}

/-- A run of commands is one part after the other. -/
theorem storeAfter_append (past later : List Invocation) :
    storeAfter host disk (past ++ later) = storeAfter host (storeAfter host disk past) later :=
  List.foldl_append

/-- The step lemma carried along a run, by induction on the calls after the first state. -/
theorem shrinks_along (later : List Invocation) :
    ∀ disk, (∀ past invocation, past ++ [invocation] <+: later →
      invocation.KeepsCutoff host (storeAfter host disk past)) → ∀ id old,
    credentialIn disk id = some old →
    ∃ new, credentialIn (storeAfter host disk later) id = some new ∧
      ∀ time, new.activeAt time = true → old.activeAt time = true := by
  induction later with
  | nil => exact fun disk _ id old held => ⟨old, held, fun _ active => active⟩
  | cons invocation later ih =>
      intro disk keeps id old held
      have first : invocation.KeepsCutoff host disk :=
        keeps [] invocation (List.prefix_append [invocation] later)
      obtain ⟨middle, held', narrower⟩ := first.shrinks held
      obtain ⟨new, held'', narrower'⟩ := ih (invocation.after host disk)
        (fun past next inside => keeps (invocation :: past) next
          ((List.prefix_cons_inj invocation).mpr inside)) id middle held'
      exact ⟨new, held'', fun time active => narrower time (narrower' time active)⟩

/-- When a token verifies. -/
theorem verify_eq_true_iff {token : Str} {time : I64} :
    answer (verify host token time disk) = .ok true ↔
      ∃ parsed file credential, ParsedToken.parse host token = some parsed ∧
        readStore disk = .ok file ∧ file.find parsed.id = some credential ∧
        credential.activeAt time = true ∧
        digestSecret host credential.id parsed.secret.val = credential.secretDigest := by
  cases parse : ParsedToken.parse host token with
  | none => simp [verify, parse, answer, pure, EStateM.pure]
  | some parsed =>
      cases reads : readStore disk with
      | error e =>
          have refused : answer (verify host token time disk) = .error e := by
            simp only [verify, parse, load, bind, EStateM.bind, get, getThe, MonadStateOf.get,
              EStateM.get, reads]
            rfl
          simp [refused]
      | ok file =>
          have loaded : load disk = .ok file disk := by
            simp only [load, bind, EStateM.bind, get, getThe, MonadStateOf.get, EStateM.get, reads]
            rfl
          simp only [verify, parse, bind, EStateM.bind, loaded]
          cases found : file.find parsed.id with
          | none => simp [answer, pure, EStateM.pure, found]
          | some credential =>
              by_cases active : credential.activeAt time = false
              · simp [answer, pure, EStateM.pure, active, found]
              · simp [answer, pure, EStateM.pure, active, found]

/-- Validity only shrinks along a run exactly when no rotation of the run moves an earlier cutoff to
a later time. -/
theorem validity_shrinks_iff (host : TokenHost) (disk : StoreDisk) (run : List Invocation) :
    ShrinksOnly host disk run ↔
      ∀ past invocation, past ++ [invocation] <+: run →
        invocation.KeepsCutoff host (storeAfter host disk past) := by
  constructor
  · intro shrinks past invocation inside
    apply Invocation.keepsCutoff_of_shrinks
    intro id old new held held' time active
    by_contra inactive
    have still := shrinks.inactive past [invocation] inside id old new held
      (by rw [storeAfter_append]; exact held') time (Bool.eq_false_iff.mpr inactive)
    rw [active] at still
    cases still
  · intro keeps
    have along (past later : List Invocation) (inside : past ++ later <+: run) (id : Uuid)
        (old : StoredCredential) (held : credentialIn (storeAfter host disk past) id = some old) :
        ∃ new, credentialIn (storeAfter host disk (past ++ later)) id = some new ∧
          ∀ time, new.activeAt time = true → old.activeAt time = true := by
      rw [storeAfter_append]
      refine shrinks_along later _ (fun middle invocation within => ?_) id old held
      rw [← storeAfter_append]
      refine keeps (past ++ middle) invocation (List.IsPrefix.trans ?_ inside)
      rw [List.append_assoc]
      exact (List.prefix_append_right_inj past).mpr within
    refine ⟨fun past later inside id old new held held' time inactive => ?_,
      fun past later inside old token parsed ending reads held ended time after verified => ?_⟩
    · obtain ⟨other, held'', narrower⟩ := along past later inside id old held
      obtain rfl : new = other := Option.some.inj (held'.symm.trans held'')
      by_contra active
      rw [narrower time (Bool.not_eq_false _ ▸ active)] at inactive
      cases inactive
    · obtain ⟨other, file, new, reads', loaded, found, active, -⟩ := verify_eq_true_iff.mp verified
      obtain rfl : parsed = other := Option.some.inj (reads.symm.trans reads')
      rw [← credentialIn_of_readStore loaded] at found
      obtain ⟨same, held', narrower⟩ := along past later inside parsed.id old held
      obtain rfl : new = same := Option.some.inj (found.symm.trans held')
      have stillActive := StoredCredential.activeAt_iff.mp (narrower time active)
      rcases ended with cut | revoked
      · exact absurd (stillActive.2.2.1 ending cut) (not_lt.mpr after)
      · exact absurd (stillActive.2.2.2 ending revoked) (not_lt.mpr after)

end Runs

/-! ### A reopened credential -/

/-- The file `open` creates. -/
def emptyStore : StoreDisk := some (printedFile referenceTokenHost ⟨storeVersion, []⟩)

def sampleUuid (n : Nat) : Uuid := ⟨List.replicate 15 0 ++ [UInt8.ofNat n], rfl⟩

def sampleDraw (n : Nat) : Draw := { id := sampleUuid n, secret := ⟨List.replicate 32 7, rfl⟩ }

/-- A clock reading some milliseconds into the sample runs. -/
def sampleClock (ms : Nat) : I64 := I64.clamp (1800000000000 + ms)

def sampleSpan (ms : Nat) : I64 := I64.clamp ms

/-- A credential is rotated twice, the second time with the longer overlap. -/
def twoRotations : List Invocation :=
  [⟨.enrol "home-hub".toList (sampleClock 0) (sampleSpan 120000), sampleDraw 1, .completes⟩,
    ⟨.rotate (formatHyphenated (sampleUuid 1)) (sampleClock 1000) (sampleSpan 5000)
      (sampleSpan 120000), sampleDraw 2, .completes⟩,
    ⟨.rotate (formatHyphenated (sampleUuid 1)) (sampleClock 2000) (sampleSpan 60000)
      (sampleSpan 120000), sampleDraw 3, .completes⟩]

/-- The cutoff of the first rotation is lifted by the second. -/
theorem twoRotations_reopen :
    (credentialIn (storeAfter referenceTokenHost emptyStore (twoRotations.take 2))
        (sampleUuid 1)).map (·.activeAt (sampleClock 6000)) = some false ∧
      (credentialIn (storeAfter referenceTokenHost emptyStore twoRotations)
        (sampleUuid 1)).map (·.activeAt (sampleClock 6000)) = some true := by
  decide +kernel

/-- A second rotation reopens what the first one closed. -/
theorem validity_reopened_by_twoRotations :
    ¬ ShrinksOnly referenceTokenHost emptyStore twoRotations := by
  intro shrinks
  obtain ⟨cut, reopened⟩ := twoRotations_reopen
  obtain ⟨old, held, inactive⟩ := Option.map_eq_some_iff.mp cut
  obtain ⟨new, held', active⟩ := Option.map_eq_some_iff.mp reopened
  have still := shrinks.inactive (twoRotations.take 2) (twoRotations.drop 2) (List.prefix_refl _)
    (sampleUuid 1) old new held held' (sampleClock 6000) inactive
  rw [active] at still
  cases still

end TeslatlasEdge.Credentials
