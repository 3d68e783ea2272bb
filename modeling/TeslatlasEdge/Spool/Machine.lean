/-
Module: TeslatlasEdge.Spool.Machine
Purpose: The state of a running spool and the file operations it is built from.  A section is a
  computation over the whole machine: the in-memory state, the disk, the write-failure latch, the
  faults the environment still injects, and the disks the process has left behind so far, each of
  which is a point at which it may have stopped.
Trusted boundary: human-reviewed embedding of the standard library's file operations
Main exports: SpoolConfig, SpoolError, Entry, State, Machine, Section, writeAtomic, removeFile,
  quarantineFileBounded, Faults.Within, QuarantineRoom, post_stageAndRename, post_writeAtomic,
  post_syncDirectory, post_removeFile, post_ensureQuarantineCapacity, post_quarantineFileBounded
-/
import TeslatlasEdge.Lib.Call
import TeslatlasEdge.Storage

namespace TeslatlasEdge

open Lib

/-! ### Configuration and errors -/

structure SpoolConfig where
  maxBytes : Nat
  maxRecords : Nat
  retentionMs : I64
  batchMaxBytes : Nat
  batchMaxRecords : Nat
  maxBytes_le : maxBytes ≤ u64Max
  maxRecords_le : maxRecords ≤ u64Max
  batchMaxBytes_le : batchMaxBytes ≤ u64Max
  batchMaxRecords_le : batchMaxRecords ≤ u64Max

inductive SpoolError where
  | invalidConfig
  | capacityExceeded
  | batchItemTooLarge
  | storageFull
  | keyMismatch
  | corruptRecord
  | io
  | alreadyOpen
  | sequenceStateMissing
  | serialization
  | receiptRecoveryRequired
  | v1AcknowledgementHistoryPruned
  | invalidAcknowledgement
  | protocolUpgradeRequired
  /-- Not an error of the program: a loop of the source was unrolled as often as the model was asked
  to unroll it. -/
  | unrolled
deriving Repr, DecidableEq

def CryptoError.toSpoolError : CryptoError → SpoolError
  | .keyMismatch => .keyMismatch
  | .invalidCiphertext => .corruptRecord

/-! ### In-memory state -/

structure Entry where
  recordId : RecordId
  stableRecordId : RecordId
  spoolSeq : Nat
  admittedAtMs : I64
  expiresAtMs : I64
  encryptedBytes : Nat
  path : Path
deriving DecidableEq

structure ReceiptEntry where
  receipt : AckReceipt
  path : Path
deriving DecidableEq

structure GapEntry where
  notice : GapNoticeV2
  encryptedBytes : Nat
  path : Path
deriving DecidableEq

structure State where
  entries : OrdMap RecordId Entry
  stableIndex : OrdMap RecordId RecordId
  gaps : OrdMap RecordId GapEntry
  receipts : OrdMap Str ReceiptEntry
  nextSpoolSequence : Nat
  nextReceiptSequence : Nat
  v1AckHistoryPruned : Bool
  pendingBytes : Nat
  pendingGapBytes : Nat
  corruptRecords : Nat
  expiredRecords : Nat
  countedPendingExpirations : OrdMap Nat RecordId
  unresolvedIntegrity : Bool

/-- `State::default`. -/
def State.initial : State :=
  { entries := .empty, stableIndex := .empty, gaps := .empty, receipts := .empty
    nextSpoolSequence := 1, nextReceiptSequence := 0, v1AckHistoryPruned := false
    pendingBytes := 0, pendingGapBytes := 0, corruptRecords := 0, expiredRecords := 0
    countedPendingExpirations := .empty, unresolvedIntegrity := false }

/-- What stays fixed while a spool is open. -/
structure Inner where
  config : SpoolConfig
  key : EncryptionKey
  host : Host

/-! ### Faults -/

/-- How a durable write fails: before anything is left behind, with its staging file left in `tmp`,
or after the rename when the directory sync fails.  The flag tells an exhausted device from other
errors. -/
inductive WriteFault where
  | unwritten (full : Bool)
  | orphaned (full : Bool)
  | unsynced (full : Bool)
deriving DecidableEq

/-- The faults still to come, one list for each kind of file operation; the head decides the next
operation of its kind, and an empty list means no further fault. -/
structure Faults where
  writes : List (Option WriteFault)
  removals : List (Option Bool)
  renames : List (Option Bool)
  syncs : List (Option Bool)
  /-- Counts of the quarantine directory: its listing and the metadata of its files. -/
  listings : List (Option Bool)
deriving DecidableEq

def Faults.none : Faults :=
  { writes := [], removals := [], renames := [], syncs := [], listings := [] }

/-- `map_io_error`. -/
def mapIoError (full : Bool) : SpoolError := if full then .storageFull else .io

/-! ### The machine -/

structure Machine where
  state : State
  disk : Disk
  /-- Disks before each file operation so far, newest first. -/
  history : List Disk
  storageWriteFailed : Bool
  faults : Faults

abbrev Section := EStateM SpoolError Machine

namespace Section

def state : Section State := do
  let machine ← get
  pure machine.state

def disk : Section Disk := do
  let machine ← get
  pure machine.disk

def modifyState (f : State → State) : Section Unit :=
  modify fun machine => { machine with state := f machine.state }

/-- One file operation takes effect. -/
def commit (f : Disk → Disk) : Section Unit :=
  modify fun machine =>
    { machine with disk := f machine.disk, history := machine.disk :: machine.history }

def latchWriteFailure : Section Unit :=
  modify fun machine => { machine with storageWriteFailed := true }

def nextWriteFault : Section (Option WriteFault) :=
  modifyGet fun machine =>
    (machine.faults.writes.head?.join,
      { machine with faults := { machine.faults with writes := machine.faults.writes.tail } })

def nextRemovalFault : Section (Option Bool) :=
  modifyGet fun machine =>
    (machine.faults.removals.head?.join,
      { machine with faults := { machine.faults with removals := machine.faults.removals.tail } })

def nextRenameFault : Section (Option Bool) :=
  modifyGet fun machine =>
    (machine.faults.renames.head?.join,
      { machine with faults := { machine.faults with renames := machine.faults.renames.tail } })

def nextSyncFault : Section (Option Bool) :=
  modifyGet fun machine =>
    (machine.faults.syncs.head?.join,
      { machine with faults := { machine.faults with syncs := machine.faults.syncs.tail } })

def nextListingFault : Section (Option Bool) :=
  modifyGet fun machine =>
    (machine.faults.listings.head?.join,
      { machine with faults := { machine.faults with listings := machine.faults.listings.tail } })

end Section

open Section

/-! ### File operations -/

/-- The free function `write_atomic`: stage the bytes in `tmp`, rename them into place and sync the
directory. -/
def stageAndRename (place : Disk → Disk) (body : Blob) : Section Unit := do
  match ← nextWriteFault with
  | none => commit place
  | some (.unwritten full) => throw (mapIoError full)
  | some (.orphaned full) =>
      commit fun disk => { disk with tmp := body :: disk.tmp }
      throw (mapIoError full)
  | some (.unsynced full) =>
      commit place
      throw (mapIoError full)

/-- `Spool::write_atomic`: refuse while the latch is set, and set it on any failure. -/
def writeAtomic (destination : Path) (body : Blob) : Section Unit := do
  if (← get).storageWriteFailed then throw .io
  tryCatch (stageAndRename (fun disk => disk.put body destination) body) fun error => do
    latchWriteFailure
    throw error

/-- `sync_directory`. -/
def syncDirectory : Section Unit := do
  match ← nextSyncFault with
  | none => pure ()
  | some full => throw (mapIoError full)

/-- `fs::remove_file` where a missing file is not an error. -/
def removeFile (path : Path) : Section Unit := do
  match ← nextRemovalFault with
  | some full => throw (mapIoError full)
  | none =>
      if ((← disk).read path).isSome then commit fun disk => disk.remove path

/-- Total length of the files in `quarantine`. -/
def quarantineBytes (disk : Disk) : Nat :=
  disk.quarantine.foldl (fun bytes body => saturatingAdd bytes body.length) 0

def ensureQuarantineCapacity (inner : Inner) (additionalBytes : Nat) (addingFile : Bool) :
    Section Unit := do
  match ← nextListingFault with
  | some full => throw (mapIoError full)
  | none =>
      let disk ← disk
      let resultingFiles := saturatingAdd disk.quarantine.length addingFile.toNat
      if resultingFiles > inner.config.maxRecords ∨
          saturatingAdd (quarantineBytes disk) additionalBytes > inner.config.maxBytes then
        throw .capacityExceeded

/-- `quarantine_file`: rename the file away, then sync both directories. -/
def quarantineFile (path : Path) : Section Unit := do
  match ← nextRenameFault with
  | some full => throw (mapIoError full)
  | none =>
      match (← disk).read path with
      | none => throw .io
      | some body =>
          commit fun disk =>
            { disk.remove path with quarantine := body :: disk.quarantine }
          syncDirectory
          syncDirectory

def quarantineFileBounded (inner : Inner) (path : Path) : Section Unit := do
  let sourceBytes := (((← disk).read path).map Blob.length).getD 0
  ensureQuarantineCapacity inner sourceBytes true
  quarantineFile path

/-! ### Faults that are left -/

/-- The faults `f` are what is left of `g` after some were used up. -/
structure Faults.Within (f g : Faults) : Prop where
  writes : f.writes <:+ g.writes
  removals : f.removals <:+ g.removals
  renames : f.renames <:+ g.renames
  syncs : f.syncs <:+ g.syncs
  listings : f.listings <:+ g.listings

namespace Faults.Within

theorem refl (f : Faults) : f.Within f :=
  ⟨List.suffix_refl _, List.suffix_refl _, List.suffix_refl _, List.suffix_refl _,
    List.suffix_refl _⟩

theorem trans {f g h : Faults} (first : f.Within g) (second : g.Within h) : f.Within h :=
  ⟨first.writes.trans second.writes, first.removals.trans second.removals,
    first.renames.trans second.renames, first.syncs.trans second.syncs,
    first.listings.trans second.listings⟩

/-- Where nothing fails, nothing will. -/
theorem eq_none {f : Faults} (within : f.Within .none) : f = .none := by
  obtain ⟨writes, removals, renames, syncs, listings⟩ := within
  cases f
  simp only [Faults.none, List.suffix_nil] at *
  simp [writes, removals, renames, syncs, listings]

end Faults.Within

/-- No removal still to come fails. -/
def Faults.RemovalsSucceed (f : Faults) : Prop := ∀ fault ∈ f.removals, fault = Option.none

/-- No count of the quarantine directory, no rename and no directory sync still to come fails. -/
structure Faults.MovesSucceed (f : Faults) : Prop where
  listings : ∀ fault ∈ f.listings, fault = Option.none
  renames : ∀ fault ∈ f.renames, fault = Option.none
  syncs : ∀ fault ∈ f.syncs, fault = Option.none

/-- Removals that all succeed still do later. -/
theorem Faults.Within.removalsSucceed {f g : Faults} (within : f.Within g)
    (succeed : g.RemovalsSucceed) : f.RemovalsSucceed :=
  fun fault inside => succeed fault (within.removals.mem inside)

/-- Moves that all succeed still do later. -/
theorem Faults.Within.movesSucceed {f g : Faults} (within : f.Within g)
    (succeed : g.MovesSucceed) : f.MovesSucceed :=
  ⟨fun fault inside => succeed.listings fault (within.listings.mem inside),
    fun fault inside => succeed.renames fault (within.renames.mem inside),
    fun fault inside => succeed.syncs fault (within.syncs.mem inside)⟩

/-- The head of a list of faults, where there is one, is in the list. -/
theorem mem_of_head?_join {α : Type} {faults : List (Option α)} {fault : α}
    (head : faults.head?.join = some fault) : some fault ∈ faults :=
  List.mem_of_mem_head? (Option.join_eq_some_iff.mp head)

/-! ### The machine after one file operation -/

namespace Machine

/-- A file has been renamed into place. -/
def place (m : Machine) (path : Path) (body : Blob) : Machine :=
  { m with disk := m.disk.put body path, history := m.disk :: m.history }

/-- A staging file has been left behind. -/
def orphan (m : Machine) (body : Blob) : Machine :=
  { m with disk := { m.disk with tmp := body :: m.disk.tmp }, history := m.disk :: m.history }

/-- A file is gone, if it was there. -/
def discard (m : Machine) (path : Path) : Machine :=
  if (m.disk.read path).isSome then
    { m with disk := m.disk.remove path, history := m.disk :: m.history }
  else m

/-- A file has been moved to quarantine. -/
def setAside (m : Machine) (path : Path) (body : Blob) : Machine :=
  { m with
    disk := { m.disk.remove path with quarantine := body :: m.disk.quarantine }
    history := m.disk :: m.history }

/-- The in-memory state has changed. -/
def update (m : Machine) (f : State → State) : Machine := { m with state := f m.state }

end Machine

namespace Machine

@[simp] theorem discard_state (m : Machine) (path : Path) : (m.discard path).state = m.state := by
  unfold discard
  split <;> rfl

/-- Discarding a file takes that one alone. -/
theorem discard_read (m : Machine) (path other : Path) :
    (m.discard path).disk.read other = if other = path then none else m.disk.read other := by
  unfold discard
  split
  · exact Disk.read_remove _ _ _
  · rename_i missing
    split
    · subst other
      exact Option.not_isSome_iff_eq_none.mp missing
    · rfl

/-- Setting a file aside takes that one alone. -/
theorem setAside_read (m : Machine) (path other : Path) (body : Blob) :
    (m.setAside path body).disk.read other = if other = path then none else m.disk.read other := by
  rw [← Disk.read_remove]
  cases other <;> rfl

end Machine

/-! ### Exits of the primitive sections -/

section Exits

variable {m : Machine} {onError : SpoolError → Machine → Prop}

@[simp] theorem post_state {onOk : State → Machine → Prop} :
    Post Section.state m onOk onError ↔ onOk m.state m := Iff.rfl

@[simp] theorem post_disk {onOk : Disk → Machine → Prop} :
    Post Section.disk m onOk onError ↔ onOk m.disk m := Iff.rfl

theorem post_nextRenameFault {onOk : Option Bool → Machine → Prop} :
    Post nextRenameFault m onOk onError ↔ onOk m.faults.renames.head?.join
      { m with faults := { m.faults with renames := m.faults.renames.tail } } := Iff.rfl

@[simp] theorem post_modifyState {f : State → State} {onOk : Unit → Machine → Prop} :
    Post (modifyState f) m onOk onError ↔ onOk () (m.update f) := Iff.rfl

/-- Staging and renaming ends in one of four ways. -/
theorem post_stageAndRename {place : Disk → Disk} {body : Blob} {onOk : Unit → Machine → Prop}
    (placed : ∀ faults : Faults, faults.Within m.faults →
      onOk () { m with disk := place m.disk, history := m.disk :: m.history, faults := faults })
    (failed : m.faults ≠ .none → ∀ full, ∀ faults : Faults, faults.Within m.faults →
      onError (mapIoError full) { m with faults := faults })
    (orphaned : m.faults ≠ .none → ∀ full, ∀ faults : Faults, faults.Within m.faults →
      onError (mapIoError full) { m.orphan body with faults := faults })
    (unsynced : m.faults ≠ .none → ∀ full, ∀ faults : Faults, faults.Within m.faults →
      onError (mapIoError full)
        { m with disk := place m.disk, history := m.disk :: m.history, faults := faults }) :
    Post (stageAndRename place body) m onOk onError := by
  have within : { m.faults with writes := m.faults.writes.tail }.Within m.faults :=
    { Faults.Within.refl m.faults with writes := List.tail_suffix _ }
  cases head : m.faults.writes.head?.join with
  | none =>
      simp only [stageAndRename, nextWriteFault, commit, Post, bind, EStateM.bind, modifyGet,
        MonadStateOf.modifyGet, EStateM.modifyGet, modify, head]
      exact placed _ within
  | some fault =>
      have faulty : m.faults ≠ .none := by
        intro none
        rw [none] at head
        cases head
      cases fault with
      | unwritten full =>
          simp only [stageAndRename, nextWriteFault, Post, bind, EStateM.bind, modifyGet,
            MonadStateOf.modifyGet, EStateM.modifyGet, head]
          exact failed faulty full _ within
      | orphaned full =>
          simp only [stageAndRename, nextWriteFault, commit, Post, bind, EStateM.bind,
            modifyGet, MonadStateOf.modifyGet, EStateM.modifyGet, modify, head]
          exact orphaned faulty full _ within
      | unsynced full =>
          simp only [stageAndRename, nextWriteFault, commit, Post, bind, EStateM.bind,
            modifyGet, MonadStateOf.modifyGet, EStateM.modifyGet, modify, head]
          exact unsynced faulty full _ within

/-- A durable write is refused behind the latch; a failed one sets the latch. -/
theorem post_writeAtomic {path : Path} {body : Blob} {onOk : Unit → Machine → Prop}
    (latched : m.storageWriteFailed = true → onError .io m)
    (placed : m.storageWriteFailed = false → ∀ faults : Faults, faults.Within m.faults →
      onOk () { m.place path body with faults := faults })
    (failed : m.storageWriteFailed = false → m.faults ≠ .none → ∀ full, ∀ faults : Faults,
      faults.Within m.faults →
      onError (mapIoError full) { m with storageWriteFailed := true, faults := faults })
    (orphaned : m.storageWriteFailed = false → m.faults ≠ .none → ∀ full, ∀ faults : Faults,
      faults.Within m.faults →
      onError (mapIoError full) { m.orphan body with storageWriteFailed := true, faults := faults })
    (unsynced : m.storageWriteFailed = false → m.faults ≠ .none → ∀ full, ∀ faults : Faults,
      faults.Within m.faults →
      onError (mapIoError full)
        { m.place path body with storageWriteFailed := true, faults := faults }) :
    Post (writeAtomic path body) m onOk onError := by
  cases latch : m.storageWriteFailed with
  | true =>
      simp only [writeAtomic, post_bind, post_get, latch, if_true, post_throw]
      exact latched latch
  | false =>
      simp only [writeAtomic, post_bind, post_get, latch, Bool.false_eq_true, if_false,
        post_tryCatch, latchWriteFailure, post_modify, post_throw]
      exact post_stageAndRename (placed latch) (failed latch) (orphaned latch) (unsynced latch)

/-- What syncing a directory can come to. -/
theorem post_syncDirectory {onOk : Unit → Machine → Prop}
    (synced : ∀ faults : Faults, faults.Within m.faults → onOk () { m with faults := faults })
    (failed : ∀ full, some full ∈ m.faults.syncs → ∀ faults : Faults, faults.Within m.faults →
      onError (mapIoError full) { m with faults := faults }) :
    Post syncDirectory m onOk onError := by
  have within : { m.faults with syncs := m.faults.syncs.tail }.Within m.faults :=
    { Faults.Within.refl m.faults with syncs := List.tail_suffix _ }
  cases head : m.faults.syncs.head?.join with
  | none =>
      simp only [syncDirectory, nextSyncFault, Post, bind, EStateM.bind, modifyGet,
        MonadStateOf.modifyGet, EStateM.modifyGet, head]
      exact synced _ within
  | some full =>
      simp only [syncDirectory, nextSyncFault, Post, bind, EStateM.bind, modifyGet,
        MonadStateOf.modifyGet, EStateM.modifyGet, head]
      exact failed full (mem_of_head?_join head) _ within

/-- What removing a file can come to. -/
theorem post_removeFile {path : Path} {onOk : Unit → Machine → Prop}
    (removed : ∀ faults : Faults, faults.Within m.faults →
      onOk () { m.discard path with faults := faults })
    (failed : ∀ full, some full ∈ m.faults.removals → ∀ faults : Faults, faults.Within m.faults →
      onError (mapIoError full) { m with faults := faults }) :
    Post (removeFile path) m onOk onError := by
  have within : { m.faults with removals := m.faults.removals.tail }.Within m.faults :=
    { Faults.Within.refl m.faults with removals := List.tail_suffix _ }
  cases head : m.faults.removals.head?.join with
  | some full =>
      simp only [removeFile, nextRemovalFault, Post, bind, EStateM.bind, modifyGet,
        MonadStateOf.modifyGet, EStateM.modifyGet, head]
      exact failed full (mem_of_head?_join head) _ within
  | none =>
      have kept := removed _ within
      simp only [Machine.discard] at kept
      simp only [removeFile, nextRemovalFault, disk, commit, Post, bind, EStateM.bind, modifyGet,
        MonadStateOf.modifyGet, EStateM.modifyGet, get, getThe, MonadStateOf.get, EStateM.get,
        modify, pure, EStateM.pure, head]
      split at kept
      · rename_i present
        simp only [present, if_true]
        exact kept
      · rename_i missing
        simp only [missing]
        exact kept

/-- Counting the quarantine directory leaves everything as it is.  It is refused when the directory
cannot be read or has no room. -/
theorem post_ensureQuarantineCapacity {inner : Inner} {additionalBytes : Nat} {addingFile : Bool}
    {onOk : Unit → Machine → Prop}
    (granted : ∀ faults : Faults, faults.Within m.faults →
      saturatingAdd m.disk.quarantine.length addingFile.toNat ≤ inner.config.maxRecords →
      saturatingAdd (quarantineBytes m.disk) additionalBytes ≤ inner.config.maxBytes →
      onOk () { m with faults := faults })
    (full : ∀ faults : Faults, faults.Within m.faults →
      ¬ (saturatingAdd m.disk.quarantine.length addingFile.toNat ≤ inner.config.maxRecords ∧
        saturatingAdd (quarantineBytes m.disk) additionalBytes ≤ inner.config.maxBytes) →
      onError .capacityExceeded { m with faults := faults })
    (failed : ∀ full, some full ∈ m.faults.listings → ∀ faults : Faults, faults.Within m.faults →
      onError (mapIoError full) { m with faults := faults }) :
    Post (ensureQuarantineCapacity inner additionalBytes addingFile) m onOk onError := by
  have within : { m.faults with listings := m.faults.listings.tail }.Within m.faults :=
    { Faults.Within.refl m.faults with listings := List.tail_suffix _ }
  simp only [ensureQuarantineCapacity, post_bind]
  change Post _ { m with faults := { m.faults with listings := m.faults.listings.tail } } _ _
  cases head : m.faults.listings.head?.join with
  | some full => exact failed full (mem_of_head?_join head) _ within
  | none =>
      simp only [post_bind, post_disk, post_ite, post_throw, post_pure]
      refine ⟨fun exceeded => full _ within fun fits => ?_, fun fits => ?_⟩
      · exact exceeded.elim (not_lt.mpr fits.1) (not_lt.mpr fits.2)
      · rw [not_or, not_lt, not_lt] at fits
        exact granted _ within fits.1 fits.2

/-- The quarantine directory has room for the file. -/
def QuarantineRoom (inner : Inner) (disk : Disk) (path : Path) : Prop :=
  saturatingAdd disk.quarantine.length 1 ≤ inner.config.maxRecords ∧
    saturatingAdd (quarantineBytes disk) (((disk.read path).map Blob.length).getD 0) ≤
      inner.config.maxBytes

/-- A rename into quarantine: it fails before anything has moved, or the file has moved and then the
directories may not be synced.  Without faults only a missing file is refused. -/
theorem post_quarantineFile {path : Path} {onOk : Unit → Machine → Prop}
    (moved : ∀ body, m.disk.read path = some body → ∀ faults : Faults, faults.Within m.faults →
      onOk () { m.setAside path body with faults := faults })
    (refused : ∀ error, ∀ faults : Faults, faults.Within m.faults →
      (m.faults.MovesSucceed → error = .io ∧ m.disk.read path = none) →
      onError error { m with faults := faults })
    (unsynced : ∀ body, m.disk.read path = some body → ¬ m.faults.MovesSucceed → ∀ full,
      ∀ faults : Faults, faults.Within m.faults →
      onError (mapIoError full) { m.setAside path body with faults := faults }) :
    Post (quarantineFile path) m onOk onError := by
  have within : { m.faults with renames := m.faults.renames.tail }.Within m.faults :=
    { Faults.Within.refl m.faults with renames := List.tail_suffix _ }
  simp only [quarantineFile, post_bind]
  cases head : m.faults.renames.head?.join with
  | some full =>
      simp only [nextRenameFault, Post, modifyGet, MonadStateOf.modifyGet, EStateM.modifyGet, head]
      refine refused _ _ within fun succeed => ?_
      exact absurd (succeed.renames _ (mem_of_head?_join head)) (Option.some_ne_none _)
  | none =>
      simp only [nextRenameFault, Post, modifyGet, MonadStateOf.modifyGet, EStateM.modifyGet, head]
      cases found : m.disk.read path with
      | none =>
          simp only [disk, bind, EStateM.bind, get, getThe, MonadStateOf.get, EStateM.get, pure,
            EStateM.pure, found]
          exact refused _ _ within fun _ => ⟨rfl, found⟩
      | some body =>
          have torn : ∀ {faults : Faults} {full : Bool},
              some full ∈ faults.syncs → faults.Within m.faults → ¬ m.faults.MovesSucceed :=
            fun inside later succeed =>
              absurd (succeed.syncs _ (later.syncs.mem inside)) (Option.some_ne_none _)
          have first : Post syncDirectory
              { m.setAside path body with
                faults := { m.faults with renames := m.faults.renames.tail } }
              (fun _ s => Post syncDirectory s onOk onError) onError := by
            refine post_syncDirectory (fun faults later => ?_) fun full inside faults later =>
              unsynced body found (torn inside within) full faults (later.trans within)
            refine post_syncDirectory (fun faults' last => ?_) fun full inside faults' last => ?_
            · exact moved body found faults' ((last.trans later).trans within)
            · exact unsynced body found (torn inside (later.trans within)) full faults'
                ((last.trans later).trans within)
          simp only [disk, commit, bind, EStateM.bind, get, getThe, MonadStateOf.get, EStateM.get,
            pure, EStateM.pure, modify, modifyGet, MonadStateOf.modifyGet, EStateM.modifyGet, found]
          exact post_bind.mpr first

/-- A move to quarantine: refused before it happens, or done and then possibly not synced.  With room
and without faults only a missing file is refused. -/
theorem post_quarantineFileBounded {inner : Inner} {path : Path} {onOk : Unit → Machine → Prop}
    (moved : ∀ body, m.disk.read path = some body → ∀ faults : Faults, faults.Within m.faults →
      onOk () { m.setAside path body with faults := faults })
    (refused : ∀ error, ∀ faults : Faults, faults.Within m.faults →
      (QuarantineRoom inner m.disk path → m.faults.MovesSucceed →
        error = .io ∧ m.disk.read path = none) →
      onError error { m with faults := faults })
    (unsynced : ∀ body, m.disk.read path = some body → ¬ m.faults.MovesSucceed → ∀ full,
      ∀ faults : Faults, faults.Within m.faults →
      onError (mapIoError full) { m.setAside path body with faults := faults }) :
    Post (quarantineFileBounded inner path) m onOk onError := by
  simp only [quarantineFileBounded, post_bind, post_disk]
  apply post_ensureQuarantineCapacity
  · intro faults within files bytes
    apply post_quarantineFile
    · exact fun body found later last => moved body found later (last.trans within)
    · intro error later last why
      exact refused error later (last.trans within) fun _ succeed =>
        why (within.movesSucceed succeed)
    · intro body found fails full later last
      exact unsynced body found (fun succeed => fails (within.movesSucceed succeed)) full later
        (last.trans within)
  · exact fun faults within full => refused _ faults within fun room _ => absurd room full
  · intro full inside faults within
    refine refused _ faults within fun _ succeed => ?_
    exact absurd (succeed.listings _ inside) (Option.some_ne_none _)

end Exits

end TeslatlasEdge
