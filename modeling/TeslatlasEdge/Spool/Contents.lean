/-
Module: TeslatlasEdge.Spool.Contents
Purpose: What pending files can contain.  Only `enqueue` and the migration of version 1 records write
  pending files, so any property of the bodies written so far is kept by everything else `open` does.
Trusted boundary: none
Main exports: Machine.Contains, stable_contains, loads_openSpool
-/
import TeslatlasEdge.Spool.Keeping

namespace TeslatlasEdge

open Lib
open Section

/-- Every pending file there has been up to now has an allowed body. -/
def Machine.Contains (bodies : Blob → Prop) (m : Machine) : Prop :=
  ∀ d ∈ m.timeline, ∀ name body, d.read (.pending name) = some body → bodies body

variable {bodies : Blob → Prop} {inner : Inner}

/-- The contents are about the disks only. -/
theorem Machine.Contains.of_timeline {m m' : Machine} (contains : m.Contains bodies)
    (same : m'.timeline = m.timeline) : m'.Contains bodies := by
  rwa [Machine.Contains, same]

/-- A new disk with no new bodies. -/
theorem Machine.Contains.cons {m m' : Machine} (contains : m.Contains bodies)
    (history : m'.history = m.disk :: m.history)
    (pendings : ∀ name body, m'.disk.read (.pending name) = some body →
      bodies body ∨ ∃ other, m.disk.read (.pending other) = some body) : m'.Contains bodies := by
  intro d inside name body found
  rw [Machine.timeline, history] at inside
  rcases List.mem_cons.mp inside with rfl | inside
  · rcases pendings name body found with allowed | ⟨other, before⟩
    · exact allowed
    · exact contains m.disk List.mem_cons_self other body before
  · exact contains d inside name body found

/-- The file is outside `pending`, or its body is allowed. -/
def OfBodies (bodies : Blob → Prop) (path : Path) (body : Blob) : Prop :=
  (∀ name, path ≠ .pending name) ∨ bodies body

/-- A file outside `pending`, or one with an allowed body, has been written. -/
theorem Machine.Contains.place {m : Machine} {path : Path} {body : Blob}
    (contains : m.Contains bodies) (allowed : OfBodies bodies path body) :
    (m.place path body).Contains bodies := by
  refine contains.cons rfl fun name content found => ?_
  have read := Disk.read_put m.disk body path (.pending name)
  rw [show (m.disk.put body path).read (.pending name) = some content from found] at read
  split at read
  · obtain rfl := Option.some.inj read
    rename_i here
    exact .inl (allowed.resolve_left fun outside => outside name here.symm)
  · exact .inr ⟨name, read.symm⟩

/-- A temporary file left behind is no pending file. -/
theorem Machine.Contains.orphan {m : Machine} (contains : m.Contains bodies) (body : Blob) :
    (m.orphan body).Contains bodies :=
  contains.cons rfl fun name _ found => .inr ⟨name, found⟩

theorem Machine.Contains.discard {m : Machine} (contains : m.Contains bodies) (path : Path) :
    (m.discard path).Contains bodies := by
  by_cases present : (m.disk.read path).isSome = true
  · refine contains.cons (by simp only [Machine.discard, present, if_true]) ?_
    intro name body found
    have read := m.discard_read path (.pending name)
    rw [found] at read
    split at read
    · cases read
    · exact .inr ⟨name, read.symm⟩
  · exact contains.of_timeline (by
      simp only [Machine.timeline, Machine.discard, present, if_false, Bool.false_eq_true])

theorem Machine.Contains.setAside {m : Machine} (contains : m.Contains bodies) (path : Path)
    (body : Blob) : (m.setAside path body).Contains bodies := by
  refine contains.cons rfl fun name content found => ?_
  have read := m.setAside_read path (.pending name) body
  rw [found] at read
  split at read
  · cases read
  · exact .inr ⟨name, read.symm⟩

/-- A renamed file keeps its body. -/
theorem Machine.Contains.rename {m : Machine} (contains : m.Contains bodies) {name canonical : Str}
    {body : Blob} (found : m.disk.read (.pending name) = some body) :
    (m.rename name canonical body).Contains bodies := by
  refine contains.cons rfl fun other content read => ?_
  change ((m.disk.remove (.pending name)).put body (.pending canonical)).read _ = _ at read
  simp only [Disk.read_put, Disk.read_remove] at read
  split at read
  · obtain rfl := Option.some.inj read
    exact .inr ⟨name, found⟩
  · split at read
    · cases read
    · exact .inr ⟨other, read⟩

/-- Gap files are no pending files. -/
theorem gapAllowed_ofBodies (s : Nat) : GapAllowed inner (OfBodies bodies) s :=
  fun _ _ => .inl fun _ => Path.noConfusion

/-- The contents are kept as long as the bodies that are written are allowed. -/
theorem stable_contains :
    Stable inner (OfBodies bodies) (fun _ => True) (Machine.Contains bodies) where
  counters _ _ _ := .inl fun _ => Path.noConfusion
  saved _ _ _ _ _ := trivial
  shed contains same _ := contains.of_timeline same
  place contains allowed := contains.place allowed
  orphan body contains := contains.orphan body
  discard path contains := contains.discard path
  setAside contains _ _ := contains.setAside _ _
  rename contains found := contains.rename found
  mark contains := contains.cons rfl fun name _ found => .inr ⟨name, found⟩
  recordGap _ _ _ contains _ _ := contains
  admitEntry _ contains _ _ := contains
  retain _ contains := contains

/-! ### Opening -/

/-- None of the bodies opens to a record of version 1. -/
def Unmigrated (inner : Inner) (bodies : Blob → Prop) : Prop :=
  ∀ body plaintext stored, bodies body → inner.key.decrypt inner.host body = .ok plaintext →
    plaintext.toStoredRecord inner.host.codec = some stored → stored.version ≠ 1

/-- Where no record of version 1 is allowed, none is decoded. -/
theorem decodePending_version {inner : Inner} {file : NamedBlob} {record : RecoveredRecord}
    (unmigrated : Unmigrated inner bodies) (allowed : bodies file.2)
    (decoded : decodePending inner file = .ok (some record)) : record.stored.version ≠ 1 := by
  unfold decodePending at decoded
  split at decoded
  · cases decoded
  · split at decoded
    · cases decoded
    · cases decoded
    · rename_i plaintext opened
      split at decoded
      · cases decoded
      · rename_i stored parsed
        split at decoded
        · cases decoded
        · cases decoded
          exact unmigrated _ _ _ allowed opened parsed

/-- `open` writes no body that was not there, unless it finds a record to migrate. -/
theorem loads_openSpool (unmigrated : Unmigrated inner bodies) (lockHeld : Bool) (nowMs : I64) :
    Loads (Machine.Contains bodies) (openSpool inner lockHeld nowMs) := by
  intro m contains
  refine stable_contains.post_openSpool_keeps contains (fun file inside => ?_)
    fun s => ⟨gapAllowed_ofBodies s, trivial⟩
  have allowed : bodies file.2 :=
    contains m.disk List.mem_cons_self file.1 file.2 (AList.mem_lookup_iff.mpr inside)
  refine ⟨fun _ s _ _ => gapAllowed_ofBodies s, fun record decoded old => ?_⟩
  exact absurd old (decodePending_version unmigrated allowed decoded)

end TeslatlasEdge
