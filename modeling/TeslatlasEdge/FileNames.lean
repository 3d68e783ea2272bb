/-
Module: TeslatlasEdge.FileNames
Purpose: Which names of pending files stand for a sequence and an identity.  The parser reads back
  every name the writer builds, and it accepts no other name except those that spell the sequence
  with a plus sign.
Trusted boundary: none
Main exports: SignedName, eq_pad20, pendingFileName_of_parse, pending_names_canonical_iff
-/
import TeslatlasEdge.Lib.Codes
import TeslatlasEdge.Scripts

namespace TeslatlasEdge

open Lib (ofDigitChars_inj ofDigitChars_lt)

/-- A name with nineteen digits, not all of them zero, behind a plus sign, where the writer puts
twenty digits. -/
def SignedName (name : Str) : Prop :=
  ∃ (digits : Str) (recordId : RecordId),
    name = "v2-".toList ++ '+' :: digits ++ '-' :: recordId.text ++ pendingSuffix ∧
      digits.length = 19 ∧ (∀ c ∈ digits, c.isDigit = true) ∧ digits ≠ List.replicate 19 '0'

/-! ### Twenty characters of a sequence -/

/-- Twenty digits are the padded decimal of their value. -/
theorem eq_pad20 {s : Str} {n : Nat} (digits : ∀ c ∈ s, c.isDigit = true) (length : s.length = 20)
    (value : Nat.ofDigitChars 10 s 0 = n) (bounded : n ≤ u64Max) : s = pad20 n := by
  have same : Nat.ofDigitChars 10 s 0 = Nat.ofDigitChars 10 (pad20 n) 0 := by
    rw [value, ofDigitChars_pad20]
  exact (ofDigitChars_inj digits (fun _ inside => isDigit_of_mem_pad20 inside)
    (length.trans (pad20_length bounded).symm) same).2

/-- A plus sign is left out, and nothing else. -/
theorem stripPlus_cases (s : Str) : stripPlus s = s ∨ s = '+' :: stripPlus s := by
  unfold stripPlus
  split
  · exact .inr rfl
  · exact .inl rfl

/-- Twenty characters that parse are the padded decimal, or a plus sign and nineteen digits. -/
theorem pad20_or_signed {s : Str} {n : Nat} (length : s.length = 20)
    (parsed : parseU64 s = some n) :
    s = pad20 n ∨ ∃ digits : Str, s = '+' :: digits ∧ digits.length = 19 ∧
      (∀ c ∈ digits, c.isDigit = true) ∧ Nat.ofDigitChars 10 digits 0 = n := by
  obtain ⟨-, digits, value, bounded⟩ := parseU64_eq_some.mp parsed
  rcases stripPlus_cases s with unsigned | signed
  · rw [unsigned] at digits value
    exact .inl (eq_pad20 digits length value bounded)
  · refine .inr ⟨stripPlus s, signed, ?_, digits, value⟩
    rw [signed] at length
    exact Nat.succ.inj length

/-- Nineteen digits have the value zero only if they are all zero. -/
theorem value_eq_zero {digits : Str} (length : digits.length = 19)
    (all : ∀ c ∈ digits, c.isDigit = true) :
    Nat.ofDigitChars 10 digits 0 = 0 ↔ digits = List.replicate 19 '0' := by
  constructor
  · intro zero
    have zeros : ∀ c ∈ List.replicate 19 '0', c.isDigit = true := by
      intro c inside
      rw [List.eq_of_mem_replicate inside]
      rfl
    have same : Nat.ofDigitChars 10 digits 0 = Nat.ofDigitChars 10 (List.replicate 19 '0') 0 := by
      rw [zero, Nat.ofDigitChars_replicate_zero, Nat.mul_zero]
    exact (ofDigitChars_inj all zeros (length.trans List.length_replicate.symm) same).2
  · rintro rfl
    rw [Nat.ofDigitChars_replicate_zero, Nat.mul_zero]

/-! ### Names the parser accepts -/

/-- A signed name is read as the number behind its sign. -/
theorem SignedName.parsed {name : Str} (signed : SignedName name) :
    ∃ spoolSeq recordId, parseV2PendingFileName name = some (spoolSeq, recordId) ∧
      name ≠ pendingFileName spoolSeq recordId := by
  obtain ⟨digits, recordId, rfl, length, all, nonzero⟩ := signed
  have unsigned : stripPlus ('+' :: digits) = digits := rfl
  have small : Nat.ofDigitChars 10 digits 0 < 1 * 10 ^ digits.length :=
    ofDigitChars_lt all Nat.zero_lt_one
  have bounded : Nat.ofDigitChars 10 digits 0 ≤ u64Max := by
    rw [length] at small
    unfold u64Max
    omega
  have nonempty : digits ≠ [] := by
    rintro rfl
    cases length
  have number : parseU64 ('+' :: digits) = some (Nat.ofDigitChars 10 digits 0) := by
    rw [parseU64_eq_some, unsigned]
    exact ⟨nonempty, all, rfl, bounded⟩
  have noDash : '-' ∉ '+' :: digits := by
    rw [List.mem_cons, not_or]
    exact ⟨by decide, fun inside => absurd (all _ inside) (by decide)⟩
  refine ⟨Nat.ofDigitChars 10 digits 0, recordId, ?_, ?_⟩
  · rw [parseV2PendingFileName_eq_some]
    refine ⟨'+' :: digits, rfl, noDash, congrArg Nat.succ length, number, ?_⟩
    rw [ne_eq, value_eq_zero length all]
    exact nonzero
  · intro same
    rw [pendingFileName, List.append_assoc, List.append_assoc, List.append_assoc,
      List.append_assoc, List.append_cancel_left_eq] at same
    have head : '+' ∈ pad20 (Nat.ofDigitChars 10 digits 0) := by
      have padded := pad20_length bounded
      cases shape : pad20 (Nat.ofDigitChars 10 digits 0) with
      | nil =>
          rw [shape] at padded
          cases padded
      | cons c rest =>
          rw [shape] at same
          rw [(List.cons.inj same).1]
          exact List.mem_cons_self
    exact absurd (isDigit_of_mem_pad20 head) (by decide)

/-- Every other name the parser accepts is the one the writer builds. -/
theorem pendingFileName_of_parse {name : Str} {spoolSeq : Nat} {recordId : RecordId}
    (unsigned : ¬ SignedName name)
    (parsed : parseV2PendingFileName name = some (spoolSeq, recordId)) :
    1 ≤ spoolSeq ∧ spoolSeq ≤ u64Max ∧ name = pendingFileName spoolSeq recordId := by
  obtain ⟨sequence, named, -, length, number, nonzero⟩ := parseV2PendingFileName_eq_some.mp parsed
  obtain ⟨-, -, -, bounded⟩ := parseU64_eq_some.mp number
  refine ⟨Nat.one_le_iff_ne_zero.mpr nonzero, bounded, ?_⟩
  rcases pad20_or_signed length number with rfl | ⟨digits, rfl, nineteen, all, value⟩
  · exact named
  · refine absurd ⟨digits, recordId, named, nineteen, all, fun zeros => nonzero ?_⟩ unsigned
    rw [← value]
    exact (value_eq_zero nineteen all).mpr zeros

/-- Recovery derives a gap from a damaged file only if the parser accepts its name. -/
theorem parsed_of_quarantineRecoveredPending {inner : Inner} {nowMs : I64} {file : NamedBlob}
    {m m' : Machine} (ran : (quarantineRecoveredPending inner nowMs file).run m = .ok () m') :
    ∃ spoolSeq recordId, parseV2PendingFileName file.1 = some (spoolSeq, recordId) := by
  rw [quarantineRecoveredPending] at ran
  split at ran
  · cases ran
  · exact ⟨_, _, ‹_›⟩

/-- The parser and the writer of pending names are inverse to each other except at signed names:
every written name is read back, an accepted name is the one the writer builds exactly if it is not
signed, and so is a name recovery derives a gap from. -/
theorem pending_names_canonical_iff (name : Str) :
    (∀ (spoolSeq : Nat) (recordId : RecordId), 1 ≤ spoolSeq → spoolSeq ≤ u64Max →
      parseV2PendingFileName (pendingFileName spoolSeq recordId) = some (spoolSeq, recordId)) ∧
    ((∀ spoolSeq recordId, parseV2PendingFileName name = some (spoolSeq, recordId) →
      name = pendingFileName spoolSeq recordId) ↔ ¬ SignedName name) ∧
    (¬ SignedName name → ∀ (inner : Inner) (nowMs : I64) (body : Blob) (m m' : Machine),
      (quarantineRecoveredPending inner nowMs ⟨name, body⟩).run m = .ok () m' →
      ∃ spoolSeq recordId, 1 ≤ spoolSeq ∧ spoolSeq ≤ u64Max ∧
        name = pendingFileName spoolSeq recordId) := by
  refine ⟨fun spoolSeq recordId positive bounded =>
    parseV2PendingFileName_pendingFileName positive bounded recordId, ⟨?_, ?_⟩, ?_⟩
  · intro canonical signed
    obtain ⟨spoolSeq, recordId, parsed, other⟩ := signed.parsed
    exact other (canonical spoolSeq recordId parsed)
  · intro unsigned spoolSeq recordId parsed
    exact (pendingFileName_of_parse unsigned parsed).2.2
  · intro unsigned inner nowMs body m m' ran
    obtain ⟨spoolSeq, recordId, parsed⟩ := parsed_of_quarantineRecoveredPending ran
    exact ⟨spoolSeq, recordId, pendingFileName_of_parse unsigned parsed⟩

/-- An identity to name files with. -/
def sampleRecordId : RecordId := ⟨List.replicate 64 'a', by decide⟩

/-- A name with `+1` in the place of the sequence. -/
def signedSample : Str :=
  "v2-+0000000000000000001-".toList ++ sampleRecordId.text ++ pendingSuffix

theorem pending_names_sample :
    parseV2PendingFileName (pendingFileName 7 sampleRecordId) = some (7, sampleRecordId) ∧
      SignedName signedSample :=
  ⟨(pending_names_canonical_iff signedSample).1 7 sampleRecordId (by decide) (by decide),
    not_not.mp (mt (pending_names_canonical_iff signedSample).2.1.mpr fun canonical =>
      absurd (canonical 1 sampleRecordId (by decide +kernel)) (by decide +kernel))⟩

/-- A directory with one damaged file, under that name. -/
def signedWorld : World :=
  { World.fresh with
    disk := { Disk.fresh with pending := AList.singleton signedSample (.raw []) } }

/-- The gaps `open` finds or derives there. -/
def signedGaps : Option (List GapNoticeV2) :=
  (signedWorld.act (.openSpool (sampleInner 4) (sampleTime 0) .none)).bind fun opened =>
    opened.process.map fun process => process.state.gaps.values.map (·.notice)

/-- The parser accepts a name no writer builds, and `open` derives a gap for sequence one from the
damaged file of that name. -/
theorem signed_name_accepted :
    parseV2PendingFileName signedSample = some (1, sampleRecordId) ∧
      signedSample ≠ pendingFileName 1 sampleRecordId ∧
      signedGaps.map (List.map (·.spoolSeq)) = some [1] :=
  ⟨by decide +kernel, by decide +kernel, by decide +kernel⟩

end TeslatlasEdge
