/-
Module: TeslatlasEdge.Admission
Purpose: Strict JSON admission: the visitor accepts exactly the documents in which no object repeats
  a key, it reads them as they stand, and a repeated key is what the three message parsers report.
Trusted boundary: none
Main exports: uniqueValue_refuses, uniqueValue_reads, strict_admission
-/
import TeslatlasEdge.Canonical
import TeslatlasEdge.Protocol

namespace TeslatlasEdge

variable {codec : FloatCodec}

/-! ### What the visitor refuses -/

mutual

/-- The visitor either succeeds, on a document without repeats, or reports a repeated key. -/
theorem uniqueValue_refuses (codec : FloatCodec) :
    ∀ doc : JsonText,
      (doc.NoRepeats ∧ ∃ value, uniqueValue codec doc = .ok value) ∨
        (¬ doc.NoRepeats ∧ uniqueValue codec doc = .error .duplicateJsonKey)
  | .null | .bool _ | .int _ | .float _ | .str _ => by
      apply Or.inl
      simp only [uniqueValue, Json.NoRepeats, true_and]
      exact ⟨_, rfl⟩
  | .arr items => by
      rcases uniqueItems_refuses codec items with ⟨unique, values, read⟩ | ⟨repeated, failed⟩
      · exact .inl ⟨unique, .arr values, by rw [uniqueValue, read]; rfl⟩
      · exact .inr ⟨repeated, by rw [uniqueValue, failed]; rfl⟩
  | .obj fields => by
      rcases uniqueFields_refuses codec [] fields with ⟨unique, values, read⟩ | ⟨repeated, failed⟩
      · exact .inl ⟨unique.2, .obj values, by rw [uniqueValue, read]; rfl⟩
      · refine .inr ⟨fun unique => repeated ⟨fun _ _ => List.not_mem_nil, unique⟩, ?_⟩
        rw [uniqueValue, failed]
        rfl

/-- The items of an array are read, or one of them repeats a key. -/
theorem uniqueItems_refuses (codec : FloatCodec) :
    ∀ items : List JsonText,
      (Json.ItemsNoRepeats items ∧ ∃ values, uniqueItems codec items = .ok values) ∨
        (¬ Json.ItemsNoRepeats items ∧ uniqueItems codec items = .error .duplicateJsonKey)
  | [] => .inl ⟨trivial, [], rfl⟩
  | item :: items => by
      rcases uniqueValue_refuses codec item with ⟨first, value, read⟩ | ⟨repeated, failed⟩
      · rcases uniqueItems_refuses codec items with ⟨rest, values, reads⟩ | ⟨repeated, failed⟩
        · exact .inl ⟨⟨first, rest⟩, value :: values, by rw [uniqueItems, read, reads]; rfl⟩
        · exact .inr ⟨fun unique => repeated unique.2, by rw [uniqueItems, read, failed]; rfl⟩
      · exact .inr ⟨fun unique => repeated unique.1, by rw [uniqueItems, failed]; rfl⟩

/-- The members of an object are read, or a key comes twice among them, in one, or again. -/
theorem uniqueFields_refuses (codec : FloatCodec) (seen : List Str) :
    ∀ fields : List (Str × JsonText),
      (((∀ key ∈ fields.map (·.1), key ∉ seen) ∧ Json.FieldsNoRepeats fields) ∧
          ∃ values, uniqueFields codec seen fields = .ok values) ∨
        (¬ ((∀ key ∈ fields.map (·.1), key ∉ seen) ∧ Json.FieldsNoRepeats fields) ∧
          uniqueFields codec seen fields = .error .duplicateJsonKey)
  | [] => .inl ⟨⟨fun _ inside => absurd inside List.not_mem_nil, trivial⟩, [], rfl⟩
  | (key, item) :: fields => by
      by_cases before : key ∈ seen
      · refine .inr ⟨fun unique => unique.1 key List.mem_cons_self before, ?_⟩
        rw [uniqueFields, if_pos (List.contains_iff_mem.mpr before)]
      · have fresh : ¬ seen.contains key = true := fun held => before (List.contains_iff_mem.mp held)
        rcases uniqueValue_refuses codec item with ⟨first, value, read⟩ | ⟨repeated, failed⟩
        · rcases uniqueFields_refuses codec (key :: seen) fields with
            ⟨⟨outside, rest⟩, values, reads⟩ | ⟨repeated, failed⟩
          · have absent : key ∉ fields.map (·.1) := fun later =>
              outside key later List.mem_cons_self
            refine .inl ⟨⟨?_, absent, first, rest⟩, _, by
              rw [uniqueFields, if_neg fresh, read, reads]; rfl⟩
            intro name inside
            rcases List.mem_cons.mp inside with rfl | later
            · exact before
            · exact fun held => outside name later (List.mem_cons_of_mem _ held)
          · refine .inr ⟨?_, by rw [uniqueFields, if_neg fresh, read, failed]; rfl⟩
            rintro ⟨outside, absent, -, rest⟩
            apply repeated
            refine ⟨fun name later held => ?_, rest⟩
            rcases List.mem_cons.mp held with rfl | held
            · exact absent later
            · exact outside name (List.mem_cons_of_mem _ later) held
        · refine .inr ⟨fun unique => repeated unique.2.2.1, ?_⟩
          rw [uniqueFields, if_neg fresh, failed]
          rfl

end

/-- A document is read exactly if no object in it repeats a key. -/
theorem uniqueValue_ok_iff (codec : FloatCodec) (doc : JsonText) :
    (∃ value, uniqueValue codec doc = .ok value) ↔ doc.NoRepeats := by
  rcases uniqueValue_refuses codec doc with ⟨unique, value, read⟩ | ⟨repeated, failed⟩
  · exact ⟨fun _ => unique, fun _ => ⟨value, read⟩⟩
  · refine ⟨?_, fun unique => absurd unique repeated⟩
    rintro ⟨value, read⟩
    rw [failed] at read
    cases read

/-! ### What the visitor reads -/

mutual

/-- An accepted value is the document, with its literals parsed and its members in key order. -/
theorem uniqueValue_reads {ν : Type} (number : Int ⊕ F64 → ν) :
    ∀ {doc : JsonText} {value : Value}, uniqueValue codec doc = .ok value →
      value.InKeyOrder ∧ value.canonical number = (doc.parse codec).canonical number
  | .null, _, read | .bool _, _, read | .int _, _, read | .float _, _, read | .str _, _, read => by
      cases read
      exact ⟨trivial, rfl⟩
  | .arr items, _, read => by
      rcases uniqueItems_refuses codec items with ⟨-, values, reads⟩ | ⟨-, failed⟩
      · rw [uniqueValue, reads] at read
        cases read
        obtain ⟨ordered, same⟩ := uniqueItems_reads number reads
        refine ⟨ordered, ?_⟩
        rw [Json.parse, Json.map, Json.canonical, Json.canonical, same]
      · rw [uniqueValue, failed] at read
        cases read
  | .obj fields, _, read => by
      rcases uniqueFields_refuses codec [] fields with ⟨-, values, reads⟩ | ⟨-, failed⟩
      · rw [uniqueValue, reads] at read
        cases read
        obtain ⟨-, ordered, same⟩ := uniqueFields_reads number reads
        refine ⟨ordered, ?_⟩
        rw [Json.parse, Json.map, Json.canonical, Json.canonical, same]
      · rw [uniqueValue, failed] at read
        cases read

/-- What is read of the items is the items. -/
theorem uniqueItems_reads {ν : Type} (number : Int ⊕ F64 → ν) :
    ∀ {items : List JsonText} {values : List Value}, uniqueItems codec items = .ok values →
      Json.ItemsInKeyOrder values ∧
        Json.canonicalItems number values =
          Json.canonicalItems number (Json.mapItems codec.parse items)
  | [], _, read => by
      cases read
      exact ⟨trivial, rfl⟩
  | item :: items, _, read => by
      cases first : uniqueValue codec item with
      | error error =>
          rw [uniqueItems, first] at read
          cases read
      | ok value =>
          cases rest : uniqueItems codec items with
          | error error =>
              rw [uniqueItems, first, rest] at read
              cases read
          | ok values =>
              rw [uniqueItems, first, rest] at read
              cases read
              have head := uniqueValue_reads number first
              have tail := uniqueItems_reads number rest
              refine ⟨⟨head.1, tail.1⟩, ?_⟩
              rw [Json.mapItems, Json.canonicalItems, Json.canonicalItems, head.2, tail.2,
                Json.parse]

/-- What is read of the members is the members, in key order. -/
theorem uniqueFields_reads {ν : Type} (number : Int ⊕ F64 → ν) :
    ∀ {seen : List Str} {fields : List (Str × JsonText)} {values : List (Str × Value)},
      uniqueFields codec seen fields = .ok values →
        (∀ key, key ∈ values.map (·.1) ↔ key ∈ fields.map (·.1)) ∧
          Json.FieldsInKeyOrder values ∧
            Json.canonicalFields number values =
              Json.canonicalFields number (Json.mapFields codec.parse fields)
  | _, [], _, read => by
      cases read
      exact ⟨fun _ => Iff.rfl, trivial, rfl⟩
  | seen, (key, item) :: fields, _, read => by
      by_cases before : seen.contains key = true
      · rw [uniqueFields, if_pos before] at read
        cases read
      · cases first : uniqueValue codec item with
        | error error =>
            rw [uniqueFields, if_neg before, first] at read
            cases read
        | ok value =>
            cases rest : uniqueFields codec (key :: seen) fields with
            | error error =>
                rw [uniqueFields, if_neg before, first, rest] at read
                cases read
            | ok values =>
                rw [uniqueFields, if_neg before, first, rest] at read
                cases read
                have head := uniqueValue_reads number first
                obtain ⟨keys, ordered, same⟩ := uniqueFields_reads number rest
                have fresh : key ∉ values.map (·.1) := by
                  intro later
                  rcases uniqueFields_refuses codec (key :: seen) fields with
                    ⟨⟨outside, -⟩, -⟩ | ⟨-, failed⟩
                  · exact outside key ((keys key).mp later) List.mem_cons_self
                  · rw [rest] at failed
                    cases failed
                refine ⟨fun name => ?_, Json.inKeyOrder_orderedInsert ordered head.1 fresh, ?_⟩
                · rw [Json.mem_keys_orderedInsert, keys, List.map_cons, List.mem_cons]
                · rw [Json.canonical_orderedInsert number fresh]
                  funext name
                  rw [Json.mapFields, Json.canonicalFields, Json.canonicalFields, head.2, same,
                    Json.parse]

end

/-! ### What the parsers report -/

/-- A parser that admits a body within a limit through the visitor, and that reports no repeated
key afterwards, reports one exactly for the documents that hold one. -/
theorem admission_duplicate_iff {α : Type} {limit : Nat} {doc : JsonText}
    {after : Value → Except ProtocolError α}
    (quiet : ∀ value, after value ≠ .error .duplicateJsonKey) :
    (do
      if doc.size > limit then throw .inputTooLarge
      let unique ← uniqueValue codec doc
      after unique : Except ProtocolError α) = .error .duplicateJsonKey ↔
      doc.size ≤ limit ∧ ¬ doc.NoRepeats := by
  by_cases large : doc.size > limit
  · rw [if_pos large]
    exact ⟨fun wrong => (nomatch wrong), fun ⟨small, _⟩ => absurd small (by omega)⟩
  · rw [if_neg large]
    rcases uniqueValue_refuses codec doc with ⟨unique, value, read⟩ | ⟨repeated, failed⟩
    · rw [read]
      exact ⟨fun wrong => absurd wrong (quiet value), fun ⟨_, repeated⟩ => absurd unique repeated⟩
    · rw [failed]
      exact ⟨fun _ => ⟨by omega, repeated⟩, fun _ => rfl⟩

/-- Validation never reports a repeated key. -/
theorem validate_quiet {φ : Type} (envelope : ReceiverEnvelope φ) :
    envelope.validate ≠ .error .duplicateJsonKey := by
  unfold ReceiverEnvelope.validate
  intro wrong
  repeat' split at wrong
  all_goals cases wrong

/-- The receiver reports a repeated key exactly for a body within its limit that has one. -/
theorem receiverParse_duplicate_iff (host : Host) (doc : JsonText) :
    ReceiverEnvelope.parse host doc = .error .duplicateJsonKey ↔
      doc.size ≤ maxReceiverBodyBytes ∧ ¬ doc.NoRepeats := by
  apply admission_duplicate_iff
  intro value wrong
  cases read : ReceiverEnvelope.fromValue value with
  | none =>
      rw [read] at wrong
      cases wrong
  | some envelope =>
      rw [read] at wrong
      cases checked : envelope.validate with
      | error error =>
          simp only [checked] at wrong
          cases wrong
          exact validate_quiet envelope checked
      | ok _ =>
          simp only [checked] at wrong
          cases wrong

/-- So does the parser of v1 acknowledgements. -/
theorem ackV1Parse_duplicate_iff (codec : FloatCodec) (doc : JsonText) :
    HubAckV1.parse codec doc = .error .duplicateJsonKey ↔
      doc.size ≤ maxHubAckBodyBytes ∧ ¬ doc.NoRepeats := by
  apply admission_duplicate_iff
  intro value wrong
  cases read : HubAckV1.fromValue value with
  | none =>
      rw [read] at wrong
      cases wrong
  | some ack =>
      simp only [read] at wrong
      split at wrong <;> cases wrong

/-- So does the parser of v2 acknowledgements. -/
theorem ackV2Parse_duplicate_iff (codec : FloatCodec) (doc : JsonText) :
    HubAckV2.parse codec doc = .error .duplicateJsonKey ↔
      doc.size ≤ maxHubAckBodyBytes ∧ ¬ doc.NoRepeats := by
  apply admission_duplicate_iff
  intro value wrong
  cases read : HubAckV2.fromValue value with
  | none =>
      rw [read] at wrong
      cases wrong
  | some ack =>
      simp only [read] at wrong
      split at wrong <;> cases wrong

/-- The visitor accepts exactly the documents without a repeated key and reads them as they stand,
objects as maps; of the documents within its size limit each parser reports a repeated key for
exactly the others. -/
theorem strict_admission (host : Host) (doc : JsonText) :
    ((∃ value, uniqueValue host.codec doc = .ok value) ↔ doc.NoRepeats) ∧
      (∀ value, uniqueValue host.codec doc = .ok value →
        value.InKeyOrder ∧ value.canonical id = (doc.parse host.codec).canonical id) ∧
      (ReceiverEnvelope.parse host doc = .error .duplicateJsonKey ↔
        doc.size ≤ maxReceiverBodyBytes ∧ ¬ doc.NoRepeats) ∧
      (HubAckV1.parse host.codec doc = .error .duplicateJsonKey ↔
        doc.size ≤ maxHubAckBodyBytes ∧ ¬ doc.NoRepeats) ∧
      (HubAckV2.parse host.codec doc = .error .duplicateJsonKey ↔
        doc.size ≤ maxHubAckBodyBytes ∧ ¬ doc.NoRepeats) := by
  refine ⟨uniqueValue_ok_iff host.codec doc, fun value read => uniqueValue_reads id read, ?_⟩
  exact ⟨receiverParse_duplicate_iff host doc, ackV1Parse_duplicate_iff host.codec doc,
    ackV2Parse_duplicate_iff host.codec doc⟩

end TeslatlasEdge
