/-
Module: TeslatlasEdge.Spool.Batches
Purpose: What the batch builders deliver when a call runs alone: a prefix of the held records and
  gaps in sequence order, with every effect on the way accounted for.
Trusted boundary: none
Main exports: candidates, Delivers, BatchOf, post_buildBatch, post_buildBatchV2
-/
import TeslatlasEdge.Spool.Coherence

namespace TeslatlasEdge

open Lib
open Section

variable {inner : Inner} {offered : Nat → Envelope → Prop} {m : Machine}

theorem post_readEntry {entry : Entry} {onOk : StoredRecord F64 → Machine → Prop}
    {onError : SpoolError → Machine → Prop} :
    Post (readEntry inner entry) m onOk onError ↔
      match decodeEntry inner entry (m.disk.read entry.path) with
      | .error error => onError error m
      | .ok stored => onOk stored m := by
  simp only [readEntry, post_bind, post_disk]
  cases decodeEntry inner entry (m.disk.read entry.path) <;> simp

/-- What it takes for the file of an entry to read back. -/
structure Intact (inner : Inner) (entry : Entry) (body : Blob) (stored : StoredRecord F64) :
    Prop where
  small : body.length ≤ maxEncryptedRecordBytes
  opens : ∃ plaintext, inner.key.decrypt inner.host body = .ok plaintext ∧
    plaintext.toStoredRecord inner.host.codec = some stored
  valid : validStoredRecord inner.host stored = true
  recordId : stored.recordId = entry.recordId
  stableRecordId : stored.stableRecordId = some entry.stableRecordId
  spoolSeq : stored.spoolSeq = some entry.spoolSeq

/-- A body is read as a record exactly when it is the intact file of the entry. -/
theorem decodeEntry_some_eq_ok_iff {entry : Entry} {body : Blob} {stored : StoredRecord F64} :
    decodeEntry inner entry (some body) = .ok stored ↔ Intact inner entry body stored := by
  simp only [decodeEntry]
  constructor
  · intro read
    split at read
    · cases read
    · rename_i small
      split at read
      · cases read
      · rename_i plaintext opens
        split at read
        · cases read
        · rename_i found parsed
          split at read
          · cases read
          · rename_i matching
            obtain rfl := Except.ok.inj read
            simp only [not_or, not_not] at matching
            exact ⟨not_lt.mp small, ⟨plaintext, opens, parsed⟩, matching.1, matching.2.1,
              matching.2.2.1, matching.2.2.2⟩
  · rintro ⟨small, ⟨plaintext, opens, parsed⟩, valid, id, stable, sequence⟩
    rw [if_neg (not_lt.mpr small), opens]
    simp only [parsed]
    rw [if_neg]
    simp only [not_or, not_not]
    exact ⟨valid, id, stable, sequence⟩

/-- What is read back comes from an intact file. -/
theorem decodeEntry_eq_ok {entry : Entry} {file : Option Blob} {stored : StoredRecord F64}
    (read : decodeEntry inner entry file = .ok stored) :
    ∃ body, file = some body ∧ Intact inner entry body stored := by
  cases file with
  | none => cases read
  | some body => exact ⟨body, rfl, decodeEntry_some_eq_ok_iff.mp read⟩

/-- A file that fails to decode decodes to no record. -/
theorem not_ok_of_corrupt {entry : Entry} {file : Option Blob} {error : SpoolError}
    (read : decodeEntry inner entry file = .error error) (stored : StoredRecord F64) :
    decodeEntry inner entry file ≠ .ok stored := by
  intro same
  rw [read] at same
  cases same

/-! ### v1 -/

/-- Between two machines the record was read back from the file of a held entry. -/
def ReadBetween (inner : Inner) (offered : Nat → Envelope → Prop) (m m' : Machine)
    (record : HubBatchRecordV1) : Prop :=
  ∃ entry stored m₁, Chain inner offered m m₁ ∧ Chain inner offered m₁ m' ∧
    m₁.state.Holds entry ∧ decodeEntry inner entry (m₁.disk.read entry.path) = .ok stored ∧
    record =
      { recordId := stored.recordId
        receivedAtMs := stored.admittedAtMs
        envelope := stored.envelope }

/-- While nothing is admitted, a record that was read back is that of an entry held from the
start. -/
theorem ReadBetween.source {record : HubBatchRecordV1} (read : ReadBetween inner noOffers m m' record) :
    m.state.Lists record.recordId := by
  obtain ⟨entry, stored, at_, reached, -, held, decoded, rfl⟩ := read
  obtain ⟨_, -, intact⟩ := decodeEntry_eq_ok decoded
  exact ⟨entry, reached.holds_back held, intact.recordId.symm⟩

/-- What was read between two states was read between any around them. -/
theorem ReadBetween.extend {m₀ m₁ : Machine} {record : HubBatchRecordV1}
    (before : Chain inner offered m m₀) (read : ReadBetween inner offered m₀ m₁ record)
    (after : Chain inner offered m₁ m') : ReadBetween inner offered m m' record := by
  obtain ⟨entry, stored, at_, reached, later, facts⟩ := read
  exact ⟨entry, stored, at_, before.trans reached, later.trans after, facts⟩

/-- A scan under the first protocol reads back what it delivers, in order, within the bound. -/
theorem post_scanV1 {entries : List Entry} {records : List HubBatchRecordV1} {bodyBytes : Nat}
    (keyed : m.state.Keyed) (pathed : m.state.Pathed)
    (held : ∀ entry ∈ entries, m.state.Holds entry) (distinct : entries.Nodup) :
    Post (scanV1 inner entries records bodyBytes).run m
      (fun result m' => Chain inner offered m m' ∧
        (∃ taken : List Entry, taken.Sublist entries ∧
          result.map (·.recordId) = records.map (·.recordId) ++ taken.map (·.recordId) ∧
          result.length ≤ max records.length 256) ∧
        ∀ record ∈ result, record ∈ records ∨ ReadBetween inner offered m m' record)
      (fun _ m' => Chain inner offered m m') := by
  induction entries generalizing m records bodyBytes with
  | nil =>
      exact ⟨.refl, ⟨[], List.Sublist.refl _, by simp, by omega⟩, fun _ inside => .inl inside⟩
  | cons entry rest ih =>
      obtain ⟨outside, distinct⟩ := List.nodup_cons.mp distinct
      have heldEntry := held entry (by simp)
      have heldRest : ∀ other ∈ rest, m.state.Holds other :=
        fun other inside => held other (by simp [inside])
      have stopHere : Chain inner offered m m ∧
          (∃ taken : List Entry, taken.Sublist (entry :: rest) ∧
            records.map (·.recordId) = records.map (·.recordId) ++ taken.map Entry.recordId ∧
            records.length ≤ max records.length 256) ∧
          ∀ record ∈ records, record ∈ records ∨ ReadBetween inner offered m m record :=
        ⟨.refl, ⟨[], List.nil_sublist _, by simp, by omega⟩, fun _ inside => .inl inside⟩
      simp only [scanV1]
      by_cases full : records.length ≥ min inner.config.batchMaxRecords 256
      · rw [if_pos full]
        exact stopHere
      · have room := not_le.mp full
        rw [if_neg full]
        simp only [Call.run_bind, post_bind, Call.post_attempt]
        rw [post_readEntry]
        cases read : decodeEntry inner entry (m.disk.read entry.path) with
        | error error =>
            by_cases corrupt : error = .corruptRecord
            · subst corrupt
              simp only [Call.run_bind, Call.run_atomic]
              refine (post_quarantineRuntimeEntry heldEntry ⟨_, pathed.entries entry heldEntry⟩
                (not_ok_of_corrupt read)).bind ?_
              rintro _ m₁ ⟨chain, holds⟩
              refine (ih (chain.keyed keyed) (chain.pathed pathed) (fun other inside => ?_)
                distinct).mono ?_
                fun _ _ later => chain.trans later
              · rw [holds other]
                exact ⟨heldRest other inside, fun same => outside (same ▸ inside)⟩
              · rintro result m₂ ⟨later, ⟨taken, sub, ids, count⟩, reads⟩
                refine ⟨chain.trans later, ⟨taken, sub.cons _, ids, count⟩, fun record inside => ?_⟩
                exact (reads record inside).imp_right fun read => read.extend chain .refl
            · cases error <;> first | exact absurd rfl corrupt | exact .refl
        | ok stored =>
            obtain ⟨body, -, intact⟩ := decodeEntry_eq_ok read
            have identity := intact.recordId
            simp only
            generalize encodedSize inner.host _ = encodedBytes
            by_cases long : records ≠ [] ∧
                saturatingAdd bodyBytes encodedBytes > inner.config.batchMaxBytes
            · rw [if_pos long]
              exact stopHere
            · rw [if_neg long]
              by_cases large : encodedBytes > inner.config.batchMaxBytes
              · rw [if_pos large]
                exact .refl
              · rw [if_neg large]
                refine (ih keyed pathed heldRest distinct).monoOk ?_
                rintro result m₂ ⟨later, ⟨taken, sub, ids, count⟩, reads⟩
                refine ⟨later, ⟨entry :: taken, sub.cons_cons _, ?_, ?_⟩, fun record inside => ?_⟩
                · rw [ids]
                  simp [identity]
                · simp only [List.length_append, List.length_singleton] at count
                  omega
                · rcases reads record inside with known | between
                  · rcases List.mem_append.mp known with known | fresh
                    · exact .inl known
                    · rw [List.mem_singleton.mp fresh]
                      exact .inr ⟨entry, stored, m, .refl, later, heldEntry, read, rfl⟩
                  · exact .inr between

theorem mem_insertionSort {α : Type} {r : α → α → Prop} [DecidableRel r] {items : List α}
    {item : α} : item ∈ items.insertionSort r ↔ item ∈ items :=
  (List.perm_insertionSort r items).mem_iff

/-- A v1 batch holds distinct records, at most 256 of them, each read back from its file. -/
theorem post_buildBatch (keyed : m.state.Keyed) (pathed : m.state.Pathed) :
    Post (buildBatch inner).run m
      (fun batch m' => Chain inner offered m m' ∧
        (batch.records.map (·.recordId)).Nodup ∧ batch.records.length ≤ 256 ∧
        batch.batchId = batchId inner.host batch.records ∧
        ∀ record ∈ batch.records, ReadBetween inner offered m m' record)
      (fun _ m' => Chain inner offered m m') := by
  have held : ∀ entry ∈ m.state.entries.values.insertionSort Entry.admittedBefore,
      m.state.Holds entry := fun entry inside => keyed.holds (mem_insertionSort.mp inside)
  have distinct : (m.state.entries.values.insertionSort Entry.admittedBefore).Nodup :=
    (List.perm_insertionSort _ _).nodup_iff.mpr keyed.nodup_values
  simp only [buildBatch, Call.run_bind, Call.run_atomic, post_bind, post_state, post_ite,
    post_throw, post_pure, Call.run_pure]
  refine ⟨fun _ => .refl, fun _ => ?_⟩
  refine (post_scanV1 keyed pathed held distinct).monoOk ?_
  rintro records m₁ ⟨chain, ⟨taken, sub, ids, count⟩, reads⟩
  simp only [requireNoGaps, post_bind, post_state, post_ite, post_throw, post_pure]
  refine ⟨fun _ => chain, fun _ => ⟨chain, ?_, by simpa using count, trivial, fun record inside =>
    (reads record inside).resolve_left List.not_mem_nil⟩⟩
  rw [List.map_nil, List.nil_append] at ids
  rw [ids]
  refine (List.nodup_map_iff_inj_on (distinct.sublist sub)).mpr ?_
  intro entry inside other inside' same
  have mine := held entry (sub.subset inside)
  have yours := held other (sub.subset inside')
  rw [State.Holds, same, yours] at mine
  exact (Option.some.inj mine).symm

/-! ### v2 -/

/-- The candidates of a batch, in sequence order. -/
def candidates (state : State) : List BatchCandidateV2 :=
  sortBySeq BatchCandidateV2.spoolSeq <|
    (sortBySeq Entry.spoolSeq state.entries.values).map .record ++
      (state.gaps.values.map (·.notice)).map .gap

/-- The item a candidate is delivered as while its file reads back. -/
inductive Delivers (inner : Inner) (disk : Disk) (counted : OrdMap Nat RecordId) :
    BatchCandidateV2 → BatchItemV2 → Prop where
  | gap (notice : GapNoticeV2) : Delivers inner disk counted (.gap notice) (.gap notice)
  | backing {entry : Entry} {stored : StoredRecord F64}
      (expired : counted.contains entry.spoolSeq = true)
      (read : decodeEntry inner entry (disk.read entry.path) = .ok stored) :
      Delivers inner disk counted (.record entry)
        (.gap (gapNotice inner.host entry entry.expiresAtMs .retentionExpired))
  | record {entry : Entry} {stored : StoredRecord F64}
      (live : counted.contains entry.spoolSeq = false)
      (read : decodeEntry inner entry (disk.read entry.path) = .ok stored) :
      Delivers inner disk counted (.record entry) (.record
        { recordId := entry.stableRecordId
          legacyRecordId := entry.recordId
          spoolSeq := entry.spoolSeq
          receivedAtMs := stored.admittedAtMs
          envelope := stored.envelope })

namespace BatchItemV2

def record? : BatchItemV2 → Option HubBatchRecordV2
  | .record delivered => some delivered
  | .gap _ => none

def gap? : BatchItemV2 → Option GapNoticeV2
  | .record _ => none
  | .gap notice => some notice

def spoolSeq : BatchItemV2 → Nat
  | .record delivered => delivered.spoolSeq
  | .gap notice => notice.spoolSeq

end BatchItemV2

/-- A candidate is delivered under its own sequence. -/
theorem Delivers.spoolSeq {disk : Disk} {counted : OrdMap Nat RecordId}
    {candidate : BatchCandidateV2} {item : BatchItemV2}
    (delivers : Delivers inner disk counted candidate item) :
    item.spoolSeq = candidate.spoolSeq := by
  cases delivers <;> rfl

/-- A candidate is given as what it delivers, or its file is quarantined. -/
theorem post_candidateItem {counted : OrdMap Nat RecordId} {candidate : BatchCandidateV2}
    (pathed : m.state.Pathed)
    (held : ∀ entry, candidate = .record entry → m.state.Holds entry) :
    Post (candidateItem inner counted candidate).run m
      (fun item m' => match item with
        | some item => m' = m ∧ Delivers inner m.disk counted candidate item
        | none => Chain inner offered m m' ∧ ∃ entry, candidate = .record entry ∧
            counted.contains entry.spoolSeq = false ∧
            ∀ other, m'.state.Holds other ↔ m.state.Holds other ∧ other ≠ entry)
      (fun _ m' => Chain inner offered m m') := by
  cases candidate with
  | gap notice => exact ⟨rfl, .gap notice⟩
  | record entry =>
      simp only [candidateItem]
      split
      · rename_i expired
        simp only [Call.run_bind, Call.run_atomic, post_bind, post_readEntry, Call.run_pure,
          post_pure]
        cases read : decodeEntry inner entry (m.disk.read entry.path) with
        | error error => exact .refl
        | ok stored => exact ⟨trivial, .backing expired read⟩
      · rename_i live
        rw [Bool.not_eq_true] at live
        simp only [Call.run_bind, post_bind, Call.post_attempt]
        rw [post_readEntry]
        cases read : decodeEntry inner entry (m.disk.read entry.path) with
        | ok stored => exact ⟨rfl, .record live read⟩
        | error error =>
            by_cases corrupt : error = .corruptRecord
            · subst corrupt
              simp only [Call.run_bind, Call.run_atomic, Call.run_pure, post_bind, post_pure]
              refine (post_quarantineRuntimeEntry (held entry rfl)
                ⟨_, pathed.entries entry (held entry rfl)⟩ (not_ok_of_corrupt read)).monoOk ?_
              rintro _ m₁ ⟨chain, holds⟩
              exact ⟨chain, entry, rfl, live, holds⟩
            · cases error <;> first | exact absurd rfl corrupt | exact .refl

/-- The encoded length of some items, added up as the scan does. -/
def bodyBytesOf (host : Host) (items : List BatchItemV2) (start : Nat) : Nat :=
  items.foldl (fun total item => saturatingAdd total (encodedSize host item.toJson)) start

/-- What makes a scan stop before a candidate: no room for another item, or an item that does not
fit in its category or in the bytes left. -/
def ScanV2.Stops (inner : Inner) (disk : Disk) (counted : OrdMap Nat RecordId) (scan : ScanV2)
    (candidate : BatchCandidateV2) : Prop :=
  inner.config.batchMaxRecords ≤ saturatingAdd scan.records.length scan.gaps.length ∨
    ∃ item, Delivers inner disk counted candidate item ∧
      (scan.categoryFull item = true ∨
        inner.config.batchMaxBytes <
          saturatingAdd scan.bodyBytes (encodedSize inner.host item.toJson))

/-- A scan that has quarantined nothing has delivered a prefix of its candidates. -/
structure Scanned (inner : Inner) (disk : Disk) (counted : OrdMap Nat RecordId)
    (remaining : List BatchCandidateV2) (scan result : ScanV2) (items : List BatchItemV2) :
    Prop where
  delivers : List.Forall₂ (Delivers inner disk counted) (remaining.take items.length) items
  fits : items.length ≤ remaining.length
  records : result.records = scan.records ++ items.filterMap BatchItemV2.record?
  gaps : result.gaps = scan.gaps ++ items.filterMap BatchItemV2.gap?
  recordCount : result.records.length ≤ max scan.records.length 256
  gapCount : result.gaps.length ≤ max scan.gaps.length 256
  progress : scan.records = [] → scan.gaps = [] → 0 < inner.config.batchMaxRecords →
    remaining ≠ [] → items ≠ []
  total : result.bodyBytes = bodyBytesOf inner.host items scan.bodyBytes
  count : result.records.length + result.gaps.length ≤
    max (scan.records.length + scan.gaps.length) inner.config.batchMaxRecords
  bytes : (scan.records = [] → scan.gaps = [] → scan.bodyBytes = 0) →
    result.bodyBytes ≤ max scan.bodyBytes inner.config.batchMaxBytes
  stops : ∀ candidate, remaining[items.length]? = some candidate →
    result.Stops inner disk counted candidate

/-- The entry behind a candidate. -/
def BatchCandidateV2.record? : BatchCandidateV2 → Option Entry
  | .record entry => some entry
  | .gap _ => none

section Scanned

variable {disk : Disk} {counted : OrdMap Nat RecordId} {candidate : BatchCandidateV2}
  {rest : List BatchCandidateV2} {scan result : ScanV2} {item : BatchItemV2}
  {items : List BatchItemV2}

/-- A scan at the end of its candidates has delivered all of them. -/
theorem Scanned.nil : Scanned inner disk counted [] scan scan [] := by
  constructor
  case delivers => exact .nil
  case fits => exact le_rfl
  case records => exact (List.append_nil _).symm
  case gaps => exact (List.append_nil _).symm
  case recordCount => exact le_max_left _ _
  case gapCount => exact le_max_left _ _
  case progress => exact fun _ _ _ none => absurd rfl none
  case total => rfl
  case count => exact le_max_left _ _
  case bytes => exact fun _ => le_max_left _ _
  case stops =>
    intro candidate found
    cases found

/-- A scan that stops before a candidate has delivered nothing more. -/
theorem Scanned.stopped
    (started : scan.records ≠ [] ∨ scan.gaps ≠ [] ∨ inner.config.batchMaxRecords = 0)
    (stops : scan.Stops inner disk counted candidate) :
    Scanned inner disk counted (candidate :: rest) scan scan [] := by
  constructor
  case delivers => exact .nil
  case fits => exact Nat.zero_le _
  case records => exact (List.append_nil _).symm
  case gaps => exact (List.append_nil _).symm
  case recordCount => exact le_max_left _ _
  case gapCount => exact le_max_left _ _
  case progress =>
    intro noRecords noGaps positive
    rcases started with some | some | zero
    · exact absurd noRecords some
    · exact absurd noGaps some
    · omega
  case total => rfl
  case count => exact le_max_left _ _
  case bytes => exact fun _ => le_max_left _ _
  case stops =>
    intro next found
    obtain rfl := Option.some.inj found
    exact stops

theorem ScanV2.length_push (encodedBytes : Nat) :
    (scan.push encodedBytes item).records.length + (scan.push encodedBytes item).gaps.length =
      scan.records.length + scan.gaps.length + 1 := by
  cases item <;> simp [ScanV2.push] <;> omega

theorem ScanV2.bodyBytes_push (encodedBytes : Nat) :
    (scan.push encodedBytes item).bodyBytes = saturatingAdd scan.bodyBytes encodedBytes := by
  cases item <;> rfl

/-- An item that fits goes in front of what the scan delivers after it. -/
theorem Scanned.pushed (delivers : Delivers inner disk counted candidate item)
    (room : ¬ inner.config.batchMaxRecords ≤ saturatingAdd scan.records.length scan.gaps.length)
    (category : ¬ scan.categoryFull item = true)
    (short : ¬ ((scan.records ≠ [] ∨ scan.gaps ≠ []) ∧
      saturatingAdd scan.bodyBytes (encodedSize inner.host item.toJson) > inner.config.batchMaxBytes))
    (small : ¬ encodedSize inner.host item.toJson > inner.config.batchMaxBytes)
    (scanned : Scanned inner disk counted rest
      (scan.push (encodedSize inner.host item.toJson) item) result items) :
    Scanned inner disk counted (candidate :: rest) scan result (item :: items) := by
  have records := scanned.records
  have gaps := scanned.gaps
  have recordCount := scanned.recordCount
  have gapCount := scanned.gapCount
  have counts := @ScanV2.length_push scan item (encodedSize inner.host item.toJson)
  have bodyBytes := @ScanV2.bodyBytes_push scan item (encodedSize inner.host item.toJson)
  constructor
  case delivers => exact .cons delivers scanned.delivers
  case fits => exact Nat.succ_le_succ scanned.fits
  case records =>
    cases item <;> simpa [ScanV2.push, BatchItemV2.record?, List.filterMap_cons] using records
  case gaps =>
    cases item <;> simpa [ScanV2.push, BatchItemV2.gap?, List.filterMap_cons] using gaps
  case recordCount =>
    cases item <;> simp [ScanV2.push, ScanV2.categoryFull] at category recordCount ⊢ <;> omega
  case gapCount =>
    cases item <;> simp [ScanV2.push, ScanV2.categoryFull] at category gapCount ⊢ <;> omega
  case progress => exact fun _ _ _ _ => List.cons_ne_nil _ _
  case total =>
    rw [scanned.total, bodyBytes]
    rfl
  case count =>
    have count := scanned.count
    rw [counts] at count
    have bounded := inner.config.batchMaxRecords_le
    simp only [saturatingAdd] at room
    omega
  case bytes =>
    intro empty
    have bytes := scanned.bytes fun noRecords noGaps => by
      rw [noRecords, noGaps] at counts
      simp at counts
    rw [bodyBytes] at bytes
    refine bytes.trans (max_le_iff.mpr ⟨?_, le_max_right _ _⟩)
    by_cases some : scan.records ≠ [] ∨ scan.gaps ≠ []
    · exact (not_lt.mp fun long => short ⟨some, long⟩).trans (le_max_right _ _)
    · simp only [not_or, not_not] at some
      rw [empty some.1 some.2]
      refine le_trans ?_ (le_max_right _ _)
      simp only [saturatingAdd]
      omega
  case stops => exact fun next found => scanned.stops next found

end Scanned

/-- A scan leads to its result by quarantines, and one that has quarantined nothing has changed nothing
and delivered a prefix of its candidates. -/
theorem post_scanV2 {counted : OrdMap Nat RecordId} {remaining : List BatchCandidateV2}
    {scan : ScanV2} (keyed : m.state.Keyed) (pathed : m.state.Pathed)
    (held : ∀ entry, .record entry ∈ remaining → m.state.Holds entry)
    (distinct : (remaining.filterMap BatchCandidateV2.record?).Nodup) :
    Post (scanV2 inner counted remaining scan).run m
      (fun result m' => Chain inner offered m m' ∧
        (result.quarantined = false → scan.quarantined = false ∧ m' = m ∧
          ∃ items, Scanned inner m.disk counted remaining scan result items))
      (fun _ m' => Chain inner offered m m') := by
  induction remaining generalizing m scan with
  | nil => exact ⟨.refl, fun clean => ⟨clean, rfl, [], .nil⟩⟩
  | cons candidate rest ih =>
      have stopHere : scan.records ≠ [] ∨ scan.gaps ≠ [] ∨ inner.config.batchMaxRecords = 0 →
          scan.Stops inner m.disk counted candidate →
          Chain inner offered m m ∧ (scan.quarantined = false → scan.quarantined = false ∧ m = m ∧
            ∃ items, Scanned inner m.disk counted (candidate :: rest) scan scan items) :=
        fun started stops => ⟨.refl, fun clean => ⟨clean, rfl, [], .stopped started stops⟩⟩
      have heldRest : ∀ entry, .record entry ∈ rest → m.state.Holds entry :=
        fun entry inside => held entry (by simp [inside])
      have distinctRest : (rest.filterMap BatchCandidateV2.record?).Nodup := by
        cases candidate with
        | gap notice => simpa [List.filterMap_cons, BatchCandidateV2.record?] using distinct
        | record entry =>
            simp only [List.filterMap_cons, BatchCandidateV2.record?] at distinct
            exact (List.nodup_cons.mp distinct).2
      simp only [scanV2]
      split
      · rename_i full
        refine stopHere ?_ (.inl full)
        by_contra empty
        push Not at empty
        obtain ⟨noRecords, noGaps, positive⟩ := empty
        rw [noRecords, noGaps] at full
        simp only [List.length_nil, saturatingAdd] at full
        omega
      · rename_i room
        simp only [Call.run_bind, post_bind]
        refine (post_candidateItem pathed fun entry same => held entry (by simp [same])).monoOk ?_
        intro item m₁ spec
        cases item with
        | none =>
            obtain ⟨chain, entry, rfl, -, holds⟩ := spec
            simp only
            refine (ih (chain.keyed keyed) (chain.pathed pathed) (fun other inside => ?_)
              distinctRest).mono ?_
              fun _ _ later => chain.trans later
            · rw [holds other]
              refine ⟨heldRest other inside, ?_⟩
              rintro rfl
              simp only [List.filterMap_cons, BatchCandidateV2.record?] at distinct
              exact (List.nodup_cons.mp distinct).1 (List.mem_filterMap.mpr ⟨_, inside, rfl⟩)
            · rintro result m₂ ⟨later, clean⟩
              exact ⟨chain.trans later, fun not => absurd (clean not).1 (by simp)⟩
        | some item =>
            obtain ⟨rfl, delivers⟩ := spec
            simp only
            split
            · rename_i full
              refine stopHere ?_ (.inr ⟨item, delivers, .inl full⟩)
              cases item with
              | record delivered =>
                  refine .inl fun none => ?_
                  simp [ScanV2.categoryFull, none] at full
              | gap notice =>
                  refine .inr (.inl fun none => ?_)
                  simp [ScanV2.categoryFull, none] at full
            · rename_i category
              split
              · rename_i long
                exact stopHere (by tauto) (.inr ⟨item, delivers, .inr long.2⟩)
              · rename_i short
                split
                · exact .refl
                · rename_i small
                  refine (ih keyed pathed heldRest distinctRest).monoOk ?_
                  rintro result m₂ ⟨later, clean⟩
                  refine ⟨later, fun not => ?_⟩
                  obtain ⟨before, same, items, scanned⟩ := clean not
                  refine ⟨?_, same, item :: items, .pushed delivers room category short small scanned⟩
                  cases item <;> exact before

/-- A batch built on a machine: the items of a prefix of its candidates. -/
structure BatchOf (inner : Inner) (m : Machine) (batch : HubBatchV2) (items : List BatchItemV2) :
    Prop where
  version : batch.version = 2
  batchId : batch.batchId = batchIdV2 inner.host batch.records batch.gaps
  single : repeatsSequence (candidates m.state) = false
  delivers : List.Forall₂ (Delivers inner m.disk m.state.countedPendingExpirations)
    ((candidates m.state).take items.length) items
  fits : items.length ≤ (candidates m.state).length
  records : batch.records = items.filterMap BatchItemV2.record?
  gaps : batch.gaps = items.filterMap BatchItemV2.gap?
  recordCount : batch.records.length ≤ 256
  gapCount : batch.gaps.length ≤ 256
  progress : 0 < inner.config.batchMaxRecords → candidates m.state ≠ [] → items ≠ []
  count : items.length ≤ inner.config.batchMaxRecords
  bytes : bodyBytesOf inner.host items 0 ≤ inner.config.batchMaxBytes
  stops : ∀ candidate, (candidates m.state)[items.length]? = some candidate →
    ScanV2.Stops inner m.disk m.state.countedPendingExpirations
      { records := batch.records
        gaps := batch.gaps
        bodyBytes := bodyBytesOf inner.host items 0
        quarantined := false } candidate

/-- Every item is a record or a gap. -/
theorem length_records_gaps (items : List BatchItemV2) :
    (items.filterMap BatchItemV2.record?).length + (items.filterMap BatchItemV2.gap?).length =
      items.length := by
  induction items with
  | nil => rfl
  | cons item rest ih =>
      cases item <;>
        simp only [List.filterMap_cons, BatchItemV2.record?, BatchItemV2.gap?, List.length_cons]
          at ih ⊢ <;> omega

/-- The records among the candidates are the entries. -/
theorem mem_candidates_record {state : State} {entry : Entry} :
    .record entry ∈ candidates state ↔ entry ∈ state.entries.values := by
  simp only [candidates, mem_sortBySeq, List.mem_append, List.mem_map, BatchCandidateV2.record.injEq,
    exists_eq_right, reduceCtorEq, and_false, exists_false, or_false]

/-- The gaps among the candidates are the gaps recorded. -/
theorem mem_candidates_gap {state : State} {notice : GapNoticeV2} :
    .gap notice ∈ candidates state ↔ ∃ gap ∈ state.gaps.values, gap.notice = notice := by
  simp only [candidates, mem_sortBySeq, List.mem_append, List.mem_map, BatchCandidateV2.gap.injEq,
    exists_eq_right, reduceCtorEq, and_false, exists_false, false_or]

/-- No entry is a candidate twice. -/
theorem nodup_candidates_entries {state : State} (keyed : state.Keyed) :
    ((candidates state).filterMap BatchCandidateV2.record?).Nodup := by
  have perm := (List.perm_insertionSort
    (fun a b : BatchCandidateV2 => a.spoolSeq ≤ b.spoolSeq)
    ((sortBySeq Entry.spoolSeq state.entries.values).map .record ++
      (state.gaps.values.map (·.notice)).map .gap)).filterMap BatchCandidateV2.record?
  refine perm.nodup_iff.mpr ?_
  rw [List.filterMap_append, List.filterMap_map, List.filterMap_map]
  have left : (sortBySeq Entry.spoolSeq state.entries.values).filterMap
      (BatchCandidateV2.record? ∘ .record) = sortBySeq Entry.spoolSeq state.entries.values :=
    List.filterMap_some
  have right : (state.gaps.values.map (·.notice)).filterMap
      (BatchCandidateV2.record? ∘ .gap) = [] := by
    rw [List.filterMap_eq_nil_iff]
    exact fun _ _ => rfl
  rw [left, right, List.append_nil]
  exact nodup_sortBySeq.mpr keyed.nodup_values

/-- A v2 batch is built on the machine the call leaves behind. -/
theorem post_buildBatchV2 {restarts : Nat} (keyed : m.state.Keyed) (pathed : m.state.Pathed) :
    Post (buildBatchV2 inner restarts).run m
      (fun batch m' => Chain inner offered m m' ∧ ∃ items, BatchOf inner m' batch items)
      (fun _ m' => Chain inner offered m m') := by
  induction restarts generalizing m with
  | zero => exact .refl
  | succ restarts ih =>
      simp only [buildBatchV2, Call.run_bind, Call.run_atomic, post_bind, post_state, post_ite,
        post_throw, post_pure]
      refine ⟨fun _ => .refl, fun _ => ?_⟩
      change Post (if repeatsSequence (candidates m.state) = true then _ else _ :
        SpoolCall HubBatchV2).run m _ _
      cases single : repeatsSequence (candidates m.state) with
      | true => exact .refl
      | false =>
          simp only [Bool.false_eq_true, if_false, Call.run_bind, post_bind]
          have held : ∀ entry, .record entry ∈ candidates m.state → m.state.Holds entry :=
            fun entry inside => keyed.holds (mem_candidates_record.mp inside)
          refine (post_scanV2 keyed pathed held (nodup_candidates_entries keyed)).monoOk ?_
          rintro result m₁ ⟨chain, clean⟩
          cases quarantined : result.quarantined with
          | true =>
              simp only [if_true]
              refine (ih (chain.keyed keyed) (chain.pathed pathed)).mono ?_
                fun _ _ later => chain.trans later
              rintro batch m₂ ⟨later, built⟩
              exact ⟨chain.trans later, built⟩
          | false =>
              obtain ⟨-, rfl, items, scanned⟩ := clean quarantined
              simp only [Bool.false_eq_true, if_false, Call.run_pure, post_pure]
              refine ⟨chain, items, ?_⟩
              have recordCount := scanned.recordCount
              have gapCount := scanned.gapCount
              exact
                { version := rfl
                  batchId := rfl
                  single := single
                  delivers := scanned.delivers
                  fits := scanned.fits
                  records := by simpa [ScanV2.start] using scanned.records
                  gaps := by simpa [ScanV2.start] using scanned.gaps
                  recordCount := by simpa [ScanV2.start] using recordCount
                  gapCount := by simpa [ScanV2.start] using gapCount
                  progress := scanned.progress rfl rfl
                  count := by
                    have count := scanned.count
                    rw [scanned.records, scanned.gaps] at count
                    simpa [ScanV2.start, length_records_gaps] using count
                  bytes := by
                    have bytes := scanned.bytes fun _ _ => rfl
                    rw [scanned.total] at bytes
                    simpa [ScanV2.start] using bytes
                  stops := by
                    intro candidate found
                    have stops := scanned.stops candidate found
                    rw [ScanV2.Stops, scanned.total] at stops
                    exact stops }

end TeslatlasEdge
