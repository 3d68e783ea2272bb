/-
Module: TeslatlasEdge.Digests
Purpose: The texts whose digests name the batches can be read back: a text determines the merged
  items of a v2 batch, or the ordered identities of a v1 batch, and which of the two it is.
Trusted boundary: none
Main exports: beBytes_injOn, RecordId.bytes_injective, MergedItem.digestBytes_injOn, ItemsNumbered,
  mergedItems_perm_iff, batch_texts_determine_batches
-/
import TeslatlasEdge.Lib.Codes
import TeslatlasEdge.Prefixes
import TeslatlasEdge.Protocols

namespace TeslatlasEdge

open Lib (injOn_flatMap mod_pow_eq_of_digits)

/-! ### The parts of an item -/

theorem beBytes_length (n : Nat) : (beBytes n).length = 8 := by
  rw [beBytes, List.length_map, List.length_range]

/-- Eight bytes hold every 64-bit number. -/
theorem beBytes_injOn : {n | n ≤ u64Max}.InjOn beBytes := by
  intro m boundM n boundN same
  have bytes := List.map_inj_left.mp same
  have digits : ∀ i < 8, m / 256 ^ i % 256 = n / 256 ^ i % 256 := by
    intro i below
    have byte := bytes (7 - i) (List.mem_range.mpr (by omega))
    have position : 7 - (7 - i) = i := by omega
    rw [position] at byte
    simpa only [UInt8.toNat_ofNat'] using congrArg UInt8.toNat byte
  have low := mod_pow_eq_of_digits digits
  have boundM : m ≤ u64Max := boundM
  have boundN : n ≤ u64Max := boundN
  unfold u64Max at boundM boundN
  rwa [Nat.mod_eq_of_lt (by omega), Nat.mod_eq_of_lt (by omega)] at low

/-- A lowercase hexadecimal digit is one byte. -/
theorem toNat_of_isLowerHex {c : Char} (hex : isLowerHex c = true) : c.toNat < 128 := by
  rw [isLowerHex, Bool.or_eq_true, Bool.and_eq_true, decide_eq_true_eq, decide_eq_true_eq] at hex
  rcases hex with digit | ⟨-, high⟩
  · exact lt_trans (Lib.toNat_of_isDigit digit).2 (by decide)
  · exact lt_of_le_of_lt (show c.toNat ≤ 'f'.toNat from high) (by decide)

/-- A digit is encoded in one byte. -/
theorem utf8EncodeChar_of_isLowerHex {c : Char} (hex : isLowerHex c = true) :
    String.utf8EncodeChar c = [c.val.toUInt8] := by
  apply String.utf8EncodeChar_eq_singleton
  rw [Char.utf8Size_eq_one_iff, UInt32.le_iff_toNat_le]
  exact Nat.le_of_lt_succ (toNat_of_isLowerHex hex)

theorem utf8EncodeChar_injOn : {c | isLowerHex c = true}.InjOn String.utf8EncodeChar := by
  intro c hexC d hexD same
  rw [utf8EncodeChar_of_isLowerHex hexC, utf8EncodeChar_of_isLowerHex hexD,
    List.singleton_inj] at same
  have low := congrArg UInt8.toNat same
  simp only [UInt32.toNat_toUInt8] at low
  have boundC := toNat_of_isLowerHex hexC
  have boundD := toNat_of_isLowerHex hexD
  exact Char.toNat_inj.mp (by unfold Char.toNat at *; omega)

theorem RecordId.isLowerHex_of_mem (id : RecordId) {c : Char} (inside : c ∈ id.text) :
    isLowerHex c = true := by
  have valid := id.valid
  rw [validDigest, Bool.and_eq_true, List.all_eq_true] at valid
  exact valid.2 c inside

theorem RecordId.bytes_length (id : RecordId) : (Str.bytes id.text).length = 64 := by
  have single : ∀ text : Str, (∀ c ∈ text, isLowerHex c = true) →
      (Str.bytes text).length = text.length := by
    intro text hex
    induction text with
    | nil => rfl
    | cons c text ih =>
        have rest := ih fun d inside => hex d (List.mem_cons_of_mem _ inside)
        rw [Str.bytes] at rest ⊢
        rw [List.flatMap_cons, utf8EncodeChar_of_isLowerHex (hex c List.mem_cons_self),
          List.singleton_append, List.length_cons, rest, List.length_cons]
  rw [single id.text fun c inside => id.isLowerHex_of_mem inside, id.length_text]

/-- Identities are determined by their bytes. -/
theorem RecordId.bytes_injective {i j : RecordId} (same : Str.bytes i.text = Str.bytes j.text) :
    i = j := by
  have one : ∀ c ∈ {c | isLowerHex c = true}, (String.utf8EncodeChar c).length = 1 := by
    intro c hex
    rw [utf8EncodeChar_of_isLowerHex hex]
    rfl
  exact RecordId.text_injective <| injOn_flatMap Nat.zero_lt_one one utf8EncodeChar_injOn
    (fun c inside => i.isLowerHex_of_mem inside) (fun c inside => j.isLowerHex_of_mem inside) same

/-! ### Items -/

/-- Every item is digested from 74 bytes. -/
theorem MergedItem.digestBytes_length (item : MergedItem) : item.digestBytes.length = 74 := by
  simp only [MergedItem.digestBytes, List.cons_append, List.length_cons, List.length_append,
    beBytes_length, RecordId.bytes_length, List.length_nil]

/-- The kind, the sequence and the identity stand at fixed places. -/
theorem MergedItem.digestBytes_injOn :
    {item : MergedItem | item.spoolSeq ≤ u64Max}.InjOn MergedItem.digestBytes := by
  rintro ⟨s, kind, id⟩ boundS ⟨t, kind', id'⟩ boundT same
  simp only [MergedItem.digestBytes, List.cons_append, List.cons.injEq, List.append_assoc] at same
  obtain ⟨tag, rest⟩ := same
  obtain ⟨sequence, rest⟩ :=
    List.append_inj rest ((beBytes_length s).trans (beBytes_length t).symm)
  have identity :=
    List.append_inj_left rest ((RecordId.bytes_length id).trans (RecordId.bytes_length id').symm)
  obtain rfl := beBytes_injOn boundS boundT sequence
  obtain rfl := RecordId.bytes_injective identity
  have kinds : kind = kind' := by
    cases kind <;> cases kind' <;> first | rfl | simp at tag
  rw [kinds]

/-! ### Batches -/

/-- The sequences of the items of a v2 batch, records first. -/
def itemSequences (records : List HubBatchRecordV2) (gaps : List GapNoticeV2) : List Nat :=
  records.map (·.spoolSeq) ++ gaps.map (·.spoolSeq)

/-- No two items have one sequence, and every sequence is a 64-bit number. -/
structure ItemsNumbered (records : List HubBatchRecordV2) (gaps : List GapNoticeV2) : Prop where
  distinct : (itemSequences records gaps).Nodup
  bounded : ∀ s ∈ itemSequences records gaps, s ≤ u64Max

/-- The items of a batch before they are sorted. -/
def batchItems (records : List HubBatchRecordV2) (gaps : List GapNoticeV2) : List MergedItem :=
  records.map (fun record => ⟨record.spoolSeq, true, record.recordId⟩) ++
    gaps.map fun gap => ⟨gap.spoolSeq, false, gap.noticeId⟩

section

variable {records records' : List HubBatchRecordV2} {gaps gaps' : List GapNoticeV2}

/-- The items are digested under their own sequences. -/
theorem map_spoolSeq_batchItems :
    (batchItems records gaps).map MergedItem.spoolSeq = itemSequences records gaps := by
  rw [batchItems, List.map_append, List.map_map, List.map_map]
  rfl

theorem ItemsNumbered.le_u64Max (numbered : ItemsNumbered records gaps) {item : MergedItem}
    (inside : item ∈ mergedItems records gaps) : item.spoolSeq ≤ u64Max := by
  apply numbered.bounded
  rw [← map_spoolSeq_batchItems]
  exact List.mem_map_of_mem (mergedItems_perm.mem_iff.mp inside)

/-- They are digested in the order of sequences. -/
theorem mergedItems_sorted (records : List HubBatchRecordV2) (gaps : List GapNoticeV2) :
    (mergedItems records gaps).Pairwise fun a b => a.spoolSeq ≤ b.spoolSeq :=
  List.pairwise_insertionSort (fun a b : MergedItem => a.spoolSeq ≤ b.spoolSeq) _

/-- Sorted by distinct sequences, the items do not depend on the order they came in. -/
theorem ItemsNumbered.mergedItems_eq_iff (numbered : ItemsNumbered records gaps) :
    mergedItems records gaps = mergedItems records' gaps' ↔
      (batchItems records gaps).Perm (batchItems records' gaps') := by
  constructor
  · intro same
    exact mergedItems_perm.symm.trans (same ▸ mergedItems_perm)
  · intro shuffled
    have merged : (mergedItems records gaps).Perm (mergedItems records' gaps') :=
      (mergedItems_perm.trans shuffled).trans mergedItems_perm.symm
    refine merged.eq_of_pairwise ?_ (mergedItems_sorted _ _) (mergedItems_sorted _ _)
    intro a b here there before after
    have distinct : ((batchItems records gaps).map MergedItem.spoolSeq).Nodup :=
      map_spoolSeq_batchItems ▸ numbered.distinct
    refine List.inj_on_of_nodup_map distinct (mergedItems_perm.mem_iff.mp here)
      (mergedItems_perm.mem_iff.mp (merged.mem_iff.mpr there)) (le_antisymm before after)

/-- The records among them are the batch's records. -/
theorem filter_isRecord_batchItems (records : List HubBatchRecordV2) (gaps : List GapNoticeV2) :
    ((batchItems records gaps).filter (·.isRecord)).map (fun item => (item.spoolSeq, item.id)) =
      records.map fun record => (record.spoolSeq, record.recordId) := by
  simp [batchItems, List.filter_map, Function.comp_def]

/-- The gaps among them are the batch's gaps. -/
theorem filter_not_isRecord_batchItems (records : List HubBatchRecordV2)
    (gaps : List GapNoticeV2) :
    ((batchItems records gaps).filter (!·.isRecord)).map (fun item => (item.spoolSeq, item.id)) =
      gaps.map fun gap => (gap.spoolSeq, gap.noticeId) := by
  simp [batchItems, List.filter_map, Function.comp_def]

/-- Two batches have the same items if they have the same numbered records and the same numbered
gaps. -/
theorem batchItems_perm_iff :
    (batchItems records gaps).Perm (batchItems records' gaps') ↔
      (records.map fun record => (record.spoolSeq, record.recordId)).Perm
        (records'.map fun record => (record.spoolSeq, record.recordId)) ∧
      (gaps.map fun gap => (gap.spoolSeq, gap.noticeId)).Perm
        (gaps'.map fun gap => (gap.spoolSeq, gap.noticeId)) := by
  constructor
  · intro shuffled
    rw [← filter_isRecord_batchItems records gaps, ← filter_isRecord_batchItems records' gaps',
      ← filter_not_isRecord_batchItems records gaps,
      ← filter_not_isRecord_batchItems records' gaps']
    exact ⟨(shuffled.filter _).map _, (shuffled.filter _).map _⟩
  · rintro ⟨sameRecords, sameGaps⟩
    have left := sameRecords.map fun (s, id) => (⟨s, true, id⟩ : MergedItem)
    have right := sameGaps.map fun (s, id) => (⟨s, false, id⟩ : MergedItem)
    simp only [List.map_map] at left right
    exact left.append right

/-- A v2 text determines the merged items. -/
theorem batchTextV2_eq_iff (numbered : ItemsNumbered records gaps)
    (numbered' : ItemsNumbered records' gaps') :
    batchTextV2 records gaps = batchTextV2 records' gaps' ↔
      mergedItems records gaps = mergedItems records' gaps' := by
  rw [batchTextV2, batchTextV2, List.append_cancel_left_eq]
  refine ⟨fun same => ?_, fun same => by rw [same]⟩
  exact injOn_flatMap (by decide) (fun item _ => item.digestBytes_length)
    MergedItem.digestBytes_injOn (fun _ inside => numbered.le_u64Max inside)
    (fun _ inside => numbered'.le_u64Max inside) same

/-- A v1 text determines the identities and their order. -/
theorem batchText_eq_iff {ids ids' : List RecordId} : batchText ids = batchText ids' ↔ ids = ids' := by
  rw [batchText, batchText, List.append_cancel_left_eq]
  refine ⟨fun same => ?_, fun same => by rw [same]⟩
  have length : ∀ id ∈ (Set.univ : Set RecordId), (Str.bytes id.text ++ [0]).length = 65 := by
    intro id _
    rw [List.length_append, RecordId.bytes_length]
    rfl
  have injective : (Set.univ : Set RecordId).InjOn fun id => Str.bytes id.text ++ [0] := by
    intro i _ j _ equal
    exact RecordId.bytes_injective (List.append_inj_left' equal rfl)
  exact injOn_flatMap (by decide) length injective (fun _ _ => trivial) (fun _ _ => trivial) same

/-- The identity of a batch is the digest of its text.  Two v2 texts agree exactly if the merged
items do, which is when the records and the gaps are the same up to the order of the two slices; two
v1 texts agree exactly if the ordered identities do; and no text is of both kinds. -/
theorem batch_texts_determine_batches (numbered : ItemsNumbered records gaps)
    (numbered' : ItemsNumbered records' gaps') (listed listed' : List HubBatchRecordV1) :
    (∀ host : Host,
      batchIdV2 host records gaps = hexEncode (host.sha256 (batchTextV2 records gaps)).val ∧
      batchId host listed =
        hexEncode (host.sha256 (batchText (listed.map (·.recordId)))).val) ∧
    (batchTextV2 records gaps = batchTextV2 records' gaps' ↔
      mergedItems records gaps = mergedItems records' gaps') ∧
    (mergedItems records gaps = mergedItems records' gaps' ↔
      (records.map fun record => (record.spoolSeq, record.recordId)).Perm
        (records'.map fun record => (record.spoolSeq, record.recordId)) ∧
      (gaps.map fun gap => (gap.spoolSeq, gap.noticeId)).Perm
        (gaps'.map fun gap => (gap.spoolSeq, gap.noticeId))) ∧
    (batchText (listed.map (·.recordId)) = batchText (listed'.map (·.recordId)) ↔
      listed.map (·.recordId) = listed'.map (·.recordId)) ∧
    batchText (listed.map (·.recordId)) ≠ batchTextV2 records gaps := by
  refine ⟨fun host => ⟨rfl, batchId_eq host listed⟩, batchTextV2_eq_iff numbered numbered', ?_,
    batchText_eq_iff, batchText_ne _ records gaps⟩
  rw [numbered.mergedItems_eq_iff, batchItems_perm_iff]

end

/-- Two records and a gap of one batch. -/
def sampleRecords : List HubBatchRecordV2 :=
  let id : RecordId := ⟨List.replicate 64 'd', by decide⟩
  let other : RecordId := ⟨List.replicate 64 'e', by decide⟩
  [⟨id, other, 3, I64.clamp 0, sampleEnvelope "a"⟩, ⟨other, id, 1, I64.clamp 0, sampleEnvelope "b"⟩]

def sampleGaps : List GapNoticeV2 :=
  [⟨⟨List.replicate 64 'c', by decide⟩, 2, I64.clamp 0, .retentionExpired, []⟩]

theorem sampleItems_numbered : ItemsNumbered sampleRecords sampleGaps :=
  ⟨by decide, by decide⟩

theorem batch_texts_determine_sample :
    batchTextV2 sampleRecords sampleGaps = batchTextV2 sampleRecords.reverse sampleGaps := by
  have reversed : ItemsNumbered sampleRecords.reverse sampleGaps := ⟨by decide, by decide⟩
  obtain ⟨-, texts, items, -⟩ :=
    batch_texts_determine_batches sampleItems_numbered reversed [] []
  exact texts.mpr (items.mpr ⟨(List.reverse_perm sampleRecords).symm.map _, .refl _⟩)

end TeslatlasEdge
