/-
Module: TeslatlasEdge.Spool.Reopening
Purpose: Opening a lawful directory: the directory stays lawful at every point on the way, and a
  spool that opens starts from a state its files back.
Trusted boundary: none
Main exports: post_recoverCounters, post_recoverReceipts, post_recoverFiles, post_recover,
  post_openSpool
-/
import TeslatlasEdge.Spool.Agreement
import TeslatlasEdge.Spool.Keeping
import TeslatlasEdge.Spool.Loading

namespace TeslatlasEdge

open Lib
open Section

variable {inner : Inner} {offered : Nat → Envelope → Prop} {since : List Disk} {m m' : Machine}
  {P : State → Prop}

/-! ### Counters -/

/-- No sequence is above the highest. -/
theorem le_maxSequence {sequences : List Nat} {s : Nat} (inside : s ∈ sequences) :
    s ≤ maxSequence sequences := by
  have grows : ∀ (items : List Nat) (start : Nat), start ≤ items.foldl max start := by
    intro items
    induction items with
    | nil => exact fun start => le_rfl
    | cons item rest ih => exact fun start => (le_max_left start item).trans (ih _)
  have covers : ∀ (items : List Nat) (start : Nat), s ∈ items → s ≤ items.foldl max start := by
    intro items
    induction items with
    | nil => exact fun start inside => absurd inside List.not_mem_nil
    | cons item rest ih =>
        intro start inside
        rcases List.mem_cons.mp inside with rfl | inside
        · exact (le_max_right start s).trans (grows rest _)
        · exact ih _ inside
  exact covers sequences 0 inside

/-- The next number a file saves is the one decoded from it. -/
theorem savedNext_of_decodeSequence {sequence : Option SequenceState}
    (decoded : decodeSequence inner m.disk.sequence = .ok sequence) :
    m.disk.savedNext = (sequence.map (·.nextSpoolSequence)).getD 0 := by
  rw [Disk.savedNext, decodeSequence_eq_ok decoded]
  cases sequence <;> rfl

/-- So is the total of expired records. -/
theorem savedTotal_of_decodeSequence {sequence : Option SequenceState}
    (decoded : decodeSequence inner m.disk.sequence = .ok sequence) :
    m.disk.savedTotal = (sequence.map (·.expiredRecordsTotal)).getD 0 := by
  rw [Disk.savedTotal, decodeSequence_eq_ok decoded]
  cases sequence <;> rfl

theorem countedSequences_of_decodeSequence {sequence : Option SequenceState} {s : Nat}
    (decoded : decodeSequence inner m.disk.sequence = .ok sequence) :
    s ∈ m.disk.countedSequences ↔
      ((sequence.map SequenceState.countedPendingExpirations).getD OrdMap.empty).contains s =
        true := by
  rw [Disk.countedSequences, decodeSequence_eq_ok decoded]
  cases sequence with
  | none => simp [OrdMap.contains, OrdMap.get?_empty]
  | some found =>
      rw [← mem_keys_iff_contains, ← List.mem_toFinset]
      rfl

/-- What `recover` has found out about the counters. -/
structure Counters (inner : Inner) (m : Machine) (sequence : Option SequenceState)
    (recordsNext gapsNext : Nat) : Prop where
  decoded : decodeSequence inner m.disk.sequence = .ok sequence
  records : recordsNext = maxSequence (m.state.entries.values.map (·.spoolSeq)) + 1
  gaps : gapsNext = maxSequence (m.state.gaps.values.map (·.notice.spoolSeq)) + 1
  agree : ∀ entry, entry ∈ m.state.entries.values → ∀ identity,
    (m.state.withSequence sequence recordsNext gapsNext).countedPendingExpirations.get?
      entry.spoolSeq = some identity → identity = entry.stableRecordId

/-- Recovering the counters sets what the files tell, or fails on a counter without successor. -/
theorem post_recoverCounters {onOk : Unit → Machine → Prop} {onError : SpoolError → Machine → Prop}
    (counted : ∀ sequence recordsNext gapsNext, Counters inner m sequence recordsNext gapsNext →
      onOk () (m.update fun state => state.withSequence sequence recordsNext gapsNext))
    (failed : ∀ error m', m'.timeline = m.timeline → onError error m') :
    Post (recoverCounters inner) m onOk onError := by
  simp only [recoverCounters, recoverSequenceState, post_bind, post_disk]
  cases decoded : decodeSequence inner m.disk.sequence with
  | error error => exact failed _ _ rfl
  | ok sequence =>
      simp only [post_pure, post_state]
      cases records : checkedAdd (maxSequence (m.state.entries.values.map (·.spoolSeq))) 1 with
      | none => exact failed _ _ rfl
      | some recordsNext =>
          cases gaps : checkedAdd (maxSequence (m.state.gaps.values.map (·.notice.spoolSeq))) 1 with
          | none => exact failed _ _ rfl
          | some gapsNext =>
              simp only [post_bind, post_modifyState, post_state, post_ite, post_throw, post_pure]
              refine ⟨fun _ => failed _ _ rfl, fun agree => counted _ _ _ ⟨decoded,
                (checkedAdd_eq_some records).1, (checkedAdd_eq_some gaps).1, ?_⟩⟩
              intro entry inside identity found
              by_contra different
              apply agree
              rw [List.any_eq_true]
              refine ⟨entry, inside, ?_⟩
              simp only [Machine.update, found, Option.any_some]
              exact decide_eq_true different

/-- The counters are beyond every loaded record, and no two records share a sequence. -/
theorem Loading.numbered {sequence : Option SequenceState} {recordsNext gapsNext : Nat}
    (loading : Loading inner.key inner.host offered since m [])
    (counters : Counters inner m sequence recordsNext gapsNext) :
    (m.state.withSequence sequence recordsNext gapsNext).Numbered := by
  constructor
  · change 1 ≤ max (max ((sequence.map (·.nextSpoolSequence)).getD 1) recordsNext) gapsNext
    rw [counters.records]
    exact le_max_of_le_left (le_max_of_le_right (Nat.le_add_left _ _))
  · intro entry held
    obtain ⟨record, admitted, -⟩ := loading.entry entry held
    exact (loading.lawful.origin _ _ admitted).1
  · intro entry held
    have inside : entry ∈ m.state.entries.values := OrdMap.mem_values_iff.mpr ⟨_, held⟩
    have bound := le_maxSequence (List.mem_map_of_mem (f := Entry.spoolSeq) inside)
    change entry.spoolSeq <
      max (max ((sequence.map (·.nextSpoolSequence)).getD 1) recordsNext) gapsNext
    rw [counters.records]
    exact lt_max_of_lt_left (lt_max_of_lt_right (Nat.lt_succ_of_le bound))
  · intro entry other held held' same
    change m.state.Holds entry at held
    change m.state.Holds other at held'
    obtain ⟨record, admitted, legacy, -⟩ := loading.entry entry held
    obtain ⟨record', admitted', legacy', -⟩ := loading.entry other held'
    rw [← same] at admitted'
    obtain rfl := loading.lawful.once _ _ _ admitted admitted'
    rw [State.Holds, ← legacy, legacy', held'] at held
    exact (Option.some.inj held).symm

/-- The recovered counters agree with what the sequence file has listed. -/
theorem Loading.tally {sequence : Option SequenceState} {recordsNext gapsNext : Nat}
    (loading : Loading inner.key inner.host offered since m []) (entries : EntriesStand m [])
    (counters : Counters inner m sequence recordsNext gapsNext)
    (faithful : FaithfulIds inner.host offered) :
    Tally (m.update fun state => state.withSequence sequence recordsNext gapsNext) := by
  have tallied := loading.lawful.tally faithful
  have lists : ∀ s, s ∈ m.disk.countedSequences ↔ _ := fun s =>
    countedSequences_of_decodeSequence counters.decoded
  constructor
  · intro _
    have total := tallied.total
    rw [savedTotal_of_decodeSequence counters.decoded] at total
    change (m.state.withSequence sequence recordsNext gapsNext).expiredRecords =
      (listedSequences (m.disk :: m.history)).card
    cases sequence with
    | some found => exact total
    | none =>
        -- without a sequence file nothing is listed, so no gap tells of an expiration
        rw [← total]
        have nothing := Finset.card_eq_zero.mp total.symm
        change (m.state.gaps.values.filter fun gap =>
          gap.notice.reason = .retentionExpired).length = 0
        rw [List.length_eq_zero_iff, List.filter_eq_nil_iff]
        intro gap inside retention
        obtain ⟨noticeId, held⟩ := OrdMap.mem_values_iff.mp inside
        have stands := loading.gap noticeId gap held
        rw [loading.pathed.gaps noticeId gap held] at stands
        have listed := tallied.gap _ _ stands (of_decide_eq_true retention)
        rw [nothing] at listed
        exact absurd listed (Finset.notMem_empty _)
  · intro _ entry held listed
    obtain ⟨record, admitted, legacy, -⟩ := loading.entry entry held
    obtain ⟨body, stands⟩ := (entries entry held).1
    rw [loading.pathed.entries entry held, ← legacy] at stands
    exact (lists _).mp (tallied.pending _ record admitted ⟨body, stands⟩ listed)
  · intro s counted
    have now : s ∈ m.disk.countedSequences := (lists s).mpr counted
    change s ∈ m.disk.countedSequences ∪ listedSequences m.history
    exact Finset.mem_union_left _ now

/-- A directory whose files are loaded has the accounts its files add up to. -/
theorem Loading.accounts {sequence : Option SequenceState} {recordsNext gapsNext : Nat}
    (loading : Loading inner.key inner.host offered since m []) (pendings : PendingsHeld m [])
    (entries : EntriesStand m []) (counters : Counters inner m sequence recordsNext gapsNext)
    (faithful : FaithfulIds inner.host offered) :
    Accounts (m.update fun state => state.withSequence sequence recordsNext gapsNext) := by
  refine ⟨loading.indexed, fun name body found => .inl ?_, fun name body found => .inl ?_,
    loading.tally entries counters faithful⟩
  · exact (pendings name body found).resolve_left List.not_mem_nil
  · exact (loading.gapHeld name body found).resolve_left List.not_mem_nil

/-- With its counters the loaded state is backed. -/
theorem Loading.sound {sequence : Option SequenceState} {recordsNext gapsNext : Nat}
    (loading : Loading inner.key inner.host offered since m []) (pendings : PendingsHeld m [])
    (entries : EntriesStand m []) (counters : Counters inner m sequence recordsNext gapsNext) :
    Sound inner.key inner.host offered since
      (m.update fun state => state.withSequence sequence recordsNext gapsNext) := by
  have saved := savedNext_of_decodeSequence counters.decoded
  have next : (m.state.withSequence sequence recordsNext gapsNext).nextSpoolSequence =
      max (max ((sequence.map (·.nextSpoolSequence)).getD 1) recordsNext) gapsNext := rfl
  have larger : m.disk.savedNext ≤ (sequence.map (·.nextSpoolSequence)).getD 1 := by
    rw [saved]
    cases sequence with
    | none => exact Nat.zero_le _
    | some found => exact le_rfl
  have known : ∀ entry, m.state.Holds entry →
      ∃ record, Admitted inner.key m.timeline entry.spoolSeq record ∧
        record.recordId = entry.recordId ∧ record.stableRecordId = some entry.stableRecordId := by
    intro entry held
    obtain ⟨record, admitted, legacy, stable, -⟩ := loading.entry entry held
    exact ⟨record, admitted, legacy, stable⟩
  refine ⟨loading.always, ⟨{ loading.pathed with }, known, loading.gap,
    fun s record admitted => .inl ?_, ?_, ?_⟩, loading.accounts pendings entries counters,
    fun _ entry held => (entries entry held).1⟩
  · change s < (m.state.withSequence sequence recordsNext gapsNext).nextSpoolSequence
    rw [next]
    rcases loading.lawful.counter s record admitted with small | ⟨body, stands⟩ |
      ⟨noticeId, body, stands⟩
    · exact lt_max_of_lt_left (lt_max_of_lt_left (lt_of_lt_of_le small larger))
    · rcases pendings _ body stands with inside | ⟨entry, held, path⟩
      · cases inside
      · rw [loading.pathed.entries entry held] at path
        obtain ⟨other, admitted', -⟩ := loading.entry entry held
        have range := loading.lawful.origin s record admitted
        have range' := loading.lawful.origin _ other admitted'
        have same := (pendingFileName_injective range'.1 range'.2.1.le range.1 range.2.1.le
          (Path.pending.inj path)).1
        have bound := le_maxSequence (List.mem_map.mpr
          ⟨entry, OrdMap.mem_values_iff.mpr ⟨_, held⟩, same⟩)
        rw [counters.records]
        exact lt_max_of_lt_left (lt_max_of_lt_right (Nat.lt_succ_of_le bound))
    · rcases loading.gapHeld _ body stands with inside | ⟨noticeId', gap, held, path⟩
      · cases inside
      · rw [loading.pathed.gaps noticeId' gap held] at path
        obtain ⟨other, -, admitted', -⟩ := loading.heldNotice held
        have same := (gapFileName_injective (loading.lawful.origin _ other admitted').2.1.le
          (loading.lawful.origin s record admitted).2.1.le (Path.gap.inj path)).1
        have bound := le_maxSequence (List.mem_map (f := fun gap : GapEntry =>
          gap.notice.spoolSeq) |>.mpr ⟨gap, OrdMap.mem_values_iff.mpr ⟨_, held⟩, same⟩)
        rw [counters.gaps]
        exact lt_max_of_lt_right (Nat.lt_succ_of_le bound)
  · exact larger.trans ((le_max_left _ _).trans (le_max_left _ _))
  · change 1 ≤ (m.state.withSequence sequence recordsNext gapsNext).nextSpoolSequence
    rw [next, counters.gaps]
    omega

/-! ### Receipts -/

/-- A file decoded as a receipt is that receipt, under its own name. -/
theorem decodeReceipt_eq_some {file : NamedBlob} {receipt : AckReceipt}
    (decoded : decodeReceipt inner file = .ok (some receipt)) :
    file.2 = inner.key.encrypt (.receipt receipt) ∧
      file.1 = receiptFileName receipt.sequence receipt.batchId ∧ validReceipt receipt = true := by
  unfold decodeReceipt at decoded
  split at decoded
  · cases decoded
  · split at decoded
    · cases decoded
    · cases decoded
    · rename_i plaintext opened
      split at decoded
      · cases decoded
      · rename_i found parsed
        split at decoded
        · cases decoded
        · rename_i checked
          obtain rfl := Option.some.inj (Except.ok.inj decoded)
          rw [not_or, not_not, not_not] at checked
          refine ⟨?_, checked.2, checked.1⟩
          rw [decrypt_eq_ok opened]
          cases plaintext with
          | receipt stored =>
              obtain rfl := Option.some.inj parsed
              rfl
          | record | gap | sequence => cases parsed

/-- Two states that differ at most in their receipts and in the count of damaged files. -/
structure State.SameRecords (a b : State) : Prop where
  entries : a.entries = b.entries
  stableIndex : a.stableIndex = b.stableIndex
  gaps : a.gaps = b.gaps
  next : a.nextSpoolSequence = b.nextSpoolSequence
  pruned : a.v1AckHistoryPruned = b.v1AckHistoryPruned
  pendingBytes : a.pendingBytes = b.pendingBytes
  pendingGapBytes : a.pendingGapBytes = b.pendingGapBytes
  expired : a.expiredRecords = b.expiredRecords
  counted : a.countedPendingExpirations = b.countedPendingExpirations

theorem State.SameRecords.refl (state : State) : state.SameRecords state :=
  ⟨rfl, rfl, rfl, rfl, rfl, rfl, rfl, rfl, rfl⟩

theorem Accounts.sameRecords (accounts : Accounts m) (same : m'.state.SameRecords m.state)
    (latch : m'.storageWriteFailed = m.storageWriteFailed)
    (listed : listedSequences m'.timeline = listedSequences m.timeline)
    (pendings : ∀ name, m'.disk.read (.pending name) = m.disk.read (.pending name))
    (gaps : ∀ name, m'.disk.read (.gap name) = m.disk.read (.gap name)) : Accounts m' := by
  have holds : ∀ entry, m'.state.Holds entry ↔ m.state.Holds entry := fun entry => by
    rw [State.Holds, same.entries, State.Holds]
  refine ⟨fun entry held => ?_, fun name body found => ?_, fun name body found => ?_, ?_⟩
  · rw [same.stableIndex]
    exact accounts.indexed entry ((holds entry).mp held)
  · rw [pendings] at found
    simpa only [holds, latch, same.next] using accounts.pendings name body found
  · rw [gaps] at found
    simpa only [same.gaps, latch] using accounts.gapFiles name body found
  · apply accounts.tally.kept
    · exact listed
    · exact fun failed => latch.trans failed
    · exact same.expired
    · intro entry held
      rw [same.counted]
      exact ⟨(holds entry).mp held, fun counted => counted⟩
    · intro s counted
      rwa [same.counted] at counted

/-- A step that touches neither records nor gaps keeps a sound machine sound. -/
theorem Sound.sameRecords {key : EncryptionKey} {host : Host} (sound : Sound key host offered since m)
    (always : AlwaysLawful key host offered since m'.timeline)
    (later : m'.timeline = m.timeline ∨ m'.timeline = m'.disk :: m.timeline)
    (same : m'.state.SameRecords m.state) (pathed : m'.state.Pathed)
    (latch : m'.storageWriteFailed = m.storageWriteFailed)
    (pendings : ∀ name, m'.disk.read (.pending name) = m.disk.read (.pending name))
    (gaps : ∀ name, m'.disk.read (.gap name) = m.disk.read (.gap name))
    (sequence : m'.disk.read .sequence = m.disk.read .sequence) :
    Sound key host offered since m' := by
  have suffix : m.timeline <:+ m'.timeline := by
    rcases later with here | here
    · rw [here]
    · rw [here]
      exact List.suffix_cons _ _
  have back : ∀ s record, Admitted key m'.timeline s record → Admitted key m.timeline s record := by
    intro s record admitted
    rcases later with here | here
    · rwa [here] at admitted
    · rw [here] at admitted
      exact admitted.back fun name body found => by rwa [pendings] at found
  have listed : listedSequences m'.timeline = listedSequences m.timeline := by
    rcases later with here | here
    · rw [here]
    · rw [here]
      exact listedSequences_next sequence
  refine ⟨always, sound.backed.kept pathed suffix back (fun entry held => ?_)
    (fun noticeId gap held => ?_) same.next (fun failed => latch.trans failed)
    (by rw [savedNext_congr sequence]; exact sound.backed.saved),
    fun faithful => (sound.accounts faithful).sameRecords same latch listed pendings gaps,
    fun blameless entry held => ?_⟩
  · rwa [State.Holds, same.entries] at held
  · rw [same.gaps] at held
    have path := sound.backed.pathed.gaps noticeId gap held
    rw [path, gaps, ← path]
    exact sound.backed.gap noticeId gap held
  · rw [State.Holds, same.entries] at held
    obtain ⟨body, found⟩ := sound.stands (blameless.back suffix) entry held
    rw [sound.backed.pathed.entries entry held] at found ⊢
    exact ⟨body, (pendings _).trans found⟩

/-- What is known while the receipt files are read. -/
structure ReadingReceipts (inner : Inner) (offered : Nat → Envelope → Prop) (since : List Disk)
    (start m : Machine) : Prop where
  sound : Sound inner.key inner.host offered since m
  same : m.state.SameRecords start.state
  held : ReceiptsHeld inner.key m
  later : start.timeline <:+ m.timeline

/-- A receipt file that is moved aside. -/
theorem post_quarantineReceipt {start : Machine} {name : Str}
    (reading : ReadingReceipts inner offered since start m) :
    Post (do quarantineFileBounded inner (.receipt name); countCorrupt) m
      (fun _ m' => ReadingReceipts inner offered since start m')
      (fun _ m' => AlwaysLawful inner.key inner.host offered since m'.timeline) := by
  have sound := reading.sound
  rw [post_bind]
  apply post_quarantineFileBounded
  · intro body found faults within
    have reads := fun other => m.setAside_read (.receipt name) other body
    have always : AlwaysLawful inner.key inner.host offered since
        (m.setAside (.receipt name) body).timeline :=
      sound.always.cons (sound.lawful.dropReceipt reads) fun _ _ found =>
        .inl (Disk.read_of_read_remove m.disk (.receipt name) found)
    have later : m.timeline <:+ (m.setAside (.receipt name) body).timeline := List.suffix_cons _ _
    simp only [countCorrupt, post_modifyState]
    refine ⟨sound.sameRecords always (.inr rfl) ⟨rfl, rfl, rfl, rfl, rfl, rfl, rfl, rfl, rfl⟩
      { sound.backed.pathed with } rfl (fun other => ?_) (fun other => ?_) rfl,
      { reading.same with }, ⟨reading.held.batchId,
        fun batchId entry found => (reading.held.durable batchId entry found).mono later⟩,
      reading.later.trans later⟩
    · have read := reads (.pending other)
      rwa [if_neg (by simp)] at read
    · have read := reads (.gap other)
      rwa [if_neg (by simp)] at read
  · exact fun _ _ _ _ => sound.always
  · intro body found _ _ faults within
    exact sound.always.cons (sound.lawful.dropReceipt fun other =>
      m.setAside_read (.receipt name) other body) fun _ _ found =>
        .inl (Disk.read_of_read_remove m.disk (.receipt name) found)

/-- Loading receipts gathers those of the directory. -/
theorem post_loadReceipts {start : Machine} {files : List NamedBlob}
    (reading : ReadingReceipts inner offered since start m)
    (listed : ∀ file ∈ files, start.disk.read (.receipt file.1) = some file.2) :
    Post (loadReceipts inner files) m
      (fun _ m' => ReadingReceipts inner offered since start m')
      (fun _ m' => AlwaysLawful inner.key inner.host offered since m'.timeline) := by
  induction files generalizing m with
  | nil => exact reading
  | cons file rest ih =>
      have listedRest : ∀ other ∈ rest, start.disk.read (.receipt other.1) = some other.2 :=
        fun other inside => listed other (by simp [inside])
      simp only [loadReceipts]
      suffices first : Post (recoverReceipt inner file) m
          (fun _ m' => ReadingReceipts inner offered since start m')
          (fun _ m' => AlwaysLawful inner.key inner.host offered since m'.timeline) from
        first.bind fun _ m₁ reading₁ => ih reading₁ listedRest
      simp only [recoverReceipt]
      cases decoded : decodeReceipt inner file with
      | error error => exact reading.sound.always
      | ok found =>
          cases found with
          | none => exact post_quarantineReceipt reading
          | some receipt =>
              simp only [post_bind, post_state, post_ite, post_modifyState]
              refine ⟨fun _ => by simpa only [post_bind] using post_quarantineReceipt reading,
                fun absent => ?_⟩
              obtain ⟨content, named, -⟩ := decodeReceipt_eq_some decoded
              have receipted : Receipted inner.key m.timeline receipt := by
                refine Receipted.mono ⟨start.disk, List.mem_cons_self, ?_⟩ reading.later
                have stands := listed file (by simp)
                rwa [content, named] at stands
              have sound := reading.sound
              refine ⟨sound.sameRecords sound.always (.inl rfl)
                ⟨rfl, rfl, rfl, rfl, rfl, rfl, rfl, rfl, rfl⟩ ⟨sound.backed.pathed.entries,
                  sound.backed.pathed.gapKeyed, sound.backed.pathed.gaps,
                  fun batchId entry found => ?_⟩ rfl (fun _ => rfl) (fun _ => rfl) rfl,
                { reading.same with },
                ⟨fun batchId entry found => ?_, fun batchId entry found => ?_⟩, reading.later⟩
              all_goals
                simp only [Machine.update, OrdMap.get?_insert] at found
                split at found
              · rw [← Option.some.inj found, named]
              · exact sound.backed.pathed.receipts batchId entry found
              · rename_i here
                rw [← Option.some.inj found, here]
              · exact reading.held.batchId batchId entry found
              · rw [← Option.some.inj found]
                exact receipted
              · exact reading.held.durable batchId entry found

/-- Replaying receipts is a chain that admits nothing. -/
theorem post_replayReceipts {receipts : List AckReceipt} {flags : Bool × Bool}
    (keyed : m.state.Keyed) (numbered : m.state.Numbered)
    (receipted : ∀ receipt ∈ receipts, Receipted inner.key m.timeline receipt) :
    Post (replayReceipts inner receipts flags) m
      (fun _ m' => Chain inner noOffers m m' ∧ Releases m.state m'.state)
      (fun _ m' => Chain inner noOffers m m') := by
  induction receipts generalizing m flags with
  | nil => exact ⟨.refl, .refl⟩
  | cons receipt rest ih =>
      have durable := receipted receipt (by simp)
      simp only [replayReceipts]
      refine (((post_completeAdmissions durable fun _ inside => inside).and
        post_completeAdmissions_releases).mono (fun _ _ kept => kept) fun _ _ kept => kept.1).bind ?_
      rintro removed m₁ ⟨⟨first, -⟩, gone, -⟩
      refine (((post_completeNotices (first.keyed keyed) (first.numbered numbered)
        (durable.mono first.timeline) fun _ inside => inside).and
        (post_completeNotices_releases (first.keyed keyed))).mono
        (fun _ _ kept => kept) fun _ _ later => first.trans later.1).bind ?_
      rintro flags m₂ ⟨⟨second, -⟩, gone'⟩
      have whole : Chain inner noOffers m m₂ := first.trans second
      refine (ih (whole.keyed keyed) (whole.numbered numbered) fun other inside =>
        (receipted other (by simp [inside])).mono whole.timeline).mono ?_
        fun _ _ later => whole.trans later
      rintro _ m₃ ⟨third, gone''⟩
      exact ⟨whole.trans third, (gone.trans gone').trans gone''⟩

/-- The receipts are read and then completed. -/
theorem post_recoverReceipts (distinct : DistinctNotices inner.host offered)
    (sound : Sound inner.key inner.host offered since m) (keyed : m.state.Keyed)
    (numbered : m.state.Numbered)
    (none : m.state.receipts = .empty) :
    Post (recoverReceipts inner) m
      (fun _ m' => ∃ m₁, ReadingReceipts inner offered since m m₁ ∧ Chain inner noOffers m₁ m' ∧
        Releases m₁.state m'.state)
      (fun _ m' => AlwaysLawful inner.key inner.host offered since m'.timeline) := by
  have empty : ∀ batchId entry, ¬ m.state.receipts.get? batchId = some entry := by
    intro batchId entry found
    rw [none, OrdMap.get?_empty] at found
    cases found
  have reading : ReadingReceipts inner offered since m m :=
    ⟨sound, .refl _, ⟨fun batchId entry found => absurd found (empty _ _),
      fun batchId entry found => absurd found (empty _ _)⟩, List.suffix_refl _⟩
  simp only [recoverReceipts, post_bind, post_disk, post_state]
  refine (post_loadReceipts reading fun file inside => mem_entries_iff.mp inside).monoOk ?_
  intro _ m₁ reading₁
  have keyed₁ : m₁.state.Keyed := by
    rw [State.Keyed, reading₁.same.entries]
    exact keyed
  have lawful : ∀ m', Chain inner noOffers m₁ m' →
      AlwaysLawful inner.key inner.host offered since m'.timeline := fun m' chain =>
    (chain.offering.sound distinct reading₁.sound).always
  have replayed := @post_replayReceipts inner m₁ (m₁.state.receipts.values.map (·.receipt))
    (false, false) keyed₁ (numbered.of_same reading₁.same.entries reading₁.same.next) (by
      intro receipt inside
      obtain ⟨entry, held, rfl⟩ := List.mem_map.mp inside
      obtain ⟨batchId, found⟩ := OrdMap.mem_values_iff.mp held
      exact reading₁.held.durable batchId entry found)
  refine replayed.mono ?_ fun _ m₂ chain => lawful m₂ chain
  rintro flags m₂ ⟨chain, gone⟩
  have sync : ∀ {m₃ : Machine}, Chain inner noOffers m₁ m₃ → m₃.state = m₂.state →
      Post syncDirectory m₃ (fun _ m' => Chain inner noOffers m₁ m' ∧ m'.state = m₂.state)
        (fun _ m' => AlwaysLawful inner.key inner.host offered since m'.timeline) := by
    intro m₃ before same
    exact post_syncDirectory_chain.mono
      (fun _ _ facts => ⟨before.trans facts.1, facts.2.1.trans same⟩)
      fun _ m' later => lawful m' (before.trans later)
  have last : ∀ {m₃ : Machine}, Chain inner noOffers m₁ m₃ → m₃.state = m₂.state →
      Post (if flags.2 = true then syncDirectory else pure PUnit.unit : Section PUnit) m₃
        (fun _ m' => ∃ m₁, ReadingReceipts inner offered since m m₁ ∧
          Chain inner noOffers m₁ m' ∧ Releases m₁.state m'.state)
        (fun _ m' => AlwaysLawful inner.key inner.host offered since m'.timeline) := by
    intro m₃ before same
    rw [post_ite]
    refine ⟨fun _ => (sync before same).monoOk ?_, fun _ => ⟨m₁, reading₁, before, by rwa [same]⟩⟩
    rintro _ m₄ ⟨later, same'⟩
    exact ⟨m₁, reading₁, later, by rwa [same']⟩
  rw [post_ite]
  exact ⟨fun _ => (sync chain rfl).bind fun _ _ later => last later.1 later.2,
    fun _ => last chain rfl⟩

/-! ### Recovery -/

theorem Sound.retainCounted {key : EncryptionKey} {host : Host}
    (sound : Sound key host offered since m) :
    Sound key host offered since (m.update State.retainCounted) := by
  refine ⟨sound.always, { sound.backed with pathed := { sound.backed.pathed with } },
    fun faithful => ?_, sound.stands⟩
  have accounts := sound.accounts faithful
  refine accounts.updated rfl rfl rfl rfl rfl (fun s counted => ?_) fun entry held counted => ?_
  · obtain ⟨identity, found⟩ := OrdMap.contains_iff.mp counted
    change (m.state.countedPendingExpirations.filter _).get? s = some identity at found
    rw [OrdMap.get?_filter, Option.filter_eq_some_iff] at found
    exact OrdMap.contains_iff.mpr ⟨identity, found.1⟩
  · obtain ⟨identity, found⟩ := OrdMap.contains_iff.mp counted
    refine OrdMap.contains_iff.mpr ⟨identity, ?_⟩
    change (m.state.countedPendingExpirations.filter _).get? _ = some identity
    rw [OrdMap.get?_filter, Option.filter_eq_some_iff, List.any_eq_true]
    refine ⟨found, ?_⟩
    exact ⟨entry, OrdMap.mem_values_iff.mpr ⟨_, held⟩, decide_eq_true rfl⟩

/-- What the files yield: a state that is loaded, counted, and has its receipts completed. -/
def RecoveredAs (inner : Inner) (offered : Nat → Envelope → Prop) (since : List Disk)
    (P : State → Prop) (m : Machine) : Prop :=
  ∃ m₁ m₂ m₃ sequence recordsNext gapsNext,
    Loading inner.key inner.host offered since m₁ [] ∧ P m₁.state ∧
    Counters inner m₁ sequence recordsNext gapsNext ∧
    ReadingReceipts inner offered since
      (m₁.update fun state => state.withSequence sequence recordsNext gapsNext) m₂ ∧
    Sound inner.key inner.host offered since m₃ ∧
    Chain inner noOffers m₂ m₃ ∧ Releases m₂.state m₃.state ∧
    m = m₃.update State.retainCounted

/-- Opening a directory ends in a state that is recovered from its files. -/
theorem post_recoverFiles {nowMs : I64} (steps : LoadSteps inner offered P)
    (distinct : DistinctNotices inner.host offered)
    (always : AlwaysLawful inner.key inner.host offered since m.timeline) (holds : P m.state)
    (blank : m.state.entries = .empty ∧ m.state.gaps = .empty ∧ m.state.receipts = .empty) :
    Post (recoverFiles inner nowMs) m
      (fun _ m' => RecoveredAs inner offered since P m')
      (fun _ m' => AlwaysLawful inner.key inner.host offered since m'.timeline) := by
  have counting : Post (ensureQuarantineCapacity inner 0 false) m
      (fun _ m' => ∃ faults : Faults, m' = { m with faults := faults })
      (fun _ m' => AlwaysLawful inner.key inner.host offered since m'.timeline) :=
    post_ensureQuarantineCapacity (fun faults _ _ _ => ⟨faults, rfl⟩) (fun _ _ _ => always)
      fun _ _ _ _ => always
  refine counting.bind ?_
  rintro _ m' ⟨faults, rfl⟩
  have always : AlwaysLawful inner.key inner.host offered since
      ({ m with faults := faults } : Machine).timeline := always
  have holds : P ({ m with faults := faults } : Machine).state := holds
  have blank : ({ m with faults := faults } : Machine).state.entries = .empty ∧
      ({ m with faults := faults } : Machine).state.gaps = .empty ∧
      ({ m with faults := faults } : Machine).state.receipts = .empty := blank
  generalize ({ m with faults := faults } : Machine) = m at always holds blank ⊢
  obtain ⟨noEntries, noGaps, noReceipts⟩ := blank
  simp only [post_bind, post_disk, post_ite, post_throw, post_modifyState]
  refine ⟨fun _ => always, fun _ => ?_⟩
  have noEntry : ∀ entry, ¬ m.state.Holds entry := by
    intro entry held
    rw [State.Holds, noEntries, OrdMap.get?_empty] at held
    cases held
  have noGap : ∀ noticeId gap, ¬ m.state.gaps.get? noticeId = some gap := by
    intro noticeId gap found
    rw [noGaps, OrdMap.get?_empty] at found
    cases found
  have noReceipt : ∀ batchId entry, ¬ m.state.receipts.get? batchId = some entry := by
    intro batchId entry found
    rw [noReceipts, OrdMap.get?_empty] at found
    cases found
  have loading : Loading inner.key inner.host offered since
      (m.update fun state => { state with
        corruptRecords := saturatingAdd state.corruptRecords m.disk.quarantine.length })
      m.disk.gaps.entries := by
    refine ⟨always, fun id entry found => ?_, ⟨fun entry held => absurd held (noEntry entry),
      fun id gap found => absurd found (noGap id gap),
      fun id gap found => absurd found (noGap id gap),
      fun id entry found => absurd found (noReceipt id entry)⟩,
      fun entry held => absurd held (noEntry entry),
      fun id gap found => absurd found (noGap id gap),
      fun name body found => .inl (mem_entries_iff.mpr found), noReceipts,
      fun entry held => absurd held (noEntry entry)⟩
    change m.state.entries.get? id = some entry at found
    rw [noEntries, OrdMap.get?_empty] at found
    cases found
  refine (post_recoverGaps steps loading (steps.corrupt _ _ holds) noEntries
    fun file inside => mem_entries_iff.mp inside).mono ?_ fun _ _ same => by rw [same]; exact always
  rintro _ m₁ ⟨loading₁, holds₁, noEntries₁, -, -⟩
  refine (@post_scanPending inner offered since m₁ P nowMs _ [] steps distinct loading₁ holds₁ noEntries₁
    (by rw [List.map_nil, List.append_nil]; exact m₁.disk.pending.nodupKeys)
    (fun file inside => mem_entries_iff.mp inside) (fun _ inside => absurd inside List.not_mem_nil)
    (fun name body found => .inl (by
      rw [List.map_nil, List.append_nil]
      exact List.mem_map.mpr ⟨_, mem_entries_iff.mpr found, rfl⟩))).monoOk ?_
  rintro recovered m₂ ⟨loading₂, holds₂, noEntries₂, names, known, pendings⟩
  simp only [post_state]
  generalize checkedAdd _ 1 = migration
  cases migration with
  | none => exact loading₂.always
  | some nextMigration =>
      have perm := List.perm_insertionSort RecoveredRecord.admittedBefore recovered
      have permNames := perm.map RecoveredRecord.name
      simp only [post_bind]
      refine (post_loadRecords steps loading₂ holds₂ (permNames.nodup_iff.mpr names)
        (fun r inside => known r (perm.mem_iff.mp inside)) (fun name body found => ?_)
        fun entry held => ?_).monoOk ?_
      · rcases pendings name body found with inside | held
        · exact .inl (permNames.mem_iff.mpr inside)
        · exact .inr held
      · rw [State.Holds, noEntries₂, OrdMap.get?_empty] at held
        cases held
      · rintro _ m₃ ⟨loading₃, holds₃, pendings₃, entries₃⟩
        apply post_recoverCounters
        · intro sequence recordsNext gapsNext counters
          have sound := loading₃.sound pendings₃ entries₃ counters
          refine (post_recoverReceipts distinct sound loading₃.keyed (loading₃.numbered counters)
            loading₃.receipts).monoOk ?_
          rintro _ m₅ ⟨m₄, reading, chain, releases⟩
          have sound₅ := chain.offering.sound distinct reading.sound
          simp only [retainCounted, post_bind, post_state, post_ite, post_throw, post_modifyState]
          refine ⟨fun _ => sound₅.always, fun _ => ?_⟩
          exact ⟨m₃, m₄, m₅, sequence, recordsNext, gapsNext, loading₃, holds₃, counters, reading,
            sound₅, chain, releases, rfl⟩
        · intro error m₄ timeline
          rw [timeline]
          exact loading₃.always

/-- A recovered state is ready for calls. -/
theorem RecoveredAs.ready (recovered : RecoveredAs inner offered since P m) :
    Sound inner.key inner.host offered since m ∧ m.state.Keyed ∧ m.state.Numbered ∧
      ReceiptsHeld inner.key m := by
  obtain ⟨m₁, m₂, m₃, sequence, recordsNext, gapsNext, loading, -, counters, reading, sound, chain,
    -, rfl⟩ := recovered
  have kept := chain.numbered ((loading.numbered counters).of_same reading.same.entries
    reading.same.next)
  have keyed : m₂.state.Keyed := by
    rw [State.Keyed, reading.same.entries]
    exact loading.keyed
  have held := chain.receiptsHeld reading.held
  exact ⟨sound.retainCounted, chain.keyed keyed, ⟨kept.positive, kept.above, kept.below, kept.single⟩,
    ⟨held.batchId, held.durable⟩⟩

/-- A recovery that succeeds ends a chain of effects away from what the files yield. -/
theorem post_recover {nowMs : I64} (steps : LoadSteps inner offered P)
    (distinct : DistinctNotices inner.host offered)
    (always : AlwaysLawful inner.key inner.host offered since m.timeline) (holds : P m.state)
    (blank : m.state.entries = .empty ∧ m.state.gaps = .empty ∧ m.state.receipts = .empty) :
    Post (recover inner nowMs) m
      (fun _ m' => Ready inner.key m' ∧ ∃ m₁, RecoveredAs inner offered since P m₁ ∧
        Chain inner noOffers m₁ m' ∧ Changes inner noOffers False m₁.state m'.state)
      (fun _ m' => AlwaysLawful inner.key inner.host offered since m'.timeline) := by
  simp only [recover]
  refine (post_recoverFiles steps distinct always holds blank).bind ?_
  intro _ m₁ recovered
  obtain ⟨sound, keyed, numbered, receipts⟩ := recovered.ready
  have lawful : ∀ m', Chain inner noOffers m₁ m' →
      AlwaysLawful inner.key inner.host offered since m'.timeline := fun m' chain =>
    (chain.offering.sound distinct sound).always
  have persisted := (@post_persistCurrentSequenceState inner noOffers m₁).and
    post_persistCurrentSequenceState_settled
  refine (persisted.mono (fun _ _ facts => facts) fun _ m' failed => lawful m' failed.1.2.1).bind ?_
  rintro _ m₂ ⟨⟨saved, same⟩, settled⟩
  have ready : Ready inner.key m₂ :=
    ⟨saved.keyed keyed, saved.numbered numbered, saved.pathed sound.backed.pathed,
      saved.receiptsHeld receipts, settled⟩
  refine (((@post_expireDueLocked inner noOffers m₂ _ ready.keyed ready.numbered).and
    (@post_expireDueLocked_changes inner noOffers True m₂ _ ready.keyed
      fun _ => trivial)).mono (fun _ _ facts => facts)
    fun _ m' later => lawful m' (saved.trans later.1)).bind ?_
  rintro _ m₃ ⟨expired, changes⟩
  have ready₃ := expired.ready ready
  have pruning : Post (pruneReceipts inner).run m₃
      (fun _ m' => m'.state.Keyed ∧ Changes inner noOffers False m₃.state m'.state)
      (fun _ m' => m'.state.Keyed ∧ Changes inner noOffers False m₃.state m'.state) := by
    refine Call.run_invariant (C := fun label m => Presented noOffers label m ∧
      Undisturbed inner label m) (I := fun m' : Machine => m'.state.Keyed ∧
        Changes inner noOffers False m₃.state m'.state) (Call.Steps.mono quiet_pruneReceipts ?_)
      quiet_pruneReceipts.along_undisturbed ⟨ready₃.keyed, .refl⟩
    rintro label act ⟨-, is⟩ m ⟨presented, undisturbed⟩ ⟨keyed, before⟩
    have more := is.changes keyed presented fun disturbed => disturbed undisturbed
    exact ⟨more.keyed keyed, before.trans more⟩
  refine ((@post_pruneReceipts inner noOffers m₃ ready₃.receipts).and pruning).mono ?_
    fun _ m' later => lawful m' ((saved.trans expired).trans later.1)
  rintro _ m₄ ⟨⟨pruned, -⟩, -, changes'⟩
  refine ⟨pruned.ready ready₃, m₁, recovered, (saved.trans expired).trans pruned, ?_⟩
  rw [← same]
  exact changes.trans changes'

/-! ### Opening -/

/-- The format marker is none of the files the laws speak about. -/
theorem post_writeCurrentSpoolFormatMarker :
    Post writeCurrentSpoolFormatMarker m
      (fun _ m' => m'.state = m.state ∧ m'.storageWriteFailed = m.storageWriteFailed ∧
        m'.timeline = m'.disk :: m.timeline ∧ ∀ path, m'.disk.read path = m.disk.read path)
      (fun _ m' => m'.timeline = m.timeline ∨
        m'.timeline = m'.disk :: m.timeline ∧ ∀ path, m'.disk.read path = m.disk.read path) := by
  have format : ∀ path, ({ m.disk with format := some spoolFormatMarker } : Disk).read path =
      m.disk.read path := fun path => by cases path <;> rfl
  have tmp : ∀ body path, ({ m.disk with tmp := body :: m.disk.tmp } : Disk).read path =
      m.disk.read path := fun body path => by cases path <;> rfl
  apply post_stageAndRename
  · exact fun _ _ => ⟨rfl, rfl, rfl, format⟩
  · exact fun _ _ _ _ => .inl rfl
  · exact fun _ _ _ _ => .inr ⟨rfl, tmp _⟩
  · exact fun _ _ _ _ => .inr ⟨rfl, format⟩

/-- Opening a lawful directory keeps it lawful, and a spool that opens is sound and ready. -/
theorem post_openSpool {nowMs : I64} {lockHeld : Bool} (steps : LoadSteps inner offered P)
    (distinct : DistinctNotices inner.host offered)
    (always : AlwaysLawful inner.key inner.host offered since m.timeline) (blank : m.state = .initial)
    (holds : ∀ pruned, P { State.initial with v1AckHistoryPruned := pruned }) :
    Post (openSpool inner lockHeld nowMs) m
      (fun _ m' => Sound inner.key inner.host offered since m' ∧ Ready inner.key m' ∧
        ∃ m₁, RecoveredAs inner offered since P m₁ ∧
          Changes inner noOffers False m₁.state m'.state)
      (fun _ m' => AlwaysLawful inner.key inner.host offered since m'.timeline) := by
  have marked : ∀ (m₁ : Machine) (format : SpoolFormat), m₁.timeline = m.timeline →
      (∃ pruned, m₁.state = { State.initial with v1AckHistoryPruned := pruned }) →
      Post (do
          recover inner nowMs
          if format ≠ .current then writeCurrentSpoolFormatMarker : Section Unit) m₁
        (fun _ m' => Sound inner.key inner.host offered since m' ∧ Ready inner.key m' ∧
          ∃ m₁, RecoveredAs inner offered since P m₁ ∧
            Changes inner noOffers False m₁.state m'.state)
        (fun _ m' => AlwaysLawful inner.key inner.host offered since m'.timeline) := by
    rintro m₁ format timeline ⟨pruned, state⟩
    refine (post_recover steps distinct (by rw [timeline]; exact always)
      (by rw [state]; exact holds pruned) (by rw [state]; exact ⟨rfl, rfl, rfl⟩)).bind ?_
    rintro _ m₂ ⟨ready, m₀, recovered, chain, changes⟩
    have sound := chain.offering.sound distinct recovered.ready.1
    rw [post_ite]
    refine ⟨fun _ => post_writeCurrentSpoolFormatMarker.mono ?_ ?_,
      fun _ => ⟨sound, ready, m₀, recovered, changes⟩⟩
    · rintro _ m₃ ⟨same, latch, later, reads⟩
      have suffix : m₂.timeline <:+ m₃.timeline := by
        rw [later]
        exact List.suffix_cons _ _
      have always₃ : AlwaysLawful inner.key inner.host offered since m₃.timeline := by
        rw [later]
        exact sound.always.cons (sound.lawful.same reads) fun _ _ found =>
          .inl (by rwa [reads] at found)
      refine ⟨sound.sameRecords always₃ (.inr later) (by rw [same]; exact .refl _)
        (by rw [same]; exact ready.pathed) latch (fun name => reads _) (fun name => reads _)
        (reads _),
        ⟨by rw [same]; exact ready.keyed, by rw [same]; exact ready.numbered,
          by rw [same]; exact ready.pathed, ⟨?_, ?_⟩, ?_⟩,
        m₀, recovered, by rwa [same]⟩
      · rw [same]
        exact ready.receipts.batchId
      · rw [same]
        exact fun batchId entry found => (ready.receipts.durable batchId entry found).mono suffix
      · have sequence : m₃.disk.sequence = m₂.disk.sequence := reads .sequence
        rw [Machine.Settled, latch, sequence, same]
        exact ready.settled
    · rintro _ m₃ (same | ⟨later, reads⟩)
      · rw [same]
        exact sound.always
      · rw [later]
        exact sound.always.cons (sound.lawful.same reads) fun _ _ found =>
          .inl (by rwa [reads] at found)
  have checked : ∀ (m₁ : Machine) (format : SpoolFormat), m₁.timeline = m.timeline →
      (∃ pruned, m₁.state = { State.initial with v1AckHistoryPruned := pruned }) →
      Post (do
          if format = .current ∨ format = .admissionIdentity then
            if (← recoverSequenceState inner).isNone then throw .sequenceStateMissing
          recover inner nowMs
          if format ≠ .current then writeCurrentSpoolFormatMarker : Section Unit) m₁
        (fun _ m' => Sound inner.key inner.host offered since m' ∧ Ready inner.key m' ∧
          ∃ m₁, RecoveredAs inner offered since P m₁ ∧
            Changes inner noOffers False m₁.state m'.state)
        (fun _ m' => AlwaysLawful inner.key inner.host offered since m'.timeline) := by
    intro m₁ format timeline state
    have go := marked m₁ format timeline state
    have lawful : AlwaysLawful inner.key inner.host offered since m₁.timeline := by
      rw [timeline]
      exact always
    simp only [post_ite, post_bind, recoverSequenceState, post_disk] at go ⊢
    refine ⟨fun _ => ?_, fun _ => go⟩
    cases decodeSequence inner m₁.disk.sequence with
    | error error => exact lawful
    | ok sequence =>
        simp only [post_pure, post_throw]
        exact ⟨fun _ => lawful, fun _ => go⟩
  unfold openSpool
  cases validateConfig inner.config with
  | error error => exact always
  | ok _ =>
      simp only [post_bind, post_ite, post_throw]
      refine ⟨fun _ => always, fun _ => ?_⟩
      simp only [openLocked, post_bind, post_disk]
      cases readSpoolFormatMarker m.disk with
      | error error => exact always
      | ok format =>
          simp only [post_bind, post_disk, post_ite, post_throw, post_modifyState]
          refine ⟨fun _ => ⟨fun _ => always, fun _ => ?_⟩, fun _ => ?_⟩
          · simpa only [post_bind, post_ite, post_throw] using
              checked (m.update fun state => { state with v1AckHistoryPruned := true }) format
                rfl ⟨true, by rw [Machine.update, blank]⟩
          · simpa only [post_bind, post_ite, post_throw] using
              checked m format rfl ⟨false, blank⟩

end TeslatlasEdge
