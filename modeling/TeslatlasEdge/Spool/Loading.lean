/-
Module: TeslatlasEdge.Spool.Loading
Purpose: What `recover` has read once it has gone through the gap files and the pending files of a
  lawful directory, and that the directory is lawful at every point on the way.
Trusted boundary: none
Main exports: Loading, LoadSteps, post_recoverGaps, post_scanPending, post_loadRecords
-/
import TeslatlasEdge.Spool.Backing

namespace TeslatlasEdge

open Lib
open Section

variable {inner : Inner} {offered : Nat → Envelope → Prop} {since : List Disk} {m : Machine}
  {P : State → Prop}

/-- The listed files of a directory are those that can be read. -/
theorem mem_entries_iff {dir : Dir} {name : Str} {body : Blob} :
    (⟨name, body⟩ : NamedBlob) ∈ dir.entries ↔ dir.lookup name = some body := by
  rw [← AList.mem_lookup_iff]
  rfl

/-! ### Properties of the state that loading keeps -/

/-- What `recover_gaps` and `recover` check before a gap or a record enters the state. -/
structure LoadSteps (inner : Inner) (offered : Nat → Envelope → Prop) (P : State → Prop) :
    Prop where
  corrupt : ∀ state count, P state → P { state with corruptRecords := count }
  gap : ∀ state notice encryptedBytes path, P state → state.entries = .empty →
    state.gaps.get? notice.noticeId = none → ¬ state.HoldsGapFor notice.spoolSeq →
    1 ≤ notice.spoolSeq → state.gaps.size < inner.config.maxRecords →
    saturatingAdd state.pendingGapBytes encryptedBytes ≤ inner.config.maxBytes →
    P (state.recordGap notice encryptedBytes path)
  admitEntry : ∀ state entry, P state → state.entries.get? entry.recordId = none →
    state.stableIndex.get? entry.stableRecordId = none →
    (∀ other, state.Holds other → other.spoolSeq ≠ entry.spoolSeq) →
    ¬ state.HoldsGapFor entry.spoolSeq → 1 ≤ entry.spoolSeq →
    (∃ s envelope, offered s envelope ∧ entry.recordId = envelope.recordId inner.host ∧
      entry.stableRecordId = envelope.stableRecordId inner.host) →
    saturatingAdd state.pendingBytes entry.encryptedBytes ≤ inner.config.maxBytes →
    P (state.admitEntry entry)

/-- Nothing is asked of the state. -/
theorem LoadSteps.trivial : LoadSteps inner offered fun _ => True :=
  ⟨fun _ _ _ => True.intro, fun _ _ _ _ _ _ _ _ _ _ _ => True.intro,
    fun _ _ _ _ _ _ _ _ _ _ => True.intro⟩

/-! ### Gap files -/

/-- A file decoded as a gap is that gap, under its own name. -/
theorem decodeGap_eq_ok {file : NamedBlob} {notice : GapNoticeV2}
    (decoded : decodeGap inner file = .ok notice) :
    file.2 = inner.key.encrypt (.gap notice) ∧
      file.1 = gapFileName notice.spoolSeq notice.noticeId ∧ 1 ≤ notice.spoolSeq := by
  unfold decodeGap at decoded
  split at decoded
  · cases decoded
  · split at decoded
    · cases decoded
    · rename_i plaintext opened
      split at decoded
      · cases decoded
      · rename_i found parsed
        split at decoded
        · cases decoded
        · rename_i checked
          obtain rfl := Except.ok.inj decoded
          rw [not_or, not_not, not_not] at checked
          have valid := checked.1
          simp only [validGapNotice, Bool.and_eq_true, decide_eq_true_eq] at valid
          refine ⟨?_, checked.2, by omega⟩
          rw [decrypt_eq_ok opened]
          cases plaintext with
          | gap notice =>
              obtain rfl := Option.some.inj parsed
              rfl
          | record | receipt | sequence => cases parsed

/-- The state while files are being loaded: what it holds stands on the disk, and the gap files that
are not held yet are among those still to be read. -/
structure Loading (key : EncryptionKey) (host : Host) (offered : Nat → Envelope → Prop)
    (since : List Disk) (m : Machine) (gapFiles : List NamedBlob) : Prop where
  always : AlwaysLawful key host offered since m.timeline
  keyed : m.state.Keyed
  pathed : m.state.Pathed
  entry : ∀ entry, m.state.Holds entry → ∃ record, Admitted key m.timeline entry.spoolSeq record ∧
    record.recordId = entry.recordId ∧ record.stableRecordId = some entry.stableRecordId ∧
    record.expiresAtMs = entry.expiresAtMs
  gap : ∀ noticeId gap, m.state.gaps.get? noticeId = some gap →
    m.disk.read gap.path = some (key.encrypt (.gap gap.notice))
  gapHeld : ∀ name body, m.disk.read (.gap name) = some body →
    ⟨name, body⟩ ∈ gapFiles ∨
      ∃ noticeId gap, m.state.gaps.get? noticeId = some gap ∧ gap.path = .gap name
  receipts : m.state.receipts = .empty
  indexed : ∀ entry, m.state.Holds entry →
    m.state.stableIndex.get? entry.stableRecordId = some entry.recordId

/-- A directory is lawful while it is loaded. -/
theorem Loading.lawful {key : EncryptionKey} {host : Host} {gapFiles : List NamedBlob}
    (loading : Loading key host offered since m gapFiles) : Lawful key host offered m.disk m.history :=
  loading.always.laws _ _ (List.suffix_refl _)

theorem State.Pathed.recordGap {state : State} (pathed : state.Pathed) (notice : GapNoticeV2)
    (encryptedBytes : Nat) : (state.recordGap notice encryptedBytes
      (.gap (gapFileName notice.spoolSeq notice.noticeId))).Pathed := by
  refine ⟨pathed.entries, fun noticeId gap found => ?_, fun noticeId gap found => ?_,
    pathed.receipts⟩
  · simp only [State.recordGap, OrdMap.get?_insert] at found
    split at found
    · rename_i here
      rw [← Option.some.inj found, here]
    · exact pathed.gapKeyed noticeId gap found
  · simp only [State.recordGap, OrdMap.get?_insert] at found
    split at found
    · rw [← Option.some.inj found]
    · exact pathed.gaps noticeId gap found

/-- Recording the gap of a file that stands on the disk. -/
theorem Loading.recordGap {key : EncryptionKey} {host : Host} {notice : GapNoticeV2}
    {encryptedBytes : Nat} {gapFiles : List NamedBlob}
    (loading : Loading key host offered since m gapFiles)
    (absent : m.state.gaps.get? notice.noticeId = none)
    (stands : m.disk.read (.gap (gapFileName notice.spoolSeq notice.noticeId)) =
      some (key.encrypt (.gap notice)))
    {rest : List NamedBlob}
    (listed : ∀ file ∈ gapFiles, file ∈ rest ∨
      file.1 = gapFileName notice.spoolSeq notice.noticeId) :
    Loading key host offered since (m.update (·.recordGap notice encryptedBytes
      (.gap (gapFileName notice.spoolSeq notice.noticeId)))) rest := by
  refine ⟨loading.always, loading.keyed, loading.pathed.recordGap _ _, loading.entry,
    fun noticeId gap found => ?_, fun name body found => ?_, loading.receipts, loading.indexed⟩
  · simp only [Machine.update, State.recordGap, OrdMap.get?_insert] at found
    split at found
    · obtain rfl := Option.some.inj found
      exact stands
    · exact loading.gap noticeId gap found
  · simp only [Machine.update, State.recordGap, OrdMap.get?_insert]
    rcases loading.gapHeld name body found with inside | ⟨noticeId, gap, held, path⟩
    · rcases listed _ inside with inRest | here
      · exact .inl inRest
      · rw [show name = _ from here]
        exact .inr ⟨notice.noticeId, _, if_pos rfl, rfl⟩
    · refine .inr ⟨noticeId, gap, ?_, path⟩
      rw [if_neg]
      · exact held
      · rintro rfl
        rw [absent] at held
        cases held

/-- Loading the gap files gathers a gap for each of them. -/
theorem post_recoverGaps {files : List NamedBlob} (steps : LoadSteps inner offered P)
    (loading : Loading inner.key inner.host offered since m files) (holds : P m.state)
    (none : m.state.entries = .empty)
    (stands : ∀ file ∈ files, m.disk.read (.gap file.1) = some file.2) :
    Post (recoverGaps inner files) m
      (fun _ m' => Loading inner.key inner.host offered since m' [] ∧ P m'.state ∧
        m'.state.entries = .empty ∧ m'.disk = m.disk ∧ m'.history = m.history)
      (fun _ m' => m'.timeline = m.timeline) := by
  induction files generalizing m with
  | nil => exact ⟨loading, holds, none, rfl, rfl⟩
  | cons file rest ih =>
      simp only [recoverGaps, recoverGap, post_bind]
      cases decoded : decodeGap inner file with
      | error error => exact rfl
      | ok notice =>
          simp only [post_bind, post_state, post_ite, post_throw, post_modifyState]
          refine ⟨fun _ => trivial, fun distinct => ⟨fun _ => trivial, fun room => ?_⟩⟩
          obtain ⟨content, named, positive⟩ := decodeGap_eq_ok decoded
          rw [not_or] at distinct room
          have absent : m.state.gaps.get? notice.noticeId = Option.none :=
            OrdMap.contains_eq_false_iff.mp (Bool.eq_false_iff.mpr distinct.1)
          have single : ¬ m.state.HoldsGapFor notice.spoolSeq := by
            rintro ⟨noticeId, gap, found, same⟩
            apply distinct.2
            rw [List.any_eq_true]
            exact ⟨gap, OrdMap.mem_values_iff.mpr ⟨noticeId, found⟩, decide_eq_true same⟩
          have here := stands file (by simp)
          rw [content, named] at here
          rw [named]
          refine (ih (loading.recordGap absent here fun other inside => ?_) ?_ none
            fun other inside => stands other (by simp [inside])).mono (fun _ _ facts => facts)
            fun _ _ same => same
          · rcases List.mem_cons.mp inside with rfl | inside
            · exact .inr named
            · exact .inl inside
          · exact steps.gap _ _ _ _ holds none absent single positive (not_le.mp room.1)
              (not_lt.mp room.2)

/-! ### Pending files -/

/-- The same state over files that have changed. -/
theorem Loading.moved {key : EncryptionKey} {host : Host} {m' : Machine}
    {gapFiles gapFiles' : List NamedBlob} (loading : Loading key host offered since m gapFiles)
    (always : AlwaysLawful key host offered since m'.timeline) (later : m.timeline <:+ m'.timeline)
    (state : m'.state = m.state)
    (gap : ∀ noticeId gap, m.state.gaps.get? noticeId = some gap →
      m'.disk.read gap.path = some (key.encrypt (.gap gap.notice)))
    (gapHeld : ∀ name body, m'.disk.read (.gap name) = some body →
      ⟨name, body⟩ ∈ gapFiles' ∨
        ∃ noticeId gap, m.state.gaps.get? noticeId = some gap ∧ gap.path = .gap name) :
    Loading key host offered since m' gapFiles' := by
  refine ⟨always, by rw [state]; exact loading.keyed, by rw [state]; exact loading.pathed,
    fun entry held => ?_, fun noticeId gap' held => gap noticeId gap' (by rwa [← state]),
    by rw [state]; exact gapHeld, by rw [state]; exact loading.receipts,
    by rw [state]; exact loading.indexed⟩
  rw [state] at held
  obtain ⟨record, admitted, facts⟩ := loading.entry entry held
  exact ⟨record, admitted.mono later, facts⟩

theorem Loading.heldNotice {key : EncryptionKey} {host : Host} {gapFiles : List NamedBlob}
    (loading : Loading key host offered since m gapFiles) {noticeId : RecordId} {gap : GapEntry}
    (held : m.state.gaps.get? noticeId = some gap) : NoticeOf key host m.timeline gap.notice := by
  have stands := loading.gap noticeId gap held
  rw [loading.pathed.gaps noticeId gap held] at stands
  obtain ⟨notice, known, -, content⟩ := loading.lawful.gap _ _ stands
  simp only [EncryptionKey.encrypt, Blob.encrypted.injEq, Plain.gap.injEq, true_and] at content
  rw [content]
  exact known

/-- A gap that was loaded is on the disk. -/
theorem Loading.hasGap {key : EncryptionKey} {host : Host} {gapFiles : List NamedBlob}
    (loading : Loading key host offered since m gapFiles) {noticeId : RecordId} {gap : GapEntry}
    (held : m.state.gaps.get? noticeId = some gap) : m.disk.HasGap gap.notice.spoolSeq := by
  have stands := loading.gap noticeId gap held
  rw [loading.pathed.gaps noticeId gap held] at stands
  exact ⟨_, _, stands⟩

/-- Persisting the gap of an admission whose file is damaged. -/
theorem post_persistGapLocked_loading {entry : Entry} {occurredAtMs : I64} {reason : GapReasonV2}
    (steps : LoadSteps inner offered P) (distinct : DistinctNotices inner.host offered)
    (loading : Loading inner.key inner.host offered since m []) (holds : P m.state)
    (none : m.state.entries = .empty) (damaged : reason ≠ .retentionExpired)
    (spoiled : ¬ Blameless inner.key inner.host offered m.timeline)
    (known : NoticeOf inner.key inner.host m.timeline
      (gapNotice inner.host entry occurredAtMs reason)) :
    Post (persistGapLocked inner entry occurredAtMs reason) m
      (fun _ m' => Loading inner.key inner.host offered since m' [] ∧ P m'.state ∧
        m'.state.entries = .empty ∧
        (∀ name, m'.disk.read (.pending name) = m.disk.read (.pending name)) ∧
        m.timeline <:+ m'.timeline ∧ m'.disk.HasGap entry.spoolSeq)
      (fun _ m' => AlwaysLawful inner.key inner.host offered since m'.timeline) := by
  have sequence : (gapNotice inner.host entry occurredAtMs reason).spoolSeq = entry.spoolSeq := rfl
  have other : (gapNotice inner.host entry occurredAtMs reason).reason ≠ .retentionExpired :=
    damaged
  generalize named : gapNotice inner.host entry occurredAtMs reason = notice
    at known sequence other
  have range := known
  obtain ⟨record, -, admitted, -⟩ := range
  have range := loading.lawful.origin _ _ admitted
  apply post_persistGapLocked_exits named.symm
  · intro gap found
    refine ⟨loading, holds, none, fun _ => rfl, List.suffix_refl _, ?_⟩
    have same := loading.lawful.notice_seq distinct (loading.heldNotice found) known
      (loading.pathed.gapKeyed _ _ found)
    rw [← sequence, ← same]
    exact loading.hasGap found
  · exact fun _ _ => loading.always
  · intro fits
    have law := loading.lawful.putGap known (fun _ retention => absurd retention other)
      fun _ => spoiled
    have gaps : ∀ noticeId gap, m.state.gaps.get? noticeId = some gap →
        (m.disk.put (inner.key.encrypt (.gap notice))
          (.gap (gapFileName notice.spoolSeq notice.noticeId))).read gap.path =
          some (inner.key.encrypt (.gap gap.notice)) := by
      intro noticeId gap held
      rw [Disk.read_put, if_neg]
      · exact loading.gap noticeId gap held
      · intro here
        rw [loading.pathed.gaps noticeId gap held] at here
        obtain ⟨record', -, admitted', -⟩ := loading.heldNotice held
        have id := (gapFileName_injective (loading.lawful.origin _ _ admitted').2.1.le
          range.2.1.le (Path.gap.inj here)).2
        rw [loading.pathed.gapKeyed _ _ held] at id
        rw [id, fits.absent] at held
        cases held
    apply post_writeAtomic
    · exact fun _ => loading.always
    · intro _ faults within
      have moved : Loading inner.key inner.host offered since
          { m.place (.gap (gapFileName notice.spoolSeq notice.noticeId))
              (inner.key.encrypt (.gap notice)) with faults := faults }
          [⟨gapFileName notice.spoolSeq notice.noticeId, inner.key.encrypt (.gap notice)⟩] := by
        refine loading.moved (loading.always.cons law fun _ _ found => .inl found)
          (List.suffix_cons _ _) rfl gaps ?_
        intro name body found
        change (m.disk.put (inner.key.encrypt (.gap notice))
          (.gap (gapFileName notice.spoolSeq notice.noticeId))).read (.gap name) = _ at found
        rw [Disk.read_put] at found
        split at found
        · rename_i here
          left
          rw [← Option.some.inj found, Path.gap.inj here]
          exact List.mem_singleton.mpr rfl
        · rcases loading.gapHeld name body found with inside | held
          · cases inside
          · exact .inr held
      have stands : (m.disk.put (inner.key.encrypt (.gap notice))
          (.gap (gapFileName notice.spoolSeq notice.noticeId))).read
            (.gap (gapFileName notice.spoolSeq notice.noticeId)) =
          some (inner.key.encrypt (.gap notice)) := (Disk.read_put _ _ _ _).trans (if_pos rfl)
      refine ⟨moved.recordGap fits.absent stands fun file inside => .inr ?_,
        steps.gap _ _ _ _ holds none fits.absent fits.single range.1 fits.room fits.bytes, none,
        fun name => ?_, List.suffix_cons _ _, ?_⟩
      · rw [List.mem_singleton.mp inside]
      · exact (Disk.read_put m.disk _ _ (.pending name)).trans (if_neg (by simp))
      · rw [← sequence]
        exact ⟨_, _, stands⟩
    · exact fun _ _ _ _ _ => loading.always
    · refine fun _ _ _ _ _ => loading.always.cons (loading.lawful.same fun path => ?_)
        fun _ _ found => .inl found
      cases path <;> rfl
    · exact fun _ _ _ _ _ => loading.always.cons law fun _ _ found => .inl found

/-- A recovered record is the admission its file stands for. -/
structure RecordOf (key : EncryptionKey) (host : Host) (m : Machine) (recovered : RecoveredRecord)
    (s : Nat) (record : StoredRecord Str) : Prop where
  admitted : Admitted key m.timeline s record
  name : recovered.name = pendingFileName s record.recordId
  stands : m.disk.read (.pending recovered.name) = some (key.encrypt (.record record))
  stored : recovered.stored = record.map host.codec.parse

/-- A pending file that decodes holds what was once admitted. -/
theorem decodePending_eq_some {file : NamedBlob} {recovered : RecoveredRecord}
    (law : Lawful inner.key inner.host offered m.disk m.history)
    (stands : m.disk.read (.pending file.1) = some file.2)
    (decoded : decodePending inner file = .ok (some recovered)) :
    recovered.name = file.1 ∧ ∃ s record, RecordOf inner.key inner.host m recovered s record := by
  unfold decodePending at decoded
  split at decoded
  · cases decoded
  · split at decoded
    · cases decoded
    · cases decoded
    · rename_i plaintext opened
      split at decoded
      · cases decoded
      · rename_i stored parsed
        split at decoded
        · cases decoded
        · obtain rfl := Option.some.inj (Except.ok.inj decoded)
          obtain ⟨s, record, admitted, named, content⟩ := law.pending _ _ stands
          rcases content with content | unreadable
          · refine ⟨rfl, s, record, admitted, named, by rw [stands, content], ?_⟩
            have same := decrypt_eq_ok opened
            rw [content] at same
            simp only [EncryptionKey.encrypt, Blob.encrypted.injEq, true_and] at same
            rw [← same] at parsed
            obtain ⟨other, equal, -, rfl⟩ := Plain.toStoredRecord_eq_some.mp parsed
            rw [Plain.record.inj equal]
          · exact absurd opened (unreadable plaintext)

/-- The pending files are held, or among those that wait. -/
def PendingsHeld (m : Machine) (waiting : List Str) : Prop :=
  ∀ name body, m.disk.read (.pending name) = some body →
    name ∈ waiting ∨ ∃ entry, m.state.Holds entry ∧ entry.path = .pending name

/-- The files of the held entries stand, and none of them waits. -/
def EntriesStand (m : Machine) (waiting : List Str) : Prop :=
  ∀ entry, m.state.Holds entry → (∃ body, m.disk.read entry.path = some body) ∧
    ∀ name ∈ waiting, entry.path ≠ .pending name

/-- A file moved to quarantine: refused before it happens, or gone from its place. -/
theorem post_quarantineFileBounded_gone {path : Path} {onOk : Unit → Machine → Prop}
    {onError : SpoolError → Machine → Prop}
    (moved : ∀ m', m'.state = m.state → m'.timeline = m'.disk :: m.timeline →
      (∀ other, m'.disk.read other = if other = path then none else m.disk.read other) →
      onOk () m' ∧ ∀ error, onError error m')
    (refused : ∀ error m', m'.state = m.state → m'.timeline = m.timeline → onError error m') :
    Post (quarantineFileBounded inner path) m onOk onError := by
  apply post_quarantineFileBounded
  · intro body found faults within
    exact (moved { m.setAside path body with faults := faults } rfl rfl
      fun other => Machine.setAside_read m path other body).1
  · intro error faults within _
    exact refused error _ rfl rfl
  · intro body found torn full faults within
    exact (moved { m.setAside path body with faults := faults } rfl rfl
      fun other => Machine.setAside_read m path other body).2 _

/-- A damaged pending file is replaced by a gap. -/
theorem post_quarantineRecoveredPending {nowMs : I64} {file : NamedBlob}
    (steps : LoadSteps inner offered P) (distinct : DistinctNotices inner.host offered)
    (loading : Loading inner.key inner.host offered since m []) (holds : P m.state)
    (none : m.state.entries = .empty) (stands : m.disk.read (.pending file.1) = some file.2)
    (spoiled : ¬ Blameless inner.key inner.host offered m.timeline) :
    Post (quarantineRecoveredPending inner nowMs file) m
      (fun _ m' => Loading inner.key inner.host offered since m' [] ∧ P m'.state ∧
        m'.state.entries = .empty ∧ m.timeline <:+ m'.timeline ∧
        ∀ name, m'.disk.read (.pending name) =
          if name = file.1 then Option.none else m.disk.read (.pending name))
      (fun _ m' => AlwaysLawful inner.key inner.host offered since m'.timeline) := by
  obtain ⟨s, record, admitted, named, -⟩ := loading.lawful.pending _ _ stands
  have range := loading.lawful.origin s record admitted
  have parsed : parseV2PendingFileName file.1 = some (s, record.recordId) := by
    rw [named]
    exact parseV2PendingFileName_pendingFileName range.1 range.2.1.le _
  have known : NoticeOf inner.key inner.host m.timeline
      (gapNotice inner.host (damagedEntry nowMs file s record.recordId) nowMs
        .integrityQuarantine) :=
    ⟨record, record.recordId, admitted, .inr rfl, rfl⟩
  simp only [quarantineRecoveredPending, parsed, post_bind]
  refine (post_persistGapLocked_loading steps distinct loading holds none (by simp) spoiled
    known).monoOk ?_
  rintro _ m₁ ⟨loading₁, holds₁, none₁, same, later, stands₁⟩
  have admitted₁ := admitted.mono later
  apply post_quarantineFileBounded_gone
  · intro m₂ state timeline reads
    have law : Lawful inner.key inner.host offered m₂.disk m₁.timeline :=
      loading₁.lawful.dropPending admitted₁ (by rwa [named] at reads) (.inl stands₁)
    have always : AlwaysLawful inner.key inner.host offered since m₂.timeline := by
      rw [timeline]
      refine loading₁.always.cons law fun name body found => .inl ?_
      rw [reads] at found
      split at found
      · cases found
      · exact found
    refine ⟨?_, fun _ => always⟩
    have moved : Loading inner.key inner.host offered since m₂ [] := by
      refine loading₁.moved always (by rw [timeline]; exact List.suffix_cons _ _) state ?_ ?_
      · intro noticeId gap held
        rw [reads, if_neg]
        · exact loading₁.gap noticeId gap held
        · rw [loading₁.pathed.gaps noticeId gap held]
          simp
      · intro name body found
        rw [reads, if_neg (by simp)] at found
        exact loading₁.gapHeld name body found
    simp only [countCorrupt, post_modifyState]
    refine ⟨{ moved with pathed := { moved.pathed with } },
      steps.corrupt _ _ (by rw [state]; exact holds₁),
      by change m₂.state.entries = _; rw [state]; exact none₁, ?_, fun name => ?_⟩
    · change m.timeline <:+ m₂.timeline
      rw [timeline]
      exact later.trans (List.suffix_cons _ _)
    · change m₂.disk.read _ = _
      rw [reads, same]
      simp only [Path.pending.injEq]
  · intro error m₂ state timeline
    rw [timeline]
    exact loading₁.always

/-- What a file was decoded as is known of it later. -/
theorem RecordOf.moved {key : EncryptionKey} {host : Host} {m' : Machine}
    {recovered : RecoveredRecord} {s : Nat} {record : StoredRecord Str}
    (known : RecordOf key host m recovered s record) (later : m.timeline <:+ m'.timeline)
    (stands : m'.disk.read (.pending recovered.name) = m.disk.read (.pending recovered.name)) :
    RecordOf key host m' recovered s record :=
  ⟨known.admitted.mono later, known.name, stands.trans known.stands, known.stored⟩

/-- After the scan every pending file on the disk is a recovered record. -/
theorem post_scanPending {nowMs : I64} {files : List NamedBlob} {recovered : List RecoveredRecord}
    (steps : LoadSteps inner offered P) (distinct : DistinctNotices inner.host offered)
    (loading : Loading inner.key inner.host offered since m []) (holds : P m.state)
    (none : m.state.entries = .empty)
    (names : (files.map (·.1) ++ recovered.map (·.name)).Nodup)
    (stands : ∀ file ∈ files, m.disk.read (.pending file.1) = some file.2)
    (known : ∀ r ∈ recovered, ∃ s record, RecordOf inner.key inner.host m r s record)
    (waiting : PendingsHeld m (files.map (·.1) ++ recovered.map (·.name))) :
    Post (scanPending inner nowMs files recovered) m
      (fun result m' => Loading inner.key inner.host offered since m' [] ∧ P m'.state ∧
        m'.state.entries = .empty ∧ (result.map (·.name)).Nodup ∧
        (∀ r ∈ result, ∃ s record, RecordOf inner.key inner.host m' r s record) ∧
        PendingsHeld m' (result.map (·.name)))
      (fun _ m' => AlwaysLawful inner.key inner.host offered since m'.timeline) := by
  induction files generalizing m recovered with
  | nil => exact ⟨loading, holds, none, names, known, waiting⟩
  | cons file rest ih =>
      have here := stands file (by simp)
      simp only [scanPending]
      cases decoded : decodePending inner file with
      | error error => exact loading.always
      | ok found =>
          cases found with
          | none =>
              simp only [post_bind]
              refine (post_quarantineRecoveredPending steps distinct loading holds none here
                fun blameless =>
                  loading.lawful.decodePending_ne_none blameless here decoded).monoOk ?_
              rintro _ m₁ ⟨loading₁, holds₁, none₁, later, reads⟩
              simp only [List.map_cons, List.cons_append, List.nodup_cons, List.mem_append,
                not_or] at names
              refine ih loading₁ holds₁ none₁ names.2 (fun other inside => ?_)
                (fun r inside => ?_) fun name body found => ?_
              · rw [reads, if_neg]
                · exact stands other (by simp [inside])
                · rintro same
                  exact names.1.1 (same ▸ List.mem_map.mpr ⟨other, inside, rfl⟩)
              · obtain ⟨s, record, facts⟩ := known r inside
                refine ⟨s, record, facts.moved later ?_⟩
                rw [reads, if_neg]
                rintro same
                exact names.1.2 (same ▸ List.mem_map.mpr ⟨r, inside, rfl⟩)
              · rw [reads] at found
                split at found
                · cases found
                · rename_i other
                  rcases waiting name body found with inside | ⟨entry, held, -⟩
                  · simp only [List.map_cons, List.cons_append, List.mem_cons] at inside
                    exact .inl (inside.resolve_left other)
                  · rw [State.Holds, none, OrdMap.get?_empty] at held
                    cases held
          | some record =>
              obtain ⟨named, source⟩ := decodePending_eq_some loading.lawful here decoded
              have shift : (rest.map (·.1) ++ (recovered ++ [record]).map (·.name)).Perm
                  ((file :: rest).map (·.1) ++ recovered.map (·.name)) := by
                rw [List.map_append, ← List.append_assoc, List.map_singleton, List.map_cons,
                  List.cons_append, named]
                exact List.perm_append_singleton _ _
              refine ih loading holds none (shift.nodup_iff.mpr names)
                (fun other inside => stands other (by simp [inside])) (fun r inside => ?_)
                fun name body found => ?_
              · rcases List.mem_append.mp inside with inside | inside
                · exact known r inside
                · rw [List.mem_singleton.mp inside]
                  exact source
              · rcases waiting name body found with inside | held
                · exact .inl (shift.mem_iff.mpr inside)
                · exact .inr held

/-! ### Records -/

theorem RecordOf.fields {host : Host} {recovered : RecoveredRecord} {s : Nat}
    {record : StoredRecord Str} {key : EncryptionKey}
    (known : RecordOf key host m recovered s record)
    (law : Lawful key host offered m.disk m.history) :
    ∃ envelope, offered s envelope ∧ recovered.stored.version = 2 ∧
      recovered.stored.spoolSeq = some s ∧
      recovered.stored.recordId = record.recordId ∧
      record.recordId = envelope.recordId host ∧
      recovered.stored.stableRecordId = some (envelope.stableRecordId host) ∧
      record.stableRecordId = some (envelope.stableRecordId host) := by
  obtain ⟨-, -, source⟩ := law.origin s record known.admitted
  obtain ⟨inner, envelope, admittedAtMs, rfl, offer, -, rfl⟩ := source
  rw [known.stored]
  exact ⟨envelope, offer, rfl, rfl, rfl, rfl, rfl, rfl⟩

/-- A record has been dealt with: it is held, or its file has been moved aside, and the other files are
as they were. -/
structure RecordLoaded (inner : Inner) (offered : Nat → Envelope → Prop) (since : List Disk)
    (P : State → Prop) (name : Str) (waiting : List Str) (m m' : Machine) : Prop where
  loading : Loading inner.key inner.host offered since m' []
  holds : P m'.state
  later : m.timeline <:+ m'.timeline
  reads : ∀ other, other ≠ name → m'.disk.read (.pending other) = m.disk.read (.pending other)
  pendings : PendingsHeld m' waiting
  entries : EntriesStand m' waiting

/-- A record whose sequence has a gap is moved aside. -/
theorem post_loadRecord_covered {recovered : RecoveredRecord} {s : Nat} {record : StoredRecord Str}
    (steps : LoadSteps inner offered P)
    (loading : Loading inner.key inner.host offered since m []) (holds : P m.state)
    (known : RecordOf inner.key inner.host m recovered s record) {waiting : List Str}
    (pendings : PendingsHeld m (recovered.name :: waiting))
    (entries : EntriesStand m (recovered.name :: waiting)) (stands : m.disk.HasGap s) :
    Post (do
        quarantineFileBounded inner (.pending recovered.name)
        countCorrupt : Section Unit) m
      (fun _ m' => RecordLoaded inner offered since P recovered.name waiting m m')
      (fun _ m' => AlwaysLawful inner.key inner.host offered since m'.timeline) := by
  rw [post_bind]
  apply post_quarantineFileBounded_gone
  · intro m₁ state timeline reads
    have always : AlwaysLawful inner.key inner.host offered since m₁.timeline := by
      rw [timeline]
      refine loading.always.cons (loading.lawful.dropPending known.admitted
        (by rwa [known.name] at reads) (.inl stands)) fun name body found => .inl ?_
      rw [reads] at found
      split at found
      · cases found
      · exact found
    refine ⟨?_, fun _ => always⟩
    have moved : Loading inner.key inner.host offered since m₁ [] := by
      refine loading.moved always (by rw [timeline]; exact List.suffix_cons _ _) state ?_ ?_
      · intro noticeId gap held
        rw [reads, if_neg]
        · exact loading.gap noticeId gap held
        · rw [loading.pathed.gaps noticeId gap held]
          simp
      · intro name body found
        rw [reads, if_neg (by simp)] at found
        exact loading.gapHeld name body found
    simp only [countCorrupt, post_modifyState]
    constructor
    case loading => exact { moved with pathed := { moved.pathed with } }
    case holds => exact steps.corrupt _ _ (by rw [state]; exact holds)
    case later =>
      change m.timeline <:+ m₁.timeline
      rw [timeline]
      exact List.suffix_cons _ _
    case reads =>
      intro name other
      change m₁.disk.read _ = _
      rw [reads, if_neg (by simpa using other)]
    case pendings =>
      intro name body found
      change m₁.disk.read _ = _ at found
      rw [reads] at found
      split at found
      · cases found
      · rename_i other
        rcases pendings name body found with inside | held
        · exact .inl ((List.mem_cons.mp inside).resolve_left (by simpa using other))
        · refine .inr ?_
          change ∃ entry, m₁.state.Holds entry ∧ _
          rw [state]
          exact held
    case entries =>
      intro entry held
      change m₁.state.Holds entry at held
      rw [state] at held
      obtain ⟨⟨body, found⟩, apart⟩ := entries entry held
      refine ⟨⟨body, ?_⟩, fun name inside => apart name (List.mem_cons_of_mem _ inside)⟩
      change m₁.disk.read _ = _
      rw [reads, if_neg (apart _ List.mem_cons_self)]
      exact found
  · intro error m₁ state timeline
    rw [timeline]
    exact loading.always

/-- Only the new entry is held beside those held before. -/
theorem holds_admitEntry {state : State} {entry other : Entry}
    (held : (state.admitEntry entry).Holds other) : other = entry ∨ state.Holds other := by
  simp only [State.Holds, State.admitEntry, OrdMap.get?_insert] at held
  split at held
  · exact .inl (Option.some.inj held).symm
  · exact .inr held

/-- Entering the record of a file that stands under its own name. -/
theorem Loading.admitEntry {key : EncryptionKey} {host : Host} {record : StoredRecord Str}
    {entry : Entry} (loading : Loading key host offered since m [])
    (path : entry.path = .pending (pendingFileName entry.spoolSeq entry.recordId))
    (admitted : Admitted key m.timeline entry.spoolSeq record)
    (legacy : record.recordId = entry.recordId)
    (stable : record.stableRecordId = some entry.stableRecordId)
    (deadline : record.expiresAtMs = entry.expiresAtMs)
    (fresh : m.state.stableIndex.get? entry.stableRecordId = none) :
    Loading key host offered since (m.update (·.admitEntry entry)) [] := by
  constructor
  case always => exact loading.always
  case keyed =>
    intro id other found
    simp only [Machine.update, State.admitEntry, OrdMap.get?_insert] at found
    split at found
    · rename_i here
      rw [← Option.some.inj found, here]
    · exact loading.keyed id other found
  case pathed =>
    refine ⟨fun other held => ?_, loading.pathed.gapKeyed, loading.pathed.gaps,
      loading.pathed.receipts⟩
    rcases holds_admitEntry held with rfl | before
    · exact path
    · exact loading.pathed.entries other before
  case entry =>
    intro other held
    rcases holds_admitEntry held with rfl | before
    · exact ⟨record, admitted, legacy, stable, deadline⟩
    · exact loading.entry other before
  case gap => exact loading.gap
  case gapHeld => exact loading.gapHeld
  case receipts => exact loading.receipts
  case indexed =>
    intro other held
    simp only [Machine.update, State.admitEntry, OrdMap.get?_insert]
    rcases holds_admitEntry held with rfl | before
    · exact if_pos rfl
    · rw [if_neg]
      · exact loading.indexed other before
      · intro same
        have indexed := loading.indexed other before
        rw [same, fresh] at indexed
        cases indexed

/-- The file of a new entry is waiting no more. -/
theorem PendingsHeld.admitEntry {name : Str} {waiting : List Str} {entry : Entry}
    (pendings : PendingsHeld m (name :: waiting)) (path : entry.path = .pending name)
    (absent : m.state.entries.get? entry.recordId = none) :
    PendingsHeld (m.update (·.admitEntry entry)) waiting := by
  intro other body found
  rcases pendings other body found with inside | ⟨old, held, same⟩
  · rcases List.mem_cons.mp inside with rfl | inside
    · exact .inr ⟨entry, (OrdMap.get?_insert m.state.entries _ _ _).trans (if_pos rfl), path⟩
    · exact .inl inside
  · refine .inr ⟨old, ?_, same⟩
    change (m.state.entries.insert _ _).get? _ = _
    rw [OrdMap.get?_insert, if_neg]
    · exact held
    · intro taken
      rw [State.Holds, taken, absent] at held
      cases held

/-- Admitting the entry of a standing file leaves each entry with its file. -/
theorem EntriesStand.admitEntry {name : Str} {waiting : List Str} {entry : Entry} {body : Blob}
    (entries : EntriesStand m (name :: waiting)) (path : entry.path = .pending name)
    (stands : m.disk.read (.pending name) = some body) (outside : name ∉ waiting) :
    EntriesStand (m.update (·.admitEntry entry)) waiting := by
  intro other held
  rcases holds_admitEntry held with rfl | before
  · rw [path]
    refine ⟨⟨body, stands⟩, fun late inside same => outside ?_⟩
    rw [show name = late from Path.pending.inj same]
    exact inside
  · obtain ⟨found, apart⟩ := entries other before
    exact ⟨found, fun late inside => apart late (List.mem_cons_of_mem _ inside)⟩

/-- A record is moved aside when a gap stands for its sequence, and otherwise entered. -/
theorem post_loadRecord {recovered : RecoveredRecord} {s : Nat} {record : StoredRecord Str}
    (steps : LoadSteps inner offered P)
    (loading : Loading inner.key inner.host offered since m []) (holds : P m.state)
    (known : RecordOf inner.key inner.host m recovered s record) {waiting : List Str}
    (pendings : PendingsHeld m (recovered.name :: waiting))
    (entries : EntriesStand m (recovered.name :: waiting)) (outside : recovered.name ∉ waiting) :
    Post (loadRecord inner recovered) m
      (fun _ m' => RecordLoaded inner offered since P recovered.name waiting m m')
      (fun _ m' => AlwaysLawful inner.key inner.host offered since m'.timeline) := by
  obtain ⟨envelope, offer, -, sequence, legacy, legacy', stable, stable'⟩ :=
    known.fields loading.lawful
  have range := loading.lawful.origin s record known.admitted
  simp only [loadRecord, stable, sequence]
  rw [post_bind, post_state, post_ite]
  refine ⟨fun covered => ?_, fun uncovered => ?_⟩
  · obtain ⟨gap, inside, same⟩ := List.any_eq_true.mp covered
    obtain ⟨noticeId, held⟩ := OrdMap.mem_values_iff.mp inside
    refine post_loadRecord_covered steps loading holds known pendings entries ?_
    rw [← of_decide_eq_true same]
    exact loading.hasGap held
  · have canonical : recovered.name = pendingFileName s recovered.stored.recordId := by
      rw [known.name, legacy]
    rw [← canonical]
    simp only [ne_eq, not_true_eq_false, if_false,
      admitRecovered, post_bind, post_state, post_ite, post_throw, post_modifyState]
    refine ⟨fun _ => loading.always, fun fits => ?_⟩
    simp only [not_or, Bool.not_eq_true, not_le, not_lt] at fits
    obtain ⟨absent, fresh, single, room, bytes⟩ := fits
    rw [OrdMap.contains_eq_false_iff] at absent fresh
    have noGap : ¬ m.state.HoldsGapFor s := by
      rintro ⟨noticeId, gap, found, same⟩
      apply uncovered
      rw [List.any_eq_true]
      exact ⟨gap, OrdMap.mem_values_iff.mpr ⟨noticeId, found⟩, decide_eq_true same⟩
    have once : ∀ other, m.state.Holds other → other.spoolSeq ≠ s := by
      intro other held same
      rw [List.any_eq_false] at single
      exact single other (OrdMap.mem_values_iff.mpr ⟨_, held⟩) (decide_eq_true same)
    constructor
    case loading =>
      have deadline : record.expiresAtMs = recovered.stored.expiresAtMs := by
        rw [known.stored]
        rfl
      exact loading.admitEntry (congrArg Path.pending canonical) known.admitted legacy.symm stable'
        deadline fresh
    case holds =>
      exact steps.admitEntry _ _ holds absent fresh once noGap range.1
        ⟨s, envelope, offer, legacy.trans legacy', rfl⟩ bytes
    case later => exact List.suffix_refl _
    case reads => exact fun _ _ => rfl
    case pendings => exact pendings.admitEntry rfl absent
    case entries => exact entries.admitEntry rfl known.stands outside

/-- Once the records are loaded every pending file on the disk is held. -/
theorem post_loadRecords {records : List RecoveredRecord} {nextMigration : Nat}
    (steps : LoadSteps inner offered P)
    (loading : Loading inner.key inner.host offered since m []) (holds : P m.state)
    (names : (records.map (·.name)).Nodup)
    (known : ∀ r ∈ records, ∃ s record, RecordOf inner.key inner.host m r s record)
    (pendings : PendingsHeld m (records.map (·.name)))
    (entries : EntriesStand m (records.map (·.name))) :
    Post (loadRecords inner records nextMigration) m
      (fun _ m' => Loading inner.key inner.host offered since m' [] ∧ P m'.state ∧
        PendingsHeld m' [] ∧ EntriesStand m' [])
      (fun _ m' => AlwaysLawful inner.key inner.host offered since m'.timeline) := by
  induction records generalizing m nextMigration with
  | nil => exact ⟨loading, holds, pendings, entries⟩
  | cons recovered rest ih =>
      obtain ⟨s, record, source⟩ := known recovered (by simp)
      obtain ⟨-, -, version, -⟩ := source.fields loading.lawful
      have current : migrateRecord inner recovered nextMigration =
          pure (recovered, nextMigration) := if_neg (by rw [version]; decide)
      obtain ⟨outside, names⟩ := List.nodup_cons.mp names
      simp only [loadRecords, current, post_bind, post_pure]
      refine (post_loadRecord steps loading holds source pendings entries outside).monoOk ?_
      intro _ m₁ loaded
      refine ih loaded.loading loaded.holds names (fun r inside => ?_) loaded.pendings loaded.entries
      obtain ⟨t, other, facts⟩ := known r (by simp [inside])
      refine ⟨t, other, facts.moved loaded.later (loaded.reads _ ?_)⟩
      intro same
      exact outside (List.mem_map.mpr ⟨r, inside, same⟩)

end TeslatlasEdge
