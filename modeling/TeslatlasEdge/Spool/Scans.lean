/-
Module: TeslatlasEdge.Spool.Scans
Purpose: What building a batch does besides delivering it.  A solo builder quarantines only held
  entries whose files do not read back; every other entry, and every gap, stays as it is.
Trusted boundary: none
Main exports: Spoiled, along_buildBatch, along_buildBatchV2, Scans, post_buildBatch_scans,
  post_buildBatchV2_scans
-/
import TeslatlasEdge.Spool.Batches
import TeslatlasEdge.Spool.Labels

namespace TeslatlasEdge

open Lib
open Section

variable {inner : Inner} {m : Machine}

/-! ### The sections of a batch builder -/

/-- A held entry whose file does not read back. -/
structure SpoiledEntry (inner : Inner) (m : Machine) (entry : Entry) : Prop where
  keyed : m.state.Keyed
  pathed : m.state.Pathed
  held : m.state.Holds entry
  damaged : ∀ stored, decodeEntry inner entry (m.disk.read entry.path) ≠ .ok stored

/-- The section looks at the machine, or quarantines a held entry whose file does not read back. -/
def Spoiled (inner : Inner) : Label → Machine → Prop
  | .observe, _ | .read _, _ => True
  | .quarantine entry, m => SpoiledEntry inner m entry
  | _, _ => False

/-- Along a scan only entries whose files are spoiled are quarantined. -/
theorem along_scanV1 {entries : List Entry} {records : List HubBatchRecordV1} {bodyBytes : Nat}
    (keyed : m.state.Keyed) (pathed : m.state.Pathed)
    (held : ∀ entry ∈ entries, m.state.Holds entry) (distinct : entries.Nodup) :
    (scanV1 inner entries records bodyBytes).Along (Spoiled inner) m := by
  induction entries generalizing m records bodyBytes with
  | nil => trivial
  | cons entry rest ih =>
      obtain ⟨outside, distinctRest⟩ := List.nodup_cons.mp distinct
      have heldEntry := held entry (by simp)
      have heldRest : ∀ other ∈ rest, m.state.Holds other :=
        fun other inside => held other (by simp [inside])
      simp only [scanV1]
      split
      · trivial
      · refine Call.Along.bind ⟨trivial, trivial⟩ ?_
        rw [Call.post_attempt, post_readEntry]
        cases read : decodeEntry inner entry (m.disk.read entry.path) with
        | error error =>
            by_cases corrupt : error = .corruptRecord
            · subst corrupt
              have spoiled : SpoiledEntry inner m entry :=
                ⟨keyed, pathed, heldEntry, not_ok_of_corrupt read⟩
              refine Call.Along.bind ⟨spoiled, trivial⟩ ?_
              rw [Call.run_atomic]
              refine (@post_quarantineRuntimeEntry inner noOffers m _ heldEntry
                ⟨_, pathed.entries entry heldEntry⟩ (not_ok_of_corrupt read)).mono ?_
                fun _ _ _ => trivial
              rintro _ m₁ ⟨chain, holds⟩
              refine ih (chain.keyed keyed) (chain.pathed pathed) (fun other inside => ?_) distinctRest
              rw [holds other]
              exact ⟨heldRest other inside, fun same => outside (same ▸ inside)⟩
            · cases error <;> first | exact absurd rfl corrupt | trivial
        | ok stored =>
            simp only
            generalize encodedSize inner.host _ = encodedBytes
            split
            · trivial
            · split
              · trivial
              · exact ih keyed pathed heldRest distinctRest

/-- So it is along a pull under the first protocol. -/
theorem along_buildBatch (keyed : m.state.Keyed) (pathed : m.state.Pathed) :
    (buildBatch inner).Along (Spoiled inner) m := by
  refine Call.Along.bind ⟨trivial, trivial⟩ ?_
  simp only [Call.run_atomic, post_bind, post_state, post_ite, post_throw, post_pure]
  refine ⟨fun _ => trivial, fun _ => Call.Along.bind ?_ ?_⟩
  · refine along_scanV1 keyed pathed (fun entry inside => ?_) ?_
    · exact keyed.holds (mem_insertionSort.mp inside)
    · exact (List.perm_insertionSort _ _).nodup_iff.mpr keyed.nodup_values
  · refine Post.trivial.mono (fun records m₁ _ => ?_) fun _ _ _ => trivial
    exact Call.Along.answering ⟨trivial, trivial⟩

/-- So it is along a scan under the second protocol. -/
theorem along_scanV2 {counted : OrdMap Nat RecordId} {remaining : List BatchCandidateV2}
    {scan : ScanV2} (keyed : m.state.Keyed) (pathed : m.state.Pathed)
    (held : ∀ entry, .record entry ∈ remaining → m.state.Holds entry)
    (distinct : (remaining.filterMap BatchCandidateV2.record?).Nodup) :
    (scanV2 inner counted remaining scan).Along (Spoiled inner) m := by
  induction remaining generalizing m scan with
  | nil => trivial
  | cons candidate rest ih =>
      have heldRest : ∀ entry, .record entry ∈ rest → m.state.Holds entry :=
        fun entry inside => held entry (by simp [inside])
      have distinctRest : (rest.filterMap BatchCandidateV2.record?).Nodup := by
        cases candidate with
        | gap notice => simpa [List.filterMap_cons, BatchCandidateV2.record?] using distinct
        | record entry =>
            simp only [List.filterMap_cons, BatchCandidateV2.record?] at distinct
            exact (List.nodup_cons.mp distinct).2
      simp only [scanV2]
      split
      · trivial
      · refine Call.Along.bind ?_ ?_
        · cases candidate with
          | gap notice => trivial
          | record entry =>
              simp only [candidateItem]
              split
              · exact Call.Along.answering ⟨trivial, trivial⟩
              · refine Call.Along.bind ⟨trivial, trivial⟩ ?_
                rw [Call.post_attempt, post_readEntry]
                cases read : decodeEntry inner entry (m.disk.read entry.path) with
                | ok stored => trivial
                | error error =>
                    by_cases corrupt : error = .corruptRecord
                    · subst corrupt
                      exact Call.Along.answering
                        ⟨(⟨keyed, pathed, held entry (by simp), not_ok_of_corrupt read⟩ :
                          SpoiledEntry inner m entry), trivial⟩
                    · cases error <;> first | exact absurd rfl corrupt | trivial
        · refine (@post_candidateItem inner noOffers m counted candidate pathed
            fun entry same => held entry (by simp [same])).mono ?_ fun _ _ _ => trivial
          intro item m₁ spec
          cases item with
          | none =>
              obtain ⟨chain, entry, rfl, -, holds⟩ := spec
              refine ih (chain.keyed keyed) (chain.pathed pathed) (fun other inside => ?_) distinctRest
              rw [holds other]
              refine ⟨heldRest other inside, ?_⟩
              rintro rfl
              simp only [List.filterMap_cons, BatchCandidateV2.record?] at distinct
              exact (List.nodup_cons.mp distinct).1 (List.mem_filterMap.mpr ⟨_, inside, rfl⟩)
          | some item =>
              obtain ⟨rfl, -⟩ := spec
              generalize encodedSize inner.host item.toJson = encodedBytes
              simp only
              split
              · trivial
              · split
                · trivial
                · split
                  · trivial
                  · exact ih keyed pathed heldRest distinctRest

/-- So it is along a pull under the second, with its restart. -/
theorem along_buildBatchV2 {restarts : Nat} (keyed : m.state.Keyed) (pathed : m.state.Pathed) :
    (buildBatchV2 inner restarts).Along (Spoiled inner) m := by
  induction restarts generalizing m with
  | zero => trivial
  | succ restarts ih =>
      refine Call.Along.bind ⟨trivial, trivial⟩ ?_
      simp only [Call.run_atomic, post_bind, post_state, post_ite, post_throw, post_pure]
      refine ⟨fun _ => trivial, fun _ => Call.Along.bind ⟨trivial, trivial⟩ ?_⟩
      simp only [Call.run_atomic, post_bind, post_state, post_pure]
      have held : ∀ entry, .record entry ∈ candidates m.state → m.state.Holds entry :=
        fun entry inside => keyed.holds (mem_candidates_record.mp inside)
      change (if repeatsSequence (candidates m.state) = true then _ else _ :
        SpoolCall HubBatchV2).Along _ m
      split
      · trivial
      · refine Call.Along.bind (along_scanV2 keyed pathed held (nodup_candidates_entries keyed)) ?_
        refine (@post_scanV2 inner noOffers m _ (candidates m.state) _ keyed pathed held
          (nodup_candidates_entries keyed)).mono ?_ fun _ _ _ => trivial
        rintro scan m₁ ⟨chain, -⟩
        split
        · exact ih (chain.keyed keyed) (chain.pathed pathed)
        · trivial

/-! ### What a batch builder leaves -/

/-- What building a batch leaves of a machine: entries whose files read back, and all gaps. -/
structure Scans (inner : Inner) (m m' : Machine) : Prop where
  intact : ∀ entry, m.state.Holds entry →
    (m'.state.Holds entry ∧ m'.disk.read entry.path = m.disk.read entry.path) ∨
      ∀ stored, decodeEntry inner entry (m.disk.read entry.path) ≠ .ok stored
  replaced : ∀ entry, m.state.Holds entry → m'.state.Holds entry ∨
    ∃ gap, m'.state.gaps.get?
      (gapNotice inner.host entry entry.admittedAtMs .integrityQuarantine).noticeId = some gap
  gaps : ∀ noticeId gap, m.state.gaps.get? noticeId = some gap →
    m'.state.gaps.get? noticeId = some gap
  counted : m'.state.countedPendingExpirations = m.state.countedPendingExpirations
  receipts : m'.state.receipts = m.state.receipts

theorem Scans.refl (m : Machine) : Scans inner m m :=
  ⟨fun _ held => .inl ⟨held, rfl⟩, fun _ held => .inl held, fun _ _ found => found, rfl, rfl⟩

/-- One scan after another is a scan. -/
theorem Scans.trans {m₁ m₂ : Machine} (first : Scans inner m m₁) (second : Scans inner m₁ m₂) :
    Scans inner m m₂ := by
  refine ⟨fun entry held => ?_, fun entry held => ?_, fun noticeId gap found =>
    second.gaps noticeId gap (first.gaps noticeId gap found),
    second.counted.trans first.counted, second.receipts.trans first.receipts⟩
  · rcases first.intact entry held with ⟨held₁, reads₁⟩ | damaged
    · rcases second.intact entry held₁ with ⟨held₂, reads₂⟩ | damaged
      · exact .inl ⟨held₂, reads₂.trans reads₁⟩
      · rw [reads₁] at damaged
        exact .inr damaged
    · exact .inr damaged
  · rcases first.replaced entry held with held₁ | ⟨gap, found⟩
    · exact second.replaced entry held₁
    · exact .inr ⟨gap, second.gaps _ gap found⟩

/-- Quarantining one entry leaves the others alone. -/
theorem SpoiledEntry.scans {m' : Machine} {entry : Entry} (spoiled : SpoiledEntry inner m entry)
    (holds : ∀ other, m.state.Holds other → other ≠ entry → m'.state.Holds other)
    (reads : ∀ name, .pending name ≠ entry.path →
      m'.disk.read (.pending name) = m.disk.read (.pending name))
    (covered : m'.state.Holds entry ∨ ∃ gap, m'.state.gaps.get?
      (gapNotice inner.host entry entry.admittedAtMs .integrityQuarantine).noticeId = some gap)
    (gaps : ∀ noticeId gap, m.state.gaps.get? noticeId = some gap →
      m'.state.gaps.get? noticeId = some gap)
    (counted : m'.state.countedPendingExpirations = m.state.countedPendingExpirations)
    (receipts : m'.state.receipts = m.state.receipts) : Scans inner m m' := by
  refine ⟨fun other held => ?_, fun other held => ?_, gaps, counted, receipts⟩
  · by_cases same : other = entry
    · subst same
      exact .inr spoiled.damaged
    · have path := spoiled.pathed.entries other held
      refine .inl ⟨holds other held same, ?_⟩
      rw [path]
      apply reads
      rw [spoiled.pathed.entries entry spoiled.held]
      intro equal
      have id := pendingFileName_recordId (Path.pending.inj equal)
      apply same
      have held' := spoiled.held
      rw [State.Holds, ← id, held] at held'
      exact Option.some.inj held'
  · by_cases same : other = entry
    · subst same
      exact covered
    · exact .inl (holds other held same)

/-- A quarantine is part of a scan. -/
theorem post_quarantineRuntimeEntry_scans {entry : Entry} (spoiled : SpoiledEntry inner m entry) :
    Post (quarantineRuntimeEntry inner entry) m (fun _ m' => Scans inner m m')
      (fun _ m' => Scans inner m m') := by
  have contained : m.state.entries.contains entry.recordId = true :=
    OrdMap.contains_iff.mpr ⟨entry, spoiled.held⟩
  simp only [quarantineRuntimeEntry, post_bind, post_state, contained, not_true_eq_false,
    if_false]
  refine (@post_persistGapLocked inner noOffers m entry entry.admittedAtMs .integrityQuarantine
    spoiled.held (by simp) fun _ => spoiled.damaged).mono ?_ ?_
  · rintro answer m₁ ⟨-, named, ⟨gap, replaced⟩, pendings, change⟩
    rw [named] at replaced
    have same : ∀ other, m₁.state.Holds other ↔ m.state.Holds other := by
      intro other
      rcases change with same | ⟨_, _, -, recorded⟩
      · rw [same]
      · rw [recorded, State.recordGap_holds]
    have gaps : ∀ noticeId gap, m.state.gaps.get? noticeId = some gap →
        m₁.state.gaps.get? noticeId = some gap := by
      intro noticeId other found
      rcases change with same | ⟨_, _, absent, recorded⟩
      · rwa [same]
      · rw [recorded]
        change (m.state.gaps.insert _ _).get? _ = _
        rw [OrdMap.get?_insert, if_neg]
        · exact found
        · rintro rfl
          rw [absent] at found
          cases found
    have unchanged : m₁.state.countedPendingExpirations = m.state.countedPendingExpirations ∧
        m₁.state.receipts = m.state.receipts := by
      rcases change with same | ⟨_, _, -, recorded⟩
      · rw [same]
        exact ⟨rfl, rfl⟩
      · rw [recorded]
        exact ⟨rfl, rfl⟩
    -- on every exit the state is that of `m₁`, and only the entry's own file may have gone
    have left : ∀ m₂ : Machine, m₂.state = m₁.state →
        (∀ name, .pending name ≠ entry.path →
          m₂.disk.read (.pending name) = m.disk.read (.pending name)) → Scans inner m m₂ := by
      intro m₂ state reads
      refine spoiled.scans (fun other held _ => ?_) reads (.inl ?_) (fun noticeId gap found => ?_)
        (by rw [state]; exact unchanged.1) (by rw [state]; exact unchanged.2)
      · rw [state]
        exact (same other).mpr held
      · rw [state]
        exact (same entry).mpr spoiled.held
      · rw [state]
        exact gaps noticeId gap found
    have dropped : ∀ m₂ : Machine, m₂.state = m₁.state →
        (∀ name, .pending name ≠ entry.path →
          m₂.disk.read (.pending name) = m.disk.read (.pending name)) →
        Post (modifyState (·.dropQuarantined entry)) m₂ (fun _ m' => Scans inner m m')
          (fun _ m' => Scans inner m m') := by
      intro m₂ state reads
      rw [post_modifyState]
      refine spoiled.scans (fun other held different => ?_) reads (.inr ⟨gap, ?_⟩)
        (fun noticeId gap found => ?_)
        (by rw [← unchanged.1, ← state]; rfl) (by rw [← unchanged.2, ← state]; rfl)
      · change (m₂.state.entries.erase entry.recordId).get? other.recordId = some other
        rw [state, OrdMap.get?_erase, if_neg]
        · exact (same other).mpr held
        · intro id
          have held' := spoiled.held
          rw [State.Holds, ← id, held] at held'
          exact different (Option.some.inj held')
      · change m₂.state.gaps.get? _ = _
        rw [state]
        exact replaced
      · change m₂.state.gaps.get? _ = _
        rw [state]
        exact gaps noticeId gap found
    have reads₁ : ∀ name, m₁.disk.read (.pending name) = m.disk.read (.pending name) := by
      intro name
      rw [Disk.read, Disk.read, pendings]
    have aside : ∀ (body : Blob) (name : Str), .pending name ≠ entry.path →
        (m₁.setAside entry.path body).disk.read (.pending name) = m.disk.read (.pending name) := by
      intro body name other
      rw [Machine.setAside_read, if_neg other]
      exact reads₁ name
    simp only [post_tryCatch]
    apply post_quarantineFileBounded
    · intro body _ faults _
      exact dropped _ rfl (aside body)
    · intro error faults _ _
      simp only [post_ite, post_bind, post_disk, post_throw]
      refine ⟨fun _ => ?_, fun _ => left _ rfl fun name _ => reads₁ name⟩
      apply post_syncDirectory
      · exact fun _ _ => dropped _ rfl fun name _ => reads₁ name
      · exact fun _ _ _ _ => left _ rfl fun name _ => reads₁ name
    · intro body _ _ full faults _
      simp only [post_ite, post_bind, post_disk, post_throw]
      refine ⟨fun _ => ?_, fun _ => left _ rfl (aside body)⟩
      apply post_syncDirectory
      · exact fun _ _ => dropped _ rfl (aside body)
      · exact fun _ _ _ _ => left _ rfl (aside body)
  · rintro error m₁ ⟨-, same, reads, -⟩
    exact spoiled.scans (fun other held _ => by rwa [same]) (fun name _ => reads name)
      (.inl (by rw [same]; exact spoiled.held)) (fun _ _ found => by rwa [same])
      (by rw [same]) (by rw [same])

/-- A call that only scans, and quarantines only what does not read back. -/
theorem Labelled.post_scans {α : Type} {call : SpoolCall α} (labelled : Labelled inner call)
    (along : call.Along (Spoiled inner) m) :
    Post call.run m (fun _ m' => Scans inner m m') (fun _ m' => Scans inner m m') := by
  refine Call.run_invariant (C := Spoiled inner) (I := Scans inner m)
    (Call.Steps.mono labelled fun label act is => ?_) along (.refl m)
  intro m₁ spoiled before
  cases is with
  | observe same | read same =>
      rw [same]
      exact before
  | quarantine =>
      exact before.trans ((post_quarantineRuntimeEntry_scans spoiled).final
        (I := fun m' => Scans inner m₁ m'))
  | _ => exact spoiled.elim

theorem post_buildBatch_scans (keyed : m.state.Keyed) (pathed : m.state.Pathed) :
    Post (buildBatch inner).run m (fun _ m' => Scans inner m m') (fun _ m' => Scans inner m m') :=
  labelled_buildBatch.post_scans (along_buildBatch keyed pathed)

/-- Building a batch changes the machine as a scan does. -/
theorem post_buildBatchV2_scans {restarts : Nat} (keyed : m.state.Keyed)
    (pathed : m.state.Pathed) :
    Post (buildBatchV2 inner restarts).run m (fun _ m' => Scans inner m m')
      (fun _ m' => Scans inner m m') :=
  (labelled_buildBatchV2 restarts).post_scans (along_buildBatchV2 keyed pathed)

end TeslatlasEdge
