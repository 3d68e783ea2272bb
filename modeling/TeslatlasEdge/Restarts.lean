/-
Module: TeslatlasEdge.Restarts
Purpose: Building a v2 batch starts over at most once.  The scan after one that has quarantined files
  finds their gaps in the places of their entries, so it stops at or before the same place and meets
  no other unreadable file.
Trusted boundary: none
Main exports: rebuild, scanLength, replacement, Passing, SecondPass, RestartsOnce,
  buildBatchV2_restarts_once
-/
import TeslatlasEdge.Stability

namespace TeslatlasEdge

open Lib
open Section

variable {inner : Inner} {m m' start : Machine}

/-! ### One pass of the builder -/

/-- `build_batch_v2` where `again` stands for the call it makes to itself. -/
def rebuild (inner : Inner) (again : SpoolCall HubBatchV2) : SpoolCall HubBatchV2 := do
  let (ordered, counted) ← Call.atomic .observe do
    let state ← state
    if state.unresolvedIntegrity then throw .corruptRecord
    return (sortBySeq Entry.spoolSeq state.entries.values, state.countedPendingExpirations)
  let pendingGaps ← Call.atomic .observe do
    return (← state).gaps.values.map (·.notice)
  let candidates := sortBySeq BatchCandidateV2.spoolSeq <|
    ordered.map .record ++ pendingGaps.map .gap
  if repeatsSequence candidates then Call.fail .corruptRecord
  else do
    let scan ← scanV2 inner counted candidates ScanV2.start
    if scan.quarantined then again
    else
      return { version := 2
               batchId := batchIdV2 inner.host scan.records scan.gaps
               records := scan.records
               gaps := scan.gaps }

/-- The batch a finished scan makes. -/
def ScanV2.batch (host : Host) (scan : ScanV2) : HubBatchV2 :=
  { version := 2
    batchId := batchIdV2 host scan.records scan.gaps
    records := scan.records
    gaps := scan.gaps }

/-- The scan a pass makes on a machine. -/
def firstScan (inner : Inner) (m : Machine) : EStateM.Result SpoolError Machine ScanV2 :=
  (scanV2 inner m.state.countedPendingExpirations (candidates m.state) ScanV2.start).run m

/-- Building a batch is one scan, and one more after a quarantine. -/
theorem rebuild_run (again : SpoolCall HubBatchV2) :
    (rebuild inner again).run m =
      if m.state.unresolvedIntegrity ∨ repeatsSequence (candidates m.state) = true then
        .error .corruptRecord m
      else
        match firstScan inner m with
        | .error error m' => .error error m'
        | .ok scan m' =>
            if scan.quarantined then again.run m' else .ok (scan.batch inner.host) m' := by
  let look : Section (List Entry × OrdMap Nat RecordId) := do
    let state ← state
    if state.unresolvedIntegrity then throw .corruptRecord
    return (sortBySeq Entry.spoolSeq state.entries.values, state.countedPendingExpirations)
  by_cases unresolved : m.state.unresolvedIntegrity = true
  · have refused : look m = .error .corruptRecord m := by
      change (if m.state.unresolvedIntegrity = true then _ else _ : Section _) m = _
      rw [if_pos unresolved]
      rfl
    rw [if_pos (.inl unresolved), rebuild, Call.run_bind, Call.run_atomic]
    change EStateM.bind look _ m = _
    rw [EStateM.bind, refused]
  · have looked : (Call.atomic .observe look : SpoolCall _).run m =
        .ok (sortBySeq Entry.spoolSeq m.state.entries.values,
          m.state.countedPendingExpirations) m := by
      rw [Call.run_atomic]
      change (if m.state.unresolvedIntegrity = true then _ else _ : Section _) m = _
      rw [if_neg unresolved]
      rfl
    have listed : (Call.atomic .observe do return (← state).gaps.values.map (·.notice) :
        SpoolCall (List GapNoticeV2)).run m = .ok (m.state.gaps.values.map (·.notice)) m := by
      rw [Call.run_atomic]
      rfl
    rw [rebuild, run_bind_of_ok looked]
    simp only
    rw [run_bind_of_ok listed]
    change (if repeatsSequence (candidates m.state) = true then _ else _ :
      SpoolCall HubBatchV2).run m = _
    by_cases repeats : repeatsSequence (candidates m.state) = true
    · rw [if_pos repeats, if_pos (.inr repeats)]
      rfl
    · rw [if_neg repeats, if_neg (not_or.mpr ⟨unresolved, repeats⟩), Call.run_bind]
      change EStateM.bind (scanV2 inner m.state.countedPendingExpirations (candidates m.state)
        .start).run _ m = _
      rw [EStateM.bind, firstScan]
      cases (scanV2 inner m.state.countedPendingExpirations (candidates m.state) .start).run m with
      | error error m₁ => rfl
      | ok scan m₁ =>
          simp only
          cases scan.quarantined <;> rfl

/-- How many candidates the loop of `build_batch_v2` passes before it stops. -/
def scanLength (inner : Inner) (counted : OrdMap Nat RecordId) :
    List BatchCandidateV2 → ScanV2 → Machine → Nat
  | [], _, _ => 0
  | candidate :: rest, scan, m =>
      if saturatingAdd scan.records.length scan.gaps.length ≥ inner.config.batchMaxRecords then 0
      else
        match (candidateItem inner counted candidate).run m with
        | .error _ _ => 0
        | .ok none m' => scanLength inner counted rest { scan with quarantined := true } m' + 1
        | .ok (some item) m' =>
            let encodedBytes := encodedSize inner.host item.toJson
            if scan.categoryFull item then 0
            else if (scan.records ≠ [] ∨ scan.gaps ≠ []) ∧
                saturatingAdd scan.bodyBytes encodedBytes > inner.config.batchMaxBytes then 0
            else if encodedBytes > inner.config.batchMaxBytes then 0
            else scanLength inner counted rest (scan.push encodedBytes item) m' + 1

/-! ### Quarantining one entry -/

/-- The notice of the gap that an unreadable entry gives way to. -/
def Entry.quarantineNotice (host : Host) (entry : Entry) : GapNoticeV2 :=
  gapNotice host entry entry.admittedAtMs .integrityQuarantine

/-- The notices of quarantined entries are new, and different for different entries. -/
structure State.Quarantinable (host : Host) (state : State) : Prop where
  absent : ∀ entry, state.Holds entry →
    state.gaps.get? (entry.quarantineNotice host).noticeId = none
  distinct : ∀ entry other, state.Holds entry → state.Holds other →
    (entry.quarantineNotice host).noticeId = (other.quarantineNotice host).noticeId → entry = other

/-- The state in which the entry has given way to its gap. -/
def State.quarantine (host : Host) (state : State) (entry : Entry) (encryptedBytes : Nat)
    (path : Path) : State :=
  (state.recordGap (entry.quarantineNotice host) encryptedBytes path).dropQuarantined entry

theorem State.holds_quarantine {host : Host} {state : State} {entry other : Entry}
    {encryptedBytes : Nat} {path : Path} (held : state.Holds entry) :
    (state.quarantine host entry encryptedBytes path).Holds other ↔
      state.Holds other ∧ other ≠ entry := by
  change (state.entries.erase entry.recordId).get? other.recordId = some other ↔ _
  rw [OrdMap.get?_erase]
  split
  · rename_i same
    refine ⟨(by simp), fun ⟨held', different⟩ => absurd ?_ different⟩
    rw [State.Holds, same, held] at held'
    exact (Option.some.inj held').symm
  · rename_i other_id
    exact ⟨fun held' => ⟨held', fun same => other_id (congrArg Entry.recordId same)⟩, And.left⟩

/-- After a quarantine the others can still be quarantined. -/
theorem State.Quarantinable.quarantine {host : Host} {state : State} {entry : Entry}
    {encryptedBytes : Nat} {path : Path} (fresh : state.Quarantinable host)
    (held : state.Holds entry) :
    (state.quarantine host entry encryptedBytes path).Quarantinable host := by
  refine ⟨fun other held' => ?_, fun other another held' held'' => ?_⟩
  · obtain ⟨before, different⟩ := (State.holds_quarantine held).mp held'
    change (state.gaps.insert (entry.quarantineNotice host).noticeId _).get? _ = none
    rw [OrdMap.get?_insert, if_neg]
    · exact fresh.absent other before
    · exact fun same => different (fresh.distinct other entry before held same)
  · exact fresh.distinct other another ((State.holds_quarantine held).mp held').1
      ((State.holds_quarantine held).mp held'').1

/-- The gap takes the place of the entry among the candidates. -/
theorem candidates_quarantine {host : Host} {state : State} {entry : Entry} (encryptedBytes : Nat)
    (path : Path) {front rest : List BatchCandidateV2} (held : state.Holds entry)
    (fresh : state.Quarantinable host)
    (ordered : (candidates state).Pairwise fun a b => a.spoolSeq < b.spoolSeq)
    (split : candidates state = front ++ .record entry :: rest) :
    candidates (state.quarantine host entry encryptedBytes path) =
        front ++ .gap (entry.quarantineNotice host) :: rest ∧
      (candidates (state.quarantine host entry encryptedBytes path)).Pairwise
        fun a b => a.spoolSeq < b.spoolSeq := by
  set state' := state.quarantine host entry encryptedBytes path with state'_eq
  have ordered' : (front ++ BatchCandidateV2.gap (entry.quarantineNotice host) :: rest).Pairwise
      fun a b => a.spoolSeq < b.spoolSeq := by
    rw [split] at ordered
    rw [← List.pairwise_map (f := BatchCandidateV2.spoolSeq) (R := (· < ·)), List.map_append,
      List.map_cons] at ordered ⊢
    exact ordered
  have others : (front ++ rest).Perm
      ((state.entries.erase entry.recordId).values.map .record ++
        (state.gaps.values.map (·.notice)).map .gap) := by
    apply List.Perm.cons_inv (a := BatchCandidateV2.record entry)
    refine List.perm_middle.symm.trans ?_
    rw [← split]
    refine (candidates_perm state).trans ?_
    exact ((OrdMap.values_perm_of_get? held).map BatchCandidateV2.record).append_right _
  have gaps : state'.gaps.values.Perm
      ({ notice := entry.quarantineNotice host, encryptedBytes := encryptedBytes, path := path } ::
        state.gaps.values) :=
    OrdMap.values_insert_perm _ (fresh.absent entry held)
  have perm : (candidates state').Perm
      (front ++ .gap (entry.quarantineNotice host) :: rest) := by
    refine (candidates_perm state').trans ?_
    refine (((gaps.map (·.notice)).map BatchCandidateV2.gap).append_left _).trans ?_
    simp only [List.map_cons]
    refine List.perm_middle.trans ?_
    exact (others.symm.cons _).trans List.perm_middle.symm
  have same : candidates state' = front ++ .gap (entry.quarantineNotice host) :: rest := by
    refine perm.eq_of_pairwise ?_ (candidates_sorted state') (ordered'.imp le_of_lt)
    intro a b inside inside' le ge
    have distinct := nodup_map_of_ordered ordered' fun a _ b _ same => same
    exact List.inj_on_of_nodup_map distinct (perm.subset inside) inside' (le_antisymm le ge)
  exact ⟨same, by rw [same]; exact ordered'⟩

/-- A quarantine that returns has replaced the entry by its gap, and moved no other file. -/
theorem post_quarantineRuntimeEntry_exact {entry : Entry} (spoiled : SpoiledEntry inner m entry)
    (absent : m.state.gaps.get? (entry.quarantineNotice inner.host).noticeId = none) :
    Post (quarantineRuntimeEntry inner entry) m
      (fun _ m' => (∃ encryptedBytes path,
          m'.state = m.state.quarantine inner.host entry encryptedBytes path) ∧
        ∀ name, .pending name ≠ entry.path →
          m'.disk.read (.pending name) = m.disk.read (.pending name))
      (fun _ _ => True) := by
  have contained : m.state.entries.contains entry.recordId = true :=
    OrdMap.contains_iff.mpr ⟨entry, spoiled.held⟩
  simp only [quarantineRuntimeEntry, post_bind, post_state, contained, not_true_eq_false,
    if_false]
  refine (@post_persistGapLocked inner noOffers m entry entry.admittedAtMs .integrityQuarantine
    spoiled.held (by simp) fun _ => spoiled.damaged).mono ?_ fun _ _ _ => trivial
  rintro answer m₁ ⟨-, named, ⟨gap, replaced⟩, pendings, change⟩
  obtain ⟨encryptedBytes, path, -, recorded⟩ := change.resolve_left fun same => by
    rw [same, named] at replaced
    exact absurd (absent.symm.trans replaced) (Option.some_ne_none _).symm
  have reads₁ : ∀ name, m₁.disk.read (.pending name) = m.disk.read (.pending name) := by
    intro name
    rw [Disk.read, Disk.read, pendings]
  have dropped : ∀ m₂ : Machine, m₂.state = m₁.state →
      (∀ name, .pending name ≠ entry.path →
        m₂.disk.read (.pending name) = m.disk.read (.pending name)) →
      Post (modifyState (·.dropQuarantined entry)) m₂
        (fun _ m' => (∃ encryptedBytes path,
            m'.state = m.state.quarantine inner.host entry encryptedBytes path) ∧
          ∀ name, .pending name ≠ entry.path →
            m'.disk.read (.pending name) = m.disk.read (.pending name))
        (fun _ _ => True) := by
    intro m₂ state reads
    rw [post_modifyState]
    refine ⟨⟨encryptedBytes, path, ?_⟩, reads⟩
    rw [Machine.update, state, recorded]
    rfl
  have aside : ∀ (body : Blob) (name : Str), .pending name ≠ entry.path →
      (m₁.setAside entry.path body).disk.read (.pending name) = m.disk.read (.pending name) := by
    intro body name other
    rw [Machine.setAside_read, if_neg other]
    exact reads₁ name
  simp only [post_tryCatch]
  apply post_quarantineFileBounded
  · intro body _ faults _
    exact dropped _ rfl (aside body)
  · intro error faults _ _
    simp only [post_ite, post_bind, post_disk, post_throw]
    refine ⟨fun _ => ?_, fun _ => trivial⟩
    exact post_syncDirectory (fun _ _ => dropped _ rfl fun name _ => reads₁ name)
      fun _ _ _ _ => trivial
  · intro body _ _ full faults _
    simp only [post_ite, post_bind, post_disk, post_throw]
    refine ⟨fun _ => ?_, fun _ => trivial⟩
    exact post_syncDirectory (fun _ _ => dropped _ rfl (aside body)) fun _ _ _ _ => trivial

/-! ### The scan that quarantines -/

/-- What a passed candidate has become: an entry whose file does not read back has given way to its
gap. -/
def replacement (inner : Inner) (m : Machine) : BatchCandidateV2 → BatchCandidateV2
  | .gap notice => .gap notice
  | .record entry =>
      match decodeEntry inner entry (m.disk.read entry.path) with
      | .ok _ => .record entry
      | .error _ => .gap (entry.quarantineNotice inner.host)

/-- A candidate that delivers replaces itself. -/
theorem Delivers.replacement {counted : OrdMap Nat RecordId} {candidate : BatchCandidateV2}
    {item : BatchItemV2} (delivers : Delivers inner m.disk counted candidate item) :
    TeslatlasEdge.replacement inner m candidate = candidate := by
  cases delivers with
  | gap notice => rfl
  | backing expired read => simp only [TeslatlasEdge.replacement, read]
  | record live read => simp only [TeslatlasEdge.replacement, read]

/-- A damaged entry is replaced by the gap of its quarantine. -/
theorem replacement_of_damaged {entry : Entry}
    (damaged : ∀ stored, decodeEntry inner entry (m.disk.read entry.path) ≠ .ok stored) :
    replacement inner m (.record entry) = .gap (entry.quarantineNotice inner.host) := by
  rw [replacement]
  split
  · rename_i stored read
    exact absurd read (damaged stored)
  · rfl

/-- A scan begun on the machine `start` has passed some candidates, which now deliver the items.  The
loop counts those of the items that it read itself. -/
structure Passing (inner : Inner) (start m : Machine) (passed remaining : List BatchCandidateV2)
    (scan : ScanV2) (items : List BatchItemV2) : Prop where
  keyed : m.state.Keyed
  pathed : m.state.Pathed
  fresh : m.state.Quarantinable inner.host
  ordered : (candidates m.state).Pairwise fun a b => a.spoolSeq < b.spoolSeq
  split : candidates m.state = passed.map (replacement inner start) ++ remaining
  counted : m.state.countedPendingExpirations = start.state.countedPendingExpirations
  unresolved : m.state.unresolvedIntegrity = start.state.unresolvedIntegrity
  reads : ∀ entry, m.state.Holds entry → m.disk.read entry.path = start.disk.read entry.path
  delivers : List.Forall₂ (Delivers inner m.disk start.state.countedPendingExpirations)
    (passed.map (replacement inner start)) items
  records : scan.records = items.filterMap BatchItemV2.record?
  gaps : scan.gaps.length ≤ (items.filterMap BatchItemV2.gap?).length
  bytes : scan.bodyBytes ≤ bodyBytesOf inner.host items 0

section Passing

variable {passed remaining : List BatchCandidateV2} {scan : ScanV2} {items : List BatchItemV2}
  {candidate : BatchCandidateV2}

/-- The next candidate of a scan is a candidate of the state. -/
theorem Passing.mem (passing : Passing inner start m passed (candidate :: remaining) scan items) :
    candidate ∈ candidates m.state := by
  rw [passing.split]
  exact List.mem_append_right _ List.mem_cons_self

theorem Passing.holds {entry : Entry}
    (passing : Passing inner start m passed (.record entry :: remaining) scan items) :
    m.state.Holds entry :=
  passing.keyed.holds (mem_candidates_record.mp passing.mem)

theorem bodyBytesOf_append (host : Host) (items : List BatchItemV2) (item : BatchItemV2)
    (start : Nat) : bodyBytesOf host (items ++ [item]) start =
      saturatingAdd (bodyBytesOf host items start) (encodedSize host item.toJson) := by
  simp only [bodyBytesOf, List.foldl_append, List.foldl_cons, List.foldl_nil]

/-- Saturating sums grow with their parts. -/
theorem saturatingAdd_mono {a b c d : Nat} (left : a ≤ b) (right : c ≤ d) :
    saturatingAdd a c ≤ saturatingAdd b d := by
  simp only [saturatingAdd]
  omega

/-- The loop takes the item of a candidate. -/
theorem Passing.push {item : BatchItemV2}
    (passing : Passing inner start m passed (candidate :: remaining) scan items)
    (delivers : Delivers inner m.disk start.state.countedPendingExpirations candidate item) :
    Passing inner start m (passed ++ [candidate]) remaining
      (scan.push (encodedSize inner.host item.toJson) item) (items ++ [item]) := by
  have same : replacement inner start candidate = candidate := by
    have here : replacement inner m candidate = candidate := delivers.replacement
    cases candidate with
    | gap notice => rfl
    | record entry =>
        rw [replacement, passing.reads entry passing.holds] at here
        exact here
  have bytes := saturatingAdd_mono passing.bytes (le_refl (encodedSize inner.host item.toJson))
  refine ⟨passing.keyed, passing.pathed, passing.fresh, passing.ordered, ?_, passing.counted,
    passing.unresolved, passing.reads, ?_, ?_, ?_, ?_⟩
  · rw [List.map_append, List.map_cons, List.map_nil, same, passing.split, List.append_assoc]
    rfl
  · rw [List.map_append, List.map_cons, List.map_nil, same]
    exact List.rel_append passing.delivers (.cons delivers .nil)
  · have records := passing.records
    cases item <;>
      simp [ScanV2.push, records, List.filterMap_append, List.filterMap_cons, BatchItemV2.record?]
  · have gaps := passing.gaps
    cases item <;>
      simpa [ScanV2.push, List.filterMap_append, List.filterMap_cons, BatchItemV2.gap?] using gaps
  · rw [bodyBytesOf_append]
    cases item <;> exact bytes

/-- The loop quarantines the file of a candidate. -/
theorem Passing.quarantined {entry : Entry}
    (passing : Passing inner start m passed (.record entry :: remaining) scan items)
    (damaged : ∀ stored, decodeEntry inner entry (m.disk.read entry.path) ≠ .ok stored)
    {encryptedBytes : Nat} {path : Path}
    (keyed : m'.state.Keyed) (pathed : m'.state.Pathed)
    (state : m'.state = m.state.quarantine inner.host entry encryptedBytes path)
    (reads : ∀ name, .pending name ≠ entry.path →
      m'.disk.read (.pending name) = m.disk.read (.pending name)) :
    Passing inner start m' (passed ++ [.record entry]) remaining
      { scan with quarantined := true }
      (items ++ [.gap (entry.quarantineNotice inner.host)]) := by
  have held := passing.holds
  have other_reads : ∀ other, m.state.Holds other → other ≠ entry →
      m'.disk.read other.path = m.disk.read other.path := by
    intro other held' different
    rw [passing.pathed.entries other held']
    apply reads
    rw [passing.pathed.entries entry held]
    intro same
    exact different (held.eq_of_recordId held' (pendingFileName_recordId (Path.pending.inj same)))
  have gone : replacement inner start (.record entry) =
      .gap (entry.quarantineNotice inner.host) := by
    rw [passing.reads entry held] at damaged
    exact replacement_of_damaged damaged
  obtain ⟨split, ordered⟩ := candidates_quarantine encryptedBytes path held passing.fresh
    passing.ordered passing.split
  rw [← state] at split ordered
  refine ⟨keyed, pathed, ?_, ordered, ?_, ?_, ?_, ?_, ?_, ?_, ?_, ?_⟩
  · rw [state]
    exact passing.fresh.quarantine held
  · rw [split, List.map_append, List.map_cons, List.map_nil, gone, List.append_assoc]
    rfl
  · rw [state]
    exact passing.counted
  · rw [state]
    exact passing.unresolved
  · intro other held'
    rw [state] at held'
    obtain ⟨before, different⟩ := (State.holds_quarantine held).mp held'
    exact (other_reads other before different).trans (passing.reads other before)
  · rw [List.map_append, List.map_cons, List.map_nil, gone]
    refine List.rel_append ?_ (.cons (.gap _) .nil)
    -- the files of the entries passed before are where they were
    have distinct : ∀ other, BatchCandidateV2.record other ∈ passed.map (replacement inner start) →
        other ≠ entry := by
      rintro other inside rfl
      have single := nodup_map_of_ordered passing.ordered (f := id) fun a _ b _ same =>
        congrArg BatchCandidateV2.spoolSeq same
      rw [List.map_id, passing.split] at single
      exact (List.nodup_append'.mp single).2.2 inside List.mem_cons_self
    have holds : ∀ other, BatchCandidateV2.record other ∈ passed.map (replacement inner start) →
        m.state.Holds other := by
      intro other inside
      apply passing.keyed.holds
      apply mem_candidates_record.mp
      rw [passing.split]
      exact List.mem_append_left _ inside
    have each := (List.forall₂_and_left
      (p := (· ∈ passed.map (replacement inner start))) _ _).mpr ⟨fun _ inside => inside,
        passing.delivers⟩
    refine each.imp ?_
    rintro candidate item ⟨inside, delivers⟩
    cases delivers with
    | gap notice => exact .gap notice
    | backing expired read =>
        rw [← other_reads _ (holds _ inside) (distinct _ inside)] at read
        exact .backing expired read
    | record live read =>
        rw [← other_reads _ (holds _ inside) (distinct _ inside)] at read
        exact .record live read
  · rw [List.filterMap_append, passing.records]
    simp [BatchItemV2.record?]
  · have gaps := passing.gaps
    simp only [List.filterMap_append, List.length_append]
    exact gaps.trans (Nat.le_add_right _ _)
  · rw [bodyBytesOf_append]
    refine passing.bytes.trans ?_
    have bounded : bodyBytesOf inner.host items 0 ≤ u64Max := by
      rw [bodyBytesOf_eq _ _ (Nat.zero_le _)]
      exact min_le_right _ _
    simp only [saturatingAdd]
    omega

/-- What the loop does with the next candidate. -/
theorem Passing.post_candidateItem
    (passing : Passing inner start m passed (candidate :: remaining) scan items) :
    Post (candidateItem inner start.state.countedPendingExpirations candidate).run m
      (fun item m' => match item with
        | some item => m' = m ∧
            Delivers inner m.disk start.state.countedPendingExpirations candidate item
        | none => ∃ notice, Passing inner start m' (passed ++ [candidate]) remaining
            { scan with quarantined := true } (items ++ [.gap notice]))
      (fun _ _ => True) := by
  cases candidate with
  | gap notice => exact ⟨rfl, .gap notice⟩
  | record entry =>
      have held := passing.holds
      simp only [candidateItem]
      split
      · rename_i expired
        simp only [Call.run_bind, Call.run_atomic, post_bind, post_readEntry, Call.run_pure,
          post_pure]
        cases read : decodeEntry inner entry (m.disk.read entry.path) with
        | error error => trivial
        | ok stored => exact ⟨trivial, .backing expired read⟩
      · rename_i live
        rw [Bool.not_eq_true] at live
        simp only [Call.run_bind, post_bind, Call.post_attempt]
        rw [post_readEntry]
        cases read : decodeEntry inner entry (m.disk.read entry.path) with
        | ok stored => exact ⟨rfl, .record live read⟩
        | error error =>
            by_cases corrupt : error = .corruptRecord
            · subst corrupt
              have damaged := not_ok_of_corrupt read
              simp only [Call.run_bind, Call.run_atomic, Call.run_pure, post_bind, post_pure]
              have moves := (@post_quarantineRuntimeEntry inner noOffers m entry held
                ⟨_, passing.pathed.entries entry held⟩ damaged).and
                (post_quarantineRuntimeEntry_exact
                  ⟨passing.keyed, passing.pathed, held, damaged⟩ (passing.fresh.absent entry held))
              refine moves.mono ?_ fun _ _ _ => trivial
              rintro _ m₁ ⟨⟨chain, -⟩, ⟨encryptedBytes, path, state⟩, reads⟩
              exact ⟨_, passing.quarantined damaged (chain.keyed passing.keyed)
                (chain.pathed passing.pathed) state reads⟩
            · cases error <;> first | exact absurd rfl corrupt | trivial

/-- What makes the loop stop at a candidate. -/
def ScanV2.Halts (inner : Inner) (disk : Disk) (counted : OrdMap Nat RecordId) (scan : ScanV2)
    (candidate : BatchCandidateV2) : Prop :=
  inner.config.batchMaxRecords ≤ saturatingAdd scan.records.length scan.gaps.length ∨
    ∃ item, Delivers inner disk counted candidate item ∧
      (scan.categoryFull item = true ∨
        (scan.records ≠ [] ∨ scan.gaps ≠ []) ∧
          inner.config.batchMaxBytes <
            saturatingAdd scan.bodyBytes (encodedSize inner.host item.toJson))

/-- The loop has passed so many more candidates, and stopped at the next one. -/
def Stopped (inner : Inner) (start m : Machine) (passed remaining : List BatchCandidateV2)
    (result : ScanV2) (length : Nat) : Prop :=
  (∃ items, Passing inner start m (passed ++ remaining.take length) (remaining.drop length) result
      items) ∧
    ∀ candidate ∈ (remaining.drop length).head?,
      result.Halts inner m.disk start.state.countedPendingExpirations candidate

/-- Where the rest of a scan stops, the scan stops one later. -/
theorem Stopped.cons {result : ScanV2} {length : Nat}
    (stopped : Stopped inner start m (passed ++ [candidate]) remaining result length) :
    Stopped inner start m passed (candidate :: remaining) result (length + 1) := by
  rw [Stopped, List.take_succ_cons, List.drop_succ_cons]
  rwa [Stopped, List.append_assoc] at stopped

/-- A finished loop has passed `scanLength` candidates. -/
theorem Passing.stopped {result : ScanV2}
    (passing : Passing inner start m passed remaining scan items)
    (ran : (scanV2 inner start.state.countedPendingExpirations remaining scan).run m =
      .ok result m') :
    Stopped inner start m' passed remaining result
      (scanLength inner start.state.countedPendingExpirations remaining scan m) := by
  induction remaining generalizing m passed scan items with
  | nil =>
      obtain ⟨rfl, rfl⟩ := EStateM.Result.ok.inj ran
      refine ⟨⟨items, ?_⟩, by simp⟩
      rwa [List.take_nil, List.append_nil, List.drop_nil]
  | cons candidate rest ih =>
      have stopHere (same : result = scan ∧ m' = m)
          (halts : scan.Halts inner m.disk start.state.countedPendingExpirations candidate) :
          Stopped inner start m' passed (candidate :: rest) result 0 := by
        obtain ⟨rfl, rfl⟩ := same
        rw [Stopped, List.take_zero, List.append_nil, List.drop_zero, List.head?_cons]
        refine ⟨⟨items, passing⟩, fun next same => ?_⟩
        rwa [Option.mem_some.mp same] at halts
      have stepped := passing.post_candidateItem
      simp only [scanV2] at ran
      simp only [scanLength]
      by_cases full :
          saturatingAdd scan.records.length scan.gaps.length ≥ inner.config.batchMaxRecords
      · rw [if_pos full] at ran
        obtain ⟨same, same'⟩ := EStateM.Result.ok.inj ran
        rw [if_pos full]
        exact stopHere ⟨same.symm, same'.symm⟩ (.inl full)
      · rw [if_neg full] at ran
        obtain ⟨answer, m₁, step, rest_ran⟩ := run_bind_ok ran
        clear ran
        have spec := stepped.of_ok step
        rw [if_neg full, step]
        cases answer with
        | none =>
            obtain ⟨notice, passing₁⟩ := spec
            exact (ih passing₁ rest_ran).cons
        | some item =>
            obtain ⟨rfl, delivers⟩ := spec
            simp only at rest_ran ⊢
            split at rest_ran
            · rename_i category
              obtain ⟨same, same'⟩ := EStateM.Result.ok.inj rest_ran
              rw [if_pos category]
              exact stopHere ⟨same.symm, same'.symm⟩ (.inr ⟨item, delivers, .inl category⟩)
            · rw [if_neg ‹_›]
              split at rest_ran
              · rename_i exceeds
                obtain ⟨same, same'⟩ := EStateM.Result.ok.inj rest_ran
                rw [if_pos exceeds]
                exact stopHere ⟨same.symm, same'.symm⟩ (.inr ⟨item, delivers, .inr exceeds⟩)
              · rw [if_neg ‹_›]
                split at rest_ran
                · cases rest_ran
                · rw [if_neg ‹_›]
                  exact (ih (passing.push delivers) rest_ran).cons

/-! ### The scan after it -/

/-- The variables of the loop when it has taken the items. -/
def ScanV2.pushAll (host : Host) (items : List BatchItemV2) (scan : ScanV2) : ScanV2 :=
  items.foldl (fun scan item => scan.push (encodedSize host item.toJson) item) scan

/-- The loop has less behind it: no other records, and no more gaps or bytes. -/
structure ScanV2.Within (scan fuller : ScanV2) : Prop where
  records : scan.records = fuller.records
  gaps : scan.gaps.length ≤ fuller.gaps.length
  bytes : scan.bodyBytes ≤ fuller.bodyBytes

/-- A loop with more behind it stops where one with less does. -/
theorem ScanV2.Halts.mono {disk : Disk} {counted : OrdMap Nat RecordId} {fuller : ScanV2}
    (halts : scan.Halts inner disk counted candidate) (within : scan.Within fuller) :
    fuller.Halts inner disk counted candidate := by
  obtain ⟨records, gaps, bytes⟩ := within
  rcases halts with full | ⟨item, delivers, category | ⟨started, exceeds⟩⟩
  · left
    refine full.trans (saturatingAdd_mono ?_ gaps)
    rw [records]
  · refine .inr ⟨item, delivers, .inl ?_⟩
    cases item with
    | record record =>
        simp only [ScanV2.categoryFull, decide_eq_true_eq] at category ⊢
        rwa [← records]
    | gap notice =>
        simp only [ScanV2.categoryFull, decide_eq_true_eq] at category ⊢
        exact category.trans gaps
  · refine .inr ⟨item, delivers, .inr ⟨started.imp ?_ ?_, ?_⟩⟩
    · rw [records]
      exact id
    · intro some none
      rw [none] at gaps
      exact some (List.length_eq_zero_iff.mp (Nat.le_zero.mp gaps))
    · exact exceeds.trans_le (saturatingAdd_mono bytes (le_refl _))

theorem ScanV2.push_bodyBytes (scan : ScanV2) (encodedBytes : Nat) (item : BatchItemV2) :
    (scan.push encodedBytes item).bodyBytes = saturatingAdd scan.bodyBytes encodedBytes := by
  cases item <;> rfl

theorem ScanV2.pushAll_records (host : Host) (items : List BatchItemV2) (scan : ScanV2) :
    (scan.pushAll host items).records = scan.records ++ items.filterMap BatchItemV2.record? := by
  induction items generalizing scan with
  | nil => exact (List.append_nil _).symm
  | cons item items ih =>
      change (ScanV2.pushAll host items _).records = _
      rw [ih]
      cases item <;> simp [ScanV2.push, List.filterMap_cons, BatchItemV2.record?]

theorem ScanV2.pushAll_gaps (host : Host) (items : List BatchItemV2) (scan : ScanV2) :
    (scan.pushAll host items).gaps = scan.gaps ++ items.filterMap BatchItemV2.gap? := by
  induction items generalizing scan with
  | nil => exact (List.append_nil _).symm
  | cons item items ih =>
      change (ScanV2.pushAll host items _).gaps = _
      rw [ih]
      cases item <;> simp [ScanV2.push, List.filterMap_cons, BatchItemV2.gap?]

theorem ScanV2.pushAll_bodyBytes (host : Host) (items : List BatchItemV2) (scan : ScanV2) :
    (scan.pushAll host items).bodyBytes = bodyBytesOf host items scan.bodyBytes := by
  induction items generalizing scan with
  | nil => rfl
  | cons item items ih =>
      change (ScanV2.pushAll host items _).bodyBytes = _
      rw [ih, ScanV2.push_bodyBytes, bodyBytesOf, bodyBytesOf, List.foldl_cons]

/-- What a scan took lies within what the second scan can take. -/
theorem Passing.within (passing : Passing inner start m passed remaining scan items) :
    scan.Within (ScanV2.start.pushAll inner.host items) where
  records := by
    rw [ScanV2.pushAll_records]
    exact passing.records
  gaps := by
    rw [ScanV2.pushAll_gaps]
    exact passing.gaps
  bytes := by
    rw [ScanV2.pushAll_bodyBytes]
    exact passing.bytes

/-- A loop over candidates that all deliver, the last of which it would stop at, does nothing but
read. -/
theorem scanV2_before {counted : OrdMap Nat RecordId} {front rest : List BatchCandidateV2}
    (delivers : List.Forall₂ (Delivers inner m.disk counted) front items)
    (halts : ∀ candidate ∈ rest.head?,
      (scan.pushAll inner.host items).Halts inner m.disk counted candidate) :
    Post (scanV2 inner counted (front ++ rest) scan).run m
        (fun result m' => m' = m ∧ result.quarantined = scan.quarantined) (fun _ m' => m' = m) ∧
      scanLength inner counted (front ++ rest) scan m ≤ front.length := by
  induction delivers generalizing scan with
  | nil =>
      cases rest with
      | nil => exact ⟨⟨rfl, rfl⟩, le_refl _⟩
      | cons candidate rest =>
          have halts : scan.Halts inner m.disk counted candidate := halts candidate rfl
          simp only [List.nil_append, scanV2, scanLength]
          rcases halts with full | ⟨item, delivers, stops⟩
          · rw [if_pos full, if_pos full]
            exact ⟨⟨rfl, rfl⟩, le_refl _⟩
          · have step := candidateItem_run delivers
            split
            · exact ⟨⟨rfl, rfl⟩, le_refl _⟩
            · rw [step, Post, run_bind_of_ok step]
              simp only
              by_cases category : scan.categoryFull item = true
              · rw [if_pos category, if_pos category]
                exact ⟨⟨rfl, rfl⟩, le_refl _⟩
              · have exceeds := stops.resolve_left category
                rw [if_neg category, if_neg category, if_pos exceeds, if_pos exceeds]
                exact ⟨⟨rfl, rfl⟩, le_refl _⟩
  | @cons candidate item front items delivers _ ih =>
      have step := candidateItem_run delivers
      simp only [List.cons_append, scanV2, scanLength, List.length_cons]
      split
      · exact ⟨⟨rfl, rfl⟩, Nat.zero_le _⟩
      · rw [step, Post, run_bind_of_ok step]
        simp only
        by_cases category : scan.categoryFull item = true
        · rw [if_pos category, if_pos category]
          exact ⟨⟨rfl, rfl⟩, Nat.zero_le _⟩
        · rw [if_neg category, if_neg category]
          by_cases exceeds : (scan.records ≠ [] ∨ scan.gaps ≠ []) ∧
              saturatingAdd scan.bodyBytes (encodedSize inner.host item.toJson) >
                inner.config.batchMaxBytes
          · rw [if_pos exceeds, if_pos exceeds]
            exact ⟨⟨rfl, rfl⟩, Nat.zero_le _⟩
          · rw [if_neg exceeds, if_neg exceeds]
            by_cases large : encodedSize inner.host item.toJson > inner.config.batchMaxBytes
            · rw [if_pos large, if_pos large]
              exact ⟨rfl, Nat.zero_le _⟩
            · rw [if_neg large, if_neg large]
              have pushed : (scan.push (encodedSize inner.host item.toJson) item).quarantined =
                  scan.quarantined := by
                cases item <;> rfl
              obtain ⟨post, length⟩ := ih halts
              rw [pushed] at post
              exact ⟨post, Nat.succ_le_succ length⟩

end Passing

/-! ### At most one restart -/

/-- A pass whose scan quarantines nothing does not call the builder again. -/
theorem rebuild_clean (clean : Post (firstScan inner) m
    (fun result _ => result.quarantined = false) fun _ _ => True)
    (again again' : SpoolCall HubBatchV2) :
    (rebuild inner again).run m = (rebuild inner again').run m := by
  rw [rebuild_run, rebuild_run]
  split
  · rfl
  · cases ran : firstScan inner m with
    | error error m' => rfl
    | ok result m' =>
        have clean : result.quarantined = false := clean.of_ok ran
        simp only [clean, Bool.false_eq_true, if_false]

/-- A scan that quarantines nothing is the batch. -/
theorem post_rebuild_of_clean (again : SpoolCall HubBatchV2)
    (clean : Post (firstScan inner) m (fun result m' => m' = m ∧ result.quarantined = false)
      fun _ m' => m' = m) :
    Post (rebuild inner again).run m (fun _ m' => m' = m) fun _ m' => m' = m := by
  unfold Post
  rw [rebuild_run]
  by_cases refused : m.state.unresolvedIntegrity ∨ repeatsSequence (candidates m.state) = true
  · rw [if_pos refused]
  · rw [if_neg refused]
    cases ran : firstScan inner m with
    | error error m' => exact clean.of_error ran
    | ok result m' =>
        obtain ⟨same, clean⟩ := clean.of_ok ran
        simp only [clean, Bool.false_eq_true, if_false]
        exact same

/-- What a pass that has passed so many candidates, and quarantined files, leaves to the next one. -/
structure SecondPass (inner : Inner) (m m₁ : Machine) (length : Nat) : Prop where
  candidates : candidates m₁.state =
    ((TeslatlasEdge.candidates m.state).take length).map (replacement inner m) ++
      (TeslatlasEdge.candidates m.state).drop length
  counted : m₁.state.countedPendingExpirations = m.state.countedPendingExpirations
  reads : ∀ entry, m₁.state.Holds entry → m₁.disk.read entry.path = m.disk.read entry.path
  earlier : scanLength inner m₁.state.countedPendingExpirations
    (TeslatlasEdge.candidates m₁.state) ScanV2.start m₁ ≤ length
  clean : Post (firstScan inner) m₁ (fun result m' => m' = m₁ ∧ result.quarantined = false)
    (fun _ m' => m' = m₁)
  built : ∀ again, Post (rebuild inner again).run m₁
    (fun batch m' => m' = m₁ ∧ ∃ items, BatchOf inner m₁ batch items) (fun _ m' => m' = m₁)

/-- The builder calls itself at most once: what it would do in a third pass does not matter. -/
structure RestartsOnce (inner : Inner) (m : Machine) : Prop where
  once : ∀ again, (rebuild inner (rebuild inner again)).run m = (buildBatchV2 inner 2).run m
  second : ∀ scan m₁, repeatsSequence (candidates m.state) = false →
    firstScan inner m = .ok scan m₁ → scan.quarantined = true →
      SecondPass inner m m₁ (scanLength inner m.state.countedPendingExpirations
        (candidates m.state) ScanV2.start m)

/-- After a quarantine the second scan goes no further than the first would have. -/
theorem secondPass_of_firstScan {scan : ScanV2} (keyed : m.state.Keyed) (pathed : m.state.Pathed)
    (fresh : m.state.Quarantinable inner.host)
    (ordered : (candidates m.state).Pairwise fun a b => a.spoolSeq < b.spoolSeq)
    (ran : firstScan inner m = .ok scan m₁) :
    SecondPass inner m m₁ (scanLength inner m.state.countedPendingExpirations
      (candidates m.state) ScanV2.start m) := by
  have begun : Passing inner m m [] (candidates m.state) ScanV2.start [] :=
    ⟨keyed, pathed, fresh, ordered, rfl, rfl, rfl, fun _ _ => rfl, .nil, rfl, Nat.zero_le _,
      Nat.zero_le _⟩
  obtain ⟨⟨items, passing⟩, halts⟩ := begun.stopped ran
  have stops : ∀ candidate ∈ ((candidates m.state).drop _).head?,
      (ScanV2.start.pushAll inner.host items).Halts inner m₁.disk
        m.state.countedPendingExpirations candidate :=
    fun candidate next => (halts candidate next).mono passing.within
  obtain ⟨post, earlier⟩ := scanV2_before passing.delivers stops
  have clean : Post (firstScan inner) m₁ (fun result m' => m' = m₁ ∧ result.quarantined = false)
      (fun _ m' => m' = m₁) := by
    unfold Post
    rw [firstScan, passing.counted, passing.split]
    exact post
  refine ⟨passing.split, passing.counted, passing.reads, ?_, clean, fun again => ?_⟩
  · rw [passing.counted, passing.split]
    refine earlier.trans ?_
    rw [List.length_map, List.nil_append]
    exact List.length_take_le _ _
  · -- the batch is the one of a builder that cannot start over
    have built := (@post_buildBatchV2 inner noOffers m₁ 1 passing.keyed passing.pathed).and
      (post_rebuild_of_clean (buildBatchV2 inner 0) clean)
    have same := rebuild_clean (clean.mono (fun _ _ => And.right) fun _ _ _ => trivial) again
      (buildBatchV2 inner 0)
    have read_only : Post (rebuild inner (buildBatchV2 inner 0)).run m₁
        (fun batch m' => m' = m₁ ∧ ∃ items, BatchOf inner m₁ batch items)
        (fun _ m' => m' = m₁) := by
      refine built.mono ?_ fun _ _ => And.right
      rintro batch m' ⟨⟨-, items, batchOf⟩, rfl⟩
      exact ⟨rfl, items, batchOf⟩
    unfold Post at read_only ⊢
    rwa [same]

/-- The builder of a machine whose quarantines make new notices starts over at most once. -/
theorem restartsOnce_of_fresh (keyed : m.state.Keyed) (pathed : m.state.Pathed)
    (fresh : ((candidates m.state).Pairwise fun a b => a.spoolSeq < b.spoolSeq) →
      m.state.Quarantinable inner.host) : RestartsOnce inner m := by
  have second : ∀ scan m₁, repeatsSequence (candidates m.state) = false →
      firstScan inner m = .ok scan m₁ → scan.quarantined = true →
        SecondPass inner m m₁ (scanLength inner m.state.countedPendingExpirations
          (candidates m.state) ScanV2.start m) := by
    intro scan m₁ single ran _
    have ordered := candidates_ordered single
    exact secondPass_of_firstScan keyed pathed (fresh ordered) ordered ran
  refine ⟨fun again => ?_, second⟩
  change (rebuild inner (rebuild inner again)).run m =
    (rebuild inner (rebuild inner (buildBatchV2 inner 0))).run m
  rw [rebuild_run, rebuild_run]
  split
  · rfl
  · rename_i clear
    obtain ⟨-, single⟩ := not_or.mp clear
    rw [Bool.not_eq_true] at single
    cases ran : firstScan inner m with
    | error error m' => rfl
    | ok scan m₁ =>
        simp only
        cases quarantined : scan.quarantined with
        | false => rfl
        | true =>
            have clean := (second scan m₁ single ran quarantined).clean
            exact rebuild_clean (clean.mono (fun _ _ => And.right) fun _ _ _ => trivial) _ _

/-- In a store that runs have made, no gap stands for an entry that is still held, and no two entries
would leave the same gap. -/
theorem Sound.quarantinable {offered : Nat → Envelope → Prop} {since : List Disk}
    (sound : Sound inner.key inner.host offered since m) (ready : Ready inner.key m)
    (distinct : DistinctNotices inner.host offered)
    (ordered : (candidates m.state).Pairwise fun a b => a.spoolSeq < b.spoolSeq) :
    m.state.Quarantinable inner.host := by
  have named : ∀ entry, m.state.Holds entry →
      NoticeOf inner.key inner.host m.timeline (entry.quarantineNotice inner.host) :=
    fun entry held => sound.backed.noticeOf held inner.host entry.admittedAtMs .integrityQuarantine
  constructor
  · intro entry held
    cases found : m.state.gaps.get? (entry.quarantineNotice inner.host).noticeId with
    | none => rfl
    | some gap =>
        have same : gap.notice.spoolSeq = entry.spoolSeq :=
          sound.lawful.notice_seq distinct (sound.heldNotice found) (named entry held)
            (ready.pathed.gapKeyed _ gap found)
        have there : BatchCandidateV2.gap gap.notice ∈ candidates m.state :=
          mem_candidates_gap.mpr ⟨gap, OrdMap.mem_values_iff.mpr ⟨_, found⟩, rfl⟩
        have here : BatchCandidateV2.record entry ∈ candidates m.state :=
          mem_candidates_record.mpr (OrdMap.mem_values_iff.mpr ⟨_, held⟩)
        have single := nodup_map_of_ordered (f := BatchCandidateV2.spoolSeq) ordered
          fun a _ b _ same => same
        cases List.inj_on_of_nodup_map single there here same
  · intro entry other held held' same
    exact ready.numbered.single entry other held held'
      (sound.lawful.notice_seq distinct (named entry held) (named other held') same)

/-- The machine whose pending files hold something else. -/
def Machine.withPending (m : Machine) (pending : Dir) : Machine :=
  { m with disk := { m.disk with pending := pending } }

/-- Whatever the pending files hold, building a v2 batch starts over at most once.  The scan that
follows a quarantining one passes no more candidates, quarantines nothing, and makes the batch of the
queue in which the unreadable files have given way to their gaps. -/
theorem buildBatchV2_restarts_once {key : EncryptionKey} {host : Host} {w : World}
    (reach : Reach (UnderKey key host) w) (distinct : DistinctNotices host w.Offered)
    {process : Process} (running : w.process = some process) (faults : Faults) (pending : Dir) :
    RestartsOnce process.inner ((w.machine process faults).withPending pending) := by
  obtain ⟨rfl, rfl, backing⟩ := (reach.kept distinct).running process running
  obtain ⟨sound, ready⟩ := backing faults
  exact restartsOnce_of_fresh ready.keyed ready.pathed (sound.quarantinable ready distinct)

/-- The scan that the running process makes when its pending files have gone. -/
def World.scanLost (w : World) : Option (Process × ScanV2 × Machine) :=
  match w.process with
  | none => none
  | some process =>
      match firstScan process.inner ((w.machine process .none).withPending ∅) with
      | .ok scan after => some (process, scan, after)
      | .error _ _ => none

theorem World.scanLost_eq_some {w : World} {process : Process} {scan : ScanV2} {after : Machine}
    (scanned : w.scanLost = some (process, scan, after)) :
    w.process = some process ∧
      firstScan process.inner ((w.machine process .none).withPending ∅) = .ok scan after := by
  rw [World.scanLost] at scanned
  cases running : w.process with
  | none =>
      rw [running] at scanned
      cases scanned
  | some process' =>
      rw [running] at scanned
      simp only at scanned
      split at scanned
      · rename_i ran
        obtain ⟨rfl, rfl, rfl⟩ := Prod.mk.inj (Option.some.inj scanned) |>.imp_right Prod.mk.inj
        exact ⟨rfl, ran⟩
      · cases scanned

/-- A spool with one record whose file has gone. -/
theorem singleAdmission_lost :
    ((World.fresh.play singleAdmission).any fun w => decide w.OffersOnce &&
      w.scanLost.any fun scanned => scanned.2.1.quarantined &&
        (!repeatsSequence (candidates scanned.1.state) &&
          decide (scanLength scanned.1.inner scanned.1.state.countedPendingExpirations
            (candidates scanned.1.state) ScanV2.start
            ((w.machine scanned.1 .none).withPending ∅) = 1))) = true := by
  decide +kernel

theorem buildBatchV2_restarts_once_singleAdmission :
    ∃ (inner : Inner) (m m₁ : Machine) (scan : ScanV2), firstScan inner m = .ok scan m₁ ∧
      scan.quarantined = true ∧ SecondPass inner m m₁ 1 := by
  obtain ⟨w, played, shows⟩ := (Option.any_eq_true _ _).mp singleAdmission_lost
  rw [Bool.and_eq_true, decide_eq_true_eq] at shows
  obtain ⟨once, shows⟩ := shows
  obtain ⟨⟨process, scan, after⟩, scanned, shows⟩ := (Option.any_eq_true _ _).mp shows
  simp only [Bool.and_eq_true, Bool.not_eq_true', decide_eq_true_eq] at shows
  obtain ⟨quarantined, single, length⟩ := shows
  obtain ⟨running, ran⟩ := World.scanLost_eq_some scanned
  have reach := (World.reach_of_play .start singleAdmission_untouched played).mono
    fun _ _ untouched => untouched.underKey
  have restarts := buildBatchV2_restarts_once reach (once.distinctNotices _) running .none ∅
  have second := restarts.second scan after single ran quarantined
  refine ⟨process.inner, _, after, scan, ran, quarantined, ?_⟩
  rw [← length]
  exact second

end TeslatlasEdge
