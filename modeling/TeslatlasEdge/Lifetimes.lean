/-
Module: TeslatlasEdge.Lifetimes
Purpose: Why a record is no longer pending.  In every run under one configuration, a gap file and a
  counted expiration stand for a sequence only if its record was past its deadline, was accepted, or
  could not be read back; so a record that is none of these keeps its file.
Trusted boundary: none
Main exports: StoredRecord.Intact, Gone, Disk.Explained, Machine.ExplainedSince, stable_explained,
  OneConfig, World.Explained, Reach.explained, World.Explained.keeps
-/
import TeslatlasEdge.Ledger
import TeslatlasEdge.Spool.Deadlines
import TeslatlasEdge.Spool.Expiry

namespace TeslatlasEdge

open Lib
open Section

/-! ### Reasons -/

/-- What was written for the record parses, and its file held just that wherever it stood. -/
structure StoredRecord.Intact (inner : Inner) (timeline : List Disk) (s : Nat)
    (record : StoredRecord Str) : Prop where
  parses : record.Parses inner.host
  undamaged : ∀ d ∈ timeline, ∀ body,
    d.read (.pending (pendingFileName s record.recordId)) = some body →
    body = inner.key.encrypt (.record record)

/-- What is intact in the end was intact before. -/
theorem StoredRecord.Intact.back {inner : Inner} {older newer : List Disk} {s : Nat}
    {record : StoredRecord Str} (intact : record.Intact inner newer s) (later : older <:+ newer) :
    record.Intact inner older s :=
  ⟨intact.parses, fun d inside => intact.undamaged d (later.mem inside)⟩

/-- The record of the sequence may have left `pending`: its deadline is before `latest`, a receipt
accepted it, or its file did not read back. -/
def Gone (inner : Inner) (latest : I64) (timeline : List Disk) (s : Nat) : Prop :=
  ∃ record, Admitted inner.key timeline s record ∧
    (record.expiresAtMs.val < latest.val ∨ AcceptedBy inner.key inner.host timeline s record ∨
      ¬ record.Intact inner timeline s)

/-- A reason that was given once is one for good. -/
theorem Gone.mono {inner : Inner} {latest : I64} {older newer : List Disk} {s : Nat}
    (gone : Gone inner latest older s) (later : older <:+ newer) : Gone inner latest newer s := by
  obtain ⟨record, admitted, reason⟩ := gone
  exact ⟨record, admitted.mono later, reason.imp_right (Or.imp (·.mono later) fun spoilt intact =>
    spoilt (intact.back later))⟩

/-- A gap file has a reason, and so has each expiration the sequence file counts. -/
def Explains (inner : Inner) (gone : Nat → Prop) : Path → Blob → Prop
  | .gap _, body => ∀ notice, body = inner.key.encrypt (.gap notice) → gone notice.spoolSeq
  | .sequence, body => ∀ sequence, body = inner.key.encrypt (.sequence sequence) →
      ∀ s identity, sequence.countedPendingExpirations.get? s = some identity → gone s
  | .pending _, _ | .receipt _, _ => True

theorem Explains.mono {inner : Inner} {gone gone' : Nat → Prop} {path : Path} {body : Blob}
    (explains : Explains inner gone path body) (weaker : ∀ s, gone s → gone' s) :
    Explains inner gone' path body := by
  cases path with
  | gap name => exact fun notice same => weaker _ (explains notice same)
  | sequence =>
      exact fun sequence same s identity held => weaker s (explains sequence same s identity held)
  | pending | receipt => trivial

/-- Every gap and every counted expiration on the disk has a reason. -/
def Disk.Explained (inner : Inner) (gone : Nat → Prop) (d : Disk) : Prop :=
  ∀ path body, d.read path = some body → Explains inner gone path body

theorem Disk.Explained.mono {inner : Inner} {gone gone' : Nat → Prop} {d : Disk}
    (explained : d.Explained inner gone) (weaker : ∀ s, gone s → gone' s) :
    d.Explained inner gone' :=
  fun path body found => (explained path body found).mono weaker

/-! ### What sections leave -/

/-- Since the disks of `base`, gaps and counts have come about only for reasons known then. -/
structure Machine.ExplainedSince (inner : Inner) (latest : I64) (base : List Disk) (m : Machine) :
    Prop where
  later : base <:+ m.timeline
  disks : ∀ d older, d :: older <:+ m.timeline → base <:+ d :: older →
    d.Explained inner (Gone inner latest base)
  counted : ∀ s identity, m.state.countedPendingExpirations.get? s = some identity →
    Gone inner latest base s

section

variable {inner : Inner} {latest : I64} {base : List Disk} {m m' : Machine}

namespace Machine.ExplainedSince

/-- The last disk is explained. -/
theorem current (explained : m.ExplainedSince inner latest base) :
    m.disk.Explained inner (Gone inner latest base) :=
  explained.disks m.disk m.history (List.suffix_refl _) explained.later

/-- Nothing on the disks has changed, and nothing without a reason is counted. -/
theorem of_same (explained : m.ExplainedSince inner latest base) (timeline : m'.timeline = m.timeline)
    (counted : CountsWithin (Gone inner latest base) m'.state.countedPendingExpirations
      m.state.countedPendingExpirations) : m'.ExplainedSince inner latest base := by
  refine ⟨by rw [timeline]; exact explained.later, by rw [timeline]; exact explained.disks, ?_⟩
  intro s identity held
  exact (counted s identity held).elim (explained.counted s identity) id

/-- There is one more disk, with files that were there or are explained. -/
theorem next (explained : m.ExplainedSince inner latest base)
    (history : m'.history = m.disk :: m.history) (state : m'.state = m.state)
    (files : ∀ path body, m'.disk.read path = some body →
      m.disk.read path = some body ∨ Explains inner (Gone inner latest base) path body) :
    m'.ExplainedSince inner latest base := by
  have later : base <:+ m'.timeline := by
    rw [Machine.timeline, history]
    exact explained.later.trans (List.suffix_cons _ _)
  refine ⟨later, fun d older within since => ?_, by rw [state]; exact explained.counted⟩
  rw [Machine.timeline, history] at within
  rcases List.suffix_cons_iff.mp within with here | before
  · obtain ⟨rfl, -⟩ := List.cons.inj here
    intro path body found
    exact (files path body found).elim (explained.current path body) id
  · exact explained.disks d older before since

end Machine.ExplainedSince

/-- Reasons are kept as long as gaps are written, and expirations counted, for reasons. -/
theorem stable_explained : Stable inner (Explains inner (Gone inner latest base))
    (Gone inner latest base) (Machine.ExplainedSince inner latest base) where
  counters sequence explained within := by
    rintro other same s identity held
    simp only [EncryptionKey.encrypt, Blob.encrypted.injEq, Plain.sequence.injEq, true_and] at same
    rw [← same] at held
    exact (within s identity held).elim (explained.counted s identity) id
  saved explained found := explained.current .sequence _ found _ rfl
  shed explained same fuller := explained.of_same same fuller.counted
  place {m path body} explained allowed := by
    refine explained.next rfl rfl fun other content found => ?_
    have read := Disk.read_put m.disk body path other
    rw [show (m.disk.put body path).read other = some content from found] at read
    split at read
    · obtain rfl := Option.some.inj read
      rename_i here
      rw [here]
      exact .inr allowed
    · exact .inl read.symm
  orphan body explained := explained.next rfl rfl fun path content found => .inl (by
    cases path <;> exact found)
  discard {m} path explained := by
    by_cases present : (m.disk.read path).isSome = true
    · refine explained.next (by simp only [Machine.discard, present, if_true])
        (m.discard_state path) fun other body found => ?_
      have read := m.discard_read path other
      rw [found] at read
      split at read
      · cases read
      · exact .inl read.symm
    · have same : m.discard path = m := if_neg present
      rwa [same]
  setAside {m path body} explained _ _ := by
    refine explained.next rfl rfl fun other content found => ?_
    have read := m.setAside_read path other body
    rw [found] at read
    split at read
    · cases read
    · exact .inl read.symm
  rename {m name canonical body} explained _ := by
    refine explained.next rfl rfl fun other content found => ?_
    change ((m.disk.remove (.pending name)).put body (.pending canonical)).read _ = _ at found
    simp only [Disk.read_put, Disk.read_remove] at found
    split at found
    · rename_i here
      rw [here]
      exact .inr trivial
    · split at found
      · cases found
      · exact .inl found
  mark explained := explained.next rfl rfl fun path body found => .inl (by
    cases path <;> exact found)
  recordGap _ _ _ explained _ _ := explained.of_same rfl (.refl _)
  admitEntry _ explained _ _ := explained.of_same rfl (.refl _)
  retain _ explained := explained.of_same rfl (.refl _)

/-- A gap may be written for a sequence with a reason. -/
theorem gapAllowed_explains {gone : Nat → Prop} {s : Nat} (reason : gone s) :
    GapAllowed inner (Explains inner gone) s := by
  rintro notice rfl other same
  simp only [EncryptionKey.encrypt, Blob.encrypted.injEq, Plain.gap.injEq, true_and] at same
  rwa [← same]

/-! ### Disks over time -/

/-- Every disk is explained by what was known when it came about. -/
def AlwaysExplained (inner : Inner) (latest : I64) (timeline : List Disk) : Prop :=
  ∀ d older, d :: older <:+ timeline → d.Explained inner (Gone inner latest (d :: older))

/-- The disks are explained over time, and the state counts nothing without a reason. -/
structure Machine.Explained (inner : Inner) (latest : I64) (m : Machine) : Prop where
  always : AlwaysExplained inner latest m.timeline
  counted : ∀ s identity, m.state.countedPendingExpirations.get? s = some identity →
    Gone inner latest m.timeline s

/-- What is explained is explained since now. -/
theorem Machine.Explained.since (explained : m.Explained inner latest) :
    m.ExplainedSince inner latest m.timeline := by
  refine ⟨List.suffix_refl _, fun d older within since => ?_, explained.counted⟩
  have here := explained.always d older within
  rwa [within.eq_of_length_le since.length_le] at here

/-- What has been explained since some disks is explained if they were. -/
theorem Machine.ExplainedSince.explained (since : m.ExplainedSince inner latest base)
    (before : AlwaysExplained inner latest base) : m.Explained inner latest := by
  refine ⟨fun d older within => ?_, fun s identity held =>
    (since.counted s identity held).mono since.later⟩
  rcases List.suffix_or_suffix_of_suffix since.later within with later | earlier
  · exact (since.disks d older within later).mono fun s gone => gone.mono later
  · exact before d older earlier

/-! ### Calls -/

variable {offered : Nat → Envelope → Prop} {since : List Disk}

/-- A held entry whose file does not read back has a reason to go. -/
theorem Sound.gone_of_spoiled (sound : Sound inner.key inner.host offered since m)
    (explained : m.Explained inner latest) {entry : Entry} (spoiled : SpoiledEntry inner m entry) :
    Gone inner latest m.timeline entry.spoolSeq := by
  obtain ⟨record, admitted, legacy, stable⟩ := sound.backed.entry entry spoiled.held
  by_cases intact : record.Intact inner m.timeline entry.spoolSeq
  · have path := spoiled.pathed.entries entry spoiled.held
    rw [← legacy] at path
    cases found : m.disk.read entry.path with
    | some body =>
        rw [path] at found
        have written := intact.undamaged m.disk List.mem_cons_self body found
        have read := intact.parses.decodeEntry (sound.lawful.legible _ _ admitted) legacy stable
          admitted.1
        rw [← written, ← found, ← path] at read
        exact absurd read (spoiled.damaged _)
    | none =>
        rcases sound.lawful.custody _ _ admitted with ⟨body, stands⟩ | ⟨noticeId, body, stands⟩ |
          accepted
        · rw [path, stands] at found
          cases found
        · obtain ⟨notice, ⟨other, -, admitted', -⟩, named, content⟩ := sound.lawful.gap _ body stands
          have same := (gapFileName_injective (sound.lawful.origin _ _ admitted).2.1.le
            (sound.lawful.origin _ _ admitted').2.1.le named).1
          rw [same]
          exact explained.always _ _ (List.suffix_refl _) _ body stands notice content
        · exact ⟨record, admitted, .inr (.inl accepted)⟩
  · exact ⟨record, admitted, .inr (.inr intact)⟩

/-- An entry that is due has a reason to go. -/
theorem Machine.Explained.gone_of_due (explained : m.Explained inner latest)
    (dated : m.Dated inner.key) (keyed : m.state.Keyed) {nowMs : I64} (timely : nowMs.val ≤ latest.val)
    {entry : Entry} (due : entry ∈ dueEntries m.state nowMs) :
    Gone inner latest m.timeline entry.spoolSeq := by
  obtain ⟨held, late | counted⟩ := (mem_dueEntries keyed).mp due
  · obtain ⟨record, admitted, same⟩ := dated entry held
    exact ⟨record, admitted, .inl (by rw [same]; omega)⟩
  · obtain ⟨identity, found⟩ := OrdMap.contains_iff.mp counted
    exact explained.counted _ identity found

/-- In a call that runs alone, gaps and counts come about for reasons. -/
theorem Sound.explained_call (request : Request)
    (sound : Sound inner.key inner.host offered since m) (ready : Ready inner.key m)
    (dated : m.Dated inner.key) (explained : m.Explained inner latest)
    (timely : ∀ nowMs, request.nowMs? = some nowMs → nowMs.val ≤ latest.val)
    (distinct : DistinctNotices inner.host offered) :
    Post (request.call inner).run m (fun _ m' => m'.Explained inner latest)
      (fun _ m' => m'.Explained inner latest) := by
  refine Call.run_invariant (C := Traced inner m request) (I := Machine.Explained inner latest)
    (Call.Steps.mono request.sections fun label act is m₁ traced explained₁ => ?_)
    (request.along_traced ready.keyed ready.numbered ready.pathed) explained
  have may : label.Allowed inner (Explains inner (Gone inner latest m₁.timeline))
      (Gone inner latest m₁.timeline) m₁ := by
    cases label with
    | enqueue => exact fun _ => trivial
    | expire nowMs =>
        obtain ⟨rfl, asked⟩ := traced
        intro entry due
        have gone := explained.gone_of_due dated ready.keyed (timely nowMs asked) due
        exact ⟨gapAllowed_explains gone, gone⟩
    | quarantine entry =>
        obtain ⟨spoiled, chain⟩ := traced
        have sound₁ := chain.offering.sound distinct sound
        exact gapAllowed_explains (sound₁.gone_of_spoiled explained₁ spoiled)
    | _ => trivial
  exact (stable_explained.keeps_sectionOf is may explained₁.since).explained explained₁.always

/-! ### Opening -/

/-- What keeps the reasons since any disks keeps them. -/
theorem Machine.Explained.loads {α : Type} {s : Section α} (explained : m.Explained inner latest)
    (loads : ∀ base, Loads (Machine.ExplainedSince inner latest base) s) :
    Post s m (fun _ m' => m'.Explained inner latest) (fun _ m' => m'.Explained inner latest) :=
  (loads m.timeline m explained.since).mono (fun _ _ kept => kept.explained explained.always)
    fun _ _ kept => kept.2.explained explained.always

/-- A pending file that `recover` finds damaged has a reason to go. -/
theorem AlwaysLawful.gone_of_damaged
    (always : AlwaysLawful inner.key inner.host offered since m.timeline)
    {file : NamedBlob} (listed : file ∈ m.disk.pending.entries)
    (damaged : decodePending inner file = .ok none) {s : Nat} {recordId : RecordId}
    (named : parseV2PendingFileName file.1 = some (s, recordId)) :
    Gone inner latest m.timeline s := by
  have law := always.laws m.disk m.history (List.suffix_refl _)
  have stands : m.disk.read (.pending file.1) = some file.2 := mem_entries_iff.mp listed
  obtain ⟨t, record, admitted, name, -⟩ := law.pending _ _ stands
  have range := law.origin _ _ admitted
  rw [name, parseV2PendingFileName_pendingFileName range.1 range.2.1.le] at named
  obtain ⟨rfl, -⟩ := Prod.mk.inj (Option.some.inj named)
  refine ⟨record, admitted, .inr (.inr fun intact => ?_)⟩
  obtain ⟨fileName, body⟩ := file
  simp only at name stands
  subst name
  have written := intact.undamaged m.disk List.mem_cons_self body stands
  rw [written] at damaged
  exact intact.parses.decodePending (law.legible _ _ admitted) t damaged

/-- Recovery keeps the reasons. -/
theorem post_recover_explained {nowMs : I64} (explained : m.Explained inner latest)
    (timely : nowMs.val ≤ latest.val) (distinct : DistinctNotices inner.host offered)
    (always : AlwaysLawful inner.key inner.host offered since m.timeline)
    (blank : m.state.entries = .empty ∧ m.state.gaps = .empty ∧ m.state.receipts = .empty) :
    Post (recover inner nowMs) m (fun _ m' => m'.Explained inner latest)
      (fun _ m' => m'.Explained inner latest) := by
  have may : ∀ file ∈ m.disk.pending.entries,
      FileAllowed inner (Explains inner (Gone inner latest m.timeline)) file := fun file listed =>
    ⟨fun damaged s recordId named => gapAllowed_explains (always.gone_of_damaged listed damaged named),
      fun _ _ _ _ => trivial⟩
  rw [recover]
  refine (((stable_explained.post_recoverFiles_keeps explained.since may).and
    ((post_recoverFiles LoadSteps.trivial distinct always trivial blank).mono
      (fun _ _ facts => facts) fun _ _ _ => trivial)).mono (fun _ _ facts => facts)
        fun _ _ failed => failed.1.2.explained explained.always).bind ?_
  rintro _ m₁ ⟨kept, recovered⟩
  have explained₁ := kept.explained explained.always
  obtain ⟨-, keyed, numbered, -⟩ := recovered.ready
  have persisted := (explained₁.loads fun base =>
    (@stable_explained inner latest base).keeps_persistCurrentSequenceState.loads).and
      (@post_persistCurrentSequenceState inner noOffers m₁)
  refine (persisted.mono (fun _ _ facts => facts) fun _ _ failed => failed.1).bind ?_
  rintro _ m₂ ⟨explained₂, chain, -⟩
  have dated := chain.dated recovered.dated
  have expired := stable_explained.post_expireDueLocked_keeps explained₂.since fun entry due =>
    have gone := explained₂.gone_of_due dated (chain.keyed keyed) timely due
    ⟨gapAllowed_explains gone, gone⟩
  refine (expired.mono (fun _ _ kept => kept.explained explained₂.always)
    fun _ _ failed => failed.2.explained explained₂.always).bind ?_
  intro _ m₃ explained₃
  exact explained₃.loads fun base =>
    (@stable_explained inner latest base).keeps_pruneReceipts.loads

/-- Opening keeps the reasons, and a spool that opens has the deadlines of its files. -/
theorem post_openSpool_explained {lockHeld : Bool} {nowMs : I64}
    (explained : m.Explained inner latest) (timely : nowMs.val ≤ latest.val)
    (distinct : DistinctNotices inner.host offered)
    (always : AlwaysLawful inner.key inner.host offered since m.timeline) (blank : m.state = .initial) :
    Post (openSpool inner lockHeld nowMs) m
      (fun _ m' => m'.Explained inner latest ∧ m'.Dated inner.key)
      (fun _ m' => m'.Explained inner latest) := by
  have checked : ∀ m', m.Checked m' → m'.timeline = m.timeline ∧ m'.Explained inner latest ∧
      m'.state.entries = .empty ∧ m'.state.gaps = .empty ∧ m'.state.receipts = .empty := by
    rintro m' (rfl | rfl)
    · exact ⟨rfl, explained, by rw [blank]; exact ⟨rfl, rfl, rfl⟩⟩
    · refine ⟨rfl, ⟨explained.always, explained.counted⟩, ?_⟩
      simp only [Machine.update, blank]
      exact ⟨rfl, rfl, rfl⟩
  refine post_openSpool_recovering (fun _ m' before => (checked m' before).2.1) (fun m' before => ?_)
    (fun m' (kept : m'.Explained inner latest ∧ m'.Dated inner.key) => kept) fun m' kept => ?_
  · obtain ⟨same, explained', empty⟩ := checked m' before
    rw [← same] at always
    refine ((post_recover_explained explained' timely distinct always empty).and
      (post_recover LoadSteps.trivial distinct always trivial empty)).mono ?_
      fun _ _ failed => failed.1
    rintro _ m₁ ⟨explained₁, -, m₀, recovered, chain, -⟩
    exact ⟨explained₁, chain.dated recovered.dated⟩
  · refine ((kept.1.loads fun base =>
      (@stable_explained inner latest base).loads_writeCurrentSpoolFormatMarker).and
        post_writeCurrentSpoolFormatMarker).mono ?_ fun _ _ failed => failed.1
    rintro _ m₁ ⟨explained₁, state, -, later, -⟩
    refine ⟨explained₁, kept.2.kept ?_ fun entry held => by rwa [state] at held⟩
    rw [later]
    exact List.suffix_cons _ _

end

/-! ### Runs -/

/-- The spool is opened with one configuration and key, at times up to `latest`, and files are damaged
so that the key no longer opens them. -/
def OneConfig (inner : Inner) (latest : I64) (_ : World) : Move → Prop
  | .openSpool opened nowMs _ => opened = inner ∧ nowMs.val ≤ latest.val
  | .call request _ => ∀ nowMs, request.nowMs? = some nowMs → nowMs.val ≤ latest.val
  | .damage _ body | .damageReceipt _ body => Unreadable inner.key inner.host body
  | .drop | .relist => True

theorem OneConfig.underKey {inner : Inner} {latest : I64} {w : World} {move : Move}
    (may : OneConfig inner latest w move) : UnderKey inner.key inner.host w move := by
  cases move with
  | openSpool =>
      obtain ⟨rfl, -⟩ := may
      exact ⟨rfl, rfl⟩
  | damage | damageReceipt => exact may
  | call | drop | relist => trivial

/-- Gaps and counted expirations have come about for reasons, and entries have the deadlines of their
records. -/
structure World.Explained (inner : Inner) (latest : I64) (w : World) : Prop where
  always : AlwaysExplained inner latest w.timeline
  running : ∀ process, w.process = some process → process.inner = inner ∧
    ∀ faults, (w.machine process faults).Explained inner latest ∧
      (w.machine process faults).Dated inner.key

section

variable {inner : Inner} {latest : I64} {w w' : World}

theorem explained_fresh : World.fresh.Explained inner latest := by
  refine ⟨fun d older within path body found => ?_, fun process running => by cases running⟩
  rcases List.suffix_cons_iff.mp within with here | before
  · obtain ⟨rfl, -⟩ := List.cons.inj here
    cases path <;> cases found
  · exact absurd before (by simp [World.fresh])

/-- A machine goes on as the process of a world. -/
theorem Machine.Explained.world {m : Machine} {log : List Event} (explained : m.Explained inner latest)
    (dated : m.Dated inner.key) : (m.running inner log).Explained inner latest := by
  refine ⟨explained.always, fun process running => ?_⟩
  obtain rfl := Option.some.inj running
  exact ⟨rfl, fun _ => ⟨⟨explained.always, explained.counted⟩, dated⟩⟩

/-- A world without a process, on a disk the machine went through. -/
theorem Machine.Explained.stopped {m : Machine} {start older : List Disk} {d : Disk}
    {log : List Event} (explained : m.Explained inner latest) (stopped : StoppedAt start m d older) :
    World.Explained inner latest ⟨d, older, log, none⟩ :=
  ⟨fun e past within => explained.always e past (within.trans stopped.reached),
    fun process running => by cases running⟩

/-- One more disk on which no gap and no count is new. -/
theorem World.Explained.cons (explained : w.Explained inner latest) {d : Disk}
    (files : ∀ path body, d.read path = some body →
      w.disk.read path = some body ∨ ∀ gone, Explains inner gone path body) :
    World.Explained inner latest { w with disk := d, past := w.disk :: w.past } := by
  have later : w.timeline <:+ d :: w.timeline := List.suffix_cons _ _
  have always : AlwaysExplained inner latest (d :: w.timeline) := by
    intro e older within
    rcases List.suffix_cons_iff.mp within with here | before
    · obtain ⟨rfl, rfl⟩ := List.cons.inj here
      intro path body found
      rcases files path body found with before | explains
      · exact (explained.always _ _ (List.suffix_refl _) path body before).mono fun s gone =>
          gone.mono later
      · exact explains _
    · exact explained.always e older before
  refine ⟨always, fun process running => ?_⟩
  obtain ⟨same, machine⟩ := explained.running process running
  refine ⟨same, fun faults => ⟨⟨always, fun s identity held =>
    ((machine faults).1.counted s identity held).mono later⟩, fun entry held => ?_⟩⟩
  obtain ⟨record, admitted, deadline⟩ := (machine faults).2 entry held
  exact ⟨record, admitted.mono later, deadline⟩

/-- A directory listed in another order holds the same reasons. -/
theorem World.Explained.relist (explained : w.Explained inner latest) {d : Disk}
    (same : SameFiles w.disk d) : World.Explained inner latest { w with disk := d } := by
  have reads := same.read
  have admitted : ∀ s record, Admitted inner.key (d :: w.past) s record ↔
      Admitted inner.key w.timeline s record := fun s record => by
    simp only [World.timeline, admitted_cons, reads]
  have receipted : ∀ receipt, Receipted inner.key (d :: w.past) receipt ↔
      Receipted inner.key w.timeline receipt := fun receipt => by
    simp only [World.timeline, receipted_cons, reads]
  have gone : ∀ s, Gone inner latest w.timeline s → Gone inner latest (d :: w.past) s := by
    rintro s ⟨record, there, reason⟩
    refine ⟨record, (admitted s record).mpr there, reason.imp_right (Or.imp ?_ fun spoilt intact => ?_)⟩
    · rintro ⟨receipt, durable, accepts⟩
      exact ⟨receipt, (receipted receipt).mpr durable, accepts⟩
    · refine spoilt ⟨intact.parses, fun e inside body found => ?_⟩
      rcases List.mem_cons.mp inside with rfl | inside
      · exact intact.undamaged d List.mem_cons_self body ((reads _).trans found)
      · exact intact.undamaged e (List.mem_cons_of_mem _ inside) body found
  have always : AlwaysExplained inner latest (d :: w.past) := by
    intro e older within
    rcases List.suffix_cons_iff.mp within with here | before
    · obtain ⟨rfl, rfl⟩ := List.cons.inj here
      intro path body found
      rw [reads] at found
      exact (explained.always _ _ (List.suffix_refl _) path body found).mono gone
    · exact explained.always e older (before.trans (List.suffix_cons _ _))
  refine ⟨always, fun process running => ?_⟩
  obtain ⟨sameInner, machine⟩ := explained.running process running
  refine ⟨sameInner, fun faults => ⟨⟨always, fun s identity held =>
    gone s ((machine faults).1.counted s identity held)⟩, fun entry held => ?_⟩⟩
  obtain ⟨record, there, deadline⟩ := (machine faults).2 entry held
  exact ⟨record, (admitted _ _).mpr there, deadline⟩

/-- Every move keeps the reasons. -/
theorem World.Explained.step {move : Move} (explained : w.Explained inner latest)
    (kept : Kept inner.key inner.host w) (may : OneConfig inner latest w move)
    (moved : Step w move w') (distinct : DistinctNotices inner.host w.Offered) :
    w'.Explained inner latest := by
  have opening : ∀ {nowMs : I64} {faults : Faults}, nowMs.val ≤ latest.val →
      Post (openSpool inner false nowMs) (w.opening faults)
        (fun _ m' => m'.Explained inner latest ∧ m'.Dated inner.key)
        (fun _ m' => m'.Explained inner latest) := fun timely =>
    post_openSpool_explained ⟨explained.always, fun s identity held => by
      cases held⟩ timely distinct kept.always rfl
  have calling : ∀ {process : Process} {request : Request} {faults : Faults},
      w.process = some process → OneConfig inner latest w (.call request faults) →
      Post (request.call inner).run (w.machine process faults)
        (fun _ m' => m'.Explained inner latest) (fun _ m' => m'.Explained inner latest) := by
    intro process request faults running may
    obtain ⟨-, -, backing⟩ := kept.running process running
    obtain ⟨sound, ready⟩ := backing faults
    obtain ⟨-, machine⟩ := explained.running process running
    exact sound.explained_call request ready (machine faults).2 (machine faults).1 may distinct
  cases moved with
  | opened closed ran =>
      obtain ⟨same, timely⟩ := may
      rw [same] at ran ⊢
      obtain ⟨here, dated⟩ := (opening timely).of_ok ran
      exact here.world dated
  | openFailed closed ran =>
      obtain ⟨same, timely⟩ := may
      rw [same] at ran
      exact ⟨((opening timely).of_error ran).always, fun process running => by cases running⟩
  | openStopped closed stopped =>
      obtain ⟨same, timely⟩ := may
      rw [same] at stopped
      exact (((opening timely).mono (fun _ _ facts => facts.1) fun _ _ here => here).final
        (I := Machine.Explained inner latest)).stopped stopped
  | openRefused running ran =>
      rw [openSpool_locked ran]
      exact explained
  | @returned request faults process running =>
      obtain ⟨same, machine⟩ := explained.running process running
      have here := (calling running may).final (I := Machine.Explained inner latest)
      obtain ⟨-, -, backing⟩ := kept.running process running
      have chain := ((@Request.post_chain inner (fun _ _ => True) _ request (backing faults).2
        (same ▸ kept.configured process running) fun _ _ _ => trivial).mono
        (fun _ _ facts => facts.1) fun _ _ facts => facts.1).final
        (I := fun m' : Machine => Chain inner (fun _ _ => True) (w.machine process faults) m')
      rw [World.serve, same]
      exact here.world (chain.dated (machine faults).2)
  | callStopped running stopped =>
      rw [World.serve, (explained.running _ running).1] at stopped
      exact ((calling running may).final (I := Machine.Explained inner latest)).stopped stopped
  | dropped running => exact ⟨explained.always, fun process running => by cases running⟩
  | @damaged name body old present =>
      refine explained.cons fun path content found => ?_
      have read := Disk.read_put w.disk body (.pending name) path
      rw [show (w.disk.put body (.pending name)).read path = some content from found] at read
      split at read
      · rename_i here
        rw [here]
        exact .inr fun _ => trivial
      · exact .inl read.symm
  | @receiptDamaged name body old closed present =>
      refine explained.cons fun path content found => ?_
      have read := Disk.read_put w.disk body (.receipt name) path
      rw [show (w.disk.put body (.receipt name)).read path = some content from found] at read
      split at read
      · rename_i here
        rw [here]
        exact .inr fun _ => trivial
      · exact .inl read.symm
  | relisted same => exact explained.relist same

/-- So it is in every run under one configuration. -/
theorem Reach.explained (reach : Reach (OneConfig inner latest) w)
    (distinct : DistinctNotices inner.host w.Offered) : w.Explained inner latest := by
  induction reach with
  | start => exact explained_fresh
  | step before may moved ih =>
      have earlier := distinct.offering moved.offered
      have kept := (before.mono fun _ _ may => may.underKey).kept earlier
      exact (ih earlier).step kept may moved earlier

/-- A record that has not reached its deadline and is intact is pending or has been accepted. -/
theorem World.Explained.keeps (explained : w.Explained inner latest)
    (kept : Kept inner.key inner.host w) {s : Nat} {record : StoredRecord Str}
    (admitted : Admitted inner.key w.timeline s record)
    (unexpired : latest.val ≤ record.expiresAtMs.val) (intact : record.Intact inner w.timeline s) :
    w.disk.read (.pending (pendingFileName s record.recordId)) =
        some (inner.key.encrypt (.record record)) ∨
      AcceptedBy inner.key inner.host w.timeline s record := by
  have law := kept.always.laws _ _ (List.suffix_refl _)
  rcases law.custody _ _ admitted with ⟨body, stands⟩ | ⟨noticeId, body, stands⟩ | accepted
  · rw [stands, intact.undamaged _ List.mem_cons_self body stands]
    exact .inl rfl
  · obtain ⟨notice, ⟨other, -, admitted', -⟩, named, content⟩ := law.gap _ body stands
    have same := (gapFileName_injective (law.origin _ _ admitted).2.1.le
      (law.origin _ _ admitted').2.1.le named).1
    obtain ⟨other, there, reason⟩ :=
      explained.always _ _ (List.suffix_refl _) _ body stands notice content
    rw [← same] at there reason
    obtain rfl := law.once _ _ _ admitted there
    rcases reason with late | accepted | spoilt
    · omega
    · exact .inr accepted
    · exact absurd intact spoilt
  · exact .inr accepted

end

end TeslatlasEdge
