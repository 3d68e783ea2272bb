/-
Module: TeslatlasEdge.Services.Status
Purpose: What a running edge tells of itself: the snapshot of the spool, the health response of
  `health.rs` and the counters and metrics page of `metrics.rs`; and that the page can be read back.
Trusted boundary: the definitions up to `Metrics.render` are a human-reviewed embedding
Main exports: SpoolSnapshot, snapshot, HealthResponse, Counter, Metrics, Metrics.render, scrape,
  scrape_render
-/
import TeslatlasEdge.Spool.Calls

namespace TeslatlasEdge

open Lib

/-! ### The snapshot -/

structure SpoolSnapshot where
  pendingRecords : Nat
  pendingBytes : Nat
  corruptRecords : Nat
  expiredRecords : Nat
  pendingGapNotices : Nat
  pendingGapBytes : Nat
  oldestAgeSeconds : Nat
  capacityExhausted : Bool
  degraded : Bool
deriving DecidableEq

/-- `i64::saturating_sub`. -/
def I64.saturatingSub (a : I64) (b : Int) : Int := (I64.clamp (a.val - b)).val

/-- Whole seconds since the earliest admission, none for an empty queue or a clock behind it. -/
def oldestAgeSeconds (entries : List Entry) (nowMs : I64) : Nat :=
  match (entries.map fun entry => entry.admittedAtMs.val).min? with
  | none => 0
  | some oldest => (max (I64.saturatingSub nowMs oldest) 0 / 1000).toNat

def capacityExhausted (config : SpoolConfig) (state : State) : Bool :=
  saturatingAdd state.entries.size state.gaps.size ≥ config.maxRecords ||
    state.pendingBytes ≥ config.maxBytes || state.pendingGapBytes ≥ config.maxBytes

/-- `Spool::snapshot`. -/
def snapshot (inner : Inner) (state : State) (storageWriteFailed : Bool) (nowMs : I64) :
    SpoolSnapshot :=
  { pendingRecords := state.entries.size
    pendingBytes := state.pendingBytes
    corruptRecords := state.corruptRecords
    expiredRecords := state.expiredRecords
    pendingGapNotices := saturatingAdd state.gaps.size state.countedPendingExpirations.size
    pendingGapBytes := state.pendingGapBytes
    oldestAgeSeconds := oldestAgeSeconds state.entries.values nowMs
    capacityExhausted := capacityExhausted inner.config state
    degraded := state.corruptRecords > 0 || ! state.gaps.isEmpty ||
      ! state.countedPendingExpirations.isEmpty || state.unresolvedIntegrity ||
      storageWriteFailed || capacityExhausted inner.config state }

/-! ### Health -/

structure HealthResponse where
  status : Str
  records : Nat
  bytes : Nat
  oldestAgeSeconds : Nat
  corruptRecords : Nat
  expiredRecords : Nat
  pendingGapNotices : Nat
  capacityExhausted : Bool
deriving DecidableEq

def HealthResponse.fromSnapshot (snapshot : SpoolSnapshot) : HealthResponse :=
  { status := if snapshot.degraded then "degraded".toList else "ok".toList
    records := snapshot.pendingRecords
    bytes := snapshot.pendingBytes
    oldestAgeSeconds := snapshot.oldestAgeSeconds
    corruptRecords := snapshot.corruptRecords
    expiredRecords := snapshot.expiredRecords
    pendingGapNotices := snapshot.pendingGapNotices
    capacityExhausted := snapshot.capacityExhausted }

def HealthResponse.toJson {φ : Type} (health : HealthResponse) : Json φ :=
  .obj [("status".toList, .str health.status),
    ("queue".toList, .obj [("records".toList, .int health.records),
      ("bytes".toList, .int health.bytes),
      ("oldest_age_seconds".toList, .int health.oldestAgeSeconds)]),
    ("corrupt_records".toList, .int health.corruptRecords),
    ("expired_records".toList, .int health.expiredRecords),
    ("pending_gap_notices".toList, .int health.pendingGapNotices),
    ("capacity_exhausted".toList, .bool health.capacityExhausted)]

/-! ### Counters -/

/-- What the receiver counts. -/
inductive Counter where
  | admitted
  | duplicates
  | rejectedAuth
  | rejectedInvalid
  | rejectedCapacity
  | rejectedStorage
  | rejectedInternal
deriving Repr, DecidableEq

/-- The counters wrap around as `AtomicU64` does. -/
structure Metrics where
  admitted : UInt64
  duplicates : UInt64
  rejectedAuth : UInt64
  rejectedInvalid : UInt64
  rejectedCapacity : UInt64
  rejectedStorage : UInt64
  rejectedInternal : UInt64
deriving DecidableEq

namespace Metrics

/-- `Metrics::default`. -/
def zero : Metrics := ⟨0, 0, 0, 0, 0, 0, 0⟩

/-- The seven functions that increment a counter. -/
def count (metrics : Metrics) : Counter → Metrics
  | .admitted => { metrics with admitted := metrics.admitted + 1 }
  | .duplicates => { metrics with duplicates := metrics.duplicates + 1 }
  | .rejectedAuth => { metrics with rejectedAuth := metrics.rejectedAuth + 1 }
  | .rejectedInvalid => { metrics with rejectedInvalid := metrics.rejectedInvalid + 1 }
  | .rejectedCapacity => { metrics with rejectedCapacity := metrics.rejectedCapacity + 1 }
  | .rejectedStorage => { metrics with rejectedStorage := metrics.rejectedStorage + 1 }
  | .rejectedInternal => { metrics with rejectedInternal := metrics.rejectedInternal + 1 }

/-- Count a response, if it is one that is counted. -/
def note (metrics : Metrics) : Option Counter → Metrics
  | some counter => metrics.count counter
  | none => metrics

def value (metrics : Metrics) : Counter → UInt64
  | .admitted => metrics.admitted
  | .duplicates => metrics.duplicates
  | .rejectedAuth => metrics.rejectedAuth
  | .rejectedInvalid => metrics.rejectedInvalid
  | .rejectedCapacity => metrics.rejectedCapacity
  | .rejectedStorage => metrics.rejectedStorage
  | .rejectedInternal => metrics.rejectedInternal

@[simp] theorem value_zero (counter : Counter) : zero.value counter = 0 := by
  cases counter <;> rfl

/-- Counting moves one counter. -/
theorem value_count (metrics : Metrics) (counter other : Counter) :
    (metrics.count counter).value other =
      metrics.value other + if other = counter then 1 else 0 := by
  cases counter <;> cases other <;> simp [count, value]

end Metrics

/-! ### The metrics page -/

/-- One metric with its type line. -/
structure Sample where
  name : Str
  kind : Str
  value : Nat
deriving DecidableEq

/-- `typed_metric`. -/
def typedMetric (sample : Sample) : Str :=
  "# TYPE ".toList ++ sample.name ++ ' ' :: sample.kind ++ '\n' ::
    (sample.name ++ ' ' :: Nat.toDigits 10 sample.value ++ ['\n'])

def gauge (name : String) (value : Nat) : Sample := ⟨name.toList, "gauge".toList, value⟩

def counter (name : String) (value : Nat) : Sample := ⟨name.toList, "counter".toList, value⟩

namespace Metrics

/-- The metrics of the page in order. -/
def samples (metrics : Metrics) (spool : SpoolSnapshot) : List Sample :=
  [gauge "teslatlas_edge_build_info" 1,
    gauge "teslatlas_edge_spool_records" spool.pendingRecords,
    gauge "teslatlas_edge_spool_bytes" spool.pendingBytes,
    gauge "teslatlas_edge_spool_oldest_age_seconds" spool.oldestAgeSeconds,
    gauge "teslatlas_edge_spool_corrupt_records" spool.corruptRecords,
    counter "teslatlas_edge_spool_expired_records_total" spool.expiredRecords,
    gauge "teslatlas_edge_spool_gap_notices" spool.pendingGapNotices,
    gauge "teslatlas_edge_spool_gap_bytes" spool.pendingGapBytes,
    counter "teslatlas_edge_receiver_admitted_total" metrics.admitted.toNat,
    counter "teslatlas_edge_receiver_duplicates_total" metrics.duplicates.toNat,
    counter "teslatlas_edge_receiver_rejected_auth_total" metrics.rejectedAuth.toNat,
    counter "teslatlas_edge_receiver_rejected_invalid_total" metrics.rejectedInvalid.toNat,
    counter "teslatlas_edge_receiver_rejected_capacity_total" metrics.rejectedCapacity.toNat,
    counter "teslatlas_edge_receiver_rejected_storage_total" metrics.rejectedStorage.toNat,
    counter "teslatlas_edge_receiver_rejected_internal_total" metrics.rejectedInternal.toNat]

def render (metrics : Metrics) (spool : SpoolSnapshot) : Str :=
  (metrics.samples spool).flatMap typedMetric

end Metrics

/-! ### Reading the page back -/

/-- A decimal number without sign or padding. -/
def readDecimal (text : Str) : Option Nat :=
  if text ≠ [] ∧ text.all Char.isDigit then some (Nat.ofDigitChars 10 text 0) else none

/-- The two lines of one metric, and what follows them. -/
def readSample (page : Str) : Option (Sample × Str) := do
  let (typeLine, rest) ← splitOnce '\n' page
  let (valueLine, rest) ← splitOnce '\n' rest
  let declared ← dropPrefix "# TYPE ".toList typeLine
  let (name, kind) ← splitOnce ' ' declared
  let (named, text) ← splitOnce ' ' valueLine
  let value ← readDecimal text
  if named = name then some (⟨name, kind, value⟩, rest) else none

/-- What a scraper of the exposition format reads from a page, at most `fuel` metrics. -/
def scrape : Nat → Str → Option (List Sample)
  | _, [] => some []
  | 0, _ :: _ => none
  | fuel + 1, page => do
      let (sample, rest) ← readSample page
      let samples ← scrape fuel rest
      some (sample :: samples)

/-- A printed number reads back. -/
theorem readDecimal_toDigits (n : Nat) : readDecimal (Nat.toDigits 10 n) = some n := by
  have digits : (Nat.toDigits 10 n).all Char.isDigit = true := by
    rw [List.all_eq_true]
    intro c inside
    exact Nat.isDigit_of_mem_toDigits (by omega) (by omega) inside
  rw [readDecimal, if_pos ⟨Nat.toDigits_ne_nil, digits⟩, Nat.ofDigitChars_toDigits (by omega) (by omega)]

/-- A name or a kind that takes up one word. -/
def IsWord (text : Str) : Prop := ' ' ∉ text ∧ '\n' ∉ text

theorem isWord_toDigits (n : Nat) : IsWord (Nat.toDigits 10 n) := by
  have digit : ∀ c ∈ Nat.toDigits 10 n, c.isDigit = true := fun c inside =>
    Nat.isDigit_of_mem_toDigits (by omega) (by omega) inside
  constructor
  · intro inside
    exact absurd (digit _ inside) (by decide)
  · intro inside
    exact absurd (digit _ inside) (by decide)

/-- Each metric is read back with the value it was written with. -/
theorem readSample_typedMetric {sample : Sample} (name : IsWord sample.name)
    (kind : IsWord sample.kind) (rest : Str) :
    readSample (typedMetric sample ++ rest) = some (sample, rest) := by
  have value := isWord_toDigits sample.value
  have typeLine : splitOnce '\n' (typedMetric sample ++ rest) =
      some ("# TYPE ".toList ++ sample.name ++ ' ' :: sample.kind,
        sample.name ++ ' ' :: Nat.toDigits 10 sample.value ++ '\n' :: rest) := by
    rw [splitOnce_eq_some]
    constructor
    · unfold typedMetric
      generalize "# TYPE ".toList = front
      generalize Nat.toDigits 10 sample.value = digits
      simp only [List.append_assoc, List.cons_append, List.nil_append]
    · simp only [List.mem_append, List.mem_cons, not_or]
      exact ⟨⟨by decide, name.2⟩, by decide, kind.2⟩
  have valueLine : splitOnce '\n'
      (sample.name ++ ' ' :: Nat.toDigits 10 sample.value ++ '\n' :: rest) =
      some (sample.name ++ ' ' :: Nat.toDigits 10 sample.value, rest) := by
    rw [splitOnce_eq_some]
    refine ⟨rfl, ?_⟩
    simp only [List.mem_append, List.mem_cons, not_or]
    exact ⟨name.2, by decide, value.2⟩
  have declared : dropPrefix "# TYPE ".toList ("# TYPE ".toList ++ sample.name ++ ' ' :: sample.kind) =
      some (sample.name ++ ' ' :: sample.kind) := by
    rw [dropPrefix_eq_some, List.append_assoc]
  have words : ∀ text : Str, splitOnce ' ' (sample.name ++ ' ' :: text) = some (sample.name, text) :=
    fun text => splitOnce_eq_some.mpr ⟨rfl, name.1⟩
  simp only [readSample, typeLine, valueLine, declared, words, readDecimal_toDigits,
    Option.bind_eq_bind, Option.bind_some, if_true]

theorem typedMetric_ne_nil {sample : Sample} : typedMetric sample ≠ [] := by
  intro empty
  have tail := (List.append_eq_nil_iff.mp empty).2
  cases tail

/-- A page of samples reads back sample by sample. -/
theorem scrape_flatMap {samples : List Sample}
    (words : ∀ sample ∈ samples, IsWord sample.name ∧ IsWord sample.kind) :
    scrape samples.length (samples.flatMap typedMetric) = some samples := by
  induction samples with
  | nil => rfl
  | cons sample samples ih =>
      obtain ⟨name, kind⟩ := words sample List.mem_cons_self
      have rest := ih fun other inside => words other (List.mem_cons_of_mem _ inside)
      have read := readSample_typedMetric name kind (samples.flatMap typedMetric)
      rw [List.flatMap_cons, List.length_cons]
      cases page : typedMetric sample ++ samples.flatMap typedMetric with
      | nil => exact absurd (List.append_eq_nil_iff.mp page).1 typedMetric_ne_nil
      | cons c page' =>
          rw [page] at read
          simp only [scrape, read, rest, Option.bind_eq_bind, Option.bind_some]

/-- The names and kinds of the page, which do not depend on the values. -/
def pageWords : List (Str × Str) :=
  (Metrics.zero.samples (SpoolSnapshot.mk 0 0 0 0 0 0 0 false false)).map fun sample =>
    (sample.name, sample.kind)

/-- The names and kinds on the page are words. -/
theorem pageWords_plain :
    pageWords.all (fun words => ! (words.1 ++ words.2).contains ' ' &&
      ! (words.1 ++ words.2).contains '\n') = true := by
  decide +kernel

/-- A scraper reads from the page exactly the metrics it was rendered from: every one of them, in
order, each under its type and with its value. -/
theorem scrape_render (metrics : Metrics) (spool : SpoolSnapshot) :
    scrape (metrics.samples spool).length (metrics.render spool) = some (metrics.samples spool) := by
  apply scrape_flatMap
  intro sample inside
  have named := List.mem_map_of_mem (f := fun sample : Sample => (sample.name, sample.kind)) inside
  have words := List.all_eq_true.mp pageWords_plain _ named
  simp only [Bool.and_eq_true, Bool.not_eq_true', List.contains_eq_mem, decide_eq_false_iff_not,
    List.mem_append, not_or] at words
  exact ⟨⟨words.1.1, words.2.1⟩, words.1.2, words.2.2⟩

end TeslatlasEdge
