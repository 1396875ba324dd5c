import WispMQ.Status
/-!
# Exported metrics: `otel.rs`

Each statistic is an instrument of its own, and the SDK calls them one by one. What they return comes from a snapshot that
they share for half an export interval.

| here | there |
| --- | --- |
| `Series.otelName`     | `otel_name` (metrics.rs:238) |
| `SnapshotCache.value` | `SnapshotCache::value` (otel.rs:174) |
| `Callback`            | one call of it, with the two instants it reads and the snapshot it would take |
| `collect`             | the calls of one collection: each instrument's name and value (otel.rs:268-289) |

The periodic reader starts a collection every interval. As long as none takes half an interval, each of them exports one
snapshot, which was taken while it ran (`exports_consistent`).
-/

namespace WispMQ.Admin
open Machine

/-- A counter is exported without `_total`; a gauge may end in it. -/
def Series.otelName (s : Series) : String :=
  match s.kind with
  | .counter =>
    if "_total".toList <:+ s.name.toList then String.ofList (s.name.toList.take (s.name.toList.length - 6)) else s.name
  | .gauge => s.name

/-- `SnapshotCache::read` (otel.rs:170). -/
def Snapshot.values (s : Snapshot) : List Nat := s.series.map (·.value)

/-- What an export of the snapshot says. -/
def Snapshot.exported (s : Snapshot) : List (String × Nat) := s.series.map fun series => (series.otelName, series.value)

structure SnapshotCache where
  maxAge : Nat
  values : List Nat
  taken : Nat

structure Callback where
  /-- The instrument. -/
  index : Nat
  /-- When the age of the cached values is looked at, and when new ones are there. -/
  asked : Nat
  taken : Nat
  /-- The snapshot, if one is taken. -/
  snapshot : Snapshot

def SnapshotCache.value (cache : SnapshotCache) (cb : Callback) : SnapshotCache × Nat :=
  let cache :=
    if cache.maxAge ≤ cb.asked - cache.taken then { cache with values := cb.snapshot.values, taken := cb.taken } else cache
  (cache, cache.values.getD cb.index 0)

/-- The instrument under the name that it was built with observes its value. -/
def SnapshotCache.observe (names : List String) (cache : SnapshotCache) (cb : Callback) : SnapshotCache × List (String × Nat) :=
  ((cache.value cb).1, [(names.getD cb.index "", (cache.value cb).2)])

structure Collection where
  start : Nat
  callbacks : List Callback

def collect (names : List String) (cache : SnapshotCache) (c : Collection) : SnapshotCache × List (String × Nat) :=
  run (SnapshotCache.observe names) cache c.callbacks

/-- One collection after the other. -/
def exports (names : List String) : SnapshotCache → List Collection → List (List (String × Nat))
  | _, [] => []
  | cache, c :: cs => (collect names cache c).2 :: exports names (collect names cache c).1 cs

/-! ## Within a collection -/

section Cache
variable {names : List String} {cache : SnapshotCache}

/-- While the cached values are fresh they are what is observed. -/
theorem run_fresh : ∀ {cbs : List Callback}, (∀ cb ∈ cbs, cb.asked - cache.taken < cache.maxAge) →
    run (SnapshotCache.observe names) cache cbs =
      (cache, cbs.map fun cb => (names.getD cb.index "", cache.values.getD cb.index 0))
  | [], _ => rfl
  | cb :: cbs, h => by
    obtain ⟨hcb, hcbs⟩ := List.forall_mem_cons.1 h
    have hobserve : cache.observe names cb = (cache, [(names.getD cb.index "", cache.values.getD cb.index 0)]) := by
      simp only [SnapshotCache.observe, SnapshotCache.value, if_neg (Nat.not_le.2 hcb)]
    rw [run, hobserve, run_fresh hcbs]
    rfl

/-- When they are not, the first instrument takes a snapshot, and it is what all others observe, if they come in time. -/
theorem run_stale {cb : Callback} {cbs : List Callback} (hstale : cache.maxAge ≤ cb.asked - cache.taken)
    (hfresh : ∀ cb' ∈ cbs, cb'.asked - cb.taken < cache.maxAge) :
    run (SnapshotCache.observe names) cache (cb :: cbs) =
      ({ cache with values := cb.snapshot.values, taken := cb.taken },
        (cb :: cbs).map fun cb' => (names.getD cb'.index "", cb.snapshot.values.getD cb'.index 0)) := by
  have hobserve : cache.observe names cb = ({ cache with values := cb.snapshot.values, taken := cb.taken },
      [(names.getD cb.index "", cb.snapshot.values.getD cb.index 0)]) := by
    simp only [SnapshotCache.observe, SnapshotCache.value, if_pos hstale]
  rw [run, hobserve, run_fresh hfresh]
  rfl

end Cache

/-! ## Instruments -/

theorem series_kinds (s s' : Snapshot) : s.series.map (fun x => (x.name, x.kind)) = s'.series.map fun x => (x.name, x.kind) := by
  simp only [Snapshot.series, Snapshot.counters, Snapshot.packetCounters, Snapshot.gauges, List.map_append,
    List.map_flatMap, List.map_cons, List.map_nil, Series.counter, Series.gauge]

/-- The instruments built from one snapshot fit every other one. -/
theorem otelNames_eq (s s' : Snapshot) : s.series.map Series.otelName = s'.series.map Series.otelName := by
  have hname : ∀ t : Snapshot, t.series.map Series.otelName =
      (t.series.map fun x => (x.name, x.kind)).map fun p =>
        Series.otelName { name := p.1, kind := p.2, help := "", value := 0 } := by
    intro t
    rw [List.map_map]
    rfl
  rw [hname, hname, series_kinds s s']

/-- The names by their index, with the values by theirs. -/
theorem exported_eq (s : Snapshot) : (List.range s.series.length).map
    (fun i => ((s.series.map Series.otelName).getD i "", s.values.getD i 0)) = s.exported := by
  refine List.ext_getElem (by simp [Snapshot.exported]) fun i h _ => ?_
  simp only [List.length_map, List.length_range] at h
  simp [Snapshot.exported, Snapshot.values, h]

/-! ## Collections -/

/-- The collection calls each instrument once and takes less than `limit`. -/
structure Collection.InTime (c : Collection) (instruments limit : Nat) : Prop where
  indices : (c.callbacks.map (·.index)).Perm (List.range instruments)
  started : ∀ cb ∈ c.callbacks, c.start ≤ cb.asked
  ordered : ∀ cb ∈ c.callbacks, cb.asked ≤ cb.taken
  finished : ∀ cb ∈ c.callbacks, cb.taken < c.start + limit

/-- A collection that begins when the cached values are old exports one snapshot of its own. -/
theorem collect_consistent {cache : SnapshotCache} {c : Collection} {built : Snapshot} (hcb : c.callbacks ≠ [])
    (hin : c.InTime built.series.length cache.maxAge) (hold : cache.taken + cache.maxAge ≤ c.start) :
    (∃ cb ∈ c.callbacks, ((collect (built.series.map Series.otelName) cache c).2).Perm cb.snapshot.exported) ∧
      (collect (built.series.map Series.otelName) cache c).1.maxAge = cache.maxAge ∧
      (collect (built.series.map Series.otelName) cache c).1.taken < c.start + cache.maxAge := by
  obtain ⟨cb, cbs, hcbs⟩ := List.exists_cons_of_ne_nil hcb
  have hfirst : cb ∈ c.callbacks := by rw [hcbs]; exact List.mem_cons_self ..
  have hstale : cache.maxAge ≤ cb.asked - cache.taken := by
    have := hin.started cb hfirst
    omega
  have hfresh : ∀ cb' ∈ cbs, cb'.asked - cb.taken < cache.maxAge := by
    intro cb' hcb'
    have hmem : cb' ∈ c.callbacks := by rw [hcbs]; exact List.mem_cons_of_mem _ hcb'
    have h1 := hin.started cb hfirst
    have h2 := hin.ordered cb hfirst
    have h3 := hin.started cb' hmem
    have h4 := hin.ordered cb' hmem
    have h5 := hin.finished cb' hmem
    omega
  rw [collect, hcbs, run_stale hstale hfresh]
  refine ⟨⟨cb, List.mem_cons_self .., ?_⟩, rfl, hin.finished cb hfirst⟩
  have hlength : built.series.length = cb.snapshot.series.length := by
    simpa using congrArg List.length (otelNames_eq built cb.snapshot)
  have hperm := (hin.indices.map fun i =>
    ((cb.snapshot.series.map Series.otelName).getD i "", cb.snapshot.values.getD i 0))
  rw [hlength, exported_eq, hcbs, List.map_map] at hperm
  rw [otelNames_eq built cb.snapshot]
  exact hperm

/-- The collections start an interval apart, the first one half an interval after the cache was filled. -/
def Periodic (interval : Nat) : Nat → List Collection → Prop
  | _, [] => True
  | earliest, c :: cs => earliest ≤ c.start ∧ Periodic interval (c.start + interval) cs

/-- **Exports are consistent**: in a periodic export whose collections each take less than half an interval, every collection
exports exactly the series of one snapshot, and it took this snapshot itself. -/
theorem exports_consistent (interval : Nat) (built : Snapshot) (cache : SnapshotCache) (hage : cache.maxAge = interval / 2)
    (cs : List Collection) (hin : ∀ c ∈ cs, c.callbacks ≠ [] ∧ c.InTime built.series.length (interval / 2))
    (hperiodic : Periodic interval (cache.taken + interval / 2) cs) :
    List.Forall₂ (fun c out => ∃ cb ∈ c.callbacks, out.Perm cb.snapshot.exported) cs
      (exports (built.series.map Series.otelName) cache cs) := by
  induction cs generalizing cache with
  | nil => exact .nil
  | cons c cs ih =>
    obtain ⟨⟨hne, htime⟩, hrest⟩ := List.forall_mem_cons.1 hin
    rw [← hage] at htime hperiodic
    obtain ⟨hout, hage', htaken⟩ := collect_consistent hne htime hperiodic.1
    refine .cons hout (ih _ (hage'.trans hage) hrest ?_)
    rw [hage] at htaken
    cases cs with
    | nil => trivial
    | cons c' cs =>
      obtain ⟨hnext, hmore⟩ := hperiodic.2
      refine ⟨?_, hmore⟩
      omega

/-- Two collections, a second apart. The instruments are called from the last to the first, three milliseconds each, and
connections come in between them. -/
def twoCollections : List Collection :=
  [1000, 2000].map fun start =>
    ⟨start, (List.range Snapshot.initial.series.length).reverse.map fun i =>
      let passed := 3 * (Snapshot.initial.series.length - i)
      ⟨i, start + passed, start + passed + 2, { Snapshot.initial with connectionsTotal := start + passed }⟩⟩

theorem exports_consistent_two : List.Forall₂ (fun c out => ∃ cb ∈ c.callbacks, out.Perm cb.snapshot.exported) twoCollections
    (exports (Snapshot.initial.series.map Series.otelName) ⟨500, Snapshot.initial.values, 0⟩ twoCollections) := by
  have hlength : Snapshot.initial.series.length < 100 := by decide
  refine exports_consistent 1000 .initial ⟨500, Snapshot.initial.values, 0⟩ rfl twoCollections (fun c hc => ?_)
    (by simp [Periodic, twoCollections])
  obtain ⟨start, -, rfl⟩ := List.mem_map.1 hc
  refine ⟨?_, ?_, ?_, ?_, ?_⟩
  · simp [Snapshot.series, Snapshot.counters]
  · simp [Function.comp_def]
  all_goals
    intro cb hcb
    obtain ⟨i, -, rfl⟩ := List.mem_map.1 hcb
    simp only
    omega

end WispMQ.Admin
