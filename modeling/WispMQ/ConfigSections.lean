import WispMQ.ConfigFile
/-!
# Sections of the config file

`flatten_sections` folds the sections into the top level, entry by entry in the order of the names (config.rs:902). A key that
is there already is an error when a section brings it, and taken for impossible when it is a bare key (config.rs:916).

| here | there |
| --- | --- |
| `options`          | the bare keys and the keys of the sections |
| `FlattensProperly` | what the fold is to make of a document |
| `BareAfterSection` | a bare key whose name comes after that of a section which has it too |

A document that sets each option once is read the same wherever its options are written (`applyDoc_eq_of_sameOptions`). One that
sets an option both ways is rejected if the bare key comes first in the order, and panics if it comes last
(`sections_sugar_iff`).
-/

namespace WispMQ.Configuration
open SortedMap

/-- The bare keys and the keys of the sections, with their values. -/
def options (map : List (String × Json)) : List (String × Json) :=
  map.flatMap fun (key, value) => if isSection key then value.asObject.getD [] else [(key, value)]

/-- Every section is a table. -/
def SectionsAreTables (map : List (String × Json)) : Prop :=
  ∀ e ∈ map, isSection e.1 = true → e.2.asObject.isSome

/-- No key is set twice, bare and in a section or in two sections. -/
def EachOnce (map : List (String × Json)) : Prop := ((options map).map Prod.fst).Nodup

/-! ## The fold -/

theorem foldSection_ok {source : String} {es flat flat' : List (String × Json)} :
    foldSection source es flat = .ok flat' ↔ Adds es flat flat' := by
  induction es generalizing flat with
  | nil => simp [foldSection, adds_nil, eq_comm]
  | cons e es ih =>
    obtain ⟨k, v⟩ := e
    rw [foldSection, adds_cons]
    cases h : get k flat with
    | none => simp [ih]
    | some v' => simp [fail]

theorem foldSection_not_panicked (source : String) (es flat : List (String × Json)) :
    foldSection source es flat ≠ .error .panicked := by
  induction es generalizing flat with
  | nil => simp [foldSection]
  | cons e es ih =>
    rw [foldSection]
    split
    · simp [fail]
    · exact ih _

theorem foldEntry_ok {source : String} {e : String × Json} {flat flat' : List (String × Json)} :
    foldEntry source e flat = .ok flat' ↔
      (isSection e.1 = true → e.2.asObject.isSome) ∧ Adds (options [e]) flat flat' := by
  obtain ⟨key, value⟩ := e
  have hoptions : options [(key, value)] = if isSection key then value.asObject.getD [] else [(key, value)] := by
    simp [options]
  rw [hoptions, foldEntry]
  by_cases hkey : isSection key = true
  · rw [if_pos hkey, if_pos hkey]
    cases h : value.asObject with
    | none => simp [fail, hkey]
    | some es => simp [foldSection_ok]
  · rw [if_neg hkey, if_neg hkey, adds_cons, adds_nil]
    cases h : get key flat with
    | none =>
      simp only [Option.isSome_none, Bool.false_eq_true, if_false, Except.ok.injEq, true_and]
      exact ⟨fun e => ⟨fun hc => absurd hc hkey, e.symm⟩, fun hc => hc.2.symm⟩
    | some v => simp

theorem foldEntry_panicked {source : String} {e : String × Json} {flat : List (String × Json)} :
    foldEntry source e flat = .error .panicked ↔ isSection e.1 = false ∧ (get e.1 flat).isSome := by
  unfold foldEntry
  split
  · rename_i hkey
    refine iff_of_false ?_ (by simp [hkey])
    split
    · simp [fail]
    · exact fun h => foldSection_not_panicked _ _ _ h
  · rename_i hkey
    rw [Bool.not_eq_true] at hkey
    split
    · rename_i h
      exact iff_of_true rfl ⟨hkey, h⟩
    · rename_i h
      exact iff_of_false (by simp) fun hc => h hc.2

/-- **The fold** goes through if the sections are tables and the options have keys of their own; it adds them all. -/
theorem foldSections_ok {source : String} {map flat flat' : List (String × Json)} :
    foldSections source map flat = .ok flat' ↔ SectionsAreTables map ∧ Adds (options map) flat flat' := by
  induction map generalizing flat with
  | nil =>
    have htables : SectionsAreTables [] := fun e he => absurd he List.not_mem_nil
    rw [foldSections, Except.ok.injEq, options, List.flatMap_nil, adds_nil]
    exact ⟨fun e => ⟨htables, e.symm⟩, fun hc => hc.2.symm⟩
  | cons e map ih =>
    have hoptions : options (e :: map) = options [e] ++ options map := by simp [options]
    have htables : SectionsAreTables (e :: map) ↔
        (isSection e.1 = true → e.2.asObject.isSome) ∧ SectionsAreTables map := by
      simp [SectionsAreTables]
    have hstep : foldSections source (e :: map) flat = .ok flat' ↔
        ∃ flat₁, foldEntry source e flat = .ok flat₁ ∧ foldSections source map flat₁ = .ok flat' := by
      rw [foldSections]
      cases foldEntry source e flat <;> simp
    rw [hstep, hoptions, htables, adds_append]
    simp only [foldEntry_ok, ih]
    constructor
    · rintro ⟨flat₁, ⟨hsec, ha⟩, hmap, ha'⟩
      exact ⟨⟨hsec, hmap⟩, flat₁, ha, ha'⟩
    · rintro ⟨⟨hsec, hmap⟩, flat₁, ha, ha'⟩
      exact ⟨flat₁, ⟨hsec, ha⟩, hmap, ha'⟩

/-- It fails at the first entry that cannot be folded. -/
theorem foldSections_error {source : String} {map flat : List (String × Json)} {f : Failure} :
    foldSections source map flat = .error f ↔
      ∃ pre e post flat', map = pre ++ e :: post ∧ foldSections source pre flat = .ok flat' ∧
        foldEntry source e flat' = .error f := by
  induction map generalizing flat with
  | nil => simp [foldSections]
  | cons e map ih =>
    rw [foldSections]
    cases h : foldEntry source e flat with
    | error g =>
      constructor
      · rintro ⟨⟩
        exact ⟨[], e, map, flat, rfl, rfl, h⟩
      · rintro ⟨pre, e', post, flat', hmap, hpre, he⟩
        cases pre with
        | nil =>
          obtain ⟨rfl, -⟩ := List.cons.inj hmap
          cases hpre
          rw [h] at he
          exact he
        | cons e₀ pre =>
          obtain ⟨rfl, -⟩ := List.cons.inj hmap
          simp [foldSections, h] at hpre
    | ok flat₁ =>
      refine ih.trans ⟨?_, ?_⟩
      · rintro ⟨pre, e', post, flat', rfl, hpre, he⟩
        exact ⟨e :: pre, e', post, flat', rfl, by rw [foldSections, h]; exact hpre, he⟩
      · rintro ⟨pre, e', post, flat', hmap, hpre, he⟩
        cases pre with
        | nil =>
          obtain ⟨rfl, -⟩ := List.cons.inj hmap
          cases hpre
          rw [h] at he
          cases he
        | cons e₀ pre =>
          obtain ⟨rfl, rfl⟩ := List.cons.inj hmap
          rw [foldSections, h] at hpre
          exact ⟨pre, e', post, flat', rfl, hpre, he⟩

/-! ## Documents -/

/-- What `flatten_sections` is to make of a document, by its entries `map`: it never panics, it rejects a section that is no
table and a key that is set twice, and from any other document it makes a table of exactly its options. -/
structure FlattensProperly (source : String) (map : List (String × Json)) : Prop where
  total : flattenSections (.object map) source ≠ .error .panicked
  rejects : ¬(SectionsAreTables map ∧ EachOnce map) → ∃ e, flattenSections (.object map) source = .error (.error e)
  folds : SectionsAreTables map → EachOnce map →
    ∃ flat, flattenSections (.object map) source = .ok (.object flat) ∧ Sorted flat ∧ ∀ e, e ∈ flat ↔ e ∈ options map

/-- A bare key is in a section before it, and everything before it is in order. -/
def BareAfterSection (map : List (String × Json)) : Prop :=
  ∃ pre key value post, map = pre ++ (key, value) :: post ∧ isSection key = false ∧
    SectionsAreTables pre ∧ EachOnce pre ∧
    ∃ name entries, (name, .object entries) ∈ pre ∧ isSection name = true ∧ key ∈ entries.map Prod.fst

theorem flattenSections_object {source : String} {map : List (String × Json)} :
    flattenSections (.object map) source = (foldSections source map []).map .object := by
  simp only [flattenSections, Json.asObject]
  cases foldSections source map [] <;> rfl

theorem adds_empty_iff {es m : List (String × Json)} : Adds es [] m ↔ (es.map Prod.fst).Nodup ∧ m = ofList es :=
  ⟨fun h => ⟨h.nodup, h.eq⟩, fun h => ⟨h.1, fun _ _ => rfl, h.2⟩⟩

theorem flattenSections_ok {source : String} {map : List (String × Json)} {doc : Json} :
    flattenSections (.object map) source = .ok doc ↔
      SectionsAreTables map ∧ EachOnce map ∧ doc = .object (ofList (options map)) := by
  rw [flattenSections_object]
  cases h : foldSections source map [] with
  | error f =>
    have hno : ¬(SectionsAreTables map ∧ EachOnce map) := fun hc => by
      have hok : foldSections source map [] = .ok (ofList (options map)) :=
        foldSections_ok.2 ⟨hc.1, adds_empty_iff.2 ⟨hc.2, rfl⟩⟩
      rw [h] at hok
      cases hok
    simp only [Except.map, reduceCtorEq, false_iff]
    exact fun hc => hno ⟨hc.1, hc.2.1⟩
  | ok flat =>
    obtain ⟨htables, ha⟩ := foldSections_ok.1 h
    obtain ⟨honce, rfl⟩ := adds_empty_iff.1 ha
    simp only [Except.map, Except.ok.injEq]
    exact ⟨fun e => ⟨htables, honce, e.symm⟩, fun hc => hc.2.2.symm⟩

/-- What is found among the options before a bare key of a sorted document is in a section. -/
theorem flattenSections_panicked {source : String} {map : List (String × Json)} (hsorted : Sorted map) :
    flattenSections (.object map) source = .error .panicked ↔ BareAfterSection map := by
  have hfold : flattenSections (.object map) source = .error .panicked ↔ foldSections source map [] = .error .panicked := by
    rw [flattenSections_object]
    cases foldSections source map [] <;> simp [Except.map]
  rw [hfold, foldSections_error]
  constructor
  · rintro ⟨pre, ⟨key, value⟩, post, flat, rfl, hpre, he⟩
    obtain ⟨htables, ha⟩ := foldSections_ok.1 hpre
    obtain ⟨honce, rfl⟩ := adds_empty_iff.1 ha
    obtain ⟨hkey, hthere⟩ := foldEntry_panicked.1 he
    refine ⟨pre, key, value, post, rfl, hkey, htables, honce, ?_⟩
    obtain ⟨v, hv⟩ := Option.isSome_iff_exists.1 hthere
    rw [get_ofList honce] at hv
    obtain ⟨⟨name, value'⟩, hmem, hin⟩ := List.mem_flatMap.1 (mem_of_get hv)
    dsimp only at hin
    split at hin
    · rename_i hname
      obtain ⟨entries, hentries⟩ := Option.isSome_iff_exists.1 (htables _ hmem hname)
      rw [hentries, Option.getD_some] at hin
      have hobject : value' = .object entries := by
        cases value' <;> simp_all [Json.asObject]
      exact ⟨name, entries, hobject ▸ hmem, hname, List.mem_map.2 ⟨_, hin, rfl⟩⟩
    · -- another bare key is a smaller one
      cases List.mem_singleton.1 hin
      exact absurd ((List.pairwise_append.1 hsorted).2.2 _ hmem _ List.mem_cons_self) (lt_irrefl _)
  · rintro ⟨pre, key, value, post, rfl, hkey, htables, honce, name, entries, hmem, hname, hin⟩
    refine ⟨pre, (key, value), post, ofList (options pre), rfl, ?_, ?_⟩
    · exact foldSections_ok.2 ⟨htables, adds_empty_iff.2 ⟨honce, rfl⟩⟩
    · obtain ⟨⟨key', v⟩, hv, hk⟩ := List.mem_map.1 hin
      obtain rfl : key' = key := hk
      have hopt : (key', v) ∈ options pre := List.mem_flatMap.2 ⟨_, hmem, by simpa [hname, Json.asObject] using hv⟩
      refine foldEntry_panicked.2 ⟨hkey, ?_⟩
      rw [get_ofList honce, (get_eq_some_iff honce).2 hopt]
      rfl

/-- The fold does what it is to do unless it panics. -/
theorem flattensProperly_iff {source : String} {map : List (String × Json)} (hsorted : Sorted map) :
    FlattensProperly source map ↔ ¬BareAfterSection map := by
  rw [← @flattenSections_panicked source map hsorted]
  refine ⟨fun h => h.total, fun h => ⟨h, fun hbad => ?_, fun htables honce => ?_⟩⟩
  · cases hf : flattenSections (.object map) source with
    | ok doc =>
      obtain ⟨htables, honce, -⟩ := flattenSections_ok.1 hf
      exact absurd ⟨htables, honce⟩ hbad
    | error f =>
      cases f with
      | error e => exact ⟨e, rfl⟩
      | panicked => exact absurd hf h
  · refine ⟨ofList (options map), flattenSections_ok.2 ⟨htables, honce, rfl⟩, sorted_ofList _, fun e => ?_⟩
    rw [← get_eq_some_iff (sorted_ofList _).nodup, get_ofList honce, get_eq_some_iff honce]

/-- The documents `doc` and `doc'` set the same options, each once. -/
structure SameOptions (doc doc' : List (String × Toml)) : Prop where
  tables : SectionsAreTables (pivot doc)
  tables' : SectionsAreTables (pivot doc')
  once : EachOnce (pivot doc)
  perm : (options (pivot doc)).Perm (options (pivot doc'))

/-- It does not matter in which section an option is written. -/
theorem applyDoc_eq_of_sameOptions {doc doc' : List (String × Toml)} (h : SameOptions doc doc') (L : Parsers) (P : Protocol)
    (source : String) (cfg : Config) : applyDoc L P doc source cfg = applyDoc L P doc' source cfg := by
  have honce' : EachOnce (pivot doc') := (h.perm.map Prod.fst).nodup_iff.1 h.once
  have hflat : flattenSections (Toml.table doc).toJson source = flattenSections (Toml.table doc').toJson source := by
    rw [toJson_table, toJson_table, flattenSections_ok.2 ⟨h.tables, h.once, rfl⟩,
      flattenSections_ok.2 ⟨h.tables', honce', rfl⟩, ofList_eq_of_perm h.perm h.once]
  rw [applyDoc, applyDoc, hflat]

/-- **Sections**: `flatten_sections` does with a document what it is to do, and a document that sets each option once may be
written with any sections, if and only if no bare key comes after a section that has it too. -/
theorem sections_sugar_iff (source : String) (doc : List (String × Toml)) :
    (FlattensProperly source (pivot doc) ∧ ∀ doc', SameOptions doc doc' → ∀ L P cfg,
        applyDoc L P doc source cfg = applyDoc L P doc' source cfg) ↔
      ¬BareAfterSection (pivot doc) := by
  rw [flattensProperly_iff (pivot_sorted doc)]
  exact ⟨And.left, fun h => ⟨h, fun doc' hs L P cfg => applyDoc_eq_of_sameOptions hs L P source cfg⟩⟩

/-- `listen_addr` bare, and in `[admin]`. -/
def bothWays : List (String × Toml) :=
  [("listen_addr", .string "0.0.0.0:1883"), ("admin", .table [("listen_addr", .string "0.0.0.0:1884")])]

/-- `flatten_sections` panics. -/
theorem sections_bothWays : ¬FlattensProperly "wispmq.toml" (pivot bothWays) :=
  fun h => h.total rfl

end WispMQ.Configuration
