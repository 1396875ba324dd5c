import WispMQ.Precedence
/-!
# How strict the config file is

The options are read by accessors that reject a value of another type, and an unknown key is an error (config.rs:641). The
tables of `[[bridges]]` are read by a module of its own, which looks for the keys it knows and takes an optional value of
another type for none (bridge.rs:130-168, 192). What the pivot makes `null` is no value either.

| here | there |
| --- | --- |
| `Fits schema v`  | `v` is a table with keys of `schema` only, each with a value of its type |
| `Ignored`        | a key that is not in the schema, or an unchecked value of another type |
| `Strict`         | every key of a document is known, and has a value of the documented type |
| `Lenient`        | what is ignored, or taken for something else |
| `strict_iff`     | an accepted document is strict if and only if nothing in it is |
-/

namespace WispMQ.Configuration
open SortedMap

/-! ## Under the pivot -/

/-- No table has a key twice, as `toml::from_str` ensures. -/
inductive Toml.Distinct : Toml → Prop where
  | string (s : String) : Distinct (.string s)
  | integer (n : Int) : Distinct (.integer n)
  | float (x : F64) : Distinct (.float x)
  | boolean (b : Bool) : Distinct (.boolean b)
  | datetime (text : String) : Distinct (.datetime text)
  | array {vs : List Toml} (h : ∀ v ∈ vs, v.Distinct) : Distinct (.array vs)
  | table {es : List (String × Toml)} (hkeys : (es.map Prod.fst).Nodup) (h : ∀ e ∈ es, e.2.Distinct) : Distinct (.table es)

/-- A float that is not finite has no place in JSON. -/
def NotFinite (v : Toml) : Prop := ∃ x : F64, v = .float x ∧ x.isFinite = false

theorem toJson_eq_null {v : Toml} (h : v.toJson = .null) : NotFinite v := by
  cases v with
  | float x =>
    rw [Toml.toJson] at h
    split at h
    · cases h
    · rename_i hx
      exact ⟨x, rfl, by simpa using hx⟩
  | _ => simp [Toml.toJson] at h

theorem toJson_eq_string {v : Toml} {s : String} (h : v.toJson = .string s) : v = .string s := by
  cases v with
  | float x =>
    rw [Toml.toJson] at h
    split at h <;> cases h
  | string s' => simpa [Toml.toJson] using h
  | _ => simp [Toml.toJson] at h

theorem toJson_eq_integer {v : Toml} {n : Int} (h : v.toJson = .integer n) : v = .integer n := by
  cases v with
  | float x =>
    rw [Toml.toJson] at h
    split at h <;> cases h
  | integer n' => simpa [Toml.toJson] using h
  | _ => simp [Toml.toJson] at h

theorem toJson_eq_bool {v : Toml} {b : Bool} (h : v.toJson = .bool b) : v = .boolean b := by
  cases v with
  | float x =>
    rw [Toml.toJson] at h
    split at h <;> cases h
  | boolean b' => simpa [Toml.toJson] using h
  | _ => simp [Toml.toJson] at h

theorem toJson_eq_array {v : Toml} {js : List Json} (h : v.toJson = .array js) :
    ∃ vs, v = .array vs ∧ js = vs.map Toml.toJson := by
  cases v with
  | float x =>
    rw [Toml.toJson] at h
    split at h <;> cases h
  | array vs =>
    rw [Toml.toJson, toJsons_eq] at h
    exact ⟨vs, rfl, (Json.array.inj h).symm⟩
  | _ => simp [Toml.toJson] at h

/-- A date becomes an object as well. -/
theorem toJson_eq_object {v : Toml} {js : List (String × Json)} (h : v.toJson = .object js) :
    (∃ es, v = .table es ∧ js = pivot es) ∨ ∃ text, v = .datetime text ∧ js = [(datetimeField, .string text)] := by
  cases v with
  | float x =>
    rw [Toml.toJson] at h
    split at h <;> cases h
  | table es =>
    rw [toJson_table] at h
    exact .inl ⟨es, rfl, (Json.object.inj h).symm⟩
  | datetime text =>
    rw [Toml.toJson] at h
    exact .inr ⟨text, rfl, (Json.object.inj h).symm⟩
  | _ => simp [Toml.toJson] at h

theorem mem_pivot {es : List (String × Toml)} (h : (es.map Prod.fst).Nodup) {key : String} {v : Toml} (he : (key, v) ∈ es) :
    (key, v.toJson) ∈ pivot es := by
  have hnodup : ((es.map fun e => (e.1, e.2.toJson)).map Prod.fst).Nodup := by rwa [List.map_map]
  rw [← get_eq_some_iff (pivot_sorted es).nodup, pivot, get_ofList hnodup, get_eq_some_iff hnodup]
  exact List.mem_map.2 ⟨_, he, rfl⟩

/-- What is found in a table. -/
theorem get_toJson {es : List (String × Toml)} (h : (es.map Prod.fst).Nodup) {e : String × Toml} (he : e ∈ es) :
    (Toml.table es).toJson.get e.1 = e.2.toJson := by
  have hget : get e.1 (pivot es) = some e.2.toJson := (get_eq_some_iff (pivot_sorted es).nodup).2 (mem_pivot h he)
  rw [toJson_table, Json.get, hget, Option.getD_some]

/-- Only a table has a string under a key, apart from the one that a date has. -/
theorem table_of_get {v : Toml} {key s : String} (h : v.toJson.get key = .string s) (hkey : key ≠ datetimeField) :
    ∃ es, v = .table es := by
  cases hv : v.toJson with
  | object js =>
    rcases toJson_eq_object hv with ⟨es, rfl, -⟩ | ⟨text, rfl, rfl⟩
    · exact ⟨es, rfl⟩
    · rw [hv] at h
      simp [Json.get, SortedMap.get, hkey] at h
  | _ =>
    rw [hv] at h
    cases h

/-! ## Documented types -/

def IsText (v : Toml) : Prop := ∃ s, v = .string s

def IsInteger (v : Toml) : Prop := ∃ n, v = .integer n

def IsBoolean (v : Toml) : Prop := ∃ b, v = .boolean b

/-- Keys, and the types of their values. -/
abbrev Schema := List (String × (Toml → Prop))

def Fits (schema : Schema) (v : Toml) : Prop := ∃ es, v = .table es ∧ ∀ e ∈ es, ∃ type, (e.1, type) ∈ schema ∧ type e.2

/-- `e` is passed over: its key is not in the schema, or its value is not of the type that goes unchecked. -/
def Ignored (schema unchecked : Schema) (e : String × Toml) : Prop :=
  e.1 ∉ schema.map Prod.fst ∨ ∃ type, (e.1, type) ∈ unchecked ∧ ¬type e.2

/-- If everything but the unchecked types has been seen to, a table fits unless something in it is ignored. -/
theorem fits_iff {schema unchecked : Schema} {es : List (String × Toml)}
    (hweaker : ∀ e ∈ es, ∀ type type', (e.1, type) ∈ schema → (e.1, type') ∈ unchecked → type e.2 → type' e.2)
    (hseen : ∀ e ∈ es, ∀ type, (e.1, type) ∈ schema → (∀ type', (e.1, type') ∈ unchecked → type' e.2) → type e.2) :
    Fits schema (.table es) ↔ ¬∃ e ∈ es, Ignored schema unchecked e := by
  constructor
  · rintro ⟨es', h, hfits⟩ ⟨e, he, hign⟩
    cases h
    obtain ⟨type, hmem, htype⟩ := hfits e he
    rcases hign with hunknown | ⟨type', hmem', hnot⟩
    · exact hunknown (List.mem_map.2 ⟨_, hmem, rfl⟩)
    · exact hnot (hweaker e he type type' hmem hmem' htype)
  · intro hnone
    refine ⟨es, rfl, fun e he => ?_⟩
    have hign : ¬Ignored schema unchecked e := fun h => hnone ⟨e, he, h⟩
    rw [Ignored, not_or, not_not] at hign
    obtain ⟨⟨key, type⟩, hmem, hkey⟩ := List.mem_map.1 hign.1
    obtain rfl : key = e.1 := hkey
    refine ⟨type, hmem, hseen e he type hmem fun type' hmem' => ?_⟩
    by_contra hnot
    exact hign.2 ⟨type', hmem', hnot⟩

/-! ## Bridges -/

section
variable (P : Protocol)

def topicSchema : Schema :=
  [("pattern", fun v => ∃ s, v = .string s ∧ P.validTopicFilter s = true),
    ("direction", fun v => ∃ s ∈ ["out", "in", "both"], v = .string s),
    ("qos", fun v => ∃ n ∈ [(0 : Int), 1, 2], v = .integer n)]

/-- What `parse_topics` takes for none unless it has this type. -/
def topicUnchecked : Schema := [("qos", IsInteger)]

/-- Something in a topic mapping is ignored. -/
def LenientTopic (t : Toml) : Prop := ∃ es, t = .table es ∧ ∃ e ∈ es, Ignored (topicSchema P) topicUnchecked e

def NoLenientTopic (v : Toml) : Prop := ∀ ts, v = .array ts → ∀ t ∈ ts, ¬LenientTopic P t

def bridgeSchema : Schema :=
  [("name", IsText), ("address", IsText), ("client_id", IsText), ("username", IsText), ("password", IsText),
    ("keepalive", fun v => ∃ n, v = .integer n ∧ (tryFrom 16 n).isSome),
    ("protocol_version", fun v => ∃ n ∈ [(5 : Int), 4, 3], v = .integer n), ("tls_ca", IsText), ("tls_cert", IsText),
    ("tls_key", IsText), ("tls_insecure", IsBoolean),
    ("topics", fun v => ∃ ts, v = .array ts ∧ ∀ t ∈ ts, Fits (topicSchema P) t)]

/-- What `parse_bridges` takes for none unless it has this type; in the topics, what `parse_topics` does. -/
def bridgeUnchecked : Schema :=
  [("client_id", IsText), ("username", IsText), ("password", IsText), ("keepalive", IsInteger),
    ("protocol_version", IsInteger), ("tls_ca", IsText), ("tls_cert", IsText), ("tls_key", IsText),
    ("tls_insecure", IsBoolean), ("topics", NoLenientTopic P)]

def LenientBridge (b : Toml) : Prop := ∃ es, b = .table es ∧ ∃ e ∈ es, Ignored (bridgeSchema P) (bridgeUnchecked P) e

variable {P} {place source : String}

theorem reqStr_ok {node : Json} {key s : String} : reqStr node key place = .ok s ↔ node.get key = .string s := by
  rw [reqStr]
  cases node.get key <;> simp [Json.asStr, fail]

theorem parseDirection_ok {node : Json} {d : Direction} (h : parseDirection node place = .ok d) :
    ∃ s ∈ ["out", "in", "both"], node.get "direction" = .string s := by
  unfold parseDirection at h
  split at h
  · exact ⟨"out", by simp, asStr_eq_some.1 ‹_›⟩
  · exact ⟨"in", by simp, asStr_eq_some.1 ‹_›⟩
  · exact ⟨"both", by simp, asStr_eq_some.1 ‹_›⟩
  · cases h

theorem parseQos_ok {node : Json} {q : QoS} (h : parseQos node place = .ok q) {n : Int} (hn : node.get "qos" = .integer n) :
    n ∈ [(0 : Int), 1, 2] := by
  unfold parseQos at h
  rw [hn] at h
  dsimp only [Json.asI64] at h
  split_ifs at h <;> simp_all [fail]

theorem parseProtocolVersion_ok {node : Json} {v : ProtocolVersion} (h : parseProtocolVersion node place = .ok v) {n : Int}
    (hn : node.get "protocol_version" = .integer n) : n ∈ [(5 : Int), 4, 3] := by
  unfold parseProtocolVersion at h
  rw [hn] at h
  dsimp only [Json.asI64] at h
  split_ifs at h <;> simp_all [fail]

/-- What `parse_topics` has seen to. -/
theorem parseTopic_ok {t : Json} {r : BridgeTopic} (h : parseTopic P t place = .ok r) :
    (∃ s, t.get "pattern" = .string s ∧ P.validTopicFilter s = true) ∧
      (∃ s ∈ ["out", "in", "both"], t.get "direction" = .string s) ∧
      ∀ n, t.get "qos" = .integer n → n ∈ [(0 : Int), 1, 2] := by
  obtain ⟨pattern, hpattern, h⟩ := bind_ok.1 h
  by_cases hvalid : P.validTopicFilter pattern = true
  · rw [if_neg (by simp [hvalid])] at h
    obtain ⟨direction, hdirection, h⟩ := bind_ok.1 h
    obtain ⟨qos, hqos, -⟩ := bind_ok.1 h
    exact ⟨⟨pattern, reqStr_ok.1 hpattern, hvalid⟩, parseDirection_ok hdirection, fun n hn => parseQos_ok hqos hn⟩
  · rw [if_pos (by simp [hvalid])] at h
    cases h

theorem parseTopicList_ok {ts : List Json} {j : Nat} {rs : List BridgeTopic} (h : parseTopicList P place j ts = .ok rs) :
    ∀ t ∈ ts, ∃ place r, parseTopic P t place = .ok r := by
  induction ts generalizing j rs with
  | nil => simp
  | cons t ts ih =>
    rw [parseTopicList, bind_ok] at h
    obtain ⟨r, hr, h⟩ := h
    obtain ⟨rs', hrs, -⟩ := bind_ok.1 h
    exact List.forall_mem_cons.2 ⟨⟨_, r, hr⟩, ih hrs⟩

theorem parseTopics_ok {node : Json} {rs : List BridgeTopic} (h : parseTopics P node place = .ok rs) :
    ∃ ts, node = .array ts ∧ ∀ t ∈ ts, ∃ place r, parseTopic P t place = .ok r := by
  unfold parseTopics at h
  cases node with
  | array ts => exact ⟨ts, rfl, parseTopicList_ok h⟩
  | _ => cases h

/-- What `parse_bridges` has seen to. -/
structure Seen (P : Protocol) (b : Json) : Prop where
  name : ∃ s, b.get "name" = .string s
  address : ∃ s, b.get "address" = .string s
  keepalive : ∀ n, b.get "keepalive" = .integer n → (tryFrom 16 n).isSome
  protocolVersion : ∀ n, b.get "protocol_version" = .integer n → n ∈ [(5 : Int), 4, 3]
  topics : ∃ ts, b.get "topics" = .array ts ∧ ∀ t ∈ ts, ∃ place r, parseTopic P t place = .ok r

theorem parseBridge_ok {b : Json} {r : BridgeConfig} (h : parseBridge P b place = .ok r) : Seen P b := by
  obtain ⟨name, hname, h⟩ := bind_ok.1 h
  obtain ⟨address, haddress, h⟩ := bind_ok.1 h
  dsimp only at h
  cases hkeepalive : tryFrom 16 ((b.get "keepalive").asI64.getD 60) with
  | none =>
    rw [hkeepalive] at h
    cases h
  | some keepalive =>
    rw [hkeepalive] at h
    obtain ⟨version, hversion, h⟩ := bind_ok.1 h
    obtain ⟨topics, htopics, -⟩ := bind_ok.1 h
    refine ⟨⟨name, reqStr_ok.1 hname⟩, ⟨address, reqStr_ok.1 haddress⟩, fun n hn => ?_,
      fun n hn => parseProtocolVersion_ok hversion hn, parseTopics_ok htopics⟩
    rw [hn] at hkeepalive
    exact Option.isSome_of_eq_some hkeepalive

theorem parseBridgeList_ok {bs : List Json} {i : Nat} {rs : List BridgeConfig} (h : parseBridgeList P source i bs = .ok rs) :
    ∀ b ∈ bs, Seen P b := by
  induction bs generalizing i rs with
  | nil => simp
  | cons b bs ih =>
    rw [parseBridgeList, bind_ok] at h
    obtain ⟨r, hr, h⟩ := h
    obtain ⟨rs', hrs, -⟩ := bind_ok.1 h
    exact List.forall_mem_cons.2 ⟨parseBridge_ok hr, ih hrs⟩

/-- A topic that is accepted fits if and only if nothing in it is ignored. -/
theorem topic_fits_iff {t : Toml} (hdistinct : t.Distinct) {r : BridgeTopic} (h : parseTopic P t.toJson place = .ok r) :
    Fits (topicSchema P) t ↔ ¬LenientTopic P t := by
  obtain ⟨⟨pattern, hpattern, hvalid⟩, hdirection, hqos⟩ := parseTopic_ok h
  obtain ⟨es, rfl⟩ := table_of_get hpattern (by decide)
  have hkeys : (es.map Prod.fst).Nodup := by
    cases hdistinct
    assumption
  have hiff : LenientTopic P (.table es) ↔ ∃ e ∈ es, Ignored (topicSchema P) topicUnchecked e := by simp [LenientTopic]
  rw [hiff]
  refine fits_iff ?_ fun e he type hmem hunchecked => ?_
  · rintro ⟨key, v⟩ - type type' hmem hmem' htype
    simp only [topicUnchecked, List.mem_singleton, Prod.mk.injEq] at hmem'
    obtain ⟨rfl, rfl⟩ := hmem'
    simp only [topicSchema, List.mem_cons, Prod.mk.injEq, List.not_mem_nil, or_false, String.reduceEq, false_and, false_or,
      true_and] at hmem
    subst hmem
    obtain ⟨n, -, rfl⟩ := htype
    exact ⟨n, rfl⟩
  · obtain ⟨key, v⟩ := e
    have hget := get_toJson hkeys he
    simp only [topicSchema, List.mem_cons, Prod.mk.injEq, List.not_mem_nil, or_false] at hmem
    rcases hmem with ⟨rfl, rfl⟩ | ⟨rfl, rfl⟩ | ⟨rfl, rfl⟩
    · exact ⟨pattern, toJson_eq_string (hget.symm.trans hpattern), hvalid⟩
    · obtain ⟨s, hs, hdirection⟩ := hdirection
      exact ⟨s, by simpa using hs, toJson_eq_string (hget.symm.trans hdirection)⟩
    · obtain ⟨n, rfl⟩ := hunchecked IsInteger (by simp [topicUnchecked])
      exact ⟨n, by simpa using hqos n hget, rfl⟩

theorem topics_fit_iff {v : Toml} (hdistinct : v.Distinct) {ts : List Json} (hv : v.toJson = .array ts)
    (h : ∀ t ∈ ts, ∃ place r, parseTopic P t place = .ok r) :
    ∃ vs, v = .array vs ∧ ∀ t ∈ vs, (Fits (topicSchema P) t ↔ ¬LenientTopic P t) := by
  obtain ⟨vs, rfl, rfl⟩ := toJson_eq_array hv
  refine ⟨vs, rfl, fun t ht => ?_⟩
  obtain ⟨place, r, hr⟩ := h _ (List.mem_map_of_mem ht)
  cases hdistinct with
  | array hvs => exact topic_fits_iff (hvs t ht) hr

/-- And so does a bridge. -/
theorem bridge_fits_iff {b : Toml} (hdistinct : b.Distinct) (h : Seen P b.toJson) :
    Fits (bridgeSchema P) b ↔ ¬LenientBridge P b := by
  obtain ⟨⟨name, hname⟩, ⟨address, haddress⟩, hkeepalive, hversion, ts, hts, htopics⟩ := h
  obtain ⟨es, rfl⟩ := table_of_get hname (by decide)
  have hkeys : (es.map Prod.fst).Nodup ∧ ∀ e ∈ es, e.2.Distinct := by
    cases hdistinct
    exact ⟨by assumption, by assumption⟩
  have htopic : ∀ v, ("topics", v) ∈ es → ∃ vs, v = .array vs ∧ ∀ t ∈ vs, (Fits (topicSchema P) t ↔ ¬LenientTopic P t) :=
    fun v hv => topics_fit_iff (hkeys.2 _ hv) ((get_toJson hkeys.1 hv).symm.trans hts) htopics
  have hiff : LenientBridge P (.table es) ↔ ∃ e ∈ es, Ignored (bridgeSchema P) (bridgeUnchecked P) e := by simp [LenientBridge]
  rw [hiff]
  refine fits_iff ?_ fun e he type hmem hunchecked => ?_
  · rintro ⟨key, v⟩ he type type' hmem hmem' htype
    simp only [bridgeSchema, List.mem_cons, Prod.mk.injEq, List.not_mem_nil, or_false] at hmem
    rcases hmem with ⟨rfl, rfl⟩ | ⟨rfl, rfl⟩ | ⟨rfl, rfl⟩ | ⟨rfl, rfl⟩ | ⟨rfl, rfl⟩ | ⟨rfl, rfl⟩ | ⟨rfl, rfl⟩ | ⟨rfl, rfl⟩ |
      ⟨rfl, rfl⟩ | ⟨rfl, rfl⟩ | ⟨rfl, rfl⟩ | ⟨rfl, rfl⟩
    all_goals
      simp only [bridgeUnchecked, List.mem_cons, Prod.mk.injEq, List.not_mem_nil, or_false, String.reduceEq, false_and,
        false_or, true_and] at hmem'
    all_goals subst hmem'
    · exact htype
    · exact htype
    · exact htype
    · obtain ⟨n, rfl, -⟩ := htype
      exact ⟨n, rfl⟩
    · obtain ⟨n, -, rfl⟩ := htype
      exact ⟨n, rfl⟩
    · exact htype
    · exact htype
    · exact htype
    · exact htype
    · obtain ⟨vs, rfl, hvs⟩ := htopic v he
      rintro ts ⟨⟩ t ht
      obtain ⟨ts, hts, hfits⟩ := htype
      obtain rfl := Toml.array.inj hts
      exact (hvs t ht).1 (hfits t ht)
  · obtain ⟨key, v⟩ := e
    have hget := get_toJson hkeys.1 he
    simp only [bridgeSchema, List.mem_cons, Prod.mk.injEq, List.not_mem_nil, or_false] at hmem
    rcases hmem with ⟨rfl, rfl⟩ | ⟨rfl, rfl⟩ | ⟨rfl, rfl⟩ | ⟨rfl, rfl⟩ | ⟨rfl, rfl⟩ | ⟨rfl, rfl⟩ | ⟨rfl, rfl⟩ | ⟨rfl, rfl⟩ |
      ⟨rfl, rfl⟩ | ⟨rfl, rfl⟩ | ⟨rfl, rfl⟩ | ⟨rfl, rfl⟩
    · exact ⟨name, toJson_eq_string (hget.symm.trans hname)⟩
    · exact ⟨address, toJson_eq_string (hget.symm.trans haddress)⟩
    · exact hunchecked IsText (by simp [bridgeUnchecked])
    · exact hunchecked IsText (by simp [bridgeUnchecked])
    · exact hunchecked IsText (by simp [bridgeUnchecked])
    · obtain ⟨n, rfl⟩ := hunchecked IsInteger (by simp [bridgeUnchecked])
      exact ⟨n, rfl, hkeepalive n hget⟩
    · obtain ⟨n, rfl⟩ := hunchecked IsInteger (by simp [bridgeUnchecked])
      exact ⟨n, by simpa using hversion n hget, rfl⟩
    · exact hunchecked IsText (by simp [bridgeUnchecked])
    · exact hunchecked IsText (by simp [bridgeUnchecked])
    · exact hunchecked IsText (by simp [bridgeUnchecked])
    · exact hunchecked IsBoolean (by simp [bridgeUnchecked])
    · obtain ⟨vs, rfl, hvs⟩ := htopic v he
      refine ⟨vs, rfl, fun t ht => (hvs t ht).2 ?_⟩
      exact hunchecked (NoLenientTopic P) (by simp [bridgeUnchecked]) vs rfl t ht

end

/-! ## Documents -/

section
variable (L : Parsers) (P : Protocol)

/-- The documented type of an option. -/
def Kind.OfType : Kind → Toml → Prop
  | text, v => IsText v
  | addr, v => ∃ s, v = .string s ∧ ∀ a, nonBlank s = some a → (L.addr a).isSome
  | uint bits, v => ∃ n, v = .integer n ∧ (tryFrom bits n).isSome
  | bool, v => IsBoolean v
  | qos, v => ∃ n, v = .integer n ∧ ((tryFrom 8 n).bind qosOfNat).isSome
  | headers, v => ∃ es, v = .table es ∧ ∀ e ∈ es, IsText e.2
  | bridges, v => ∃ bs, v = .array bs ∧ ∀ b ∈ bs, Fits (bridgeSchema P) b

/-- The bare keys and the keys of the sections. -/
def tomlOptions (doc : List (String × Toml)) : List (String × Toml) :=
  doc.flatMap fun (key, value) =>
    if isSection key then
      match value with
      | .table es => es
      | _ => []
    else [(key, value)]

structure Strict (doc : List (String × Toml)) : Prop where
  sections : ∀ e ∈ doc, isSection e.1 = true → ∃ es, e.2 = .table es
  options : ∀ e ∈ tomlOptions doc, ∃ f : Field, f.wiring.key = some e.1 ∧ f.wiring.kind.OfType L P e.2

/-- A value that is taken for none, or a date that is taken for a table of headers, or a bridge that something is ignored in. -/
def LenientValue (k : Kind) (v : Toml) : Prop :=
  NotFinite v ∨
    match k with
    | .headers => ∃ text, v = .datetime text
    | .bridges => ∃ bs, v = .array bs ∧ ∃ b ∈ bs, LenientBridge P b
    | _ => False

def Lenient (doc : List (String × Toml)) : Prop :=
  ∃ e ∈ tomlOptions doc, ∃ f : Field, f.wiring.key = some e.1 ∧ LenientValue P f.wiring.kind e.2

variable {L P} {source : String}

theorem not_notFinite {v : Toml} {j : Json} (h : v.toJson = j) (hj : j ≠ .null) : ¬NotFinite v := by
  rintro ⟨x, rfl, hx⟩
  rw [Toml.toJson, hx] at h
  exact hj h.symm

theorem headerPairs_ok {es : List (String × Json)} {pairs : List String} (h : headerPairs source es = .ok pairs) :
    ∀ e ∈ es, ∃ s, e.2 = .string s := by
  induction es generalizing pairs with
  | nil => simp
  | cons e es ih =>
    obtain ⟨name, v⟩ := e
    rw [headerPairs] at h
    cases hv : v.asStr with
    | none =>
      rw [hv] at h
      cases h
    | some s =>
      rw [hv] at h
      obtain ⟨rest, hrest, -⟩ := bind_ok.1 h
      exact List.forall_mem_cons.2 ⟨⟨s, asStr_eq_some.1 hv⟩, ih hrest⟩

theorem ofType_not_float {k : Kind} {x : F64} : ¬k.OfType L P (.float x) := by
  cases k <;> simp [Kind.OfType, IsText, IsBoolean]

/-- Of most types, it is enough not to be `null`. -/
theorem not_lenient {k : Kind} (hheaders : k ≠ .headers) (hbridges : k ≠ .bridges) {v : Toml} {j : Json} (h : v.toJson = j)
    (hj : j ≠ .null) : ¬LenientValue P k v := by
  rintro (hnf | hval)
  · exact not_notFinite h hj hnf
  · cases k with
    | headers => exact hheaders rfl
    | bridges => exact hbridges rfl
    | _ => exact hval

/-- A value that is taken for an option is of its documented type if and only if nothing is ignored. -/
theorem ofType_iff {k : Kind} {v : Toml} (hdistinct : v.Distinct) (h : k.Admits L P source v.toJson) :
    k.OfType L P v ↔ ¬LenientValue P k v := by
  rcases h with hnull | h
  · obtain ⟨x, rfl, hx⟩ := toJson_eq_null hnull
    exact iff_of_false ofType_not_float (not_not.2 (.inl ⟨x, rfl, hx⟩))
  cases k with
  | text =>
    obtain ⟨s, hs⟩ := h
    exact iff_of_true ⟨s, toJson_eq_string hs⟩ (not_lenient (by simp) (by simp) hs (by simp))
  | addr =>
    obtain ⟨s, hs, ha⟩ := h
    exact iff_of_true ⟨s, toJson_eq_string hs, ha⟩ (not_lenient (by simp) (by simp) hs (by simp))
  | uint bits =>
    obtain ⟨n, hn, hm⟩ := h
    exact iff_of_true ⟨n, toJson_eq_integer hn, hm⟩ (not_lenient (by simp) (by simp) hn (by simp))
  | bool =>
    obtain ⟨b, hb⟩ := h
    exact iff_of_true ⟨b, toJson_eq_bool hb⟩ (not_lenient (by simp) (by simp) hb (by simp))
  | qos =>
    obtain ⟨n, hn, hq⟩ := h
    exact iff_of_true ⟨n, toJson_eq_integer hn, hq⟩ (not_lenient (by simp) (by simp) hn (by simp))
  | headers =>
    obtain ⟨map, hmap, pairs, hpairs⟩ := h
    have hnf : ¬NotFinite v := not_notFinite hmap (by simp)
    rcases toJson_eq_object hmap with ⟨es, rfl, rfl⟩ | ⟨text, rfl, -⟩
    · refine iff_of_true ⟨es, rfl, fun e he => ?_⟩ ?_
      · have hkeys : (es.map Prod.fst).Nodup := by
          cases hdistinct
          assumption
        obtain ⟨s, hs⟩ := headerPairs_ok hpairs _ (mem_pivot hkeys he)
        exact ⟨s, toJson_eq_string hs⟩
      · rintro (h | ⟨text, ⟨⟩⟩)
        exact hnf h
    · refine iff_of_false ?_ (not_not.2 (.inr ⟨text, rfl⟩))
      rintro ⟨es, ⟨⟩, -⟩
  | bridges =>
    obtain ⟨list, rs, hlist, hrs⟩ := h
    have hnf : ¬NotFinite v := not_notFinite hlist (by simp)
    obtain ⟨bs, rfl, rfl⟩ := toJson_eq_array hlist
    have hfits : ∀ b ∈ bs, (Fits (bridgeSchema P) b ↔ ¬LenientBridge P b) := fun b hb => by
      cases hdistinct with
      | array h => exact bridge_fits_iff (h b hb) (parseBridgeList_ok hrs _ (List.mem_map_of_mem hb))
    constructor
    · rintro ⟨bs', ⟨⟩, hall⟩ (h | ⟨bs', ⟨⟩, b, hb, hlenient⟩)
      · exact hnf h
      · exact (hfits b hb).1 (hall b hb) hlenient
    · intro hnot
      refine ⟨bs, rfl, fun b hb => (hfits b hb).2 fun hlenient => ?_⟩
      exact hnot (.inr ⟨bs, rfl, b, hb, hlenient⟩)

/-! ### The options of a document -/

theorem mem_options {doc : List (String × Toml)} (hdoc : (Toml.table doc).Distinct) {e : String × Toml}
    (he : e ∈ tomlOptions doc) : (e.1, e.2.toJson) ∈ options (pivot doc) ∧ e.2.Distinct := by
  cases hdoc with
  | table hkeys h =>
    obtain ⟨⟨key, v⟩, hmem, hin⟩ := List.mem_flatMap.1 he
    have hpivot : (key, v.toJson) ∈ pivot doc := mem_pivot hkeys hmem
    dsimp only at hin
    split at hin
    · rename_i hsection
      cases v with
      | table es =>
        have hdistinct := h _ hmem
        cases hdistinct with
        | table hkeys' h' =>
          refine ⟨List.mem_flatMap.2 ⟨_, hpivot, ?_⟩, h' e hin⟩
          rw [toJson_table]
          simpa [hsection, Json.asObject] using mem_pivot hkeys' hin
      | _ => cases hin
    · rename_i hbare
      obtain rfl := List.mem_singleton.1 hin
      exact ⟨List.mem_flatMap.2 ⟨_, hpivot, by simp [hbare]⟩, h _ hmem⟩

/-- A section that is a date has an unknown key. -/
theorem section_table {doc : List (String × Toml)} (hdoc : (Toml.table doc).Distinct) (h : Accepted L P source (pivot doc))
    {e : String × Toml} (he : e ∈ doc) (hsection : isSection e.1 = true) : ∃ es, e.2 = .table es := by
  cases hdoc with
  | table hkeys _ =>
    have hpivot : (e.1, e.2.toJson) ∈ pivot doc := mem_pivot hkeys he
    obtain ⟨js, hjs⟩ := Option.isSome_iff_exists.1 (h.tables _ hpivot hsection)
    rcases toJson_eq_object (asObject_eq_some.1 hjs) with ⟨es, hes, -⟩ | ⟨text, -, rfl⟩
    · exact ⟨es, hes⟩
    · have hoption : (datetimeField, Json.string text) ∈ options (pivot doc) :=
        List.mem_flatMap.2 ⟨_, hpivot, by simp [hsection, hjs]⟩
      have hunknown : datetimeField ∉ knownKeys := by decide
      exact absurd (h.known _ hoption) hunknown

/-- The options of the file are the known keys. -/
theorem knownKeys_perm : (fileFields.filterMap fun f => f.wiring.key).Perm knownKeys := by
  decide

theorem exists_field {key : String} (h : key ∈ knownKeys) : ∃ f : Field, f.wiring.key = some key := by
  obtain ⟨f, -, hf⟩ := List.mem_filterMap.1 (knownKeys_perm.mem_iff.2 h)
  exact ⟨f, hf⟩

theorem field_unique {f f' : Field} {key : String} (h : f.wiring.key = some key) (h' : f'.wiring.key = some key) : f = f' := by
  have hnodup : (fileFields.map fun f => f.wiring.key).Nodup := by decide
  exact List.inj_on_of_nodup_map hnodup (mem_fileFields h) (mem_fileFields h') (h.trans h'.symm)

/-- **Strictness**: an accepted document has known keys only, with values of their documented types, if and only if there is
nothing in it that is ignored. -/
theorem strict_iff {doc : List (String × Toml)} (hdoc : (Toml.table doc).Distinct) {cfg cfg' : Config}
    (h : applyDoc L P doc source cfg = .ok cfg') : Strict L P doc ↔ ¬Lenient P doc := by
  obtain ⟨haccepted, -⟩ := applyDoc_ok h
  have hoption : ∀ e ∈ tomlOptions doc, ∀ f : Field, f.wiring.key = some e.1 →
      (f.wiring.kind.OfType L P e.2 ↔ ¬LenientValue P f.wiring.kind e.2) := by
    intro e he f hf
    obtain ⟨hmem, hdistinct⟩ := mem_options hdoc he
    have hadmits := haccepted.admits f e.1 hf
    rw [setting, (get_eq_some_iff haccepted.once).2 hmem, Option.getD_some] at hadmits
    exact ofType_iff hdistinct hadmits
  constructor
  · rintro hstrict ⟨e, he, f, hf, hlenient⟩
    obtain ⟨f', hf', htype⟩ := hstrict.options e he
    obtain rfl := field_unique hf hf'
    exact (hoption e he f hf).1 htype hlenient
  · intro hnot
    refine ⟨fun e he hsection => section_table hdoc haccepted he hsection, fun e he => ?_⟩
    obtain ⟨f, hf⟩ := exists_field (haccepted.known _ (mem_options hdoc he).1)
    exact ⟨f, hf, (hoption e he f hf).2 fun hlenient => hnot ⟨e, he, f, hf, hlenient⟩⟩

end

def edgeTopic : Toml := .table [("pattern", .string "#"), ("direction", .string "out"), ("qos", .integer 1)]

def edge : Toml :=
  .table [("name", .string "edge"), ("address", .string "central:1883"), ("keepalive", .integer 30),
    ("topics", .array [edgeTopic])]

/-- `receive_maximum = 10`, in a section, and a bridge. -/
def plainDoc : List (String × Toml) :=
  [("storage", .table [("receive_maximum", .integer 10)]), ("bridges", .array [edge])]

theorem plainDoc_distinct : (Toml.table plainDoc).Distinct := by
  have hsection : (Toml.table [("receive_maximum", .integer 10)]).Distinct := .table (by simp) (by simpa using .integer 10)
  have htopic : edgeTopic.Distinct := .table (by simp) (by simpa using ⟨.string _, .string _, .integer 1⟩)
  have hbridge : edge.Distinct :=
    .table (by simp) (by simpa using ⟨.string _, .string _, .integer 30, .array (by simpa using htopic)⟩)
  exact .table (by simp [plainDoc]) (by simpa [plainDoc] using ⟨hsection, .array (by simpa using hbridge)⟩)

theorem plainDoc_not_lenient : ¬Lenient Protocol.reference plainDoc := by
  have htopic : ¬LenientTopic Protocol.reference edgeTopic := by
    rintro ⟨es, ⟨⟩, hes⟩
    simp [Ignored, topicSchema, topicUnchecked, IsInteger] at hes
  have hbridge : ¬LenientBridge Protocol.reference edge := by
    rintro ⟨es, ⟨⟩, hes⟩
    simp [Ignored, bridgeSchema, bridgeUnchecked, IsInteger, NoLenientTopic, htopic] at hes
  rintro ⟨e, he, f, hf, hlenient⟩
  have hoptions : tomlOptions plainDoc = [("receive_maximum", .integer 10), ("bridges", .array [edge])] := rfl
  rw [hoptions, List.mem_cons, List.mem_singleton] at he
  rcases he with rfl | rfl
  · obtain rfl : f = .receiveMaximum := field_unique hf rfl
    rcases hlenient with ⟨x, ⟨⟩, -⟩ | h
    exact h
  · obtain rfl : f = .bridges := field_unique hf rfl
    rcases hlenient with ⟨x, ⟨⟩, -⟩ | ⟨bs, ⟨⟩, hb⟩
    simp [hbridge] at hb

/-- Nothing in the document is ignored, so all of it is known and of its type. -/
theorem strict_iff_plain :
    (∃ cfg, applyDoc exampleParsers Protocol.reference plainDoc "wispmq.toml" {} = .ok cfg ∧
        cfg.receiveMaximum = 10 ∧ cfg.bridges.map (·.keepalive) = [30]) ∧
      Strict exampleParsers Protocol.reference plainDoc := by
  have h : ∃ cfg, applyDoc exampleParsers Protocol.reference plainDoc "wispmq.toml" {} = .ok cfg ∧
      cfg.receiveMaximum = 10 ∧ cfg.bridges.map (·.keepalive) = [30] := ⟨_, rfl, rfl, rfl⟩
  obtain ⟨cfg, hcfg, -⟩ := id h
  exact ⟨h, (strict_iff plainDoc_distinct hcfg).2 plainDoc_not_lenient⟩

/-- A bridge whose keep-alive is in quotes. -/
def quotedDoc : List (String × Toml) :=
  [("bridges", .array [.table [("name", .string "edge"), ("address", .string "central:1883"), ("keepalive", .string "30"),
    ("topics", .array [.table [("pattern", .string "#"), ("direction", .string "out")]])]])]

/-- It is accepted, and has the default instead. -/
theorem strict_quoted :
    (∃ cfg, applyDoc exampleParsers Protocol.reference quotedDoc "wispmq.toml" {} = .ok cfg ∧
        cfg.bridges.map (·.keepalive) = [60]) ∧
      ¬Strict exampleParsers Protocol.reference quotedDoc := by
  refine ⟨⟨_, rfl, rfl⟩, fun h => ?_⟩
  obtain ⟨f, hf, htype⟩ := h.options _ List.mem_cons_self
  obtain rfl : f = .bridges := field_unique hf rfl
  obtain ⟨bs, ⟨⟩, hbs⟩ := htype
  obtain ⟨es, ⟨⟩, hes⟩ := hbs _ List.mem_cons_self
  obtain ⟨type, hmem, hv⟩ := hes ("keepalive", .string "30") (by simp)
  simp only [bridgeSchema, List.mem_cons, Prod.mk.injEq, List.not_mem_nil, or_false, String.reduceEq, false_and, false_or,
    true_and] at hmem
  subst hmem
  obtain ⟨n, ⟨⟩, -⟩ := hv

end WispMQ.Configuration
