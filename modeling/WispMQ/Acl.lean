import WispMQ.Topic
/-!
# Access control: `acl.rs`

| here | there |
| --- | --- |
| `Rule`, `Acl`            | `Rule` (acl.rs:39), `Acl` (acl.rs:46) |
| `Acl.fromValue`          | `Acl::from_value` (acl.rs:96) on the JSON pivot `Value`; errors keep rule index and field |
| `parseFilters`           | `parse_filters` (acl.rs:170) |
| `Acl.canPublish`         | `Acl::can_publish` (acl.rs:133) |
| `Acl.canSubscribe`       | `Acl::can_subscribe` (acl.rs:151) |
| `Acl.applicable`         | `Acl::applicable` (acl.rs:163) |

`can_subscribe` decides whether a requested filter is covered by a granted one by matching the request
*as if it were a topic*. That is right as long as the request has no `#` (`granted_covers`). A `+` in a
grant also matches the level `#` of a request, which is broader: with `a/+` granted, `a/#` is accepted.
`subscribeCovered_iff` says exactly which requests are covered.
-/

namespace WispMQ

structure Rule where
  identity : String
  publish : List String := []
  subscribe : List String := []
deriving DecidableEq, Repr

structure Acl where
  /-- When false, everything is permitted (no ACL file configured). -/
  enforced : Bool
  /-- Action when no rule grants the operation. -/
  defaultAllow : Bool
  rules : List Rule
deriving DecidableEq, Repr

/-- The wildcard identity. -/
def anyIdentity : String := "*"

namespace Acl

def permitAll : Acl := ⟨false, true, []⟩

def isEnforced (acl : Acl) : Bool := acl.enforced

def applicable (acl : Acl) (identity : String) : List Rule :=
  acl.rules.filter fun r => r.identity = identity || r.identity = anyIdentity

def canPublish (P : Protocol) (acl : Acl) (identity topic : String) : Bool :=
  if !acl.enforced then true
  else if (acl.applicable identity).any fun r => r.publish.any (P.topicMatches · topic) then true
  else acl.defaultAllow

def canSubscribe (P : Protocol) (acl : Acl) (identity filter : String) : Bool :=
  if !acl.enforced then true
  else if (acl.applicable identity).any fun r => r.subscribe.any (P.topicMatches · filter) then true
  else acl.defaultAllow

end Acl

/-! ## Reading a policy -/

/-- `serde_json::Value`, the representation a TOML policy is pivoted through. -/
inductive Value where
  | null
  | bool (b : Bool)
  | number
  | string (s : String)
  | array (vs : List Value)
  | object (fields : List (String × Value))

namespace Value

def get : Value → String → Option Value
  | object fields, key => (fields.find? (·.1 == key)).map (·.2)
  | _, _ => none

def asStr : Value → Option String
  | string s => some s
  | _ => none

def asArray : Value → Option (List Value)
  | array vs => some vs
  | _ => none

end Value

/-- Which of a rule's two filter lists an error is about. -/
inductive RuleField where
  | publish
  | subscribe
deriving DecidableEq, Repr

/-- The errors of `from_value`, with the data their texts carry. -/
inductive AclError where
  /-- `invalid "default": … (use allow|deny)` -/
  | invalidDefault (other : String)
  /-- `"rules" must be an array` -/
  | rulesNotArray
  /-- `rule {i}: missing string "identity"` -/
  | missingIdentity (i : Nat)
  /-- `rule {i}: "{field}" must be an array of strings` -/
  | notArray (i : Nat) (field : RuleField)
  /-- `rule {i}: "{field}" entries must be strings` -/
  | notString (i : Nat) (field : RuleField)
  /-- `rule {i}: invalid topic filter … in "{field}"` -/
  | invalidFilter (i : Nat) (field : RuleField) (filter : String)
deriving DecidableEq, Repr

/-- The `for item in arr` loop of `parse_filters`. -/
def parseFilterItems (P : Protocol) (i : Nat) (field : RuleField) : List Value → Except AclError (List String)
  | [] => .ok []
  | item :: items =>
    match item.asStr with
    | none => .error (.notString i field)
    | some f =>
      if P.validTopicFilter f then (parseFilterItems P i field items).map (f :: ·)
      else .error (.invalidFilter i field f)

def parseFilters (P : Protocol) (value : Option Value) (i : Nat) (field : RuleField) :
    Except AclError (List String) :=
  match value with
  | none => .ok []
  | some value =>
    match value.asArray with
    | none => .error (.notArray i field)
    | some arr => parseFilterItems P i field arr

/-- One iteration of the loop over `rules`. -/
def parseRule (P : Protocol) (i : Nat) (r : Value) : Except AclError Rule :=
  match (r.get "identity").bind Value.asStr with
  | none => .error (.missingIdentity i)
  | some identity => do
    let publish ← parseFilters P (r.get "publish") i .publish
    let subscribe ← parseFilters P (r.get "subscribe") i .subscribe
    return { identity, publish, subscribe }

def parseRules (P : Protocol) : Nat → List Value → Except AclError (List Rule)
  | _, [] => .ok []
  | i, r :: rs => do
    let rule ← parseRule P i r
    return rule :: (← parseRules P (i + 1) rs)

/-- The `"default"` action: deny unless the file says `allow`. -/
def parseDefault (value : Value) : Except AclError Bool :=
  match (value.get "default").bind Value.asStr with
  | none => .ok false
  | some other =>
    if other = "deny" then .ok false
    else if other = "allow" then .ok true
    else .error (.invalidDefault other)

/-- The optional `"rules"` array. -/
def parseRulesField (P : Protocol) (value : Value) : Except AclError (List Rule) :=
  match value.get "rules" with
  | none => .ok []
  | some arr =>
    match arr.asArray with
    | none => .error .rulesNotArray
    | some arr => parseRules P 0 arr

def Acl.fromValue (P : Protocol) (value : Value) : Except AclError Acl :=
  parseDefault value >>= fun defaultAllow =>
  parseRulesField P value >>= fun rules =>
  .ok ⟨true, defaultAllow, rules⟩

/-- A policy all of whose patterns are valid Topic Filters. -/
def Acl.PatternsValid (P : Protocol) (acl : Acl) : Prop :=
  ∀ r ∈ acl.rules, (∀ f ∈ r.publish, P.validTopicFilter f = true) ∧
    ∀ f ∈ r.subscribe, P.validTopicFilter f = true

theorem bind_ok {ε α β : Type} {x : Except ε α} {f : α → Except ε β} {b : β} :
    x >>= f = .ok b ↔ ∃ a, x = .ok a ∧ f a = .ok b := by
  cases x with
  | error e => simp [bind, Except.bind]
  | ok a => simp [bind, Except.bind]

theorem parseFilterItems_valid {P : Protocol} {i : Nat} {field : RuleField} :
    ∀ {items : List Value} {fs : List String}, parseFilterItems P i field items = .ok fs →
      ∀ f ∈ fs, P.validTopicFilter f = true
  | [], fs, h => by cases h; simp
  | item :: items, fs, h => by
    unfold parseFilterItems at h
    split at h
    · cases h
    · split at h
      · rename_i f _ hv
        cases hr : parseFilterItems P i field items with
        | error e => rw [hr] at h; cases h
        | ok rest =>
          rw [hr] at h; cases h
          exact List.forall_mem_cons.2 ⟨hv, parseFilterItems_valid hr⟩
      · cases h

theorem parseFilters_valid {P : Protocol} {v : Option Value} {i : Nat} {field : RuleField}
    {fs : List String} (h : parseFilters P v i field = .ok fs) : ∀ f ∈ fs, P.validTopicFilter f = true := by
  unfold parseFilters at h
  split at h
  · cases h; simp
  · split at h
    · cases h
    · exact parseFilterItems_valid h

theorem parseRules_valid {P : Protocol} : ∀ {i : Nat} {rs : List Value} {rules : List Rule},
    parseRules P i rs = .ok rules → ∀ r ∈ rules, (∀ f ∈ r.publish, P.validTopicFilter f = true) ∧
      ∀ f ∈ r.subscribe, P.validTopicFilter f = true
  | _, [], _, h => by cases h; simp
  | i, r :: rs, rules, h => by
    obtain ⟨rule, hr, h⟩ := bind_ok.1 h
    obtain ⟨rest, hrest, h⟩ := bind_ok.1 h
    cases h
    refine List.forall_mem_cons.2 ⟨?_, parseRules_valid hrest⟩
    unfold parseRule at hr
    split at hr
    · cases hr
    · obtain ⟨pub, hpub, hr⟩ := bind_ok.1 hr
      obtain ⟨sub, hsub, hr⟩ := bind_ok.1 hr
      cases hr
      exact ⟨parseFilters_valid hpub, parseFilters_valid hsub⟩

/-- **`fromValue_valid`**: a policy that loads is enforced and holds valid filters only. -/
theorem fromValue_valid {P : Protocol} {v : Value} {acl : Acl} (h : Acl.fromValue P v = .ok acl) :
    acl.enforced = true ∧ acl.PatternsValid P := by
  obtain ⟨d, _, h⟩ := bind_ok.1 h
  obtain ⟨rules, hrules, h⟩ := bind_ok.1 h
  cases h
  refine ⟨rfl, ?_⟩
  unfold parseRulesField at hrules
  split at hrules
  · cases hrules; intro r hr; simp at hr
  · split at hrules
    · cases hrules
    · exact parseRules_valid hrules

/-! ## Coverage of a requested filter -/

section Coverage
open Wildcard
variable {P : Protocol} {acl : Acl} {identity F : String}

/-- The subscribe patterns that apply to an identity. -/
def Acl.subscribePatterns (acl : Acl) (identity : String) : List String :=
  (acl.applicable identity).flatMap (·.subscribe)

/-- Every topic the filter can deliver is granted by a pattern of an applicable rule. -/
def SubscribeCovered (P : Protocol) (acl : Acl) (identity F : String) : Prop :=
  acl.canSubscribe P identity F = true → ∀ T, IsTopicName T → P.topicMatches F T = true →
    ∃ r ∈ acl.applicable identity, ∃ p ∈ r.subscribe, P.topicMatches p T = true

/-- The filter with its last level replaced by `d` levels `+`. -/
def plusExpansion (F : String) (d : Nat) : String :=
  joinLevels ((levels F).dropLast ++ List.replicate d plusLevel)

theorem mem_subscribePatterns {p : String} :
    p ∈ acl.subscribePatterns identity ↔ ∃ r ∈ acl.applicable identity, p ∈ r.subscribe := by
  simp [Acl.subscribePatterns]

theorem canSubscribe_iff (hen : acl.enforced = true) (hdeny : acl.defaultAllow = false) :
    acl.canSubscribe P identity F = true ↔
      ∃ p ∈ acl.subscribePatterns identity, P.topicMatches p F = true := by
  simp only [Acl.canSubscribe, hen, hdeny, Acl.subscribePatterns]
  simp [List.any_eq_true]
  constructor
  · rintro ⟨r, hr, p, hp, h⟩; exact ⟨p, ⟨r, hr, hp⟩, h⟩
  · rintro ⟨p, ⟨r, hr, hp⟩, h⟩; exact ⟨r, hr, p, hp, h⟩

theorem hash_notMem_dropLast (hF : ValidFilter F) : hashLevel ∉ (levels F).dropLast := by
  intro h
  rcases hF.2.2.1 _ h with h | h <;> revert h <;> decide

theorem levels_eq_of_last_hash (h : (levels F).getLast? = some hashLevel) :
    levels F = (levels F).dropLast ++ [hashLevel] := by
  obtain ⟨ys, hys⟩ := List.getLast?_eq_some_iff.1 h
  rw [hys]; simp

theorem hash_notMem_levels (hF : ValidFilter F) (h : (levels F).getLast? ≠ some hashLevel) :
    hashLevel ∉ levels F := by
  intro hm
  obtain ⟨l, hl⟩ : ∃ l, (levels F).getLast? = some l := by
    cases hg : (levels F).getLast? with
    | none => exact absurd (List.getLast?_eq_none_iff.1 hg) (levels_ne_nil F)
    | some l => exact ⟨l, rfl⟩
  obtain ⟨ys, hys⟩ := List.getLast?_eq_some_iff.1 hl
  have hdrop := hash_notMem_dropLast hF
  rw [hys] at hm hdrop
  rcases List.mem_append.1 hm with hm | hm
  · exact hdrop (by simpa using hm)
  · obtain rfl : hashLevel = l := by simpa using hm
    exact h hl

/-- **`granted_covers`**: a pattern that matches a request without `#` as a string covers it. -/
theorem granted_covers (hF : ValidFilter F) (h : (levels F).getLast? ≠ some hashLevel) {p T : String}
    (hp : mqttMatches p F = true) (hT : mqttMatches F T = true) : mqttMatches p T = true :=
  levelsMatch_trans (hash_notMem_levels hF h) hp hT

theorem expansion_levels_noSlash {d : Nat} :
    ∀ l ∈ (levels F).dropLast ++ List.replicate d plusLevel, '/' ∉ l := by
  intro l hl
  rcases List.mem_append.1 hl with hl | hl
  · exact slash_notMem_of_mem_levels ((List.dropLast_sublist _).subset hl)
  · rw [List.eq_of_mem_replicate hl]; decide

theorem levels_plusExpansion {d : Nat} (h : plusExpansion F d ≠ "") :
    levels (plusExpansion F d) = (levels F).dropLast ++ List.replicate d plusLevel := by
  refine levels_joinLevels (fun hnil => h ?_) expansion_levels_noSlash
  rw [plusExpansion, hnil]; rfl

theorem hash_notMem_expansion (hF : ValidFilter F) (d : Nat) :
    hashLevel ∉ (levels F).dropLast ++ List.replicate d plusLevel := by
  simp only [List.mem_append, not_or]
  refine ⟨hash_notMem_dropLast hF, fun h => ?_⟩
  have := List.eq_of_mem_replicate h
  revert this; decide

theorem eq_of_match_emptyLevel {t : List (List Char)} (h : levelsMatch [[]] t = true) : t = [[]] := by
  simp only [levelsMatch, Bool.and_eq_true] at h
  cases t with
  | nil =>
    have hnil := h.2
    rw [levelMatch_cons_nil (by decide)] at hnil
    cases hnil
  | cons l ls =>
    obtain ⟨hl, hls⟩ := (levelMatch_cons_cons (by decide)).1 h.2
    rw [← hl.resolve_left (by decide), show ls = [] by simpa using hls]

/-- A topic matched by `F` ending in `#` is matched by one of its `+` expansions. -/
theorem exists_expansion (hF : ValidFilter F) (h : (levels F).getLast? = some hashLevel) {T : String} (hne : T ≠ "")
    (hT : mqttMatches F T = true) : ∃ d, plusExpansion F d ≠ "" ∧ mqttMatches (plusExpansion F d) T = true := by
  rw [mqttMatches, levels_eq_of_last_hash h,
    levelsMatch_hash_iff (hash_notMem_dropLast hF) (levels_ne_nil T)] at hT
  obtain ⟨d, hd⟩ := hT
  have hexp : plusExpansion F d ≠ "" := by
    intro he
    -- an empty expansion has no level or one empty level, and matches the empty string only
    rcases joinLevels_eq_empty he with he | he <;> rw [he] at hd
    · simp [levelsMatch, levels_ne_nil T] at hd
    · apply hne
      rw [← joinLevels_levels T, eq_of_match_emptyLevel hd]; rfl
  exact ⟨d, hexp, by rw [mqttMatches, levels_plusExpansion hexp]; exact hd⟩

/-- A level longer than every level of the given patterns. -/
def freshLevel (ps : List String) : List Char :=
  List.replicate (((ps.flatMap levels).map List.length).sum + 1) 'a'

theorem freshLevel_notMem {ps : List String} {p : String} (hp : p ∈ ps) : freshLevel ps ∉ levels p := by
  intro h
  have hmem : (freshLevel ps).length ∈ (ps.flatMap levels).map List.length :=
    List.mem_map_of_mem (List.mem_flatMap.2 ⟨p, hp, h⟩)
  have hle := List.single_le_sum (fun _ _ => Nat.zero_le _) _ hmem
  simp only [freshLevel, List.length_replicate] at hle
  omega

theorem freshLevel_noDollar (ps : List String) : startsWithDollar [freshLevel ps] = false := by
  simp [freshLevel, List.replicate_succ, startsWithDollar]

/-- The expansion with fresh levels in place of its `+` levels, as a topic. -/
def freshTopic (ps : List String) (F : String) (d : Nat) : String :=
  joinLevels (instantiate plusLevel (freshLevel ps) ((levels F).dropLast ++ List.replicate d plusLevel))

section FreshTopic
variable {ps : List String} {d : Nat}

theorem mem_freshTopic_levels {l : List Char} (hF : ValidFilter F)
    (hl : l ∈ instantiate plusLevel (freshLevel ps) ((levels F).dropLast ++ List.replicate d plusLevel)) :
    l = freshLevel ps ∨ (l ∈ levels F ∧ plainLevel l = true) := by
  obtain ⟨w, hw, rfl⟩ := List.mem_map.1 hl
  by_cases hp : w = plusLevel
  · exact Or.inl (by simp [hp])
  · simp only [if_neg hp]
    rcases List.mem_append.1 hw with hw | hw
    · exact Or.inr ⟨(List.dropLast_sublist _).subset hw, (hF.2.2.1 _ hw).resolve_left hp⟩
    · exact absurd (List.eq_of_mem_replicate hw) hp

theorem levels_freshTopic (hF : ValidFilter F) (h : plusExpansion F d ≠ "") :
    levels (freshTopic ps F d) =
      instantiate plusLevel (freshLevel ps) ((levels F).dropLast ++ List.replicate d plusLevel) := by
  refine levels_joinLevels (fun hnil => h ?_) fun l hl => ?_
  · rw [instantiate, List.map_eq_nil_iff] at hnil
    rw [plusExpansion, hnil]; rfl
  · rcases mem_freshTopic_levels hF hl with rfl | ⟨hl, -⟩
    · intro hs
      have := List.eq_of_mem_replicate hs
      revert this; decide
    · exact slash_notMem_of_mem_levels hl

theorem isTopicName_freshTopic (hF : ValidFilter F) (h : plusExpansion F d ≠ "") :
    IsTopicName (freshTopic ps F d) := by
  have hchar : ∀ c ∈ (freshTopic ps F d).toList, c = '/' ∨ c = 'a' ∨ (c ≠ '+' ∧ c ≠ '#' ∧ c ∈ F.toList) := by
    intro c hc
    rw [freshTopic, joinLevels, String.toList_ofList] at hc
    rcases mem_intercalate hc with hc | ⟨l, hl, hc⟩
    · exact Or.inl hc
    · rcases mem_freshTopic_levels hF hl with rfl | ⟨hl, hp⟩
      · exact Or.inr (Or.inl (List.eq_of_mem_replicate hc))
      · simp only [plainLevel, Bool.and_eq_true, Bool.not_eq_true', List.contains_eq_mem,
          decide_eq_false_iff_not] at hp
        exact Or.inr (Or.inr ⟨fun e => hp.1 (e ▸ hc), fun e => hp.2 (e ▸ hc), mem_of_mem_levels hl hc⟩)
  refine ⟨fun he => h ?_, fun hc => ?_, fun hc => ?_, fun hc => ?_⟩
  · rcases joinLevels_eq_empty he with he | he
    · rw [instantiate, List.map_eq_nil_iff] at he
      rw [plusExpansion, he]; rfl
    · -- the single level of the topic is empty, hence not the fresh one
      obtain ⟨w, hw, hw'⟩ := List.map_eq_singleton_iff.1 he
      have hp : w ≠ plusLevel := fun hp => by simp [hp, freshLevel, List.replicate_succ] at hw'
      rw [if_neg hp] at hw'
      rw [plusExpansion, hw, hw']; rfl
  · rcases hchar _ hc with h | h | h
    · exact absurd h (by decide)
    · exact absurd h (by decide)
    · exact h.1 rfl
  · rcases hchar _ hc with h | h | h
    · exact absurd h (by decide)
    · exact absurd h (by decide)
    · exact h.2.1 rfl
  · rcases hchar _ hc with h | h | h
    · exact absurd h (by decide)
    · exact absurd h (by decide)
    · exact hF.2.1 h.2.2

/-- `F` ending in `#` matches the fresh topic of each of its expansions. -/
theorem matches_freshTopic (hF : ValidFilter F) (hlast : (levels F).getLast? = some hashLevel) (h : plusExpansion F d ≠ "") :
    mqttMatches F (freshTopic ps F d) = true := by
  rw [mqttMatches, levels_eq_of_last_hash hlast,
    levelsMatch_hash_iff (hash_notMem_dropLast hF) (levels_ne_nil _), levels_freshTopic hF h]
  exact ⟨d, levelsMatch_self_instantiate (freshLevel_noDollar ps) (hash_notMem_expansion hF d)⟩

theorem matches_expansion_of_freshTopic (hF : ValidFilter F) (h : plusExpansion F d ≠ "") {p : String} (hp : p ∈ ps)
    (hm : mqttMatches p (freshTopic ps F d) = true) : mqttMatches p (plusExpansion F d) = true := by
  rw [mqttMatches] at hm ⊢
  rw [levels_freshTopic hF h] at hm
  rw [levels_plusExpansion h]
  exact levelsMatch_of_instantiate (freshLevel_noDollar ps) (freshLevel_notMem hp) hm

end FreshTopic

/-- **`subscribeCovered_iff`**: under an enforced default-deny policy, of valid filters as a policy that loads is
(`fromValue_valid`), the coverage test is sound for `F` exactly when `F` does not end in `#`, or nothing matches it as a
string, or every filter that puts some number of `+` levels in place of the `#` is matched as a string too. -/
theorem subscribeCovered_iff (hP : TopicSpec P) (hen : acl.enforced = true)
    (hdeny : acl.defaultAllow = false) (hvalid : acl.PatternsValid P) (hF : P.validTopicFilter F = true) :
    SubscribeCovered P acl identity F ↔
      (levels F).getLast? ≠ some hashLevel ∨
      (∀ p ∈ acl.subscribePatterns identity, P.topicMatches p F = false) ∨
      ∀ d, plusExpansion F d ≠ "" →
        ∃ p ∈ acl.subscribePatterns identity, P.topicMatches p (plusExpansion F d) = true := by
  have hV := hP.valid_filter F hF
  have heq : ∀ p ∈ acl.subscribePatterns identity, ∀ s, P.topicMatches p s = mqttMatches p s := by
    intro p hp s
    obtain ⟨r, hr, hpr⟩ := mem_subscribePatterns.1 hp
    exact hP.matches_eq p s ((hvalid r (List.mem_filter.1 hr).1).2 p hpr)
  constructor
  · intro hcov
    by_cases hlast : (levels F).getLast? = some hashLevel
    · by_cases hgr : ∃ p ∈ acl.subscribePatterns identity, P.topicMatches p F = true
      · refine Or.inr (Or.inr fun d hd => ?_)
        obtain ⟨r, hr, p, hp, hm⟩ := hcov ((canSubscribe_iff hen hdeny).2 hgr)
          (freshTopic (acl.subscribePatterns identity) F d) (isTopicName_freshTopic hV hd)
          ((hP.matches_eq F _ hF).trans (matches_freshTopic hV hlast hd))
        have hmem := mem_subscribePatterns.2 ⟨r, hr, hp⟩
        rw [heq p hmem] at hm
        exact ⟨p, hmem, (heq p hmem _).trans (matches_expansion_of_freshTopic hV hd hmem hm)⟩
      · push Not at hgr
        exact Or.inr (Or.inl fun p hp => by simpa using hgr p hp)
    · exact Or.inl hlast
  · rintro h hgr T hT hFT
    obtain ⟨p, hp, hpF⟩ := (canSubscribe_iff hen hdeny).1 hgr
    have done : ∀ p ∈ acl.subscribePatterns identity, mqttMatches p T = true →
        ∃ r ∈ acl.applicable identity, ∃ p ∈ r.subscribe, P.topicMatches p T = true := by
      intro p hp hpT
      obtain ⟨r, hr, hpr⟩ := mem_subscribePatterns.1 hp
      exact ⟨r, hr, p, hpr, (heq p hp T).trans hpT⟩
    rw [hP.matches_eq F T hF] at hFT
    by_cases hlast : (levels F).getLast? = some hashLevel
    · rcases h with h | h | h
      · exact absurd hlast h
      · rw [h p hp] at hpF; cases hpF
      · obtain ⟨d, hd, hdT⟩ := exists_expansion hV hlast hT.1 hFT
        obtain ⟨q, hq, hqd⟩ := h d hd
        refine done q hq ?_
        rw [heq q hq] at hqd
        refine levelsMatch_trans ?_ hqd hdT
        rw [levels_plusExpansion hd]
        exact hash_notMem_expansion hV d
    · rw [heq p hp] at hpF
      exact done p hp (granted_covers hV hlast hpF hFT)

/-- A policy granting every identity the single-level filter `a/+`. -/
def oneLevelGrant : Acl := ⟨true, false, [{ identity := "*", subscribe := ["a/+"] }]⟩

theorem oneLevelGrant_valid : oneLevelGrant.PatternsValid Protocol.reference := by
  intro r hr
  obtain rfl := List.mem_singleton.1 hr
  decide

theorem subscribeCovered_iff_hash :
    SubscribeCovered Protocol.reference oneLevelGrant "client" "a/#" ↔
      (levels "a/#").getLast? ≠ some hashLevel ∨
      (∀ p ∈ oneLevelGrant.subscribePatterns "client", Protocol.reference.topicMatches p "a/#" = false) ∨
      ∀ d, plusExpansion "a/#" d ≠ "" →
        ∃ p ∈ oneLevelGrant.subscribePatterns "client",
          Protocol.reference.topicMatches p (plusExpansion "a/#" d) = true :=
  subscribeCovered_iff topicSpec_reference rfl rfl oneLevelGrant_valid (by decide)

/-- With `a/+` granted, the broader `a/#` is accepted and reaches `a/b/c`, which no grant matches. -/
theorem subscribe_hash_overreach :
    TopicSpec Protocol.reference ∧ Protocol.reference.validTopicFilter "a/#" = true ∧
      oneLevelGrant.enforced = true ∧ oneLevelGrant.defaultAllow = false ∧ oneLevelGrant.PatternsValid Protocol.reference ∧
      ¬ SubscribeCovered Protocol.reference oneLevelGrant "client" "a/#" := by
  refine ⟨topicSpec_reference, by decide, rfl, rfl, oneLevelGrant_valid, fun h => ?_⟩
  obtain ⟨r, hr, p, hp, hm⟩ := h (by decide) "a/b/c" (by decide) (by decide)
  obtain rfl : r = { identity := "*", subscribe := ["a/+"] } := by
    simpa [Acl.applicable, oneLevelGrant, anyIdentity] using hr
  obtain rfl : p = "a/+" := by simpa using hp
  revert hm; decide

end Coverage

end WispMQ
