import WispMQ.Packet
import WispMQ.Lib.Wildcard
/-!
# Topic names and filters (MQTT 4.7)

The rules `wispmq-protocol` is documented to implement, stated on `/`-separated strings:
`mqttMatches` (4.7.1, 4.7.2), `ValidFilter` and `IsTopicName` (4.7.1, 4.7.3), and `TopicSpec`, the
hypothesis that a `Protocol` follows them. `Protocol.reference` is one that does; concrete runs use it.

`matches` never looks for wildcards in its second argument. That is what makes the ACL's coverage test,
which matches a *filter* against a pattern, a question of its own (`WispMQ.Acl`).
-/

namespace WispMQ
open Wildcard

/-- The levels of a topic name or filter. -/
def levels (s : String) : List (List Char) := s.toList.splitOn '/'

/-- The string with the given levels. -/
def joinLevels (ls : List (List Char)) : String := String.ofList (List.intercalate ['/'] ls)

abbrev plusLevel : List Char := ['+']
abbrev hashLevel : List Char := ['#']

/-- The string starts with `$`, read off its first level. -/
def startsWithDollar : List (List Char) → Bool
  | ('$' :: _) :: _ => true
  | _ => false

/-- Level-by-level matching; a leading wildcard does not match a `$` topic (4.7.2). -/
def levelsMatch (p s : List (List Char)) : Bool :=
  !(leads plusLevel hashLevel p && startsWithDollar s) && levelMatch plusLevel hashLevel p s

def mqttMatches (pattern s : String) : Bool := levelsMatch (levels pattern) (levels s)

/-- A level without wildcard characters. -/
def plainLevel (l : List Char) : Bool := !l.contains '+' && !l.contains '#'

/-- Valid Topic Filter: not empty, no NUL, `+` alone in its level, `#` alone in the last one. -/
def ValidFilter (f : String) : Prop :=
  f ≠ "" ∧ Char.ofNat 0 ∉ f.toList ∧
    (∀ l ∈ (levels f).dropLast, l = plusLevel ∨ plainLevel l = true) ∧
    (∀ l ∈ (levels f).getLast?, l = plusLevel ∨ l = hashLevel ∨ plainLevel l = true)

instance (f : String) : Decidable (ValidFilter f) :=
  inferInstanceAs (Decidable (_ ∧ _ ∧ _ ∧ _))

/-- Topic Name: not empty, no wildcard character, no NUL. -/
def IsTopicName (t : String) : Prop :=
  t ≠ "" ∧ '+' ∉ t.toList ∧ '#' ∉ t.toList ∧ Char.ofNat 0 ∉ t.toList

instance (t : String) : Decidable (IsTopicName t) :=
  inferInstanceAs (Decidable (_ ∧ _ ∧ _ ∧ _))

/-- The crate's filter validation follows MQTT 4.7, and so does its matching, of a pattern that is a valid filter. -/
structure TopicSpec (P : Protocol) : Prop where
  matches_eq : ∀ pattern s, P.validTopicFilter pattern = true → P.topicMatches pattern s = mqttMatches pattern s
  valid_filter : ∀ f, P.validTopicFilter f = true → ValidFilter f

/-! ## Levels and strings -/

theorem levels_ne_nil (s : String) : levels s ≠ [] := by
  simp [levels]

theorem joinLevels_levels (s : String) : joinLevels (levels s) = s := by
  simp [joinLevels, levels, List.intercalate_splitOn]

theorem levels_joinLevels {ls : List (List Char)} (hne : ls ≠ []) (hs : ∀ l ∈ ls, '/' ∉ l) :
    levels (joinLevels ls) = ls := by
  simp [joinLevels, levels, List.splitOn_intercalate _ hs hne]

theorem sep_notMem_splitOn (x : Char) : ∀ (s : List Char), ∀ l ∈ s.splitOn x, x ∉ l
  | [], l, hl => by
    have hnil : l = [] := by simpa using hl
    simp [hnil]
  | c :: s, l, hl => by
    have ih := sep_notMem_splitOn x s
    rw [List.splitOn_cons_eq_if_modifyHead] at hl
    split at hl
    · rcases List.mem_cons.1 hl with rfl | hl
      · simp
      · exact ih l hl
    · rename_i hc
      cases hs : s.splitOn x with
      | nil => exact absurd hs (List.splitOn_ne_nil _ _)
      | cons a as =>
        rw [hs] at hl ih
        simp only [List.modifyHead_cons, List.mem_cons] at hl
        rcases hl with rfl | hl
        · have hne : ¬ c = x := by simpa using hc
          simpa [Ne.symm hne] using ih a List.mem_cons_self
        · exact ih l (List.mem_cons_of_mem _ hl)

theorem slash_notMem_of_mem_levels {s : String} {l : List Char} (h : l ∈ levels s) : '/' ∉ l :=
  sep_notMem_splitOn '/' _ l h

theorem mem_intercalate {c x : Char} : ∀ {ls : List (List Char)},
    c ∈ List.intercalate [x] ls → c = x ∨ ∃ l ∈ ls, c ∈ l
  | [], h => by simp at h
  | [l], h => Or.inr ⟨l, List.mem_cons_self, by simpa using h⟩
  | l :: b :: bs, h => by
    rw [List.intercalate_cons_cons] at h
    simp only [List.mem_append, List.mem_singleton] at h
    rcases h with (h | h) | h
    · exact Or.inr ⟨l, List.mem_cons_self, h⟩
    · exact Or.inl h
    · rcases mem_intercalate h with h | ⟨l', hl', hc⟩
      · exact Or.inl h
      · exact Or.inr ⟨l', List.mem_cons_of_mem _ hl', hc⟩

theorem mem_intercalate_of_mem {c x : Char} {l : List Char} : ∀ {ls : List (List Char)},
    l ∈ ls → c ∈ l → c ∈ List.intercalate [x] ls
  | [_], hl, hc => by
    rw [List.mem_singleton] at hl
    subst hl; simpa using hc
  | a :: b :: bs, hl, hc => by
    rw [List.intercalate_cons_cons]
    rcases List.mem_cons.1 hl with rfl | hl
    · simp [hc]
    · exact List.mem_append_right _ (mem_intercalate_of_mem hl hc)

theorem mem_of_mem_levels {s : String} {l : List Char} {c : Char} (hl : l ∈ levels s) (hc : c ∈ l) :
    c ∈ s.toList := by
  have h := mem_intercalate_of_mem (x := '/') hl hc
  rwa [levels, List.intercalate_splitOn] at h

theorem joinLevels_eq_empty {ls : List (List Char)} (h : joinLevels ls = "") : ls = [] ∨ ls = [[]] := by
  have h' : List.intercalate ['/'] ls = [] := by
    have := congrArg String.toList h
    simpa [joinLevels] using this
  match ls, h' with
  | [], _ => exact Or.inl rfl
  | [l], h' => exact Or.inr (by simpa using h')
  | a :: b :: bs, h' => rw [List.intercalate_cons_cons] at h'; simp at h'

/-! ## Matching a filter as if it were a topic -/

theorem startsWithDollar_plus (ls : List (List Char)) : startsWithDollar (plusLevel :: ls) = false := rfl

/-- Only the first level counts. -/
theorem startsWithDollar_cons (l : List Char) (ls : List (List Char)) :
    startsWithDollar (l :: ls) = startsWithDollar [l] := by
  cases l with
  | nil => rfl
  | cons c cs =>
    by_cases hc : c = '$'
    · subst hc; rfl
    · simp [startsWithDollar, hc]

/-- A filter without `#` that is matched, as a string, by `p` is covered by `p`. -/
theorem levelsMatch_trans {p g t : List (List Char)} (hg : hashLevel ∉ g) (hp : levelsMatch p g = true)
    (ht : levelsMatch g t = true) : levelsMatch p t = true := by
  simp only [levelsMatch, Bool.and_eq_true, Bool.not_eq_true', Bool.and_eq_false_iff] at hp ht ⊢
  refine ⟨?_, levelMatch_trans hg hp.2 ht.2⟩
  rcases hp.1 with hlp | hd
  · exact Or.inl hlp
  refine Or.inr ?_
  cases g with
  | nil =>
    have : t = [] := by simpa using ht.2
    subst this; rfl
  | cons w ws =>
    rcases leads_of_match hg ht.2 with rfl | hw
    · -- `g` starts with `+`, so it matched no `$` topic
      rcases ht.1 with h | h
      · simp [leads] at h
      · exact h
    · cases t with
      | nil => rfl
      | cons l ls =>
        obtain rfl : l = w := by simpa using hw
        rw [startsWithDollar_cons] at hd ⊢
        exact hd

/-- `g/#` matches a topic iff `g` followed by some number of `+` levels does. -/
theorem levelsMatch_hash_iff {g t : List (List Char)} (hg : hashLevel ∉ g) (ht : t ≠ []) :
    levelsMatch (g ++ [hashLevel]) t = true ↔
      ∃ d, levelsMatch (g ++ List.replicate d plusLevel) t = true := by
  have hlead : ∀ d, (g ≠ [] ∨ d ≠ 0) →
      leads plusLevel hashLevel (g ++ [hashLevel]) =
        leads plusLevel hashLevel (g ++ List.replicate d plusLevel) := by
    intro d hd
    cases g with
    | cons w ws => rfl
    | nil =>
      obtain ⟨k, rfl⟩ := Nat.exists_eq_succ_of_ne_zero (hd.resolve_left (by simp))
      simp [leads, List.replicate_succ]
  have hpos : ∀ d, levelMatch plusLevel hashLevel (g ++ List.replicate d plusLevel) t = true →
      g ≠ [] ∨ d ≠ 0 := by
    intro d hd
    by_contra hcon
    push Not at hcon
    obtain ⟨rfl, rfl⟩ := hcon
    exact ht (by simpa using hd)
  simp only [levelsMatch, Bool.and_eq_true]
  rw [levelMatch_hash_iff (by decide) hg]
  constructor
  · rintro ⟨h1, d, hd⟩
    exact ⟨d, hlead d (hpos d hd) ▸ h1, hd⟩
  · rintro ⟨d, h1, hd⟩
    exact ⟨(hlead d (hpos d hd)).symm ▸ h1, d, hd⟩

section Fresh
variable {x : List Char} {g p : List (List Char)}

theorem startsWithDollar_instantiate (hx : startsWithDollar [x] = false) :
    startsWithDollar (instantiate plusLevel x g) = startsWithDollar g := by
  cases g with
  | nil => rfl
  | cons w ws =>
    simp only [instantiate, List.map_cons]
    by_cases hw : w = plusLevel
    · rw [if_pos hw, hw, startsWithDollar_cons, hx]
      rfl
    · rw [if_neg hw, startsWithDollar_cons, startsWithDollar_cons w ws]

theorem levelsMatch_of_instantiate (hx : startsWithDollar [x] = false) (hxp : x ∉ p)
    (h : levelsMatch p (instantiate plusLevel x g) = true) : levelsMatch p g = true := by
  simp only [levelsMatch, Bool.and_eq_true, startsWithDollar_instantiate hx] at h ⊢
  exact ⟨h.1, levelMatch_instantiate hxp h.2⟩

theorem levelsMatch_self_instantiate (hx : startsWithDollar [x] = false) (hg : hashLevel ∉ g) :
    levelsMatch g (instantiate plusLevel x g) = true := by
  simp only [levelsMatch, Bool.and_eq_true, levelMatch_self_instantiate x hg, and_true,
    startsWithDollar_instantiate hx, Bool.not_eq_true', Bool.and_eq_false_iff]
  cases g with
  | nil => exact Or.inl rfl
  | cons w ws =>
    by_cases hw : w = plusLevel
    · exact Or.inr (hw ▸ startsWithDollar_plus ws)
    · have hh : w ≠ hashLevel := fun h => hg (h ▸ List.mem_cons_self)
      exact Or.inl (by simp [leads, hw, hh])

end Fresh

/-! ## A protocol that follows the rules -/

/-- `$share/{name}/{filter}` with a non-empty name and filter (4.8.2); any other string is itself. -/
def referenceParseFilter (raw : String) : Option ParsedFilter :=
  match levels raw with
  | ['$', 's', 'h', 'a', 'r', 'e'] :: name :: f :: fs =>
    if name = [] ∨ plainLevel name = false then none
    else some ⟨some (String.ofList name), joinLevels (f :: fs)⟩
  | [['$', 's', 'h', 'a', 'r', 'e'], _] => none
  | _ => some ⟨none, raw⟩

def referenceVersion (c : Connect) : Except ReasonCode ProtocolVersion :=
  match c.protocolVersion with
  | 5 => .ok .v5
  | 4 => .ok .v3_1_1
  | 3 => .ok .v3_1
  | _ => .error .protocolError

/-- Encoded length of an MQTT variable byte integer. -/
def varIntLen (n : Nat) : Nat := if n < 128 then 1 else if n < 16384 then 2 else if n < 2097152 then 3 else 4

def propertiesLen (p : Properties) : Nat :=
  (p.payloadFormatIndicator.elim 0 fun _ => 2) + (p.messageExpiryInterval.elim 0 fun _ => 5) +
  (p.contentType.elim 0 (3 + ·.utf8ByteSize)) + (p.responseTopic.elim 0 (3 + ·.utf8ByteSize)) +
  (p.correlationData.elim 0 (3 + ·.length)) + (p.topicAlias.elim 0 fun _ => 3) +
  (p.userProperties.map fun kv => 5 + kv.1.utf8ByteSize + kv.2.utf8ByteSize).sum +
  (p.subscriptionIdentifiers.map (1 + varIntLen ·)).sum

/-- Encoded v5 PUBLISH (3.3): fixed header, topic, packet id, properties, payload. -/
def referenceEncodedLen (p : Publish) : Option Nat :=
  let props := propertiesLen p.properties
  let rest := 2 + p.topic.utf8ByteSize + (if p.qos = .atMostOnce then 0 else 2) + varIntLen props + props +
    p.payload.length
  some (1 + varIntLen rest + rest)

/-- UTF-8 string with its two-byte length (1.5.4). -/
def referencePutUtf8 (s : String) : Bytes :=
  let b := s.toUTF8.toList
  UInt8.ofNat (b.length / 256) :: UInt8.ofNat b.length :: b

def readUtf8 : Bytes → Option (String × Bytes)
  | hi :: lo :: rest =>
    let n := hi.toNat * 256 + lo.toNat
    if n ≤ rest.length then (String.fromUTF8? ⟨(rest.take n).toArray⟩).map (·, rest.drop n) else none
  | _ => none

def referenceUtf8Pair (b : Bytes) : Option ((String × String) × Bytes) :=
  (readUtf8 b).bind fun k => (readUtf8 k.2).map fun v => ((k.1, v.1), v.2)

def Protocol.reference : Protocol where
  topicMatches := mqttMatches
  validTopicFilter f := decide (ValidFilter f)
  validTopicName t := decide (IsTopicName t)
  parseFilter := referenceParseFilter
  validateProtocol := referenceVersion
  encodedLen := referenceEncodedLen
  putUtf8 := referencePutUtf8
  utf8Pair := referenceUtf8Pair

theorem topicSpec_reference : TopicSpec Protocol.reference where
  matches_eq _ _ _ := rfl
  valid_filter _ h := by simpa [Protocol.reference] using h

theorem shareKey_joinLevels (name f : List Char) (fs : List (List Char)) :
    shareKey (some (String.ofList name)) (joinLevels (f :: fs)) =
      joinLevels (['$', 's', 'h', 'a', 'r', 'e'] :: name :: f :: fs) := by
  apply String.toList_inj.1
  simp [shareKey, joinLevels, List.intercalate_cons_cons]

theorem parseSpec_reference : Protocol.reference.ParseSpec := by
  intro raw p h
  simp only [Protocol.reference, referenceParseFilter] at h
  split at h
  · rename_i name f fs hl
    split at h
    · cases h
    · cases h
      rw [shareKey_joinLevels, ← hl, joinLevels_levels]
  · cases h
  · cases h; rfl

/-! ### The codec of strings -/

theorem byteArray_toList_loop (bs : ByteArray) (i : Nat) (r : List UInt8) :
    ByteArray.toList.loop bs i r = r.reverse ++ bs.data.toList.drop i := by
  fun_induction ByteArray.toList.loop bs i r with
  | case1 i r h ih =>
    have hi : i < bs.data.toList.length := by simpa using h
    have hget : bs.get! i = bs.data.toList[i] := getElem!_pos bs.data i h
    rw [ih, List.drop_eq_getElem_cons hi, hget]
    simp
  | case2 i r h =>
    have hi : bs.data.toList.length ≤ i := by simpa using h
    rw [List.drop_eq_nil_of_le hi, List.append_nil]

theorem byteArray_toList (bs : ByteArray) : bs.toList = bs.data.toList := byteArray_toList_loop bs 0 []

theorem readUtf8_put {s : String} (h : s.utf8ByteSize ≤ 65535) (rest : Bytes) :
    readUtf8 (referencePutUtf8 s ++ rest) = some (s, rest) := by
  have hlen : s.toUTF8.toList.length = s.utf8ByteSize := by
    rw [byteArray_toList]
    rfl
  have hn : (UInt8.ofNat (s.toUTF8.toList.length / 256)).toNat * 256 + (UInt8.ofNat s.toUTF8.toList.length).toNat =
      s.toUTF8.toList.length := by
    simp only [UInt8.toNat_ofNat']
    omega
  have hback : (⟨s.toUTF8.toList.toArray⟩ : ByteArray) = s.toUTF8 := by rw [byteArray_toList]
  have hstring : String.fromUTF8? s.toUTF8 = some s := by
    simp [String.fromUTF8?, String.fromUTF8, String.isValidUTF8]
  simp only [referencePutUtf8, List.cons_append, readUtf8, hn, List.length_append, Nat.le_add_right, if_true,
    List.take_left, List.drop_left, hback, hstring, Option.map_some]

theorem codecSpec_reference : Protocol.reference.CodecSpec := by
  intro k v rest hk hv
  show referenceUtf8Pair (referencePutUtf8 k ++ referencePutUtf8 v ++ rest) = _
  rw [referenceUtf8Pair, List.append_assoc, readUtf8_put hk, Option.bind_some, readUtf8_put hv, Option.map_some]

end WispMQ
