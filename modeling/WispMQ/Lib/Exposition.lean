import Mathlib.Data.List.Basic
import Mathlib.Data.List.TakeWhile
/-!
# The text exposition of metrics

A text of lines, in groups: each metric has its `# HELP`, its `# TYPE` and its samples, and no metric has two groups.

* `Family` — a metric with its samples, and how it is written (`Family.lines`).
* `read` — the metrics of a text; `none` if it is no such text. Escapes are not read.
* `read_write` — what is written is read back.
-/

namespace Exposition

abbrev Text := List Char

structure Sample where
  labels : List (Text × Text)
  value : Nat
deriving DecidableEq

structure Family where
  name : Text
  help : Text
  kind : Text
  samples : List Sample
deriving DecidableEq

/-! ## Writing -/

def writeLabel (l : Text × Text) : Text := l.1 ++ "=\"".toList ++ l.2 ++ "\"".toList

def writeLabels : List (Text × Text) → Text
  | [] => ['}']
  | [l] => writeLabel l ++ ['}']
  | l :: l' :: ls => writeLabel l ++ ',' :: writeLabels (l' :: ls)

def Sample.line (name : Text) (s : Sample) : Text :=
  name ++ (if s.labels = [] then [] else '{' :: writeLabels s.labels) ++ ' ' :: Nat.toDigits 10 s.value

theorem Sample.line_plain (name : Text) (value : Nat) : Sample.line name ⟨[], value⟩ = name ++ ' ' :: Nat.toDigits 10 value := by
  rw [line, if_pos rfl, List.append_nil]

theorem Sample.line_labels (name : Text) (l : Text × Text) (ls : List (Text × Text)) (value : Nat) :
    Sample.line name ⟨l :: ls, value⟩ = name ++ '{' :: writeLabels (l :: ls) ++ ' ' :: Nat.toDigits 10 value := by
  rw [line, if_neg (List.cons_ne_nil l ls)]

def Family.lines (f : Family) : List Text :=
  ("# HELP ".toList ++ f.name ++ ' ' :: f.help) :: ("# TYPE ".toList ++ f.name ++ ' ' :: f.kind) ::
    f.samples.map (Sample.line f.name)

def write (fs : List Family) : Text := (fs.flatMap Family.lines).flatMap (· ++ ['\n'])

/-! ## Reading -/

def isNameChar (c : Char) : Bool := c.isAlphanum || c = '_' || c = ':'

/-- What stands for itself in a help text or in the value of a label. -/
def isPlain (c : Char) : Bool := c ≠ '"' && c ≠ '\\' && c ≠ '\n'

/-- The lines of a text whose last line has an end, behind the beginning of one. -/
def linesFrom : Text → Text → Option (List Text)
  | cur, [] => if cur = [] then some [] else none
  | cur, c :: cs => if c = '\n' then (linesFrom [] cs).map (cur :: ·) else linesFrom (cur ++ [c]) cs

/-- A name, and what is behind it. -/
def readName (cs : Text) : Option (Text × Text) :=
  if cs.takeWhile isNameChar = [] then none else some (cs.takeWhile isNameChar, cs.dropWhile isNameChar)

def readLabel (cs : Text) : Option ((Text × Text) × Text) :=
  match readName cs with
  | some (name, '=' :: '"' :: rest) =>
    match rest.dropWhile isPlain with
    | '"' :: rest' => some ((name, rest.takeWhile isPlain), rest')
    | _ => none
  | _ => none

/-- The labels up to the brace; there are no more of them than there are characters. -/
def readLabels : Nat → Text → Option (List (Text × Text) × Text)
  | 0, _ => none
  | n + 1, cs =>
    match readLabel cs with
    | some (l, '}' :: rest) => some ([l], rest)
    | some (l, ',' :: rest) => (readLabels n rest).map fun r => (l :: r.1, r.2)
    | _ => none

def readValue (cs : Text) : Option Nat :=
  if cs.isEmpty || !cs.all Char.isDigit then none else some (Nat.ofDigitChars 10 cs 0)

inductive Line where
  | help (name text : Text)
  | type (name kind : Text)
  | sample (name : Text) (s : Sample)
deriving DecidableEq

/-- A name and a text behind a blank. -/
def readNamed (cs : Text) : Option (Text × Text) :=
  match readName cs with
  | some (name, ' ' :: text) => if text.contains '\\' then none else some (name, text)
  | _ => none

def readSample (cs : Text) : Option Line :=
  match readName cs with
  | some (name, ' ' :: value) => (readValue value).map fun v => .sample name ⟨[], v⟩
  | some (name, '{' :: rest) =>
    match readLabels rest.length rest with
    | some (labels, ' ' :: value) => (readValue value).map fun v => .sample name ⟨labels, v⟩
    | _ => none
  | _ => none

def readLine (cs : Text) : Option Line :=
  match cs.dropPrefix? "# HELP ".toList, cs.dropPrefix? "# TYPE ".toList with
  | some rest, _ => (readNamed rest).map fun r => .help r.1 r.2
  | none, some rest => (readNamed rest).map fun r => .type r.1 r.2
  | none, none => readSample cs

/-- The groups so far, the one at hand first. -/
def group (fs : List Family) : Line → Option (List Family)
  | .help name text => if fs.any (·.name = name) then none else some (⟨name, text, [], []⟩ :: fs)
  | .type name kind =>
    match fs with
    | f :: fs => if f.name = name ∧ f.kind = [] ∧ f.samples = [] then some ({ f with kind := kind } :: fs) else none
    | [] => none
  | .sample name s =>
    match fs with
    | f :: fs =>
      if f.name = name ∧ f.kind ≠ [] then some ({ f with samples := f.samples ++ [s] } :: fs) else none
    | [] => none

/-- One line after the other. -/
def readLines : List Family → List Text → Option (List Family)
  | fs, [] => some fs.reverse
  | fs, l :: ls => (readLine l).bind fun line => (group fs line).bind fun fs => readLines fs ls

def read (text : Text) : Option (List Family) := (linesFrom [] text).bind (readLines [])

/-! ## Names and labels -/

structure Name (name : Text) : Prop where
  nonempty : name ≠ []
  chars : ∀ c ∈ name, isNameChar c = true

theorem Name.of_all {name : Text} (hne : name ≠ []) (h : name.all isNameChar = true) : Name name :=
  ⟨hne, List.all_eq_true.1 h⟩

theorem span_append {p : Char → Bool} {a : Text} {c : Char} (rest : Text) (h : ∀ x ∈ a, p x = true) (hc : p c = false) :
    (a ++ c :: rest).takeWhile p = a ∧ (a ++ c :: rest).dropWhile p = c :: rest := by
  rw [List.takeWhile_append_of_pos h, List.dropWhile_append_of_pos h, List.takeWhile_cons_of_neg (by simp [hc]),
    List.dropWhile_cons_of_neg (by simp [hc]), List.append_nil]
  exact ⟨rfl, rfl⟩

theorem readName_append {name : Text} (h : Name name) {c : Char} (hc : isNameChar c = false) (rest : Text) :
    readName (name ++ c :: rest) = some (name, c :: rest) := by
  obtain ⟨htake, hdrop⟩ := span_append rest h.chars hc
  rw [readName, htake, hdrop, if_neg h.nonempty]

/-- A label that is written without escapes. -/
structure PlainLabel (l : Text × Text) : Prop where
  name : Name l.1
  value : ∀ c ∈ l.2, isPlain c = true

theorem readLabel_append {l : Text × Text} (h : PlainLabel l) (rest : Text) :
    readLabel (writeLabel l ++ rest) = some (l, rest) := by
  have hname : readName (writeLabel l ++ rest) = some (l.1, '=' :: '"' :: (l.2 ++ '"' :: rest)) := by
    simpa [writeLabel] using readName_append h.name (c := '=') (by decide) ('"' :: (l.2 ++ '"' :: rest))
  obtain ⟨htake, hdrop⟩ := span_append (p := isPlain) (c := '"') rest h.value (by decide)
  simp only [readLabel, hname, htake, hdrop]

theorem readLabels_append : ∀ (ls : List (Text × Text)) (n : Nat) (rest : Text), ls ≠ [] → ls.length ≤ n →
    (∀ l ∈ ls, PlainLabel l) → readLabels n (writeLabels ls ++ rest) = some (ls, rest)
  | [l], n + 1, rest, _, _, h => by
    have hl := readLabel_append (h l (List.mem_singleton_self _)) ('}' :: rest)
    simp only [writeLabels, List.append_assoc, List.singleton_append, readLabels, hl]
  | l :: l' :: ls, n + 1, rest, _, hn, h => by
    have hl := readLabel_append (h l (List.mem_cons_self ..)) (',' :: (writeLabels (l' :: ls) ++ rest))
    have hrest := readLabels_append (l' :: ls) n rest (by simp) (Nat.le_of_succ_le_succ hn)
      fun x hx => h x (List.mem_cons_of_mem _ hx)
    simp only [writeLabels, List.append_assoc, List.cons_append, readLabels, hl, hrest, Option.map_some]

theorem length_writeLabels : ∀ (ls : List (Text × Text)), ls.length ≤ (writeLabels ls).length
  | [] => Nat.zero_le _
  | [l] => by simp [writeLabels]
  | l :: l' :: ls => by
    have ih := length_writeLabels (l' :: ls)
    simp only [writeLabels, List.length_append, List.length_cons] at ih ⊢
    omega

/-! ## Lines -/

/-- What is written without escapes. -/
structure Family.WellFormed (f : Family) : Prop where
  name : Name f.name
  help : '\n' ∉ f.help ∧ '\\' ∉ f.help
  kind : Name f.kind
  labels : ∀ s ∈ f.samples, ∀ l ∈ s.labels, PlainLabel l

theorem readNamed_append {name text : Text} (h : Name name) (ht : '\\' ∉ text) :
    readNamed (name ++ ' ' :: text) = some (name, text) := by
  simp [readNamed, readName_append h (c := ' ') (by decide), ht]

theorem readLine_help {f : Family} (h : f.WellFormed) :
    readLine ("# HELP ".toList ++ f.name ++ ' ' :: f.help) = some (.help f.name f.help) := by
  have hdrop : ("# HELP ".toList ++ f.name ++ ' ' :: f.help).dropPrefix? "# HELP ".toList = some (f.name ++ ' ' :: f.help) := by
    rw [List.append_assoc]
    exact List.dropPrefix?_append_of_beq _ (by simp)
  simp only [readLine, hdrop, readNamed_append h.name h.help.2, Option.map_some]

theorem Name.no_backslash {name : Text} (h : Name name) : '\\' ∉ name := fun hc => absurd (h.chars _ hc) (by decide)

theorem Name.no_newline {name : Text} (h : Name name) : '\n' ∉ name := fun hc => absurd (h.chars _ hc) (by decide)

theorem readLine_type {f : Family} (h : f.WellFormed) :
    readLine ("# TYPE ".toList ++ f.name ++ ' ' :: f.kind) = some (.type f.name f.kind) := by
  have hhelp : ("# TYPE ".toList ++ f.name ++ ' ' :: f.kind).dropPrefix? "# HELP ".toList = none := by
    rw [List.append_assoc]
    rfl
  have hdrop : ("# TYPE ".toList ++ f.name ++ ' ' :: f.kind).dropPrefix? "# TYPE ".toList = some (f.name ++ ' ' :: f.kind) := by
    rw [List.append_assoc]
    exact List.dropPrefix?_append_of_beq _ (by simp)
  simp only [readLine, hhelp, hdrop, readNamed_append h.name h.kind.no_backslash, Option.map_some]

theorem readValue_toDigits (n : Nat) : readValue (Nat.toDigits 10 n) = some n := by
  have hempty : (Nat.toDigits 10 n).isEmpty = false := List.isEmpty_eq_false_iff.2 Nat.toDigits_ne_nil
  have hall : (Nat.toDigits 10 n).all Char.isDigit = true :=
    List.all_eq_true.2 fun c hc => Nat.isDigit_of_mem_toDigits (by omega) (by omega) hc
  simp [readValue, hempty, hall, Nat.ofDigitChars_ten_toDigits]

/-- A line that does not begin with `#` is a sample. -/
theorem readLine_name {name rest : Text} (h : Name name) : readLine (name ++ rest) = readSample (name ++ rest) := by
  obtain ⟨c, name', rfl⟩ := List.exists_cons_of_ne_nil h.nonempty
  have hc : c ≠ '#' := by
    rintro rfl
    exact absurd (h.chars '#' (List.mem_cons_self ..)) (by decide)
  have hnone : ∀ rest' : Text, (c :: name' ++ rest).dropPrefix? ('#' :: rest') = none := by
    intro rest'
    rw [List.cons_append, List.dropPrefix?, beq_eq_false_iff_ne.2 hc]
    rfl
  have hhelp := hnone " HELP ".toList
  have htype := hnone " TYPE ".toList
  rw [readLine, show "# HELP ".toList = '#' :: " HELP ".toList from rfl, show "# TYPE ".toList = '#' :: " TYPE ".toList from rfl,
    hhelp, htype]

theorem readLine_sample {f : Family} (h : f.WellFormed) {s : Sample} (hs : s ∈ f.samples) :
    readLine (s.line f.name) = some (.sample f.name s) := by
  rw [Sample.line, List.append_assoc, readLine_name h.name]
  by_cases hlabels : s.labels = []
  · obtain ⟨labels, value⟩ := s
    cases hlabels
    simp [readSample, readName_append h.name (c := ' ') (by decide), readValue_toDigits]
  · have hread := readLabels_append s.labels (writeLabels s.labels ++ ' ' :: Nat.toDigits 10 s.value).length
      (' ' :: Nat.toDigits 10 s.value) hlabels (by
        have := length_writeLabels s.labels
        simp only [List.length_append]
        omega) (h.labels s hs)
    simp only [readSample, hlabels, if_false, List.cons_append, readName_append h.name (c := '{') (by decide), hread,
      readValue_toDigits, Option.map_some]

theorem no_newline_digits (n : Nat) : '\n' ∉ Nat.toDigits 10 n := fun hc =>
  absurd (Nat.isDigit_of_mem_toDigits (by omega) (by omega) hc) (by decide)

theorem no_newline_writeLabels : ∀ {ls : List (Text × Text)}, (∀ l ∈ ls, PlainLabel l) → '\n' ∉ writeLabels ls
  | [], _ => by simp [writeLabels]
  | [l], h => by
    have hl := h l (List.mem_singleton_self _)
    have hvalue : '\n' ∉ l.2 := fun hc => absurd (hl.value _ hc) (by decide)
    simp [writeLabels, writeLabel, hl.name.no_newline, hvalue]
  | l :: l' :: ls, h => by
    have hl := h l (List.mem_cons_self ..)
    have hvalue : '\n' ∉ l.2 := fun hc => absurd (hl.value _ hc) (by decide)
    have hrest := no_newline_writeLabels fun x hx => h x (List.mem_cons_of_mem l hx)
    simp [writeLabels, writeLabel, hl.name.no_newline, hvalue, hrest]

theorem Family.WellFormed.no_newline {f : Family} (h : f.WellFormed) : ∀ l ∈ f.lines, '\n' ∉ l := by
  intro l hl
  rcases List.mem_cons.1 hl with rfl | hl
  · simp [h.name.no_newline, h.help.1]
  rcases List.mem_cons.1 hl with rfl | hl
  · simp [h.name.no_newline, h.kind.no_newline]
  · obtain ⟨s, hs, rfl⟩ := List.mem_map.1 hl
    have hlabels := no_newline_writeLabels (h.labels s hs)
    simp only [Sample.line]
    split
    · simp [h.name.no_newline, no_newline_digits]
    · simp [h.name.no_newline, no_newline_digits, hlabels]

theorem linesFrom_append : ∀ (l cur rest : Text), '\n' ∉ l →
    linesFrom cur (l ++ '\n' :: rest) = (linesFrom [] rest).map ((cur ++ l) :: ·)
  | [], cur, rest, _ => by rw [List.nil_append, linesFrom, if_pos rfl, List.append_nil]
  | c :: l, cur, rest, h => by
    obtain ⟨hc, hl⟩ := not_or.1 (mt List.mem_cons.2 h)
    rw [List.cons_append, linesFrom, if_neg (Ne.symm hc), linesFrom_append l (cur ++ [c]) rest hl, List.append_assoc]
    rfl

theorem linesFrom_lines : ∀ {ls : List Text}, (∀ l ∈ ls, '\n' ∉ l) → linesFrom [] (ls.flatMap (· ++ ['\n'])) = some ls
  | [], _ => rfl
  | l :: ls, h => by
    have ih := linesFrom_lines fun x hx => h x (List.mem_cons_of_mem l hx)
    rw [List.flatMap_cons, List.append_assoc, List.singleton_append, linesFrom_append l [] _ (h l (List.mem_cons_self ..)), ih]
    rfl

/-! ## Groups -/

/-- The samples of a group are taken one after the other. -/
theorem readLines_samples {f : Family} (h : f.WellFormed) (fs : List Family) (ls : List Text) :
    ∀ (before after : List Sample), before ++ after = f.samples →
      readLines ({ f with samples := before } :: fs) (after.map (Sample.line f.name) ++ ls) = readLines (f :: fs) ls
  | before, [], hsplit => by
    rw [List.append_nil] at hsplit
    rw [hsplit]
    rfl
  | before, s :: after, hsplit => by
    have hs : s ∈ f.samples := by
      rw [← hsplit]
      exact List.mem_append_right _ (List.mem_cons_self ..)
    have ih := readLines_samples h fs ls (before ++ [s]) after (by rw [← hsplit, List.append_assoc, List.singleton_append])
    have hkind := h.kind.nonempty
    rw [List.map_cons, List.cons_append, readLines, readLine_sample h hs, Option.bind_some, group, if_pos ⟨rfl, hkind⟩,
      Option.bind_some]
    exact ih

theorem readLines_family {f : Family} (h : f.WellFormed) {fs : List Family} (hnew : ∀ g ∈ fs, g.name ≠ f.name)
    (ls : List Text) : readLines fs (f.lines ++ ls) = readLines (f :: fs) ls := by
  have hfirst : fs.any (·.name = f.name) = false := by
    rw [List.any_eq_false]
    intro g hg
    simpa using hnew g hg
  have hsamples := readLines_samples h fs ls [] f.samples rfl
  rw [Family.lines, List.cons_append, List.cons_append, readLines, readLine_help h, Option.bind_some, group, hfirst,
    if_neg (by simp), Option.bind_some, readLines, readLine_type h, Option.bind_some, group, if_pos ⟨rfl, rfl, rfl⟩,
    Option.bind_some]
  exact hsamples

theorem readLines_families : ∀ {fs : List Family} (done : List Family), (∀ f ∈ fs, f.WellFormed) →
    ((done.reverse ++ fs).map Family.name).Nodup → readLines done (fs.flatMap Family.lines) = some (done.reverse ++ fs)
  | [], done, _, _ => by rw [List.append_nil]; rfl
  | f :: fs, done, h, hnodup => by
    have hnew : ∀ g ∈ done, g.name ≠ f.name := by
      intro g hg heq
      rw [List.map_append, List.nodup_append] at hnodup
      exact hnodup.2.2 g.name (List.mem_map_of_mem (List.mem_reverse.2 hg)) f.name
        (List.mem_map_of_mem (List.mem_cons_self ..)) heq
    have hsame : done.reverse ++ f :: fs = (f :: done).reverse ++ fs := by simp
    rw [List.flatMap_cons, readLines_family (h f (List.mem_cons_self ..)) hnew, hsame]
    exact readLines_families (f :: done) (fun g hg => h g (List.mem_cons_of_mem _ hg)) (by rwa [hsame] at hnodup)

/-- What is written is read back. -/
theorem read_write {fs : List Family} (h : ∀ f ∈ fs, f.WellFormed) (hnodup : (fs.map Family.name).Nodup) :
    read (write fs) = some fs := by
  have hlines : ∀ l ∈ fs.flatMap Family.lines, '\n' ∉ l := by
    intro l hl
    obtain ⟨f, hf, hl⟩ := List.mem_flatMap.1 hl
    exact (h f hf).no_newline l hl
  rw [read, write, linesFrom_lines hlines]
  exact readLines_families [] h hnodup

end Exposition
