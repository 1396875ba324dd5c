import WispMQ.Admission
import WispMQ.Toml
import Mathlib.Data.List.TakeWhile
/-!
# The password file: `auth.rs`

| here | there |
| --- | --- |
| `Pbkdf2`                    | `ring::pbkdf2`, with the algorithm and the length of the hash fixed (auth.rs:29) |
| `load`, `loadLines`         | `Credentials::load` (auth.rs:46); reading the file is an argument |
| `hashPassword`, `formatEntry` | `hash_password`, `format_entry` (auth.rs:116, :132); the salt is an argument |
| `parseEntry`                | `parse_entry` (auth.rs:136) |
| `toHex`, `fromHex`          | `to_hex`, `from_hex` (auth.rs:165, :173) |

`--hash-password` prints what `formatEntry` says, for any username. The reader takes some usernames for something else: it
cuts at the first `:` and at line breaks, trims, and skips what begins with `#`. `PlainName` is what no name that comes out
of a password file can violate (`plainName_of_mem`), and what suffices for the printed line to be read back
(`entryOf_formatEntry`).
-/

namespace WispMQ.PasswordFile
open KeyMap WispMQ.Configuration

structure Pbkdf2 where
  derive : Nat → Bytes → Bytes → Vector UInt8 32
  verify : Nat → Bytes → Bytes → Bytes → Bool

/-! ## Writing -/

/-- `SCHEME` (auth.rs:27). -/
def scheme : String := "pbkdf2_sha256"

/-- `DEFAULT_ITERATIONS` (auth.rs:23). -/
def defaultIterations : Nat := 200000

/-- Two digits a byte. -/
def hexChars (bytes : Bytes) : List Char :=
  bytes.flatMap fun b => [Nat.digitChar (b.toNat / 16), Nat.digitChar (b.toNat % 16)]

def toHex (bytes : Bytes) : String := String.ofList (hexChars bytes)

def hashPassword (pb : Pbkdf2) (salt : Vector UInt8 16) (password : Bytes) : String :=
  let hash := pb.derive defaultIterations salt.toList password
  scheme ++ "$" ++ toString defaultIterations ++ "$" ++ toHex salt.toList ++ "$" ++ toHex hash.toList

def formatEntry (pb : Pbkdf2) (salt : Vector UInt8 16) (username : String) (password : Bytes) : String :=
  username ++ ":" ++ hashPassword pb salt password

/-! ## Reading -/

/-- `(byte as char).to_digit(16)`. -/
def toDigit (b : UInt8) : Option Nat :=
  if 48 ≤ b ∧ b ≤ 57 then some (b.toNat - 48)
  else if 97 ≤ b ∧ b ≤ 102 then some (b.toNat - 87)
  else if 65 ≤ b ∧ b ≤ 70 then some (b.toNat - 55)
  else none

/-- The chunks of two, each as a byte. -/
def hexPairs : Bytes → Option Bytes
  | hi :: lo :: rest => do
    let hi ← toDigit hi
    let lo ← toDigit lo
    let bytes ← hexPairs rest
    some (UInt8.ofNat (hi * 16 + lo) :: bytes)
  | _ => some []

def fromHex (s : String) : Option Bytes :=
  let bytes := s.toUTF8.toList
  if bytes.isEmpty || bytes.length % 2 != 0 then none else hexPairs bytes

def parseEntry (line : String) : Except String (String × Stored) :=
  match splitOnce ':' line with
  | none => .error "expected 'username:hash'"
  | some (user, rest) =>
    if user = "" then .error "empty username"
    else match splitOn '$' rest with
      | [name, iterations, salt, hash] =>
        if name ≠ scheme then .error "unsupported password hash (expected pbkdf2_sha256$…)"
        else match (parseUInt 32 iterations).filter (· ≠ 0) with
          | none => .error "iterations must be a positive integer"
          | some n => match fromHex salt with
            | none => .error "invalid salt hex"
            | some salt => match fromHex hash with
              | none => .error "invalid hash hex"
              | some hash => .ok (user, ⟨n, salt, hash⟩)
      | _ => .error "unsupported password hash (expected pbkdf2_sha256$…)"

/-- A line of the file: nothing for a blank one and for a comment. -/
def entryOf (raw : String) : Except String (Option (String × Stored)) :=
  let line := trim raw
  if line = "" || line.toList.head? = some '#' then .ok none else (parseEntry line).map some

/-- The loop over the lines, from the `i`-th on. -/
def loadLines (path : String) : Nat → List String → KeyMap String Stored → Except String (KeyMap String Stored)
  | _, [], users => .ok users
  | i, raw :: rest, users =>
    match entryOf raw with
    | .error e => .error (path ++ ":" ++ toString (i + 1) ++ ": " ++ e)
    | .ok none => loadLines path (i + 1) rest users
    | .ok (some (user, stored)) => loadLines path (i + 1) rest (users.insert user stored)

def stripCr (s : String) : String :=
  if s.toList.getLast? = some '\r' then String.ofList s.toList.dropLast else s

/-- `str::lines`: a line ends with `\n` or `\r\n`; what is behind the last line end is a line if there is anything. -/
def lines (text : String) : List String :=
  let pieces := splitOn '\n' text
  let last := pieces.getLast?.getD ""
  pieces.dropLast.map stripCr ++ if last = "" then [] else [last]

def load (path : String) (content : Except String String) : Except String PasswordFile :=
  if (splitOn '/' path).contains ".." then .error ("Invalid input: " ++ path)
  else match content with
    | .error e => .error ("read password file " ++ path ++ ": " ++ e)
    | .ok text => (loadLines path 0 (lines text) ∅).map PasswordFile.mk

/-! ## Trimming -/

theorem dropWhile_head {p : Char → Bool} {l : List Char} : ∀ c ∈ (l.dropWhile p).head?, p c = false := by
  intro c hc
  have := List.head?_dropWhile_not p l
  rw [Option.mem_def.1 hc] at this
  exact this

/-- What is trimmed does not begin with whitespace. -/
theorem trim_head (s : String) : ∀ c ∈ (trim s).toList.head?, isWhitespace c = false := by
  intro c hc
  rw [trim, String.toList_ofList] at hc
  have hpre : ((s.toList.dropWhile isWhitespace).reverse.dropWhile isWhitespace).reverse <+:
      s.toList.dropWhile isWhitespace := by
    have hsuf := List.dropWhile_suffix isWhitespace (l := (s.toList.dropWhile isWhitespace).reverse)
    simpa using List.reverse_prefix.2 hsuf
  obtain ⟨rest, hrest⟩ := hpre
  have hc' : c ∈ (s.toList.dropWhile isWhitespace).head? := by
    rw [← hrest, List.head?_append, Option.mem_def.1 hc]
    rfl
  exact dropWhile_head c hc'

theorem dropWhile_eq_self {p : Char → Bool} {l : List Char} (h : ∀ c ∈ l.head?, p c = false) : l.dropWhile p = l := by
  cases l with
  | nil => rfl
  | cons c l => rw [List.dropWhile_cons_of_neg (by simp [h c rfl])]

theorem trim_eq_self {s : String} (hhead : ∀ c ∈ s.toList.head?, isWhitespace c = false)
    (hlast : ∀ c ∈ s.toList.getLast?, isWhitespace c = false) : trim s = s := by
  have hback : s.toList.reverse.dropWhile isWhitespace = s.toList.reverse :=
    dropWhile_eq_self (by rwa [List.head?_reverse])
  rw [trim, dropWhile_eq_self hhead, hback, List.reverse_reverse, String.ofList_toList]

theorem trim_stripCr (s : String) : trim (stripCr s) = trim s := by
  unfold stripCr
  split
  · rename_i hlast
    obtain ⟨l, hl⟩ := List.getLast?_eq_some_iff.1 hlast
    have hcr : isWhitespace '\r' = true := by decide
    rw [trim, trim, String.toList_ofList, hl, List.dropLast_concat, List.dropWhile_append]
    split
    · rename_i hall
      rw [List.isEmpty_iff] at hall
      simp [hall, hcr]
    · simp [hcr]
  · rfl

theorem mem_of_mem_trim {s : String} {c : Char} (h : c ∈ (trim s).toList) : c ∈ s.toList := by
  rw [trim, String.toList_ofList, List.mem_reverse] at h
  have h1 := (List.dropWhile_suffix isWhitespace).mem h
  rw [List.mem_reverse] at h1
  exact (List.dropWhile_suffix isWhitespace).mem h1

/-! ## The lines -/

/-- The entries of some lines, in order; `none` if one of them is malformed. -/
def entries : List String → Option (List (String × Stored))
  | [] => some []
  | raw :: rest =>
    match entryOf raw with
    | .error _ => none
    | .ok entry => (entries rest).map (entry.toList ++ ·)

/-- The users after some entries: a later one replaces an earlier one. -/
def enter (es : List (String × Stored)) (users : KeyMap String Stored) : KeyMap String Stored :=
  es.foldl (fun users e => users.insert e.1 e.2) users

theorem loadLines_eq_ok_iff (path : String) : ∀ (ls : List String) (i : Nat) (users users' : KeyMap String Stored),
    loadLines path i ls users = .ok users' ↔ ∃ es, entries ls = some es ∧ enter es users = users' := by
  intro ls
  induction ls with
  | nil => intro i users users'; simp [loadLines, entries, enter]
  | cons raw ls ih =>
    intro i users users'
    simp only [loadLines, entries]
    cases hraw : entryOf raw with
    | error e => simp
    | ok entry =>
      cases entry with
      | none => simp [ih]
      | some e => simp [ih, enter]

theorem entries_append : ∀ ls ls' : List String,
    entries (ls ++ ls') = (entries ls).bind fun es => (entries ls').map (es ++ ·) := by
  intro ls ls'
  induction ls with
  | nil => simp [entries]
  | cons raw ls ih =>
    rw [List.cons_append, entries, entries, ih]
    cases entryOf raw with
    | error e => rfl
    | ok entry => cases entries ls <;> cases entries ls' <;> simp

/-- Carriage returns and the missing last line make no difference. -/
theorem entries_lines (text : String) : entries (lines text) = entries (splitOn '\n' text) := by
  have hcr : ∀ ls : List String, entries (ls.map stripCr) = entries ls := by
    intro ls
    induction ls with
    | nil => rfl
    | cons raw ls ih => simp only [List.map_cons, entries, entryOf, trim_stripCr, ih]
  have hne : splitOn '\n' text ≠ [] := by simp [splitOn, List.splitOn_ne_nil]
  conv_rhs => rw [← List.dropLast_concat_getLast hne]
  rw [lines, entries_append, entries_append, hcr, List.getLast?_eq_some_getLast hne, Option.getD_some]
  split
  · rename_i hempty
    rw [hempty]
    rfl
  · rfl

theorem load_eq_ok_iff {path text : String} {file : PasswordFile} : load path (.ok text) = .ok file ↔
    (splitOn '/' path).contains ".." = false ∧ ∃ es, entries (splitOn '\n' text) = some es ∧ enter es ∅ = file.users := by
  unfold load
  cases hpath : (splitOn '/' path).contains ".." with
  | true => simp
  | false =>
    simp only [Bool.false_eq_true, if_false, true_and, ← entries_lines, ← loadLines_eq_ok_iff path (lines text) 0]
    cases hload : loadLines path 0 (lines text) ∅ with
    | error e => simp [Except.map]
    | ok users =>
      simp only [Except.map, Except.ok.injEq]
      constructor
      · rintro rfl
        rfl
      · rintro rfl
        rfl

/-- The text of a file, from texts that line ends stand between. -/
def fileText (texts : List String) : String := String.ofList (['\n'].intercalate (texts.map String.toList))

theorem entries_blank : entries [""] = some [] := by decide

theorem entries_fileText : ∀ texts : List String,
    entries (splitOn '\n' (fileText texts)) = entries (texts.flatMap (splitOn '\n')) := by
  intro texts
  induction texts with
  | nil => exact entries_blank
  | cons text texts ih =>
    cases texts with
    | nil =>
      have hone : fileText [text] = text := by simp [fileText]
      rw [hone, List.flatMap_singleton]
    | cons text' texts =>
      have hcons : splitOn '\n' (fileText (text :: text' :: texts)) =
          splitOn '\n' text ++ splitOn '\n' (fileText (text' :: texts)) := by
        simp only [fileText, splitOn, String.toList_ofList, List.map_cons, List.intercalate_cons_cons, List.append_assoc,
          List.singleton_append, List.splitOn_append_cons_self, List.map_append]
      rw [hcons, List.flatMap_cons, entries_append, entries_append, ih]

/-- A file without entries. -/
theorem load_eq_empty {path : String} {texts : List String} (hpath : (splitOn '/' path).contains ".." = false)
    (h : entries (texts.flatMap (splitOn '\n')) = some []) : load path (.ok (fileText texts)) = .ok ⟨∅⟩ :=
  load_eq_ok_iff.2 ⟨hpath, [], by rw [entries_fileText, h], rfl⟩

/-! ## Names -/

/-- A username that means nothing else in a password file. -/
def PlainName (name : String) : Prop :=
  name ≠ "" ∧ ':' ∉ name.toList ∧ '\n' ∉ name.toList ∧
    ∀ c ∈ name.toList.head?, c ≠ '#' ∧ isWhitespace c = false

instance (name : String) : Decidable (PlainName name) :=
  decidable_of_iff (name ≠ "" ∧ ':' ∉ name.toList ∧ '\n' ∉ name.toList ∧
      (name.toList.head?.all fun c => c ≠ '#' && !isWhitespace c) = true) <| by
    simp [PlainName, Option.all_eq_true]

theorem splitOnce_eq_some {c : Char} {s before after : String} (h : splitOnce c s = some (before, after)) :
    c ∉ before.toList ∧ s.toList = before.toList ++ c :: after.toList := by
  rw [splitOnce, List.span_eq_takeWhile_dropWhile] at h
  cases hd : s.toList.dropWhile (· ≠ c) with
  | nil => rw [hd] at h; cases h
  | cons x rest =>
    rw [hd] at h
    simp only [Option.some.injEq, Prod.mk.injEq] at h
    obtain ⟨rfl, rfl⟩ := h
    have hx : x = c := by
      have := List.head?_dropWhile_not (fun x => decide (x ≠ c)) s.toList
      rw [hd] at this
      simpa using this
    subst hx
    simp only [String.toList_ofList]
    refine ⟨?_, ?_⟩
    · intro hmem
      simpa using List.mem_takeWhile_imp hmem
    · rw [← hd, List.takeWhile_append_dropWhile]

/-- A name that has been read is plain. -/
theorem plainName_of_entryOf {raw name : String} {stored : Stored} (hraw : '\n' ∉ raw.toList)
    (h : entryOf raw = .ok (some (name, stored))) : PlainName name := by
  unfold entryOf at h
  simp only at h
  split at h
  · cases h
  rename_i hline
  simp only [Bool.or_eq_true, decide_eq_true_eq, not_or] at hline
  -- the name is what stands before the first colon of the line
  obtain ⟨rest, hsplit, hne⟩ : ∃ rest, splitOnce ':' (trim raw) = some (name, rest) ∧ name ≠ "" := by
    cases hparse : parseEntry (trim raw) with
    | error e => rw [hparse] at h; cases h
    | ok entry =>
      rw [hparse] at h
      injection h with h
      injection h with h
      subst h
      unfold parseEntry at hparse
      split at hparse
      · cases hparse
      rename_i user rest hsplit
      split at hparse
      · cases hparse
      rename_i hempty
      have hname : user = name := by
        repeat' split at hparse
        all_goals cases hparse
        rfl
      exact ⟨rest, hname ▸ hsplit, hname ▸ hempty⟩
  obtain ⟨hcolon, htext⟩ := splitOnce_eq_some hsplit
  refine ⟨hne, hcolon, ?_, ?_⟩
  · intro hmem
    refine hraw (mem_of_mem_trim ?_)
    rw [htext]
    exact List.mem_append_left _ hmem
  · intro c hc
    have hhead : (trim raw).toList.head? = some c := by
      rw [htext, List.head?_append, Option.mem_def.1 hc]
      rfl
    refine ⟨?_, trim_head raw c hhead⟩
    rintro rfl
    exact hline.2 hhead

theorem plainName_of_mem_entries {e : String × Stored} : ∀ {ls : List String} {es : List (String × Stored)},
    (∀ raw ∈ ls, '\n' ∉ raw.toList) → entries ls = some es → e ∈ es → PlainName e.1 := by
  intro ls
  induction ls with
  | nil =>
    intro es _ hes he
    simp only [entries, Option.some.injEq] at hes
    subst hes
    cases he
  | cons raw ls ih =>
    intro es hls hes he
    obtain ⟨hraw, hls⟩ := List.forall_mem_cons.1 hls
    simp only [entries] at hes
    cases hentry : entryOf raw with
    | error e => simp [hentry] at hes
    | ok entry =>
      simp only [hentry, Option.map_eq_some_iff] at hes
      obtain ⟨es', hes', rfl⟩ := hes
      rcases List.mem_append.1 he with he | he
      · rw [Option.mem_toList] at he
        rw [Option.mem_def.1 he] at hentry
        exact plainName_of_entryOf hraw hentry
      · exact ih hls hes' he

theorem notMem_of_mem_splitOn {c : Char} {s piece : String} (h : piece ∈ splitOn c s) : c ∉ piece.toList := by
  obtain ⟨l, hl, rfl⟩ := List.mem_map.1 h
  rw [String.toList_ofList]
  exact sep_notMem_splitOn c _ l hl

theorem mem_enter {name : String} : ∀ {es : List (String × Stored)} {users : KeyMap String Stored},
    name ∈ enter es users ↔ name ∈ es.map Prod.fst ∨ name ∈ users := by
  intro es
  induction es with
  | nil => intro users; simp [enter]
  | cons e es ih =>
    intro users
    rw [enter, List.foldl_cons, ← enter, ih, AList.mem_insert]
    simp only [List.map_cons, List.mem_cons]
    tauto

/-- The users of a file have plain names. -/
theorem plainName_of_mem {path text name : String} {file : PasswordFile} (h : load path (.ok text) = .ok file)
    (hmem : name ∈ file.users) : PlainName name := by
  obtain ⟨-, es, hes, husers⟩ := load_eq_ok_iff.1 h
  rw [← husers, mem_enter] at hmem
  rcases hmem with hmem | hmem
  · obtain ⟨e, he, rfl⟩ := List.mem_map.1 hmem
    exact plainName_of_mem_entries (fun raw hraw => notMem_of_mem_splitOn hraw) hes he
  · exact absurd hmem (AList.notMem_empty name)

/-! ## Reading back what was written -/

/-- A hexadecimal digit is read back, and has no other meaning. -/
theorem digitChar_spec : ∀ n < 16, toDigit (Nat.digitChar n).toUInt8 = some n ∧ (Nat.digitChar n).utf8Size = 1 ∧
    Nat.digitChar n ≠ '$' ∧ Nat.digitChar n ≠ '\n' ∧ isWhitespace (Nat.digitChar n) = false := by
  decide

theorem exists_of_mem_hexChars {bytes : Bytes} {c : Char} (h : c ∈ hexChars bytes) : ∃ n < 16, c = Nat.digitChar n := by
  obtain ⟨b, -, hc⟩ := List.mem_flatMap.1 h
  have hb := b.toNat_lt
  simp only [List.mem_cons, List.not_mem_nil, or_false] at hc
  rcases hc with rfl | rfl
  · exact ⟨_, by omega, rfl⟩
  · exact ⟨_, by omega, rfl⟩

theorem toUTF8_ofList {cs : List Char} (h : ∀ c ∈ cs, c.utf8Size = 1) :
    (String.ofList cs).toUTF8.toList = cs.map Char.toUInt8 := by
  rw [byteArray_toList]
  show cs.utf8Encode.data.toList = _
  rw [List.utf8Encode, List.data_toByteArray]
  induction cs with
  | nil => rfl
  | cons c cs ih =>
    obtain ⟨hc, h⟩ := List.forall_mem_cons.1 h
    have hsingle := String.utf8EncodeChar_eq_singleton hc
    simp only [List.flatMap_cons, List.map_cons, hsingle]
    simpa using ih h

theorem hexPairs_hexChars (bytes : Bytes) : hexPairs ((hexChars bytes).map Char.toUInt8) = some bytes := by
  induction bytes with
  | nil => rfl
  | cons b bytes ih =>
    have hb := b.toNat_lt
    have hhi := (digitChar_spec (b.toNat / 16) (by omega)).1
    have hlo := (digitChar_spec (b.toNat % 16) (by omega)).1
    have hback : UInt8.ofNat (b.toNat / 16 * 16 + b.toNat % 16) = b := by
      rw [Nat.div_add_mod', UInt8.ofNat_toNat]
    have hcons : (hexChars (b :: bytes)).map Char.toUInt8 = (Nat.digitChar (b.toNat / 16)).toUInt8 ::
        (Nat.digitChar (b.toNat % 16)).toUInt8 :: (hexChars bytes).map Char.toUInt8 := rfl
    rw [hcons, hexPairs, hhi, hlo, ih]
    simp only [Option.bind_eq_bind, Option.bind_some, hback]

theorem length_hexChars (bytes : Bytes) : (hexChars bytes).length = 2 * bytes.length := by
  induction bytes with
  | nil => rfl
  | cons b bytes ih =>
    have hcons : hexChars (b :: bytes) =
        Nat.digitChar (b.toNat / 16) :: Nat.digitChar (b.toNat % 16) :: hexChars bytes := rfl
    rw [hcons, List.length_cons, List.length_cons, ih, List.length_cons]
    omega

theorem fromHex_toHex {bytes : Bytes} (h : bytes ≠ []) : fromHex (toHex bytes) = some bytes := by
  have hsize : ∀ c ∈ hexChars bytes, c.utf8Size = 1 := by
    intro c hc
    obtain ⟨n, hn, rfl⟩ := exists_of_mem_hexChars hc
    exact (digitChar_spec n hn).2.1
  have hlen := length_hexChars bytes
  have hpos := List.length_pos_iff.2 h
  have hne : (hexChars bytes).map Char.toUInt8 ≠ [] := by
    rw [← List.length_pos_iff, List.length_map]
    omega
  have heven : ((hexChars bytes).map Char.toUInt8).length % 2 = 0 := by
    rw [List.length_map]
    omega
  rw [fromHex, toHex, toUTF8_ofList hsize]
  simp only [List.isEmpty_eq_false_iff.2 hne, heven, Bool.false_or, bne_self_eq_false, Bool.false_eq_true, if_false]
  exact hexPairs_hexChars bytes

section
variable (pb : Pbkdf2) (salt : Vector UInt8 16) (username : String) (password : Bytes)

/-- The credential a line is printed for. -/
def storedOf : Stored :=
  ⟨defaultIterations, salt.toList, (pb.derive defaultIterations salt.toList password).toList⟩

theorem toList_hashPassword : (hashPassword pb salt password).toList =
    scheme.toList ++ '$' :: ((toString defaultIterations).toList ++
      '$' :: (hexChars salt.toList ++ '$' :: hexChars (storedOf pb salt password).hash)) := by
  have hdollar : "$".toList = ['$'] := by decide
  simp only [hashPassword, toHex, String.toList_append, String.toList_ofList, hdollar, List.append_assoc,
    List.cons_append]
  rfl

/-- The hash of a password, in its four parts. -/
theorem splitOn_hashPassword : splitOn '$' (hashPassword pb salt password) =
    [scheme, toString defaultIterations, toHex salt.toList, toHex (storedOf pb salt password).hash] := by
  have hhex : ∀ bytes : Bytes, '$' ∉ hexChars bytes := by
    intro bytes hmem
    obtain ⟨n, hn, hc⟩ := exists_of_mem_hexChars hmem
    exact (digitChar_spec n hn).2.2.1 hc.symm
  have hscheme : '$' ∉ scheme.toList := by decide
  have hiter : '$' ∉ (toString defaultIterations).toList := by decide
  rw [splitOn, toList_hashPassword, List.splitOn_append_cons_self_of_not_mem hscheme,
    List.splitOn_append_cons_self_of_not_mem hiter, List.splitOn_append_cons_self_of_not_mem (hhex _),
    List.splitOn_eq_singleton (hhex _)]
  simp only [List.map_cons, List.map_nil, String.ofList_toList, toHex]

theorem newline_notMem_hashPassword : '\n' ∉ (hashPassword pb salt password).toList := by
  have hhex : ∀ bytes : Bytes, '\n' ∉ hexChars bytes := by
    intro bytes hmem
    obtain ⟨n, hn, hc⟩ := exists_of_mem_hexChars hmem
    exact (digitChar_spec n hn).2.2.2.1 hc.symm
  have hscheme : '\n' ∉ scheme.toList := by decide
  have hiter : '\n' ∉ (toString defaultIterations).toList := by decide
  rw [toList_hashPassword]
  simp only [List.mem_append, List.mem_cons, hscheme, hiter, hhex, or_false, false_or]
  decide

theorem toList_formatEntry : (formatEntry pb salt username password).toList =
    username.toList ++ ':' :: (hashPassword pb salt password).toList := by
  have hcolon : ":".toList = [':'] := by decide
  simp [formatEntry, hcolon]

theorem splitOnce_formatEntry (h : ':' ∉ username.toList) :
    splitOnce ':' (formatEntry pb salt username password) = some (username, hashPassword pb salt password) := by
  have htake : ∀ c ∈ username.toList, decide (c ≠ ':') = true := by
    intro c hc
    simp only [ne_eq, decide_not, Bool.not_eq_true', decide_eq_false_iff_not]
    rintro rfl
    exact h hc
  rw [splitOnce, toList_formatEntry, List.span_eq_takeWhile_dropWhile, List.takeWhile_append_of_pos htake,
    List.dropWhile_append_of_pos htake]
  simp

theorem parseEntry_formatEntry (hne : username ≠ "") (hcolon : ':' ∉ username.toList) :
    parseEntry (formatEntry pb salt username password) = .ok (username, storedOf pb salt password) := by
  have hsalt : salt.toList ≠ [] := by
    rw [← List.length_pos_iff]
    simp
  have hhash : (storedOf pb salt password).hash ≠ [] := by
    rw [← List.length_pos_iff]
    simp [storedOf]
  have hiter : (parseUInt 32 (toString defaultIterations)).filter (· ≠ 0) = some defaultIterations := by decide
  rw [parseEntry, splitOnce_formatEntry pb salt username password hcolon]
  simp only [hne, if_false, splitOn_hashPassword, ne_eq, not_true_eq_false, fromHex_toHex hsalt, fromHex_toHex hhash]
  rw [hiter]
  rfl

/-- The hash ends with a digit, so nothing is trimmed behind it. -/
theorem getLast_hashPassword : ∀ c ∈ (hashPassword pb salt password).toList.getLast?, isWhitespace c = false := by
  intro c hc
  have hlast : (hexChars (storedOf pb salt password).hash).getLast? = some c := by
    have hne : hexChars (storedOf pb salt password).hash ≠ [] := by
      rw [← List.length_pos_iff, length_hexChars]
      simp [storedOf]
    rw [toList_hashPassword, List.getLast?_append_of_ne_nil _ (by simp), List.getLast?_cons_of_ne_nil (by simp),
      List.getLast?_append_of_ne_nil _ (by simp), List.getLast?_cons_of_ne_nil (by simp),
      List.getLast?_append_of_ne_nil _ (by simp), List.getLast?_cons_of_ne_nil hne] at hc
    exact hc
  obtain ⟨n, hn, rfl⟩ := exists_of_mem_hexChars (List.mem_of_getLast? hlast)
  exact (digitChar_spec n hn).2.2.2.2

theorem entryOf_formatEntry (h : PlainName username) :
    entryOf (formatEntry pb salt username password) = .ok (some (username, storedOf pb salt password)) := by
  obtain ⟨hne, hcolon, -, hhead⟩ := h
  obtain ⟨c, rest, hcons⟩ : ∃ c rest, username.toList = c :: rest := by
    refine List.exists_cons_of_ne_nil ?_
    rwa [Ne, String.toList_eq_nil_iff]
  obtain ⟨hhash, hspace⟩ := hhead c (by rw [hcons]; rfl)
  have hhead : (formatEntry pb salt username password).toList.head? = some c := by
    rw [toList_formatEntry, hcons]
    rfl
  have htrim : trim (formatEntry pb salt username password) = formatEntry pb salt username password := by
    refine trim_eq_self ?_ ?_
    · intro x hx
      rw [hhead, Option.mem_def, Option.some.injEq] at hx
      rwa [← hx]
    · intro x hx
      refine getLast_hashPassword pb salt password x ?_
      have hne : (hashPassword pb salt password).toList ≠ [] := by simp [hashPassword, scheme]
      rw [toList_formatEntry, List.getLast?_append_of_ne_nil _ (by simp), List.getLast?_cons_of_ne_nil hne] at hx
      exact hx
  have hnot : ¬((formatEntry pb salt username password = "" || (formatEntry pb salt username password).toList.head? = some '#') = true) := by
    simp only [hhead, Bool.or_eq_true, decide_eq_true_eq, Option.some.injEq, not_or]
    refine ⟨?_, hhash⟩
    intro hempty
    rw [hempty] at hhead
    simp at hhead
  rw [entryOf, htrim]
  rw [if_neg hnot, parseEntry_formatEntry pb salt username password hne hcolon]
  rfl

end

/-! ## Round trips -/

section
variable (pb : Pbkdf2) (path : String) (before after : List String) (salt : Vector UInt8 16) (username : String)
  (password : Bytes) (others : PasswordFile)

/-- The printed line, as a line of a file that has the users `others` without it: the file is accepted, the username is in
it and its password verifies, and the other names are the ones that were there. -/
def RoundTrips : Prop :=
  ∃ file, load path (.ok (fileText (before ++ formatEntry pb salt username password :: after))) = .ok file ∧
    username ∈ file.users ∧ file.verify pb.verify username password = true ∧
    ∀ name, name ≠ username → file.users.lookup name = others.users.lookup name

variable {pb path before after salt username password others}

/-- Only a plain name comes back out of the file. -/
theorem RoundTrips.plainName (h : RoundTrips pb path before after salt username password others) : PlainName username := by
  obtain ⟨file, hload, hmem, -⟩ := h
  exact plainName_of_mem hload hmem

theorem lookup_enter_append {es es' : List (String × Stored)} {name : String} {stored : Stored} {users : KeyMap String Stored}
    (h : name ∉ es'.map Prod.fst) : (enter (es ++ (name, stored) :: es') users).lookup name = some stored := by
  have hnone : es'.filter (fun e => e.1 = name) = [] := by
    rw [List.filter_eq_nil_iff]
    intro e he hname
    exact h (List.mem_map.2 ⟨e, he, by simpa using hname⟩)
  rw [enter, lookup_foldl_pairs, List.filter_append, List.filter_cons_of_pos (by simp), hnone, List.foldl_append]
  rfl

theorem lookup_enter_insert_ne {es es' : List (String × Stored)} {name name' : String} {stored : Stored}
    {users : KeyMap String Stored} (h : name' ≠ name) :
    (enter (es ++ (name, stored) :: es') users).lookup name' = (enter (es ++ es') users).lookup name' := by
  rw [enter, enter, lookup_foldl_pairs, lookup_foldl_pairs, List.filter_append, List.filter_append,
    List.filter_cons_of_neg (by simpa using Ne.symm h)]

/-- A printed line round trips exactly for a plain name. -/
theorem formatEntry_roundTrips_iff (hpb : ∀ iterations salt password,
      pb.verify iterations salt password (pb.derive iterations salt password).toList = true)
    (hothers : load path (.ok (fileText (before ++ after))) = .ok others)
    (hlater : ∀ later, load path (.ok (fileText after)) = .ok later → username ∉ later.users) :
    RoundTrips pb path before after salt username password others ↔ PlainName username := by
  constructor
  · exact RoundTrips.plainName
  · intro h
    obtain ⟨hpath, es, hes, husers⟩ := load_eq_ok_iff.1 hothers
    rw [entries_fileText, List.flatMap_append, entries_append, Option.bind_eq_some_iff] at hes
    obtain ⟨es₁, hes₁, hes⟩ := hes
    obtain ⟨es₂, hes₂, rfl⟩ := Option.map_eq_some_iff.1 hes
    -- the text is one line
    have hline : splitOn '\n' (formatEntry pb salt username password) = [formatEntry pb salt username password] := by
      have hnl : '\n' ∉ (formatEntry pb salt username password).toList := by
        rw [toList_formatEntry, List.mem_append, List.mem_cons, not_or, not_or]
        exact ⟨h.2.2.1, by decide, newline_notMem_hashPassword pb salt password⟩
      rw [splitOn, List.splitOn_eq_singleton hnl, List.map_singleton, String.ofList_toList]
    have hall : entries (splitOn '\n' (fileText (before ++ formatEntry pb salt username password :: after))) =
        some (es₁ ++ (username, storedOf pb salt password) :: es₂) := by
      rw [entries_fileText, List.flatMap_append, List.flatMap_cons, hline, entries_append, hes₁, List.singleton_append,
        entries, entryOf_formatEntry pb salt username password h, hes₂]
      rfl
    have hnot : username ∉ es₂.map Prod.fst := by
      intro hmem
      refine hlater ⟨enter es₂ ∅⟩ (load_eq_ok_iff.2 ⟨hpath, es₂, ?_, rfl⟩) (mem_enter.2 (.inl hmem))
      rw [entries_fileText, hes₂]
    have hlookup := @lookup_enter_append es₁ es₂ username (storedOf pb salt password) ∅ hnot
    refine ⟨⟨enter (es₁ ++ (username, storedOf pb salt password) :: es₂) ∅⟩, load_eq_ok_iff.2 ⟨hpath, _, hall, rfl⟩, ?_, ?_, ?_⟩
    · exact mem_iff_lookup.2 ⟨_, hlookup⟩
    · exact (verify_iff pb.verify _ username password).2 ⟨_, hlookup, hpb ..⟩
    · intro name hname
      rw [← husers]
      exact lookup_enter_insert_ne hname

end

/-- The derived hash for one password and the salt of zeros, and a stand-in for all others. -/
def sampleHash (iterations : Nat) (salt password : Bytes) : Vector UInt8 32 :=
  if iterations = 200000 ∧ salt = List.replicate 16 0 ∧ password = "s3cr3t".toUTF8.toList then
    #v[236, 139, 144, 4, 32, 221, 213, 221, 253, 220, 161, 179, 37, 112, 56, 175,
      114, 2, 41, 22, 203, 100, 98, 26, 32, 87, 226, 172, 203, 156, 77, 13]
  else Vector.replicate 32 0

def sample : Pbkdf2 where
  derive := sampleHash
  verify iterations salt password hash := hash = (sampleHash iterations salt password).toList

theorem sample_agrees (iterations : Nat) (salt password : Bytes) :
    sample.verify iterations salt password (sample.derive iterations salt password).toList = true := by
  simp [sample]

/-- A line for `alice`, below a comment. -/
theorem formatEntry_roundTrips_iff_alice : RoundTrips sample "passwd" ["# users"] [""] (Vector.replicate 16 0) "alice"
    "s3cr3t".toUTF8.toList ⟨∅⟩ := by
  refine (formatEntry_roundTrips_iff sample_agrees (load_eq_empty (by decide) (by decide)) ?_).2 (by decide)
  intro later hlater
  rw [load_eq_empty (by decide) (by decide)] at hlater
  injection hlater with hlater
  subst hlater
  exact AList.notMem_empty _

/-- A username with a colon does not come back, from a file with nothing else in it. -/
theorem not_roundTrips_colon :
    load "passwd" (.ok (fileText ([] ++ []))) = .ok ⟨∅⟩ ∧
    ¬RoundTrips sample "passwd" [] [] (Vector.replicate 16 0) "a:b" "s3cr3t".toUTF8.toList ⟨∅⟩ := by
  refine ⟨load_eq_empty (by decide) (by decide), fun h => ?_⟩
  have hplain := h.plainName
  revert hplain
  decide

end WispMQ.PasswordFile
