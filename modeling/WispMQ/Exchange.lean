import WispMQ.Admin
import WispMQ.Endpoint
import WispMQ.Lib.Headed
/-!
# An exchange with the admin listener

| here | there |
| --- | --- |
| `Header`, `Call`   | what a client writes, within what `read_request` (admin.rs:219) understands |
| `Call.request`     | what the call means |
| `Response.lines`   | the head of the response (admin.rs:114-127), line by line |

Requests and responses are headed messages. A call is read as what it means however its bytes are cut into reads
(`readRequest_call`): its head is encoded and decoded again, its words are split, its numbers are parsed. The response is
read back as the lines of its head and its body (`read_respond`). So a client gets the answer of the dispatch to what it
asked (`exchange_exact`).
-/

namespace WispMQ.Admin
open WispMQ.Configuration

/-! ## Decoding -/

section Decoding
variable {a b c d : UInt8}

theorem isCont_of (hb : 128 ≤ b.toNat ∧ b.toNat ≤ 191) : isCont b = true := by
  simpa [isCont, UInt8.le_iff_toNat_le] using hb

theorem fromUtf8Lossy_one (ha : a.toNat < 128) (rest : Bytes) :
    fromUtf8Lossy (a :: rest) = Char.ofNat a.toNat :: fromUtf8Lossy rest := by
  have h1 : a < 0x80 := by simpa [UInt8.lt_iff_toNat_lt] using ha
  rw [fromUtf8Lossy.eq_def]
  simp only [if_pos h1]

theorem fromUtf8Lossy_two (ha : 194 ≤ a.toNat ∧ a.toNat ≤ 223) (hb : 128 ≤ b.toNat ∧ b.toNat ≤ 191) (rest : Bytes) :
    fromUtf8Lossy (a :: b :: rest) = Char.ofNat (a.toNat % 32 * 64 + b.toNat % 64) :: fromUtf8Lossy rest := by
  have h1 : ¬a < 0x80 := by rw [UInt8.lt_iff_toNat_lt]; simp only [UInt8.reduceToNat]; omega
  have h2 : (0xC2 ≤ a && a ≤ 0xDF) = true := by simp [UInt8.le_iff_toNat_le]; omega
  rw [fromUtf8Lossy.eq_def]
  simp only [if_neg h1, if_pos h2, if_pos (isCont_of hb)]
  rfl

theorem fromUtf8Lossy_three (ha : 224 ≤ a.toNat ∧ a.toNat ≤ 239) (hb : 128 ≤ b.toNat ∧ b.toNat ≤ 191)
    (hlow : a.toNat = 224 → 160 ≤ b.toNat) (hhigh : a.toNat = 237 → b.toNat ≤ 159) (hc : 128 ≤ c.toNat ∧ c.toNat ≤ 191)
    (rest : Bytes) : fromUtf8Lossy (a :: b :: c :: rest) =
      Char.ofNat ((a.toNat % 16 * 64 + b.toNat % 64) * 64 + c.toNat % 64) :: fromUtf8Lossy rest := by
  have h1 : ¬a < 0x80 := by rw [UInt8.lt_iff_toNat_lt]; simp only [UInt8.reduceToNat]; omega
  have h2 : (0xC2 ≤ a && a ≤ 0xDF) = false := by simp [UInt8.le_iff_toNat_le]; omega
  have h3 : (0xE0 ≤ a && a ≤ 0xEF) = true := by simp [UInt8.le_iff_toNat_le]; omega
  have hsecond : isSecond3 a b = true := by
    simp [isSecond3, isCont, UInt8.le_iff_toNat_le, ← UInt8.toNat_inj]
    omega
  rw [fromUtf8Lossy.eq_def]
  simp only [if_neg h1, h2, Bool.false_eq_true, if_false, if_pos h3, if_pos hsecond, if_pos (isCont_of hc)]
  rfl

theorem fromUtf8Lossy_four (ha : 240 ≤ a.toNat ∧ a.toNat ≤ 244) (hb : 128 ≤ b.toNat ∧ b.toNat ≤ 191)
    (hlow : a.toNat = 240 → 144 ≤ b.toNat) (hhigh : a.toNat = 244 → b.toNat ≤ 143) (hc : 128 ≤ c.toNat ∧ c.toNat ≤ 191)
    (hd : 128 ≤ d.toNat ∧ d.toNat ≤ 191) (rest : Bytes) : fromUtf8Lossy (a :: b :: c :: d :: rest) =
      Char.ofNat (((a.toNat % 8 * 64 + b.toNat % 64) * 64 + c.toNat % 64) * 64 + d.toNat % 64) :: fromUtf8Lossy rest := by
  have h1 : ¬a < 0x80 := by rw [UInt8.lt_iff_toNat_lt]; simp only [UInt8.reduceToNat]; omega
  have h2 : (0xC2 ≤ a && a ≤ 0xDF) = false := by simp [UInt8.le_iff_toNat_le]; omega
  have h3 : (0xE0 ≤ a && a ≤ 0xEF) = false := by simp [UInt8.le_iff_toNat_le]; omega
  have h4 : (0xF0 ≤ a && a ≤ 0xF4) = true := by simp [UInt8.le_iff_toNat_le]; omega
  have hsecond : isSecond4 a b = true := by
    simp [isSecond4, isCont, UInt8.le_iff_toNat_le, ← UInt8.toNat_inj]
    omega
  rw [fromUtf8Lossy.eq_def]
  simp only [if_neg h1, h2, h3, Bool.false_eq_true, if_false, if_pos h4, if_pos hsecond, if_pos (isCont_of hc),
    if_pos (isCont_of hd)]
  rfl

end Decoding

/-- Decoding gives the character back that was encoded. -/
theorem fromUtf8Lossy_char (c : Char) (rest : Bytes) :
    fromUtf8Lossy (String.utf8EncodeChar c ++ rest) = c :: fromUtf8Lossy rest := by
  have hvalid : c.val.toNat < 0xd800 ∨ 0xdfff < c.val.toNat ∧ c.val.toNat < 0x110000 := c.valid
  have hback : Char.ofNat c.val.toNat = c := Char.ofNat_toNat c
  unfold String.utf8EncodeChar
  generalize c.val.toNat = v at hvalid hback
  have hcont : ∀ n, (UInt8.ofNat (n % 0x40 + 0x80)).toNat = n % 64 + 128 := by intro n; simp; omega
  dsimp only
  split
  · have ha : (UInt8.ofNat v).toNat = v := by simp; omega
    rw [List.singleton_append, fromUtf8Lossy_one (by omega), ha, hback]
  split
  · have ha : (UInt8.ofNat (v / 64 % 0x20 + 0xc0)).toNat = v / 64 + 192 := by simp; omega
    have hv : (v / 64 + 192) % 32 * 64 + (v % 64 + 128) % 64 = v := by omega
    rw [List.cons_append, List.singleton_append, fromUtf8Lossy_two (by rw [ha]; omega) (by rw [hcont]; omega), ha, hcont, hv,
      hback]
  split
  · have ha : (UInt8.ofNat (v / 4096 % 0x10 + 0xe0)).toNat = v / 4096 + 224 := by simp; omega
    have hv : ((v / 4096 + 224) % 16 * 64 + (v / 64 % 64 + 128) % 64) * 64 + (v % 64 + 128) % 64 = v := by omega
    rw [List.cons_append, List.cons_append, List.singleton_append, fromUtf8Lossy_three (by rw [ha]; omega) (by rw [hcont]; omega)
      (by rw [ha, hcont]; omega) (by rw [ha, hcont]; omega) (by rw [hcont]; omega), ha, hcont, hcont, hv, hback]
  · have ha : (UInt8.ofNat (v / 262144 % 0x08 + 0xf0)).toNat = v / 262144 + 240 := by simp; omega
    have hv : (((v / 262144 + 240) % 8 * 64 + (v / 4096 % 64 + 128) % 64) * 64 + (v / 64 % 64 + 128) % 64) * 64 +
        (v % 64 + 128) % 64 = v := by omega
    rw [List.cons_append, List.cons_append, List.cons_append, List.singleton_append, fromUtf8Lossy_four (by rw [ha]; omega)
      (by rw [hcont]; omega) (by rw [ha, hcont]; omega) (by rw [ha, hcont]; omega) (by rw [hcont]; omega) (by rw [hcont]; omega),
      ha, hcont, hcont, hcont, hv, hback]

/-- What a text is encoded to, character by character. -/
theorem utf8_eq (s : String) : utf8 s = s.toList.flatMap String.utf8EncodeChar := by
  conv_lhs => rw [utf8, ← s.ofList_toList]
  rw [byteArray_toList]
  show (s.toList.utf8Encode).data.toList = _
  rw [List.utf8Encode, List.data_toByteArray]

theorem utf8_append (s t : String) : utf8 (s ++ t) = utf8 s ++ utf8 t := by
  rw [utf8_eq, utf8_eq, utf8_eq, String.toList_append, List.flatMap_append]

theorem fromUtf8Lossy_flatMap (cs : List Char) (rest : Bytes) :
    fromUtf8Lossy (cs.flatMap String.utf8EncodeChar ++ rest) = cs ++ fromUtf8Lossy rest := by
  induction cs with
  | nil => rfl
  | cons c cs ih => rw [List.flatMap_cons, List.append_assoc, fromUtf8Lossy_char, ih, List.cons_append]

/-- Only a carriage return has a byte 13. -/
theorem eq_cr_of_mem {c : Char} (h : 13 ∈ String.utf8EncodeChar c) : c = '\r' := by
  have hback : Char.ofNat c.val.toNat = c := Char.ofNat_toNat c
  have hvalid : c.val.toNat < 0xd800 ∨ 0xdfff < c.val.toNat ∧ c.val.toNat < 0x110000 := c.valid
  unfold String.utf8EncodeChar at h
  generalize c.val.toNat = v at hvalid hback h
  have hbyte : ∀ n, (13 : UInt8) = UInt8.ofNat n → n % 256 = 13 := by
    intro n hn
    have := congrArg UInt8.toNat hn
    simpa using this.symm
  dsimp only at h
  split at h
  · have hv : v = 13 := by
      have := hbyte _ (List.mem_singleton.1 h)
      omega
    rw [← hback, hv]
  -- every byte of a longer sequence is 128 or more
  split at h
  · rcases List.mem_pair.1 h with h | h
    all_goals
      have := hbyte _ h
      omega
  split at h
  · simp only [List.mem_cons, List.not_mem_nil, or_false] at h
    rcases h with h | h | h
    all_goals
      have := hbyte _ h
      omega
  · simp only [List.mem_cons, List.not_mem_nil, or_false] at h
    rcases h with h | h | h | h
    all_goals
      have := hbyte _ h
      omega

theorem cr_notMem_utf8 {s : String} (h : '\r' ∉ s.toList) : 13 ∉ utf8 s := by
  rw [utf8_eq]
  intro hmem
  obtain ⟨c, hc, hb⟩ := List.mem_flatMap.1 hmem
  exact h (eq_cr_of_mem hb ▸ hc)

theorem utf8_ne_nil {s : String} (h : s ≠ "") : utf8 s ≠ [] := by
  rw [utf8_eq]
  intro hnil
  refine h (String.toList_eq_nil_iff.1 (List.eq_nil_iff_forall_not_mem.2 fun c hc => ?_))
  have := List.flatMap_eq_nil_iff.1 hnil c hc
  exact String.utf8EncodeChar_ne_nil this

/-! ## What a client writes -/

/-- A text without white space. -/
def Word (s : String) : Prop := s ≠ "" ∧ s.toList.all (!isWhitespace ·) = true

instance (s : String) : Decidable (Word s) := inferInstanceAs (Decidable (_ ∧ _))

/-- A header of a call, with its name in any case. -/
inductive Header where
  | length (name : String)
  | bearer (name scheme token : String)
  /-- An authorization of another scheme. -/
  | otherScheme (name scheme credentials : String)
  | other (name value : String)
deriving DecidableEq

namespace Header

/-- The line of a header, with the length of the body. -/
def text (n : Nat) : Header → String
  | length name => name ++ ": " ++ toString n
  | bearer name scheme token => name ++ ": " ++ (scheme ++ " " ++ token)
  | otherScheme name scheme credentials => name ++ ": " ++ (scheme ++ " " ++ credentials)
  | other name value => name ++ ": " ++ value

def token : Header → Option String
  | bearer _ _ token => some token
  | length _ | otherScheme _ _ _ | other _ _ => none

def isLength : Header → Bool
  | length _ => true
  | bearer _ _ _ | otherScheme _ _ _ | other _ _ => false

/-- Names are what they stand for, and nothing breaks a line. -/
def Valid : Header → Prop
  | length name => toAsciiLowercase name = "content-length"
  | bearer name scheme token =>
    toAsciiLowercase name = "authorization" ∧ toAsciiLowercase scheme = "bearer" ∧ Word token
  | otherScheme name scheme credentials =>
    toAsciiLowercase name = "authorization" ∧ Word scheme ∧ toAsciiLowercase scheme ≠ "bearer" ∧ '\r' ∉ credentials.toList
  | other name value =>
    Word name ∧ ':' ∉ name.toList ∧ '\r' ∉ value.toList ∧ toAsciiLowercase name ≠ "content-length" ∧
      toAsciiLowercase name ≠ "authorization"

end Header

/-- A call of the admin listener. -/
structure Call where
  method : String
  path : String
  version : String
  headers : List Header
  body : Bytes
  method_word : Word method
  path_word : Word path
  version_word : Word version
  headers_valid : ∀ h ∈ headers, h.Valid
  /-- A body has its length announced. -/
  announced : body = [] ∨ headers.any Header.isLength = true

namespace Call

def lines (q : Call) : List String :=
  (q.method ++ " " ++ q.path ++ " " ++ q.version) :: q.headers.map (Header.text q.body.length)

def bytes (q : Call) : Bytes := Headed.write 13 10 (q.lines.map utf8) q.body

/-- The length of the head, up to its last line end. -/
def headLength (q : Call) : Nat := (q.lines.map fun l => (utf8 l).length + 2).sum

/-- What the call asks. -/
def request (q : Call) : Request where
  method := q.method
  path := q.path
  body := q.body
  bearer := (q.headers.filterMap Header.token).getLast?

end Call

/-! ## Names and words -/

theorem Word.not_isWhitespace {s : String} (h : Word s) : ∀ c ∈ s.toList, isWhitespace c = false := by
  intro c hc
  simpa using List.all_eq_true.1 h.2 c hc

theorem Word.notMem {s : String} (h : Word s) {c : Char} (hc : isWhitespace c = true) : c ∉ s.toList := by
  intro hmem
  rw [h.not_isWhitespace c hmem] at hc
  cases hc

theorem Word.toList_ne_nil {s : String} (h : Word s) : s.toList ≠ [] := fun hnil => h.1 (String.toList_eq_nil_iff.1 hnil)

theorem Word.trim_eq {s : String} (h : Word s) : trim s = s := by
  refine PasswordFile.trim_eq_self (fun c hc => ?_) (fun c hc => ?_)
  · exact h.not_isWhitespace c (List.mem_of_mem_head? hc)
  · exact h.not_isWhitespace c (List.mem_of_mem_getLast? hc)

theorem toList_blank (a b : String) : (a ++ " " ++ b).toList = a.toList ++ ' ' :: b.toList := by
  have hblank : " ".toList = [' '] := by decide
  rw [String.toList_append, String.toList_append, hblank, List.append_assoc, List.singleton_append]

theorem toList_colon (name value : String) : (name ++ ": " ++ value).toList = name.toList ++ ':' :: (" " ++ value).toList := by
  have hblank : " ".toList = [' '] := by decide
  have hcolon : ": ".toList = [':', ' '] := by decide
  rw [String.toList_append, String.toList_append, String.toList_append, hblank, hcolon, List.append_assoc]
  rfl

theorem isWhitespace_toLower {c : Char} (h : isWhitespace c = true) : c.toLower = c := by
  refine dif_neg ?_
  rintro ⟨hA, hZ⟩
  have hA : 65 ≤ c.toNat := UInt32.le_iff_toNat_le.1 hA
  have hZ : c.toNat ≤ 90 := UInt32.le_iff_toNat_le.1 hZ
  simp only [isWhitespace, Bool.or_eq_true, Bool.and_eq_true, decide_eq_true_eq, List.contains_eq_mem, List.mem_cons,
    List.not_mem_nil, or_false] at h
  omega

/-- A name in any case has no other characters than the name. -/
theorem mem_toAsciiLowercase {s known : String} (h : toAsciiLowercase s = known) {c : Char} (hc : c ∈ s.toList) :
    c.toLower ∈ known.toList := by
  rw [← h, toAsciiLowercase, String.toList_ofList]
  exact List.mem_map_of_mem hc

theorem Word.of_toAsciiLowercase {s known : String} (h : toAsciiLowercase s = known) (hknown : Word known) : Word s := by
  refine ⟨?_, List.all_eq_true.2 fun c hc => ?_⟩
  · rintro rfl
    exact hknown.1 h.symm
  · cases hw : isWhitespace c with
    | false => rfl
    | true =>
      have hmem := mem_toAsciiLowercase h hc
      rw [isWhitespace_toLower hw] at hmem
      exact absurd hmem (hknown.notMem hw)

theorem word_toString (n : Nat) : Word (toString n) := by
  rw [Nat.toString_eq_ofList_toDigits]
  refine ⟨fun h => ?_, List.all_eq_true.2 fun c hc => ?_⟩
  · have hnil := congrArg String.toList h
    rw [String.toList_ofList] at hnil
    exact Nat.toDigits_ne_nil hnil
  · rw [String.toList_ofList] at hc
    have hdigit : c.isDigit = true := Nat.isDigit_of_mem_toDigits (by omega) (by omega) hc
    rw [Char.isDigit, Bool.and_eq_true, decide_eq_true_eq, decide_eq_true_eq] at hdigit
    have h0 : 48 ≤ c.toNat := UInt32.le_iff_toNat_le.1 hdigit.1
    have h9 : c.toNat ≤ 57 := UInt32.le_iff_toNat_le.1 hdigit.2
    simp only [isWhitespace, Bool.not_eq_true', Bool.or_eq_false_iff, Bool.and_eq_false_iff, decide_eq_false_iff_not,
      List.contains_eq_mem, List.mem_cons, List.not_mem_nil, or_false]
    omega

theorem trim_space (s : String) : trim (" " ++ s) = trim s := by
  have hspace : isWhitespace ' ' = true := by decide
  have hblank : " ".toList = [' '] := by decide
  rw [trim, trim, String.toList_append, hblank, List.singleton_append, List.dropWhile_cons_of_pos hspace]

/-- Before a word there is nothing to trim. -/
theorem Word.head?_blank {a : String} (ha : Word a) (rest : String) :
    ∀ c ∈ (a ++ " " ++ rest).toList.head?, isWhitespace c = false := by
  intro c hc
  obtain ⟨x, xs, hx⟩ := List.exists_cons_of_ne_nil ha.toList_ne_nil
  rw [toList_blank, hx, List.cons_append, List.head?_cons] at hc
  obtain rfl : x = c := by simpa using hc
  exact ha.not_isWhitespace x (hx ▸ List.mem_cons_self ..)

/-- Two words are not trimmed. -/
theorem trim_words {a b : String} (ha : Word a) (hb : Word b) : trim (a ++ " " ++ b) = a ++ " " ++ b := by
  refine PasswordFile.trim_eq_self (ha.head?_blank b) (fun c hc => ?_)
  rw [toList_blank, List.getLast?_append, List.getLast?_cons, List.getLast?_eq_some_getLast hb.toList_ne_nil] at hc
  obtain rfl : b.toList.getLast hb.toList_ne_nil = c := by simpa using hc
  exact hb.not_isWhitespace _ (List.getLast_mem _)

/-- Whatever comes after a word, the word itself stays. -/
theorem trim_word {a : String} (ha : Word a) (rest : String) :
    trim (a ++ " " ++ rest) = a ∨ ∃ rest', trim (a ++ " " ++ rest) = a ++ " " ++ rest' := by
  have hspace : isWhitespace ' ' = true := by decide
  have hback : a.toList.reverse.dropWhile isWhitespace = a.toList.reverse :=
    PasswordFile.dropWhile_eq_self fun c hc => ha.not_isWhitespace c (List.mem_reverse.1 (List.mem_of_mem_head? hc))
  have hrev : (a ++ " " ++ rest).toList.reverse = rest.toList.reverse ++ ' ' :: a.toList.reverse := by
    rw [toList_blank]
    simp
  rw [trim, PasswordFile.dropWhile_eq_self (ha.head?_blank rest), hrev, List.dropWhile_append]
  split
  · left
    rw [List.dropWhile_cons_of_pos hspace, hback, List.reverse_reverse, String.ofList_toList]
  · right
    refine ⟨String.ofList (rest.toList.reverse.dropWhile isWhitespace).reverse, ?_⟩
    rw [← String.toList_inj, String.toList_ofList, toList_blank, String.toList_ofList]
    simp

theorem splitOnce_none {c : Char} {s : String} (h : c ∉ s.toList) : splitOnce c s = none := by
  have hall : ∀ x ∈ s.toList, decide (x ≠ c) = true := by
    intro x hx
    refine decide_eq_true ?_
    rintro rfl
    exact h hx
  rw [splitOnce, List.span_eq_takeWhile_dropWhile, List.dropWhile_eq_nil_iff.2 hall]

theorem splitOnce_of {c : Char} {s before after : String} (h : c ∉ before.toList)
    (hs : s.toList = before.toList ++ c :: after.toList) : splitOnce c s = some (before, after) := by
  have hall : ∀ x ∈ before.toList, decide (x ≠ c) = true := by
    intro x hx
    refine decide_eq_true ?_
    rintro rfl
    exact h hx
  rw [splitOnce, hs, List.span_eq_takeWhile_dropWhile, List.takeWhile_append_of_pos hall, List.dropWhile_append_of_pos hall,
    List.takeWhile_cons_of_neg (by simp), List.dropWhile_cons_of_neg (by simp), List.append_nil]
  simp

/-! ## The head of a call -/

/-- A header does what it says, and nothing else. -/
theorem Head.line_text {h : Header} (hv : h.Valid) {n : Nat} (hn : n < 2 ^ 64) (head : Head) :
    head.line (h.text n) =
      { head with contentLength := if h.isLength then n else head.contentLength, bearer := h.token.or head.bearer } := by
  cases h with
  | length name =>
    have hname : Word name := .of_toAsciiLowercase hv (by decide)
    have hcolon : ':' ∉ name.toList := fun hc => absurd (mem_toAsciiLowercase hv hc) (by decide)
    have hsplit : splitOnce ':' (name ++ ": " ++ toString n) = some (name, " " ++ toString n) :=
      splitOnce_of hcolon (toList_colon ..)
    have hlower : toAsciiLowercase name = "content-length" := hv
    simp only [Head.line, Header.text, hsplit, hname.trim_eq, trim_space, (word_toString n).trim_eq, eqIgnoreCase, hlower,
      Endpoint.parseUInt_toString hn, Header.isLength, Header.token]
    rfl
  | bearer name scheme token =>
    obtain ⟨hlower, hscheme, htoken⟩ := hv
    have hname : Word name := .of_toAsciiLowercase hlower (by decide)
    have hcolon : ':' ∉ name.toList := fun hc => absurd (mem_toAsciiLowercase hlower hc) (by decide)
    have hsplit : splitOnce ':' (name ++ ": " ++ (scheme ++ " " ++ token)) = some (name, " " ++ (scheme ++ " " ++ token)) :=
      splitOnce_of hcolon (toList_colon ..)
    have hsword : Word scheme := .of_toAsciiLowercase hscheme (by decide)
    have hvalue : splitOnce ' ' (scheme ++ " " ++ token) = some (scheme, token) :=
      splitOnce_of (hsword.notMem (by decide)) (toList_blank ..)
    simp only [Head.line, Header.text, hsplit, hname.trim_eq, trim_space, trim_words hsword htoken, eqIgnoreCase, hlower,
      hvalue, hscheme, htoken.trim_eq, Header.isLength, Header.token]
    rfl
  | otherScheme name scheme credentials =>
    obtain ⟨hlower, hsword, hscheme, -⟩ := hv
    have hname : Word name := .of_toAsciiLowercase hlower (by decide)
    have hcolon : ':' ∉ name.toList := fun hc => absurd (mem_toAsciiLowercase hlower hc) (by decide)
    have hsplit : splitOnce ':' (name ++ ": " ++ (scheme ++ " " ++ credentials)) =
        some (name, " " ++ (scheme ++ " " ++ credentials)) :=
      splitOnce_of hcolon (toList_colon ..)
    have hblank : ' ' ∉ scheme.toList := hsword.notMem (by decide)
    rcases trim_word hsword credentials with htrim | ⟨rest, htrim⟩
    · simp only [Head.line, Header.text, hsplit, hname.trim_eq, trim_space, htrim, splitOnce_none hblank, eqIgnoreCase, hlower,
        Header.isLength, Header.token]
      rfl
    · have hvalue : splitOnce ' ' (scheme ++ " " ++ rest) = some (scheme, rest) := splitOnce_of hblank (toList_blank ..)
      simp only [Head.line, Header.text, hsplit, hname.trim_eq, trim_space, htrim, hvalue, eqIgnoreCase, hlower, hscheme,
        decide_false, Header.isLength, Header.token]
      rfl
  | other name value =>
    obtain ⟨hname, hcolon, -, hlength, hauth⟩ := hv
    have hsplit : splitOnce ':' (name ++ ": " ++ value) = some (name, " " ++ value) :=
      splitOnce_of hcolon (toList_colon ..)
    simp only [Head.line, Header.text, hsplit, hname.trim_eq, eqIgnoreCase, hlength, hauth, decide_false, Header.isLength,
      Header.token]
    rfl

theorem Head.foldl_line {n : Nat} (hn : n < 2 ^ 64) : ∀ {headers : List Header} (head : Head), (∀ h ∈ headers, h.Valid) →
    (headers.map (Header.text n)).foldl Head.line head =
      { head with
        contentLength := if headers.any Header.isLength then n else head.contentLength
        bearer := (headers.filterMap Header.token).getLast?.or head.bearer }
  | [], _, _ => rfl
  | h :: headers, head, hv => by
    obtain ⟨hh, hv⟩ := List.forall_mem_cons.1 hv
    rw [List.map_cons, List.foldl_cons, Head.line_text hh hn, Head.foldl_line hn _ hv, List.any_cons]
    congr 1
    · cases h.isLength with
      | false => rfl
      | true => simp
    · cases ht : h.token with
      | none => rw [List.filterMap_cons_none ht, Option.none_or]
      | some t =>
        rw [List.filterMap_cons_some ht, List.getLast?_cons]
        cases (headers.filterMap Header.token).getLast? with
        | none => rfl
        | some _ => rfl

theorem splitWhitespace_requestLine {method path version : String} (hm : Word method) (hp : Word path) (hv : Word version) :
    splitWhitespace (method ++ " " ++ path ++ " " ++ version).toList = [method, path, version] := by
  have hspace : isWhitespace ' ' = true := by decide
  rw [toList_blank, toList_blank, List.append_assoc, List.cons_append, splitWhitespace,
    List.splitOnP_append_cons_of_forall_mem hm.not_isWhitespace _ hspace,
    List.splitOnP_append_cons_of_forall_mem hp.not_isWhitespace _ hspace, List.splitOnP_eq_singleton hv.not_isWhitespace]
  simp [hm.1, hp.1, hv.1]

/-! ## Lines -/

theorem splitCrlf_cons {c : Char} (h : c ≠ '\r') (s : List Char) : splitCrlf (c :: s) = (splitCrlf s).modifyHead (c :: ·) := by
  rw [splitCrlf]
  rintro _ rfl
  exact absurd rfl h

theorem splitCrlf_append {l : List Char} (h : '\r' ∉ l) (s : List Char) :
    splitCrlf (l ++ '\r' :: '\n' :: s) = l :: splitCrlf s := by
  induction l with
  | nil => rfl
  | cons c l ih =>
    obtain ⟨hc, hl⟩ := not_or.1 (mt List.mem_cons.2 h)
    rw [List.cons_append, splitCrlf_cons (Ne.symm hc), ih hl]
    rfl

theorem splitCrlf_clean {l : List Char} (h : '\r' ∉ l) : splitCrlf l = [l] := by
  induction l with
  | nil => rfl
  | cons c l ih =>
    obtain ⟨hc, hl⟩ := not_or.1 (mt List.mem_cons.2 h)
    rw [splitCrlf_cons (Ne.symm hc), ih hl]
    rfl

theorem splitCrlf_lines {ls : List (List Char)} {last : List Char} (h : ∀ l ∈ ls, '\r' ∉ l) (hlast : '\r' ∉ last) :
    splitCrlf (ls.flatMap (· ++ ['\r', '\n']) ++ last) = ls ++ [last] := by
  induction ls with
  | nil => exact splitCrlf_clean hlast
  | cons l ls ih =>
    obtain ⟨hl, h⟩ := List.forall_mem_cons.1 h
    have happ : (l :: ls).flatMap (· ++ ['\r', '\n']) ++ last =
        l ++ '\r' :: '\n' :: (ls.flatMap (· ++ ['\r', '\n']) ++ last) := by
      simp
    rw [happ, splitCrlf_append hl, ih h, List.cons_append]

/-- There is no end of the headers in a line. -/
theorem findCrlfCrlf_clean {l : Bytes} (h : 13 ∉ l) (s : Bytes) :
    findCrlfCrlf (l ++ s) = (findCrlfCrlf s).map (· + l.length) := by
  induction l with
  | nil => simp
  | cons b l ih =>
    obtain ⟨hb, hl⟩ := not_or.1 (mt List.mem_cons.2 h)
    have hnot : ¬crlfCrlf <+: b :: (l ++ s) := fun hp => hb (List.cons_prefix_cons.1 hp).1
    rw [List.cons_append, findCrlfCrlf, if_neg hnot, ih hl, Option.map_map]
    rfl

/-- Nor at the end of a line that another one follows. -/
theorem findCrlfCrlf_lineEnd {b : UInt8} (hb : b ≠ 13) (s : Bytes) :
    findCrlfCrlf (13 :: 10 :: b :: s) = (findCrlfCrlf (b :: s)).map (· + 2) := by
  have hcr : ¬crlfCrlf <+: 13 :: 10 :: b :: s := by
    intro hp
    have h3 := (List.cons_prefix_cons.1 (List.cons_prefix_cons.1 (List.cons_prefix_cons.1 hp).2).2).1
    exact hb h3.symm
  have hlf : ¬crlfCrlf <+: 10 :: b :: s := fun hp => absurd (List.cons_prefix_cons.1 hp).1 (by decide)
  rw [findCrlfCrlf, if_neg hcr, findCrlfCrlf, if_neg hlf, Option.map_map]
  rfl

theorem findCrlfCrlf_lines {ls : List Bytes} {last : Bytes} (h : ∀ l ∈ ls, Headed.Line 13 l) (hlast : Headed.Line 13 last)
    (rest : Bytes) : findCrlfCrlf (ls.flatMap (· ++ [13, 10]) ++ last ++ (crlfCrlf ++ rest)) =
      some (ls.flatMap (· ++ [13, 10]) ++ last).length := by
  induction ls with
  | nil =>
    have hhere : findCrlfCrlf (crlfCrlf ++ rest) = some 0 := by
      have hp : crlfCrlf <+: 13 :: ([10, 13, 10] ++ rest) := List.prefix_append crlfCrlf rest
      show findCrlfCrlf (13 :: ([10, 13, 10] ++ rest)) = some 0
      rw [findCrlfCrlf, if_pos hp]
    rw [List.flatMap_nil, List.nil_append, findCrlfCrlf_clean hlast.clean, hhere, Option.map_some, Nat.zero_add]
  | cons l ls ih =>
    obtain ⟨hl, h⟩ := List.forall_mem_cons.1 h
    -- the next line begins with something else than a carriage return
    have hnext : ∃ b t, b ≠ 13 ∧ ls.flatMap (· ++ [13, 10]) ++ last ++ (crlfCrlf ++ rest) = b :: t := by
      have hfirst : ∀ {l : Bytes}, Headed.Line 13 l → ∃ b t, b ≠ 13 ∧ l = b :: t := fun {l} hl => by
        obtain ⟨b, t, rfl⟩ := List.exists_cons_of_ne_nil hl.nonempty
        exact ⟨b, t, fun hb => hl.clean (hb ▸ List.mem_cons_self ..), rfl⟩
      cases ls with
      | nil =>
        obtain ⟨b, t, hb, rfl⟩ := hfirst hlast
        exact ⟨b, _, hb, rfl⟩
      | cons l' ls =>
        obtain ⟨b, t, hb, rfl⟩ := hfirst (h _ (List.mem_cons_self ..))
        exact ⟨b, _, hb, rfl⟩
    obtain ⟨b, t, hb, hrest⟩ := hnext
    have happ : (l :: ls).flatMap (· ++ [13, 10]) ++ last ++ (crlfCrlf ++ rest) = l ++ 13 :: 10 :: b :: t := by
      rw [← hrest]
      simp
    rw [happ, findCrlfCrlf_clean hl.clean, findCrlfCrlf_lineEnd hb, ← hrest, ih h]
    simp only [Option.map_some, List.flatMap_cons, List.length_append, List.length_cons, List.length_nil]
    congr 1
    omega

/-! ## The request -/

/-- A text that can be a line. -/
def Clean (l : String) : Prop := l ≠ "" ∧ '\r' ∉ l.toList

instance (l : String) : Decidable (Clean l) := inferInstanceAs (Decidable (_ ∧ _))

theorem Clean.append {a b : String} (ha : Clean a) (hb : '\r' ∉ b.toList) : Clean (a ++ b) := by
  refine ⟨fun h => ?_, ?_⟩
  · have hnil := congrArg String.toList h
    rw [String.toList_append] at hnil
    exact ha.1 (String.toList_eq_nil_iff.1 (List.append_eq_nil_iff.1 hnil).1)
  · rw [String.toList_append, List.mem_append, not_or]
    exact ⟨ha.2, hb⟩

namespace Call
variable (q : Call)

theorem lines_clean : ∀ l ∈ q.lines, Clean l := by
  have hcr : isWhitespace '\r' = true := by decide
  have hword : ∀ {w : String}, Word w → Clean w := fun hw => ⟨hw.1, hw.notMem hcr⟩
  have htext : ∀ {name value : String}, Word name → '\r' ∉ value.toList → Clean (name ++ ": " ++ value) :=
    fun hname hvalue => ((hword hname).append (by decide)).append hvalue
  refine List.forall_mem_cons.2 ⟨?_, fun l hl => ?_⟩
  · have hfront : Clean (q.method ++ " " ++ q.path) :=
      ((hword q.method_word).append (by decide)).append (q.path_word.notMem hcr)
    exact (hfront.append (by decide)).append (q.version_word.notMem hcr)
  · obtain ⟨h, hh, rfl⟩ := List.mem_map.1 hl
    have hv := q.headers_valid h hh
    cases h with
    | length name => exact htext (.of_toAsciiLowercase hv (by decide)) ((word_toString _).notMem hcr)
    | bearer name scheme token =>
      obtain ⟨hname, hscheme, htoken⟩ := hv
      have hscheme : Word scheme := .of_toAsciiLowercase hscheme (by decide)
      exact htext (.of_toAsciiLowercase hname (by decide))
        (((hword hscheme).append (by decide)).append (htoken.notMem hcr)).2
    | otherScheme name scheme credentials =>
      obtain ⟨hname, hscheme, -, hcredentials⟩ := hv
      exact htext (.of_toAsciiLowercase hname (by decide)) (((hword hscheme).append (by decide)).append hcredentials).2
    | other name value =>
      obtain ⟨hname, -, hvalue, -⟩ := hv
      exact htext hname hvalue

end Call

theorem Clean.line {l : String} (h : Clean l) : Headed.Line 13 (utf8 l) :=
  ⟨utf8_ne_nil h.1, cr_notMem_utf8 h.2⟩

/-- A head is decoded to its lines. -/
theorem splitCrlf_fromUtf8Lossy {ls : List String} {last : String} (h : ∀ l ∈ ls, '\r' ∉ l.toList)
    (hlast : '\r' ∉ last.toList) :
    splitCrlf (fromUtf8Lossy ((ls.map utf8).flatMap (· ++ [13, 10]) ++ utf8 last)) = (ls ++ [last]).map String.toList := by
  have hbytes : (ls.map utf8).flatMap (· ++ [13, 10]) ++ utf8 last =
      ((ls.map String.toList).flatMap (· ++ ['\r', '\n']) ++ last.toList).flatMap String.utf8EncodeChar := by
    have hcrlf : ['\r', '\n'].flatMap String.utf8EncodeChar = [13, 10] := by decide
    rw [List.flatMap_append, ← utf8_eq]
    congr 1
    induction ls with
    | nil => rfl
    | cons l ls ih =>
      rw [List.map_cons, List.map_cons, List.flatMap_cons, List.flatMap_cons, ih (List.forall_mem_cons.1 h).2,
        List.flatMap_append, List.flatMap_append, hcrlf, utf8_eq]
  have hdecoded := fromUtf8Lossy_flatMap ((ls.map String.toList).flatMap (· ++ ['\r', '\n']) ++ last.toList) []
  rw [List.append_nil] at hdecoded
  rw [hbytes, hdecoded, fromUtf8Lossy, List.append_nil, splitCrlf_lines, List.map_append]
  · rfl
  · intro l hl
    obtain ⟨text, htext, rfl⟩ := List.mem_map.1 hl
    exact h text htext
  · exact hlast

/-- A call is read as what it asks, whatever comes after it and however the bytes are cut into reads. -/
theorem readRequest_call (q : Call) {extra : Bytes} {chunks : List Bytes} (hcut : chunks.flatten = q.bytes ++ extra)
    (hne : ∀ c ∈ chunks, c ≠ []) (hhead : q.headLength + 2 ≤ maxRequest) (hbody : q.body.length ≤ maxRequest) :
    (readRequest chunks).result = .ok (some q.request) := by
  obtain ⟨ls, last, hlines⟩ : ∃ ls last, q.lines = ls ++ [last] := by
    rcases List.eq_nil_or_concat q.lines with h | ⟨ls, last, h⟩
    · exact absurd h (List.cons_ne_nil _ _)
    · exact ⟨ls, last, by rw [h, List.concat_eq_append]⟩
  have hclean := q.lines_clean
  rw [hlines] at hclean
  have hls : ∀ l ∈ ls, Clean l := fun l hl => hclean l (List.mem_append_left _ hl)
  have hlast := hclean last (List.mem_append_right _ (List.mem_singleton_self _))
  generalize hdef : (ls.map utf8).flatMap (· ++ [13, 10]) ++ utf8 last = head
  have hbytes : q.bytes ++ extra = head ++ (crlfCrlf ++ (q.body ++ extra)) := by
    rw [Call.bytes, hlines, List.map_append, List.map_singleton, Headed.write_concat, hdef]
    simp [crlfCrlf]
  have hfind : findCrlfCrlf (q.bytes ++ extra) = some head.length := by
    rw [hbytes, ← hdef]
    refine findCrlfCrlf_lines ?_ hlast.line _
    intro l hl
    obtain ⟨text, htext, rfl⟩ := List.mem_map.1 hl
    exact (hls text htext).line
  have hlength : head.length + 2 = q.headLength := by
    rw [Call.headLength, hlines, ← hdef]
    simp only [List.length_append, List.length_flatMap, List.map_map, List.map_append, List.map_singleton, List.sum_append,
      List.sum_singleton, List.length_cons, List.length_nil, Function.comp_def, Nat.zero_add, Nat.reduceAdd]
    omega
  -- what the head says
  have hparse : parseHead head = Head.mk q.method q.path (if q.headers.any Header.isLength then q.body.length else 0)
      q.request.bearer := by
    have hsplit := splitCrlf_fromUtf8Lossy (fun l hl => (hls l hl).2) hlast.2
    rw [hdef, ← hlines] at hsplit
    have hn : q.body.length < 2 ^ 64 := Nat.lt_of_le_of_lt hbody (by decide)
    have hdrop : (((q.lines.map String.toList).drop 1).map String.ofList) = q.headers.map (Header.text q.body.length) := by
      simp [Call.lines, Function.comp_def]
    have hfirst : (q.lines.map String.toList).headD [] = (q.method ++ " " ++ q.path ++ " " ++ q.version).toList := rfl
    rw [parseHead]
    simp only [hsplit, hdrop, hfirst, splitWhitespace_requestLine q.method_word q.path_word q.version_word]
    rw [Head.foldl_line hn _ q.headers_valid, Option.or_none]
    rfl
  obtain ⟨buf, rest, hloop, hall, hin, hrest⟩ := @headLoop_some [] chunks head.length hne (by rwa [List.nil_append, hcut])
    (by omega)
  rw [List.nil_append, hcut, hbytes] at hall
  have htake : buf.take head.length = head := by
    have := congrArg (List.take head.length) hall
    rwa [List.take_append_of_le_length (by omega), List.take_left] at this
  have hdrop : buf.drop (head.length + 4) ++ rest.flatten = q.body ++ extra := by
    have := congrArg (List.drop (head.length + 4)) hall
    rw [List.drop_append_of_le_length hin, ← List.append_assoc head] at this
    rw [this]
    exact List.drop_left' (by simp [crlfCrlf])
  rcases readRequest_cases chunks with ⟨hnone, -⟩ | ⟨pos, buf', rest', hloop', -, hread⟩
  · rw [hloop] at hnone
    cases hnone
  · rw [hloop, Option.some.injEq, Prod.mk.injEq, Prod.mk.injEq] at hloop'
    obtain ⟨rfl, rfl, rfl⟩ := hloop'
    have hcl : (parseHead (buf.take head.length)).contentLength ≤ maxRequest := by
      rw [htake, hparse]
      dsimp only
      split
      · exact hbody
      · omega
    rw [hread, bodyLoop_some hcl hrest, hdrop, htake, hparse]
    have hbodyEq : (q.body ++ extra).take (if q.headers.any Header.isLength then q.body.length else 0) = q.body := by
      rcases q.announced with hnil | hyes
      · rw [hnil]
        split
        · rfl
        · rfl
      · rw [if_pos hyes, List.take_left]
    simp only [hbodyEq]
    rfl

/-! ## The response -/

/-- The head of the response, line by line. -/
def Response.lines (r : Response) : List String :=
  ["HTTP/1.1 " ++ r.status, "Content-Type: " ++ r.contentType, "Content-Length: " ++ toString r.body.length,
    "Access-Control-Allow-Origin: *", "Access-Control-Allow-Methods: GET, POST, OPTIONS",
    "Access-Control-Allow-Headers: Authorization, Content-Type"] ++
  (if startsWith r.status "401" then ["WWW-Authenticate: Bearer"] else []) ++ ["Connection: close"]

theorem respond_eq (r : Response) : r.respond = Headed.write 13 10 (r.lines.map utf8) r.body := by
  have htext : ∀ s : String, toString s = s := fun _ => rfl
  have hcrlf : utf8 "\r\n" = [13, 10] := by rw [utf8_eq]; decide
  have htype : utf8 "\r\nContent-Type: " = [13, 10] ++ utf8 "Content-Type: " := by rw [utf8_eq, utf8_eq]; decide
  have hlength : utf8 "\r\nContent-Length: " = [13, 10] ++ utf8 "Content-Length: " := by rw [utf8_eq, utf8_eq]; decide
  have hallow : utf8 "Access-Control-Allow-Origin: *\r\nAccess-Control-Allow-Methods: GET, POST, OPTIONS\r\n" =
      utf8 "Access-Control-Allow-Origin: *" ++ [13, 10] ++
        (utf8 "Access-Control-Allow-Methods: GET, POST, OPTIONS" ++ [13, 10]) := by
    rw [utf8_eq, utf8_eq, utf8_eq]
    decide
  have hheaders : utf8 "Access-Control-Allow-Headers: Authorization, Content-Type\r\n" =
      utf8 "Access-Control-Allow-Headers: Authorization, Content-Type" ++ [13, 10] := by
    rw [utf8_eq, utf8_eq]
    decide
  have hclose : utf8 "Connection: close\r\n\r\n" = utf8 "Connection: close" ++ [13, 10, 13, 10] := by
    rw [utf8_eq, utf8_eq]
    decide
  have hextra : utf8 (if startsWith r.status "401" then "WWW-Authenticate: Bearer\r\n" else "") =
      ((if startsWith r.status "401" then ["WWW-Authenticate: Bearer"] else []).map utf8).flatMap (· ++ [13, 10]) := by
    split
    · rw [List.map_singleton, List.flatMap_singleton, utf8_eq, utf8_eq]
      decide
    · rw [utf8_eq]
      rfl
  simp only [Response.respond, Response.lines, Headed.write, htext, utf8_append, hcrlf, htype, hlength, hallow, hheaders, hclose,
    hextra, List.map_append, List.map_cons, List.map_nil, List.flatMap_append, List.flatMap_cons, List.flatMap_nil,
    List.append_assoc, List.cons_append, List.nil_append]

/-- The dispatch answers in lines. -/
theorem route_clean (S : Serde) (turns : Nat → Turn) (req : Request) (st : State) :
    '\r' ∉ (route S turns req st).1.status.toList ∧ '\r' ∉ (route S turns req st).1.contentType.toList := by
  unfold route
  split
  · dsimp only [unauthorized]
    decide
  · split
    · dsimp only
      decide
    · dsimp only
      decide
    · dsimp only
      decide
    · dsimp only
      decide
    · split
      · dsimp only
        decide
      · dsimp only
        decide
    · dsimp only
      decide
    · dsimp only
      decide
    · dsimp only
      decide

theorem Response.lines_clean {r : Response} (h : '\r' ∉ r.status.toList ∧ '\r' ∉ r.contentType.toList) :
    ∀ l ∈ r.lines, Clean l := by
  have hlength : '\r' ∉ (toString r.body.length).toList := (word_toString _).notMem (by decide)
  refine List.forall_mem_append.2 ⟨List.forall_mem_append.2 ⟨?_, ?_⟩, by decide⟩
  · refine List.forall_mem_cons.2 ⟨.append (by decide) h.1, List.forall_mem_cons.2 ⟨.append (by decide) h.2, ?_⟩⟩
    exact List.forall_mem_cons.2 ⟨.append (by decide) hlength, by decide⟩
  · split
    · decide
    · decide

/-- A response is read back as the lines of its head and its body. -/
theorem read_respond {r : Response} (h : '\r' ∉ r.status.toList ∧ '\r' ∉ r.contentType.toList) :
    Headed.read 13 10 r.respond = some (r.lines.map utf8, r.body) := by
  rw [respond_eq]
  refine Headed.read_write fun l hl => ?_
  obtain ⟨text, htext, rfl⟩ := List.mem_map.1 hl
  exact (Response.lines_clean h text htext).line

/-- **The exchange**: a call within the limits, whatever its headers are called and in whatever pieces it arrives, is answered,
and what is written is a message whose lines and body are those of the dispatch's answer to exactly what was asked. -/
theorem exchange_exact (S : Serde) (turns : Nat → Turn) (st : State) (q : Call) (extra : Bytes) (chunks : List Bytes)
    (hcut : chunks.flatten = q.bytes ++ extra) (hne : ∀ chunk ∈ chunks, chunk ≠ [])
    (hhead : q.headLength + 2 ≤ maxRequest) (hbody : q.body.length ≤ maxRequest) :
    let answer := route S turns q.request st
    Headed.read 13 10 (serveConn S turns true chunks st).1 = some (answer.1.lines.map utf8, answer.1.body) ∧
      (serveConn S turns true chunks st).2 = answer.2 := by
  have hread := readRequest_call q hcut hne hhead hbody
  simp only [serveConn, hread]
  exact ⟨read_respond (route_clean S turns q.request st), trivial⟩

instance (h : Header) : Decidable h.Valid :=
  match h with
  | .length _ => inferInstanceAs (Decidable (_ = _))
  | .bearer _ _ _ => inferInstanceAs (Decidable (_ ∧ _))
  | .otherScheme _ _ _ => inferInstanceAs (Decidable (_ ∧ _))
  | .other _ _ => inferInstanceAs (Decidable (_ ∧ _))

/-- A batch that is posted with the token, by an old client that tries a password first. -/
def posted : Call where
  method := "POST"
  path := "/mcp"
  version := "HTTP/1.0"
  headers := [.other "Host" "localhost:9090", .otherScheme "authorization" "Basic" "dTpw ", .length "content-LENGTH",
    .bearer "Authorization" "bearer" "s3cr3t"]
  body := [91, 93]
  method_word := by decide
  path_word := by decide
  version_word := by decide
  headers_valid := by decide
  announced := .inr rfl

/-- It arrives in three pieces, cut within the request line and within the body, and more comes behind it. -/
def postedChunks : List Bytes :=
  let (front, rest) := posted.bytes.splitAt 7
  let (middle, back) := rest.splitAt (rest.length - 1)
  [front, middle, back ++ [71, 69, 84]]

theorem exchange_exact_posted :
    Headed.read 13 10 (serveConn emptyBatch (calm ⟨0, 0, {}⟩) true postedChunks (accepted 3)).1 =
      some ((route emptyBatch (calm ⟨0, 0, {}⟩) posted.request (accepted 3)).1.lines.map utf8,
        (route emptyBatch (calm ⟨0, 0, {}⟩) posted.request (accepted 3)).1.body) :=
  (exchange_exact emptyBatch (calm ⟨0, 0, {}⟩) (accepted 3) posted [71, 69, 84] postedChunks
    (by simp [postedChunks, ← List.append_assoc]) (by decide +kernel) (by decide +kernel) (by decide)).1

end WispMQ.Admin
