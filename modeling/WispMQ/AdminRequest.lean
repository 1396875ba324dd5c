import WispMQ.Packet
import WispMQ.Toml
import Mathlib.Data.List.Infix
/-!
# Reading an admin request: `read_request` (admin.rs:219)

| here | there |
| --- | --- |
| `headLoop`      | the loop that reads up to the end of the headers (admin.rs:227-239) |
| `parseHead`     | the request line and the headers (admin.rs:241-267) |
| `bodyLoop`      | the loop that reads the body (admin.rs:272-282) |
| `findCrlfCrlf`  | `find_crlf_crlf` (admin.rs:292) |
| `fromUtf8Lossy` | `String::from_utf8_lossy` |

The stream is the list of what its reads return; an empty read, like the end of the list, is the end of the stream. Both
loops keep the sizes their buffer has had, and a slice is checked as it is there.
-/

namespace WispMQ.Admin
open WispMQ.Configuration

/-- `MAX_REQUEST` (admin.rs:29). -/
def maxRequest : Nat := 2 ^ 20

/-- The size of the buffer a read is made with (admin.rs:224). -/
def chunkSize : Nat := 4096

/-! ## Text -/

/-- A continuation byte. -/
def isCont (b : UInt8) : Bool := 0x80 ≤ b && b ≤ 0xBF

/-- The second byte of a sequence of three that begins with `a`. -/
def isSecond3 (a b : UInt8) : Bool :=
  (a = 0xE0 && 0xA0 ≤ b && b ≤ 0xBF) || (0xE1 ≤ a && a ≤ 0xEC && isCont b) ||
    (a = 0xED && 0x80 ≤ b && b ≤ 0x9F) || (0xEE ≤ a && a ≤ 0xEF && isCont b)

/-- The second byte of a sequence of four that begins with `a`. -/
def isSecond4 (a b : UInt8) : Bool :=
  (a = 0xF0 && 0x90 ≤ b && b ≤ 0xBF) || (0xF1 ≤ a && a ≤ 0xF3 && isCont b) || (a = 0xF4 && 0x80 ≤ b && b ≤ 0x8F)

/-- The bits of continuation bytes, six each. -/
def contBits (acc : Nat) (bs : List UInt8) : Nat := bs.foldl (fun acc b => acc * 64 + b.toNat % 64) acc

def replacement : Char := '\uFFFD'

/-- Each longest beginning of a sequence that is not one becomes a replacement character. -/
def fromUtf8Lossy : Bytes → List Char
  | [] => []
  | a :: s =>
    if a < 0x80 then Char.ofNat a.toNat :: fromUtf8Lossy s
    else if 0xC2 ≤ a && a ≤ 0xDF then
      match s with
      | b :: t => if isCont b then Char.ofNat (contBits (a.toNat % 32) [b]) :: fromUtf8Lossy t else replacement :: fromUtf8Lossy (b :: t)
      | [] => [replacement]
    else if 0xE0 ≤ a && a ≤ 0xEF then
      match s with
      | b :: c :: t =>
        if isSecond3 a b then
          if isCont c then Char.ofNat (contBits (a.toNat % 16) [b, c]) :: fromUtf8Lossy t
          else replacement :: fromUtf8Lossy (c :: t)
        else replacement :: fromUtf8Lossy (b :: c :: t)
      | [b] => if isSecond3 a b then [replacement] else replacement :: fromUtf8Lossy [b]
      | [] => [replacement]
    else if 0xF0 ≤ a && a ≤ 0xF4 then
      match s with
      | b :: c :: d :: t =>
        if isSecond4 a b then
          if isCont c then
            if isCont d then Char.ofNat (contBits (a.toNat % 8) [b, c, d]) :: fromUtf8Lossy t
            else replacement :: fromUtf8Lossy (d :: t)
          else replacement :: fromUtf8Lossy (c :: d :: t)
        else replacement :: fromUtf8Lossy (b :: c :: d :: t)
      | [b, c] =>
        if isSecond4 a b then
          if isCont c then [replacement] else replacement :: fromUtf8Lossy [c]
        else replacement :: fromUtf8Lossy [b, c]
      | [b] => if isSecond4 a b then [replacement] else replacement :: fromUtf8Lossy [b]
      | [] => [replacement]
    else replacement :: fromUtf8Lossy s

/-- `split("\r\n")`. -/
def splitCrlf : List Char → List (List Char)
  | [] => [[]]
  | '\r' :: '\n' :: s => [] :: splitCrlf s
  | c :: s => (splitCrlf s).modifyHead (c :: ·)

/-- `split_whitespace`. -/
def splitWhitespace (s : List Char) : List String := ((s.splitOnP isWhitespace).filter (· ≠ [])).map String.ofList

/-! ## The head -/

/-- What `read_request` takes from the headers. -/
structure Head where
  method : String
  path : String
  contentLength : Nat := 0
  bearer : Option String := none
deriving DecidableEq, Repr

/-- `eq_ignore_ascii_case`, with a name in lower case. -/
def eqIgnoreCase (s name : String) : Bool := toAsciiLowercase s = name

/-- One header line; a later one of the same name replaces an earlier one. -/
def Head.line (head : Head) (line : String) : Head :=
  match splitOnce ':' line with
  | none => head
  | some (name, value) =>
    let name := trim name
    let value := trim value
    if eqIgnoreCase name "content-length" then { head with contentLength := (parseUInt 64 value).getD 0 }
    else if eqIgnoreCase name "authorization" then
      match splitOnce ' ' value with
      | some (scheme, token) => if eqIgnoreCase scheme "bearer" then { head with bearer := some (trim token) } else head
      | none => head
    else head

def parseHead (header : Bytes) : Head :=
  let lines := splitCrlf (fromUtf8Lossy header)
  let parts := splitWhitespace (lines.headD [])
  ((lines.drop 1).map String.ofList).foldl Head.line { method := parts.getD 0 "", path := parts.getD 1 "" }

/-! ## The loops -/

def crlfCrlf : Bytes := [13, 10, 13, 10]

/-- The first window of four bytes that is the end of the headers. -/
def findCrlfCrlf : Bytes → Option Nat
  | [] => none
  | b :: buf => if crlfCrlf <+: b :: buf then some 0 else (findCrlfCrlf buf).map (· + 1)

/-- The sizes `buf` has had and, if the headers ended, where, with `buf` and the reads still to come. -/
def headLoop (buf : Bytes) (chunks : List Bytes) : List Nat × Option (Nat × Bytes × List Bytes) :=
  match findCrlfCrlf buf with
  | some pos => ([buf.length], some (pos, buf, chunks))
  | none =>
    if maxRequest < buf.length then ([buf.length], none)
    else match chunks with
      | [] => ([buf.length], none)
      | chunk :: rest =>
        if chunk = [] then ([buf.length], none)
        else
          let r := headLoop (buf ++ chunk) rest
          (buf.length :: r.1, r.2)
termination_by structural chunks

/-- The sizes `body` has had and, unless it grew too large, the body. -/
def bodyLoop (contentLength : Nat) (body : Bytes) (chunks : List Bytes) : List Nat × Option Bytes :=
  if body.length < contentLength then
    if maxRequest < body.length then ([body.length], none)
    else match chunks with
      | [] => ([body.length], some (body.take contentLength))
      | chunk :: rest =>
        if chunk = [] then ([body.length], some (body.take contentLength))
        else
          let r := bodyLoop contentLength (body ++ chunk) rest
          (body.length :: r.1, r.2)
  else ([body.length], some (body.take contentLength))
termination_by structural chunks

structure Request where
  method : String
  path : String
  body : Bytes
  bearer : Option String
deriving DecidableEq, Repr

/-- A slice that is not one, which is a panic there. -/
structure OutOfRange where
  lo : Nat
  hi : Nat
  length : Nat
deriving DecidableEq, Repr

/-- `&buf[lo..hi]`. -/
def slice (buf : Bytes) (lo hi : Nat) : Except OutOfRange Bytes :=
  if lo ≤ hi ∧ hi ≤ buf.length then .ok ((buf.take hi).drop lo) else .error ⟨lo, hi, buf.length⟩

/-- A call of `read_request`: the sizes of its buffers, and what it returns. -/
structure Reading where
  headSizes : List Nat
  bodySizes : List Nat := []
  result : Except OutOfRange (Option Request)

def readRequest (chunks : List Bytes) : Reading :=
  match headLoop [] chunks with
  | (headSizes, none) => { headSizes, result := .ok none }
  | (headSizes, some (headerEnd, buf, rest)) =>
    match slice buf 0 headerEnd, slice buf (headerEnd + 4) buf.length with
    | .ok header, .ok body =>
      let head := parseHead header
      let r := bodyLoop head.contentLength body rest
      { headSizes, bodySizes := r.1
        result := .ok (r.2.map fun body => { method := head.method, path := head.path, body, bearer := head.bearer }) }
    | .error e, _ | _, .error e => { headSizes, result := .error e }

/-! ## Where the headers end -/

theorem findCrlfCrlf_le : ∀ {buf : Bytes} {pos : Nat}, findCrlfCrlf buf = some pos → pos + 4 ≤ buf.length := by
  intro buf
  induction buf with
  | nil => intro pos h; cases h
  | cons b buf ih =>
    intro pos h
    by_cases hhere : crlfCrlf <+: b :: buf
    · simp only [findCrlfCrlf, hhere, if_true, Option.some.injEq] at h
      have hlen : 4 ≤ (b :: buf).length := hhere.length_le
      omega
    · simp only [findCrlfCrlf, hhere, if_false, Option.map_eq_some_iff] at h
      obtain ⟨p, hp, rfl⟩ := h
      have := ih hp
      simp only [List.length_cons]
      omega

/-- What arrives later does not move the end of the headers. -/
theorem findCrlfCrlf_append {rest : Bytes} : ∀ {buf : Bytes} {pos : Nat}, findCrlfCrlf buf = some pos →
    findCrlfCrlf (buf ++ rest) = some pos := by
  intro buf
  induction buf with
  | nil => intro pos h; cases h
  | cons b buf ih =>
    intro pos h
    by_cases hhere : crlfCrlf <+: b :: buf
    · simp only [findCrlfCrlf, hhere, if_true] at h
      have hthere : crlfCrlf <+: b :: (buf ++ rest) := hhere.trans (List.prefix_append (b :: buf) rest)
      rw [List.cons_append, findCrlfCrlf, if_pos hthere, h]
    · have hlen := findCrlfCrlf_le h
      have hthere : ¬crlfCrlf <+: b :: (buf ++ rest) := by
        intro hp
        exact hhere (List.prefix_of_prefix_length_le hp (List.prefix_append (b :: buf) rest) (by simp [crlfCrlf] at hlen ⊢; omega))
      simp only [findCrlfCrlf, hhere, if_false, Option.map_eq_some_iff] at h
      obtain ⟨p, hp, rfl⟩ := h
      rw [List.cons_append, findCrlfCrlf, if_neg hthere, ih hp]
      rfl

/-- It is found as soon as it is there. -/
theorem findCrlfCrlf_of_append {buf rest : Bytes} {pos : Nat} (h : findCrlfCrlf (buf ++ rest) = some pos)
    (hlen : pos + 4 ≤ buf.length) : findCrlfCrlf buf = some pos := by
  induction buf generalizing pos with
  | nil => simp at hlen
  | cons b buf ih =>
    rw [List.cons_append, findCrlfCrlf] at h
    by_cases hthere : crlfCrlf <+: b :: (buf ++ rest)
    · rw [if_pos hthere, Option.some.injEq] at h
      subst h
      have hhere : crlfCrlf <+: b :: buf :=
        List.prefix_of_prefix_length_le hthere (List.prefix_append (b :: buf) rest) (by simpa [crlfCrlf] using hlen)
      rw [findCrlfCrlf, if_pos hhere]
    · rw [if_neg hthere, Option.map_eq_some_iff] at h
      obtain ⟨p, hp, rfl⟩ := h
      have hhere : ¬crlfCrlf <+: b :: buf := fun hp => hthere (hp.trans (List.prefix_append (b :: buf) rest))
      rw [findCrlfCrlf, if_neg hhere, ih hp (by simpa using hlen)]
      rfl

/-! ## The loops, whatever the reads -/

section
variable {buf body : Bytes} {chunks : List Bytes} {pos contentLength : Nat}

theorem headLoop_none (h : findCrlfCrlf (buf ++ chunks.flatten) = none) : (headLoop buf chunks).2 = none := by
  fun_induction headLoop buf chunks with
  | case1 chunks buf pos hfind =>
    rw [findCrlfCrlf_append hfind] at h
    cases h
  | case2 | case3 | case4 => rfl
  | case5 buf _ _ chunk rest _ _ ih => exact ih (by rw [List.append_assoc]; exact h)

/-- Headers that are not too long are found, with everything read and everything still to come. -/
theorem headLoop_some (hne : ∀ c ∈ chunks, c ≠ []) (h : findCrlfCrlf (buf ++ chunks.flatten) = some pos)
    (hmax : pos + 4 ≤ maxRequest) :
    ∃ buf' rest, (headLoop buf chunks).2 = some (pos, buf', rest) ∧ buf' ++ rest.flatten = buf ++ chunks.flatten ∧
      pos + 4 ≤ buf'.length ∧ ∀ c ∈ rest, c ≠ [] := by
  fun_induction headLoop buf chunks with
  | case1 chunks buf p hfind =>
    rw [findCrlfCrlf_append hfind, Option.some.injEq] at h
    subst h
    exact ⟨buf, chunks, rfl, rfl, findCrlfCrlf_le hfind, hne⟩
  | case2 chunks buf hfind hlong =>
    -- the end is not in `buf`, so `buf` is shorter than the headers
    rw [findCrlfCrlf_of_append h (by omega)] at hfind
    cases hfind
  | case3 buf hfind _ =>
    rw [List.flatten_nil, List.append_nil, hfind] at h
    cases h
  | case4 => exact absurd rfl (hne [] List.mem_cons_self)
  | case5 buf _ _ chunk rest _ _ ih =>
    obtain ⟨-, hne⟩ := List.forall_mem_cons.1 hne
    obtain ⟨buf', rest', hloop, hall, hlen, hrest⟩ := ih hne (by rw [List.append_assoc]; exact h)
    exact ⟨buf', rest', hloop, by rw [hall, List.append_assoc]; rfl, hlen, hrest⟩

/-- The end of the headers is in the buffer it is looked for in. -/
theorem headLoop_le {buf' : Bytes} {rest : List Bytes} (h : (headLoop buf chunks).2 = some (pos, buf', rest)) :
    pos + 4 ≤ buf'.length := by
  fun_induction headLoop buf chunks with
  | case1 chunks buf p hfind =>
    simp only [Option.some.injEq, Prod.mk.injEq] at h
    obtain ⟨rfl, rfl, -⟩ := h
    exact findCrlfCrlf_le hfind
  | case2 | case3 | case4 => cases h
  | case5 _ _ _ _ _ _ _ ih => exact ih h

/-- The buffer grows by a read at a time, and only while it is within the limit. -/
theorem headLoop_sizes (hle : ∀ c ∈ chunks, c.length ≤ chunkSize) (hbuf : buf.length ≤ maxRequest + chunkSize) :
    (∀ n ∈ (headLoop buf chunks).1, n ≤ maxRequest + chunkSize) ∧
    ∀ pos buf' rest, (headLoop buf chunks).2 = some (pos, buf', rest) →
      buf'.length ≤ maxRequest + chunkSize ∧ ∀ c ∈ rest, c.length ≤ chunkSize := by
  fun_induction headLoop buf chunks with
  | case1 chunks buf p hfind =>
    refine ⟨by simpa using hbuf, ?_⟩
    rintro pos buf' rest h
    simp only [Option.some.injEq, Prod.mk.injEq] at h
    obtain ⟨-, rfl, rfl⟩ := h
    exact ⟨hbuf, hle⟩
  | case2 | case3 | case4 => exact ⟨by simpa using hbuf, by simp⟩
  | case5 buf _ _ chunk rest _ _ ih =>
    obtain ⟨hchunk, hle⟩ := List.forall_mem_cons.1 hle
    obtain ⟨hsizes, hfound⟩ := ih hle (by rw [List.length_append]; omega)
    exact ⟨List.forall_mem_cons.2 ⟨hbuf, hsizes⟩, hfound⟩

/-- A body of a length within the limit is read to its length or to the end of the stream. -/
theorem bodyLoop_some (hmax : contentLength ≤ maxRequest) (hne : ∀ c ∈ chunks, c ≠ []) :
    (bodyLoop contentLength body chunks).2 = some ((body ++ chunks.flatten).take contentLength) := by
  fun_induction bodyLoop contentLength body chunks with
  | case1 => omega
  | case2 => rw [List.flatten_nil, List.append_nil]
  | case3 => exact absurd rfl (hne [] List.mem_cons_self)
  | case4 body _ _ chunk rest _ _ ih =>
    rw [ih (List.forall_mem_cons.1 hne).2, List.flatten_cons, List.append_assoc]
  | case5 chunks body hlen => rw [List.take_append_of_le_length (by omega)]

theorem bodyLoop_sizes (hle : ∀ c ∈ chunks, c.length ≤ chunkSize) (hbody : body.length ≤ maxRequest + chunkSize) :
    ∀ n ∈ (bodyLoop contentLength body chunks).1, n ≤ maxRequest + chunkSize := by
  fun_induction bodyLoop contentLength body chunks with
  | case1 | case2 | case3 | case5 => simpa using hbody
  | case4 body _ _ chunk rest _ _ ih =>
    obtain ⟨hchunk, hle⟩ := List.forall_mem_cons.1 hle
    exact List.forall_mem_cons.2 ⟨hbody, ih hle (by rw [List.length_append]; omega)⟩

end

/-! ## A request -/

theorem slice_eq {buf : Bytes} {lo hi : Nat} (h : lo ≤ hi) (h' : hi ≤ buf.length) :
    slice buf lo hi = .ok ((buf.take hi).drop lo) := by
  rw [slice, if_pos ⟨h, h'⟩]

/-- The call, after its first loop. -/
theorem readRequest_cases (chunks : List Bytes) :
    ((headLoop [] chunks).2 = none ∧ readRequest chunks = { headSizes := (headLoop [] chunks).1, result := .ok none }) ∨
    ∃ pos buf rest, (headLoop [] chunks).2 = some (pos, buf, rest) ∧ pos + 4 ≤ buf.length ∧
      let head := parseHead (buf.take pos)
      let r := bodyLoop head.contentLength (buf.drop (pos + 4)) rest
      readRequest chunks =
        { headSizes := (headLoop [] chunks).1, bodySizes := r.1
          result := .ok (r.2.map fun body => { method := head.method, path := head.path, body, bearer := head.bearer }) } := by
  rcases hloop : headLoop [] chunks with ⟨sizes, _ | ⟨pos, buf, rest⟩⟩
  · exact .inl ⟨rfl, by rw [readRequest, hloop]⟩
  · have hle : pos + 4 ≤ buf.length := headLoop_le (by rw [hloop])
    refine .inr ⟨pos, buf, rest, rfl, hle, ?_⟩
    have hhead : slice buf 0 pos = .ok (buf.take pos) := slice_eq (by omega) (by omega)
    have hbody : slice buf (pos + 4) buf.length = .ok (buf.drop (pos + 4)) := by
      rw [slice_eq hle (Nat.le_refl _), List.take_length]
    simp only [readRequest, hloop, hhead, hbody]

/-- The reader does not depend on how the bytes are cut into reads. If the header block and the length it declares are within
the limit, the request is that of the whole byte string: the head is parsed from the bytes before the first `CRLFCRLF`, and
the body is what follows it, up to the declared length; without a `CRLFCRLF` there is no request. In every case no slice is
out of range, and neither buffer outgrows the limit by more than a read. -/
theorem readRequest_chunks (bytes : Bytes) (chunks : List Bytes) (hcut : chunks.flatten = bytes)
    (hne : ∀ c ∈ chunks, c ≠ []) (hle : ∀ c ∈ chunks, c.length ≤ chunkSize) :
    (∀ pos, findCrlfCrlf bytes = some pos → pos + 4 ≤ maxRequest →
      (parseHead (bytes.take pos)).contentLength ≤ maxRequest →
      (readRequest chunks).result = .ok (some {
        method := (parseHead (bytes.take pos)).method
        path := (parseHead (bytes.take pos)).path
        bearer := (parseHead (bytes.take pos)).bearer
        body := (bytes.drop (pos + 4)).take
          (min (parseHead (bytes.take pos)).contentLength (bytes.drop (pos + 4)).length) })) ∧
    (findCrlfCrlf bytes = none → (readRequest chunks).result = .ok none) ∧
    (∃ r, (readRequest chunks).result = .ok r) ∧
    (∀ n ∈ (readRequest chunks).headSizes, n ≤ maxRequest + chunkSize) ∧
    ∀ n ∈ (readRequest chunks).bodySizes, n ≤ maxRequest + chunkSize := by
  obtain ⟨hsizes, hfound⟩ := @headLoop_sizes [] chunks hle (by simp)
  refine ⟨?_, ?_, ?_, ?_, ?_⟩
  · intro pos hpos hmax hlen
    obtain ⟨buf, rest, hloop, hall, hin, hrest⟩ := @headLoop_some [] chunks pos hne (by rwa [List.nil_append, hcut]) hmax
    rw [List.nil_append, hcut] at hall
    subst hall
    have htake : (buf ++ rest.flatten).take pos = buf.take pos := List.take_append_of_le_length (by omega)
    have hdrop : (buf ++ rest.flatten).drop (pos + 4) = buf.drop (pos + 4) ++ rest.flatten :=
      List.drop_append_of_le_length (by omega)
    rcases readRequest_cases chunks with ⟨hnone, -⟩ | ⟨pos', buf', rest', hloop', -, hread⟩
    · rw [hloop] at hnone
      cases hnone
    · rw [hloop, Option.some.injEq, Prod.mk.injEq, Prod.mk.injEq] at hloop'
      obtain ⟨rfl, rfl, rfl⟩ := hloop'
      rw [htake] at hlen ⊢
      rw [hread, bodyLoop_some hlen hrest, hdrop, ← List.take_eq_take_min]
      rfl
  · intro hnone
    rcases readRequest_cases chunks with ⟨-, hread⟩ | ⟨pos, buf, rest, hloop, -⟩
    · rw [hread]
    · rw [headLoop_none (by rwa [List.nil_append, hcut])] at hloop
      cases hloop
  · rcases readRequest_cases chunks with ⟨-, hread⟩ | ⟨pos, buf, rest, -, -, hread⟩
    · exact ⟨_, by rw [hread]⟩
    · exact ⟨_, by rw [hread]⟩
  · rcases readRequest_cases chunks with ⟨-, hread⟩ | ⟨pos, buf, rest, -, -, hread⟩
    · rw [hread]
      exact hsizes
    · rw [hread]
      exact hsizes
  · rcases readRequest_cases chunks with ⟨-, hread⟩ | ⟨pos, buf, rest, hloop, -, hread⟩
    · rw [hread]
      simp
    · obtain ⟨hbuf, hrest⟩ := hfound pos buf rest hloop
      rw [hread]
      exact bodyLoop_sizes hrest (by rw [List.length_drop]; omega)

/-- A request whose terminator straddles two reads. -/
def splitReads : List Bytes := [[71, 32, 47, 13, 10, 13], [10, 104], [105]]

theorem readRequest_chunks_splitReads :
    (readRequest splitReads).result = .ok (some { method := "G", path := "/", bearer := none, body := [] }) := by
  obtain ⟨hrequest, -⟩ := readRequest_chunks splitReads.flatten splitReads rfl (by decide) (by decide)
  rw [hrequest 3 (by decide) (by decide) (by decide)]
  decide

end WispMQ.Admin
