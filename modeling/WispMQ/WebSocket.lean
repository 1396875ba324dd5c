import WispMQ.Packet
import Mathlib.Data.List.TakeWhile
/-!
# MQTT over WebSocket: `WsStream::poll_read` (ws.rs:137)

| here | there |
| --- | --- |
| `WsMessage`         | tungstenite's `Message` |
| `Polled`            | what a `poll_next` of the inner stream is ready with, or that it is not; the stream ends with the list |
| `WsStream`          | `WsStream` (ws.rs:115) |
| `WsStream.pollRead` | `poll_read`, with the bytes put into `buf`; `remaining` is `buf.remaining()` |

`ReadStep` inverts `poll_read`: a read takes over what needs no answer and then does one thing. What the reads return
and what the stream still holds are the tokens of the messages, so no byte is lost, repeated or moved.
-/

namespace WispMQ.WebSocket

inductive WsMessage where
  | text (s : String)
  | binary (data : Bytes)
  | ping (data : Bytes)
  | pong (data : Bytes)
  | close
  | frame (data : Bytes)
deriving DecidableEq

/-- `WsError`; the broker tells transport errors from the others. -/
inductive WsError (X : Type) where
  | io (e : X)
  | other (text : String)

/-- `io::Error`, as `poll_read` makes them. -/
inductive IoError (X : Type) where
  | transport (e : X)
  | other (text : String)
  | invalidData (text : String)

/-- `ws_to_io` (ws.rs:130). -/
def wsToIo {X : Type} : WsError X → IoError X
  | .io e => .transport e
  | .other text => .other text

/-- MQTT does not use text frames (ws.rs:163). -/
def unexpectedText {X : Type} : IoError X := .invalidData "unexpected WebSocket text frame on MQTT connection"

inductive Polled (X : Type) where
  | pending
  | message (m : WsMessage)
  | error (e : WsError X)

structure WsStream (X : Type) where
  inner : List (Polled X)
  /-- Bytes received but not yet consumed by the reader. -/
  readBuf : Bytes := []

/-- The result of a read; `ok` has the bytes put into the reader's buffer. -/
inductive PollRead (X : Type) where
  | pending
  | ok (bytes : Bytes)
  | err (e : IoError X)

variable {X : Type}

/-- The loop of `poll_read`, by the results of `poll_next` it comes by. -/
def pollLoop (remaining : Nat) : List (Polled X) → Bytes → PollRead X × WsStream X
  | inner, b :: buf => (.ok ((b :: buf).take remaining), ⟨inner, (b :: buf).drop remaining⟩)
  | [], [] => (.ok [], ⟨[], []⟩)
  | .pending :: inner, [] => (.pending, ⟨inner, []⟩)
  | .error e :: inner, [] => (.err (wsToIo e), ⟨inner, []⟩)
  | .message m :: inner, [] =>
    match m with
    | .binary data => pollLoop remaining inner data
    | .close => (.ok [], ⟨inner, []⟩)
    | .text _ => (.err unexpectedText, ⟨inner, []⟩)
    | .ping _ | .pong _ | .frame _ => pollLoop remaining inner []

def WsStream.pollRead (remaining : Nat) (s : WsStream X) : PollRead X × WsStream X := pollLoop remaining s.inner s.readBuf

/-- A sequence of reads: their results, and what is left. -/
def reads : WsStream X → List Nat → List (PollRead X) × WsStream X
  | s, [] => ([], s)
  | s, n :: sizes => ((s.pollRead n).1 :: (reads (s.pollRead n).2 sizes).1, (reads (s.pollRead n).2 sizes).2)

/-! ## What a read does -/

/-- A message the loop goes past: a control frame it need not answer, or a binary message without a byte. -/
def Polled.isIdle : Polled X → Bool
  | .message (.ping _) | .message (.pong _) | .message (.frame _) | .message (.binary []) => true
  | _ => false

/-- Everything a read with room for `n` bytes can do. -/
inductive ReadStep (n : Nat) : WsStream X → PollRead X → WsStream X → Prop
  | buffered {inner : List (Polled X)} {buf : Bytes} (hb : buf ≠ []) :
      ReadStep n ⟨inner, buf⟩ (.ok (buf.take n)) ⟨inner, buf.drop n⟩
  | received {idle inner : List (Polled X)} {data : Bytes} (hi : ∀ p ∈ idle, p.isIdle) (hd : data ≠ []) :
      ReadStep n ⟨idle ++ .message (.binary data) :: inner, []⟩ (.ok (data.take n)) ⟨inner, data.drop n⟩
  | pending {idle inner : List (Polled X)} (hi : ∀ p ∈ idle, p.isIdle) :
      ReadStep n ⟨idle ++ .pending :: inner, []⟩ .pending ⟨inner, []⟩
  | closed {idle inner : List (Polled X)} (hi : ∀ p ∈ idle, p.isIdle) :
      ReadStep n ⟨idle ++ .message .close :: inner, []⟩ (.ok []) ⟨inner, []⟩
  | text {idle inner : List (Polled X)} {s : String} (hi : ∀ p ∈ idle, p.isIdle) :
      ReadStep n ⟨idle ++ .message (.text s) :: inner, []⟩ (.err unexpectedText) ⟨inner, []⟩
  | failed {idle inner : List (Polled X)} {e : WsError X} (hi : ∀ p ∈ idle, p.isIdle) :
      ReadStep n ⟨idle ++ .error e :: inner, []⟩ (.err (wsToIo e)) ⟨inner, []⟩
  | ended {idle : List (Polled X)} (hi : ∀ p ∈ idle, p.isIdle) : ReadStep n ⟨idle, []⟩ (.ok []) ⟨[], []⟩

/-- An idle message before a read with nothing buffered makes no difference. -/
theorem ReadStep.cons_idle {n : Nat} {p : Polled X} {inner : List (Polled X)} {out : PollRead X} {s' : WsStream X}
    (hp : p.isIdle) (h : ReadStep n ⟨inner, []⟩ out s') : ReadStep n ⟨p :: inner, []⟩ out s' := by
  have hcons : ∀ {idle : List (Polled X)}, (∀ q ∈ idle, q.isIdle) → ∀ q ∈ p :: idle, q.isIdle :=
    fun hi => List.forall_mem_cons.2 ⟨hp, hi⟩
  cases h with
  | buffered hb => exact absurd rfl hb
  | received hi hd => exact .received (hcons hi) hd
  | pending hi => exact .pending (hcons hi)
  | closed hi => exact .closed (hcons hi)
  | text hi => exact .text (hcons hi)
  | failed hi => exact .failed (hcons hi)
  | ended hi => exact .ended (hcons hi)

theorem pollLoop_step (n : Nat) : ∀ (inner : List (Polled X)) (buf : Bytes),
    ReadStep n ⟨inner, buf⟩ (pollLoop n inner buf).1 (pollLoop n inner buf).2 := by
  intro inner
  have hnil : ∀ p ∈ ([] : List (Polled X)), p.isIdle := by simp
  induction inner with
  | nil =>
    intro buf
    cases buf with
    | nil => exact .ended hnil
    | cons b buf => exact .buffered (by simp)
  | cons p inner ih =>
    intro buf
    cases buf with
    | cons b buf => exact .buffered (by simp)
    | nil =>
      cases p with
      | pending => exact .pending hnil
      | error e => exact .failed hnil
      | message m =>
        cases m with
        | text s => exact .text hnil
        | close => exact .closed hnil
        | ping data => exact (ih []).cons_idle rfl
        | pong data => exact (ih []).cons_idle rfl
        | frame data => exact (ih []).cons_idle rfl
        | binary data =>
          cases data with
          | nil => exact (ih []).cons_idle rfl
          | cons b data =>
            have hloop : pollLoop n (.message (.binary (b :: data)) :: inner) [] =
                (.ok ((b :: data).take n), (⟨inner, (b :: data).drop n⟩ : WsStream X)) := by
              cases inner <;> rfl
            rw [hloop]
            exact .received hnil (by simp)

theorem pollRead_step (n : Nat) (s : WsStream X) : ReadStep n s (s.pollRead n).1 (s.pollRead n).2 :=
  pollLoop_step n s.inner s.readBuf

/-! ## Tokens -/

/-- What a reader can observe. -/
inductive Token (X : Type) where
  | byte (b : UInt8)
  | eof
  | failed (e : IoError X)

def Polled.tokens : Polled X → List (Token X)
  | .message (.binary data) => data.map .byte
  | .message .close => [.eof]
  | .message (.text _) => [.failed unexpectedText]
  | .error e => [.failed (wsToIo e)]
  | .pending | .message (.ping _) | .message (.pong _) | .message (.frame _) => []

/-- What is still to be read, before the end of the stream. -/
def WsStream.tokens (s : WsStream X) : List (Token X) := s.readBuf.map .byte ++ s.inner.flatMap Polled.tokens

def PollRead.tokens : PollRead X → List (Token X)
  | .pending => []
  | .ok [] => [.eof]
  | .ok (b :: bytes) => (b :: bytes).map .byte
  | .err e => [.failed e]

theorem Polled.tokens_idle {p : Polled X} (h : p.isIdle) : p.tokens = [] := by
  unfold isIdle at h
  split at h
  · rfl
  · rfl
  · rfl
  · rfl
  · cases h

theorem flatMap_tokens_idle {idle : List (Polled X)} (h : ∀ p ∈ idle, p.isIdle) : idle.flatMap Polled.tokens = [] := by
  rw [List.flatMap_eq_nil_iff]
  exact fun p hp => Polled.tokens_idle (h p hp)

theorem tokens_ok {bytes : Bytes} (h : bytes ≠ []) : (PollRead.ok bytes : PollRead X).tokens = bytes.map .byte := by
  cases bytes with
  | nil => exact absurd rfl h
  | cons b bytes => rfl

theorem take_ne_nil {bytes : Bytes} {n : Nat} (hn : 0 < n) (h : bytes ≠ []) : bytes.take n ≠ [] := by
  rw [Ne, List.take_eq_nil_iff, not_or]
  exact ⟨by omega, h⟩

/-- A read returns the first of the tokens that are left, or finds that none are. -/
theorem ReadStep.tokens {n : Nat} (hn : 0 < n) {s s' : WsStream X} {out : PollRead X} (h : ReadStep n s out s') :
    out.tokens ++ s'.tokens = s.tokens ∨ (out.tokens = [.eof] ∧ s.tokens = [] ∧ s'.tokens = []) := by
  cases h with
  | buffered hb =>
    refine .inl ?_
    rw [tokens_ok (take_ne_nil hn hb)]
    simp only [WsStream.tokens, ← List.append_assoc, ← List.map_append, List.take_append_drop]
  | received hi hd =>
    refine .inl ?_
    rw [tokens_ok (take_ne_nil hn hd)]
    simp only [WsStream.tokens, List.flatMap_append, flatMap_tokens_idle hi, List.flatMap_cons, Polled.tokens,
      List.map_nil, List.nil_append, ← List.append_assoc, ← List.map_append, List.take_append_drop]
  | pending hi => exact .inl (by simp [WsStream.tokens, PollRead.tokens, flatMap_tokens_idle hi, Polled.tokens])
  | closed hi => exact .inl (by simp [WsStream.tokens, PollRead.tokens, flatMap_tokens_idle hi, Polled.tokens])
  | text hi => exact .inl (by simp [WsStream.tokens, PollRead.tokens, flatMap_tokens_idle hi, Polled.tokens])
  | failed hi => exact .inl (by simp [WsStream.tokens, PollRead.tokens, flatMap_tokens_idle hi, Polled.tokens])
  | ended hi => exact .inr ⟨rfl, by simp [WsStream.tokens, flatMap_tokens_idle hi], rfl⟩

/-! ## Up to the first close, text, error or end -/

/-- The payloads of the binary messages, up to the first close, text, error or end. -/
def payload : List (Polled X) → Bytes
  | [] => []
  | .pending :: inner => payload inner
  | .error _ :: _ => []
  | .message m :: inner =>
    match m with
    | .binary data => data ++ payload inner
    | .close | .text _ => []
    | .ping _ | .pong _ | .frame _ => payload inner

def WsStream.payload (s : WsStream X) : Bytes := s.readBuf ++ WebSocket.payload s.inner

/-- The read reports the end of the stream, or an error. -/
def PollRead.isTerminal : PollRead X → Bool
  | .ok [] | .err _ => true
  | .pending | .ok (_ :: _) => false

def PollRead.bytes : PollRead X → Bytes
  | .ok bytes => bytes
  | .pending | .err _ => []

/-- The bytes returned, up to the first read that reports the end or an error. -/
def returned (outs : List (PollRead X)) : Bytes := (outs.takeWhile (!·.isTerminal)).flatMap PollRead.bytes

/-- What the inner stream can still keep a reader busy with. -/
def Polled.work : Polled X → Nat
  | .message (.binary data) => data.length + 1
  | _ => 1

def WsStream.work (s : WsStream X) : Nat := s.readBuf.length + (s.inner.map Polled.work).sum

theorem payload_idle {idle : List (Polled X)} (h : ∀ p ∈ idle, p.isIdle) (inner : List (Polled X)) :
    payload (idle ++ inner) = payload inner := by
  induction idle with
  | nil => rfl
  | cons p idle ih =>
    obtain ⟨hp, hrest⟩ := List.forall_mem_cons.1 h
    rw [List.cons_append]
    unfold Polled.isIdle at hp
    split at hp
    · exact ih hrest
    · exact ih hrest
    · exact ih hrest
    · exact ih hrest
    · cases hp

/-- A read reports the end or an error, and then nothing was left to return; or it goes on with what is left. -/
theorem ReadStep.payload {n : Nat} (hn : 0 < n) {s s' : WsStream X} {out : PollRead X} (h : ReadStep n s out s') :
    (out.isTerminal = true ∧ s.payload = []) ∨
      (out.isTerminal = false ∧ s.payload = out.bytes ++ s'.payload ∧ s'.work < s.work) := by
  have hok : ∀ {bytes : Bytes}, bytes ≠ [] → (PollRead.ok bytes : PollRead X).isTerminal = false := by
    intro bytes hb
    cases bytes with
    | nil => exact absurd rfl hb
    | cons b bytes => rfl
  cases h with
  | buffered hb =>
    refine .inr ⟨hok (take_ne_nil hn hb), ?_, ?_⟩
    · simp only [WsStream.payload, PollRead.bytes, ← List.append_assoc, List.take_append_drop]
    · have := List.length_pos_iff.2 hb
      simp only [WsStream.work, List.length_drop]
      omega
  | received hi hd =>
    refine .inr ⟨hok (take_ne_nil hn hd), ?_, ?_⟩
    · simp only [WsStream.payload, payload_idle hi, WebSocket.payload, PollRead.bytes, List.nil_append,
        ← List.append_assoc, List.take_append_drop]
    · simp only [WsStream.work, List.map_append, List.sum_append, List.map_cons, List.sum_cons, Polled.work,
        List.length_drop, List.length_nil]
      omega
  | pending hi =>
    refine .inr ⟨rfl, ?_, ?_⟩
    · simp only [WsStream.payload, payload_idle hi, WebSocket.payload, PollRead.bytes, List.nil_append]
    · simp only [WsStream.work, List.map_append, List.sum_append, List.map_cons, List.sum_cons, Polled.work]
      omega
  | closed hi => exact .inl ⟨rfl, by simp [WsStream.payload, payload_idle hi, WebSocket.payload]⟩
  | text hi => exact .inl ⟨rfl, by simp [WsStream.payload, payload_idle hi, WebSocket.payload]⟩
  | failed hi => exact .inl ⟨rfl, by simp [WsStream.payload, payload_idle hi, WebSocket.payload]⟩
  | ended hi =>
    refine .inl ⟨rfl, ?_⟩
    have := payload_idle hi []
    rw [List.append_nil] at this
    simp [WsStream.payload, this, WebSocket.payload]

/-! ## Sequences of reads -/

/-- Whatever has been read and whatever is left are the tokens of the stream; behind them are only ends. -/
theorem reads_tokens : ∀ (sizes : List Nat) (s : WsStream X), (∀ n ∈ sizes, 0 < n) →
    ∃ k, (reads s sizes).1.flatMap PollRead.tokens ++ (reads s sizes).2.tokens = s.tokens ++ List.replicate k .eof ∧
      (0 < k → (reads s sizes).2.tokens = []) := by
  intro sizes
  induction sizes with
  | nil => intro s _; exact ⟨0, by simp [reads], by simp⟩
  | cons n sizes ih =>
    intro s hpos
    obtain ⟨hn, hpos⟩ := List.forall_mem_cons.1 hpos
    obtain ⟨k, hk, hend⟩ := ih (s.pollRead n).2 hpos
    simp only [reads, List.flatMap_cons, List.append_assoc, hk]
    rcases (pollRead_step n s).tokens hn with hmore | ⟨heof, hs, hs'⟩
    · exact ⟨k, by rw [← hmore, List.append_assoc], hend⟩
    · refine ⟨k + 1, by rw [heof, hs, hs']; rfl, fun _ => ?_⟩
      by_cases hk0 : 0 < k
      · exact hend hk0
      · obtain rfl : k = 0 := by omega
        rw [hs'] at hk
        exact (List.append_eq_nil_iff.1 hk).2

theorem reads_payload : ∀ (sizes : List Nat) (s : WsStream X), (∀ n ∈ sizes, 0 < n) →
    ∃ rest, s.payload = returned (reads s sizes).1 ++ rest ∧
      ((∃ out ∈ (reads s sizes).1, out.isTerminal) → rest = []) := by
  intro sizes
  induction sizes with
  | nil => intro s _; exact ⟨s.payload, rfl, by simp [reads]⟩
  | cons n sizes ih =>
    intro s hpos
    obtain ⟨hn, hpos⟩ := List.forall_mem_cons.1 hpos
    obtain ⟨rest, hrest, hend⟩ := ih (s.pollRead n).2 hpos
    rcases (pollRead_step n s).payload hn with ⟨hterm, hs⟩ | ⟨hterm, hs, -⟩
    · exact ⟨[], by simp [reads, returned, hterm, hs], fun _ => rfl⟩
    · refine ⟨rest, ?_, ?_⟩
      · rw [hs, hrest]
        simp [reads, returned, hterm]
      · rintro ⟨out, hout, ht⟩
        rcases List.mem_cons.1 hout with rfl | hout
        · rw [hterm] at ht
          cases ht
        · exact hend ⟨out, hout, ht⟩

/-- Enough reads come to an end or an error. -/
theorem reads_terminal : ∀ (sizes : List Nat) (s : WsStream X), (∀ n ∈ sizes, 0 < n) → s.work < sizes.length →
    ∃ out ∈ (reads s sizes).1, out.isTerminal := by
  intro sizes
  induction sizes with
  | nil => intro s _ h; simp at h
  | cons n sizes ih =>
    intro s hpos hlen
    obtain ⟨hn, hpos⟩ := List.forall_mem_cons.1 hpos
    rcases (pollRead_step n s).payload hn with ⟨hterm, -⟩ | ⟨-, -, hwork⟩
    · exact ⟨_, List.mem_cons_self .., hterm⟩
    · rw [List.length_cons] at hlen
      obtain ⟨out, hout, ht⟩ := ih (s.pollRead n).2 hpos (by omega)
      exact ⟨out, List.mem_cons_of_mem _ hout, ht⟩

/-- The read has come to a close, or to the end of the stream, past idle messages only. -/
def AtEnd (s s' : WsStream X) : Prop :=
  s.readBuf = [] ∧ ∃ idle, (∀ p ∈ idle, p.isIdle) ∧
    (s.inner = idle ++ .message .close :: s'.inner ∨ s.inner = idle ∧ s'.inner = [])

theorem ReadStep.atEnd {n : Nat} (hn : 0 < n) {s s' : WsStream X} {out : PollRead X} (h : ReadStep n s out s')
    (hout : out = .ok []) : AtEnd s s' := by
  cases h with
  | buffered hb =>
    injection hout with hnil
    exact absurd hnil (take_ne_nil hn hb)
  | received hi hd =>
    injection hout with hnil
    exact absurd hnil (take_ne_nil hn hd)
  | closed hi => exact ⟨rfl, _, hi, .inl rfl⟩
  | ended hi => exact ⟨rfl, _, hi, .inr ⟨rfl, rfl⟩⟩
  | pending hi => cases hout
  | text hi => cases hout
  | failed hi => cases hout

/-- The adapter is a faithful byte stream, whatever the messages and the sizes of the reads: what is returned before the
first end or error is the beginning of the payloads, and all of them when that comes; it does come; and for the whole
sequence of reads, what has been returned and what is left are the messages, token by token. A successful read of no
bytes means a close or the end. -/
theorem reads_faithful (inner : List (Polled X)) (sizes : List Nat) (hpos : ∀ n ∈ sizes, 0 < n) :
    returned (reads ⟨inner, []⟩ sizes).1 <+: payload inner ∧
    ((∃ out ∈ (reads ⟨inner, []⟩ sizes).1, out.isTerminal) → returned (reads ⟨inner, []⟩ sizes).1 = payload inner) ∧
    ((inner.map Polled.work).sum < sizes.length → ∃ out ∈ (reads ⟨inner, []⟩ sizes).1, out.isTerminal) ∧
    (∃ k, (reads ⟨inner, []⟩ sizes).1.flatMap PollRead.tokens ++ (reads ⟨inner, []⟩ sizes).2.tokens =
        inner.flatMap Polled.tokens ++ List.replicate k .eof ∧
      (0 < k → (reads ⟨inner, []⟩ sizes).2.tokens = [])) ∧
    ∀ pre n post, sizes = pre ++ n :: post → ((reads ⟨inner, []⟩ pre).2.pollRead n).1 = .ok [] →
      AtEnd (reads ⟨inner, []⟩ pre).2 ((reads ⟨inner, []⟩ pre).2.pollRead n).2 := by
  obtain ⟨rest, hrest, hend⟩ := reads_payload sizes ⟨inner, []⟩ hpos
  have hrest : payload inner = returned (reads ⟨inner, []⟩ sizes).1 ++ rest := hrest
  refine ⟨⟨rest, hrest.symm⟩, ?_, ?_, ?_, ?_⟩
  · intro hterm
    rw [hrest, hend hterm, List.append_nil]
  · intro hlen
    exact reads_terminal sizes ⟨inner, []⟩ hpos (by simpa [WsStream.work] using hlen)
  · exact reads_tokens sizes ⟨inner, []⟩ hpos
  · rintro pre n post rfl hout
    exact (pollRead_step n _).atEnd (hpos n (by simp)) hout

/-- Frames and reads cut at different places, an empty frame and a ping between them. -/
def frames : List (Polled Nat) :=
  [.message (.binary [1, 2, 3]), .message (.binary []), .pending, .message (.ping []), .message (.binary [4]),
    .message .close]

theorem reads_faithful_frames : returned (reads ⟨frames, []⟩ [2, 2, 2, 2, 2]).1 = [1, 2, 3, 4] := by
  obtain ⟨-, hall, -⟩ := reads_faithful frames [2, 2, 2, 2, 2] (by decide)
  refine hall ⟨.ok [], ?_, rfl⟩
  simp [reads, frames, WsStream.pollRead, pollLoop]

end WispMQ.WebSocket
