import WispMQ.WebSocket
import WispMQ.ReadLoop
/-!
# Packets over a WebSocket, from end to end

A bridge that reaches its remote over `ws://` writes packets into a `WsStream`, and the remote reads them out of one.

| here | there |
| --- | --- |
| `pollWrite`   | `poll_write` (ws.rs:177), with the message it hands to the inner sink |
| `Writer.poll` | `write_all` over one packet after the other, polled once |
| `carried`     | the binary messages as the other end comes by them, up to the first close, text, error or end |

A message is as long as the write it comes from, and what the reads return is cut wherever their buffers end. None of that
shows behind `read_packet`: what the remote handles are the packets that were written, in their order, each of them once.
-/

namespace WispMQ.WebSocket
open Framing

/-- What the inner sink does: `poll_ready`, and `start_send` where it is ready. -/
inductive Sink (X : Type) where
  | pending
  | notReady (e : WsError X)
  | refuses (e : WsError X)
  | takes

inductive PollWrite (X : Type) where
  | pending
  | ok (n : Nat)
  | err (e : IoError X)

variable {X : Type}

def pollWrite (buf : Bytes) : Sink X → PollWrite X × List WsMessage
  | .takes => (.ok buf.length, [.binary buf])
  | .refuses e => (.err (wsToIo e), [])
  | .notReady e => (.err (wsToIo e), [])
  | .pending => (.pending, [])

/-- A task that writes its buffers one after the other. -/
structure Writer where
  left : List Bytes
  failed : Bool := false
deriving DecidableEq

namespace Writer

/-- An empty buffer is written without a poll, a write of nothing is an error, and an error is the end. -/
def poll (w : Writer) (sink : Sink X) : Writer × List WsMessage :=
  match w.failed, w.left.dropWhile List.isEmpty with
  | false, buf :: left =>
    match pollWrite buf sink with
    | (.pending, sent) => (⟨buf :: left, false⟩, sent)
    | (.err _, sent) => (⟨buf :: left, true⟩, sent)
    | (.ok n, sent) =>
      if n = 0 then (⟨buf :: left, true⟩, sent)
      else (⟨buf.drop n :: left, false⟩, sent)
  | failed, left => (⟨left, failed⟩, [])

def done (w : Writer) : Bool := !w.failed && w.left.all List.isEmpty

end Writer

def WsMessage.data : WsMessage → Bytes
  | .binary data | .ping data | .pong data | .frame data => data
  | .text _ | .close => []

/-! ## What is written -/

theorem flatten_dropWhile : ∀ (bufs : List Bytes), (bufs.dropWhile List.isEmpty).flatten = bufs.flatten
  | [] => rfl
  | [] :: bufs => flatten_dropWhile bufs
  | (_ :: _) :: _ => rfl

/-- One poll: what it sends was at the front of what was left. -/
theorem Writer.poll_flatten (w : Writer) (sink : Sink X) :
    ((w.poll sink).2.map WsMessage.data).flatten ++ (w.poll sink).1.left.flatten = w.left.flatten ∧
      ∀ m ∈ (w.poll sink).2, ∃ data, m = .binary data := by
  rw [← flatten_dropWhile w.left]
  unfold Writer.poll
  split
  · rename_i buf left hf hleft
    rw [hleft]
    cases sink with
    | pending => exact ⟨rfl, by simp [pollWrite]⟩
    | notReady e => exact ⟨rfl, by simp [pollWrite]⟩
    | refuses e => exact ⟨rfl, by simp [pollWrite]⟩
    | takes =>
      simp only [pollWrite]
      split
      · rename_i hn
        have : buf = [] := List.length_eq_zero_iff.1 hn
        subst this
        exact ⟨rfl, by simp⟩
      · simp [WsMessage.data]
  · exact ⟨rfl, by simp⟩

/-- The messages of a run and what is left are what was to be written. -/
theorem Writer.run_flatten : ∀ (sinks : List (Sink X)) (w : Writer),
    ((Machine.run Writer.poll w sinks).2.map WsMessage.data).flatten ++ (Machine.run Writer.poll w sinks).1.left.flatten =
        w.left.flatten ∧
      ∀ m ∈ (Machine.run Writer.poll w sinks).2, ∃ data, m = .binary data
  | [], w => ⟨rfl, by simp [Machine.run]⟩
  | sink :: sinks, w => by
    obtain ⟨hbytes, hbinary⟩ := w.poll_flatten sink
    obtain ⟨hbytes', hbinary'⟩ := Writer.run_flatten sinks (w.poll sink).1
    simp only [Machine.run]
    constructor
    · rw [List.map_append, List.flatten_append, List.append_assoc, hbytes', hbytes]
    · intro m hm
      rcases List.mem_append.1 hm with hm | hm
      · exact hbinary m hm
      · exact hbinary' m hm

theorem data_binary {ms : List WsMessage} (h : ∀ m ∈ ms, ∃ data, m = .binary data) :
    (ms.map WsMessage.data).map .binary = ms := by
  rw [List.map_map]
  conv_rhs => rw [← List.map_id ms]
  refine List.map_congr_left fun m hm => ?_
  obtain ⟨data, rfl⟩ := h m hm
  rfl

/-! ## Getting on -/

def Sink.fails : Sink X → Bool
  | .notReady _ | .refuses _ => true
  | .pending | .takes => false

def Sink.isTakes : Sink X → Bool
  | .takes => true
  | .pending | .notReady _ | .refuses _ => false

/-- The buffers that still need a write. -/
def Writer.pending (w : Writer) : Nat := w.left.countP (!·.isEmpty)

theorem countP_dropWhile : ∀ (bufs : List Bytes),
    (bufs.dropWhile List.isEmpty).countP (!·.isEmpty) = bufs.countP (!·.isEmpty)
  | [] => rfl
  | [] :: bufs => by
    rw [List.dropWhile_cons_of_pos rfl, countP_dropWhile bufs, List.countP_cons_of_neg (by simp)]
  | (_ :: _) :: _ => rfl

theorem dropWhile_head {bufs left : List Bytes} {buf : Bytes} (h : bufs.dropWhile List.isEmpty = buf :: left) :
    buf ≠ [] := by
  have hne : bufs.dropWhile List.isEmpty ≠ [] := by rw [h]; simp
  have hhead := List.head_dropWhile_not List.isEmpty hne
  simp only [h, List.head_cons, List.isEmpty_eq_false_iff] at hhead
  exact hhead

/-- A sink that takes a message takes a whole buffer. -/
theorem Writer.poll_pending {w : Writer} {sink : Sink X} (hf : w.failed = false) (hs : sink.fails = false) :
    (w.poll sink).1.failed = false ∧ (w.poll sink).1.pending = w.pending - if sink.isTakes then 1 else 0 := by
  rw [Writer.pending, Writer.pending, ← countP_dropWhile w.left]
  unfold Writer.poll
  rw [hf]
  cases hleft : w.left.dropWhile List.isEmpty with
  | nil => exact ⟨rfl, by simp⟩
  | cons buf left =>
    have hbuf := dropWhile_head hleft
    cases sink with
    | pending => exact ⟨rfl, rfl⟩
    | notReady e => cases hs
    | refuses e => cases hs
    | takes =>
      have hn : ¬buf.length = 0 := fun h => hbuf (List.length_eq_zero_iff.1 h)
      have hcount : (buf :: left).countP (!·.isEmpty) = left.countP (!·.isEmpty) + 1 :=
        List.countP_cons_of_pos (by simpa using hbuf)
      simp only [pollWrite, if_neg hn, List.drop_length, Sink.isTakes, hcount]
      exact ⟨trivial, by simp⟩

theorem Writer.run_pending : ∀ (sinks : List (Sink X)) (w : Writer), w.failed = false → (∀ s ∈ sinks, s.fails = false) →
    (Machine.run Writer.poll w sinks).1.failed = false ∧
      (Machine.run Writer.poll w sinks).1.pending = w.pending - sinks.countP Sink.isTakes
  | [], w, hf, _ => ⟨hf, rfl⟩
  | sink :: sinks, w, hf, hs => by
    obtain ⟨hsink, hs⟩ := List.forall_mem_cons.1 hs
    obtain ⟨hf', hp⟩ := Writer.poll_pending hf hsink
    obtain ⟨hf'', hp'⟩ := Writer.run_pending sinks _ hf' hs
    refine ⟨hf'', ?_⟩
    simp only [Machine.run, hp', hp, List.countP_cons]
    omega

theorem Writer.done_of_pending {w : Writer} (hf : w.failed = false) (h : w.pending = 0) : w.done = true := by
  rw [Writer.done, hf, Bool.not_false, Bool.true_and, List.all_eq_true]
  rw [Writer.pending, List.countP_eq_zero] at h
  intro buf hbuf
  simpa using h buf hbuf

theorem Writer.flatten_of_done {w : Writer} (h : w.done = true) : w.left.flatten = [] := by
  rw [Writer.done, Bool.and_eq_true, List.all_eq_true] at h
  rw [List.flatten_eq_nil_iff]
  exact fun buf hbuf => List.isEmpty_iff.1 (h.2 buf hbuf)

/-! ## What arrives -/

def carried : List (Polled X) → List Bytes
  | [] => []
  | .pending :: inner => carried inner
  | .error _ :: _ => []
  | .message m :: inner =>
    match m with
    | .binary data => data :: carried inner
    | .close | .text _ => []
    | .ping _ | .pong _ | .frame _ => carried inner

theorem payload_eq_carried : ∀ (inner : List (Polled X)), payload inner = (carried inner).flatten
  | [] => rfl
  | .pending :: inner => payload_eq_carried inner
  | .error _ :: _ => rfl
  | .message (.binary data) :: inner => by
    rw [payload, carried, List.flatten_cons, payload_eq_carried inner]
  | .message (.close) :: _ => rfl
  | .message (.text _) :: _ => rfl
  | .message (.ping _) :: inner => payload_eq_carried inner
  | .message (.pong _) :: inner => payload_eq_carried inner
  | .message (.frame _) :: inner => payload_eq_carried inner

theorem flatten_prefix {xs ys : List Bytes} (h : xs <+: ys) : xs.flatten <+: ys.flatten := by
  obtain ⟨zs, rfl⟩ := h
  rw [List.flatten_append]
  exact List.prefix_append _ _

theorem carried_isPrefix {inner : List (Polled X)} {ms : List WsMessage}
    (hbinary : ∀ m ∈ ms, ∃ data, m = .binary data) (h : (carried inner).map .binary <+: ms) :
    payload inner <+: (ms.map WsMessage.data).flatten := by
  rw [payload_eq_carried]
  refine flatten_prefix ?_
  rw [← data_binary hbinary] at h
  exact (List.prefix_map_iff_of_injective fun a b hab => by injection hab).1 h

variable (decode : Bytes → Decoded Packet ReasonCode) (encode : Packet → Bytes)

/-- **From end to end**: packets are written into a WebSocket whose sink takes and refuses as it likes; the messages
arrive in order, all or the first of them, with anything else in between; the remote reads them into buffers of any sizes,
and its connection task is not interrupted within a packet. Then the packets that it handles are the first of those
written. They are all of them when all have been written and have arrived, the reads have come to the end, and the
task, still in its loop, has taken what they returned. And all are written once the sink has taken as many messages as there are
packets. -/
theorem packets_carried (identity : Option String) (version : ProtocolVersion) (cid : String) (epoch : Nat)
    (ps : List Packet) (hcodec : ∀ p ∈ ps, Encodes decode p (encode p)) (sinks : List (Sink X))
    (inner : List (Polled X)) (sizes : List Nat) (hpos : ∀ n ∈ sizes, 0 < n) (ts : List Turn)
    (hnet : (carried inner).map .binary <+: (Machine.run Writer.poll ⟨ps.map encode, false⟩ sinks).2)
    (hread : ts.flatMap Turn.bytes = returned (reads ⟨inner, []⟩ sizes).1)
    (hts : Machine.Along (Loop.turn decode identity version) (fun l t => ¬l.Interrupted t) ⟨.running cid epoch, {}⟩ ts) :
    handled (Machine.run (Loop.turn decode identity version) ⟨.running cid epoch, {}⟩ ts).2 <+: ps ∧
    ((Machine.run Writer.poll ⟨ps.map encode, false⟩ sinks).1.done = true →
      (carried inner).map .binary = (Machine.run Writer.poll ⟨ps.map encode, false⟩ sinks).2 →
      (∃ out ∈ (reads ⟨inner, []⟩ sizes).1, out.isTerminal) →
      (∀ ok, (Machine.run (Loop.turn decode identity version) ⟨.running cid epoch, {}⟩ ts).1.conn ≠ .returned ok) →
      (Machine.run (Loop.turn decode identity version) ⟨.running cid epoch, {}⟩ ts).1.reader.arrived = [] →
      handled (Machine.run (Loop.turn decode identity version) ⟨.running cid epoch, {}⟩ ts).2 = ps) ∧
    ((∀ s ∈ sinks, s.fails = false) → ps.length ≤ sinks.countP Sink.isTakes →
      (Machine.run Writer.poll ⟨ps.map encode, false⟩ sinks).1.done = true) := by
  obtain ⟨hwritten, hbinary⟩ := Writer.run_flatten sinks (⟨ps.map encode, false⟩ : Writer)
  obtain ⟨rest, hpayload, hend⟩ := reads_payload sizes ⟨inner, []⟩ hpos
  have hpayload : payload inner = returned (reads ⟨inner, []⟩ sizes).1 ++ rest := hpayload
  have hstart : Loop.Follows decode [] ⟨.running cid epoch, {}⟩ [] := .running rfl .start
  have hfollows := hstart.run hts
  rw [List.nil_append, List.nil_append, hread] at hfollows
  refine ⟨?_, fun hdone harrived hterm hlasts hcaught => ?_, fun hs hlen => ?_⟩
  · have hbytes : returned (reads ⟨inner, []⟩ sizes).1 <+: (ps.map encode).flatten := by
      have hreturned : returned (reads ⟨inner, []⟩ sizes).1 <+: payload inner := ⟨rest, hpayload.symm⟩
      exact (hreturned.trans (carried_isPrefix hbinary hnet)).trans ⟨_, hwritten⟩
    obtain ⟨more, hmore⟩ := hbytes
    have hbegins := hfollows.begins more
    rwa [hmore, frames_encoded hcodec] at hbegins
  · have hbytes : returned (reads ⟨inner, []⟩ sizes).1 = (ps.map encode).flatten := by
      have hall := Writer.flatten_of_done hdone
      rw [hend hterm, List.append_nil, payload_eq_carried] at hpayload
      rw [hall, List.append_nil, ← harrived, List.map_map] at hwritten
      rw [← hpayload, ← hwritten]
      exact congrArg List.flatten (List.map_id _).symm
    rcases hfollows.rest with ⟨c, e, -, htracks⟩ | ⟨ok, hc⟩
    · rw [← htracks.caught_up hcaught, hbytes, frames_encoded hcodec]
    · exact absurd hc (hlasts ok)
  · obtain ⟨hf, hp⟩ := Writer.run_pending sinks (⟨ps.map encode, false⟩ : Writer) rfl hs
    refine Writer.done_of_pending hf ?_
    have hpending : (⟨ps.map encode, false⟩ : Writer).pending ≤ ps.length := by
      rw [Writer.pending, ← List.length_map encode]
      exact List.countP_le_length
    omega

/-- The encoding of a PINGREQ, and of nothing else. -/
def encodePing : Packet → Bytes
  | .pingreq => [0xC0, 0x00]
  | _ => []

theorem encodes_ping : Encodes Loop.pings Packet.pingreq (encodePing .pingreq) := by
  refine ⟨by decide, fun front back hsplit hfront hback => ?_, rfl⟩
  obtain ⟨x, front, rfl⟩ := List.exists_cons_of_ne_nil hfront
  have hlen := congrArg List.length hsplit
  have hpos := List.length_pos_iff.2 hback
  simp only [encodePing, List.length_cons, List.length_nil, List.length_append] at hlen
  obtain rfl : front = [] := List.length_eq_zero_iff.1 (by omega)
  rfl

/-- Two PINGREQs, a pause of the sink between them; the first is read in two pieces. -/
theorem packets_carried_twoPings :
    handled (Machine.run (Loop.turn Loop.pings none .v5) ⟨.running "c" 1, {}⟩
      [.arrive [0xC0], .poll .continue true, .arrive [0x00], .poll .continue true, .arrive [0xC0, 0x00],
        .poll .continue true]).2 = [.pingreq, .pingreq] :=
  (packets_carried Loop.pings encodePing none .v5 "c" 1 [.pingreq, .pingreq] (by simpa using encodes_ping)
    [.takes, .pending, (.takes : Sink Nat)]
    [.message (.binary [0xC0, 0x00]), .message (.ping []), .pending, .message (.binary [0xC0, 0x00]), .message (.close)]
    [1, 4, 4, 4, 4] (by decide) _ (⟨[], by simp [carried, Machine.run, Writer.poll, pollWrite, encodePing]⟩)
    (by simp [reads, returned, WsStream.pollRead, pollLoop, PollRead.isTerminal, PollRead.bytes, Turn.bytes]) (by decide)).2.1
    (by decide) (by simp [carried, Machine.run, Writer.poll, pollWrite, encodePing])
    ⟨.ok [], by simp [reads, WsStream.pollRead, pollLoop], rfl⟩ (by intro ok; cases ok <;> decide) (by decide)

end WispMQ.WebSocket
