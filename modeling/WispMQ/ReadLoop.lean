import WispMQ.Server
import WispMQ.Lib.Framing
/-!
# The bytes behind the packets: the `select!` loop of `handle_connection` (server.rs:318-409)

| here | there |
| --- | --- |
| `decode`                  | **external**: `framing::read_packet`, as what it makes of the bytes it has taken so far |
| `Loop.reader`             | `rd`, with the bytes that have arrived and those the read future of this iteration has taken |
| `Turn.poll`               | `read_packet(&mut rd, ..)` is polled (server.rs:348) |
| `Turn.outgoing`           | `rx.recv()` completes first (server.rs:321): the read future is dropped |

`read_packet` keeps what it has taken inside its future and takes exactly one frame when it is left to complete. Every
iteration of the loop starts a new one, so an item that arrives on the channel takes the bytes of an incomplete frame
with it.
-/

namespace WispMQ
open Framing

/-- The connection task in its loop. -/
structure Loop where
  conn : Conn
  reader : Reader UInt8 := {}
deriving DecidableEq

inductive Turn where
  /-- A piece of the client's bytes arrives. -/
  | arrive (bytes : Bytes)
  /-- The read future is polled. If it completes, `handle_packet` returns `action`. -/
  | poll (action : Action) (writeOk : Bool)
  | outgoing (item : Outgoing) (writeOk : Bool)
  | channelClosed
  | eof
  | timeout (writeOk : Bool)
deriving DecidableEq

/-- The bytes the client sent. -/
def Turn.bytes : Turn → Bytes
  | arrive bytes => bytes
  | _ => []

/-- The packets passed to `handle_packet`. -/
def handled (ios : List Io) : List Packet :=
  ios.filterMap fun
    | .call (.packet _ _ p) => some p
    | _ => none

@[simp] theorem handled_append (ios ios' : List Io) : handled (ios ++ ios') = handled ios ++ handled ios' :=
  List.filterMap_append

namespace Loop
variable (decode : Bytes → Decoded Packet ReasonCode) (identity : Option String) (version : ProtocolVersion)

/-- The task handles an event and is left with the reader `r`. -/
def on (l : Loop) (e : Event) (r : Reader UInt8) : Loop × List Io :=
  (⟨(l.conn.handle identity version e).1, r⟩, (l.conn.handle identity version e).2)

def turn (l : Loop) : Turn → Loop × List Io
  | .arrive bytes => ({ l with reader := l.reader.arrive bytes }, [])
  | .poll action ok =>
    match (l.reader.poll decode).2 with
    | .incomplete => ({ l with reader := (l.reader.poll decode).1 }, [])
    | .frame p => l.on identity version (.packet p action ok) (l.reader.poll decode).1
    | .malformed rc => l.on identity version (.malformed rc ok) (l.reader.poll decode).1
  | .outgoing item ok => l.on identity version (.outgoing item ok) l.reader.drop
  | .channelClosed => l.on identity version .channelClosed l.reader.drop
  | .eof => l.on identity version .eof l.reader.drop
  | .timeout ok => l.on identity version (.timeout ok) l.reader.drop

/-- The turn takes an item off the channel, the loop goes on, and the read it drops has taken a part of a frame. -/
def Interrupted (l : Loop) : Turn → Prop
  | .outgoing (.send _) ok | .outgoing (.control _) ok => ok = true ∧ l.reader.held ≠ []
  | _ => False

instance (l : Loop) : DecidablePred l.Interrupted
  | .outgoing (.send _) _ | .outgoing (.control _) _ => inferInstanceAs (Decidable (_ ∧ _))
  | .outgoing (.shutdown _) _ | .arrive _ | .poll .. | .channelClosed | .eof | .timeout _ => .isFalse id

/-- The packets handled so far begin the client's packets, and while the loop runs the rest of them is still to come. -/
structure Follows (sent : Bytes) (l : Loop) (ios : List Io) : Prop where
  begins : ∀ ys, handled ios <+: frames decode [] (sent ++ ys)
  rest : (∃ cid epoch, l.conn = .running cid epoch ∧ Tracks decode sent (handled ios) l.reader) ∨
    ∃ ok, l.conn = .returned ok

variable {decode identity version} {sent : Bytes} {l : Loop} {ios : List Io}

namespace Follows

theorem running {cid : String} {epoch : Nat} (hc : l.conn = .running cid epoch)
    (h : Tracks decode sent (handled ios) l.reader) : Follows decode sent l ios := by
  refine ⟨fun ys => ?_, .inl ⟨cid, epoch, hc, h⟩⟩
  rw [h ys]
  exact List.prefix_append _ _

theorem returned {ok : Bool} (hc : l.conn = .returned ok) (h : ∀ ys, handled ios <+: frames decode [] (sent ++ ys)) :
    Follows decode sent l ios := ⟨h, .inr ⟨ok, hc⟩⟩

end Follows

theorem handled_sayGoodbye (rc : ReasonCode) (ok : Bool) : handled (Conn.sayGoodbye version rc ok) = [] := by
  unfold Conn.sayGoodbye
  split <;> rfl

theorem handled_leave (cid : String) (epoch : Nat) (publishWill : Bool) (before : List Io) :
    handled (Conn.leave cid epoch publishWill before).2 = handled before := by
  simp only [Conn.leave, handled_append]
  exact List.append_nil _

/-- The packet an event hands to the broker. -/
def packets : Event → List Packet
  | .packet p _ _ => [p]
  | _ => []

/-- An event in the loop: its packet is handled, and the loop goes on or ends. -/
theorem handle_packets (identity : Option String) (version : ProtocolVersion) {cid : String} {epoch : Nat} {e : Event}
    (hw : Conn.Waits (.running cid epoch) e) :
    handled (Conn.handle identity version (.running cid epoch) e).2 = packets e ∧
      ((Conn.handle identity version (.running cid epoch) e).1 = .running cid epoch ∨
        ∃ ok, (Conn.handle identity version (.running cid epoch) e).1 = .returned ok) := by
  cases e with
  | outgoing item ok =>
    cases item with
    | shutdown rc =>
      refine ⟨?_, .inr ⟨true, rfl⟩⟩
      simp only [Conn.handle, handled_leave, handled_sayGoodbye, packets]
    | _ => cases ok <;> simp [Conn.handle, Conn.sendOrReturn, handled, packets]
  | packet p action ok =>
    cases action with
    | «continue» => exact ⟨rfl, .inl rfl⟩
    | serverDisconnect rc =>
      refine ⟨?_, .inr ⟨true, rfl⟩⟩
      have hcons : handled (.call (.packet cid epoch p) :: Conn.sayGoodbye version rc ok) =
          p :: handled (Conn.sayGoodbye version rc ok) := rfl
      simp only [Conn.handle, handled_leave, hcons, handled_sayGoodbye, packets]
    | clientDisconnect publishWill => exact ⟨rfl, .inr ⟨true, rfl⟩⟩
  | channelClosed => exact ⟨rfl, .inr ⟨true, rfl⟩⟩
  | eof => exact ⟨rfl, .inr ⟨true, rfl⟩⟩
  | malformed rc ok =>
    refine ⟨?_, .inr ⟨true, rfl⟩⟩
    simp only [Conn.handle, handled_leave, handled_sayGoodbye, packets]
  | timeout ok =>
    refine ⟨?_, .inr ⟨true, rfl⟩⟩
    simp only [Conn.handle, handled_leave, handled_sayGoodbye, packets]
  | _ => exact hw.elim

/-- After the loop nothing happens any more. -/
theorem turn_returned (decode : Bytes → Decoded Packet ReasonCode) (identity : Option String)
    (version : ProtocolVersion) {ok : Bool} (hc : l.conn = .returned ok) (t : Turn) :
    (l.turn decode identity version t).1.conn = .returned ok ∧ (l.turn decode identity version t).2 = [] := by
  have hon : ∀ e r, (l.on identity version e r).1.conn = .returned ok ∧ (l.on identity version e r).2 = [] := by
    intro e r
    rw [on, hc]
    cases e <;> exact ⟨rfl, rfl⟩
  cases t with
  | arrive bytes => exact ⟨hc, rfl⟩
  | poll action ok =>
    rw [turn]
    split
    · exact ⟨hc, rfl⟩
    · exact hon _ _
    · exact hon _ _
  | _ => exact hon _ _

/-- One turn that does not interrupt a read. -/
theorem Follows.turn (h : Follows decode sent l ios) {t : Turn} (ht : ¬l.Interrupted t) :
    Follows decode (sent ++ t.bytes) (l.turn decode identity version t).1
      (ios ++ (l.turn decode identity version t).2) := by
  rcases h.rest with ⟨cid, epoch, hc, htracks⟩ | ⟨ok, hc⟩
  · -- the event's packet, if any, has just been read, and the reader is on track unless the loop ends
    have hon : ∀ {e : Event} {r : Reader UInt8}, Conn.Waits (.running cid epoch) e →
        (∀ ys, handled ios ++ packets e <+: frames decode [] (sent ++ ys)) →
        ((Conn.handle identity version (.running cid epoch) e).1 = .running cid epoch →
          Tracks decode sent (handled ios ++ packets e) r) →
        Follows decode sent (l.on identity version e r).1 (ios ++ (l.on identity version e r).2) := by
      intro e r hw hbegins hrest
      obtain ⟨hp, hnext⟩ := handle_packets identity version hw
      rw [on, hc]
      rcases hnext with hnext | ⟨ok, hnext⟩
      · refine .running hnext ?_
        rw [handled_append, hp]
        exact hrest hnext
      · refine .returned hnext fun ys => ?_
        rw [handled_append, hp]
        exact hbegins ys
    have hnone : ∀ ys, handled ios ++ [] <+: frames decode [] (sent ++ ys) := by
      intro ys
      rw [List.append_nil]
      exact h.begins ys
    cases t with
    | arrive bytes =>
      refine .running hc ?_
      rw [Loop.turn, List.append_nil]
      exact htracks.arrive bytes
    | poll action ok =>
      simp only [Turn.bytes, List.append_nil, Loop.turn]
      split
      · rename_i hpoll
        refine .running hc ?_
        rw [List.append_nil]
        exact htracks.pending hpoll
      · rename_i p hpoll
        have htracks' := htracks.frame hpoll
        refine hon trivial (fun ys => ?_) fun _ => htracks'
        rw [htracks' ys]
        exact List.prefix_append _ _
      · exact hon trivial hnone fun hnext => by cases hnext
    | outgoing item ok =>
      simp only [Turn.bytes, List.append_nil]
      refine hon trivial hnone fun hnext => ?_
      simp only [packets, List.append_nil]
      refine htracks.drop ?_
      by_contra hheld
      refine ht ?_
      cases item with
      | shutdown rc => cases hnext
      | _ =>
        cases ok with
        | false => cases hnext
        | true => exact ⟨rfl, hheld⟩
    | channelClosed =>
      simp only [Turn.bytes, List.append_nil]
      exact hon trivial hnone fun hnext => by cases hnext
    | eof =>
      simp only [Turn.bytes, List.append_nil]
      exact hon trivial hnone fun hnext => by cases hnext
    | timeout ok =>
      simp only [Turn.bytes, List.append_nil]
      exact hon trivial hnone fun hnext => by cases hnext
  · obtain ⟨hc', hio⟩ := turn_returned decode identity version hc t
    refine .returned hc' fun ys => ?_
    rw [hio, List.append_nil, List.append_assoc]
    exact h.begins (t.bytes ++ ys)

/-- A run that does not interrupt a read. -/
theorem Follows.run : ∀ {ts : List Turn} {sent : Bytes} {l : Loop} {ios : List Io}, Follows decode sent l ios →
    Machine.Along (Loop.turn decode identity version) (fun l t => ¬l.Interrupted t) l ts →
    Follows decode (sent ++ ts.flatMap Turn.bytes) (Machine.run (Loop.turn decode identity version) l ts).1
      (ios ++ (Machine.run (Loop.turn decode identity version) l ts).2)
  | [], _, _, _, h, _ => by simpa [Machine.run] using h
  | t :: ts, sent, l, ios, h, ha => by
    have hrest := Follows.run (h.turn ha.1) ha.2
    rw [List.append_assoc, List.append_assoc] at hrest
    exact hrest

/-- **The packet stream**: however the client's bytes arrive and whatever the broker sends in between, as long as no item
is taken off the channel while the read future holds a part of a frame, the packets passed to `handle_packet` begin the
packets framed in these bytes; and while the connection lasts they are all of them, once the bytes that have arrived are
read. -/
theorem packets_framed (decode : Bytes → Decoded Packet ReasonCode) (identity : Option String)
    (version : ProtocolVersion) (cid : String) (epoch : Nat) (ts : List Turn)
    (h : Machine.Along (turn decode identity version) (fun l t => ¬l.Interrupted t) ⟨.running cid epoch, {}⟩ ts) :
    handled (Machine.run (turn decode identity version) ⟨.running cid epoch, {}⟩ ts).2 <+:
      frames decode [] (ts.flatMap Turn.bytes) ∧
    ((∀ ok, (Machine.run (turn decode identity version) ⟨.running cid epoch, {}⟩ ts).1.conn ≠ .returned ok) →
      (Machine.run (turn decode identity version) ⟨.running cid epoch, {}⟩ ts).1.reader.arrived = [] →
      handled (Machine.run (turn decode identity version) ⟨.running cid epoch, {}⟩ ts).2 =
        frames decode [] (ts.flatMap Turn.bytes)) := by
  have hstart : Follows decode [] ⟨.running cid epoch, {}⟩ [] := .running rfl .start
  have hrun := hstart.run h
  rw [List.nil_append, List.nil_append] at hrun
  constructor
  · have hbegins := hrun.begins []
    rwa [List.append_nil] at hbegins
  · intro hlasts harrived
    rcases hrun.rest with ⟨c, e, -, htracks⟩ | ⟨ok, hc⟩
    · exact (htracks.caught_up harrived).symm
    · exact absurd hc (hlasts ok)

/-- What `read_packet` makes of a client that only pings: the fixed header of a PINGREQ is `C0 00`. -/
def pings : Bytes → Decoded Packet ReasonCode
  | [] | [_] => .incomplete
  | [0xC0, 0x00] => .frame .pingreq
  | _ => .malformed .malformedPacket

/-- Two PINGREQs in two pieces, and an answer between them. -/
def twoPings : List Turn :=
  [.arrive [0xC0], .poll .continue true, .arrive [0x00, 0xC0, 0x00], .poll .continue true,
    .outgoing (.control .pingresp) true, .poll .continue true]

theorem packets_framed_twoPings :
    handled (Machine.run (turn pings none .v5) ⟨.running "c" 1, {}⟩ twoPings).2 = frames pings [] [0xC0, 0x00, 0xC0, 0x00] :=
  (packets_framed pings none .v5 "c" 1 twoPings (by decide)).2 (by
    intro ok
    cases ok <;> decide) (by decide)

/-- One PINGREQ in two pieces, and a PUBLISH for the client between them. -/
def splitPing : List Turn :=
  [.arrive [0xC0], .poll .continue true, .outgoing (.send ⟨false, .atMostOnce, false, "t", none, {}, [1]⟩) true,
    .arrive [0x00], .poll .continue true]

/-- The first byte is lost and the PINGREQ is never handled. -/
theorem splitPing_lost :
    (Machine.run (turn pings none .v5) ⟨.running "c" 1, {}⟩ splitPing).1 = ⟨.running "c" 1, { held := [0x00] }⟩ ∧
    handled (Machine.run (turn pings none .v5) ⟨.running "c" 1, {}⟩ splitPing).2 = [] ∧
    frames pings [] (splitPing.flatMap Turn.bytes) = [.pingreq] := by
  decide

end Loop

end WispMQ
