import WispMQ.Session
/-!
# Per-session delivery: the free functions of `broker/routing.rs` and the acknowledgement handlers

| here | there |
| --- | --- |
| `exceedsWireSize`            | `exceeds_wire_size` (routing.rs:135) |
| `deliver`, `deliverToSession` | `deliver_to_session` (routing.rs:150) |
| `flushLoop`, `flushQueue`    | `flush_queue` (routing.rs:251) |
| `resumeDelivery`             | `resume_delivery` (routing.rs:314) |
| `Session.puback`, …          | the session part of `handle_puback`, `handle_pubrec`, `handle_pubrel`, `handle_pubcomp` (publish.rs:191-290) |

`deliver` and `flushLoop` also say what became of each message (`Fate`, `FlushFate`). The source keeps
only the count of discarded ones; that count is `Fate.dropped` and the number of `oversized` fates.
-/

namespace WispMQ
open KeyMap

variable (P : Protocol)

/-- `bytes.len() as u32 > cap`; an encoding error does not exceed anything. -/
def exceedsWireSize (publish : Publish) (cap : Nat) : Bool :=
  match P.encodedLen publish with
  | some len => len % 2 ^ 32 > cap
  | none => false

/-- The client's Maximum Packet Size rules the packet out. -/
def Session.oversized (s : Session) (publish : Publish) : Bool :=
  s.clientMaxPacketSize.any (exceedsWireSize P publish)

/-- Record a sent PUBLISH as in flight. -/
def Session.record (s : Session) (qos : QoS) (id : Nat) (publish : Publish) : Session :=
  match qos with
  | .atLeastOnce => { s with awaitingPuback := s.awaitingPuback.insert id publish }
  | .exactlyOnce => { s with awaitingPubrec := s.awaitingPubrec.insert id publish }
  | .atMostOnce => s

/-! ## `deliver_to_session` -/

/-- What `deliver_to_session` did with a message. -/
inductive Fate where
  /-- It had expired; nothing happens. -/
  | expired
  /-- QoS 0 for a session without a connection; nothing happens. -/
  | offline
  /-- Too large for the client, or QoS 0 and the channel refused it. -/
  | discarded
  /-- Pushed into the channel, under this packet id for QoS 1 and 2. -/
  | sent (id : Option Nat)
  /-- Queued, after evicting the oldest entry of a full queue. -/
  | queued (evicted : Option Pending)
deriving DecidableEq

/-- The returned flag: a message was dropped. -/
def Fate.dropped : Fate → Bool
  | discarded | queued (some _) => true
  | _ => false

/-- The direct send (routing.rs:196-224): the id counter moves even when the channel refuses. -/
def Session.sendNow (now : Nat) (s : Session) (p : Pending) : Session × Option Nat :=
  if s.isOnline && s.windowOpen then
    match s.nextId with
    | (none, s) => (s, none)
    | (some id, s) =>
      match s.trySend (.send (p.render now id)) with
      | some s => (s.record p.qos id (p.render now id), some id)
      | none => (s, none)
  else (s, none)

/-- Queue up to the bound, the oldest entry making room (routing.rs:232-242). -/
def Session.enqueue (s : Session) (p : Pending) (maxQueued : Nat) : Session × Fate :=
  if maxQueued > 0 && s.queue.length ≥ maxQueued then
    ({ s with queue := s.queue.tail ++ [p] }, .queued s.queue.head?)
  else ({ s with queue := s.queue ++ [p] }, .queued none)

def deliver (now : Nat) (s : Session) (message : Message) (qos : QoS) (retain : Bool)
    (subIds : List Nat) (maxQueued : Nat) : Session × Fate :=
  if message.isExpired now then (s, .expired)
  else match qos with
    | .atMostOnce =>
      if s.isOnline then
        let publish := message.toPublish now .atMostOnce none retain subIds
        if s.oversized P publish then (s, .discarded)
        else match s.trySend (.send publish) with
          | some s => (s, .sent none)
          | none => (s, .discarded)
      else (s, .offline)
    | qos =>
      -- one probe covers both the online and the offline path
      if s.oversized P (message.toPublish now qos (some 0) retain subIds) then (s, .discarded)
      else
        let p : Pending := ⟨message, qos, retain, subIds⟩
        match s.sendNow now p with
        | (s, some id) => (s, .sent (some id))
        | (s, none) => s.enqueue p maxQueued

def deliverToSession (now : Nat) (s : Session) (message : Message) (qos : QoS) (retain : Bool)
    (subIds : List Nat) (maxQueued : Nat) : Session × Bool :=
  let r := deliver P now s message qos retain subIds maxQueued
  (r.1, r.2.dropped)

/-! ## `flush_queue` -/

/-- What `flush_queue` did with an entry it popped and did not put back. -/
inductive FlushFate where
  | expired
  | oversized
  | sent (id : Nat)
deriving DecidableEq

/-- The `while` loop; the first argument is the queue the iteration starts with. -/
def flushLoop (now : Nat) : List Pending → Session → Session × List (Pending × FlushFate)
  | [], s => ({ s with queue := [] }, [])
  | p :: rest, s =>
    if s.isOnline && s.windowOpen then
      if p.message.isExpired now then
        let r := flushLoop now rest s
        (r.1, (p, .expired) :: r.2)
      else match s.nextId with
        | (none, s) => ({ s with queue := p :: rest }, [])
        | (some id, s) =>
          if s.oversized P (p.render now id) then
            let r := flushLoop now rest s
            (r.1, (p, .oversized) :: r.2)
          else match s.trySend (.send (p.render now id)) with
            | none => ({ s with queue := p :: rest }, [])
            | some s =>
              let r := flushLoop now rest (s.record p.qos id (p.render now id))
              (r.1, (p, .sent id) :: r.2)
    else ({ s with queue := p :: rest }, [])

/-- The fates of the entries `flush_queue` removes, in queue order. -/
def flushFates (now : Nat) (s : Session) : List (Pending × FlushFate) := (flushLoop P now s.queue s).2

def flushQueue (now : Nat) (s : Session) : Session × Nat :=
  ((flushLoop P now s.queue s).1, (flushFates P now s).countP (·.2 = .oversized))

/-! ## `resume_delivery` -/

/-- The iteration orders of the hash maps a step walks over. -/
structure Orders where
  sessions : List Nat := []
  shared : List Nat := []
  retained : List Nat := []
  puback : List Nat := []
  pubrec : List Nat := []
  pubcomp : List Nat := []
deriving DecidableEq

/-- Re-send stored PUBLISH packets with DUP set. -/
def Session.resend (s : Session) (ps : List Publish) : Session :=
  ps.foldl (fun s p => s.push (.send { p with dup := true })) s

/-- Re-send PUBREL for the given ids. -/
def Session.resendPubrel (s : Session) (ids : List Nat) : Session :=
  ids.foldl (fun s id => s.push (.control (.pubrel ⟨id, .success⟩))) s

/-- Everything unacknowledged again (routing.rs:318-336): PUBLISH packets, then PUBREL. -/
def Session.retransmit (ord : Orders) (s : Session) : Session :=
  let s := s.resend (reorder ord.puback (values s.awaitingPuback))
  let s := s.resend (reorder ord.pubrec (values s.awaitingPubrec))
  s.resendPubrel (reorder ord.pubcomp (s.awaitingPubcomp.sort (· ≤ ·)))

def resumeDelivery (now : Nat) (ord : Orders) (s : Session) : Session × Nat :=
  if s.isOnline then flushQueue P now (s.retransmit ord) else (s, 0)

/-! ## Acknowledgements -/

/-- `handle_puback` (publish.rs:191), with the number of messages its flush dropped. -/
def Session.puback (now : Nat) (s : Session) (id : Nat) : Session × Nat :=
  flushQueue P now { s with awaitingPuback := s.awaitingPuback.erase id }

/-- `handle_pubrec` (publish.rs:211): an error code ends the exchange, and nothing is flushed. -/
def Session.pubrec (s : Session) (ack : PubAck) : Session :=
  let known : Bool := ack.packetId ∈ s.awaitingPubrec
  let s := { s with awaitingPubrec := s.awaitingPubrec.erase ack.packetId }
  if known && ack.reasonCode.isError then s
  else if known then
    { s with awaitingPubcomp := insert ack.packetId s.awaitingPubcomp }.push
      (.control (.pubrel ⟨ack.packetId, .success⟩))
  else if ack.reasonCode.isError then s
  else s.push (.control (.pubrel ⟨ack.packetId, .packetIdentifierNotFound⟩))

/-- `handle_pubrel` (publish.rs:245). -/
def Session.pubrel (s : Session) (id : Nat) : Session :=
  let rc := if id ∈ s.inboundQos2 then ReasonCode.success else .packetIdentifierNotFound
  { s with inboundQos2 := s.inboundQos2.erase id }.push (.control (.pubcomp ⟨id, rc⟩))

/-- `handle_pubcomp` (publish.rs:272). -/
def Session.pubcomp (now : Nat) (s : Session) (id : Nat) : Session × Nat :=
  flushQueue P now { s with awaitingPubcomp := s.awaitingPubcomp.erase id }

end WispMQ
