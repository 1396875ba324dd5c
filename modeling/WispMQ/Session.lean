import WispMQ.Message
import WispMQ.Lib.KeyMap
/-!
# Per-client session state: `broker/session.rs`

| here | there |
| --- | --- |
| `Outgoing`                  | `Outgoing` (session.rs:37) |
| `OutTx`                     | `Sender<Outgoing>` and the bounded channel behind it (session.rs:45) |
| `Session`                   | `Session` (session.rs:61) |
| `Session.nextId`            | `Session::next_id` (session.rs:142) |
| `Session.upsertSubscription`, `Session.removeSubscription` | session.rs:161, :178 |

A session holds the only sender of its connection's channel (`handle_connect` moves it in), so the
channel is modelled where its sender is: `OutTx` is everything `try_send` ever accepted and how much of
it the connection task has taken. Hash maps are `KeyMap`s and hash sets `Finset`s; code that iterates
over one takes the iteration order as an argument.
-/

namespace WispMQ

/-- An item for the connection task. -/
inductive Outgoing where
  | send (p : Publish)
  | control (p : Packet)
  | shutdown (rc : ReasonCode)
deriving DecidableEq, Repr

/-- `session::OUTBOUND_CHANNEL_CAPACITY` (session.rs:59). -/
def outboundChannelCapacity : Nat := 1024

/-- The channel to a connection task, seen from its sender. -/
structure OutTx where
  capacity : Nat := outboundChannelCapacity
  /-- Everything accepted so far, oldest first. -/
  sent : List Outgoing := []
  /-- How many of these the connection task has received. -/
  received : Nat := 0
  /-- The receiver has not been dropped. -/
  rxOpen : Bool := true
deriving DecidableEq, Repr

namespace OutTx

/-- Room for one more item. -/
def hasRoom (tx : OutTx) : Bool := tx.rxOpen && tx.sent.length - tx.received < tx.capacity

/-- `Sender::try_send`; `none` is `Err`, full or closed. -/
def trySend (tx : OutTx) (item : Outgoing) : Option OutTx :=
  if tx.hasRoom then some { tx with sent := tx.sent ++ [item] } else none

/-- `Receiver::recv` on a non-empty channel. -/
def recv (tx : OutTx) : OutTx :=
  if tx.received < tx.sent.length then { tx with received := tx.received + 1 } else tx

end OutTx

/-- A message waiting in a session's queue (session.rs:14). -/
structure Pending where
  message : Message
  qos : QoS
  retain : Bool
  subscriptionIds : List Nat
deriving DecidableEq, Repr

/-- The PUBLISH `to_publish` renders for a pending message under the packet id `id`. -/
def Pending.render (now : Nat) (p : Pending) (id : Nat) : Publish :=
  p.message.toPublish now p.qos (some id) p.retain p.subscriptionIds

/-- A stored subscription (session.rs:23). -/
structure Subscription where
  /-- Matching filter, with any `$share/{name}/` prefix stripped off. -/
  filter : String
  shareName : Option String
  qos : QoS
  noLocal : Bool
  retainAsPublished : Bool
  subscriptionIdentifier : Option Nat
deriving DecidableEq, Repr

/-- The key a subscription is stored under. -/
def Subscription.key (sub : Subscription) : String := shareKey sub.shareName sub.filter

structure Session where
  clientId : String
  identity : Option String := none
  epoch : Nat := 0
  out : Option OutTx := none
  subscriptions : List Subscription := []
  persistent : Bool := false
  sessionExpiryInterval : Nat
  will : Option (Message × Nat) := none
  clientReceiveMaximum : Nat := 65535
  clientMaxPacketSize : Option Nat := none
  nextPacketId : Nat := 1
  awaitingPuback : KeyMap Nat Publish := ∅
  awaitingPubrec : KeyMap Nat Publish := ∅
  awaitingPubcomp : Finset Nat := ∅
  queue : List Pending := []
  inboundQos2 : Finset Nat := ∅
  inboundAliases : KeyMap Nat String := ∅
deriving DecidableEq

namespace Session

/-- `Session::new` (session.rs:104). -/
def new (clientId : String) (sessionExpiryInterval : Nat) : Session := { clientId, sessionExpiryInterval }

def isOnline (s : Session) : Bool := s.out.isSome

/-- `Session::inflight_count` (session.rs:131). -/
def inflightCount (s : Session) : Nat :=
  KeyMap.size s.awaitingPuback + KeyMap.size s.awaitingPubrec + s.awaitingPubcomp.card

/-- `Session::window_open` (session.rs:137). -/
def windowOpen (s : Session) : Bool := s.inflightCount < s.clientReceiveMaximum

/-- `Session::id_in_use` (session.rs:153). -/
def idInUse (s : Session) (id : Nat) : Bool :=
  id ∈ s.awaitingPuback || id ∈ s.awaitingPubrec || id ∈ s.awaitingPubcomp

/-- The counter after `id`, wrapping from 65535 to 1. -/
def bumpId (id : Nat) : Nat := if id = 65535 then 1 else id + 1

/-- The scan of `next_id`: the id found and the counter it leaves behind. -/
def scanIds (used : Nat → Bool) : Nat → Nat → Option Nat × Nat
  | 0, next => (none, next)
  | fuel + 1, next => if used next then scanIds used fuel (bumpId next) else (some next, bumpId next)

/-- `Session::next_id` (session.rs:142): `for _ in 0..=u16::MAX`. -/
def nextId (s : Session) : Option Nat × Session :=
  let r := scanIds s.idInUse 65536 s.nextPacketId
  (r.1, { s with nextPacketId := r.2 })

/-- `Session::upsert_subscription` (session.rs:161): replace in place or append. -/
def upsertSubscription (s : Session) (sub : Subscription) : Session × Bool :=
  match s.subscriptions.findIdx? fun x => x.filter = sub.filter && x.shareName = sub.shareName with
  | some i => ({ s with subscriptions := s.subscriptions.set i sub }, true)
  | none => ({ s with subscriptions := s.subscriptions ++ [sub] }, false)

/-- `Session::remove_subscription` (session.rs:178). -/
def removeSubscription (s : Session) (filter : String) (shareName : Option String) : Session × Bool :=
  let kept := s.subscriptions.filter fun x => !(x.filter = filter && x.shareName = shareName)
  ({ s with subscriptions := kept }, kept.length != s.subscriptions.length)

/-- `tx.try_send(item)` on the session's channel; `none` when offline, full or closed. -/
def trySend (s : Session) (item : Outgoing) : Option Session :=
  s.out.bind fun tx => (tx.trySend item).map fun tx => { s with out := some tx }

/-- `let _ = tx.try_send(item)` if the session is online. -/
def push (s : Session) (item : Outgoing) : Session := (s.trySend item).getD s

/-- `Session::go_offline` (session.rs:187). -/
def goOffline (s : Session) : Session := { s with out := none }

end Session

end WispMQ
