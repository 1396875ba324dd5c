import WispMQ.Acl
import WispMQ.Delivery
import WispMQ.Storage
/-!
# The broker: `broker/mod.rs` and `Broker::route`

All shared state is behind one mutex and no handler awaits while holding it. What a handler does between
taking the lock and releasing it is one function here, from `Broker` to an `Outcome`: the state it leaves,
what it emitted (storage commands, retained insertions, routed messages, results, dropped channels) and
the continuations still to run. A handler that locks twice leaves its second critical section behind as
a `Task`, and so do the tasks it spawns.

| here | there |
| --- | --- |
| `Broker`                   | `Inner` and `State` (mod.rs:99, :137) |
| `Action`                   | `Action` (mod.rs:75) |
| `Broker.new`               | `Broker::new` (mod.rs:147) |
| `route`                    | `Broker::route` (routing.rs:16) |
| `storeRetained`            | the retained-message maintenance shared by PUBLISH, Will and injection (publish.rs:122-136, lifecycle.rs:158-171, bridges.rs:54-66) |
| `sendTo`                   | `send_to` (routing.rs:341), `push_control` (mod.rs:317) |
-/

namespace WispMQ
open KeyMap

/-- The options the broker reads (config.rs). -/
structure Config where
  maxSessionExpiry : Nat := 3600
  serverKeepAlive : Option Nat := none
  receiveMaximum : Nat := 64
  maximumQos : QoS := .exactlyOnce
  retainAvailable : Bool := true
  maxPacketSize : Nat := 1048576
  topicAliasMaximum : Nat := 16
  allowAnonymous : Bool := false
  maxQueuedMessages : Nat := 1000
  aclPath : Option String := none
deriving DecidableEq, Repr

/-- The counters the handlers update (metrics.rs). -/
structure Metrics where
  connectionsTotal : Nat := 0
  publishReceived : Nat := 0
  publishDelivered : Nat := 0
  publishDropped : Nat := 0
  clientsExpired : Nat := 0
  clientsMaximum : Nat := 0
deriving DecidableEq, Repr

/-- `auth::Credentials`, by what it decides. -/
structure Credentials where
  verify : String → Bytes → Bool

structure Broker where
  config : Config := {}
  auth : Option Credentials := none
  acl : Acl := .permitAll
  metrics : Metrics := {}
  sessions : KeyMap String Session := ∅
  retained : KeyMap String Message := ∅
  /-- Round-robin cursor per shared-subscription group. -/
  sharedRr : KeyMap (String × String) Nat := ∅
  nextEpoch : Nat := 1
  autoIdCounter : Nat := 1

/-- `ANONYMOUS` (mod.rs:68). -/
def anonymous : String := "anonymous"

/-- `SYS_PREFIX` (mod.rs:72). -/
def sysPrefix : String := "$SYS/"

/-- Client ids no network client may use (connect.rs:85, mod.rs:160). -/
def reservedClientId (cid : String) : Bool := startsWith cid "$bridge/" || startsWith cid sysPrefix

/-- `identity.as_deref().unwrap_or(ANONYMOUS)`. -/
def who (identity : Option String) : String := identity.getD anonymous

/-- What the connection task is told to do. -/
inductive Action where
  | continue
  | serverDisconnect (rc : ReasonCode)
  | clientDisconnect (publishWill : Bool)
deriving DecidableEq, Repr

/-- Who caused a message to be published. -/
inductive Origin where
  | publish (cid : String) (epoch : Nat)
  | will (cid : String) (epoch : Nat)
  | sys
  | bridge (cid : String)
deriving DecidableEq, Repr

/-- Details of an accepted CONNECT (mod.rs:85). -/
structure Accepted where
  clientId : String
  epoch : Nat
  keepAlive : Nat
  identity : Option String
  connack : Connack
deriving DecidableEq, Repr

/-- What a critical section lets the outside see. -/
inductive Effect where
  /-- A command sent to the storage thread. -/
  | store (cmd : Command)
  /-- `retained.insert`. -/
  | retain (origin : Origin) (message : Message)
  /-- A message handed to `route`. -/
  | routed (origin : Origin) (message : Message)
  /-- The sender of a connection's channel was dropped, the channel as it was then. -/
  | detached (cid : String) (epoch : Nat) (tx : OutTx)
  /-- The result returned to a connection task. -/
  | result (cid : String) (epoch : Nat) (action : Action)
  | accepted (a : Accepted)
  | refused (c : Connack)
deriving DecidableEq

/-- A CONNECT that passed authentication, Will authorization and the client-id checks
(connect.rs:24-112), waiting for the lock. -/
structure ConnectRequest where
  connect : Connect
  version : ProtocolVersion
  identity : Option String
  clientId : String
  assigned : Bool
  out : OutTx
deriving DecidableEq

/-- What is still to run: the rest of a handler that released the lock, or a spawned task. -/
inductive Task where
  /-- `handle_packet` after its epoch fence (mod.rs:292). -/
  | dispatch (cid : String) (epoch : Nat) (packet : Packet)
  /-- `handle_client_disconnect` after its epoch check: the new Session Expiry Interval (lifecycle.rs:42). -/
  | disconnectExpiry (cid : String) (epoch : Nat) (newExpiry : Nat) (publishWill : Bool)
  /-- `handle_connect` from its main critical section on (connect.rs:113). -/
  | connect (req : ConnectRequest)
  /-- `handle_connection_closed`, the `expiry == 0` branch (lifecycle.rs:102). -/
  | closeRemove (cid : String) (epoch : Nat)
  /-- `schedule_will` asleep until `due` (lifecycle.rs:131). -/
  | willSleep (cid : String) (epoch : Nat) (message : Message) (owner : String) (due : Nat)
  /-- `schedule_will` before its authorization check (lifecycle.rs:149). -/
  | willAuthorize (cid : String) (epoch : Nat) (message : Message) (owner : String)
  /-- `schedule_will` before it publishes (lifecycle.rs:158). -/
  | willPublish (cid : String) (epoch : Nat) (message : Message)
  /-- `schedule_expiry` asleep until `due` (lifecycle.rs:176). -/
  | expiry (cid : String) (epoch : Nat) (due : Nat)
  /-- `reload_acl` after the swap (authz.rs:31). -/
  | revoke (acl : Acl)
deriving DecidableEq

/-- What a critical section leaves behind. -/
structure Outcome where
  broker : Broker
  effects : List Effect := []
  tasks : List Task := []

namespace Broker

/-! ## Construction -/

/-- A loaded subscription (mod.rs:173-186); a filter that does not parse is kept as it is. -/
def restoreSub (P : Protocol) (sub : SubRecord) : Subscription :=
  let (shareName, filter) := match P.parseFilter sub.filter with
    | some p => (p.shareName, p.filter)
    | none => (none, sub.filter)
  { filter, shareName, qos := sub.qos, noLocal := sub.noLocal
    retainAsPublished := sub.retainAsPublished, subscriptionIdentifier := sub.subscriptionIdentifier }

def restoreSession (P : Protocol) (rec : SessionRecord) : Session :=
  { Session.new rec.clientId rec.sessionExpiryInterval with
    persistent := true
    identity := rec.ownerIdentity
    subscriptions := rec.subscriptions.map (restoreSub P) }

def new (P : Protocol) (config : Config) (loaded : LoadedState) (acl : Acl) (auth : Option Credentials) :
    Broker where
  config := config
  auth := auth
  acl := acl
  sessions := loaded.sessions.foldl (fun m rec =>
    if reservedClientId rec.clientId then m else m.insert rec.clientId (restoreSession P rec)) ∅
  retained := loaded.retained.foldl (fun m e => m.insert e.1 e.2) ∅

/-! ## Small steps the handlers share -/

/-- Write a session back under its key. -/
def setSession (b : Broker) (cid : String) (s : Session) : Broker :=
  { b with sessions := b.sessions.insert cid s }

def removeSession (b : Broker) (cid : String) : Broker := { b with sessions := b.sessions.erase cid }

/-- `if let Some(s) = st.sessions.get_mut(cid) { … }`. -/
def modifySession (b : Broker) (cid : String) (f : Session → Session) : Broker :=
  match b.sessions.lookup cid with
  | some s => b.setSession cid (f s)
  | none => b

/-- Push an outgoing item to a client if it is online. -/
def sendTo (b : Broker) (cid : String) (item : Outgoing) : Broker := b.modifySession cid (·.push item)

/-- `Metrics::add(&publish_dropped, n)`. -/
def addDropped (b : Broker) (n : Nat) : Broker :=
  { b with metrics.publishDropped := b.metrics.publishDropped + n }

def storeRetained (b : Broker) (origin : Origin) (m : Message) : Broker × List Effect :=
  if m.retain then
    if m.payload.isEmpty then
      ({ b with retained := b.retained.erase m.topic }, [.store (.deleteRetained m.topic)])
    else
      ({ b with retained := b.retained.insert m.topic m },
        [.retain origin m, .store (.upsertRetained m.topic m)])
  else (b, [])

end Broker

/-! ## Routing -/

/-- A member of a shared group, held until the whole group is known. -/
structure Candidate where
  clientId : String
  qos : QoS
  retain : Bool
  subIds : List Nat
deriving DecidableEq

abbrev SharedGroups := KeyMap (String × String) (List Candidate)

/-- `shared.entry(key).or_default().push(c)`. -/
def SharedGroups.push (groups : SharedGroups) (key : String × String) (c : Candidate) : SharedGroups :=
  groups.insert key ((groups.lookup key).getD [] ++ [c])

/-- The local variables of the loop over one session's subscriptions (routing.rs:41-43). -/
structure Scan where
  best : Option QoS := none
  subIds : List Nat := []
  retainFlag : Bool := false
  shared : SharedGroups

/-- The subscription takes part in routing `m`: it matches, and No Local does not exclude it. -/
def eligible (P : Protocol) (publisher : Option String) (m : Message) (cid : String) (sub : Subscription) :
    Bool :=
  P.topicMatches sub.filter m.topic && !(sub.noLocal && publisher = some cid)

/-- One iteration of `for sub in &session.subscriptions` (routing.rs:45-83). -/
def scanSub (P : Protocol) (publisher : Option String) (m : Message) (cid : String) (acc : Scan)
    (sub : Subscription) : Scan :=
  if !eligible P publisher m cid sub then acc
  else
    let eff := m.qos.min sub.qos
    match sub.shareName with
    | some share =>
      let c : Candidate :=
        ⟨cid, eff, if sub.retainAsPublished then m.retain else false, sub.subscriptionIdentifier.toList⟩
      { acc with shared := acc.shared.push (share, sub.filter) c }
    | none =>
      { acc with
        best := some (match acc.best with
          | some b => if b.asU8 ≥ eff.asU8 then b else eff
          | none => eff)
        subIds := acc.subIds ++ sub.subscriptionIdentifier.toList
        retainFlag := acc.retainFlag || sub.retainAsPublished }

/-- The accumulators of the pass over all sessions. -/
structure RouteAcc where
  shared : SharedGroups := ∅
  delivered : Nat := 0
  dropped : Nat := 0

/-- One iteration of `for (cid, session) in st.sessions.iter_mut()` (routing.rs:40-94). -/
def routeVisit (P : Protocol) (now maxQueued : Nat) (publisher : Option String) (m : Message)
    (cid : String) (s : Session) (acc : RouteAcc) : Session × RouteAcc :=
  let scan := s.subscriptions.foldl (scanSub P publisher m cid) { shared := acc.shared }
  match scan.best with
  | none => (s, { acc with shared := scan.shared })
  | some qos =>
    let r := deliverToSession P now s m qos (if scan.retainFlag then m.retain else false) scan.subIds maxQueued
    (r.1, { shared := scan.shared, delivered := acc.delivered + 1, dropped := acc.dropped + r.2.toNat })

/-- Choose one member of a group and advance its cursor (routing.rs:99-108). -/
def chooseMember (acc : KeyMap (String × String) Nat × List Candidate)
    (group : Σ _ : String × String, List Candidate) : KeyMap (String × String) Nat × List Candidate :=
  match group.2[(acc.1.lookup group.1).getD 0 % group.2.length]? with
  | none => acc
  | some c => (acc.1.insert group.1 (((acc.1.lookup group.1).getD 0 + 1) % 2 ^ 64), acc.2 ++ [c])

/-- Deliver to a chosen member (routing.rs:110-117). -/
def deliverChosen (P : Protocol) (now maxQueued : Nat) (m : Message) (acc : KeyMap String Session × Nat)
    (c : Candidate) : KeyMap String Session × Nat :=
  match acc.1.lookup c.clientId with
  | none => acc
  | some s =>
    let r := deliverToSession P now s m c.qos c.retain c.subIds maxQueued
    (acc.1.insert c.clientId r.1, acc.2 + r.2.toNat)

/-- `Broker::route`: the new state and whether anyone matched. -/
def route (P : Protocol) (now : Nat) (ord : Orders) (b : Broker) (publisher : Option String) (m : Message) :
    Broker × Bool :=
  if m.isExpired now then (b, false)
  else
    let maxQueued := b.config.maxQueuedMessages
    let pass := iterMut (routeVisit P now maxQueued publisher m) ord.sessions b.sessions {}
    let chosen := (reorder ord.shared pass.2.shared.entries).foldl chooseMember (b.sharedRr, [])
    let fin := chosen.2.foldl (deliverChosen P now maxQueued m) (pass.1, pass.2.dropped)
    let delivered := pass.2.delivered + chosen.2.length
    ({ b with
        sessions := fin.1
        sharedRr := chosen.1
        metrics := { b.metrics with
          publishDelivered := b.metrics.publishDelivered + delivered
          publishDropped := b.metrics.publishDropped + fin.2 } },
      delivered > 0)

/-- Retain if flagged, then route: the tail of a Will and of an injected message. -/
def publishMessage (P : Protocol) (now : Nat) (ord : Orders) (b : Broker) (origin : Origin)
    (publisher : Option String) (m : Message) : Outcome :=
  let r := b.storeRetained origin m
  { broker := (route P now ord r.1 publisher m).1, effects := r.2 ++ [.routed origin m] }

end WispMQ
