import WispMQ.Broker
/-!
# CONNECT: `broker/connect.rs`

`handle_connect` works in two stages. `startConnect` authenticates, authorizes the Will and settles the
client id; the only shared state it touches is the auto-id counter. `finishConnect` is the main critical
section: epoch, takeover, session binding, re-authorization, persistence and the CONNACK.
-/

namespace WispMQ
open KeyMap

namespace Broker
variable (P : Protocol)

def refuse (b : Broker) (rc : ReasonCode) : Outcome :=
  { broker := b, effects := [.refused { sessionPresent := false, reasonCode := rc }] }

/-- Authentication (connect.rs:30-53): the identity the connection goes on with. -/
def authenticate (b : Broker) (connect : Connect) (identity : Option String) :
    Except ReasonCode (Option String) :=
  match b.auth with
  | none => .ok identity
  | some creds =>
    match connect.username, connect.password with
    | some user, some pass =>
      if creds.verify user pass then .ok (some user) else .error .badUserNameOrPassword
    | some _, none => .error .badUserNameOrPassword
    | none, _ => if b.config.allowAnonymous then .ok identity else .error .notAuthorized

/-- The identity may publish to the Will topic, if there is a Will (connect.rs:58-67). -/
def willAuthorized (b : Broker) (connect : Connect) (identity : Option String) : Bool :=
  connect.will.all fun w => b.acl.canPublish P (who identity) w.topic

/-- connect.rs:24-88. -/
def startConnect (now : Nat) (b : Broker) (connect : Connect) (out : OutTx) (identity : Option String) :
    Outcome :=
  match P.validateProtocol connect with
  | .error rc => b.refuse rc
  | .ok version =>
    match b.authenticate connect identity with
    | .error rc => b.refuse rc
    | .ok identity =>
      if !b.willAuthorized P connect identity then b.refuse .notAuthorized
      else if connect.clientId = "" then
        let cid := "auto-" ++ toString b.autoIdCounter ++ "-" ++ toString now
        { broker := { b with autoIdCounter := b.autoIdCounter + 1 }
          tasks := [.connect ⟨connect, version, identity, cid, true, out⟩] }
      else if reservedClientId connect.clientId then b.refuse .clientIdentifierNotValid
      else { broker := b, tasks := [.connect ⟨connect, version, identity, connect.clientId, false, out⟩] }

variable {P} in
/-- The first stage refuses the CONNECT and does nothing else, or it passes on a request that has met every check. -/
theorem startConnect_cases (now : Nat) (b : Broker) (connect : Connect) (out : OutTx) (identity : Option String) :
    (∃ rc, startConnect P now b connect out identity = b.refuse rc) ∨
    ∃ version identity', P.validateProtocol connect = .ok version ∧ b.authenticate connect identity = .ok identity' ∧
      b.willAuthorized P connect identity' = true ∧
      (connect.clientId = "" ∧ startConnect P now b connect out identity =
          { broker := { b with autoIdCounter := b.autoIdCounter + 1 }
            tasks := [.connect ⟨connect, version, identity',
              "auto-" ++ toString b.autoIdCounter ++ "-" ++ toString now, true, out⟩] } ∨
        connect.clientId ≠ "" ∧ reservedClientId connect.clientId = false ∧ startConnect P now b connect out identity =
          { broker := b, tasks := [.connect ⟨connect, version, identity', connect.clientId, false, out⟩] }) := by
  unfold startConnect
  cases hversion : P.validateProtocol connect with
  | error rc => exact .inl ⟨rc, rfl⟩
  | ok version =>
    cases hauth : b.authenticate connect identity with
    | error rc => exact .inl ⟨rc, rfl⟩
    | ok identity' =>
      cases hwill : b.willAuthorized P connect identity' with
      | false => exact .inl ⟨.notAuthorized, by simp [hwill]⟩
      | true =>
        by_cases hid : connect.clientId = ""
        · exact .inr ⟨version, identity', rfl, rfl, hwill, .inl ⟨hid, by simp [hwill, hid]⟩⟩
        · cases hres : reservedClientId connect.clientId with
          | true => exact .inl ⟨.clientIdentifierNotValid, by simp [hwill, hid]⟩
          | false => exact .inr ⟨version, identity', rfl, rfl, hwill, .inr ⟨hid, rfl, by simp [hwill, hid]⟩⟩

/-! ## The main critical section -/

/-- Session Expiry Interval, clamped (connect.rs:93-103). -/
def requestedExpiry (cfg : Config) (req : ConnectRequest) : Nat :=
  if req.version.isV5 then min (req.connect.sessionExpiryInterval.getD 0) cfg.maxSessionExpiry
  else if req.connect.cleanStart then 0
  else cfg.maxSessionExpiry

def effectiveKeepAlive (cfg : Config) (req : ConnectRequest) : Nat :=
  if req.version.isV5 then cfg.serverKeepAlive.getD req.connect.keepAlive else req.connect.keepAlive

/-- `requested_expiry > 0 && !assigned`. -/
def durable (cfg : Config) (req : ConnectRequest) : Bool := requestedExpiry cfg req > 0 && !req.assigned

/-- The channel of a superseded connection: Shutdown is tried, then the sender is dropped. -/
def shutdownTx (tx : OutTx) : OutTx := (tx.trySend (.shutdown .sessionTakenOver)).getD tx

/-- `old.out.take()` and what becomes of the channel (connect.rs:124-129, :133-137). -/
def takeover (cid : String) (s : Session) : List Effect :=
  match s.out with
  | some tx => [.detached cid s.epoch (shutdownTx tx)]
  | none => []

/-- connect.rs:145-150. -/
def identityChanged : Option String → Option String → Bool
  | some old, some new => old != new
  | some _, none => true
  | none, _ => false

end Broker

namespace Session

/-- What a takeover by another identity clears (connect.rs:163-178). -/
def clearOwned (s : Session) : Session :=
  { s with
    subscriptions := []
    queue := []
    awaitingPuback := ∅
    awaitingPubrec := ∅
    awaitingPubcomp := ∅ }

/-- The resumed session: the old channel is gone, and the previous owner's state with it if the identity
changed. -/
def takenOver (s : Session) (identity : Option String) : Session :=
  let s := { s with out := none }
  if Broker.identityChanged s.identity identity then s.clearOwned else s

/-- Bind the connection to the session (connect.rs:185-191). -/
def bind (cfg : Config) (req : ConnectRequest) (epoch : Nat) (s : Session) : Session :=
  { s with
    epoch := epoch
    identity := req.identity
    sessionExpiryInterval := Broker.requestedExpiry cfg req
    persistent := Broker.durable cfg req
    out := some req.out
    clientReceiveMaximum := req.connect.receiveMaximum.getD 65535
    clientMaxPacketSize := req.connect.maximumPacketSize }

/-- Keep the subscriptions the policy grants (connect.rs:198-211, authz.rs:56-63). -/
def retainAuthorized (P : Protocol) (acl : Acl) (s : Session) : Session :=
  { s with subscriptions := s.subscriptions.filter fun sub => acl.canSubscribe P (who s.identity) sub.filter }

/-- The subscriptions the policy does not grant. -/
def unauthorized (P : Protocol) (acl : Acl) (s : Session) : List Subscription :=
  s.subscriptions.filter fun sub => !acl.canSubscribe P (who s.identity) sub.filter

/-- Store the Will of the CONNECT (connect.rs:237-240). -/
def setWill (now : Nat) (connect : Connect) (s : Session) : Session :=
  { s with will := connect.will.map fun w => (Message.fromWill now w, w.willDelayInterval.getD 0) }

end Session

namespace Broker
variable (P : Protocol)

/-- The session a CONNECT goes on with, and whether it was present (connect.rs:121-184). -/
def claimed (b : Broker) (req : ConnectRequest) : Session × Bool :=
  match if req.connect.cleanStart then none else b.sessions.lookup req.clientId with
  | some old => (old.takenOver req.identity, true)
  | none => (Session.new req.clientId (requestedExpiry b.config req), false)

/-- The storage commands of the takeover (connect.rs:130-131, :165-167). -/
def claimCommands (b : Broker) (req : ConnectRequest) : List Command :=
  if req.connect.cleanStart then [.deleteSession req.clientId]
  else match b.sessions.lookup req.clientId with
    | some old =>
      if identityChanged old.identity req.identity && old.persistent then [.clearSubscriptions req.clientId]
      else []
    | none => []

/-- Re-authorization of a resumed session's subscriptions (connect.rs:198-234). -/
def reauthorize (acl : Acl) (present : Bool) (s : Session) : Session :=
  if present && acl.isEnforced then s.retainAuthorized P acl else s

def reauthorizeCommands (acl : Acl) (present : Bool) (cid : String) (s : Session) : List Command :=
  if present && acl.isEnforced && s.persistent then
    (s.unauthorized P acl).map fun sub => .deleteSubscription cid sub.key
  else []

/-- Persist the session if it is meant to outlive the connection (connect.rs:243-249). -/
def persistCommands (cfg : Config) (req : ConnectRequest) : List Command :=
  if durable cfg req then [.upsertSession req.clientId (requestedExpiry cfg req) req.identity] else []

/-- The CONNACK advertising server capabilities (connect.rs:252-271). -/
def connack (cfg : Config) (req : ConnectRequest) (present : Bool) : Connack where
  sessionPresent := present
  reasonCode := .success
  receiveMaximum := some cfg.receiveMaximum
  maximumQos := if cfg.maximumQos = .exactlyOnce then none else some cfg.maximumQos.asU8
  retainAvailable := some (if cfg.retainAvailable then 1 else 0)
  maximumPacketSize := some cfg.maxPacketSize
  topicAliasMaximum := some cfg.topicAliasMaximum
  wildcardSubscriptionAvailable := some 1
  subscriptionIdentifierAvailable := some 1
  sharedSubscriptionAvailable := some 1
  assignedClientIdentifier := if req.assigned then some req.clientId else none
  serverKeepAlive := cfg.serverKeepAlive
  sessionExpiryInterval :=
    if requestedExpiry cfg req ≠ req.connect.sessionExpiryInterval.getD 0 then some (requestedExpiry cfg req)
    else none

/-- Number of online sessions. -/
def onlineCount (b : Broker) : Nat := (values b.sessions).countP (·.isOnline)

/-- The session as `finishConnect` binds it, before anything is sent on the new channel. -/
def boundSession (now : Nat) (b : Broker) (req : ConnectRequest) : Session :=
  let c := b.claimed req
  ((reauthorize P b.acl c.2 (c.1.bind b.config req b.nextEpoch)).setWill now req.connect)

/-- Resume delivery for a resumed session (connect.rs:276-281). -/
def resumed (now : Nat) (ord : Orders) (present : Bool) (s : Session) : Session × Nat :=
  if present then resumeDelivery P now ord s else (s, 0)

/-- connect.rs:113-294. -/
def finishConnect (now : Nat) (ord : Orders) (b : Broker) (req : ConnectRequest) : Outcome :=
  let present := (b.claimed req).2
  let r := resumed P now ord present (boundSession P now b req)
  let b' := { b with
    nextEpoch := b.nextEpoch + 1
    sessions := b.sessions.insert req.clientId r.1
    metrics := { b.metrics with
      publishDropped := b.metrics.publishDropped + r.2
      connectionsTotal := b.metrics.connectionsTotal + 1 } }
  { broker := { b' with metrics.clientsMaximum := max b'.metrics.clientsMaximum b'.onlineCount }
    effects :=
      (match b.sessions.lookup req.clientId with
        | some old => takeover req.clientId old
        | none => []) ++
      (b.claimCommands req ++
        reauthorizeCommands P b.acl present req.clientId ((b.claimed req).1.bind b.config req b.nextEpoch) ++
        persistCommands b.config req).map .store ++
      [.accepted ⟨req.clientId, b.nextEpoch, effectiveKeepAlive b.config req, req.identity,
        connack b.config req present⟩] }

end Broker

end WispMQ
