import WispMQ.Broker
/-!
# Inbound PUBLISH and the acknowledgement handlers: `broker/publish.rs`

Each handler is one critical section and re-validates the epoch in it (publish.rs:32-49 and the
acknowledgement handlers); `fenced` is that check for PUBLISH, SUBSCRIBE, UNSUBSCRIBE and DISCONNECT,
`acked` the one of the four acknowledgements, which accept a missing session.
-/

namespace WispMQ
open KeyMap

namespace Broker
variable (P : Protocol)

/-- A handler's result without any other effect. -/
def answer (b : Broker) (cid : String) (epoch : Nat) (action : Action) : Outcome :=
  { broker := b, effects := [.result cid epoch action] }

/-- The epoch check at the start of a handler: a missing or superseded session ends it. -/
def fenced (b : Broker) (cid : String) (epoch : Nat) (body : Session → Outcome) : Outcome :=
  match b.sessions.lookup cid with
  | some s => if s.epoch = epoch then body s else b.answer cid epoch (.serverDisconnect .unspecifiedError)
  | none => b.answer cid epoch (.serverDisconnect .unspecifiedError)

/-- Topic Alias resolution (publish.rs:52-67). -/
def resolveAlias (cfg : Config) (s : Session) (publish : Publish) : Except ReasonCode (Session × Publish) :=
  match publish.properties.topicAlias with
  | none => .ok (s, publish)
  | some a =>
    if a > cfg.topicAliasMaximum then .error .topicAliasInvalid
    else if publish.topic = "" then
      match s.inboundAliases.lookup a with
      | some t => .ok (s, { publish with topic := t })
      | none => .error .topicAliasInvalid
    else .ok ({ s with inboundAliases := s.inboundAliases.insert a publish.topic }, publish)

/-- The acknowledgement a PUBLISH of this QoS gets. -/
def publishAck (qos : QoS) (ack : PubAck) : Option Packet :=
  match qos with
  | .atMostOnce => none
  | .atLeastOnce => some (.puback ack)
  | .exactlyOnce => some (.pubrec ack)

def acknowledge (b : Broker) (cid : String) (qos : QoS) (ack : PubAck) : Broker :=
  match publishAck qos ack with
  | some p => b.sendTo cid (.control p)
  | none => b

def matchedCode (matched : Bool) : ReasonCode := if matched then .success else .noMatchingSubscribers

/-- Routing and acknowledging an accepted PUBLISH of session `s` (publish.rs:138-185). -/
def routePublish (now : Nat) (ord : Orders) (b : Broker) (cid : String) (epoch : Nat) (s : Session)
    (publish : Publish) (message : Message) : Broker × List Effect :=
  let id := publish.packetId.getD 0
  match publish.qos with
  | .atMostOnce =>
    ((route P now ord b (some cid) message).1, [.routed (.publish cid epoch) message])
  | .atLeastOnce =>
    let r := route P now ord b (some cid) message
    (r.1.acknowledge cid .atLeastOnce ⟨id, matchedCode r.2⟩, [.routed (.publish cid epoch) message])
  | .exactlyOnce =>
    if id ∈ s.inboundQos2 then (b.acknowledge cid .exactlyOnce ⟨id, .success⟩, [])
    else
      let b := b.setSession cid { s with inboundQos2 := insert id s.inboundQos2 }
      let r := route P now ord b (some cid) message
      (r.1.acknowledge cid .exactlyOnce ⟨id, matchedCode r.2⟩, [.routed (.publish cid epoch) message])

/-- The part of `handle_publish` after alias resolution (publish.rs:69-185). -/
def acceptPublish (now : Nat) (ord : Orders) (b : Broker) (cid : String) (epoch : Nat) (s : Session)
    (publish : Publish) : Outcome :=
  if !P.validTopicName publish.topic then b.answer cid epoch (.serverDisconnect .topicNameInvalid)
  else if startsWith publish.topic sysPrefix then b.answer cid epoch (.serverDisconnect .topicNameInvalid)
  else if b.acl.isEnforced && !b.acl.canPublish P (who s.identity) publish.topic then
    (b.acknowledge cid publish.qos ⟨publish.packetId.getD 0, .notAuthorized⟩).answer cid epoch .continue
  else
    let message := Message.fromPublish now publish
    let r := b.storeRetained (.publish cid epoch) message
    let r' := routePublish P now ord r.1 cid epoch s publish message
    { broker := r'.1, effects := r.2 ++ r'.2 ++ [.result cid epoch .continue] }

/-- `handle_publish` (publish.rs:14). -/
def handlePublish (now : Nat) (ord : Orders) (b : Broker) (cid : String) (epoch : Nat) (publish : Publish) :
    Outcome :=
  let b := { b with metrics.publishReceived := b.metrics.publishReceived + 1 }
  if publish.qos.asU8 > b.config.maximumQos.asU8 then b.answer cid epoch (.serverDisconnect .qosNotSupported)
  else if publish.retain && !b.config.retainAvailable then
    b.answer cid epoch (.serverDisconnect .retainNotSupported)
  else b.fenced cid epoch fun s =>
    match resolveAlias b.config s publish with
    | .error rc => b.answer cid epoch (.serverDisconnect rc)
    | .ok (s, publish) => acceptPublish P now ord (b.setSession cid s) cid epoch s publish

/-! ## Acknowledgements for our own messages -/

/-- The shape of the acknowledgement handlers: nothing for a missing session, an error for a superseded
connection, else `f` on the session and the number of messages it dropped. -/
def acked (b : Broker) (cid : String) (epoch : Nat) (f : Session → Session × Nat) : Outcome :=
  match b.sessions.lookup cid with
  | none => b.answer cid epoch .continue
  | some s =>
    if s.epoch = epoch then
      let r := f s
      ((b.setSession cid r.1).addDropped r.2).answer cid epoch .continue
    else b.answer cid epoch (.serverDisconnect .unspecifiedError)

def handlePuback (now : Nat) (b : Broker) (cid : String) (epoch : Nat) (ack : PubAck) : Outcome :=
  b.acked cid epoch fun s => s.puback P now ack.packetId

def handlePubrec (b : Broker) (cid : String) (epoch : Nat) (ack : PubAck) : Outcome :=
  b.acked cid epoch fun s => (s.pubrec ack, 0)

def handlePubrel (b : Broker) (cid : String) (epoch : Nat) (ack : PubAck) : Outcome :=
  b.acked cid epoch fun s => (s.pubrel ack.packetId, 0)

def handlePubcomp (now : Nat) (b : Broker) (cid : String) (epoch : Nat) (ack : PubAck) : Outcome :=
  b.acked cid epoch fun s => s.pubcomp P now ack.packetId

end Broker

end WispMQ
