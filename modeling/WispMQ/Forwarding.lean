import WispMQ.World
/-!
# Broker-to-broker forwarding: `bridge.rs`

| here | there |
| --- | --- |
| `Direction`, `BridgeTopic`, `BridgeConfig` | bridge.rs:41-90, without the address and the TLS files |
| `BridgeConfig.buildConnect`, `BridgeConfig.outQos` | `build_connect` (bridge.rs:653), `out_qos` (bridge.rs:677) |
| `BridgeConfig.subscribe`    | the SUBSCRIBE of `serve` (bridge.rs:446-466) |
| `BridgeLoop`                      | the local variables of `run_loop` (bridge.rs:499-500) |
| `BridgeLoop.forward`, `BridgeLoop.receive` | the `out_rx.recv()` and the `read_packet` arm of its `select!` |
| `BridgeLoop.handleInbound`        | `handle_inbound` (bridge.rs:607) |
-/

namespace WispMQ

/-- `ProtocolVersion::level` (types.rs). -/
def ProtocolVersion.level : ProtocolVersion → Nat
  | .v5 => 5
  | .v3_1_1 => 4
  | .v3_1 => 3

/-- Which way a topic mapping forwards. -/
inductive Direction where
  | out
  | in_
  | both
deriving DecidableEq, Repr

namespace Direction

def forwardsOut : Direction → Bool
  | out | both => true
  | in_ => false

def forwardsIn : Direction → Bool
  | in_ | both => true
  | out => false

end Direction

/-- One topic mapping in a bridge. -/
structure BridgeTopic where
  pattern : String
  direction : Direction
  qos : QoS
deriving DecidableEq, Repr

structure BridgeConfig where
  name : String
  clientId : String
  username : Option String := none
  password : Option Bytes := none
  keepalive : Nat := 60
  protocolVersion : ProtocolVersion := .v5
  topics : List BridgeTopic
deriving DecidableEq

namespace BridgeConfig

/-- The patterns the local session subscribes (bridge.rs:224-228). -/
def outPatterns (cfg : BridgeConfig) : List String :=
  (cfg.topics.filter (·.direction.forwardsOut)).map (·.pattern)

def buildConnect (cfg : BridgeConfig) : Connect where
  protocolName := if cfg.protocolVersion = .v3_1 then "MQIsdp" else "MQTT"
  protocolVersion := cfg.protocolVersion.level
  cleanStart := true
  keepAlive := cfg.keepalive
  clientId := cfg.clientId
  will := none
  username := cfg.username
  password := cfg.password

/-- The filters of the remote SUBSCRIBE: No Local is not set. -/
def inFilters (cfg : BridgeConfig) : List TopicFilter :=
  (cfg.topics.filter (·.direction.forwardsIn)).map fun t =>
    { filter := t.pattern, qos := t.qos, noLocal := false, retainAsPublished := false
      retainHandling := .sendAtSubscribe }

def subscribe (cfg : BridgeConfig) : Option Packet :=
  if cfg.inFilters = [] then none else some (.subscribe { packetId := 1, filters := cfg.inFilters })

/-- The QoS to forward a local message out at: the first matching out-mapping. -/
def outQos (P : Protocol) (cfg : BridgeConfig) (topic : String) : QoS :=
  ((cfg.topics.find? fun t => t.direction.forwardsOut && P.topicMatches t.pattern topic).map (·.qos)).getD .atMostOnce

end BridgeConfig

structure BridgeLoop where
  inboundQos2 : Finset Nat := ∅
  /-- 1 was used by SUBSCRIBE. -/
  nextId : Nat := 2
deriving DecidableEq

namespace BridgeLoop

/-- The PUBLISH that goes to the remote for a local one. -/
def forward (P : Protocol) (cfg : BridgeConfig) (loop : BridgeLoop) (publish : Publish) : Publish × BridgeLoop :=
  let qos := cfg.outQos P publish.topic
  ({  dup := false
      qos := qos
      retain := publish.retain
      topic := publish.topic
      packetId := if qos = .atMostOnce then none else some loop.nextId
      properties := publish.properties
      payload := publish.payload },
    if qos = .atMostOnce then loop
    else { loop with nextId := if loop.nextId = 65535 then 1 else loop.nextId + 1 })

/-- The acknowledgement of an inbound PUBLISH. -/
def reply (p : Publish) : Option Packet :=
  match p.qos with
  | .atMostOnce => none
  | .atLeastOnce => some (.puback ⟨p.packetId.getD 0, .success⟩)
  | .exactlyOnce => some (.pubrec ⟨p.packetId.getD 0, .success⟩)

/-- Inject once into local routing: the message to inject, if it is no duplicate. -/
def handleInbound (now : Nat) (loop : BridgeLoop) (p : Publish) : BridgeLoop × Option Message :=
  let id := p.packetId.getD 0
  if p.qos = .exactlyOnce && id ∈ loop.inboundQos2 then (loop, none)
  else
    (if p.qos = .exactlyOnce then { loop with inboundQos2 := insert id loop.inboundQos2 } else loop,
      some (Message.fromPublish now p))

/-- What the loop does with a packet from the remote. -/
structure Reaction where
  /-- `none` once the loop has returned. -/
  loop : Option BridgeLoop
  inject : Option Message := none
  replies : List Packet := []

def receive (now : Nat) (loop : BridgeLoop) : Packet → Reaction
  | .publish p =>
    let r := loop.handleInbound now p
    { loop := some r.1, inject := r.2, replies := (reply p).toList }
  | .pubrec a => { loop := some loop, replies := [.pubrel ⟨a.packetId, .success⟩] }
  | .pubrel a =>
    { loop := some { loop with inboundQos2 := loop.inboundQos2.erase a.packetId }
      replies := [.pubcomp ⟨a.packetId, .success⟩] }
  | .disconnect _ => { loop := none }
  | _ => { loop := some loop }

/-! ## What goes through unchanged -/

variable {P : Protocol}

@[simp] theorem forward_payload (cfg : BridgeConfig) (loop : BridgeLoop) (p : Publish) :
    (loop.forward P cfg p).1.payload = p.payload := rfl

/-- Only a PUBLISH is injected, with the payload it has. -/
theorem receive_inject {now : Nat} {loop : BridgeLoop} {packet : Packet} {m : Message} (h : (loop.receive now packet).inject = some m) :
    ∃ p, packet = .publish p ∧ m.payload = p.payload := by
  cases packet with
  | publish p =>
    refine ⟨p, rfl, ?_⟩
    simp only [receive, handleInbound] at h
    split at h
    · cases h
    · cases h
      rfl
  | _ => cases h

/-- The bridge answers a packet with acknowledgements. -/
theorem receive_replies {now : Nat} {loop : BridgeLoop} {packet p : Packet} (h : p ∈ (loop.receive now packet).replies) :
    ∀ publish, p ≠ .publish publish := by
  rintro publish rfl
  cases packet with
  | publish p₀ =>
    simp only [receive, reply, Option.mem_toList] at h
    cases hq : p₀.qos <;> simp [hq] at h
  | pubrec a => simp [receive] at h
  | pubrel a => simp [receive] at h
  | _ => cases h

end BridgeLoop

end WispMQ
