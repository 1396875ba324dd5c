import WispMQ.Packet
/-!
# The routable message: `message.rs`

`now_unix()` is an argument: every function that reads the clock takes the reading `now` of its caller.
-/

namespace WispMQ

/-- An application message ready to be routed (message.rs:13). -/
structure Message where
  topic : String
  payload : Bytes
  qos : QoS
  retain : Bool
  payloadFormatIndicator : Option Nat := none
  contentType : Option String := none
  responseTopic : Option String := none
  correlationData : Option Bytes := none
  userProperties : List (String × String) := []
  /-- Absolute Unix time at which the message expires. -/
  expiresAt : Option Nat := none
deriving DecidableEq, Repr

/-- `u64::saturating_add`. -/
def saturatingAdd64 (a b : Nat) : Nat := min (a + b) (2 ^ 64 - 1)

namespace Message

/-- `Message::from_publish` (message.rs:35). -/
def fromPublish (now : Nat) (p : Publish) : Message where
  topic := p.topic
  payload := p.payload
  qos := p.qos
  retain := p.retain
  payloadFormatIndicator := p.properties.payloadFormatIndicator
  contentType := p.properties.contentType
  responseTopic := p.properties.responseTopic
  correlationData := p.properties.correlationData
  userProperties := p.properties.userProperties
  expiresAt := p.properties.messageExpiryInterval.map (saturatingAdd64 now)

/-- `message_from_will` (lifecycle.rs:196). -/
def fromWill (now : Nat) (w : Will) : Message where
  topic := w.topic
  payload := w.payload
  qos := w.qos
  retain := w.retain
  payloadFormatIndicator := w.payloadFormatIndicator
  contentType := w.contentType
  responseTopic := w.responseTopic
  correlationData := w.correlationData
  userProperties := w.userProperties
  expiresAt := w.messageExpiryInterval.map (saturatingAdd64 now)

/-- `Message::remaining_expiry` (message.rs:56). -/
def remainingExpiry (now : Nat) (m : Message) : Option Nat :=
  m.expiresAt.map fun deadline => if deadline ≤ now then 0 else min (deadline - now) (2 ^ 32 - 1)

/-- `Message::is_expired` (message.rs:67). -/
def isExpired (now : Nat) (m : Message) : Bool := m.remainingExpiry now == some 0

theorem isExpired_mono {m : Message} {now later : Nat} (hle : now ≤ later) (h : m.isExpired now = true) :
    m.isExpired later = true := by
  simp only [isExpired, remainingExpiry, beq_iff_eq, Option.map_eq_some_iff] at h ⊢
  obtain ⟨deadline, hd, hzero⟩ := h
  refine ⟨deadline, hd, if_pos ?_⟩
  split at hzero
  · omega
  · omega

/-- `Message::to_publish` (message.rs:77). -/
def toPublish (now : Nat) (m : Message) (qos : QoS) (packetId : Option Nat) (retain : Bool)
    (subscriptionIds : List Nat) : Publish where
  dup := false
  qos := qos
  retain := retain
  topic := m.topic
  packetId := if qos = .atMostOnce then none else packetId
  properties := {
    payloadFormatIndicator := m.payloadFormatIndicator
    contentType := m.contentType
    responseTopic := m.responseTopic
    correlationData := m.correlationData
    userProperties := m.userProperties
    messageExpiryInterval := m.remainingExpiry now
    subscriptionIdentifiers := subscriptionIds }
  payload := m.payload

end Message

end WispMQ
