import Mathlib.Algebra.Order.BigOperators.Group.List
import Mathlib.Algebra.Order.Group.Nat
import Mathlib.Algebra.Ring.Nat
import Mathlib.Data.Finset.Sort
import Mathlib.Order.Interval.Finset.Nat
/-!
# Wire types and the `wispmq-protocol` boundary

Packets, properties and reason codes come from the `wispmq-protocol` crate, which is not part of this
repository. Their fields are modelled here as far as the broker reads or writes them. What the crate
*computes* enters as a parameter, `Protocol`: topic matching and validation, `$share` parsing, the
CONNECT version check and the encoded length of a PUBLISH. No definition of the broker looks inside
it; a theorem that needs to know what such a function does takes that as a hypothesis.
-/

namespace WispMQ

inductive QoS where
  | atMostOnce
  | atLeastOnce
  | exactlyOnce
deriving DecidableEq, Repr

namespace QoS

def asU8 : QoS → Nat
  | atMostOnce => 0
  | atLeastOnce => 1
  | exactlyOnce => 2

/-- `QoS::from_u8`. -/
def fromU8 : Nat → Option QoS
  | 0 => some atMostOnce
  | 1 => some atLeastOnce
  | 2 => some exactlyOnce
  | _ => none

/-- `Ord::min`. -/
def min (a b : QoS) : QoS := if a.asU8 ≤ b.asU8 then a else b

@[simp] theorem fromU8_asU8 (q : QoS) : fromU8 q.asU8 = some q := by cases q <;> rfl

theorem min_atMostOnce (q : QoS) : q.min .atMostOnce = .atMostOnce := by cases q <;> rfl

theorem atMostOnce_min (q : QoS) : QoS.atMostOnce.min q = .atMostOnce := by cases q <;> rfl

end QoS

inductive ProtocolVersion where
  | v5
  | v3_1_1
  | v3_1
deriving DecidableEq, Repr

def ProtocolVersion.isV5 : ProtocolVersion → Bool
  | .v5 => true
  | _ => false

/-- The reason codes the broker names, and those a client may put in a PUBACK or PUBREC. -/
inductive ReasonCode where
  | success
  | grantedQoS1
  | grantedQoS2
  | disconnectWithWillMessage
  | noMatchingSubscribers
  | noSubscriptionExisted
  | unspecifiedError
  | malformedPacket
  | protocolError
  | implementationSpecificError
  | clientIdentifierNotValid
  | badUserNameOrPassword
  | notAuthorized
  | keepAliveTimeout
  | sessionTakenOver
  | topicFilterInvalid
  | topicNameInvalid
  | packetIdentifierInUse
  | packetIdentifierNotFound
  | topicAliasInvalid
  | quotaExceeded
  | payloadFormatInvalid
  | retainNotSupported
  | qosNotSupported
deriving DecidableEq, Repr

namespace ReasonCode

/-- The byte on the wire (MQTT v5 2.4). -/
def asU8 : ReasonCode → Nat
  | success => 0x00
  | grantedQoS1 => 0x01
  | grantedQoS2 => 0x02
  | disconnectWithWillMessage => 0x04
  | noMatchingSubscribers => 0x10
  | noSubscriptionExisted => 0x11
  | unspecifiedError => 0x80
  | malformedPacket => 0x81
  | protocolError => 0x82
  | implementationSpecificError => 0x83
  | clientIdentifierNotValid => 0x85
  | badUserNameOrPassword => 0x86
  | notAuthorized => 0x87
  | keepAliveTimeout => 0x8D
  | sessionTakenOver => 0x8E
  | topicFilterInvalid => 0x8F
  | topicNameInvalid => 0x90
  | packetIdentifierInUse => 0x91
  | packetIdentifierNotFound => 0x92
  | topicAliasInvalid => 0x94
  | quotaExceeded => 0x97
  | payloadFormatInvalid => 0x99
  | retainNotSupported => 0x9A
  | qosNotSupported => 0x9B

/-- `ReasonCode::is_error`: codes from 0x80 on are failures. -/
def isError (rc : ReasonCode) : Bool := 0x80 ≤ rc.asU8

end ReasonCode

/-! ## Packets -/

abbrev Bytes := List UInt8

/-- The PUBLISH properties the broker reads or forwards. -/
structure Properties where
  payloadFormatIndicator : Option Nat := none
  messageExpiryInterval : Option Nat := none
  contentType : Option String := none
  responseTopic : Option String := none
  correlationData : Option Bytes := none
  userProperties : List (String × String) := []
  subscriptionIdentifiers : List Nat := []
  topicAlias : Option Nat := none
deriving DecidableEq, Repr

structure Publish where
  dup : Bool
  qos : QoS
  retain : Bool
  topic : String
  packetId : Option Nat
  properties : Properties
  payload : Bytes
deriving DecidableEq, Repr

/-- The Will of a CONNECT, with the Will properties it uses. -/
structure Will where
  topic : String
  payload : Bytes
  qos : QoS
  retain : Bool
  willDelayInterval : Option Nat := none
  payloadFormatIndicator : Option Nat := none
  messageExpiryInterval : Option Nat := none
  contentType : Option String := none
  responseTopic : Option String := none
  correlationData : Option Bytes := none
  userProperties : List (String × String) := []
deriving DecidableEq, Repr

structure Connect where
  protocolName : String := "MQTT"
  protocolVersion : Nat := 5
  clientId : String
  cleanStart : Bool
  keepAlive : Nat := 0
  username : Option String := none
  password : Option Bytes := none
  will : Option Will := none
  sessionExpiryInterval : Option Nat := none
  receiveMaximum : Option Nat := none
  maximumPacketSize : Option Nat := none
deriving DecidableEq, Repr

/-- CONNACK with the capabilities `handle_connect` advertises. -/
structure Connack where
  sessionPresent : Bool
  reasonCode : ReasonCode
  receiveMaximum : Option Nat := none
  maximumQos : Option Nat := none
  retainAvailable : Option Nat := none
  maximumPacketSize : Option Nat := none
  topicAliasMaximum : Option Nat := none
  wildcardSubscriptionAvailable : Option Nat := none
  subscriptionIdentifierAvailable : Option Nat := none
  sharedSubscriptionAvailable : Option Nat := none
  assignedClientIdentifier : Option String := none
  serverKeepAlive : Option Nat := none
  sessionExpiryInterval : Option Nat := none
deriving DecidableEq, Repr

structure PubAck where
  packetId : Nat
  reasonCode : ReasonCode
deriving DecidableEq, Repr

inductive RetainHandling where
  | sendAtSubscribe
  | sendIfNewSubscription
  | doNotSend
deriving DecidableEq, Repr

def RetainHandling.asU8 : RetainHandling → Nat
  | .sendAtSubscribe => 0
  | .sendIfNewSubscription => 1
  | .doNotSend => 2

structure TopicFilter where
  filter : String
  qos : QoS
  noLocal : Bool := false
  retainAsPublished : Bool := false
  retainHandling : RetainHandling := .sendAtSubscribe
deriving DecidableEq, Repr

structure Subscribe where
  packetId : Nat
  filters : List TopicFilter
  subscriptionIdentifiers : List Nat := []
deriving DecidableEq, Repr

structure Unsubscribe where
  packetId : Nat
  filters : List String
deriving DecidableEq, Repr

/-- SUBACK and UNSUBACK. -/
structure SubAck where
  packetId : Nat
  reasonCodes : List ReasonCode
deriving DecidableEq, Repr

structure Disconnect where
  reasonCode : ReasonCode
  sessionExpiryInterval : Option Nat := none
deriving DecidableEq, Repr

inductive Packet where
  | connect (c : Connect)
  | connack (c : Connack)
  | publish (p : Publish)
  | puback (a : PubAck)
  | pubrec (a : PubAck)
  | pubrel (a : PubAck)
  | pubcomp (a : PubAck)
  | subscribe (s : Subscribe)
  | suback (a : SubAck)
  | unsubscribe (u : Unsubscribe)
  | unsuback (a : SubAck)
  | pingreq
  | pingresp
  | disconnect (d : Disconnect)
  | auth
deriving DecidableEq, Repr

/-! ## The crate's functions -/

/-- Result of `topic::parse_filter`. -/
structure ParsedFilter where
  shareName : Option String
  filter : String
deriving DecidableEq, Repr

/-- What the broker calls in `wispmq-protocol`. -/
structure Protocol where
  /-- `topic::matches(filter, topic)`. -/
  topicMatches : String → String → Bool
  /-- `topic::valid_topic_filter`. -/
  validTopicFilter : String → Bool
  /-- `topic::valid_topic_name`. -/
  validTopicName : String → Bool
  /-- `topic::parse_filter`, which splits off a `$share/{name}/` prefix. -/
  parseFilter : String → Option ParsedFilter
  /-- `Connect::validate_protocol`, the error already mapped to its reason code. -/
  validateProtocol : Connect → Except ReasonCode ProtocolVersion
  /-- Length of `Packet::Publish(p).encode(ProtocolVersion::V5)`, `none` for `Err`. -/
  encodedLen : Publish → Option Nat
  /-- The bytes `Writer::put_utf8` appends. -/
  putUtf8 : String → Bytes
  /-- `Reader::utf8_pair`: the pair and what is left to read, `none` for `Err`. -/
  utf8Pair : Bytes → Option ((String × String) × Bytes)

/-- The storage key of a subscription, the `$share/{name}/` prefix put back
(`format!("$share/{s}/{filter}")`, connect.rs:222-226, authz.rs:70-74). -/
def shareKey : Option String → String → String
  | some s, filter => "$share/" ++ s ++ "/" ++ filter
  | none, filter => filter

/-- What the broker relies on when it rebuilds a storage key: `parse_filter` only ever *splits* its
argument, so putting the prefix back gives the argument again. -/
def Protocol.ParseSpec (P : Protocol) : Prop :=
  ∀ raw p, P.parseFilter raw = some p → shareKey p.shareName p.filter = raw

/-- What storage relies on when it keeps user properties in a blob: `utf8_pair` reads back what two calls of `put_utf8` have
written, up to the longest string the format has room for. -/
def Protocol.CodecSpec (P : Protocol) : Prop :=
  ∀ k v rest, k.utf8ByteSize ≤ 65535 → v.utf8ByteSize ≤ 65535 →
    P.utf8Pair (P.putUtf8 k ++ P.putUtf8 v ++ rest) = some ((k, v), rest)

/-- `str::starts_with`. -/
def startsWith (s pre : String) : Bool := pre.toList.isPrefixOf s.toList

end WispMQ
