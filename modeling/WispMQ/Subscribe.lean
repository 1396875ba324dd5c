import WispMQ.Publish
/-!
# SUBSCRIBE and UNSUBSCRIBE: `broker/subscribe.rs`

Both loops run inside one critical section, on the session of the client. `SubscribeAcc` holds the local
variables of the SUBSCRIBE loop: the session, the reason codes, the storage commands sent so far and the
retained messages to deliver after the SUBACK.
-/

namespace WispMQ
open KeyMap

/-- `strip_share_for_validation` (subscribe.rs:212). -/
def stripShareForValidation (filter : String) : String :=
  if startsWith filter "$share/" then
    match (filter.toList.drop 7).dropWhile (· ≠ '/') with
    | _ :: rest => String.ofList rest
    | [] => filter
  else filter

/-- The reason code of a granted QoS. -/
def grantCode : QoS → ReasonCode
  | .atMostOnce => .success
  | .atLeastOnce => .grantedQoS1
  | .exactlyOnce => .grantedQoS2

structure SubscribeAcc where
  session : Session
  reasonCodes : List ReasonCode := []
  commands : List Command := []
  retainedToSend : List (Message × QoS × List Nat) := []

namespace Broker
variable (P : Protocol)

/-- Retained messages are sent now (subscribe.rs:104-109). -/
def sendsRetained (rh : RetainHandling) (shareName : Option String) (existed : Bool) : Bool :=
  shareName.isNone && match rh with
    | .sendAtSubscribe => true
    | .sendIfNewSubscription => !existed
    | .doNotSend => false

/-- The retained messages a granted filter picks up (subscribe.rs:110-120). -/
def retainedMatches (now : Nat) (ord : Orders) (b : Broker) (filter : String) (granted : QoS)
    (subId : Option Nat) : List (Message × QoS × List Nat) :=
  ((reorder ord.retained b.retained.entries).filter fun e =>
      !e.2.isExpired now && P.topicMatches filter e.1).map
    fun e => (e.2, e.2.qos.min granted, subId.toList)

/-- One iteration of `for f in &sub.filters` (subscribe.rs:48-127). -/
def subscribeFilter (now : Nat) (ord : Orders) (b : Broker) (cid : String) (subId : Option Nat)
    (acc : SubscribeAcc) (f : TopicFilter) : SubscribeAcc :=
  if !P.validTopicFilter (stripShareForValidation f.filter) then
    { acc with reasonCodes := acc.reasonCodes ++ [.topicFilterInvalid] }
  else match P.parseFilter f.filter with
    | none => { acc with reasonCodes := acc.reasonCodes ++ [.topicFilterInvalid] }
    | some parsed =>
      if b.acl.isEnforced && !b.acl.canSubscribe P (who acc.session.identity) parsed.filter then
        { acc with reasonCodes := acc.reasonCodes ++ [.notAuthorized] }
      else
        let granted := f.qos.min b.config.maximumQos
        let r := acc.session.upsertSubscription
          { filter := parsed.filter, shareName := parsed.shareName, qos := granted, noLocal := f.noLocal
            retainAsPublished := f.retainAsPublished, subscriptionIdentifier := subId }
        { session := r.1
          reasonCodes := acc.reasonCodes ++ [grantCode granted]
          commands := acc.commands ++
            if acc.session.persistent then
              [.upsertSubscription cid
                { filter := f.filter, qos := granted, noLocal := f.noLocal
                  retainAsPublished := f.retainAsPublished, retainHandling := f.retainHandling
                  subscriptionIdentifier := subId }]
            else []
          retainedToSend := acc.retainedToSend ++
            if sendsRetained f.retainHandling parsed.shareName r.2 then
              b.retainedMatches P now ord parsed.filter granted subId
            else [] }

/-- Retained deliveries after the SUBACK (subscribe.rs:137-145). -/
def deliverRetained (now maxQueued : Nat) (acc : Session × Nat) (e : Message × QoS × List Nat) : Session × Nat :=
  let r := deliverToSession P now acc.1 e.1 e.2.1 true e.2.2 maxQueued
  (r.1, acc.2 + r.2.toNat)

/-- `handle_subscribe` (subscribe.rs:14). -/
def handleSubscribe (now : Nat) (ord : Orders) (b : Broker) (cid : String) (epoch : Nat) (sub : Subscribe) :
    Outcome :=
  b.fenced cid epoch fun s =>
    let acc := sub.filters.foldl (subscribeFilter P now ord b cid sub.subscriptionIdentifiers.head?)
      { session := s }
    let s := acc.session.push (.control (.suback ⟨sub.packetId, acc.reasonCodes⟩))
    let r := acc.retainedToSend.foldl (deliverRetained P now b.config.maxQueuedMessages) (s, 0)
    { broker := (b.setSession cid r.1).addDropped r.2
      effects := acc.commands.map .store ++ [.result cid epoch .continue] }

/-! ## UNSUBSCRIBE -/

/-- The `(share_name, filter)` an UNSUBSCRIBE names (subscribe.rs:177-180). -/
def unsubscribeTarget (filter : String) : Option String × String :=
  match P.parseFilter filter with
  | some p => (p.shareName, p.filter)
  | none => (none, filter)

/-- One iteration of `for filter in &unsub.filters`: session, reason codes, commands. -/
def unsubscribeFilter (cid : String) (acc : Session × List ReasonCode × List Command) (filter : String) :
    Session × List ReasonCode × List Command :=
  let r := acc.1.removeSubscription (unsubscribeTarget P filter).2 (unsubscribeTarget P filter).1
  (r.1,
    acc.2.1 ++ [if r.2 then .success else .noSubscriptionExisted],
    acc.2.2 ++ if r.2 && acc.1.persistent then [.deleteSubscription cid filter] else [])

/-- `handle_unsubscribe` (subscribe.rs:153). -/
def handleUnsubscribe (b : Broker) (cid : String) (epoch : Nat) (unsub : Unsubscribe) : Outcome :=
  b.fenced cid epoch fun s =>
    let r := unsub.filters.foldl (unsubscribeFilter P cid) (s, [], [])
    { broker := b.setSession cid (r.1.push (.control (.unsuback ⟨unsub.packetId, r.2.1⟩)))
      effects := r.2.2.map .store ++ [.result cid epoch .continue] }

end Broker

end WispMQ
