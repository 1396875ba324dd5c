import WispMQ.Authorized
import WispMQ.Redelivery
import WispMQ.Routing
/-!
# Replies

Every reply goes through `let _ = tx.try_send(..)`: in a full channel it is lost. `free` counts the slots a channel has
left and `copies` those that routing takes when a client has subscribed to what it publishes; a packet that asks for a
reply gets it if and only if a slot is left after these (`reply_pushed_iff`).
-/

namespace WispMQ
open KeyMap

/-! ## Free slots -/

/-- How many more items the channel takes. -/
def OutTx.free (tx : OutTx) : Nat := if tx.hasRoom then tx.received + tx.capacity - tx.sent.length else 0

theorem OutTx.free_pos_iff (tx : OutTx) : 0 < tx.free ↔ tx.hasRoom := by
  unfold free
  by_cases h : tx.hasRoom
  · have hr := h
    simp only [hasRoom, Bool.and_eq_true, decide_eq_true_eq] at hr
    simp only [h, if_true, iff_true]
    omega
  · simp [h]

/-- A push takes one slot. -/
theorem OutTx.free_push {tx : OutTx} (h : tx.hasRoom) (item : Outgoing) :
    ({ tx with sent := tx.sent ++ [item] } : OutTx).free + 1 = tx.free := by
  have hr := h
  simp only [hasRoom, Bool.and_eq_true, decide_eq_true_eq] at hr
  simp only [free, h, if_true]
  split
  · rename_i h'
    simp only [hasRoom, Bool.and_eq_true, decide_eq_true_eq, List.length_append, List.length_singleton] at h' ⊢
    omega
  · rename_i h'
    simp only [hasRoom, Bool.and_eq_true, decide_eq_true_eq, List.length_append, List.length_singleton, hr.1,
      true_and] at h'
    omega

namespace Session
variable {P : Protocol} {s : Session}

/-- How many more items the session's channel takes. -/
def free (s : Session) : Nat := s.out.elim 0 OutTx.free

theorem free_pos_iff : 0 < s.free ↔ s.out.any OutTx.hasRoom := by
  unfold free
  cases s.out with
  | none => simp
  | some tx => simpa using tx.free_pos_iff

/-- The items the channel has taken so far. -/
def sentCount (s : Session) : Nat := s.out.elim 0 (·.sent.length)

/-- The session with a channel of another capacity. -/
def widen (c : Nat) (s : Session) : Session := { s with out := s.out.map ({ · with capacity := c }) }

/-- How many items the operations put into the channel if it does not fill up. -/
def copies (P : Protocol) (os : List Op) (s : Session) : Nat :=
  ((s.widen (s.sentCount + os.length)).applyAll P os).1.sentCount - s.sentCount

section Widen
variable {c : Nat} (hroom : s.out.any OutTx.hasRoom) (hc : (s.widen c).out.any OutTx.hasRoom)
include hroom hc

theorem widen_trySend (item : Outgoing) :
    (s.widen c).trySend item = (s.trySend item).map (widen c) := by
  cases ho : s.out with
  | none => simp [ho] at hroom
  | some tx =>
    simp only [ho, Option.any_some, widen, Option.map_some] at hroom hc
    simp [trySend, widen, ho, OutTx.trySend, hroom, hc]

theorem widen_sendNow (now : Nat) (p : Pending) :
    (s.widen c).sendNow now p = ((s.sendNow now p).1.widen c, (s.sendNow now p).2) := by
  have hon : (s.widen c).isOnline = s.isOnline := by simp [isOnline, widen]
  have hwin : (s.widen c).windowOpen = s.windowOpen := rfl
  have hnext : (s.widen c).nextId = (s.nextId.1, s.nextId.2.widen c) := rfl
  unfold sendNow
  rw [hon, hwin]
  split
  · rw [hnext]
    cases hid : s.nextId with
    | mk id s₁ =>
      have hout : s₁.out = s.out := by
        have : s.nextId.2.out = s.out := rfl
        rw [hid] at this
        exact this
      cases id with
      | none => rfl
      | some id =>
        have h1 : (s₁.widen c).trySend (.send (p.render now id)) = (s₁.trySend (.send (p.render now id))).map (widen c) :=
          widen_trySend (by rw [hout]; exact hroom) (by simpa [widen, hout] using hc) _
        simp only
        rw [h1]
        cases s₁.trySend (.send (p.render now id)) with
        | none => rfl
        | some s₂ =>
          simp only [Option.map_some, record]
          cases p.qos <;> rfl
  · rfl

/-- As long as there is room, a delivery does not see the capacity. -/
theorem widen_deliver (now : Nat) (m : Message) (qos : QoS) (retain : Bool) (subIds : List Nat) (maxQueued : Nat) :
    deliver P now (s.widen c) m qos retain subIds maxQueued =
      ((deliver P now s m qos retain subIds maxQueued).1.widen c, (deliver P now s m qos retain subIds maxQueued).2) := by
  have hon : (s.widen c).isOnline = s.isOnline := by simp [isOnline, widen]
  have hsize : ∀ p, (s.widen c).oversized P p = s.oversized P p := fun _ => rfl
  have henq : ∀ (s : Session) p, (s.widen c).enqueue p maxQueued =
      ((s.enqueue p maxQueued).1.widen c, (s.enqueue p maxQueued).2) := by
    intro s p
    unfold enqueue
    have hq : (s.widen c).queue = s.queue := rfl
    rw [hq]
    split <;> rfl
  unfold deliver
  split
  · rfl
  · cases qos with
    | atMostOnce =>
      simp only [hon, hsize]
      split
      · split
        · rfl
        · rw [widen_trySend hroom hc]
          cases s.trySend (.send (m.toPublish now .atMostOnce none retain subIds)) <;> rfl
      · rfl
    | atLeastOnce | exactlyOnce =>
      simp only [hsize, widen_sendNow hroom hc]
      split
      · rfl
      · rcases hsend : s.sendNow now _ with ⟨s₁, id⟩
        cases id with
        | some id => rfl
        | none => exact henq s₁ _

end Widen

theorem applyAll_appends : ∀ (os : List Op) (s : Session), (∀ o ∈ os, o.isDeliver) →
    Appends (fun i => ∃ p, i = .send p) s (s.applyAll P os).1
  | [], s, _ => .refl s
  | o :: os, s, h => by
    obtain ⟨ho, hos⟩ := List.forall_mem_cons.1 h
    cases o with
    | deliver now m qos retain subIds maxQueued =>
      exact (deliver_appends now s m qos retain subIds maxQueued).trans (applyAll_appends os _ hos)
    | _ => cases ho

theorem Appends.sentCount_le {Q : Outgoing → Prop} {s' : Session} (h : Appends Q s s') : s.sentCount ≤ s'.sentCount := by
  obtain ⟨items, h, -⟩ := h
  unfold sentCount
  rw [h]
  cases s.out with
  | none => exact le_refl _
  | some tx => simp

theorem sentCount_widen (c : Nat) (s : Session) : (s.widen c).sentCount = s.sentCount := by
  unfold sentCount widen
  cases s.out <;> rfl

/-- There is room after the deliveries if and only if they would not have taken all the slots of a larger channel. -/
theorem applyAll_room_iff {c : Nat} : ∀ (os : List Op) (s : Session), (∀ o ∈ os, o.isDeliver) →
    s.sentCount + os.length ≤ c →
    ((s.applyAll P os).1.out.any OutTx.hasRoom ↔
      ((s.widen c).applyAll P os).1.sentCount < s.sentCount + s.free)
  | [], s, _, _ => by
    rw [applyAll, applyAll, sentCount_widen, ← free_pos_iff, Nat.lt_add_right_iff_pos]
  | o :: os, s, h, hc => by
    obtain ⟨ho, hos⟩ := List.forall_mem_cons.1 h
    rw [List.length_cons] at hc
    cases o with
    | deliver now m qos retain subIds maxQueued =>
      by_cases hroom : s.out.any OutTx.hasRoom
      · have hwide : (s.widen c).out.any OutTx.hasRoom := by
          cases hout : s.out with
          | none => simp [hout] at hroom
          | some tx =>
            simp only [hout, Option.any_some, OutTx.hasRoom, Bool.and_eq_true, sentCount, Option.elim_some] at hroom hc
            simp only [widen, hout, Option.map_some, Option.any_some, OutTx.hasRoom, Bool.and_eq_true,
              decide_eq_true_eq]
            exact ⟨hroom.1, by omega⟩
        have hstep : ((s.widen c).apply P (.deliver now m qos retain subIds maxQueued)).1 =
            (s.apply P (.deliver now m qos retain subIds maxQueued)).1.widen c :=
          congrArg Prod.fst (widen_deliver hroom hwide now m qos retain subIds maxQueued)
        have hout := deliver_out P now s m qos retain subIds maxQueued
        change (s.apply P (.deliver now m qos retain subIds maxQueued)).1.out = _ ∨ ∃ p tx, _ ∧ _ ∧
          (s.apply P (.deliver now m qos retain subIds maxQueued)).1.out = _ at hout
        rw [applyAll, applyAll, hstep]
        set s₁ := (s.apply P (.deliver now m qos retain subIds maxQueued)).1
        rcases hout with hout | ⟨p, tx, htx, hr, hout⟩
        · have hcount : s₁.sentCount = s.sentCount := by rw [sentCount, hout, ← sentCount]
          have hfree : s₁.free = s.free := by rw [free, hout, ← free]
          rw [← hcount, ← hfree]
          exact applyAll_room_iff os s₁ hos (by omega)
        · have hcount : s₁.sentCount = s.sentCount + 1 := by simp [sentCount, hout, htx]
          have hfree : s₁.free + 1 = s.free := by
            simpa [free, hout, htx] using OutTx.free_push hr (.send p)
          have hih := applyAll_room_iff os s₁ hos (by omega : s₁.sentCount + os.length ≤ c)
          have htotal : s₁.sentCount + s₁.free = s.sentCount + s.free := by omega
          rwa [htotal] at hih
      · -- the channel is full and stays full
        have hzero : s.free = 0 := Nat.eq_zero_of_not_pos fun h => hroom (free_pos_iff.1 h)
        have hmono := (applyAll_appends (P := P) (.deliver now m qos retain subIds maxQueued :: os) (s.widen c) h).sentCount_le
        rw [sentCount_widen] at hmono
        constructor
        · intro hr
          exact absurd ((applyAll_appends _ s h).room hr) hroom
        · intro hlt
          omega
    | _ => cases ho

/-- The deliveries leave a slot if and only if there are fewer copies than slots. -/
theorem room_iff_copies {os : List Op} (h : ∀ o ∈ os, o.isDeliver) :
    (s.applyAll P os).1.out.any OutTx.hasRoom ↔ s.copies P os < s.free := by
  have hmono := (applyAll_appends (P := P) os (s.widen (s.sentCount + os.length)) h).sentCount_le
  rw [sentCount_widen] at hmono
  rw [applyAll_room_iff os s h le_rfl, copies]
  omega

end Session

/-! ## Replies -/

/-- The packet asks for a reply: a QoS 1 or 2 PUBLISH, a PUBREL, a successful PUBREC for a known id, a SUBSCRIBE, an
UNSUBSCRIBE or a PINGREQ. -/
def Session.expectsReply (s : Session) : Packet → Bool
  | .publish p => p.qos ≠ .atMostOnce
  | .pubrec a => a.packetId ∈ s.awaitingPubrec && !a.reasonCode.isError
  | .pubrel _ | .subscribe _ | .unsubscribe _ | .pingreq => true
  | _ => false

/-- The item is the reply to the packet. -/
def Packet.isReply : Packet → Outgoing → Bool
  | .publish p, .control (.puback a) => p.qos = .atLeastOnce && a.packetId = p.packetId.getD 0
  | .publish p, .control (.pubrec a) => p.qos = .exactlyOnce && a.packetId = p.packetId.getD 0
  | .pubrec a, .control (.pubrel b) => b = ⟨a.packetId, .success⟩
  | .pubrel a, .control (.pubcomp b) => b.packetId = a.packetId
  | .subscribe s, .control (.suback a) => a.packetId = s.packetId
  | .unsubscribe u, .control (.unsuback a) => a.packetId = u.packetId
  | .pingreq, .control .pingresp => true
  | _, _ => false

/-- The session as `route` finds it: a QoS 2 PUBLISH is remembered before it is routed (publish.rs:168). -/
def Session.readied (s : Session) (p : Publish) : Session :=
  if p.qos = .exactlyOnce then { s with inboundQos2 := insert (p.packetId.getD 0) s.inboundQos2 } else s

/-- How many copies of its own message a client is due when it handles the packet: none, unless it is a PUBLISH that is
neither refused nor a duplicate, and the client's own subscriptions match it. -/
def Broker.ownCopies (P : Protocol) (now : Nat) (ord : Orders) (b : Broker) (cid : String) (s : Session) : Packet → Nat
  | .publish p =>
    match resolveAlias b.config s p with
    | .error _ => 0
    | .ok (s', p') =>
      if b.acl.isEnforced && !b.acl.canPublish P (who s'.identity) p'.topic then 0
      else if p'.qos = .exactlyOnce ∧ p'.packetId.getD 0 ∈ s'.inboundQos2 then 0
      else (s'.readied p').copies P
        ((b.setSession cid (s'.readied p')).deliveries P now ord (some cid) (Message.fromPublish now p') cid)
  | _ => 0

namespace World
open Broker Session
variable {P : Protocol} {w : World} {l : Label} {cid : String} {epoch : Nat} {packet : Packet} {s s' : Session}

/-- The step handles the packet for the current connection of an online session, and the connection goes on. -/
structure Handled (P : Protocol) (w : World) (l : Label) (cid : String) (epoch : Nat) (packet : Packet) (s : Session) :
    Prop where
  selected : w.selected l.input = some (.dispatch cid epoch packet)
  session : w.broker.sessions.lookup cid = some s
  current : s.epoch = epoch
  online : s.isOnline
  result : .result cid epoch .continue ∈ (step P w l).2

theorem isReply_send (packet : Packet) (p : Publish) : packet.isReply (.send p) = false := by
  cases packet <;> rfl

/-- The session's epoch survives a packet. -/
theorem dispatch_epoch (hsel : w.selected l.input = some (.dispatch cid epoch packet))
    (hs : w.broker.sessions.lookup cid = some s) (hs' : (step P w l).1.broker.sessions.lookup cid = some s') :
    s'.epoch = s.epoch := by
  rcases (step_change P w l).bound hs' with ⟨s₀, hs₀, hb, -⟩ | ⟨req, hconn, -⟩ | ⟨name, hin, -⟩
  · rw [hs] at hs₀
    cases hs₀
    exact hb.epoch
  · rw [hsel] at hconn
    cases hconn
  · rw [hin] at hsel
    cases hsel

/-- A reply is tried once, between PUBLISH packets: it is in the channel if there was room for it. -/
theorem pushed_reply_iff {s₁ : Session} {item : Outgoing} (h : w.Handled P l cid epoch packet s)
    (hs' : (step P w l).1.broker.sessions.lookup cid = some s')
    (hbefore : Appends (fun i => ∃ p, i = .send p) s s₁)
    (hafter : Appends (fun i => ∃ p, i = .send p) (s₁.push item) s') (hitem : packet.isReply item) :
    (∃ i ∈ w.pushed P l cid epoch, packet.isReply i) ↔ s₁.out.any OutTx.hasRoom := by
  obtain ⟨tx, htx⟩ := Option.isSome_iff_exists.1 h.online
  have hsend : ∀ {items : List Outgoing}, (∀ i ∈ items, ∃ p, i = Outgoing.send p) → ∀ i ∈ items, packet.isReply i = false := by
    intro items hi i hmem
    obtain ⟨p, rfl⟩ := hi i hmem
    exact isReply_send packet p
  obtain ⟨items, h1, hi⟩ := hbefore
  obtain ⟨items', h2, hi'⟩ := hafter
  rw [htx, Option.map_some] at h1
  rw [← h.current]
  by_cases hroom : ({ tx with sent := tx.sent ++ items } : OutTx).hasRoom
  · have hpush : (s₁.push item).out = some { tx with sent := tx.sent ++ items ++ [item] } := by
      simp [push, trySend, h1, OutTx.trySend, hroom]
    rw [hpush, Option.map_some] at h2
    rw [pushed_of_lookup h.session htx hs' (dispatch_epoch h.selected h.session hs') h2]
    simp only [h1, Option.any_some, hroom, iff_true]
    exact ⟨item, by simp, hitem⟩
  · have hpush : (s₁.push item).out = some { tx with sent := tx.sent ++ items } := by
      simp [push, trySend, h1, OutTx.trySend, hroom]
    rw [hpush, Option.map_some] at h2
    rw [pushed_of_lookup h.session htx hs' (dispatch_epoch h.selected h.session hs') h2]
    simp only [h1, Option.any_some, hroom, Bool.false_eq_true, iff_false]
    rintro ⟨i, hmem, hreply⟩
    rw [List.append_assoc, List.drop_left] at hmem
    rcases List.mem_append.1 hmem with hmem | hmem
    · rw [hsend hi i hmem] at hreply
      cases hreply
    · rw [hsend hi' i hmem] at hreply
      cases hreply

/-! ### The handlers -/

theorem subscribeFilters_out (now : Nat) (ord : Orders) (b : Broker) (cid : String) (subId : Option Nat) :
    ∀ (fs : List TopicFilter) (acc : SubscribeAcc),
      (fs.foldl (subscribeFilter P now ord b cid subId) acc).session.out = acc.session.out
  | [], _ => rfl
  | f :: fs, acc => by
    rw [List.foldl_cons, subscribeFilters_out now ord b cid subId fs]
    unfold subscribeFilter
    split
    · rfl
    · split
      · rfl
      · split
        · rfl
        · simp only [upsertSubscription]
          split <;> rfl

theorem unsubscribeFilters_out (cid : String) :
    ∀ (fs : List String) (acc : Session × List ReasonCode × List Command),
      (fs.foldl (unsubscribeFilter P cid) acc).1.out = acc.1.out
  | [], _ => rfl
  | f :: fs, acc => by rw [List.foldl_cons, unsubscribeFilters_out cid fs]; rfl

theorem deliverRetained_appends (now maxQueued : Nat) : ∀ (es : List (Message × QoS × List Nat)) (acc : Session × Nat),
    Appends (fun i => ∃ p, i = .send p) acc.1 (es.foldl (deliverRetained P now maxQueued) acc).1
  | [], _ => .refl _
  | e :: es, acc =>
    (deliver_appends now acc.1 e.1 e.2.1 true e.2.2 maxQueued).trans
      (deliverRetained_appends now maxQueued es (deliverRetained P now maxQueued acc e))

/-- Resolving an alias changes the topic and the aliases. -/
theorem resolveAlias_frame {cfg : Config} {p p' : Publish} (h : resolveAlias cfg s p = .ok (s', p')) :
    p'.qos = p.qos ∧ p'.packetId = p.packetId ∧ s'.out = s.out ∧ s'.identity = s.identity := by
  obtain ⟨topic, rfl⟩ := resolveAlias_publish h
  rcases resolveAlias_ok (P := .reference) h with rfl | ⟨a, rfl⟩
  · exact ⟨rfl, rfl, rfl, rfl⟩
  · exact ⟨rfl, rfl, rfl, rfl⟩

theorem acknowledge_lookup {b : Broker} {qos : QoS} {ack : PubAck} {p : Packet} (hs : b.sessions.lookup cid = some s)
    (hp : publishAck qos ack = some p) :
    (b.acknowledge cid qos ack).sessions.lookup cid = some (s.push (.control p)) := by
  rw [acknowledge_lookup_self qos ack hs, hp]
  rfl

theorem storeRetained_frame (b : Broker) (origin : Origin) (m : Message) :
    (b.storeRetained origin m).1.sessions = b.sessions ∧ (b.storeRetained origin m).1.sharedRr = b.sharedRr ∧
      (b.storeRetained origin m).1.config = b.config := by
  unfold storeRetained
  split
  · split <;> exact ⟨rfl, rfl, rfl⟩
  · exact ⟨rfl, rfl, rfl⟩

theorem deliveries_congr {b b' : Broker} (hsessions : b'.sessions = b.sessions) (hrr : b'.sharedRr = b.sharedRr)
    (hcfg : b'.config = b.config) (now : Nat) (ord : Orders) (publisher : Option String) (m : Message) (cid : String) :
    b'.deliveries P now ord publisher m cid = b.deliveries P now ord publisher m cid := by
  simp only [deliveries, chosen, subsOf, hsessions, hrr, hcfg]

theorem isDeliver_of_mem {now : Nat} {ord : Orders} {b : Broker} {publisher : Option String} {m : Message} {o : Op}
    (h : o ∈ b.deliveries P now ord publisher m cid) : o.isDeliver := by
  obtain ⟨qos, retain, subIds, maxQueued, rfl⟩ := mem_deliveries h
  rfl

/-- The policy refuses the PUBLISH, or it is a QoS 2 PUBLISH the session still remembers: it is not routed. -/
def NotRouted (P : Protocol) (b : Broker) (s : Session) (p : Publish) : Prop :=
  (b.acl.isEnforced && !b.acl.canPublish P (who s.identity) p.topic) = true ∨
    p.qos = .exactlyOnce ∧ p.packetId.getD 0 ∈ s.inboundQos2

/-- What is not at most once is acknowledged. -/
theorem exists_publishAck {p : Publish} (hq : p.qos ≠ .atMostOnce) (rc : ReasonCode) :
    ∃ q, publishAck p.qos ⟨p.packetId.getD 0, rc⟩ = some q ∧ (Packet.publish p).isReply (.control q) := by
  cases hqos : p.qos with
  | atMostOnce => exact absurd hqos hq
  | atLeastOnce => exact ⟨_, rfl, by simp [Packet.isReply, hqos]⟩
  | exactlyOnce => exact ⟨_, rfl, by simp [Packet.isReply, hqos]⟩

/-- A PUBLISH that the connection survives: its session gets the deliveries of `route`, if it is routed, then the
reply. -/
theorem acceptPublish_lookup {now : Nat} {ord : Orders} {b : Broker} {p : Publish} (hq : p.qos ≠ .atMostOnce)
    (hresult : .result cid epoch .continue ∈ (acceptPublish P now ord (b.setSession cid s) cid epoch s p).effects) :
    ∃ item, (Packet.publish p).isReply item ∧
      (NotRouted P b s p →
        (acceptPublish P now ord (b.setSession cid s) cid epoch s p).broker.sessions.lookup cid = some (s.push item)) ∧
      (¬NotRouted P b s p →
        (acceptPublish P now ord (b.setSession cid s) cid epoch s p).broker.sessions.lookup cid =
          some (((s.readied p).applyAll P ((b.setSession cid (s.readied p)).deliveries P now ord (some cid)
            (Message.fromPublish now p) cid)).1.push item)) := by
  have hs : (b.setSession cid s).sessions.lookup cid = some s := by simp [setSession]
  unfold acceptPublish at hresult ⊢
  split at hresult
  · simp [answer] at hresult
  split at hresult
  · simp [answer] at hresult
  rename_i hvalid hsys
  rw [if_neg hvalid, if_neg hsys, setSession_acl]
  by_cases hacl : (b.acl.isEnforced && !b.acl.canPublish P (who s.identity) p.topic) = true
  · obtain ⟨q, hp, hreply⟩ := exists_publishAck hq .notAuthorized
    rw [if_pos hacl]
    exact ⟨.control q, hreply, fun _ => acknowledge_lookup hs hp, fun h => absurd (.inl hacl) h⟩
  · rw [if_neg hacl]
    obtain ⟨hsess, hrr, hcfg⟩ := storeRetained_frame (b.setSession cid s) (.publish cid epoch) (Message.fromPublish now p)
    set b₁ := ((b.setSession cid s).storeRetained (.publish cid epoch) (Message.fromPublish now p)).1
    have hs₁ : b₁.sessions.lookup cid = some s := by rw [hsess, hs]
    cases hqos : p.qos with
    | atMostOnce => exact absurd hqos hq
    | atLeastOnce =>
      have hready : s.readied p = s := by simp [readied, hqos]
      have hroute := route_lookup (P := P) now ord (some cid) (Message.fromPublish now p) hs₁
      rw [deliveries_congr hsess hrr hcfg] at hroute
      obtain ⟨q, hp, hreply⟩ := exists_publishAck hq (matchedCode (route P now ord b₁ (some cid) (Message.fromPublish now p)).2)
      rw [hqos] at hp
      refine ⟨.control q, hreply, fun h => ?_, fun _ => ?_⟩
      · rcases h with h | h
        · exact absurd h hacl
        · rw [hqos] at h
          cases h.1
      · simp only [routePublish, hqos, hready]
        exact acknowledge_lookup hroute hp
    | exactlyOnce =>
      by_cases hdup : p.packetId.getD 0 ∈ s.inboundQos2
      · obtain ⟨q, hp, hreply⟩ := exists_publishAck hq .success
        rw [hqos] at hp
        refine ⟨.control q, hreply, fun _ => ?_, fun h => absurd (.inr ⟨hqos, hdup⟩) h⟩
        simp only [routePublish, hqos, hdup, if_true]
        exact acknowledge_lookup hs₁ hp
      · have hready : s.readied p = { s with inboundQos2 := insert (p.packetId.getD 0) s.inboundQos2 } := by
          simp [readied, hqos]
        have hs₂ : (b₁.setSession cid (s.readied p)).sessions.lookup cid = some (s.readied p) := by simp [setSession]
        have hsess₂ : (b₁.setSession cid (s.readied p)).sessions = (b.setSession cid (s.readied p)).sessions := by
          simp only [setSession, hsess, AList.insert_insert]
        have hroute := route_lookup (P := P) now ord (some cid) (Message.fromPublish now p) hs₂
        rw [deliveries_congr hsess₂ hrr hcfg] at hroute
        obtain ⟨q, hp, hreply⟩ := exists_publishAck hq (matchedCode (route P now ord (b₁.setSession cid (s.readied p)) (some cid)
          (Message.fromPublish now p)).2)
        rw [hqos] at hp
        refine ⟨.control q, hreply, fun h => ?_, fun _ => ?_⟩
        · rcases h with h | h
          · exact absurd h hacl
          · exact absurd h.2 hdup
        · simp only [routePublish, hqos, hdup, if_false, ← hready]
          exact acknowledge_lookup hroute hp

/-- The reply to a PUBLISH that the connection survives. -/
theorem publish_reply_iff {p : Publish} (h : w.Handled P l cid epoch (.publish p) s) (hq : p.qos ≠ .atMostOnce) :
    (∃ i ∈ w.pushed P l cid epoch, (Packet.publish p).isReply i) ↔
      w.broker.ownCopies P l.now l.ord cid s (.publish p) < s.free := by
  have hstep := step_of_selected (P := P) h.selected
  have hresult := h.result
  rw [hstep.2] at hresult
  simp only [runTask, dispatch] at hresult hstep
  rcases handlePublish_cases P l.now l.ord w.broker cid epoch p with ⟨rc, he⟩ | ⟨s₀, s₁, p₁, hs₀, -, hr, he⟩
  · simp [he, answer] at hresult
  · rw [h.session] at hs₀
    cases hs₀
    obtain ⟨hqos, hid, hout, hident⟩ := resolveAlias_frame hr
    rw [he] at hresult hstep
    set b₁ := { w.broker with metrics.publishReceived := w.broker.metrics.publishReceived + 1 } with hb₁
    obtain ⟨item, hitem, hnot, hrouted⟩ := acceptPublish_lookup (hqos ▸ hq) hresult
    have hreply : (Packet.publish p).isReply item := by
      revert hitem
      cases item with
      | control q => cases q <;> simp [Packet.isReply, hqos, hid]
      | _ => simp [Packet.isReply]
    rw [← hstep.1] at hnot hrouted
    have hfree : (s₁.readied p₁).free = s.free := by
      have : (s₁.readied p₁).out = s.out := by
        rw [← hout]
        unfold readied
        split <;> rfl
      rw [free, this, ← free]
    by_cases hn : NotRouted P w.broker s₁ p₁
    · have hzero : w.broker.ownCopies P l.now l.ord cid s (.publish p) = 0 := by
        simp only [ownCopies, hr]
        rcases hn with hn | hn
        · rw [if_pos hn]
        · rw [if_pos hn, ite_self]
      rw [hzero, pushed_reply_iff h (hnot hn) (.of_out hout) (.refl _) hreply, free_pos_iff, hout]
    · have hcopies : w.broker.ownCopies P l.now l.ord cid s (.publish p) = (s₁.readied p₁).copies P
          ((w.broker.setSession cid (s₁.readied p₁)).deliveries P l.now l.ord (some cid) (Message.fromPublish l.now p₁)
            cid) := by
        simp only [ownCopies, hr]
        rw [if_neg fun h => hn (.inl h), if_neg fun h => hn (.inr h)]
      have hdel : ∀ o ∈ (b₁.setSession cid (s₁.readied p₁)).deliveries P l.now l.ord (some cid)
          (Message.fromPublish l.now p₁) cid, o.isDeliver := fun o ho => isDeliver_of_mem ho
      have hbefore : Appends (fun i => ∃ p, i = .send p) s (s₁.readied p₁) := by
        refine .of_out ?_
        rw [← hout]
        unfold readied
        split <;> rfl
      rw [hcopies, ← hfree, pushed_reply_iff h (hrouted hn) (hbefore.trans (applyAll_appends _ _ hdel)) (.refl _) hreply,
        room_iff_copies hdel]
      rfl

/-- **Replies**: a packet that asks for one gets its reply if and only if the session's channel has more free slots than
the client is due copies of its own message. -/
theorem reply_iff (h : w.Handled P l cid epoch packet s) (hexpects : s.expectsReply packet) :
    (∃ i ∈ w.pushed P l cid epoch, packet.isReply i) ↔ w.broker.ownCopies P l.now l.ord cid s packet < s.free := by
  have hstep : (step P w l).1.broker = (dispatch P l.now l.ord w.broker cid epoch packet).broker :=
    (step_of_selected h.selected).1
  have hs := h.session
  have hcur := h.current
  -- for every packet but a PUBLISH, the reply is pushed before anything else
  have hfirst : ∀ (s₁ : Session) (item : Outgoing) {s' : Session}, s₁.out = s.out →
      (dispatch P l.now l.ord w.broker cid epoch packet).broker.sessions.lookup cid = some s' →
      Appends (fun i => ∃ p, i = .send p) (s₁.push item) s' → packet.isReply item →
      ((∃ i ∈ w.pushed P l cid epoch, packet.isReply i) ↔ 0 < s.free) := by
    intro s₁ item s' hout hs' hafter hitem
    rw [← hstep] at hs'
    rw [pushed_reply_iff h hs' (.of_out hout) hafter hitem, free_pos_iff, hout]
  cases packet with
  | publish p => exact publish_reply_iff h (by simpa [expectsReply] using hexpects)
  | pubrec a =>
    simp only [expectsReply, Bool.and_eq_true, decide_eq_true_eq, Bool.not_eq_true'] at hexpects
    refine hfirst { s with
      awaitingPubrec := s.awaitingPubrec.erase a.packetId, awaitingPubcomp := insert a.packetId s.awaitingPubcomp }
      (.control (.pubrel ⟨a.packetId, .success⟩)) rfl (acked_lookup hs hcur _) (.of_out ?_) (by simp [Packet.isReply])
    simp [pubrec, hexpects]
  | pubrel a =>
    exact hfirst { s with inboundQos2 := s.inboundQos2.erase a.packetId } _ rfl (acked_lookup hs hcur _) (.refl _)
      (by simp [Packet.isReply])
  | subscribe sub =>
    set acc := sub.filters.foldl (subscribeFilter P l.now l.ord w.broker cid sub.subscriptionIdentifiers.head?)
      { session := s } with hacc
    have hout : acc.session.out = s.out := subscribeFilters_out ..
    refine hfirst acc.session (.control (.suback ⟨sub.packetId, acc.reasonCodes⟩)) hout ?_
      (deliverRetained_appends (P := P) l.now w.broker.config.maxQueuedMessages acc.retainedToSend
        (acc.session.push (.control (.suback ⟨sub.packetId, acc.reasonCodes⟩)), 0)) (by simp [Packet.isReply])
    simp only [dispatch, handleSubscribe, fenced, hs, hcur, if_true, addDropped, lookup_setSession, ← hacc]
  | unsubscribe unsub =>
    set r := unsub.filters.foldl (unsubscribeFilter P cid) (s, [], []) with hr
    have hout : r.1.out = s.out := unsubscribeFilters_out ..
    refine hfirst r.1 (.control (.unsuback ⟨unsub.packetId, r.2.1⟩)) hout ?_ (.refl _) (by simp [Packet.isReply])
    simp only [dispatch, handleUnsubscribe, fenced, hs, hcur, if_true, lookup_setSession, ← hr]
  | pingreq =>
    refine hfirst s (.control .pingresp) rfl ?_ (.refl _) rfl
    simp only [dispatch, answer, sendTo, modifySession, hs, lookup_setSession, if_true]
  | _ => cases hexpects

end World

/-! ## Revocations -/

/-- What the connection task has still to take. -/
def OutTx.waiting (tx : OutTx) : List Outgoing := tx.sent.drop tx.received

namespace Session
variable {P : Protocol} {s s' : Session}

/-- The connection task has taken no more than was sent. -/
def ChannelOk (s : Session) : Prop := ∀ tx, s.out = some tx → tx.received ≤ tx.sent.length

theorem Appends.channelOk {Q : Outgoing → Prop} (h : Appends Q s s') (hok : s.ChannelOk) : s'.ChannelOk := by
  obtain ⟨items, h, -⟩ := h
  intro tx' htx'
  rw [h] at htx'
  obtain ⟨tx, htx, rfl⟩ := Option.map_eq_some_iff.1 htx'
  have := hok tx htx
  simp only [List.length_append]
  omega

theorem Appends.launched {now id : Nat} {p : Pending} (h : Launched now s p id s') : Appends (fun _ => True) s s' := by
  obtain ⟨tx, htx, -, hout⟩ := h.out
  exact ⟨[.send (p.render now id)], by rw [hout, htx]; rfl, fun _ _ => trivial⟩

theorem flushQueue_appends (P : Protocol) (now : Nat) (s : Session) :
    Appends (fun _ => True) s (flushQueue P now s).1 := by
  obtain ⟨q, s', he, hs'⟩ := flushLoop_rule P now (fun _ s' _ => Appends (fun _ => True) s s')
    (fun _ _ _ h => h.trans (.of_out rfl)) (fun _ _ _ _ _ h => h) (fun _ _ _ _ _ h => h)
    (fun _ _ _ _ _ _ _ hl h => h.trans (.launched hl)) s.queue s [] (.refl s)
  rw [flushQueue, he]
  exact hs'.trans (.of_out rfl)

theorem resume_channelOk (now : Nat) (ord : Orders) (cfg : Config) (acl : Acl) {req : ConnectRequest} (epoch : Nat)
    (s : Session) (hout : req.out = {}) : (s.apply P (.resume now ord cfg acl req epoch)).1.ChannelOk := by
  set s₁ := s.resumeBound P now cfg acl req epoch with hs₁
  have hok : s₁.ChannelOk := by
    intro tx htx
    rw [hs₁, resumeBound_out, hout] at htx
    cases htx
    exact Nat.zero_le _
  have hresent : Appends (fun _ => True) s₁ (s₁.retransmit ord) :=
    retransmit_rule (Appends (fun _ => True) s₁) (fun _ _ h => h.trans (.push _ _ trivial))
      (fun _ _ h => h.trans (.push _ _ trivial)) ord (.refl s₁)
  simp only [apply, resumeDelivery, ← hs₁]
  split
  · exact (hresent.trans (flushQueue_appends P now _)).channelOk hok
  · exact hok

theorem apply_channelOk (h : s.ChannelOk) {o : Op} (ho : o.isResume = false) : (s.apply P o).1.ChannelOk := by
  have hpush : ∀ (s₁ : Session) item, s₁.out = s.out → (s₁.push item).ChannelOk := fun s₁ item hout =>
    ((Appends.of_out (Q := fun _ => True) hout).trans (.push s₁ item trivial)).channelOk h
  have hflush : ∀ (s₁ : Session) now, s₁.out = s.out → (flushQueue P now s₁).1.ChannelOk := fun s₁ now hout =>
    ((Appends.of_out (Q := fun _ => True) hout).trans (flushQueue_appends P now s₁)).channelOk h
  cases o with
  | deliver now m qos retain subIds maxQueued => exact (deliver_appends now s m qos retain subIds maxQueued).channelOk h
  | control p => exact hpush s _ rfl
  | shutdown rc => exact hpush s _ rfl
  | puback now id => exact hflush _ now rfl
  | pubcomp now id => exact hflush _ now rfl
  | pubrec ack =>
    simp only [apply, pubrec]
    split
    · exact h
    · split
      · exact hpush _ _ rfl
      · split
        · exact h
        · exact hpush _ _ rfl
  | pubrel id => exact hpush _ _ rfl
  | subscribe sub =>
    simp only [apply, upsertSubscription]
    split <;> exact h
  | close =>
    intro tx htx
    cases htx
  | recv =>
    intro tx' htx'
    obtain ⟨tx, htx, rfl⟩ := Option.map_eq_some_iff.1 htx'
    have := h tx htx
    unfold OutTx.recv
    split
    · assumption
    · exact this
  | hangup =>
    intro tx' htx'
    obtain ⟨tx, htx, rfl⟩ := Option.map_eq_some_iff.1 htx'
    exact h tx htx
  | resume => cases ho
  | _ => exact h

end Session

namespace World
open Broker Session
variable {P : Protocol} {w : World} {l : Label} {cid : String} {s : Session}

theorem run_channelOk (P : Protocol) (now : Nat) (cfg : Config) (db : Db) (acl : Acl) (auth : Option Credentials)
    (ls : List Label) : ∀ cid s, (run P (boot P now cfg db acl auth) ls).1.broker.sessions.lookup cid = some s →
      s.ChannelOk := by
  induction ls using List.reverseRecOn with
  | nil =>
    intro cid s hs
    rw [run, Machine.run, boot_lookup] at hs
    split at hs
    · cases hs
    · obtain ⟨row, -, rfl⟩ := Option.map_eq_some_iff.1 hs
      intro tx htx
      cases htx
  | append_singleton ls l ih =>
    rw [run_append]
    refine (step_pacedChange P (run P (boot P now cfg db acl auth) ls).1 l).forall_sessions
      (fun s o ho hs => apply_channelOk hs (Op.isResume_of_steadyAt ho)) (fun req s hsel _ => ?_) (fun req hsel => ?_) (fun cid => ?_) ih
    · exact resume_channelOk l.now l.ord _ _ _ s (run_connect hsel).1
    · intro tx htx
      have hout : (freshSession l.now (run P (boot P now cfg db acl auth) ls).1.broker req).out = some req.out := rfl
      rw [hout, (run_connect hsel).1] at htx
      cases htx
      exact Nat.zero_le _
    · intro tx htx
      cases htx
      exact Nat.zero_le _

/-- The session is left with the Shutdown of a revocation in its channel, or with its channel closed. -/
def LeftShutdown (w : World) (cid : String) : Prop :=
  ∃ s tx, w.broker.sessions.lookup cid = some s ∧ s.out = some tx ∧
    (.shutdown .notAuthorized ∈ tx.waiting ∨ tx.rxOpen = false)

/-- **Revocations**: a session that loses a subscription is told so if and only if its channel has room, or such a
Shutdown waits there already, or nobody reads it any more. -/
theorem shutdown_iff {acl : Acl} {tx : OutTx} (hsel : w.selected l.input = some (.revoke acl)) (he : acl.isEnforced)
    (hs : w.broker.sessions.lookup cid = some s) (hok : s.ChannelOk) (htx : s.out = some tx)
    (hlost : s.unauthorized P acl ≠ []) :
    (step P w l).1.LeftShutdown cid ↔ tx.hasRoom ∨ .shutdown .notAuthorized ∈ tx.waiting ∨ tx.rxOpen = false := by
  obtain ⟨cmds, hlookup⟩ := revokeUnauthorized_lookup (P := P) l.ord he hs
  have hvisit : (revokeVisit P acl cid s cmds).1 = (s.retainAuthorized P acl).push (.shutdown .notAuthorized) := by
    simp only [revokeVisit, List.isEmpty_iff, hlost, if_false]
  have hout : (s.retainAuthorized P acl).out = some tx := htx
  have hstep : (step P w l).1.broker.sessions.lookup cid =
      some ((s.retainAuthorized P acl).push (.shutdown .notAuthorized)) :=
    hvisit ▸ (step_of_selected (P := P) hsel).1 ▸ hlookup
  unfold LeftShutdown
  rw [hstep]
  by_cases hroom : tx.hasRoom
  · have hpush : ((s.retainAuthorized P acl).push (.shutdown .notAuthorized)).out =
        some { tx with sent := tx.sent ++ [.shutdown .notAuthorized] } := by
      simp [push, trySend, hout, OutTx.trySend, hroom]
    have hle := hok tx htx
    refine iff_of_true ⟨_, _, rfl, hpush, .inl ?_⟩ (.inl hroom)
    simp only [OutTx.waiting, List.drop_append, List.mem_append]
    right
    rw [Nat.sub_eq_zero_of_le hle, List.drop_zero]
    exact List.mem_singleton_self _
  · have hpush : ((s.retainAuthorized P acl).push (.shutdown .notAuthorized)).out = some tx := by
      simp [push, trySend, hout, OutTx.trySend, hroom]
    constructor
    · rintro ⟨s', tx', hs', htx', h⟩
      cases hs'
      rw [hpush] at htx'
      cases htx'
      exact .inr h
    · rintro (h | h)
      · exact absurd h hroom
      · exact ⟨_, tx, rfl, hpush, h⟩

/-- **Acknowledgements and control items**: in every reachable state, a packet handled for the current connection that
asks for a reply leaves it in the channel if and only if there are more free slots than copies of its own message the
client is due; and a session that loses a subscription in a reload is left with the Shutdown or a closed channel if and
only if the channel had room, held one already, or was closed. -/
theorem reply_pushed_iff (P : Protocol) (now : Nat) (cfg : Config) (db : Db) (acl₀ : Acl) (auth : Option Credentials)
    (ls : List Label) (w : World) (hw : w = (run P (boot P now cfg db acl₀ auth) ls).1) (l : Label) :
    (∀ cid epoch packet s, w.Handled P l cid epoch packet s → s.expectsReply packet →
      ((∃ i ∈ w.pushed P l cid epoch, packet.isReply i) ↔ w.broker.ownCopies P l.now l.ord cid s packet < s.free)) ∧
    ∀ acl cid s tx, w.selected l.input = some (.revoke acl) → acl.isEnforced → w.broker.sessions.lookup cid = some s →
      s.out = some tx → s.unauthorized P acl ≠ [] →
      ((step P w l).1.LeftShutdown cid ↔
        tx.hasRoom ∨ .shutdown .notAuthorized ∈ tx.waiting ∨ tx.rxOpen = false) := by
  constructor
  · intro cid epoch packet s h hexpects
    exact reply_iff h hexpects
  · intro acl cid s tx hsel he hs htx hlost
    exact shutdown_iff hsel he hs (run_channelOk P now cfg db acl₀ auth ls cid s (hw ▸ hs)) htx hlost

/-- A PINGREQ that waits for a client that has just connected. -/
def pinging : List Label :=
  connecting { clientId := "c", cleanStart := true } ++ [{ input := .call (.packet "c" 1 .pingreq) }]

/-- A client subscribes, then a policy that grants nothing is installed. -/
def withdrawing : List Label :=
  connecting { clientId := "c", cleanStart := true } ++
  sending "c" 1 (.subscribe ⟨1, [{ filter := "a", qos := .atLeastOnce }], []⟩) ++
  [{ input := .call (.reload (some ⟨true, false, []⟩)) }]

/-- The PINGREQ is answered, and the client that loses its subscription is told so. -/
theorem reply_pushed_told :
    (∃ i ∈ (run .reference (boot .reference 0 {} {} .permitAll none) pinging).1.pushed .reference { input := .task 0 } "c" 1,
      Packet.pingreq.isReply i) ∧
    (step .reference (run .reference (boot .reference 0 { aclPath := some "acl" } {} .permitAll none) withdrawing).1
      { input := .task 0 }).1.LeftShutdown "c" := by
  constructor
  · have h : ((run .reference (boot .reference 0 {} {} .permitAll none) pinging).1.broker.sessions.lookup "c").map
        (fun s => (s.epoch, s.isOnline, s.free)) = some (1, true, 1024) := by decide +kernel
    obtain ⟨s, hs, h1⟩ := Option.map_eq_some_iff.1 h
    simp only [Prod.mk.injEq] at h1
    refine ((reply_pushed_iff .reference 0 {} {} .permitAll none pinging _ rfl { input := .task 0 }).1 "c" 1 .pingreq s
      ⟨by decide +kernel, hs, h1.1, h1.2.1, by decide +kernel⟩ rfl).2 ?_
    rw [h1.2.2]
    exact (by decide : 0 < 1024)
  · have h : ((run .reference (boot .reference 0 { aclPath := some "acl" } {} .permitAll none)
        withdrawing).1.broker.sessions.lookup "c").any (fun s => s.out.any (fun tx => decide tx.hasRoom) &&
          !(s.unauthorized .reference ⟨true, false, []⟩).isEmpty) = true := by decide +kernel
    obtain ⟨s, hs, h1⟩ := (Option.any_eq_true _ _).1 h
    obtain ⟨hroom, hlost⟩ := Bool.and_eq_true_iff.1 h1
    obtain ⟨tx, htx, hroom⟩ := (Option.any_eq_true _ _).1 hroom
    have hne : s.unauthorized .reference ⟨true, false, []⟩ ≠ [] := by
      intro hnil
      rw [hnil] at hlost
      cases hlost
    exact ((reply_pushed_iff .reference 0 { aclPath := some "acl" } {} .permitAll none withdrawing _ rfl
      { input := .task 0 }).2 ⟨true, false, []⟩ "c" s tx (by decide +kernel) rfl hs htx hne).2
        (.inl (of_decide_eq_true hroom))

/-- In a full channel the answer to a PINGREQ is lost. -/
theorem Flooded.unanswered {a : Nat} (h : Flooded a outboundChannelCapacity w) :
    ∃ s, (run .reference w [{ input := .call (.packet "c" 1 .pingreq) }]).1.Handled .reference { input := .task 0 } "c" 1
        .pingreq s ∧ s.expectsReply .pingreq ∧
      ¬∃ i ∈ (run .reference w [{ input := .call (.packet "c" 1 .pingreq) }]).1.pushed .reference { input := .task 0 } "c" 1,
        Packet.pingreq.isReply i := by
  obtain ⟨s, hs, hf⟩ := h.session
  have h1 : (run .reference w [{ input := .call (.packet "c" 1 .pingreq) }]).1 =
      { w with tasks := [.dispatch "c" 1 .pingreq] } := by
    simp [run, Machine.run, World.step, absorb, enter, handlePacket, hs, hf.epoch, h.tasks]
  have hsel : ({ w with tasks := [.dispatch "c" 1 .pingreq] } : World).selected (.task 0) =
      some (.dispatch "c" 1 .pingreq) := rfl
  obtain ⟨tx, htx, -⟩ := hf.channel
  have hh : ({ w with tasks := [.dispatch "c" 1 .pingreq] } : World).Handled .reference { input := .task 0 } "c" 1
      .pingreq s := by
    refine ⟨hsel, hs, hf.epoch, by rw [isOnline, htx]; rfl, ?_⟩
    rw [(step_of_selected (l := { input := .task 0 }) hsel).2]
    simp [runTask, dispatch, answer]
  rw [h1]
  refine ⟨s, hh, rfl, fun hreply => ?_⟩
  have hfree := (reply_iff hh rfl).1 hreply
  have hroom := hf.room.1 (free_pos_iff.1 (Nat.zero_lt_of_lt hfree))
  exact absurd hroom (lt_irrefl _)

/-- A client that has subscribed to 1023 retained messages and taken none of them sends a PINGREQ. -/
theorem reply_lost :
    ∃ s, (run .reference (boot .reference 0 {} floodDb .permitAll none)
        (floodStart ++ sending "c" 1 (.subscribe (floodSubscribe 1023)) ++
          [{ input := .call (.packet "c" 1 .pingreq) }])).1.Handled .reference { input := .task 0 } "c" 1 .pingreq s ∧
      s.expectsReply .pingreq ∧
      ¬∃ i ∈ (run .reference (boot .reference 0 {} floodDb .permitAll none)
        (floodStart ++ sending "c" 1 (.subscribe (floodSubscribe 1023)) ++
          [{ input := .call (.packet "c" 1 .pingreq) }])).1.pushed .reference { input := .task 0 } "c" 1,
        Packet.pingreq.isReply i := by
  have h := flooded_start.subscribe 1023 (by decide) (by decide)
  rw [run_append, run_append]
  exact Flooded.unanswered h

end World

end WispMQ
