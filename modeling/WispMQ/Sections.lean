import WispMQ.Moves
/-!
# Every critical section as a list of moves

One lemma per handler says which operations it makes on which sessions (`…_moves`), and `World.Change`
collects them: an invariant of sessions, and any claim about what a step can do to one, starts from
`World.step_change` and never unfolds a handler again.
-/

namespace WispMQ
open KeyMap

namespace Broker
variable {P : Protocol}

theorem sendTo_control (b : Broker) (cid : String) (p : Packet) :
    (b.sendTo cid (.control p)).fleet = (Move.op cid (.control p)).apply P b.fleet :=
  fleet_modifySession P b cid _ _ fun _ => rfl

/-! ## One session in the map -/

section Lookup
variable {b : Broker} {cid c : String} {s : Session}

theorem lookup_setSession_ne (b : Broker) (s : Session) (hc : cid ≠ c) :
    (b.setSession c s).sessions.lookup cid = b.sessions.lookup cid := AList.lookup_insert_ne hc

theorem modifySession_lookup_self (g : Session → Session) (hs : b.sessions.lookup cid = some s) :
    (b.modifySession cid g).sessions.lookup cid = some (g s) := by
  simp [modifySession, hs, setSession]

theorem modifySession_lookup_ne (b : Broker) (g : Session → Session) (hc : cid ≠ c) :
    (b.modifySession c g).sessions.lookup cid = b.sessions.lookup cid := by
  unfold modifySession
  split
  · exact lookup_setSession_ne b _ hc
  · rfl

theorem storeRetained_sessions (b : Broker) (origin : Origin) (m : Message) :
    (b.storeRetained origin m).1.sessions = b.sessions := by
  unfold storeRetained
  split
  · split <;> rfl
  · rfl

/-- The acknowledgement of a PUBLISH, pushed if its QoS has one. -/
theorem acknowledge_lookup_self (qos : QoS) (ack : PubAck) (hs : b.sessions.lookup cid = some s) :
    (b.acknowledge cid qos ack).sessions.lookup cid =
      some (((publishAck qos ack).map fun q => s.push (.control q)).getD s) := by
  unfold acknowledge
  cases publishAck qos ack with
  | none => exact hs
  | some q => exact modifySession_lookup_self _ hs

theorem acknowledge_lookup_ne (qos : QoS) (ack : PubAck) (hc : cid ≠ c) :
    (b.acknowledge c qos ack).sessions.lookup cid = b.sessions.lookup cid := by
  unfold acknowledge
  cases publishAck qos ack with
  | none => rfl
  | some q => exact modifySession_lookup_ne b _ hc

end Lookup

/-! ## Routing -/

theorem deliver_moves (now maxQueued : Nat) (m : Message) (qos : QoS) (retain : Bool) (subIds : List Nat)
    {sessions : KeyMap String Session} {n e : Nat} {cid : String} {s : Session}
    (h : sessions.lookup cid = some s) :
    let r := deliverToSession P now s m qos retain subIds maxQueued
    Fleet.Reaches P (Move.IsOp (Op.routingAt now maxQueued)) ⟨(sessions.lookup ·), n, e⟩
      ⟨((sessions.insert cid r.1).lookup ·), n + r.2.toNat, e⟩ := by
  have h1 : Fleet.Reaches P (Move.IsOp (Op.routingAt now maxQueued)) ⟨(sessions.lookup ·), n, e⟩ _ :=
    .single (.op cid (.deliver now m qos retain subIds maxQueued)) (Op.routingAt_deliver ..)
  rw [Fleet.apply_op (f := ⟨(sessions.lookup ·), n, e⟩) h] at h1
  refine h1.trans (.of_eq ?_)
  ext1
  · funext c; simp [Session.apply, lookup_insert_if, Function.update_apply]
  · rfl
  · rfl

theorem routeVisit_moves (now maxQueued : Nat) (publisher : Option String) (m : Message) (n e : Nat)
    (sessions : KeyMap String Session) (cid : String) (s : Session) (acc : RouteAcc)
    (h : sessions.lookup cid = some s) :
    let r := routeVisit P now maxQueued publisher m cid s acc
    Fleet.Reaches P (Move.IsOp (Op.routingAt now maxQueued)) ⟨(sessions.lookup ·), n + acc.dropped, e⟩
      ⟨((sessions.insert cid r.1).lookup ·), n + r.2.dropped, e⟩ := by
  simp only [routeVisit]
  split
  · refine .of_eq ?_
    ext1
    · funext c
      by_cases hc : c = cid
      · subst hc; simp [h]
      · simp [hc]
    · rfl
    · rfl
  · rw [← Nat.add_assoc]
    exact deliver_moves now maxQueued m _ _ _ h

theorem deliverChosen_moves (now maxQueued : Nat) (m : Message) (n e : Nat) :
    ∀ (cs : List Candidate) (acc : KeyMap String Session × Nat),
      let r := cs.foldl (deliverChosen P now maxQueued m) acc
      Fleet.Reaches P (Move.IsOp (Op.routingAt now maxQueued)) ⟨(acc.1.lookup ·), n + acc.2, e⟩
        ⟨(r.1.lookup ·), n + r.2, e⟩
  | [], _ => .refl _
  | c :: cs, acc => by
    refine .trans ?_ (deliverChosen_moves now maxQueued m n e cs _)
    cases h : acc.1.lookup c.clientId with
    | none => simp only [deliverChosen, h]; exact .refl _
    | some s =>
      simp only [deliverChosen, h]
      rw [← Nat.add_assoc]
      exact deliver_moves now maxQueued m _ _ _ h

/-- `route` only delivers. -/
theorem route_moves (now : Nat) (ord : Orders) (b : Broker) (publisher : Option String) (m : Message) :
    Fleet.Reaches P (Move.IsOp (Op.routingAt now b.config.maxQueuedMessages)) b.fleet
      (route P now ord b publisher m).1.fleet := by
  unfold route
  split
  · exact .refl _
  · set maxQueued := b.config.maxQueuedMessages
    set pass := iterMut (routeVisit P now maxQueued publisher m) ord.sessions b.sessions {} with hpass
    have h1 := iterMut_rel (routeVisit P now maxQueued publisher m)
      (fun x y => Fleet.Reaches P (Move.IsOp (Op.routingAt now maxQueued))
        ⟨(x.1.lookup ·), b.metrics.publishDropped + x.2.dropped, b.nextEpoch⟩
        ⟨(y.1.lookup ·), b.metrics.publishDropped + y.2.dropped, b.nextEpoch⟩)
      (fun _ => .refl _) (fun _ _ _ => .trans)
      (fun sessions cid s acc h => routeVisit_moves now maxQueued publisher m _ _ sessions cid s acc h)
      ord.sessions b.sessions {}
    rw [← hpass] at h1
    exact h1.trans (deliverChosen_moves now maxQueued m b.metrics.publishDropped b.nextEpoch _ (pass.1, pass.2.dropped))

theorem route_config (now : Nat) (ord : Orders) (b : Broker) (publisher : Option String) (m : Message) :
    (route P now ord b publisher m).1.config = b.config := by
  unfold route
  split <;> rfl

theorem storeRetained_config (b : Broker) (origin : Origin) (m : Message) :
    (b.storeRetained origin m).1.config = b.config := by
  unfold storeRetained
  split
  · split <;> rfl
  · rfl

@[simp] theorem storeRetained_fleet (b : Broker) (origin : Origin) (m : Message) :
    (b.storeRetained origin m).1.fleet = b.fleet := by
  unfold storeRetained
  split
  · split <;> rfl
  · rfl

theorem publishMessage_moves (now : Nat) (ord : Orders) (b : Broker) (origin : Origin)
    (publisher : Option String) (m : Message) :
    Fleet.Reaches P (Move.IsOp (Op.routingAt now b.config.maxQueuedMessages)) b.fleet
      (publishMessage P now ord b origin publisher m).broker.fleet := by
  have h := route_moves (P := P) now ord (b.storeRetained origin m).1 publisher m
  rwa [storeRetained_fleet, storeRetained_config] at h

theorem publishSys_moves (now : Nat) (ord : Orders) : ∀ (es : List (String × Bytes)) (b : Broker),
    Fleet.Reaches P (Move.IsOp (Op.routingAt now b.config.maxQueuedMessages)) b.fleet
      (publishSys P now ord es b).broker.fleet
  | [], _ => .refl _
  | (topic, payload) :: es, b => by
    have hrest := publishSys_moves now ord es
      (route P now ord { b with retained := b.retained.insert topic (sysMessage topic payload) } none
        (sysMessage topic payload)).1
    rw [route_config] at hrest
    exact (route_moves now ord { b with retained := b.retained.insert topic (sysMessage topic payload) } none
      (sysMessage topic payload)).trans hrest

/-! ## PUBLISH -/

theorem acknowledge_moves (now maxQueued : Nat) (b : Broker) (cid : String) (qos : QoS) (ack : PubAck) :
    Fleet.Reaches P (Move.IsOp (Op.routingAt now maxQueued)) b.fleet (b.acknowledge cid qos ack).fleet := by
  unfold acknowledge
  split
  · rw [sendTo_control (P := P)]
    exact .single _ rfl
  · exact .refl _

theorem routePublish_moves (now : Nat) (ord : Orders) (b : Broker) (cid : String) (epoch : Nat) {s : Session}
    (h : b.sessions.lookup cid = some s) (publish : Publish) (m : Message) :
    Fleet.Reaches P (Move.IsOp (Op.routingAt now b.config.maxQueuedMessages)) b.fleet
      (routePublish P now ord b cid epoch s publish m).1.fleet := by
  simp only [routePublish]
  split
  · exact route_moves now ord b (some cid) m
  · exact (route_moves now ord b (some cid) m).trans (acknowledge_moves _ _ _ _ _ _)
  · split
    · exact acknowledge_moves _ _ _ _ _ _
    · have h1 : Fleet.Reaches P (Move.IsOp (Op.routingAt now b.config.maxQueuedMessages)) b.fleet _ :=
        .single (.op cid (.inbound (publish.packetId.getD 0))) rfl
      rw [← fleet_applied P h] at h1
      refine h1.trans (.trans ?_ (acknowledge_moves _ _ _ _ _ _))
      exact route_moves now ord
        (b.setSession cid { s with inboundQos2 := insert (publish.packetId.getD 0) s.inboundQos2 }) (some cid) m

theorem acceptPublish_moves (now : Nat) (ord : Orders) (b : Broker) (cid : String) (epoch : Nat) {s : Session}
    (h : b.sessions.lookup cid = some s) (publish : Publish) :
    Fleet.Reaches P (Move.IsOp (Op.routingAt now b.config.maxQueuedMessages)) b.fleet
      (acceptPublish P now ord b cid epoch s publish).broker.fleet := by
  unfold acceptPublish
  split
  · exact .refl _
  split
  · exact .refl _
  split
  · exact acknowledge_moves _ _ _ _ _ _
  · have hs : (b.storeRetained (.publish cid epoch) (Message.fromPublish now publish)).1.sessions.lookup cid
        = some s := by
      rw [← fleet_session, storeRetained_fleet, fleet_session, h]
    have h1 := routePublish_moves (P := P) now ord _ cid epoch hs publish (Message.fromPublish now publish)
    rwa [storeRetained_fleet, storeRetained_config] at h1

/-- Resolving an alias leaves the session as it is, or remembers one alias. -/
theorem resolveAlias_ok {cfg : Config} {s s' : Session} {publish publish' : Publish}
    (h : resolveAlias cfg s publish = .ok (s', publish')) :
    s' = s ∨ ∃ a, s' = (s.apply P (.setAlias a publish.topic)).1 := by
  unfold resolveAlias at h
  split at h
  · cases h; exact .inl rfl
  · split at h
    · cases h
    · split at h
      · split at h <;> cases h
        exact .inl rfl
      · cases h; exact .inr ⟨_, rfl⟩

/-- The topic is all that an alias brings in. -/
theorem resolveAlias_publish {cfg : Config} {s s' : Session} {publish publish' : Publish}
    (h : resolveAlias cfg s publish = .ok (s', publish')) : ∃ topic, publish' = { publish with topic := topic } := by
  unfold resolveAlias at h
  split at h
  · cases h; exact ⟨_, rfl⟩
  · split at h
    · cases h
    · split at h
      · split at h <;> cases h
        exact ⟨_, rfl⟩
      · cases h; exact ⟨_, rfl⟩

/-- What is left of a PUBLISH after the checks of its flags, the epoch and its alias: a DISCONNECT, or
`acceptPublish` on the session with its alias remembered. -/
theorem handlePublish_cases (P : Protocol) (now : Nat) (ord : Orders) (b : Broker) (cid : String) (epoch : Nat)
    (publish : Publish) :
    (∃ rc, handlePublish P now ord b cid epoch publish =
      { b with metrics.publishReceived := b.metrics.publishReceived + 1 }.answer cid epoch (.serverDisconnect rc)) ∨
    ∃ s s' publish', b.sessions.lookup cid = some s ∧ s.epoch = epoch ∧
      resolveAlias b.config s publish = .ok (s', publish') ∧
      handlePublish P now ord b cid epoch publish = acceptPublish P now ord
        ({ b with metrics.publishReceived := b.metrics.publishReceived + 1 }.setSession cid s') cid epoch s' publish' := by
  simp only [handlePublish]
  split
  · exact .inl ⟨_, rfl⟩
  split
  · exact .inl ⟨_, rfl⟩
  simp only [fenced]
  split
  · rename_i s hs
    split
    · rename_i he
      split
      · exact .inl ⟨_, rfl⟩
      · rename_i s' publish' hr
        exact .inr ⟨s, s', publish', hs, he, hr, rfl⟩
    · exact .inl ⟨_, rfl⟩
  · exact .inl ⟨_, rfl⟩

theorem resolveAlias_moves (now maxQueued : Nat) {b : Broker} {cid : String} {s s' : Session}
    {publish publish' : Publish} (hs : b.sessions.lookup cid = some s)
    (hr : resolveAlias b.config s publish = .ok (s', publish')) :
    Fleet.Reaches P (Move.IsOp (Op.routingAt now maxQueued)) b.fleet
      ({ b with metrics.publishReceived := b.metrics.publishReceived + 1 }.setSession cid s').fleet := by
  set b' := { b with metrics.publishReceived := b.metrics.publishReceived + 1 }
  have hb : b'.fleet = b.fleet := rfl
  rcases resolveAlias_ok (P := P) hr with rfl | ⟨a, rfl⟩
  · exact .of_eq ((fleet_setSession_self hs).trans hb)
  · rw [← hb]
    have := fleet_applied P hs (.setAlias a publish.topic)
    exact .trans (.single (.op cid (.setAlias a publish.topic)) rfl) (.of_eq this)

theorem handlePublish_moves (now : Nat) (ord : Orders) (b : Broker) (cid : String) (epoch : Nat)
    (publish : Publish) :
    Fleet.Reaches P (Move.IsOp (Op.routingAt now b.config.maxQueuedMessages)) b.fleet
      (handlePublish P now ord b cid epoch publish).broker.fleet := by
  rcases handlePublish_cases P now ord b cid epoch publish with ⟨rc, he⟩ | ⟨s, s', publish', hs, -, hr, he⟩
  · rw [he]
    exact .refl _
  · rw [he]
    have h := acceptPublish_moves (P := P) now ord
      ({ b with metrics.publishReceived := b.metrics.publishReceived + 1 }.setSession cid s') cid epoch (s := s')
      (by simp [setSession]) publish'
    exact (resolveAlias_moves _ _ hs hr).trans h

/-! ## Acknowledgements, SUBSCRIBE and UNSUBSCRIBE -/

theorem acked_moves (b : Broker) (cid : String) (epoch : Nat) {f : Session → Session × Nat} {o : Op}
    (hf : ∀ s : Session, f s = s.apply P o) :
    (b.acked cid epoch f).broker.fleet = b.fleet ∨
      ∃ s, b.sessions.lookup cid = some s ∧ s.epoch = epoch ∧
        (b.acked cid epoch f).broker.fleet = (Move.op cid o).apply P b.fleet := by
  cases hs : b.sessions.lookup cid with
  | none => exact .inl (by simp [acked, hs, answer])
  | some s =>
    by_cases he : s.epoch = epoch
    · refine .inr ⟨s, rfl, he, ?_⟩
      simp only [acked, hs, he, if_true, hf, answer]
      exact fleet_applied P hs o
    · exact .inl (by simp [acked, hs, he, answer])

/-- The sessions of a fenced handler, whose body works on the session alone. -/
theorem fenced_moves {ok : Move → Prop} {b : Broker} {cid : String} {epoch : Nat} {body : Session → Outcome}
    (h : ∀ s, b.sessions.lookup cid = some s → s.epoch = epoch →
      Fleet.Reaches P ok b.fleet (body s).broker.fleet) :
    Fleet.Reaches P ok b.fleet (b.fenced cid epoch body).broker.fleet := by
  unfold fenced
  split
  · rename_i s hs
    split
    · rename_i he; exact h s hs he
    · exact .refl _
  · exact .refl _

/-- A handler that puts back what a list of operations leaves of the session. -/
theorem setSession_moves {ok : Move → Prop} {b : Broker} {cid : String} {s : Session} (os : List Op)
    (h : b.sessions.lookup cid = some s) (hok : ∀ o ∈ os, ok (.op cid o)) :
    Fleet.Reaches P ok b.fleet
      ((b.setSession cid (s.applyAll P os).1).addDropped (s.applyAll P os).2).fleet := by
  rw [fleet_addDropped, fleet_setSession]
  exact Fleet.Reaches.ops h hok

theorem subscribeFilter_session (now : Nat) (ord : Orders) (b : Broker) (cid : String) (subId : Option Nat)
    (acc : SubscribeAcc) (f : TopicFilter) :
    ∃ os : List Op, (∀ o ∈ os, o.routineAt now b.config.maxQueuedMessages) ∧
      ((subscribeFilter P now ord b cid subId acc f).session, 0) = acc.session.applyAll P os := by
  unfold subscribeFilter
  split
  · exact ⟨[], by simp, rfl⟩
  · split
    · exact ⟨[], by simp, rfl⟩
    · split
      · exact ⟨[], by simp, rfl⟩
      · exact ⟨[.subscribe _], List.forall_mem_singleton.2 rfl, rfl⟩

theorem subscribeFilters_session (now : Nat) (ord : Orders) (b : Broker) (cid : String) (subId : Option Nat) :
    ∀ (fs : List TopicFilter) (acc : SubscribeAcc),
      ∃ os : List Op, (∀ o ∈ os, o.routineAt now b.config.maxQueuedMessages) ∧
        ((fs.foldl (subscribeFilter P now ord b cid subId) acc).session, 0) = acc.session.applyAll P os
  | [], acc => ⟨[], by simp, rfl⟩
  | f :: fs, acc => by
    obtain ⟨os, hos, h⟩ := subscribeFilter_session (P := P) now ord b cid subId acc f
    obtain ⟨os', hos', h'⟩ := subscribeFilters_session now ord b cid subId fs
      (subscribeFilter P now ord b cid subId acc f)
    refine ⟨os ++ os', by simpa [or_imp, forall_and] using ⟨hos, hos'⟩, ?_⟩
    rw [Session.applyAll_append, ← h, ← h']
    rfl

theorem deliverRetained_session (now maxQueued : Nat) :
    ∀ (es : List (Message × QoS × List Nat)) (acc : Session × Nat),
      ∃ os : List Op, (∀ o ∈ os, o.routingAt now maxQueued) ∧
        es.foldl (deliverRetained P now maxQueued) acc =
          ((acc.1.applyAll P os).1, acc.2 + (acc.1.applyAll P os).2)
  | [], acc => ⟨[], by simp, rfl⟩
  | e :: es, acc => by
    obtain ⟨os, hos, h⟩ := deliverRetained_session now maxQueued es (deliverRetained P now maxQueued acc e)
    refine ⟨.deliver now e.1 e.2.1 true e.2.2 maxQueued :: os, List.forall_mem_cons.2 ⟨Op.routingAt_deliver .., hos⟩, ?_⟩
    rw [List.foldl_cons, h]
    simp [Session.applyAll, Session.apply, deliverRetained, Nat.add_assoc]

theorem handleSubscribe_moves (now : Nat) (ord : Orders) (b : Broker) (cid : String) (epoch : Nat)
    (sub : Subscribe) :
    Fleet.Reaches P (Move.IsOp (Op.routineAt now b.config.maxQueuedMessages)) b.fleet
      (handleSubscribe P now ord b cid epoch sub).broker.fleet := by
  refine fenced_moves fun s hs _ => ?_
  obtain ⟨os, hos, h⟩ := subscribeFilters_session (P := P) now ord b cid sub.subscriptionIdentifiers.head?
    sub.filters { session := s }
  set acc := sub.filters.foldl (subscribeFilter P now ord b cid sub.subscriptionIdentifiers.head?)
    { session := s }
  set suback : Op := .control (.suback ⟨sub.packetId, acc.reasonCodes⟩)
  obtain ⟨os', hos', h'⟩ := deliverRetained_session (P := P) now b.config.maxQueuedMessages acc.retainedToSend
    (acc.session.push (.control (.suback ⟨sub.packetId, acc.reasonCodes⟩)), 0)
  have hall : s.applyAll P (os ++ suback :: os') =
      acc.retainedToSend.foldl (deliverRetained P now b.config.maxQueuedMessages)
        (acc.session.push (.control (.suback ⟨sub.packetId, acc.reasonCodes⟩)), 0) := by
    rw [Session.applyAll_append, ← h, h']
    simp [Session.applyAll, Session.apply, suback]
  have hok : ∀ o ∈ os ++ suback :: os', o.routineAt now b.config.maxQueuedMessages := by
    intro o ho
    rcases List.mem_append.1 ho with ho | ho
    · exact hos o ho
    · rcases List.mem_cons.1 ho with rfl | ho
      · rfl
      · exact Op.routineAt_of_routingAt (hos' o ho)
  have hmv : Fleet.Reaches P (Move.IsOp (Op.routineAt now b.config.maxQueuedMessages)) b.fleet _ := setSession_moves _ hs hok
  rwa [hall] at hmv

theorem unsubscribeFilters_session {now maxQueued : Nat} (cid : String) :
    ∀ (fs : List String) (acc : Session × List ReasonCode × List Command),
      ∃ os : List Op, (∀ o ∈ os, o.routineAt now maxQueued) ∧
        ((fs.foldl (unsubscribeFilter P cid) acc).1, 0) = acc.1.applyAll P os
  | [], acc => ⟨[], by simp, rfl⟩
  | f :: fs, acc => by
    obtain ⟨os, hos, h⟩ := unsubscribeFilters_session cid fs (unsubscribeFilter P cid acc f)
    refine ⟨.unsubscribe (unsubscribeTarget P f).2 (unsubscribeTarget P f).1 :: os, ?_, ?_⟩
    · exact List.forall_mem_cons.2 ⟨rfl, hos⟩
    · rw [List.foldl_cons, h]
      simp [Session.applyAll, Session.apply, unsubscribeFilter]

theorem handleUnsubscribe_moves {now maxQueued : Nat} (b : Broker) (cid : String) (epoch : Nat) (unsub : Unsubscribe) :
    Fleet.Reaches P (Move.IsOp (Op.routineAt now maxQueued)) b.fleet (handleUnsubscribe P b cid epoch unsub).broker.fleet := by
  refine fenced_moves fun s hs _ => ?_
  obtain ⟨os, hos, h⟩ := unsubscribeFilters_session (P := P) cid unsub.filters (s, [], [])
  set r := unsub.filters.foldl (unsubscribeFilter P cid) (s, [], [])
  set unsuback : Op := .control (.unsuback ⟨unsub.packetId, r.2.1⟩)
  have hok : ∀ o ∈ os ++ [unsuback], o.routineAt now maxQueued := by
    intro o ho
    rcases List.mem_append.1 ho with ho | ho
    · exact hos o ho
    · rw [List.mem_singleton.1 ho]; rfl
  have hmv : Fleet.Reaches P (Move.IsOp (Op.routineAt now maxQueued)) b.fleet _ := setSession_moves _ hs hok
  rw [Session.applyAll_append, ← h] at hmv
  exact hmv

/-! ## Lifecycle -/

theorem disconnectExpiry_moves {now maxQueued : Nat} (b : Broker) (cid : String) (epoch newExpiry : Nat) (publishWill : Bool) :
    Fleet.Reaches P (Move.IsOp (Op.routineAt now maxQueued)) b.fleet
      (disconnectExpiry b cid epoch newExpiry publishWill).broker.fleet := by
  unfold disconnectExpiry
  split
  · exact .refl _
  · rename_i s hs
    have h := fleet_applied P hs (.setExpiry (min newExpiry b.config.maxSessionExpiry))
    exact .trans (.single (.op cid (.setExpiry _)) rfl) (.of_eq h)

theorem handleClientDisconnect_broker (b : Broker) (cid : String) (epoch : Nat) (d : Disconnect) :
    (handleClientDisconnect b cid epoch d).broker = b := by
  unfold handleClientDisconnect fenced
  split
  · split
    · split <;> rfl
    · rfl
  · rfl

theorem handleConnectionClosed_moves (clock : Nat) (b : Broker) (cid : String) (epoch : Nat) (publishWill : Bool) :
    (handleConnectionClosed clock b cid epoch publishWill).broker.fleet = b.fleet ∨
      (handleConnectionClosed clock b cid epoch publishWill).broker.fleet = (Move.op cid .close).apply P b.fleet := by
  unfold handleConnectionClosed
  split
  · exact .inl rfl
  · rename_i s hs
    split
    · exact .inr (fleet_applied P hs .close)
    · exact .inl rfl

theorem removeIfOffline_moves (b : Broker) (cid : String) (epoch : Nat) :
    (removeIfOffline b cid epoch).broker.fleet = b.fleet ∨
      ∃ s, b.sessions.lookup cid = some s ∧ s.epoch = epoch ∧ s.out = none ∧
        (removeIfOffline b cid epoch).broker.fleet = (Move.remove cid).apply P b.fleet := by
  unfold removeIfOffline
  split
  · exact .inl rfl
  · rename_i s hs
    split
    · rename_i h
      simp only [Session.isOnline, Bool.and_eq_true, decide_eq_true_eq, Bool.not_eq_true',
        Option.isSome_eq_false_iff, Option.isNone_iff_eq_none] at h
      exact .inr ⟨s, hs, h.1, h.2, fleet_removeSession b cid⟩
    · exact .inl rfl

theorem revokeVisit_moves {now maxQueued : Nat} (acl : Acl) (n e : Nat) (sessions : KeyMap String Session) (cid : String)
    (s : Session) (cmds : List Command) (h : sessions.lookup cid = some s) :
    Fleet.Reaches P (Move.IsOp (Op.routineAt now maxQueued)) ⟨(sessions.lookup ·), n, e⟩
      ⟨((sessions.insert cid (revokeVisit P acl cid s cmds).1).lookup ·), n, e⟩ := by
  have key : ∀ os : List Op, (∀ o ∈ os, o.routineAt now maxQueued) →
      s.applyAll P os = ((revokeVisit P acl cid s cmds).1, 0) →
      Fleet.Reaches P (Move.IsOp (Op.routineAt now maxQueued)) ⟨(sessions.lookup ·), n, e⟩
        ⟨((sessions.insert cid (revokeVisit P acl cid s cmds).1).lookup ·), n, e⟩ := by
    intro os hos hs
    have hmv : Fleet.Reaches P (Move.IsOp (Op.routineAt now maxQueued)) ⟨(sessions.lookup ·), n, e⟩ _ :=
      Fleet.Reaches.ops h hos
    refine hmv.trans (.of_eq ?_)
    ext1
    · funext c; simp [hs, lookup_insert_if, Function.update_apply]
    · simp [hs]
    · rfl
  by_cases hr : (s.unauthorized P acl).isEmpty
  · exact key [.revoke acl] (List.forall_mem_singleton.2 rfl)
      (by simp [revokeVisit, hr, Session.applyAll, Session.apply])
  · exact key [.revoke acl, .shutdown .notAuthorized] (List.forall_mem_cons.2 ⟨rfl, List.forall_mem_singleton.2 rfl⟩)
      (by simp [revokeVisit, hr, Session.applyAll, Session.apply])

theorem revokeUnauthorized_moves {now maxQueued : Nat} (ord : Orders) (b : Broker) (acl : Acl) :
    Fleet.Reaches P (Move.IsOp (Op.routineAt now maxQueued)) b.fleet (revokeUnauthorized P ord b acl).broker.fleet := by
  unfold revokeUnauthorized
  split
  · exact .refl _
  · exact iterMut_rel (revokeVisit P acl)
      (fun x y => Fleet.Reaches P (Move.IsOp (Op.routineAt now maxQueued))
        ⟨(x.1.lookup ·), b.metrics.publishDropped, b.nextEpoch⟩ ⟨(y.1.lookup ·), b.metrics.publishDropped, b.nextEpoch⟩)
      (fun _ => .refl _) (fun _ _ _ => .trans)
      (fun sessions cid s cmds h => revokeVisit_moves acl _ _ sessions cid s cmds h) ord.sessions b.sessions []

/-! ## CONNECT and bridges -/

/-- The session a CONNECT creates. -/
def freshSession (now : Nat) (b : Broker) (req : ConnectRequest) : Session :=
  ((Session.new req.clientId (requestedExpiry b.config req)).bind b.config req b.nextEpoch).setWill now req.connect

/-- The session `register_bridge` creates. -/
def bridgeSession (b : Broker) (cid : String) : Session :=
  { Session.new cid 0 with epoch := b.nextEpoch, identity := some "$bridge", out := some {} }

/-- The move of an accepted CONNECT. -/
def connectMove (now : Nat) (ord : Orders) (b : Broker) (req : ConnectRequest) : Move :=
  if (b.claimed req).2 then .op req.clientId (.resume now ord b.config b.acl req b.nextEpoch)
  else .create req.clientId (freshSession now b req)

theorem claimed_present {b : Broker} {req : ConnectRequest} (h : (b.claimed req).2) :
    req.connect.cleanStart = false ∧ ∃ s, b.sessions.lookup req.clientId = some s ∧
      (b.claimed req).1 = s.takenOver req.identity := by
  cases hc : req.connect.cleanStart <;> cases hs : b.sessions.lookup req.clientId <;>
    simp_all [claimed]

theorem claimed_absent {b : Broker} {req : ConnectRequest} (h : (b.claimed req).2 = false) :
    (b.claimed req).1 = Session.new req.clientId (requestedExpiry b.config req) := by
  cases hc : req.connect.cleanStart <;> cases hs : b.sessions.lookup req.clientId <;>
    simp_all [claimed]

theorem finishConnect_moves (now : Nat) (ord : Orders) (b : Broker) (req : ConnectRequest) :
    (finishConnect P now ord b req).broker.fleet = ((connectMove now ord b req).apply P b.fleet).tick := by
  have hfleet : (finishConnect P now ord b req).broker.fleet =
      ⟨Function.update b.fleet.session req.clientId
          (some (resumed P now ord (b.claimed req).2 (boundSession P now b req)).1),
        b.fleet.dropped + (resumed P now ord (b.claimed req).2 (boundSession P now b req)).2,
        b.fleet.nextEpoch + 1⟩ := by
    ext1
    · funext c; simp [finishConnect, fleet, lookup_insert_if, Function.update_apply]
    · rfl
    · rfl
  rw [hfleet]
  cases hp : (b.claimed req).2 with
  | true =>
    obtain ⟨-, s, hs, hc⟩ := claimed_present hp
    simp only [connectMove, hp, if_true]
    rw [Fleet.apply_op (f := b.fleet) hs]
    simp [resumed, boundSession, hp, hc, Session.apply, Session.resumeBound, Fleet.tick]
  | false =>
    simp [connectMove, hp, Move.apply, Fleet.set, Fleet.tick, resumed, boundSession, claimed_absent hp, reauthorize,
      freshSession]

theorem startConnect_fleet (now : Nat) (b : Broker) (connect : Connect) (out : OutTx) (identity : Option String) :
    (startConnect P now b connect out identity).broker.fleet = b.fleet := by
  rcases startConnect_cases (P := P) now b connect out identity with ⟨rc, h⟩ | ⟨_, _, -, -, -, ⟨-, h⟩ | ⟨-, -, h⟩⟩
  · exact congrArg (fun o => o.broker.fleet) h
  · exact congrArg (fun o => o.broker.fleet) h
  · exact congrArg (fun o => o.broker.fleet) h

end Broker

/-! ## One step -/

namespace World
open Broker

/-- The operation an acknowledgement packet asks for. -/
def ackOp (now : Nat) : Packet → Option Op
  | .puback a => some (.puback now a.packetId)
  | .pubrec a => some (.pubrec a)
  | .pubcomp a => some (.pubcomp now a.packetId)
  | _ => none

theorem isResume_ackOp {now : Nat} {packet : Packet} {o : Op} (h : ackOp now packet = some o) : o.isResume = false := by
  cases packet <;> simp only [ackOp, Option.some.injEq, reduceCtorEq] at h <;> subst h <;> rfl

/-- What the step `l` makes of the sessions: the fleet after it. -/
inductive Change (P : Protocol) (w : World) (l : Label) : Fleet → Prop
  /-- Any operations that are neither acknowledgements nor takeovers. -/
  | routine {f : Fleet} (h : Fleet.Reaches P (Move.IsOp Op.isRoutine) w.broker.fleet f) : Change P w l f
  /-- An acknowledgement of the session's current connection. -/
  | ack {cid : String} {epoch : Nat} {packet : Packet} {o : Op} {s : Session}
      (hsel : w.selected l.input = some (.dispatch cid epoch packet)) (ho : ackOp l.now packet = some o)
      (hs : w.broker.sessions.lookup cid = some s) (he : s.epoch = epoch) :
      Change P w l ((Move.op cid o).apply P w.broker.fleet)
  /-- An accepted CONNECT, with the next epoch. -/
  | connect {req : ConnectRequest} (hsel : w.selected l.input = some (.connect req)) :
      Change P w l ((connectMove l.now l.ord w.broker req).apply P w.broker.fleet).tick
  /-- A bridge registers, with the next epoch. -/
  | bridge {name : String} (hin : l.input = .call (.registerBridge name)) :
      Change P w l
        ((Move.create (bridgeClient name) (bridgeSession w.broker (bridgeClient name))).apply P w.broker.fleet).tick
  /-- An offline session, or a bridge's, is removed. -/
  | removed {cid : String} {s : Session} (hs : w.broker.sessions.lookup cid = some s)
      (h : s.out = none ∨ ∃ name, cid = bridgeClient name)
      (hby : (∃ t, w.selected l.input = some t ∧ Task.removes cid s.epoch t) ∨ reservedClientId cid) :
      Change P w l ((Move.remove cid).apply P w.broker.fleet)

variable {P : Protocol} {w : World} {l : Label}

/-- The moves that give a session a connection or take it away. -/
inductive Rebinds (w : World) (l : Label) : Move → Prop
  | close {cid : String} : Rebinds w l (.op cid .close)
  | connect {req : ConnectRequest} (hsel : w.selected l.input = some (.connect req)) :
      Rebinds w l (connectMove l.now l.ord w.broker req)
  | bridge {name : String} (hin : l.input = .call (.registerBridge name)) :
      Rebinds w l (.create (bridgeClient name) (bridgeSession w.broker (bridgeClient name)))
  | removed {cid : String} : Rebinds w l (.remove cid)

/-- What the step makes of the sessions, once more: one move that rebinds a session, or operations that read the clock of the
step and deliver up to the configured bound. -/
def PacedChange (P : Protocol) (w : World) (l : Label) (f : Fleet) : Prop :=
  Change P w l f ∧
    (Fleet.Reaches P (Move.IsOp (Op.steadyAt l.now w.broker.config.maxQueuedMessages)) w.broker.fleet f ∨
      ∃ mv, Rebinds w l mv ∧ f.session = (mv.apply P w.broker.fleet).session)

namespace PacedChange
variable {f : Fleet}

theorem routine
    (h : Fleet.Reaches P (Move.IsOp (Op.routineAt l.now w.broker.config.maxQueuedMessages)) w.broker.fleet f) :
    PacedChange P w l f :=
  ⟨.routine (h.isOp fun _ ho => (Bool.and_eq_true_iff.1 ho).1), .inl (h.isOp fun _ ho => (Bool.and_eq_true_iff.1 ho).2)⟩

theorem same (h : f = w.broker.fleet) : PacedChange P w l f := routine (.of_eq h)

theorem routing
    (h : Fleet.Reaches P (Move.IsOp (Op.routingAt l.now w.broker.config.maxQueuedMessages)) w.broker.fleet f) :
    PacedChange P w l f :=
  routine (h.isOp fun _ => Op.routineAt_of_routingAt)

theorem ack {cid : String} {epoch : Nat} {packet : Packet} {o : Op} {s : Session}
    (hsel : w.selected l.input = some (.dispatch cid epoch packet)) (ho : ackOp l.now packet = some o)
    (hs : w.broker.sessions.lookup cid = some s) (he : s.epoch = epoch) :
    PacedChange P w l ((Move.op cid o).apply P w.broker.fleet) := by
  refine ⟨.ack hsel ho hs he, .inl (.single (.op cid o) ?_)⟩
  cases packet <;> simp only [ackOp, Option.some.injEq, reduceCtorEq] at ho <;> subst ho <;> simp [Move.IsOp, Op.steadyAt]

theorem close {cid : String} : PacedChange P w l ((Move.op cid .close).apply P w.broker.fleet) :=
  ⟨.routine (.single (.op cid .close) rfl), .inr ⟨_, .close, rfl⟩⟩

theorem connect {req : ConnectRequest} (hsel : w.selected l.input = some (.connect req)) :
    PacedChange P w l ((connectMove l.now l.ord w.broker req).apply P w.broker.fleet).tick :=
  ⟨.connect hsel, .inr ⟨_, .connect hsel, rfl⟩⟩

theorem bridge {name : String} (hin : l.input = .call (.registerBridge name)) :
    PacedChange P w l
      ((Move.create (bridgeClient name) (bridgeSession w.broker (bridgeClient name))).apply P w.broker.fleet).tick :=
  ⟨.bridge hin, .inr ⟨_, .bridge hin, rfl⟩⟩

theorem removed {cid : String} {s : Session} (hs : w.broker.sessions.lookup cid = some s)
    (h : s.out = none ∨ ∃ name, cid = bridgeClient name)
    (hby : (∃ t, w.selected l.input = some t ∧ Task.removes cid s.epoch t) ∨ reservedClientId cid) :
    PacedChange P w l ((Move.remove cid).apply P w.broker.fleet) :=
  ⟨.removed hs h hby, .inr ⟨_, .removed, rfl⟩⟩

end PacedChange

theorem acked_pacedChange {cid : String} {epoch : Nat} {packet : Packet} {f : Session → Session × Nat} {o : Op}
    (hsel : w.selected l.input = some (.dispatch cid epoch packet)) (ho : ackOp l.now packet = some o)
    (hf : ∀ s : Session, f s = s.apply P o) :
    PacedChange P w l (w.broker.acked cid epoch f).broker.fleet := by
  rcases acked_moves w.broker cid epoch hf with h | ⟨s, hs, he, h⟩
  · exact .same h
  · exact h ▸ .ack hsel ho hs he

theorem dispatch_pacedChange {cid : String} {epoch : Nat} {packet : Packet}
    (hsel : w.selected l.input = some (.dispatch cid epoch packet)) :
    PacedChange P w l (dispatch P l.now l.ord w.broker cid epoch packet).broker.fleet := by
  cases packet with
  | publish p => exact .routing (handlePublish_moves _ _ _ _ _ _)
  | puback a => exact acked_pacedChange hsel rfl fun _ => rfl
  | pubrec a => exact acked_pacedChange hsel rfl fun _ => rfl
  | pubcomp a => exact acked_pacedChange hsel rfl fun _ => rfl
  | pubrel a =>
    have hf : ∀ s : Session, (s.pubrel a.packetId, 0) = s.apply P (.pubrel a.packetId) := fun _ => rfl
    rcases acked_moves w.broker cid epoch hf with h | ⟨s, -, -, h⟩
    · exact .same h
    · exact .routine (.trans (.single (.op cid (.pubrel a.packetId)) rfl) (.of_eq h))
  | subscribe s => exact .routine (handleSubscribe_moves _ _ _ _ _ _)
  | unsubscribe u => exact .routine (handleUnsubscribe_moves _ _ _ _)
  | pingreq =>
    exact .routine (.trans (.single (.op cid (.control .pingresp)) rfl) (.of_eq (sendTo_control _ _ _)))
  | disconnect d => exact .same (congrArg fleet (handleClientDisconnect_broker _ _ _ _))
  | connect c => exact .same rfl
  | connack c => exact .same rfl
  | suback a => exact .same rfl
  | unsuback a => exact .same rfl
  | pingresp => exact .same rfl
  | auth => exact .same rfl

theorem removeIfOffline_pacedChange {cid : String} {epoch : Nat} {t : Task} (hsel : w.selected l.input = some t)
    (ht : Task.removes cid epoch t) : PacedChange P w l (removeIfOffline w.broker cid epoch).broker.fleet := by
  rcases removeIfOffline_moves (P := P) w.broker cid epoch with h | ⟨s, hs, he, ho, h⟩
  · exact .same h
  · exact h ▸ .removed hs (.inl ho) (.inl ⟨t, hsel, he ▸ ht⟩)

theorem runTask_pacedChange {t : Task} (hsel : w.selected l.input = some t) :
    PacedChange P w l (runTask P l.now l.ord w.broker t).broker.fleet := by
  cases t with
  | dispatch cid epoch packet => exact dispatch_pacedChange hsel
  | disconnectExpiry cid epoch n pw => exact .routine (disconnectExpiry_moves _ _ _ _ _)
  | connect req => exact finishConnect_moves l.now l.ord w.broker req ▸ .connect hsel
  | closeRemove cid epoch => exact removeIfOffline_pacedChange hsel ⟨rfl, rfl⟩
  | willSleep cid epoch m owner due =>
    refine .same ?_
    simp only [runTask, willWake]
    split
    · split <;> rfl
    · rfl
  | willAuthorize cid epoch m owner =>
    refine .same ?_
    simp only [runTask, willAuthorize]
    split <;> rfl
  | willPublish cid epoch m => exact .routing (publishMessage_moves _ _ _ _ _ _)
  | expiry cid epoch due => exact removeIfOffline_pacedChange hsel ⟨rfl, rfl⟩
  | revoke acl => exact .routine (revokeUnauthorized_moves _ _ _)

theorem enter_pacedChange {c : Call} (hin : l.input = .call c) :
    PacedChange P w l (enter P w.clock l.now l.ord w.broker c).broker.fleet := by
  cases c with
  | connect c identity => exact .same (startConnect_fleet _ _ _ _ _)
  | packet cid epoch packet =>
    refine .same ?_
    simp only [enter, handlePacket]
    split
    · split <;> rfl
    · rfl
  | closed cid epoch pw =>
    rcases handleConnectionClosed_moves (P := P) w.clock w.broker cid epoch pw with h | h
    · exact .same h
    · exact h ▸ .close
  | reload fresh =>
    refine .same ?_
    simp only [enter, reloadAcl]
    split <;> rfl
  | snapshot => exact .same rfl
  | publishSys entries => exact .routing (publishSys_moves _ _ _ _)
  | registerBridge name =>
    have h : (registerBridge w.broker (bridgeClient name) {}).broker.fleet =
        ((Move.create (bridgeClient name) (bridgeSession w.broker (bridgeClient name))).apply P
          w.broker.fleet).tick := by
      ext1
      · funext c
        simp [registerBridge, fleet, Move.apply, Fleet.set, Fleet.tick, lookup_insert_if, Function.update_apply,
          bridgeSession]
      · rfl
      · rfl
    exact h ▸ .bridge hin
  | bridgeAddSubscription name filter noLocal =>
    exact .routine (.trans (.single (.op (bridgeClient name) (.bridgeSubscribe _)) rfl)
      (.of_eq (fleet_modifySession P _ _ _ _ fun _ => rfl)))
  | injectPublish name m => exact .routing (publishMessage_moves _ _ _ _ _ _)
  | deregisterBridge name epoch =>
    simp only [enter, deregisterBridge]
    split
    · rename_i s hs
      split
      · rw [fleet_removeSession]; exact .removed hs (.inr ⟨name, rfl⟩) (.inr (reserved_bridgeClient name))
      · exact .same rfl
    · exact .same rfl

theorem onChannel_pacedChange (cid : String) (epoch : Nat) (g : OutTx → OutTx) (o : Op)
    (ho : o.routineAt l.now w.broker.config.maxQueuedMessages)
    (h : ∀ s : Session, s.apply P o = ({ s with out := s.out.map g }, 0)) :
    PacedChange P w l (w.broker.modifySession cid (·.onChannel epoch g)).fleet := by
  cases hs : w.broker.sessions.lookup cid with
  | none => exact .same (by simp [modifySession, hs])
  | some s =>
    by_cases he : s.epoch = epoch
    · refine .routine (.trans (.single (.op cid o) ho) (.of_eq ?_))
      rw [← fleet_applied P hs o]
      simp [modifySession, hs, Session.onChannel, he, h, fleet_addDropped]
    · refine .same ?_
      simp only [modifySession, hs, Session.onChannel, if_neg he]
      exact fleet_setSession_self hs

/-- **Inversion**: every step of the running broker is one of the changes above, made by paced moves. -/
theorem step_pacedChange (P : Protocol) (w : World) (l : Label) : PacedChange P w l (step P w l).1.broker.fleet := by
  cases hin : l.input with
  | call c => simp only [step, hin]; exact enter_pacedChange hin
  | task i =>
    simp only [step, hin]
    split
    · rename_i t hsel; exact runTask_pacedChange (hin ▸ hsel)
    · exact .same rfl
  | sleep secs => simp only [step, hin]; exact .same rfl
  | recv cid epoch => simp only [step, hin]; exact onChannel_pacedChange cid epoch _ .recv rfl fun _ => rfl
  | hangup cid epoch => simp only [step, hin]; exact onChannel_pacedChange cid epoch _ .hangup rfl fun _ => rfl

theorem step_change (P : Protocol) (w : World) (l : Label) : Change P w l (step P w l).1.broker.fleet :=
  (step_pacedChange P w l).1

/-- **Invariants of sessions**: what the operations keep, and the sessions that are created have, holds of every session
after the step. -/
theorem PacedChange.forall_sessions {f : Fleet} {I : Session → Prop} (hc : PacedChange P w l f)
    (hop : ∀ s o, Op.steadyAt l.now w.broker.config.maxQueuedMessages o ∨ o = .close → I s → I (s.apply P o).1)
    (hresume : ∀ req s, w.selected l.input = some (.connect req) → I s →
      I (s.apply P (.resume l.now l.ord w.broker.config w.broker.acl req w.broker.nextEpoch)).1)
    (hfresh : ∀ req, w.selected l.input = some (.connect req) → I (freshSession l.now w.broker req))
    (hbridge : ∀ cid, I (bridgeSession w.broker cid))
    (h : ∀ cid s, w.broker.sessions.lookup cid = some s → I s) : ∀ cid s, f.session cid = some s → I s := by
  have hset : ∀ {g : Fleet} {cid : String} {x : Option Session}, (∀ c s, g.session c = some s → I s) →
      (∀ s, x = some s → I s) → ∀ c s, (g.set cid x).session c = some s → I s := by
    intro g cid x hg hx c s hs
    simp only [Fleet.set, Function.update_apply] at hs
    split at hs
    · exact hx s hs
    · exact hg c s hs
  have happly : ∀ {g : Fleet} {cid : String} {o : Op}, (∀ c s, g.session c = some s → I s) →
      (∀ s, I s → I (s.apply P o).1) → ∀ c s, ((Move.op cid o).apply P g).session c = some s → I s := by
    intro g cid o hg ho
    cases hs : g.session cid with
    | none => simpa only [Move.apply, hs] using hg
    | some s =>
      rw [Fleet.apply_op hs]
      exact hset hg (x := some (s.apply P o).1) fun s' e => Option.some.inj e ▸ ho s (hg cid s hs)
  rcases hc.2 with hr | ⟨mv, hmv, hf⟩
  · refine hr.invariant (fun g => ∀ cid s, g.session cid = some s → I s) (fun g mv hmv hg => ?_) h
    cases mv with
    | op cid o => exact happly hg fun s => hop s o (.inl hmv)
    | create => cases hmv
    | remove => cases hmv
  · rw [hf]
    cases hmv with
    | close => exact happly (g := w.broker.fleet) h fun s => hop s _ (.inr rfl)
    | @connect req hsel =>
      unfold connectMove
      split
      · exact happly (g := w.broker.fleet) h fun s => hresume req s hsel
      · exact hset h fun s e => Option.some.inj e ▸ hfresh req hsel
    | bridge => exact hset h fun s e => Option.some.inj e ▸ hbridge _
    | removed => exact hset h fun s e => by cases e

/-- **A session goes** by the task that its close left behind, or it is a bridge's. -/
theorem Change.gone {f : Fleet} {cid : String} {s : Session} (hc : Change P w l f)
    (hs : w.broker.sessions.lookup cid = some s) (hgone : f.session cid = none) :
    (∃ t, w.selected l.input = some t ∧ Task.removes cid s.epoch t) ∨ reservedClientId cid := by
  have hset : ∀ {g : Fleet} {c : String} {s₁ : Session}, (g.session cid).isSome → ((g.set c (some s₁)).session cid).isSome := by
    intro g c s₁ hg
    simp only [Fleet.set, Function.update_apply]
    split
    · rfl
    · exact hg
  have happly : ∀ {g : Fleet} {c : String} {o : Op}, (g.session cid).isSome →
      (((Move.op c o).apply P g).session cid).isSome := by
    intro g c o hg
    cases hs₁ : g.session c with
    | none => simpa only [Move.apply, hs₁] using hg
    | some s₁ =>
      rw [Fleet.apply_op hs₁]
      exact hset hg
  have hthere : (w.broker.fleet.session cid).isSome := by simp [fleet_session, hs]
  have hnot : ¬(f.session cid).isSome := by simp [hgone]
  cases hc with
  | routine hr =>
    refine absurd (hr.invariant (fun g => (g.session cid).isSome) (fun g mv hmv hg => ?_) hthere) hnot
    cases mv with
    | op c o => exact happly hg
    | create => cases hmv
    | remove => cases hmv
  | ack => exact absurd (happly hthere) hnot
  | connect =>
    refine absurd ?_ hnot
    unfold connectMove
    split
    · exact happly (g := w.broker.fleet) hthere
    · exact hset (g := w.broker.fleet) hthere
  | bridge => exact absurd (hset (g := w.broker.fleet) hthere) hnot
  | @removed c s₁ hs₁ _ hby =>
    by_cases hcid : cid = c
    · subst hcid
      rw [hs] at hs₁
      cases hs₁
      exact hby
    · refine absurd ?_ hnot
      simpa [Move.apply, Fleet.set, Function.update_apply, hcid] using hthere

end World

end WispMQ
