import WispMQ.Routing
import WispMQ.Epochs
/-!
# A step, seen from one session

What a step does to the session of one client is a list of operations on it (`Sees`), which says more than the moves of
the whole fleet: who causes them, what is acknowledged, and through which of the session's subscriptions every delivery
has come (`DeliveredVia`). `step_sees` is the inversion lemma; only a clean CONNECT and a bridge registration
put another session in place.
-/

namespace WispMQ
open KeyMap

/-- The operation delivers a message that came in through the filters `via`: those of the ordinary subscriptions among
`subs` that take part in routing it, or that of one shared subscription. -/
def DeliveredVia (P : Protocol) (cid : String) (subs : List Subscription) (o : Op) (via : List String) : Prop :=
  ∃ now publisher m qos retain subIds maxQueued, o = .deliver now m qos retain subIds maxQueued ∧ via ≠ [] ∧
    (via = (subs.filter fun sub => sub.shareName.isNone && eligible P publisher m cid sub).map (·.filter) ∨
      ∃ sub ∈ subs, sub.shareName.isSome ∧ eligible P publisher m cid sub ∧ via = [sub.filter])

/-- Operations that are no deliveries from elsewhere. -/
def plain (os : List Op) : List (Op × List String) := os.map fun o => (o, [])

@[simp] theorem plain_fst (os : List Op) : (plain os).map Prod.fst = os := by
  simp [plain, Function.comp_def]

/-- Each operation of a list can be told where it came from. -/
theorem exists_annotated {R : Op → List String → Prop} : ∀ {os : List Op}, (∀ o ∈ os, ∃ via, R o via) →
    ∃ v : List (Op × List String), v.map Prod.fst = os ∧ ∀ x ∈ v, R x.1 x.2
  | [], _ => ⟨[], rfl, by simp⟩
  | o :: os, h => by
    obtain ⟨⟨via, ho⟩, hos⟩ := List.forall_mem_cons.1 h
    obtain ⟨v, rfl, hv⟩ := exists_annotated hos
    exact ⟨(o, via) :: v, rfl, List.forall_mem_cons.2 ⟨ho, hv⟩⟩

namespace Broker
variable {P : Protocol} {b : Broker} {cid : String} {s : Session}

theorem deliveries_via (now : Nat) (ord : Orders) (publisher : Option String) (m : Message)
    (hs : b.sessions.lookup cid = some s) :
    ∀ o ∈ b.deliveries P now ord publisher m cid, ∃ via, DeliveredVia P cid s.subscriptions o via := by
  intro o ho
  have hsubs : b.subsOf cid = s.subscriptions := by simp [subsOf, hs]
  rw [deliveries, hsubs] at ho
  rcases List.mem_append.1 ho with ho | ho
  · obtain ⟨d, hd, rfl⟩ := Option.map_eq_some_iff.1 (Option.mem_toList.1 ho)
    obtain ⟨sub, hsub, hshare, hel⟩ := ordinary_isSome.1 (Option.isSome_iff_exists.2 ⟨d, hd⟩)
    refine ⟨_, now, publisher, m, _, _, _, _, rfl, ?_, .inl rfl⟩
    have hmem : sub ∈ s.subscriptions.filter fun sub => sub.shareName.isNone && eligible P publisher m cid sub :=
      List.mem_filter.2 ⟨hsub, by simp [hshare, hel]⟩
    exact List.ne_nil_of_mem (List.mem_map_of_mem hmem)
  · obtain ⟨c, hc, rfl⟩ := List.mem_map.1 ho
    obtain ⟨hchosen, hcid⟩ := List.mem_filter.1 hc
    obtain rfl : c.clientId = cid := of_decide_eq_true hcid
    obtain ⟨sub, hsub, hshare, hel, -⟩ := chosen_sharedVia ord b c hchosen
    rw [hsubs] at hsub
    exact ⟨[sub.filter], now, publisher, m, _, _, _, _, rfl, by simp, .inr ⟨sub, hsub, hshare, hel, rfl⟩⟩

/-- The session becomes `s'` by deliveries through the subscriptions of `s`. -/
def Receives (P : Protocol) (cid : String) (s s' : Session) : Prop :=
  ∃ v : List (Op × List String), (∀ x ∈ v, DeliveredVia P cid s.subscriptions x.1 x.2) ∧
    s' = (s.applyAll P (v.map Prod.fst)).1

theorem Receives.refl (s : Session) : Receives P cid s s := ⟨[], by simp, rfl⟩

theorem Receives.sameRecord {s' : Session} (h : Receives P cid s s') : s.SameRecord s' := by
  obtain ⟨v, hv, rfl⟩ := h
  induction v generalizing s with
  | nil => exact .refl s
  | cons x v ih =>
    obtain ⟨⟨now, publisher, m, qos, retain, subIds, maxQueued, hx, -⟩, hv⟩ := List.forall_mem_cons.1 hv
    have hstep : s.SameRecord (s.apply P x.1).1 := Session.apply_quiet P s (by rw [hx]; rfl)
    refine hstep.trans (ih ?_)
    rw [hstep.subscriptions]
    exact hv

theorem Receives.trans {s' s'' : Session} (h : Receives P cid s s') (h' : Receives P cid s' s'') :
    Receives P cid s s'' := by
  obtain ⟨v', hv', rfl⟩ := h'
  rw [h.sameRecord.subscriptions] at hv'
  obtain ⟨v, hv, rfl⟩ := h
  refine ⟨v ++ v', fun x hx => ?_, ?_⟩
  · rcases List.mem_append.1 hx with hx | hx
    · exact hv x hx
    · exact hv' x hx
  · rw [List.map_append, Session.applyAll_append]

/-- A call of `route`, seen from a session. -/
theorem route_receives (now : Nat) (ord : Orders) (publisher : Option String) (m : Message)
    (hs : b.sessions.lookup cid = some s) :
    ∃ s', (route P now ord b publisher m).1.sessions.lookup cid = some s' ∧ Receives P cid s s' := by
  obtain ⟨v, hv, hvia⟩ := exists_annotated (deliveries_via (P := P) now ord publisher m hs)
  exact ⟨_, route_lookup now ord publisher m hs, v, hvia, by rw [hv]⟩

theorem publishMessage_receives (now : Nat) (ord : Orders) (origin : Origin) (publisher : Option String) (m : Message)
    (hs : b.sessions.lookup cid = some s) :
    ∃ s', (publishMessage P now ord b origin publisher m).broker.sessions.lookup cid = some s' ∧ Receives P cid s s' := by
  refine route_receives now ord publisher m ?_
  rw [storeRetained_sessions, hs]

theorem publishSys_receives (now : Nat) (ord : Orders) : ∀ (es : List (String × Bytes)) {b : Broker} {s : Session},
    b.sessions.lookup cid = some s →
    ∃ s', (publishSys P now ord es b).broker.sessions.lookup cid = some s' ∧ Receives P cid s s'
  | [], _, s, hs => ⟨s, hs, .refl s⟩
  | (topic, payload) :: es, b, s, hs => by
    obtain ⟨s₁, hs₁, h₁⟩ := route_receives (P := P) (b := { b with retained := b.retained.insert topic (sysMessage topic payload) })
      now ord none (sysMessage topic payload) hs
    obtain ⟨s₂, hs₂, h₂⟩ := publishSys_receives now ord es hs₁
    exact ⟨s₂, hs₂, h₁.trans h₂⟩

/-! ## PUBLISH -/

/-- The operations of a PUBLISH on the session of its own client: its alias and, for QoS 2, its id are remembered, what
it matches is delivered, and it is acknowledged as its QoS demands. -/
def PublishOps (P : Protocol) (cid : String) (s : Session) (p : Publish) (v : List (Op × List String)) : Prop :=
  ∃ pre ds post, v = plain pre ++ ds ++ plain post ∧
    (∀ o ∈ pre, (∃ a topic, o = .setAlias a topic) ∨ p.qos = .exactlyOnce ∧ ∃ id, o = .inbound id) ∧
    (∀ x ∈ ds, DeliveredVia P cid s.subscriptions x.1 x.2) ∧
    ∀ o ∈ post, ∃ q ack, publishAck p.qos ack = some q ∧ o = .control q

theorem acknowledge_sees (qos : QoS) (ack : PubAck) (hs : b.sessions.lookup cid = some s) :
    ∃ post : List Op, (∀ o ∈ post, ∃ q ack, publishAck qos ack = some q ∧ o = .control q) ∧
      (b.acknowledge cid qos ack).sessions.lookup cid = some (s.applyAll P post).1 := by
  rw [acknowledge_lookup_self qos ack hs]
  cases hq : publishAck qos ack with
  | none => exact ⟨[], by simp, rfl⟩
  | some q => exact ⟨[.control q], fun o ho => ⟨q, ack, hq, List.mem_singleton.1 ho⟩, rfl⟩

theorem routePublish_sees (now : Nat) (ord : Orders) (epoch : Nat) (p : Publish) (m : Message)
    (hs : b.sessions.lookup cid = some s) :
    ∃ v, PublishOps P cid s p v ∧
      (routePublish P now ord b cid epoch s p m).1.sessions.lookup cid = some (s.applyAll P (v.map Prod.fst)).1 := by
  -- deliveries, then the acknowledgement, after the operations `pre` on the session
  have hrest : ∀ {b₁ : Broker} {s₁ : Session} (pre : List Op) (f : Bool → PubAck), b₁.sessions.lookup cid = some s₁ →
      s₁ = (s.applyAll P pre).1 → s₁.subscriptions = s.subscriptions →
      (∀ o ∈ pre, (∃ a topic, o = .setAlias a topic) ∨ p.qos = .exactlyOnce ∧ ∃ id, o = .inbound id) →
      ∃ v, PublishOps P cid s p v ∧ ((route P now ord b₁ (some cid) m).1.acknowledge cid p.qos
        (f (route P now ord b₁ (some cid) m).2)).sessions.lookup cid = some (s.applyAll P (v.map Prod.fst)).1 := by
    intro b₁ s₁ pre f hs₁ hpre hsubs hops
    obtain ⟨s₂, hs₂, ds, hds, rfl⟩ := route_receives (P := P) now ord (some cid) m hs₁
    obtain ⟨post, hpost, h⟩ := acknowledge_sees (P := P) p.qos (f (route P now ord b₁ (some cid) m).2) hs₂
    refine ⟨_, ⟨pre, ds, post, rfl, hops, hsubs ▸ hds, hpost⟩, ?_⟩
    rw [h, hpre]
    simp only [List.map_append, plain_fst, Session.applyAll_append]
  simp only [routePublish]
  cases hq : p.qos with
  | atMostOnce =>
    obtain ⟨v, hv, h⟩ := hrest [] (fun _ => ⟨0, .success⟩) hs rfl rfl (by simp)
    rw [hq] at h
    exact ⟨v, hv, h⟩
  | atLeastOnce =>
    obtain ⟨v, hv, h⟩ := hrest [] (fun matched => ⟨p.packetId.getD 0, matchedCode matched⟩) hs rfl rfl (by simp)
    rw [hq] at h
    exact ⟨v, hv, h⟩
  | exactlyOnce =>
    simp only
    split
    · obtain ⟨post, hpost, h⟩ := acknowledge_sees (P := P) .exactlyOnce ⟨p.packetId.getD 0, .success⟩ hs
      refine ⟨plain post, ⟨[], [], post, rfl, by simp, by simp, hq ▸ hpost⟩, ?_⟩
      rw [plain_fst]
      exact h
    · have hs₁ : (b.setSession cid { s with inboundQos2 := insert (p.packetId.getD 0) s.inboundQos2 }).sessions.lookup cid =
          some { s with inboundQos2 := insert (p.packetId.getD 0) s.inboundQos2 } := by simp [setSession]
      obtain ⟨v, hv, h⟩ := hrest [.inbound (p.packetId.getD 0)]
        (fun matched => ⟨p.packetId.getD 0, matchedCode matched⟩) hs₁ rfl rfl (by simp [hq])
      rw [hq] at h
      exact ⟨v, hv, h⟩

theorem acceptPublish_sees (now : Nat) (ord : Orders) (epoch : Nat) (p : Publish) (hs : b.sessions.lookup cid = some s) :
    ∃ v, PublishOps P cid s p v ∧
      (acceptPublish P now ord b cid epoch s p).broker.sessions.lookup cid = some (s.applyAll P (v.map Prod.fst)).1 := by
  have hnone : PublishOps P cid s p [] := ⟨[], [], [], rfl, by simp, by simp, by simp⟩
  unfold acceptPublish
  split
  · exact ⟨[], hnone, hs⟩
  split
  · exact ⟨[], hnone, hs⟩
  split
  · obtain ⟨post, hpost, h⟩ := acknowledge_sees (P := P) p.qos ⟨p.packetId.getD 0, .notAuthorized⟩ hs
    refine ⟨plain post, ⟨[], [], post, rfl, by simp, by simp, hpost⟩, ?_⟩
    rw [plain_fst]
    exact h
  · refine routePublish_sees now ord epoch p _ ?_
    rw [storeRetained_sessions, hs]

/-- The client's own PUBLISH. -/
theorem handlePublish_sees (now : Nat) (ord : Orders) (epoch : Nat) (p : Publish) (hs : b.sessions.lookup cid = some s) :
    ∃ v, PublishOps P cid s p v ∧
      (handlePublish P now ord b cid epoch p).broker.sessions.lookup cid = some (s.applyAll P (v.map Prod.fst)).1 := by
  rcases handlePublish_cases P now ord b cid epoch p with ⟨rc, he⟩ | ⟨s₀, s₁, p₁, hs₀, -, hr, he⟩
  · rw [he]
    exact ⟨[], ⟨[], [], [], rfl, by simp, by simp, by simp⟩, hs⟩
  · rw [hs] at hs₀
    cases hs₀
    rw [he]
    have hs₁ : ({ b with metrics.publishReceived := b.metrics.publishReceived + 1 }.setSession cid s₁).sessions.lookup cid =
        some s₁ := by simp [setSession]
    obtain ⟨v, ⟨pre, ds, post, rfl, hpre, hds, hpost⟩, h⟩ := acceptPublish_sees (P := P) now ord epoch p₁ hs₁
    have hqos : p₁.qos = p.qos := by
      obtain ⟨topic, rfl⟩ := resolveAlias_publish hr
      rfl
    rw [hqos] at hpre hpost
    rcases resolveAlias_ok (P := P) hr with rfl | ⟨a, rfl⟩
    · exact ⟨_, ⟨pre, ds, post, rfl, hpre, hds, hpost⟩, h⟩
    · refine ⟨plain (.setAlias a p.topic :: pre) ++ ds ++ plain post, ⟨_, ds, post, rfl, ?_, hds, hpost⟩, h⟩
      exact List.forall_mem_cons.2 ⟨.inl ⟨a, p.topic, rfl⟩, hpre⟩

theorem routePublish_receives {c : String} (now : Nat) (ord : Orders) (epoch : Nat) (s₀ : Session) (p : Publish)
    (m : Message) (hs : b.sessions.lookup cid = some s) (hc : cid ≠ c) :
    ∃ s', (routePublish P now ord b c epoch s₀ p m).1.sessions.lookup cid = some s' ∧ Receives P cid s s' := by
  have hack : ∀ {b₁ : Broker} (qos : QoS) (ack : PubAck), (∃ s', b₁.sessions.lookup cid = some s' ∧ Receives P cid s s') →
      ∃ s', (b₁.acknowledge c qos ack).sessions.lookup cid = some s' ∧ Receives P cid s s' := by
    intro b₁ qos ack h
    rw [acknowledge_lookup_ne qos ack hc]
    exact h
  simp only [routePublish]
  split
  · exact route_receives now ord (some c) m hs
  · exact hack _ _ (route_receives now ord (some c) m hs)
  · split
    · exact hack _ _ ⟨s, hs, .refl s⟩
    · refine hack _ _ (route_receives now ord (some c) m ?_)
      exact (AList.lookup_insert_ne hc).trans hs

/-- A PUBLISH of another client. -/
theorem handlePublish_receives {c : String} (now : Nat) (ord : Orders) (epoch : Nat) (p : Publish)
    (hs : b.sessions.lookup cid = some s) (hc : cid ≠ c) :
    ∃ s', (handlePublish P now ord b c epoch p).broker.sessions.lookup cid = some s' ∧ Receives P cid s s' := by
  rcases handlePublish_cases P now ord b c epoch p with ⟨rc, he⟩ | ⟨s₀, s₁, p₁, -, -, -, he⟩
  · rw [he]
    exact ⟨s, hs, .refl s⟩
  · rw [he]
    have hs₁ : ({ b with metrics.publishReceived := b.metrics.publishReceived + 1 }.setSession c s₁).sessions.lookup cid =
        some s := (AList.lookup_insert_ne hc).trans hs
    unfold acceptPublish
    split
    · exact ⟨s, hs₁, .refl s⟩
    split
    · exact ⟨s, hs₁, .refl s⟩
    split
    · exact ⟨s, (acknowledge_lookup_ne _ _ hc).trans hs₁, .refl s⟩
    · refine routePublish_receives now ord epoch s₁ p₁ _ ?_ hc
      rw [storeRetained_sessions, hs₁]

/-! ## SUBSCRIBE and UNSUBSCRIBE -/

/-- The operations of a SUBSCRIBE: the granted subscriptions, the SUBACK, and the retained messages they match. -/
def SubscribeOps (P : Protocol) (acl : Acl) (s : Session) (v : List (Op × List String)) : Prop :=
  ∃ (subs : List Subscription) (suback : SubAck) (ds : List (Op × List String)),
    v = plain (subs.map .subscribe ++ [.control (.suback suback)]) ++ ds ∧
    (∀ sub ∈ subs, acl.isEnforced → acl.canSubscribe P (who s.identity) sub.filter) ∧
    ∀ x ∈ ds, (∃ now m qos retain subIds maxQueued, x.1 = .deliver now m qos retain subIds maxQueued) ∧
      ∃ sub ∈ subs, x.2 = [sub.filter]

/-- One filter: it is granted or not, and the retained messages it picks up come through it. -/
theorem subscribeFilter_sees (now : Nat) (ord : Orders) (b : Broker) (cid : String) (subId : Option Nat)
    (acc : SubscribeAcc) (f : TopicFilter) :
    ∃ (subs : List Subscription) (rs : List ((Message × QoS × List Nat) × Subscription)),
      (subscribeFilter P now ord b cid subId acc f).session = (acc.session.applyAll P (subs.map .subscribe)).1 ∧
      (subscribeFilter P now ord b cid subId acc f).retainedToSend = acc.retainedToSend ++ rs.map Prod.fst ∧
      (∀ sub ∈ subs, b.acl.isEnforced → b.acl.canSubscribe P (who acc.session.identity) sub.filter) ∧
      ∀ r ∈ rs, r.2 ∈ subs := by
  unfold subscribeFilter
  split
  · exact ⟨[], [], rfl, by simp, by simp, by simp⟩
  · cases P.parseFilter f.filter with
    | none => exact ⟨[], [], rfl, by simp, by simp, by simp⟩
    | some parsed =>
      simp only
      split
      · exact ⟨[], [], rfl, by simp, by simp, by simp⟩
      · rename_i hacl
        set sub : Subscription := { filter := parsed.filter, shareName := parsed.shareName, qos := f.qos.min b.config.maximumQos, noLocal := f.noLocal, retainAsPublished := f.retainAsPublished, subscriptionIdentifier := subId } with hsub
        set rs := if sendsRetained f.retainHandling parsed.shareName (acc.session.upsertSubscription sub).2 then
          b.retainedMatches P now ord parsed.filter (f.qos.min b.config.maximumQos) subId else []
        refine ⟨[sub], rs.map fun r => (r, sub), rfl, ?_, ?_, ?_⟩
        · simp [Function.comp_def]
        · intro x hx he
          rw [List.mem_singleton.1 hx, hsub]
          simpa [he] using hacl
        · intro r hr
          obtain ⟨r', -, rfl⟩ := List.mem_map.1 hr
          exact List.mem_singleton_self _

theorem subscribeAll_identity : ∀ (subs : List Subscription) (s : Session),
    (s.applyAll P (subs.map .subscribe)).1.identity = s.identity
  | [], _ => rfl
  | sub :: subs, s => by
    rw [List.map_cons, Session.applyAll, subscribeAll_identity subs]
    exact (Session.apply_binding P s rfl).identity

/-- The loop over the filters. -/
theorem subscribeFilters_sees (now : Nat) (ord : Orders) (b : Broker) (cid : String) (subId : Option Nat) :
    ∀ (fs : List TopicFilter) (acc : SubscribeAcc),
      ∃ (subs : List Subscription) (rs : List ((Message × QoS × List Nat) × Subscription)),
        (fs.foldl (subscribeFilter P now ord b cid subId) acc).session =
          (acc.session.applyAll P (subs.map .subscribe)).1 ∧
        (fs.foldl (subscribeFilter P now ord b cid subId) acc).retainedToSend = acc.retainedToSend ++ rs.map Prod.fst ∧
        (∀ sub ∈ subs, b.acl.isEnforced → b.acl.canSubscribe P (who acc.session.identity) sub.filter) ∧
        ∀ r ∈ rs, r.2 ∈ subs
  | [], acc => ⟨[], [], rfl, by simp, by simp, by simp⟩
  | f :: fs, acc => by
    obtain ⟨subs, rs, h1, h2, h3, h4⟩ := subscribeFilter_sees (P := P) now ord b cid subId acc f
    obtain ⟨subs', rs', h1', h2', h3', h4'⟩ := subscribeFilters_sees now ord b cid subId fs
      (subscribeFilter P now ord b cid subId acc f)
    rw [h1, subscribeAll_identity] at h3'
    refine ⟨subs ++ subs', rs ++ rs', ?_, ?_, fun sub hsub => ?_, fun r hr => ?_⟩
    · rw [List.foldl_cons, h1', h1, List.map_append, Session.applyAll_append]
    · rw [List.foldl_cons, h2', h2, List.map_append, List.append_assoc]
    · rcases List.mem_append.1 hsub with hsub | hsub
      · exact h3 sub hsub
      · exact h3' sub hsub
    · rcases List.mem_append.1 hr with hr | hr
      · exact List.mem_append_left _ (h4 r hr)
      · exact List.mem_append_right _ (h4' r hr)

theorem deliverRetained_sees (now maxQueued : Nat) : ∀ (es : List (Message × QoS × List Nat)) (acc : Session × Nat),
    (es.foldl (deliverRetained P now maxQueued) acc).1 =
      (acc.1.applyAll P (es.map fun e => .deliver now e.1 e.2.1 true e.2.2 maxQueued)).1
  | [], _ => rfl
  | e :: es, acc => by
    rw [List.foldl_cons, deliverRetained_sees now maxQueued es, List.map_cons, Session.applyAll]
    rfl

theorem handleSubscribe_sees (now : Nat) (ord : Orders) (sub : Subscribe) (hs : b.sessions.lookup cid = some s) :
    ∃ v, SubscribeOps P b.acl s v ∧
      (handleSubscribe P now ord b cid s.epoch sub).broker.sessions.lookup cid =
        some (s.applyAll P (v.map Prod.fst)).1 := by
  obtain ⟨subs, rs, h1, h2, h3, h4⟩ := subscribeFilters_sees (P := P) now ord b cid sub.subscriptionIdentifiers.head?
    sub.filters { session := s }
  set acc := sub.filters.foldl (subscribeFilter P now ord b cid sub.subscriptionIdentifiers.head?) { session := s } with hacc
  set ds : List (Op × List String) := rs.map fun r =>
    (.deliver now r.1.1 r.1.2.1 true r.1.2.2 b.config.maxQueuedMessages, [r.2.filter]) with hds
  have hlookup : (handleSubscribe P now ord b cid s.epoch sub).broker.sessions.lookup cid =
      some (acc.retainedToSend.foldl (deliverRetained P now b.config.maxQueuedMessages)
        (acc.session.push (.control (.suback ⟨sub.packetId, acc.reasonCodes⟩)), 0)).1 := by
    simp [handleSubscribe, fenced, hs, addDropped, setSession, ← hacc]
  refine ⟨plain (subs.map .subscribe ++ [.control (.suback ⟨sub.packetId, acc.reasonCodes⟩)]) ++ ds,
    ⟨subs, _, ds, rfl, h3, fun x hx => ?_⟩, ?_⟩
  · rw [hds] at hx
    obtain ⟨r, hr, rfl⟩ := List.mem_map.1 hx
    exact ⟨⟨_, _, _, _, _, _, rfl⟩, r.2, h4 r hr, rfl⟩
  · rw [hlookup, deliverRetained_sees, h2, h1]
    simp only [hds, List.map_append, plain_fst, Session.applyAll_append, List.nil_append, List.map_map,
      Function.comp_def]
    rfl

theorem handleUnsubscribe_sees (unsub : Unsubscribe) (hs : b.sessions.lookup cid = some s) :
    ∃ (us : List (String × Option String)) (unsuback : SubAck),
      (handleUnsubscribe P b cid s.epoch unsub).broker.sessions.lookup cid =
        some (s.applyAll P (us.map (fun u => .unsubscribe u.1 u.2) ++ [.control (.unsuback unsuback)])).1 := by
  have hloop : ∀ (fs : List String) (acc : Session × List ReasonCode × List Command),
      ∃ us : List (String × Option String), (fs.foldl (unsubscribeFilter P cid) acc).1 =
        (acc.1.applyAll P (us.map fun u => .unsubscribe u.1 u.2)).1 := by
    intro fs
    induction fs with
    | nil => exact fun acc => ⟨[], rfl⟩
    | cons f fs ih =>
      intro acc
      obtain ⟨us, h⟩ := ih (unsubscribeFilter P cid acc f)
      exact ⟨((unsubscribeTarget P f).2, (unsubscribeTarget P f).1) :: us, h⟩
  obtain ⟨us, h⟩ := hloop unsub.filters (s, [], [])
  refine ⟨us, ⟨unsub.packetId, (unsub.filters.foldl (unsubscribeFilter P cid) (s, [], [])).2.1⟩, ?_⟩
  rw [Session.applyAll_append, ← h]
  simp [handleUnsubscribe, fenced, hs, setSession, Session.applyAll, Session.apply]

end Broker

/-! ## Every step -/

namespace World
open Broker
variable {P : Protocol} {w : World} {l : Label} {cid : String} {s s' : Session}

/-- The step may call `route`: it handles a PUBLISH, a Will, a `$SYS` update or a bridge's message. -/
inductive MayRoute (w : World) (l : Label) : Prop
  | publish {c : String} {e : Nat} {p : Publish} (hsel : w.selected l.input = some (.dispatch c e (.publish p)))
  | will {c : String} {e : Nat} {m : Message} (hsel : w.selected l.input = some (.willPublish c e m))
  | sys {entries : List (String × Bytes)} (hin : l.input = .call (.publishSys entries))
  | bridge {name : String} {m : Message} (hin : l.input = .call (.injectPublish name m))

/-- The operations the step makes on the session `s` of `cid`, and for every delivery the filters it came through. -/
inductive Sees (P : Protocol) (w : World) (l : Label) (cid : String) (s : Session) : List (Op × List String) → Prop
  /-- The step is not about the session, or what is handled is refused. -/
  | nothing : Sees P w l cid s []
  /-- Someone's message is routed. -/
  | routed {v : List (Op × List String)} (hroute : MayRoute w l)
      (h : ∀ x ∈ v, DeliveredVia P cid s.subscriptions x.1 x.2) : Sees P w l cid s v
  | publish {p : Publish} {v : List (Op × List String)}
      (hsel : w.selected l.input = some (.dispatch cid s.epoch (.publish p))) (h : PublishOps P cid s p v) :
      Sees P w l cid s v
  | ack {packet : Packet} {o : Op} (hsel : w.selected l.input = some (.dispatch cid s.epoch packet))
      (ho : ackOp l.now packet = some o) : Sees P w l cid s (plain [o])
  | pubrel {a : PubAck} (hsel : w.selected l.input = some (.dispatch cid s.epoch (.pubrel a))) :
      Sees P w l cid s (plain [.pubrel a.packetId])
  | subscribe {sub : Subscribe} {v : List (Op × List String)}
      (hsel : w.selected l.input = some (.dispatch cid s.epoch (.subscribe sub))) (h : SubscribeOps P w.broker.acl s v) :
      Sees P w l cid s v
  | unsubscribe {unsub : Unsubscribe} {us : List (String × Option String)} {unsuback : SubAck}
      (hsel : w.selected l.input = some (.dispatch cid s.epoch (.unsubscribe unsub))) :
      Sees P w l cid s (plain (us.map (fun u => .unsubscribe u.1 u.2) ++ [.control (.unsuback unsuback)]))
  | pingresp {e : Nat} (hsel : w.selected l.input = some (.dispatch cid e .pingreq)) :
      Sees P w l cid s (plain [.control .pingresp])
  | expiry {e n secs : Nat} {pw : Bool} (hsel : w.selected l.input = some (.disconnectExpiry cid e n pw)) :
      Sees P w l cid s (plain [.setExpiry secs])
  | closed {e : Nat} {pw : Bool} (hin : l.input = .call (.closed cid e pw)) : Sees P w l cid s (plain [.close])
  | revoke {acl : Acl} (hsel : w.selected l.input = some (.revoke acl)) (he : acl.isEnforced) {os : List Op}
      (h : os = [.revoke acl] ∨ os = [.revoke acl, .shutdown .notAuthorized]) : Sees P w l cid s (plain os)
  | bridge {name filter : String} {noLocal : Bool} {sub : Subscription}
      (hin : l.input = .call (.bridgeAddSubscription name filter noLocal)) (hc : cid = bridgeClient name) :
      Sees P w l cid s (plain [.bridgeSubscribe sub])
  | recv : Sees P w l cid s (plain [.recv])
  | hangup : Sees P w l cid s (plain [.hangup])
  | resume {req : ConnectRequest} (hsel : w.selected l.input = some (.connect req)) (hc : cid = req.clientId)
      (hclean : req.connect.cleanStart = false) :
      Sees P w l cid s (plain [.resume l.now l.ord w.broker.config w.broker.acl req w.broker.nextEpoch])

/-- What becomes of the session in the step: operations on it, or another session in its place. -/
inductive Becomes (P : Protocol) (w : World) (l : Label) (cid : String) (s s' : Session) : Prop
  | sees {v : List (Op × List String)} (h : Sees P w l cid s v) (he : s' = (s.applyAll P (v.map Prod.fst)).1)
  | fresh {req : ConnectRequest} (hsel : w.selected l.input = some (.connect req)) (hc : cid = req.clientId)
      (hclean : req.connect.cleanStart = true) (he : s' = freshSession l.now w.broker req)
  | bridge {name : String} (hin : l.input = .call (.registerBridge name)) (hc : cid = bridgeClient name)
      (he : s' = bridgeSession w.broker cid)

theorem Becomes.same (h : s' = s) : Becomes P w l cid s s' := .sees .nothing h

theorem Becomes.of_plain {os : List Op} (h : Sees P w l cid s (plain os)) (he : s' = (s.applyAll P os).1) :
    Becomes P w l cid s s' := .sees h (by rw [plain_fst, he])

theorem Becomes.of_receives {b : Broker} (hroute : MayRoute w l) (h : ∃ s₁, b.sessions.lookup cid = some s₁ ∧ Receives P cid s s₁)
    (hs' : b.sessions.lookup cid = some s') : Becomes P w l cid s s' := by
  obtain ⟨s₁, hs₁, v, hv, rfl⟩ := h
  rw [hs₁] at hs'
  exact .sees (.routed hroute hv) (Option.some.inj hs').symm

theorem Becomes.of_lookup {b : Broker} (hs : w.broker.sessions.lookup cid = some s)
    (h : b.sessions.lookup cid = w.broker.sessions.lookup cid) (hs' : b.sessions.lookup cid = some s') :
    Becomes P w l cid s s' := by
  rw [h, hs] at hs'
  exact .same (Option.some.inj hs').symm

/-- An acknowledgement handler. -/
theorem Becomes.of_acked {e : Nat} {f : Session → Session × Nat} {o : Op}
    (hs : w.broker.sessions.lookup cid = some s) (hf : ∀ s : Session, f s = s.apply P o)
    (hsees : e = s.epoch → Sees P w l cid s (plain [o]))
    (hs' : (w.broker.acked cid e f).broker.sessions.lookup cid = some s') : Becomes P w l cid s s' := by
  unfold Broker.acked at hs'
  rw [hs] at hs'
  simp only at hs'
  split at hs'
  · rename_i he
    simp only [answer, addDropped, setSession, AList.lookup_insert, Option.some.injEq] at hs'
    refine .of_plain (hsees he.symm) ?_
    rw [← hs', hf]
    rfl
  · exact .of_lookup hs rfl hs'

/-- A fenced handler for another client, or for a superseded connection. -/
theorem fenced_lookup {b : Broker} {c : String} {e : Nat} {body : Session → Outcome}
    (h : ∀ s, b.sessions.lookup c = some s → s.epoch = e → (body s).broker.sessions.lookup cid = b.sessions.lookup cid) :
    (b.fenced c e body).broker.sessions.lookup cid = b.sessions.lookup cid := by
  unfold fenced
  split
  · rename_i s hs
    split
    · rename_i he
      exact h s hs he
    · rfl
  · rfl

theorem acked_lookup_other {b : Broker} {c : String} {e : Nat} {f : Session → Session × Nat} (hc : cid ≠ c) :
    (b.acked c e f).broker.sessions.lookup cid = b.sessions.lookup cid := by
  unfold Broker.acked
  split
  · rfl
  · split
    · exact AList.lookup_insert_ne hc
    · rfl

/-- The packets of another client route to the session, and no more. -/
theorem dispatch_becomes_other {c : String} {e : Nat} {packet : Packet}
    (hsel : w.selected l.input = some (.dispatch c e packet)) (hs : w.broker.sessions.lookup cid = some s)
    (hc : cid ≠ c) (hs' : (dispatch P l.now l.ord w.broker c e packet).broker.sessions.lookup cid = some s') :
    Becomes P w l cid s s' := by
  cases packet with
  | publish p => exact .of_receives (.publish hsel) (handlePublish_receives l.now l.ord e p hs hc) hs'
  | puback a => exact .of_lookup hs (acked_lookup_other hc) hs'
  | pubrec a => exact .of_lookup hs (acked_lookup_other hc) hs'
  | pubrel a => exact .of_lookup hs (acked_lookup_other hc) hs'
  | pubcomp a => exact .of_lookup hs (acked_lookup_other hc) hs'
  | subscribe sub => exact .of_lookup hs (fenced_lookup fun _ _ _ => AList.lookup_insert_ne hc) hs'
  | unsubscribe unsub => exact .of_lookup hs (fenced_lookup fun _ _ _ => AList.lookup_insert_ne hc) hs'
  | pingreq => exact .of_lookup hs (modifySession_lookup_ne _ _ hc) hs'
  | disconnect d => exact .of_lookup hs (by rw [dispatch, handleClientDisconnect_broker]) hs'
  | _ => exact .of_lookup hs rfl hs'

/-- The client's own packets. -/
theorem dispatch_becomes {e : Nat} {packet : Packet} (hsel : w.selected l.input = some (.dispatch cid e packet))
    (hs : w.broker.sessions.lookup cid = some s)
    (hs' : (dispatch P l.now l.ord w.broker cid e packet).broker.sessions.lookup cid = some s') :
    Becomes P w l cid s s' := by
  -- for a superseded connection, a fenced handler does nothing
  have hstale : ∀ {body : Session → Outcome}, e ≠ s.epoch →
      (w.broker.fenced cid e body).broker.sessions.lookup cid = w.broker.sessions.lookup cid := by
    intro body he
    refine fenced_lookup fun s₀ hs₀ he₀ => ?_
    rw [hs] at hs₀
    cases hs₀
    exact absurd he₀.symm he
  cases packet with
  | publish p =>
    by_cases he : e = s.epoch
    · subst he
      obtain ⟨v, hv, h⟩ := handlePublish_sees (P := P) l.now l.ord s.epoch p hs
      rw [dispatch, h] at hs'
      exact .sees (.publish hsel hv) (Option.some.inj hs').symm
    · refine .of_lookup hs ?_ hs'
      rcases handlePublish_cases P l.now l.ord w.broker cid e p with ⟨rc, h⟩ | ⟨s₀, -, -, hs₀, he₀, -, -⟩
      · rw [dispatch, h]
        rfl
      · rw [hs] at hs₀
        cases hs₀
        exact absurd he₀.symm he
  | puback a => exact .of_acked (o := .puback l.now a.packetId) hs (fun _ => rfl) (fun he => .ack (he ▸ hsel) rfl) hs'
  | pubrec a => exact .of_acked (o := .pubrec a) hs (fun _ => rfl) (fun he => .ack (he ▸ hsel) rfl) hs'
  | pubrel a => exact .of_acked (o := .pubrel a.packetId) hs (fun _ => rfl) (fun he => .pubrel (he ▸ hsel)) hs'
  | pubcomp a => exact .of_acked (o := .pubcomp l.now a.packetId) hs (fun _ => rfl) (fun he => .ack (he ▸ hsel) rfl) hs'
  | subscribe sub =>
    by_cases he : e = s.epoch
    · subst he
      obtain ⟨v, hv, h⟩ := handleSubscribe_sees (P := P) l.now l.ord sub hs
      rw [dispatch, h] at hs'
      exact .sees (.subscribe hsel hv) (Option.some.inj hs').symm
    · exact .of_lookup hs (hstale he) hs'
  | unsubscribe unsub =>
    by_cases he : e = s.epoch
    · subst he
      obtain ⟨us, unsuback, h⟩ := handleUnsubscribe_sees (P := P) unsub hs
      rw [dispatch, h] at hs'
      exact .of_plain (.unsubscribe hsel) (Option.some.inj hs').symm
    · exact .of_lookup hs (hstale he) hs'
  | pingreq =>
    simp only [dispatch, answer, sendTo, modifySession, hs, setSession, AList.lookup_insert, Option.some.injEq] at hs'
    exact .of_plain (.pingresp hsel) hs'.symm
  | disconnect d => exact .of_lookup hs (by rw [dispatch, handleClientDisconnect_broker]) hs'
  | _ => exact .of_lookup hs rfl hs'

theorem removeIfOffline_lookup {b : Broker} {c : String} {e : Nat}
    (hs' : (removeIfOffline b c e).broker.sessions.lookup cid = some s') :
    (removeIfOffline b c e).broker.sessions.lookup cid = b.sessions.lookup cid := by
  unfold removeIfOffline at hs' ⊢
  split at hs'
  · rfl
  · split at hs'
    · rename_i he
      by_cases hc : cid = c
      · subst hc
        simp [removeSession] at hs'
      · simp only [he, if_true]
        exact AList.lookup_erase_ne hc
    · rename_i he
      simp [he]

theorem revoke_becomes {acl : Acl} (hsel : w.selected l.input = some (.revoke acl))
    (hs : w.broker.sessions.lookup cid = some s)
    (hs' : (revokeUnauthorized P l.ord w.broker acl).broker.sessions.lookup cid = some s') : Becomes P w l cid s s' := by
  cases he : acl.isEnforced with
  | false =>
    refine .of_lookup hs ?_ hs'
    simp [revokeUnauthorized, he]
  | true =>
    simp only [revokeUnauthorized, he, Bool.not_true, Bool.false_eq_true, if_false] at hs'
    obtain ⟨cmds, h⟩ := (lookup_iterMut (revokeVisit P acl) l.ord.sessions w.broker.sessions [] cid).2 s hs
    rw [h] at hs'
    cases hs'
    by_cases hr : (s.unauthorized P acl).isEmpty
    · refine .of_plain (.revoke hsel he (.inl rfl)) ?_
      simp [revokeVisit, hr, Session.applyAll, Session.apply]
    · refine .of_plain (.revoke hsel he (.inr rfl)) ?_
      simp [revokeVisit, hr, Session.applyAll, Session.apply]

/-- A CONNECT without clean start takes the session over. -/
theorem finishConnect_resumed (now : Nat) (ord : Orders) {b : Broker} {req : ConnectRequest}
    (hclean : req.connect.cleanStart = false) (hs : b.sessions.lookup req.clientId = some s) :
    (finishConnect P now ord b req).broker.sessions.lookup req.clientId =
      some (s.apply P (.resume now ord b.config b.acl req b.nextEpoch)).1 := by
  simp [finishConnect, resumed, boundSession, claimed, hclean, hs, Session.apply, Session.resumeBound]

/-- A CONNECT that finds no session, or asks for a clean start, makes one. -/
theorem finishConnect_fresh (now : Nat) (ord : Orders) {b : Broker} {req : ConnectRequest}
    (h : req.connect.cleanStart = true ∨ b.sessions.lookup req.clientId = none) :
    (finishConnect P now ord b req).broker.sessions.lookup req.clientId = some (freshSession now b req) := by
  have hp : (b.claimed req).2 = false := by
    rcases h with h | h
    · simp [claimed, h]
    · cases hc : req.connect.cleanStart <;> simp [claimed, h, hc]
  simp [finishConnect, resumed, boundSession, hp, claimed_absent hp, reauthorize, freshSession]

theorem connect_becomes {req : ConnectRequest} (hsel : w.selected l.input = some (.connect req))
    (hs : w.broker.sessions.lookup cid = some s)
    (hs' : (finishConnect P l.now l.ord w.broker req).broker.sessions.lookup cid = some s') : Becomes P w l cid s s' := by
  by_cases hc : cid = req.clientId
  · subst hc
    cases hclean : req.connect.cleanStart with
    | false =>
      rw [finishConnect_resumed l.now l.ord hclean hs] at hs'
      exact .of_plain (.resume hsel rfl hclean) (Option.some.inj hs').symm
    | true =>
      rw [finishConnect_fresh l.now l.ord (.inl hclean)] at hs'
      exact .fresh hsel rfl hclean (Option.some.inj hs').symm
  · refine .of_lookup hs ?_ hs'
    simp only [finishConnect]
    exact AList.lookup_insert_ne hc

theorem runTask_becomes {t : Task} (hsel : w.selected l.input = some t) (hs : w.broker.sessions.lookup cid = some s)
    (hs' : (runTask P l.now l.ord w.broker t).broker.sessions.lookup cid = some s') : Becomes P w l cid s s' := by
  cases t with
  | dispatch c e packet =>
    by_cases hc : cid = c
    · subst hc
      exact dispatch_becomes hsel hs hs'
    · exact dispatch_becomes_other hsel hs hc hs'
  | disconnectExpiry c e n pw =>
    simp only [runTask, disconnectExpiry] at hs'
    split at hs'
    · exact .of_lookup hs rfl hs'
    · rename_i s₀ hs₀
      by_cases hc : cid = c
      · subst hc
        rw [hs] at hs₀
        cases hs₀
        simp only [setSession, AList.lookup_insert, Option.some.injEq] at hs'
        exact .of_plain (.expiry hsel) hs'.symm
      · exact .of_lookup hs (AList.lookup_insert_ne hc) hs'
  | connect req => exact connect_becomes hsel hs hs'
  | closeRemove c e => exact .of_lookup hs (removeIfOffline_lookup hs') hs'
  | expiry c e due => exact .of_lookup hs (removeIfOffline_lookup hs') hs'
  | willSleep c e m owner due =>
    refine .of_lookup hs ?_ hs'
    simp only [runTask, willWake]
    split
    · split <;> rfl
    · rfl
  | willAuthorize c e m owner =>
    refine .of_lookup hs ?_ hs'
    simp only [runTask, willAuthorize]
    split <;> rfl
  | willPublish c e m => exact .of_receives (.will hsel) (publishMessage_receives l.now l.ord (.will c e) none m hs) hs'
  | revoke acl => exact revoke_becomes hsel hs hs'

theorem enter_becomes {c : Call} (hin : l.input = .call c) (hs : w.broker.sessions.lookup cid = some s)
    (hs' : (enter P w.clock l.now l.ord w.broker c).broker.sessions.lookup cid = some s') : Becomes P w l cid s s' := by
  cases c with
  | connect c identity =>
    exact .of_lookup hs (congrFun (congrArg Fleet.session (startConnect_fleet ..)) cid) hs'
  | packet c e packet =>
    refine .of_lookup hs ?_ hs'
    simp only [enter, handlePacket]
    split
    · split <;> rfl
    · rfl
  | closed c e pw =>
    simp only [enter, handleConnectionClosed] at hs'
    split at hs'
    · exact .of_lookup hs rfl hs'
    · rename_i s₀ hs₀
      split at hs'
      · by_cases hc : cid = c
        · subst hc
          rw [hs] at hs₀
          cases hs₀
          simp only [setSession, AList.lookup_insert, Option.some.injEq] at hs'
          exact .of_plain (.closed hin) hs'.symm
        · exact .of_lookup hs (AList.lookup_insert_ne hc) hs'
      · exact .of_lookup hs rfl hs'
  | reload fresh =>
    refine .of_lookup hs ?_ hs'
    simp only [enter, reloadAcl]
    split <;> rfl
  | snapshot => exact .of_lookup hs rfl hs'
  | publishSys entries => exact .of_receives (.sys hin) (publishSys_receives l.now l.ord entries hs) hs'
  | registerBridge name =>
    by_cases hc : cid = bridgeClient name
    · simp only [enter, registerBridge, ← hc, AList.lookup_insert, Option.some.injEq] at hs'
      exact .bridge hin hc hs'.symm
    · exact .of_lookup hs (AList.lookup_insert_ne hc) hs'
  | bridgeAddSubscription name filter noLocal =>
    by_cases hc : cid = bridgeClient name
    · subst hc
      simp only [enter, bridgeAddSubscription, modifySession, hs, setSession, AList.lookup_insert,
        Option.some.injEq] at hs'
      exact .of_plain (.bridge hin rfl) hs'.symm
    · exact .of_lookup hs (modifySession_lookup_ne _ _ hc) hs'
  | injectPublish name m =>
    exact .of_receives (.bridge hin)
      (publishMessage_receives l.now l.ord (.bridge (bridgeClient name)) (some (bridgeClient name)) m hs) hs'
  | deregisterBridge name e =>
    simp only [enter, deregisterBridge] at hs'
    split at hs'
    · split at hs'
      · by_cases hc : cid = bridgeClient name
        · simp [removeSession, ← hc] at hs'
        · exact .of_lookup hs (AList.lookup_erase_ne hc) hs'
      · exact .of_lookup hs rfl hs'
    · exact .of_lookup hs rfl hs'

theorem onChannel_becomes {c : String} {e : Nat} {g : OutTx → OutTx} {o : Op}
    (ho : ∀ s : Session, s.apply P o = ({ s with out := s.out.map g }, 0)) (hsees : Sees P w l cid s (plain [o]))
    (hs : w.broker.sessions.lookup cid = some s)
    (hs' : (w.broker.modifySession c (·.onChannel e g)).sessions.lookup cid = some s') : Becomes P w l cid s s' := by
  by_cases hc : cid = c
  · subst hc
    simp only [modifySession, hs, setSession, AList.lookup_insert, Option.some.injEq, Session.onChannel] at hs'
    split at hs'
    · refine .of_plain hsees ?_
      rw [← hs', Session.applyAll, ho]
      rfl
    · exact .same hs'.symm
  · exact .of_lookup hs (modifySession_lookup_ne _ _ hc) hs'

/-- **Inversion**: what a step does to a session that is there before and after it. -/
theorem step_becomes (P : Protocol) (w : World) (l : Label) (hs : w.broker.sessions.lookup cid = some s)
    (hs' : (step P w l).1.broker.sessions.lookup cid = some s') : Becomes P w l cid s s' := by
  cases hin : l.input with
  | call c =>
    simp only [step, hin, absorb] at hs'
    exact enter_becomes hin hs hs'
  | task i =>
    cases hsel : w.selected (.task i) with
    | none =>
      simp only [step, hin, hsel] at hs'
      exact .of_lookup hs rfl hs'
    | some t =>
      simp only [step, hin, hsel, absorb] at hs'
      exact runTask_becomes (hin ▸ hsel) hs hs'
  | sleep secs =>
    simp only [step, hin] at hs'
    exact .of_lookup hs rfl hs'
  | recv c e =>
    simp only [step, hin] at hs'
    exact onChannel_becomes (fun _ => rfl) .recv hs hs'
  | hangup c e =>
    simp only [step, hin] at hs'
    exact onChannel_becomes (fun _ => rfl) .hangup hs hs'

end World

end WispMQ
