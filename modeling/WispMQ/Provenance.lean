import WispMQ.Copies
import WispMQ.Fanout
import WispMQ.Holding
import WispMQ.Publishing
import WispMQ.Retained
import WispMQ.Subscribing
/-!
# Where messages come from

What the broker sends was published: every PUBLISH it has put into a channel, keeps in flight or in a queue says what one
message says, with its topic, payload and properties, at its QoS or a lower one. The message is that of a PUBLISH a client
sent, of a Will, of the broker itself or of a bridge, at some step of the run, or it was retained in the tables the broker
was started on (`all_brought`).

* `Publish.Tells` — a packet says what a message says.
* `Session.From` — all that a session carries tells of certain messages.
* `World.Brought` — the messages a step brings in.
-/

namespace WispMQ
open KeyMap

/-- The packet says what the message says. The packet id, the DUP flag, the subscription identifiers and what is left of the
lifetime belong to the delivery. -/
structure Publish.Tells (m : Message) (q : Publish) : Prop where
  topic : q.topic = m.topic
  payload : q.payload = m.payload
  qos : q.qos.asU8 ≤ m.qos.asU8
  retain : q.retain = true → m.retain = true
  payloadFormatIndicator : q.properties.payloadFormatIndicator = m.payloadFormatIndicator
  contentType : q.properties.contentType = m.contentType
  responseTopic : q.properties.responseTopic = m.responseTopic
  correlationData : q.properties.correlationData = m.correlationData
  userProperties : q.properties.userProperties = m.userProperties

theorem Message.tells_toPublish {m : Message} {qos : QoS} {retain : Bool} (hqos : qos.asU8 ≤ m.qos.asU8)
    (hretain : retain = true → m.retain = true) (now : Nat) (id : Option Nat) (subIds : List Nat) :
    (m.toPublish now qos id retain subIds).Tells m :=
  ⟨rfl, rfl, hqos, hretain, rfl, rfl, rfl, rfl, rfl⟩

theorem Publish.Tells.dup {m : Message} {q : Publish} (h : q.Tells m) : Publish.Tells m { q with dup := true } :=
  ⟨h.topic, h.payload, h.qos, h.retain, h.payloadFormatIndicator, h.contentType, h.responseTopic, h.correlationData,
    h.userProperties⟩

/-- The entry is for a message in `K`, at its QoS or a lower one. -/
def Pending.IsFrom (K : Message → Prop) (p : Pending) : Prop :=
  K p.message ∧ p.qos.asU8 ≤ p.message.qos.asU8 ∧ (p.retain = true → p.message.retain = true)

/-- The packet tells of a message in `K`. -/
def Publish.IsFrom (K : Message → Prop) (q : Publish) : Prop := ∃ m, K m ∧ q.Tells m

theorem packs_from (K : Message → Prop) : Packs (Pending.IsFrom K) (Publish.IsFrom K) where
  render p hp now id := ⟨p.message, hp.1, Message.tells_toPublish hp.2.1 hp.2.2 now (some id) p.subscriptionIds⟩
  unacknowledged p hp now :=
    ⟨p.message, hp.1, Message.tells_toPublish (Nat.zero_le _) hp.2.2 now none p.subscriptionIds⟩
  dup _ hq := hq.imp fun _ hm => ⟨hm.1, hm.2.dup⟩

/-- An operation that delivers delivers a message in `K`, at its QoS or a lower one. -/
abbrev Op.IsFrom (K : Message → Prop) (o : Op) : Prop := o.Delivers (Pending.IsFrom K)

/-- Everything a session holds or has sent is from `K`. -/
abbrev Session.From (K : Message → Prop) (s : Session) : Prop := s.Carries (Pending.IsFrom K) (Publish.IsFrom K)

theorem Session.From.mono {K K' : Message → Prop} {s : Session} (hK : ∀ m, K m → K' m) (h : s.From K) : s.From K' :=
  Carries.mono (fun p hp => ⟨hK p.message hp.1, hp.2⟩) (fun _ hq => hq.imp fun m hm => ⟨hK m hm.1, hm.2⟩) h

/-! ## The broker -/

theorem QoS.asU8_min_le (a b : QoS) : (a.min b).asU8 ≤ a.asU8 := by cases a <;> cases b <;> decide

namespace Broker
open Session
variable {P : Protocol} {K K' : Message → Prop} {b b' : Broker} {cid : String} {s : Session}

/-- The deliveries of `route` are from the message. -/
theorem deliveries_from {now : Nat} {ord : Orders} {publisher : Option String} {m : Message} (hm : K m) :
    ∀ o ∈ b.deliveries P now ord publisher m cid, o.isResume = false ∧ o.IsFrom K := by
  intro o ho
  rcases List.mem_append.1 ho with ho | ho
  · obtain ⟨d, hd, rfl⟩ := Option.map_eq_some_iff.1 (Option.mem_toList.1 ho)
    have hcopy := ordinary_isOrdinary hd
    obtain ⟨sub, -, hqos⟩ := hcopy.qos_mem
    exact ⟨rfl, hm, by rw [hqos]; exact QoS.asU8_min_le .., fun h => (hcopy.retain.1 h).1⟩
  · obtain ⟨c, hc, rfl⟩ := List.mem_map.1 ho
    obtain ⟨sub, -, -, -, he⟩ := chosen_sharedVia ord b c (List.mem_of_mem_filter hc)
    rw [he]
    refine ⟨rfl, hm, QoS.asU8_min_le .., fun h => ?_⟩
    simp only [candidate] at h
    split at h
    · exact h
    · cases h

/-- All that the sessions hold or have sent is from `K`. -/
def AllFrom (K : Message → Prop) (b : Broker) : Prop := ∀ cid s, b.sessions.lookup cid = some s → s.From K

namespace AllFrom

theorem congr (h : b.AllFrom K) (hs : b'.sessions = b.sessions) : b'.AllFrom K := by
  rw [AllFrom, hs]
  exact h

theorem setSession (h : b.AllFrom K) (hs : s.From K) (cid : String) : (b.setSession cid s).AllFrom K := by
  intro c s' hs'
  simp only [Broker.setSession] at hs'
  rw [lookup_insert_if] at hs'
  split at hs'
  · cases hs'
    exact hs
  · exact h c s' hs'

theorem route (h : b.AllFrom K) (now : Nat) (ord : Orders) (publisher : Option String) {m : Message} (hm : K m) :
    (route P now ord b publisher m).1.AllFrom K := by
  intro cid s' hs'
  cases hs : b.sessions.lookup cid with
  | none =>
    rw [route_lookup_none now ord hs] at hs'
    cases hs'
  | some s =>
    rw [route_lookup now ord publisher m hs] at hs'
    cases hs'
    exact (h cid s hs).applyAll (packs_from K) (deliveries_from hm)

theorem acknowledge (h : b.AllFrom K) (c : String) (qos : QoS) (ack : PubAck) : (b.acknowledge c qos ack).AllFrom K := by
  intro cid s' hs'
  by_cases hc : cid = c
  · subst hc
    cases hs : b.sessions.lookup cid with
    | none =>
      rw [Broker.acknowledge] at hs'
      cases hack : publishAck qos ack with
      | none => simp [hack, hs] at hs'
      | some q => simp [hack, sendTo, modifySession, hs] at hs'
    | some s =>
      rw [acknowledge_lookup_self qos ack hs] at hs'
      cases hack : publishAck qos ack with
      | none =>
        simp only [hack, Option.map_none, Option.getD_none, Option.some.injEq] at hs'
        exact hs' ▸ h cid s hs
      | some q =>
        simp only [hack, Option.map_some, Option.getD_some, Option.some.injEq] at hs'
        exact hs' ▸ (h cid s hs).apply (P := .reference) (o := .control q) (packs_from K) rfl trivial
  · rw [acknowledge_lookup_ne qos ack hc] at hs'
    exact h cid s' hs'

theorem publishMessage (h : b.AllFrom K) (now : Nat) (ord : Orders) (origin : Origin) (publisher : Option String) {m : Message}
    (hm : K m) : (publishMessage P now ord b origin publisher m).broker.AllFrom K :=
  (h.congr (storeRetained_sessions b origin m)).route now ord publisher hm

theorem publishSys (now : Nat) (ord : Orders) : ∀ (entries : List (String × Bytes)) {b : Broker}, b.AllFrom K →
    (∀ e ∈ entries, K (sysMessage e.1 e.2)) → (publishSys P now ord entries b).broker.AllFrom K
  | [], _, h, _ => h
  | (topic, body) :: entries, b, h, hK => by
    obtain ⟨hm, hrest⟩ := List.forall_mem_cons.1 hK
    exact publishSys now ord entries
      (route (b := { b with retained := b.retained.insert topic (sysMessage topic body) }) h now ord none hm) hrest

theorem routePublish (h : b.AllFrom K) (now : Nat) (ord : Orders) {c : String} (epoch : Nat) {p : Publish} {m : Message}
    (hs : s.From K) (hm : .routed (.publish c epoch) m ∈ (routePublish P now ord b c epoch s p m).2 → K m) :
    (routePublish P now ord b c epoch s p m).1.AllFrom K := by
  simp only [Broker.routePublish] at hm ⊢
  split at hm
  · exact h.route now ord _ (hm (by simp))
  · exact (h.route now ord _ (hm (by simp))).acknowledge _ _ _
  · split at hm
    · rename_i hdup
      simp only [hdup, if_true]
      exact h.acknowledge _ _ _
    · rename_i hdup
      simp only [hdup, if_false]
      exact ((h.setSession (hs.apply (P := P) (o := .inbound (p.packetId.getD 0)) (packs_from K) rfl trivial) c).route now ord _
        (hm (by simp))).acknowledge _ _ _

theorem acceptPublish (h : b.AllFrom K) (now : Nat) (ord : Orders) {c : String} (epoch : Nat) {p : Publish} (hs : s.From K)
    (hm : ∀ m, .routed (.publish c epoch) m ∈ (acceptPublish P now ord b c epoch s p).effects → K m) :
    (acceptPublish P now ord b c epoch s p).broker.AllFrom K := by
  unfold Broker.acceptPublish at hm ⊢
  split
  · exact h
  split
  · exact h
  split
  · exact h.acknowledge _ _ _
  · rename_i h1 h2 h3
    simp only [h1, h2, h3, Bool.false_eq_true, if_false] at hm
    exact (h.congr (storeRetained_sessions ..)).routePublish now ord epoch hs
      fun h => hm _ (List.mem_append_left _ (List.mem_append_right _ h))

theorem handlePublish (h : b.AllFrom K) (now : Nat) (ord : Orders) {c : String} (epoch : Nat) {p : Publish}
    (hm : ∀ m, .routed (.publish c epoch) m ∈ (handlePublish P now ord b c epoch p).effects → K m) :
    (handlePublish P now ord b c epoch p).broker.AllFrom K := by
  rcases handlePublish_cases P now ord b c epoch p with ⟨rc, he⟩ | ⟨s₀, s₁, p₁, hs₀, -, hr, he⟩
  · rw [he]
    exact h
  · rw [he] at hm ⊢
    have hs₁ : s₁.From K := by
      rcases resolveAlias_ok (P := P) hr with rfl | ⟨a, rfl⟩
      · exact h c s₁ hs₀
      · exact (h c s₀ hs₀).apply (packs_from K) rfl trivial
    have hcounted : AllFrom K { b with metrics.publishReceived := b.metrics.publishReceived + 1 } := h.congr rfl
    exact (hcounted.setSession hs₁ c).acceptPublish now ord epoch hs₁ hm

end AllFrom

theorem publishSys_routes (now : Nat) (ord : Orders) {e : String × Bytes} : ∀ (entries : List (String × Bytes)) (b : Broker),
    e ∈ entries → .routed .sys (sysMessage e.1 e.2) ∈ (publishSys P now ord entries b).effects
  | [], _, h => by cases h
  | _ :: entries, b, h => by
    rcases List.mem_cons.1 h with rfl | h
    · simp [publishSys]
    · exact List.mem_cons_of_mem _ (List.mem_cons_of_mem _ (publishSys_routes now ord entries _ h))

/-- `publish_sys` publishes what is in its entries. -/
theorem publishSys_entry (now : Nat) (ord : Orders) {x : Effect} : ∀ (entries : List (String × Bytes)) (b : Broker),
    x ∈ (publishSys P now ord entries b).effects → ∃ e ∈ entries, x.published = some (.sys, sysMessage e.1 e.2)
  | [], _, h => by cases h
  | e :: entries, b, h => by
    simp only [publishSys, List.mem_cons] at h
    rcases h with rfl | rfl | h
    · exact ⟨e, List.mem_cons_self, rfl⟩
    · exact ⟨e, List.mem_cons_self, rfl⟩
    · obtain ⟨e', he', hx⟩ := publishSys_entry now ord entries _ h
      exact ⟨e', List.mem_cons_of_mem _ he', hx⟩

/-- What a SUBSCRIBE picks up is retained. -/
theorem subscribeFilters_retained (now : Nat) (ord : Orders) (b : Broker) (cid : String) (subId : Option Nat)
    {Q : Message × QoS × List Nat → Prop}
    (hQ : ∀ topic m qos ids, b.retained.lookup topic = some m → Q (m, m.qos.min qos, ids)) :
    ∀ (fs : List TopicFilter) (acc : SubscribeAcc), (∀ e ∈ acc.retainedToSend, Q e) →
      ∀ e ∈ (fs.foldl (subscribeFilter P now ord b cid subId) acc).retainedToSend, Q e
  | [], _, h => h
  | f :: fs, acc, h => by
    refine subscribeFilters_retained now ord b cid subId hQ fs _ ?_
    unfold subscribeFilter
    split
    · exact h
    · cases P.parseFilter f.filter with
      | none => exact h
      | some parsed =>
        simp only
        split
        · exact h
        · intro e he
          rcases List.mem_append.1 he with he | he
          · exact h e he
          · split at he
            · obtain ⟨⟨topic, m⟩, hx, rfl⟩ := List.mem_map.1 he
              exact hQ topic m _ _ (mem_entries_iff.1 (mem_reorder.1 (List.mem_of_mem_filter hx)))
            · cases he

/-- SUBSCRIBE delivers retained messages. -/
theorem handleSubscribe_from {now : Nat} {ord : Orders} {sub : Subscribe} {s' : Session} (hs : b.sessions.lookup cid = some s)
    (h : s.From K) (hret : ∀ topic m, b.retained.lookup topic = some m → K m ∧ m.retain = true)
    (hs' : (handleSubscribe P now ord b cid s.epoch sub).broker.sessions.lookup cid = some s') : s'.From K := by
  obtain ⟨subs, -, hsession, -⟩ := subscribeFilters_sees (P := P) now ord b cid sub.subscriptionIdentifiers.head?
    sub.filters { session := s }
  have hretained := subscribeFilters_retained (P := P) now ord b cid sub.subscriptionIdentifiers.head?
    (Q := fun e => Pending.IsFrom K ⟨e.1, e.2.1, true, e.2.2⟩)
    (fun topic m qos ids hm => ⟨(hret topic m hm).1, QoS.asU8_min_le .., fun _ => (hret topic m hm).2⟩) sub.filters
    { session := s } (by simp)
  set acc := sub.filters.foldl (subscribeFilter P now ord b cid sub.subscriptionIdentifiers.head?) { session := s } with hacc
  simp only [handleSubscribe, fenced, hs, if_true, addDropped, Broker.setSession, AList.lookup_insert, Option.some.injEq,
    ← hacc] at hs'
  rw [← hs', deliverRetained_sees, hsession]
  refine Carries.applyAll (packs_from K) ?_ fun o ho => ?_
  · refine Carries.apply (P := P) (o := .control (.suback ⟨sub.packetId, acc.reasonCodes⟩)) (packs_from K) ?_ rfl trivial
    refine h.applyAll (packs_from K) fun o ho => ?_
    obtain ⟨sub, -, rfl⟩ := List.mem_map.1 ho
    exact ⟨rfl, trivial⟩
  · obtain ⟨e, he, rfl⟩ := List.mem_map.1 ho
    exact ⟨rfl, hretained e he⟩

end Broker

/-! ## Every step -/

namespace World
open Broker Session
variable {P : Protocol} {K : Message → Prop} {w : World} {l : Label} {cid : String} {s s' : Session}

/-- A step that routes nothing delivers nothing but retained messages. -/
theorem Sees.no_deliveries {v : List (Op × List String)} (h : Sees P w l cid s v) (hroute : ¬MayRoute w l)
    (hsub : ∀ sub, w.selected l.input ≠ some (.dispatch cid s.epoch (.subscribe sub)))
    (hconn : ∀ req, w.selected l.input = some (.connect req) → cid ≠ req.clientId) :
    ∀ o ∈ v.map Prod.fst, o.isResume = false ∧ o.IsFrom K := by
  cases h with
  | nothing => simp
  | routed hr => exact absurd hr hroute
  | publish hsel => exact absurd (.publish hsel) hroute
  | @ack packet o hsel ho => cases packet <;> simp [ackOp] at ho <;> subst ho <;> simp [plain, Op.isResume, Op.Delivers]
  | subscribe hsel => exact absurd hsel (hsub _)
  | unsubscribe =>
    intro o ho
    simp only [plain_fst, List.mem_append, List.mem_map, List.mem_singleton] at ho
    rcases ho with ⟨u, -, rfl⟩ | rfl <;> exact ⟨rfl, trivial⟩
  | revoke _ _ h => rcases h with rfl | rfl <;> simp [plain, Op.isResume, Op.Delivers]
  | resume hsel hc => exact absurd hc (hconn _ hsel)
  | _ => simp [plain, Op.isResume, Op.Delivers]

theorem freshSession_from (now : Nat) (b : Broker) {req : ConnectRequest} (hout : req.out = {}) :
    (freshSession now b req).From K :=
  .of_empty rfl rfl rfl (by
    have hreq : (freshSession now b req).out = some req.out := rfl
    simp [channelItems, hreq, hout])

/-- All that the sessions hold or have sent, and all that is retained, is from `K`. -/
structure Told (K : Message → Prop) (w : World) : Prop where
  sessions : w.broker.AllFrom K
  retained : ∀ topic m, w.broker.retained.lookup topic = some m → K m ∧ m.retain = true

theorem step_allFrom (h : w.Told K) (hK : ∀ origin m, .routed origin m ∈ (step P w l).2 → K m)
    (hout : ∀ req, w.selected l.input = some (.connect req) → req.out = {}) : (step P w l).1.broker.AllFrom K := by
  by_cases hroute : MayRoute w l
  · cases hroute with
    | publish hsel =>
      rw [(step_of_selected hsel).1]
      rw [(step_of_selected hsel).2] at hK
      exact h.sessions.handlePublish l.now l.ord _ fun m hm => hK _ m hm
    | @will c e m hsel =>
      rw [(step_of_selected hsel).1]
      rw [(step_of_selected hsel).2] at hK
      exact h.sessions.publishMessage l.now l.ord _ _ (hK (.will c e) m (by simp [runTask, willPublish, publishMessage]))
    | sys hin =>
      simp only [step, hin, absorb] at hK ⊢
      refine AllFrom.publishSys l.now l.ord _ h.sessions fun e he => hK .sys _ ?_
      exact publishSys_routes l.now l.ord _ w.broker he
    | @bridge name m hin =>
      simp only [step, hin, absorb] at hK ⊢
      exact h.sessions.publishMessage l.now l.ord _ _
        (hK (.bridge (bridgeClient name)) m (by simp [enter, injectPublish, publishMessage]))
  intro cid s' hs'
  cases hs : w.broker.sessions.lookup cid with
  | none =>
    cases step_stems P w l hs' with
    | fresh hsel _ _ he =>
      rw [he]
      exact freshSession_from l.now w.broker (hout _ hsel)
    | bridge _ _ he =>
      rw [he]
      exact .of_empty rfl rfl rfl rfl
    | same hs₀ => rw [hs] at hs₀; cases hs₀
    | publish hs₀ => rw [hs] at hs₀; cases hs₀
    | closed hs₀ => rw [hs] at hs₀; cases hs₀
    | resumed hs₀ => rw [hs] at hs₀; cases hs₀
  | some s =>
    have hfrom := h.sessions cid s hs
    by_cases hsubscribe : ∃ sub, w.selected l.input = some (.dispatch cid s.epoch (.subscribe sub))
    · obtain ⟨sub, hsel⟩ := hsubscribe
      rw [(step_of_selected hsel).1] at hs'
      exact handleSubscribe_from hs hfrom h.retained hs'
    by_cases hconn : ∃ req, w.selected l.input = some (.connect req) ∧ cid = req.clientId
    · obtain ⟨req, hsel, rfl⟩ := hconn
      rw [(step_of_selected hsel).1, runTask] at hs'
      cases hclean : req.connect.cleanStart with
      | false =>
        rw [finishConnect_resumed l.now l.ord hclean hs] at hs'
        cases hs'
        exact hfrom.resume (packs_from K) l.now l.ord _ _ _ (hout req hsel)
      | true =>
        rw [finishConnect_fresh l.now l.ord (.inl hclean)] at hs'
        cases hs'
        exact freshSession_from l.now w.broker (hout req hsel)
    cases step_becomes P w l hs hs' with
    | sees hv he =>
      rw [he]
      exact hfrom.applyAll (packs_from K)
        (hv.no_deliveries hroute (fun sub hsel => hsubscribe ⟨sub, hsel⟩) fun req hsel hc => hconn ⟨req, hsel, hc⟩)
    | fresh hsel hc => exact absurd ⟨_, hsel, hc⟩ hconn
    | bridge _ _ he =>
      rw [he]
      exact .of_empty rfl rfl rfl rfl

theorem step_told (h : w.Told K) (hK : ∀ x ∈ (step P w l).2, ∀ origin m, x.published = some (origin, m) → K m)
    (hout : ∀ req, w.selected l.input = some (.connect req) → req.out = {}) : (step P w l).1.Told K := by
  refine ⟨step_allFrom h (fun origin m hx => hK _ hx origin m rfl) hout, fun topic m hm => ?_⟩
  rcases step_retained hm with hm | ⟨-, origin, hx⟩
  · exact h.retained topic m hm
  · refine ⟨hK _ hx origin m rfl, ?_⟩
    cases step_emits hx with
    | retain _ hflag => exact hflag

/-! ## Every run -/

/-- How a message comes into the run `ls` of a broker that is started on the tables `db`. -/
inductive Brought (P : Protocol) (now : Nat) (cfg : Config) (db : Db) (acl : Acl) (auth : Option Credentials)
    (ls : List Label) : Message → Prop
  /-- It was retained. -/
  | loaded {topic : String} {row : RetainedRow} (h : db.retained.lookup topic = some row) :
      Brought P now cfg db acl auth ls (row.toMessage P topic)
  /-- A client published it, and was allowed to. -/
  | published {pre post : List Label} {l : Label} {cid : String} {e : Nat} {p p' : Publish} {s : Session}
      (hls : ls = pre ++ l :: post)
      (hsel : (run P (boot P now cfg db acl auth) pre).1.selected l.input = some (.dispatch cid e (.publish p)))
      (hres : (run P (boot P now cfg db acl auth) pre).1.broker.Resolves cid e p s p')
      (hallowed : (run P (boot P now cfg db acl auth) pre).1.broker.acl.canPublish P (who s.identity) p'.topic) :
      Brought P now cfg db acl auth ls (Message.fromPublish l.now p')
  /-- It is the Will of a connection that was accepted. -/
  | will {pre post : List Label} {l : Label} {cid : String} {e delay : Nat} {m : Message} (hls : ls = pre ++ l :: post)
      (h : (run P (boot P now cfg db acl auth) pre).1.Stores l cid e m delay) : Brought P now cfg db acl auth ls m
  | sys {pre post : List Label} {l : Label} {entries : List (String × Bytes)} {e : String × Bytes}
      (hls : ls = pre ++ l :: post) (hin : l.input = .call (.publishSys entries)) (he : e ∈ entries) :
      Brought P now cfg db acl auth ls (sysMessage e.1 e.2)
  /-- A bridge injected it. -/
  | bridge {pre post : List Label} {l : Label} {name : String} {m : Message} (hls : ls = pre ++ l :: post)
      (hin : l.input = .call (.injectPublish name m)) : Brought P now cfg db acl auth ls m

section Boot
variable {now : Nat} {cfg : Config} {db : Db} {acl : Acl} {auth : Option Credentials} {ls : List Label} {m : Message}

theorem Brought.extend (h : Brought P now cfg db acl auth ls m) (l : Label) : Brought P now cfg db acl auth (ls ++ [l]) m := by
  have hsplit : ∀ {pre post : List Label} {l' : Label}, ls = pre ++ l' :: post → ls ++ [l] = pre ++ l' :: (post ++ [l]) := by
    rintro pre post l' rfl
    simp
  cases h with
  | loaded h => exact .loaded h
  | published hls hsel hres hallowed => exact .published (hsplit hls) hsel hres hallowed
  | will hls h => exact .will (hsplit hls) h
  | sys hls hin he => exact .sys (hsplit hls) hin he
  | bridge hls hin => exact .bridge (hsplit hls) hin

/-- What a step publishes comes into the run there, or is the Will of an earlier step. -/
theorem brought_of_published {l : Label} {x : Effect} {origin : Origin}
    (hx : x ∈ (step P (run P (boot P now cfg db acl auth) ls).1 l).2) (hp : x.published = some (origin, m)) :
    Brought P now cfg db acl auth (ls ++ [l]) m := by
  have hissues : Issues (run P (boot P now cfg db acl auth) ls).1 l origin m := by
    cases step_emits hx with
    | retain h => cases hp; exact h
    | routed h => cases hp; exact h
    | _ => cases hp
  cases hissues with
  | publish =>
    obtain ⟨p, s, p', hsel, hres, rfl, hallowed⟩ := step_published hx hp
    exact .published rfl hsel hres hallowed
  | @will c e =>
    have hwill : x.will = some (c, e, m) := by
      unfold Effect.published at hp
      split at hp
      · cases hp; rfl
      · cases hp; rfl
      · cases hp
    obtain ⟨pre, conn, mid, close, post, l', rest, delay, hls, hstores, -⟩ :=
      published_will (Machine.emitted_of_step (step P) hx []) hwill
    exact .will hls hstores
  | sys hin =>
    simp only [step, hin, absorb] at hx
    obtain ⟨e, he, hx⟩ := publishSys_entry l.now l.ord _ _ hx
    rw [hx, Option.some.injEq, Prod.mk.injEq] at hp
    exact hp.2 ▸ .sys rfl hin he
  | bridge hin => exact .bridge rfl hin

theorem boot_told : (boot P now cfg db acl auth).Told (Brought P now cfg db acl auth []) := by
  refine ⟨fun cid s hs => ?_, fun topic m hm => ?_⟩
  · rw [boot_lookup] at hs
    split at hs
    · cases hs
    · obtain ⟨row, -, rfl⟩ := Option.map_eq_some_iff.1 hs
      exact .of_empty rfl rfl rfl rfl
  · rw [boot_retained, unexpired, Option.filter_eq_some_iff] at hm
    obtain ⟨row, hrow, rfl⟩ := Option.map_eq_some_iff.1 hm.1
    exact ⟨.loaded hrow, rfl⟩

theorem run_told (ls : List Label) :
    (run P (boot P now cfg db acl auth) ls).1.Told (Brought P now cfg db acl auth ls) := by
  induction ls using List.reverseRecOn with
  | nil => exact boot_told
  | append_singleton ls l ih =>
    rw [run_append]
    refine step_told (K := Brought P now cfg db acl auth (ls ++ [l])) ⟨fun cid s hs => ?_, fun topic m hm => ?_⟩ ?_
      fun req h => (run_connect h).1
    · exact (ih.sessions cid s hs).mono fun m hm => hm.extend l
    · exact ⟨(ih.retained topic m hm).1.extend l, (ih.retained topic m hm).2⟩
    · exact fun x hx origin m hp => brought_of_published hx hp

end Boot

/-- **The broker makes no messages**: in every state of a run, every PUBLISH it has put into the channel of a connection,
keeps in flight or in a queue is from a message that was brought into the run, and so is every retained message. -/
theorem all_brought (P : Protocol) (now : Nat) (cfg : Config) (db : Db) (acl : Acl) (auth : Option Credentials)
    (ls : List Label) :
    (∀ cid s, (run P (boot P now cfg db acl auth) ls).1.broker.sessions.lookup cid = some s →
      s.From (Brought P now cfg db acl auth ls)) ∧
    ∀ topic m, (run P (boot P now cfg db acl auth) ls).1.broker.retained.lookup topic = some m →
      Brought P now cfg db acl auth ls m ∧ m.retain = true :=
  ⟨(run_told ls).sessions, (run_told ls).retained⟩

end World

end WispMQ
