import WispMQ.Views
import WispMQ.Pushes
/-!
# Inbound QoS 2: the packet id set

`inbound_qos2` remembers the packet ids of QoS 2 PUBLISH packets until their PUBREL. `step_keepsQos2` says which steps
leave it and the answers in the channel alone, `Qos2Outcome` what a QoS 2 PUBLISH can come to. The authorization check
comes before the duplicate check, so a copy that is refused leaves the id of an earlier one in the set.
-/

namespace WispMQ
open KeyMap

/-! ## What touches the set -/

/-- A PUBREC or a PUBCOMP. -/
def Outgoing.isQos2Reply : Outgoing → Bool
  | .control (.pubrec _) | .control (.pubcomp _) => true
  | _ => false

/-- The operation neither changes `inbound_qos2` nor answers a QoS 2 exchange. -/
def Op.leavesQos2 : Op → Bool
  | .inbound _ | .pubrel _ | .resume .. => false
  | .control p => !(Outgoing.control p).isQos2Reply
  | _ => true

namespace Session
variable {P : Protocol} {s s' s'' : Session}

/-- The set is the same, and the channel gets no PUBREC and no PUBCOMP. -/
structure KeepsQos2 (s s' : Session) : Prop where
  inbound : s'.inboundQos2 = s.inboundQos2
  grows : Grows (fun i => i.isQos2Reply = false) s s'

namespace KeepsQos2

theorem refl (s : Session) : KeepsQos2 s s := ⟨rfl, .refl s⟩

theorem trans (h : KeepsQos2 s s') (h' : KeepsQos2 s' s'') : KeepsQos2 s s'' :=
  ⟨h'.inbound.trans h.inbound, h.grows.trans h'.grows⟩

end KeepsQos2

theorem Launched.inbound {now id : Nat} {p : Pending} (h : Launched now s p id s') :
    s'.inboundQos2 = s.inboundQos2 := by
  obtain ⟨tx, -, -, rfl⟩ := h.sent
  cases p.qos <;> rfl

theorem flushQueue_inbound (P : Protocol) (now : Nat) (s : Session) :
    (flushQueue P now s).1.inboundQos2 = s.inboundQos2 := by
  obtain ⟨q, s', he, hs'⟩ := flushLoop_rule P now (fun _ s' _ => s'.inboundQos2 = s.inboundQos2) (fun _ _ _ h => h)
    (fun _ _ _ _ _ h => h) (fun _ _ _ _ _ h => h) (fun _ _ _ _ _ _ _ hl h => hl.inbound.trans h) s.queue s [] rfl
  rw [flushQueue, he]
  exact hs'

theorem push_inbound (s : Session) (item : Outgoing) : (s.push item).inboundQos2 = s.inboundQos2 := by
  cases h : s.trySend item with
  | none => rw [push, h, Option.getD_none]
  | some s' =>
    obtain ⟨tx, -, -, rfl⟩ := trySend_some h
    rw [push, h, Option.getD_some]

theorem deliver_inbound (P : Protocol) (now : Nat) (s : Session) (m : Message) (qos : QoS) (retain : Bool)
    (subIds : List Nat) (maxQueued : Nat) :
    (deliver P now s m qos retain subIds maxQueued).1.inboundQos2 = s.inboundQos2 := by
  have henq : ∀ (s : Session) (p : Pending), (s.enqueue p maxQueued).1.inboundQos2 = s.inboundQos2 := by
    intro s p
    unfold enqueue
    split <;> rfl
  have hd := deliver_delivered P now s m qos retain subIds maxQueued
  generalize (deliver P now s m qos retain subIds maxQueued).1 = s',
    (deliver P now s m qos retain subIds maxQueued).2 = fate at hd
  cases hd with
  | expired => rfl
  | offline => rfl
  | discarded => rfl
  | pushed _ h =>
    obtain ⟨tx, -, -, rfl⟩ := trySend_some h
    rfl
  | launched _ _ _ hl => exact hl.inbound
  | queued _ _ hs =>
    rcases hs with rfl | rfl
    · exact henq _ _
    · exact henq _ _

theorem apply_inbound (s : Session) {o : Op} (h : o.leavesQos2) : (s.apply P o).1.inboundQos2 = s.inboundQos2 := by
  cases o with
  | deliver now m qos retain subIds maxQueued => exact deliver_inbound P now s m qos retain subIds maxQueued
  | control p => exact push_inbound s _
  | shutdown rc => exact push_inbound s _
  | puback now id => exact flushQueue_inbound P now _
  | pubcomp now id => exact flushQueue_inbound P now _
  | pubrec ack =>
    simp only [apply, pubrec]
    split
    · rfl
    · split
      · exact push_inbound _ _
      · split
        · rfl
        · exact push_inbound _ _
  | subscribe sub =>
    simp only [apply, upsertSubscription]
    split <;> rfl
  | inbound id => cases h
  | pubrel id => cases h
  | resume => cases h
  | _ => rfl

theorem apply_keepsQos2 (s : Session) {o : Op} (h : o.leavesQos2) : KeepsQos2 s (s.apply P o).1 := by
  refine ⟨apply_inbound s h, (apply_grows (P := P) s ?_).mono fun item hi => ?_⟩
  · cases o with
    | resume => cases h
    | _ => rfl
  · cases hi with
    | qos0 => rfl
    | launched => rfl
    | control => simpa [Op.leavesQos2] using h
    | shutdown => rfl
    | puback hf =>
      obtain ⟨p, -, id, rfl, -⟩ := hf
      rfl
    | pubcomp hf =>
      obtain ⟨p, -, id, rfl, -⟩ := hf
      rfl
    | pubrec => rfl
    | pubrel => cases h

theorem applyAll_keepsQos2 : ∀ {os : List Op} (s : Session), (∀ o ∈ os, o.leavesQos2) → KeepsQos2 s (s.applyAll P os).1
  | [], s, _ => .refl s
  | o :: os, s, h => by
    obtain ⟨ho, hos⟩ := List.forall_mem_cons.1 h
    exact (apply_keepsQos2 s ho).trans (applyAll_keepsQos2 _ hos)

/-- A takeover keeps the set. -/
theorem resume_inbound (now : Nat) (ord : Orders) (cfg : Config) (acl : Acl) (req : ConnectRequest) (epoch : Nat)
    (s : Session) : (s.apply P (.resume now ord cfg acl req epoch)).1.inboundQos2 = s.inboundQos2 := by
  have hbound : (s.resumeBound P now cfg acl req epoch).inboundQos2 = s.inboundQos2 := by
    simp only [resumeBound, Broker.reauthorize, takenOver]
    split <;> split <;> rfl
  have hresent : ∀ s : Session, (s.retransmit ord).inboundQos2 = s.inboundQos2 := fun s =>
    retransmit_rule (fun s' => s'.inboundQos2 = s.inboundQos2) (fun _ _ h => (push_inbound _ _).trans h)
      (fun _ _ h => (push_inbound _ _).trans h) ord rfl
  simp only [apply, resumeDelivery]
  split
  · rw [flushQueue_inbound, hresent, hbound]
  · exact hbound

/-- It pushes PUBLISH and PUBREL packets into the new channel, no answers. -/
theorem resume_grows (now : Nat) (ord : Orders) (cfg : Config) (acl : Acl) (req : ConnectRequest) (epoch : Nat)
    (s : Session) : Grows (fun i => i.isQos2Reply = false) { s with out := some req.out }
      (s.apply P (.resume now ord cfg acl req epoch)).1 := by
  have hbound : Grows (fun i => i.isQos2Reply = false) { s with out := some req.out }
      (s.resumeBound P now cfg acl req epoch) := by
    refine .of_out ?_
    simp only [resumeBound, Broker.reauthorize]
    split <;> rfl
  have hresent : ∀ s : Session, Grows (fun i => i.isQos2Reply = false) s (s.retransmit ord) := fun s =>
    retransmit_rule (Grows (fun i => i.isQos2Reply = false) s) (fun _ _ h => h.trans (.push rfl))
      (fun _ _ h => h.trans (.push rfl)) ord (.refl s)
  simp only [apply, resumeDelivery]
  split
  · refine (hbound.trans (hresent _)).trans ((flushQueue_grows (P := P) now _).mono ?_)
    rintro i ⟨p, -, id, rfl, -⟩
    rfl
  · exact hbound

end Session

/-- The packet belongs to an inbound QoS 2 exchange. -/
def Packet.isExchange : Packet → Bool
  | .publish p => p.qos = .exactlyOnce
  | .pubrel _ => true
  | _ => false

namespace World
open Broker Session
variable {P : Protocol} {w : World} {l : Label} {cid : String} {s s' : Session}

/-- The step is neither about the client's QoS 2 exchanges nor its CONNECT nor its bridge's. -/
structure Elsewhere (w : World) (l : Label) (cid : String) (s : Session) : Prop where
  exchange : ∀ packet, w.selected l.input = some (.dispatch cid s.epoch packet) → packet.isExchange = false
  connect : ∀ req, w.selected l.input = some (.connect req) → req.clientId ≠ cid
  bridge : ∀ name, l.input = .call (.registerBridge name) → bridgeClient name ≠ cid

theorem leavesQos2_of_via {subs : List Subscription} {o : Op} {via : List String} (h : DeliveredVia P cid subs o via) :
    o.leavesQos2 := by
  obtain ⟨now, publisher, m, qos, retain, subIds, maxQueued, rfl, -⟩ := h
  rfl

theorem leavesQos2_of_publish {p : Publish} {v : List (Op × List String)} (h : PublishOps P cid s p v)
    (hq : p.qos ≠ .exactlyOnce) : ∀ o ∈ v.map Prod.fst, o.leavesQos2 := by
  obtain ⟨pre, ds, post, rfl, hpre, hds, hpost⟩ := h
  intro o ho
  simp only [List.map_append, plain_fst, List.mem_append] at ho
  rcases ho with (ho | ho) | ho
  · rcases hpre o ho with ⟨a, topic, rfl⟩ | ⟨h, -⟩
    · rfl
    · exact absurd h hq
  · obtain ⟨x, hx, rfl⟩ := List.mem_map.1 ho
    exact leavesQos2_of_via (hds x hx)
  · obtain ⟨q, ack, hack, rfl⟩ := hpost o ho
    cases hqos : p.qos with
    | atMostOnce => simp [hqos, publishAck] at hack
    | atLeastOnce =>
      simp only [hqos, publishAck, Option.some.injEq] at hack
      subst hack
      rfl
    | exactlyOnce => exact absurd hqos hq

theorem Sees.leavesQos2 {v : List (Op × List String)} (h : Sees P w l cid s v) (he : Elsewhere w l cid s) :
    ∀ o ∈ v.map Prod.fst, o.leavesQos2 := by
  cases h with
  | nothing => simp
  | routed _ h =>
    intro o ho
    obtain ⟨x, hx, rfl⟩ := List.mem_map.1 ho
    exact leavesQos2_of_via (h x hx)
  | publish hsel h =>
    refine leavesQos2_of_publish h ?_
    simpa [Packet.isExchange] using he.exchange _ hsel
  | ack hsel ho =>
    rename_i packet o
    cases packet <;> simp [ackOp] at ho <;> subst ho <;> simp [Op.leavesQos2]
  | pubrel hsel => exact absurd (he.exchange _ hsel) (by simp [Packet.isExchange])
  | subscribe hsel h =>
    obtain ⟨subs, suback, ds, rfl, -, hds⟩ := h
    intro o ho
    simp only [List.map_append, plain_fst, List.mem_append, List.mem_map, List.mem_singleton] at ho
    rcases ho with (⟨sub, -, rfl⟩ | rfl) | ⟨x, hx, rfl⟩
    · rfl
    · rfl
    · obtain ⟨⟨now, m, qos, retain, subIds, maxQueued, hx⟩, -⟩ := hds x hx
      rw [hx]
      rfl
  | unsubscribe =>
    intro o ho
    simp only [plain_fst, List.mem_append, List.mem_map, List.mem_singleton] at ho
    rcases ho with ⟨u, -, rfl⟩ | rfl
    · rfl
    · rfl
  | revoke hsel henf h =>
    rw [plain_fst]
    rcases h with rfl | rfl <;> simp [Op.leavesQos2]
  | resume hsel hc => exact absurd hc.symm (he.connect _ hsel)
  | _ => simp [plain, Op.leavesQos2, Outgoing.isQos2Reply]

/-- Steps elsewhere leave the set, the connection, and the PUBRECs and PUBCOMPs in its channel. -/
theorem step_keepsQos2 (P : Protocol) (he : Elsewhere w l cid s) (hs : w.broker.sessions.lookup cid = some s)
    (hs' : (step P w l).1.broker.sessions.lookup cid = some s') : KeepsQos2 s s' := by
  cases step_becomes P w l hs hs' with
  | sees h hv => exact hv ▸ applyAll_keepsQos2 s (h.leavesQos2 he)
  | fresh hsel hc => exact absurd hc.symm (he.connect _ hsel)
  | bridge hin hc => exact absurd hc.symm (he.bridge _ hin)

end World

/-! ## The two packets of an exchange -/

namespace Session
variable {s s₁ s' : Session}

/-- What a step added to the session's channel. -/
def gained (s s' : Session) : List Outgoing :=
  match s.out, s'.out with
  | some tx, some tx' => tx'.sent.drop tx.sent.length
  | _, _ => []

/-- The PUBRECs and PUBCOMPs among it. -/
def qos2Replies (s s' : Session) : List Outgoing := (s.gained s').filter Outgoing.isQos2Reply

theorem qos2Replies_eq_nil (h : Grows (fun i => i.isQos2Reply = false) s s') : s.qos2Replies s' = [] := by
  unfold qos2Replies gained
  cases hs : s.out with
  | none => rfl
  | some tx =>
    cases hs' : s'.out with
    | none => rfl
    | some tx' =>
      obtain ⟨tx₀, items, htx, hsent, hitems⟩ := h tx' hs'
      rw [hs] at htx
      cases htx
      simp only [hsent, List.drop_left]
      exact List.filter_eq_nil_iff.2 fun i hi => by simp [hitems i hi]

/-- A reply is tried last: it is gained or lost. -/
theorem qos2Replies_push (h : Grows (fun i => i.isQos2Reply = false) s s₁) (item : Outgoing) (hi : item.isQos2Reply) :
    s.qos2Replies (s₁.push item) = [] ∨ s.qos2Replies (s₁.push item) = [item] := by
  cases hsend : s₁.trySend item with
  | none =>
    left
    rw [push, hsend]
    exact qos2Replies_eq_nil h
  | some s₂ =>
    obtain ⟨tx₁, htx₁, -, rfl⟩ := trySend_some hsend
    obtain ⟨tx, items, htx, hsent, hitems⟩ := h tx₁ htx₁
    right
    have hnone : items.filter Outgoing.isQos2Reply = [] := List.filter_eq_nil_iff.2 fun i hi => by simp [hitems i hi]
    rw [push, hsend]
    simp only [qos2Replies, gained, htx, Option.getD_some, hsent, List.append_assoc, List.drop_left, List.filter_append,
      hnone, List.nil_append, List.filter_cons, hi, if_true, List.filter_nil]

end Session

/-- A QoS 2 message of the client is handed to `route`. -/
def Effect.routesQos2 (cid : String) : Effect → Bool
  | .routed (.publish c _) m => c = cid && m.qos = .exactlyOnce
  | _ => false

def routedCount (cid : String) (es : List Effect) : Nat := es.countP (Effect.routesQos2 cid)

/-- The policy refuses the PUBLISH. -/
def Broker.refusesPublish (P : Protocol) (b : Broker) (s : Session) (p : Publish) : Bool :=
  match resolveAlias b.config s p with
  | .ok (s, p) =>
    P.validTopicName p.topic && !startsWith p.topic sysPrefix && b.acl.isEnforced &&
      !b.acl.canPublish P (who s.identity) p.topic
  | .error _ => false

/-- What a QoS 2 PUBLISH comes to: the session after it, and how often it is routed. -/
inductive Qos2Outcome (P : Protocol) (b : Broker) (s : Session) (p : Publish) (s' : Session) (n : Nat) : Prop
  /-- A protocol error, or a superseded connection. -/
  | dropped (hk : s.KeepsQos2 s') (hn : n = 0)
  | refused {s₁ : Session} (hr : b.refusesPublish P s p) (hk : s.KeepsQos2 s₁)
      (he : s' = s₁.push (.control (.pubrec ⟨p.packetId.getD 0, .notAuthorized⟩))) (hn : n = 0)
  | duplicate {s₁ : Session} (hd : p.packetId.getD 0 ∈ s.inboundQos2) (hk : s.KeepsQos2 s₁)
      (he : s' = s₁.push (.control (.pubrec ⟨p.packetId.getD 0, .success⟩))) (hn : n = 0)
  | routed {s₁ : Session} {rc : ReasonCode} (hd : p.packetId.getD 0 ∉ s.inboundQos2)
      (hin : s₁.inboundQos2 = insert (p.packetId.getD 0) s.inboundQos2)
      (hg : s.Grows (fun i => i.isQos2Reply = false) s₁) (hrc : rc.isError = false)
      (he : s' = s₁.push (.control (.pubrec ⟨p.packetId.getD 0, rc⟩))) (hn : n = 1)

namespace Broker
open Session
variable {P : Protocol} {b : Broker} {cid : String} {s s' : Session}

theorem pubrec_lookup (ack : PubAck) (hs : b.sessions.lookup cid = some s) :
    (b.acknowledge cid .exactlyOnce ack).sessions.lookup cid = some (s.push (.control (.pubrec ack))) :=
  acknowledge_lookup_self .exactlyOnce ack hs

theorem routedCount_storeRetained (cid : String) (b : Broker) (origin : Origin) (m : Message) :
    routedCount cid (b.storeRetained origin m).2 = 0 := by
  unfold storeRetained
  split
  · split <;> rfl
  · rfl

theorem matchedCode_isError (matched : Bool) : (matchedCode matched).isError = false := by
  cases matched <;> rfl

theorem resolveAlias_keeps {cfg : Config} {p p' : Publish} (h : resolveAlias cfg s p = .ok (s', p')) :
    p'.qos = p.qos ∧ p'.packetId = p.packetId ∧ s.KeepsQos2 s' := by
  obtain ⟨topic, rfl⟩ := resolveAlias_publish h
  rcases resolveAlias_ok (P := .reference) h with rfl | ⟨a, rfl⟩
  · exact ⟨rfl, rfl, .refl s'⟩
  · exact ⟨rfl, rfl, rfl, .of_out rfl⟩

/-- A QoS 2 PUBLISH after its alias is resolved. -/
theorem acceptPublish_qos2 (now : Nat) (ord : Orders) (cid : String) (epoch : Nat) {p : Publish} (hq : p.qos = .exactlyOnce)
    (hs : b.sessions.lookup cid = some s) :
    ∃ s', (acceptPublish P now ord b cid epoch s p).broker.sessions.lookup cid = some s' ∧
      (s' = s ∧ routedCount cid (acceptPublish P now ord b cid epoch s p).effects = 0 ∨
        (P.validTopicName p.topic && !startsWith p.topic sysPrefix && b.acl.isEnforced &&
          !b.acl.canPublish P (who s.identity) p.topic) = true ∧
          s' = s.push (.control (.pubrec ⟨p.packetId.getD 0, .notAuthorized⟩)) ∧
          routedCount cid (acceptPublish P now ord b cid epoch s p).effects = 0 ∨
        p.packetId.getD 0 ∈ s.inboundQos2 ∧ s' = s.push (.control (.pubrec ⟨p.packetId.getD 0, .success⟩)) ∧
          routedCount cid (acceptPublish P now ord b cid epoch s p).effects = 0 ∨
        ∃ s₁ rc, p.packetId.getD 0 ∉ s.inboundQos2 ∧ s₁.inboundQos2 = insert (p.packetId.getD 0) s.inboundQos2 ∧
          s.Grows (fun i => i.isQos2Reply = false) s₁ ∧ rc.isError = false ∧
          s' = s₁.push (.control (.pubrec ⟨p.packetId.getD 0, rc⟩)) ∧
          routedCount cid (acceptPublish P now ord b cid epoch s p).effects = 1) := by
  unfold acceptPublish
  split
  · exact ⟨s, hs, .inl ⟨rfl, rfl⟩⟩
  rename_i hvalid
  split
  · exact ⟨s, hs, .inl ⟨rfl, rfl⟩⟩
  rename_i hsys
  split
  · rename_i hacl
    refine ⟨_, hq ▸ pubrec_lookup _ hs, .inr (.inl ⟨?_, rfl, rfl⟩)⟩
    simp only [Bool.and_eq_true] at hacl ⊢
    exact ⟨⟨⟨by simpa using hvalid, by simpa using hsys⟩, hacl.1⟩, hacl.2⟩
  · have hs₁ : (b.storeRetained (.publish cid epoch) (Message.fromPublish now p)).1.sessions.lookup cid = some s := by
      rw [storeRetained_sessions, hs]
    have hstored := routedCount_storeRetained cid b (.publish cid epoch) (Message.fromPublish now p)
    unfold routedCount at hstored
    simp only [routePublish, hq]
    split
    · rename_i hdup
      refine ⟨_, pubrec_lookup _ hs₁, .inr (.inr (.inl ⟨hdup, rfl, ?_⟩))⟩
      simp [routedCount, hstored, Effect.routesQos2]
    · rename_i hnew
      set s₂ : Session := { s with inboundQos2 := insert (p.packetId.getD 0) s.inboundQos2 } with hs₂
      have hset : ((b.storeRetained (.publish cid epoch) (Message.fromPublish now p)).1.setSession cid s₂).sessions.lookup
          cid = some s₂ := by
        simp [setSession]
      obtain ⟨s₃, hs₃, v, hv, rfl⟩ := route_receives (P := P) now ord (some cid) (Message.fromPublish now p) hset
      have hk : s₂.KeepsQos2 (s₂.applyAll P (v.map Prod.fst)).1 := by
        refine applyAll_keepsQos2 s₂ fun o ho => ?_
        obtain ⟨x, hx, rfl⟩ := List.mem_map.1 ho
        exact World.leavesQos2_of_via (hv x hx)
      refine ⟨_, pubrec_lookup _ hs₃, .inr (.inr (.inr ⟨_, _, hnew, hk.inbound, ?_, matchedCode_isError _, rfl, ?_⟩))⟩
      · exact (Grows.of_out rfl).trans hk.grows
      · have hm : (Message.fromPublish now p).qos = .exactlyOnce := hq
        simp [routedCount, hstored, Effect.routesQos2, hm]

/-- **A QoS 2 PUBLISH** of the current connection. -/
theorem handlePublish_qos2 (now : Nat) (ord : Orders) {p : Publish} (hq : p.qos = .exactlyOnce)
    (hs : b.sessions.lookup cid = some s)
    (hs' : (handlePublish P now ord b cid s.epoch p).broker.sessions.lookup cid = some s') :
    Qos2Outcome P b s p s' (routedCount cid (handlePublish P now ord b cid s.epoch p).effects) := by
  rcases handlePublish_cases P now ord b cid s.epoch p with ⟨rc, he⟩ | ⟨s₀, s₁, p₁, hs₀, -, hr, he⟩
  · rw [he] at hs' ⊢
    have hsame : s = s' := Option.some.inj (hs.symm.trans hs')
    exact .dropped (hsame ▸ .refl s) rfl
  · rw [hs] at hs₀
    cases hs₀
    obtain ⟨hqos, hid, hk⟩ := resolveAlias_keeps hr
    rw [he] at hs' ⊢
    have hset : ({ b with metrics.publishReceived := b.metrics.publishReceived + 1 }.setSession cid s₁).sessions.lookup cid
        = some s₁ := by
      simp [setSession]
    obtain ⟨s₂, hs₂, h⟩ := acceptPublish_qos2 (P := P) now ord cid s.epoch (hqos.trans hq) hset
    rw [hs₂] at hs'
    cases hs'
    rw [hid, hk.inbound] at h
    rcases h with ⟨rfl, hn⟩ | ⟨hacl, rfl, hn⟩ | ⟨hd, rfl, hn⟩ | ⟨s₃, rc, hd, hin, hg, hrc, rfl, hn⟩
    · exact .dropped hk hn
    · refine .refused ?_ hk rfl hn
      simp only [refusesPublish, hr]
      exact hacl
    · exact .duplicate hd hk rfl hn
    · exact .routed hd hin (hk.grows.trans hg) hrc rfl hn

/-- A routed message has the QoS of its PUBLISH, which came from the current connection. -/
theorem routed_handlePublish {now : Nat} {ord : Orders} {epoch : Nat} {p : Publish} {origin : Origin} {m : Message}
    (h : .routed origin m ∈ (handlePublish P now ord b cid epoch p).effects) :
    m.qos = p.qos ∧ ∃ s, b.sessions.lookup cid = some s ∧ s.epoch = epoch := by
  rcases handlePublish_cases P now ord b cid epoch p with ⟨rc, he⟩ | ⟨s, s', p', hs, hepoch, hr, he⟩
  · simp [he, answer] at h
  · refine ⟨?_, s, hs, hepoch⟩
    rw [he] at h
    unfold acceptPublish at h
    split at h
    · simp [answer] at h
    split at h
    · simp [answer] at h
    split at h
    · simp [answer] at h
    · simp only [List.mem_append, List.mem_singleton, reduceCtorEq, or_false] at h
      rcases h with h | h
      · unfold storeRetained at h
        split at h
        · split at h <;> simp at h
        · cases h
      · cases routePublish_publishes _ _ _ _ _ _ _ _ _ h
        exact (resolveAlias_keeps hr).1

end Broker

namespace World
open Broker Session
variable {P : Protocol} {w : World} {l : Label} {cid : String} {s s' : Session}

/-- A step that does not handle a QoS 2 PUBLISH of the client's connection routes no QoS 2 message of the client. -/
theorem step_routedCount (P : Protocol) (hs : w.broker.sessions.lookup cid = some s)
    (h : ∀ p, w.selected l.input = some (.dispatch cid s.epoch (.publish p)) → p.qos ≠ .exactlyOnce) :
    routedCount cid (step P w l).2 = 0 := by
  refine List.countP_eq_zero.2 fun e he hroutes => ?_
  unfold Effect.routesQos2 at hroutes
  split at hroutes
  · rename_i c epoch m
    simp only [Bool.and_eq_true, decide_eq_true_eq] at hroutes
    obtain ⟨rfl, hq⟩ := hroutes
    obtain ⟨p, hsel, hr⟩ := routed_publish he
    obtain ⟨hqos, s₀, hs₀, rfl⟩ := routed_handlePublish hr
    rw [hs] at hs₀
    cases hs₀
    exact h p hsel (hqos ▸ hq)
  · cases hroutes

/-- **A QoS 2 PUBLISH** as a step. -/
theorem publish_qos2 {p : Publish} (hsel : w.selected l.input = some (.dispatch cid s.epoch (.publish p)))
    (hq : p.qos = .exactlyOnce) (hs : w.broker.sessions.lookup cid = some s)
    (hs' : (step P w l).1.broker.sessions.lookup cid = some s') :
    Qos2Outcome P w.broker s p s' (routedCount cid (step P w l).2) := by
  rw [(step_of_selected hsel).1] at hs'
  rw [(step_of_selected hsel).2]
  exact handlePublish_qos2 l.now l.ord hq hs hs'

/-- **A PUBREL** removes the id, and all it pushes is its PUBCOMP. -/
theorem pubrel_qos2 {a : PubAck} (hsel : w.selected l.input = some (.dispatch cid s.epoch (.pubrel a)))
    (hs : w.broker.sessions.lookup cid = some s) (hs' : (step P w l).1.broker.sessions.lookup cid = some s') :
    s'.inboundQos2 = s.inboundQos2.erase a.packetId ∧
      ∀ r ∈ s.qos2Replies s', ∃ rc, r = .control (.pubcomp ⟨a.packetId, rc⟩) := by
  rw [(step_of_selected hsel).1] at hs'
  simp only [runTask, dispatch, handlePubrel, Broker.acked, hs, if_true, answer, addDropped, setSession,
    AList.lookup_insert, Option.some.injEq] at hs'
  subst hs'
  refine ⟨push_inbound _ _, fun r hr => ?_⟩
  have herased : Grows (fun i => i.isQos2Reply = false) s { s with inboundQos2 := s.inboundQos2.erase a.packetId } :=
    .of_out rfl
  set rc := if a.packetId ∈ s.inboundQos2 then ReasonCode.success else .packetIdentifierNotFound with hrc
  rcases qos2Replies_push herased (.control (.pubcomp ⟨a.packetId, rc⟩)) rfl with h | h
  · rw [pubrel, ← hrc, h] at hr
    cases hr
  · rw [pubrel, ← hrc, h] at hr
    exact ⟨rc, List.mem_singleton.1 hr⟩

/-- **A takeover** keeps the set, and pushes no PUBREC and no PUBCOMP into the new channel. -/
theorem connect_qos2 {req : ConnectRequest} (hsel : w.selected l.input = some (.connect req)) (hc : cid = req.clientId)
    (hclean : req.connect.cleanStart = false) (hs : w.broker.sessions.lookup cid = some s)
    (hs' : (step P w l).1.broker.sessions.lookup cid = some s') :
    s'.inboundQos2 = s.inboundQos2 ∧ { s with out := some req.out }.qos2Replies s' = [] := by
  subst hc
  rw [(step_of_selected hsel).1, runTask, finishConnect_resumed l.now l.ord hclean hs] at hs'
  cases hs'
  exact ⟨resume_inbound .., qos2Replies_eq_nil (resume_grows l.now l.ord _ _ req _ s)⟩

end World

end WispMQ
