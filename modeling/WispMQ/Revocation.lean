import WispMQ.Views
import WispMQ.Authorized
import WispMQ.Redelivery
/-!
# What is delivered after a revocation

`reload_acl` prunes subscriptions; what came in through them before and waits in the queue or in flight is not looked at
again. `Tags` remember for every such message of a session the filters it came in through, and give every PUBLISH that is
pushed its provenance. `audit` runs them beside the broker, on an annotated run: every step with the operations it makes
on the session (`Annotates`, which every run has: `exists_annotation`).

From the pass on, every subscription is authorized, so every delivery comes through an authorized filter. What is
held at the time of the pass stays as it is: if all of it is authorized, so is everything that is sent until
the next reload (`sent_authorized`); if not, it is delivered all the same (`revoked_delivered`). A named client that
takes over an anonymous session inherits what that one holds.
-/

namespace WispMQ
open KeyMap

/-- The filters through which the queued messages of a session came in, in order, and those of the messages in flight. -/
structure Tags where
  queue : List (List String) := []
  flight : Nat → List String := fun _ => []

namespace Tags

/-- A message comes in through `via`. -/
def delivered (g : Tags) (via : List String) : Fate → Tags
  | .sent (some id) => { g with flight := Function.update g.flight id via }
  | .queued none => { g with queue := g.queue ++ [via] }
  | .queued (some _) => { g with queue := g.queue.tail ++ [via] }
  | .expired | .offline | .discarded | .sent none => g

/-- A message that leaves the queue takes its tag along. -/
def flushed (g : Tags) : FlushFate → Tags
  | .sent id => { queue := g.queue.tail, flight := Function.update g.flight id (g.queue.headD []) }
  | .expired | .oversized => { g with queue := g.queue.tail }

def flush (g : Tags) (fates : List (Pending × FlushFate)) : Tags := fates.foldl (fun g f => g.flushed f.2) g

section Step
variable (P : Protocol)

/-- The tags after the operation, from the session before it; `via` is where a delivery comes from. -/
def step (s : Session) (g : Tags) (o : Op) (via : List String) : Tags :=
  match o with
  | .deliver now m qos retain subIds maxQueued =>
    g.delivered via (deliver P now s m qos retain subIds maxQueued).2
  | .puback now id => g.flush (flushFates P now { s with awaitingPuback := s.awaitingPuback.erase id })
  | .pubcomp now id => g.flush (flushFates P now { s with awaitingPubcomp := s.awaitingPubcomp.erase id })
  | .resume now ord cfg acl req epoch =>
    (if Broker.identityChanged s.identity req.identity then {} else g).flush
      (flushFates P now ((s.resumeBound P now cfg acl req epoch).retransmit ord))
  | _ => g

theorem step_inert (s : Session) (g : Tags) {o : Op} (h : o.isInert) (via : List String) : g.step P s o via = g := by
  cases o <;> first | rfl | simp [Op.isInert] at h

end Step

end Tags

/-- A PUBLISH pushed into the channel of a session: whose session it is, and how the message came in. -/
structure Sending where
  identity : Option String
  publish : Publish
  via : List String

namespace Session

/-- The packet ids of the PUBLISH packets in flight. -/
def flightIds (s : Session) : Finset Nat := keySet s.awaitingPuback ∪ keySet s.awaitingPubrec

section Track
variable (P : Protocol)

/-- The PUBLISH packets an operation pushes. One with a packet id is in flight afterwards and has the tag of its id, one
without has just been delivered. -/
def sendings (s : Session) (g : Tags) (o : Op) (via : List String) : List Sending :=
  (s.pushes P o).filterMap fun
    | .send p => some ⟨(s.apply P o).1.identity, p, p.packetId.elim via (g.step P s o via).flight⟩
    | _ => none

/-- Operations in turn. -/
def track : List (Op × List String) → Session → Tags → Tags × List Sending
  | [], _, g => (g, [])
  | (o, via) :: v, s, g =>
    let r := track v (s.apply P o).1 (g.step P s o via)
    (r.1, s.sendings P g o via ++ r.2)

end Track

/-! ## The tags fit the session -/

/-- One tag for each entry of the queue `q` and each message in flight, and all of them satisfy `A`. -/
structure TaggedQueue (A : List String → Prop) (q : List Pending) (s : Session) (g : Tags) : Prop where
  length : g.queue.length = q.length
  queue : ∀ via ∈ g.queue, A via
  flight : ∀ id ∈ s.flightIds, A (g.flight id)

def Tagged (A : List String → Prop) (s : Session) (g : Tags) : Prop := TaggedQueue A s.queue s g

variable {P : Protocol} {A A' : List String → Prop} {q : List Pending} {s s' : Session} {g : Tags}

theorem mem_flightIds {id : Nat} : id ∈ s.flightIds ↔ id ∈ s.awaitingPuback ∨ id ∈ s.awaitingPubrec := by
  simp [flightIds, mem_keySet]

theorem Launched.flightIds {now id : Nat} {p : Pending} (h : Launched now s p id s') (hq : p.qos ≠ .atMostOnce) :
    s'.flightIds = insert id s.flightIds := by
  obtain ⟨tx, -, -, rfl⟩ := h.sent
  ext x
  cases hqos : p.qos with
  | atMostOnce => exact absurd hqos hq
  | atLeastOnce => simp [Session.flightIds, record, nextId]
  | exactlyOnce => simp [Session.flightIds, record, nextId]

namespace TaggedQueue

theorem nil (A : List String → Prop) (hq : s.queue = []) (hf : s.flightIds = ∅) (g : Tags) (hg : g.queue = []) :
    TaggedQueue A s.queue s g :=
  ⟨by simp [hg, hq], by simp [hg], by simp [hf]⟩

theorem congr (h : TaggedQueue A q s g) (hf : s'.flightIds ⊆ s.flightIds) : TaggedQueue A q s' g :=
  ⟨h.length, h.queue, fun id hid => h.flight id (hf hid)⟩

theorem mono (h : TaggedQueue A q s g) (hA : ∀ via, A via → A' via) : TaggedQueue A' q s g :=
  ⟨h.length, fun via hvia => hA via (h.queue via hvia), fun id hid => hA _ (h.flight id hid)⟩

theorem drop {p : Pending} (h : TaggedQueue A (p :: q) s g) : TaggedQueue A q s { g with queue := g.queue.tail } := by
  refine ⟨?_, fun via hvia => h.queue via (List.mem_of_mem_tail hvia), h.flight⟩
  rw [List.length_tail, h.length, List.length_cons, Nat.add_sub_cancel]

theorem send {p : Pending} {now id : Nat} (h : TaggedQueue A (p :: q) s g) (hq : p.qos ≠ .atMostOnce)
    (hl : Launched now s p id s') : TaggedQueue A q s' (g.flushed (.sent id)) := by
  have hhead : A (g.queue.headD []) := by
    cases hg : g.queue with
    | nil => simpa [hg] using h.length
    | cons via rest => exact h.queue via (hg ▸ List.mem_cons_self ..)
  refine ⟨h.drop.length, h.drop.queue, fun x hx => ?_⟩
  rw [hl.flightIds hq, Finset.mem_insert] at hx
  by_cases hid : x = id
  · simpa only [Tags.flushed, hid, Function.update_self] using hhead
  · simpa only [Tags.flushed, Function.update_of_ne hid] using h.flight x (hx.resolve_left hid)

theorem flushQueue (now : Nat) (h : TaggedQueue A s.queue s g) (hok : IdsOk s) :
    TaggedQueue A (flushQueue P now s).1.queue (flushQueue P now s).1 (g.flush (flushFates P now s)) := by
  obtain ⟨q, s', he, hs', -⟩ := flushLoop_rule P now
    (fun q s fs => TaggedQueue A q s (g.flush fs) ∧ ∀ p ∈ q, p.qos ≠ .atMostOnce)
    (fun _ _ _ h => ⟨⟨h.1.length, h.1.queue, h.1.flight⟩, h.2⟩)
    (fun p q s fs _ h => ⟨by simpa [Tags.flush, Tags.flushed] using h.1.drop, (List.forall_mem_cons.1 h.2).2⟩)
    (fun p q s fs _ h => ⟨by simpa [Tags.flush, Tags.flushed] using h.1.drop, (List.forall_mem_cons.1 h.2).2⟩)
    (fun p q s fs id s' _ hl h => by
      obtain ⟨hp, hq⟩ := List.forall_mem_cons.1 h.2
      refine ⟨?_, hq⟩
      simpa [Tags.flush] using h.1.send hp hl) s.queue s [] ⟨h, hok.queue⟩
  rw [WispMQ.flushQueue, he]
  exact ⟨hs'.length, hs'.queue, hs'.flight⟩

theorem enqueue {p : Pending} {via : List String} (h : TaggedQueue A s.queue s g) (hvia : A via) (maxQueued : Nat) :
    TaggedQueue A (s.enqueue p maxQueued).1.queue (s.enqueue p maxQueued).1
      (g.delivered via (s.enqueue p maxQueued).2) := by
  have hsnoc : ∀ {xs : List (List String)}, (∀ x ∈ xs, A x) → ∀ x ∈ xs ++ [via], A x := by
    intro xs hxs x hx
    rcases List.mem_append.1 hx with hx | hx
    · exact hxs x hx
    · rw [List.mem_singleton.1 hx]
      exact hvia
  unfold Session.enqueue
  split
  · rename_i hfull
    have hne : s.queue ≠ [] := by
      rintro hnil
      simp [hnil] at hfull
      omega
    obtain ⟨p₀, rest, hq⟩ := List.exists_cons_of_ne_nil hne
    simp only [hq, List.head?_cons, List.tail_cons]
    refine ⟨?_, hsnoc fun x hx => h.queue x (List.mem_of_mem_tail hx), h.flight⟩
    have hlen := h.length
    rw [hq, List.length_cons] at hlen
    simp only [Tags.delivered, List.length_append, List.length_tail, List.length_singleton]
    omega
  · exact ⟨by simp [Tags.delivered, h.length], hsnoc h.queue, h.flight⟩

/-- A delivery through `via`. -/
theorem delivered {now : Nat} {m : Message} {qos : QoS} {retain : Bool} {subIds : List Nat} {maxQueued : Nat} {fate : Fate}
    {via : List String} (h : TaggedQueue A s.queue s g) (hvia : A via)
    (hd : Delivered P now s m qos retain subIds maxQueued s' fate) :
    TaggedQueue A s'.queue s' (g.delivered via fate) := by
  cases hd with
  | expired => exact h
  | offline => exact h
  | discarded => exact h
  | pushed _ hs =>
    obtain ⟨tx, -, -, rfl⟩ := trySend_some hs
    exact ⟨h.length, h.queue, h.flight⟩
  | @launched s' id _ hq _ hl =>
    have hqueue : s'.queue = s.queue := by
      obtain ⟨tx, -, -, rfl⟩ := hl.sent
      cases qos <;> rfl
    refine ⟨by rw [hqueue]; exact h.length, h.queue, fun x hx => ?_⟩
    rw [hl.flightIds hq, Finset.mem_insert] at hx
    by_cases hid : x = id
    · simpa only [Tags.delivered, hid, Function.update_self] using hvia
    · simpa only [Tags.delivered, Function.update_of_ne hid] using h.flight x (hx.resolve_left hid)
  | queued _ _ hs =>
    rcases hs with rfl | rfl
    · exact h.enqueue hvia maxQueued
    · exact enqueue (s := s.nextId.2) ⟨h.length, h.queue, h.flight⟩ hvia maxQueued

end TaggedQueue

theorem Tagged.congr (h : Tagged A s g) (e : SameOutbound s s') : Tagged A s' g := by
  refine ⟨by rw [e.queue]; exact h.length, h.queue, fun id hid => h.flight id ?_⟩
  rwa [flightIds, e.puback, e.pubrec] at hid

/-- Every operation but a takeover. -/
theorem Tagged.step (P : Protocol) (h : Tagged A s g) (hok : IdsOk s) {o : Op} (ho : o.isResume = false) {via : List String}
    (hvia : o.isDeliver → A via) : Tagged A (s.apply P o).1 (g.step P s o via) := by
  by_cases hinert : o.isInert
  · rw [Tags.step_inert P s g hinert via]
    exact h.congr (apply_inert P s hinert)
  cases o with
  | deliver now m qos retain subIds maxQueued => exact h.delivered (hvia rfl) (deliver_delivered ..)
  | puback now id =>
    refine TaggedQueue.flushQueue (s := { s with awaitingPuback := s.awaitingPuback.erase id }) now
      (TaggedQueue.congr h fun x hx => ?_) (hok.erase_puback id)
    rw [mem_flightIds] at hx ⊢
    exact hx.imp_left fun hx => (AList.mem_erase.1 hx).2
  | pubcomp now id =>
    exact TaggedQueue.flushQueue (s := { s with awaitingPubcomp := s.awaitingPubcomp.erase id }) now
      ⟨h.length, h.queue, h.flight⟩ (hok.erase_pubcomp id)
  | pubrec ack =>
    have herased : Tagged A { s with awaitingPubrec := s.awaitingPubrec.erase ack.packetId } g := by
      refine TaggedQueue.congr h fun x hx => ?_
      rw [mem_flightIds] at hx ⊢
      exact hx.imp_right fun hx => (AList.mem_erase.1 hx).2
    simp only [apply, Tags.step, pubrec]
    split
    · exact herased
    · split
      · exact Tagged.congr (s := { s with
            awaitingPubrec := s.awaitingPubrec.erase ack.packetId
            awaitingPubcomp := insert ack.packetId s.awaitingPubcomp })
          ⟨herased.length, herased.queue, herased.flight⟩ (push_sameOutbound _ _)
      · split
        · exact herased
        · exact herased.congr (push_sameOutbound _ _)
  | resume => cases ho
  | _ => exact absurd rfl hinert

/-- A takeover keeps what is held, or clears it if the identity changed. -/
theorem Tagged.resume (P : Protocol) (now : Nat) (ord : Orders) (cfg : Config) (acl : Acl) (req : ConnectRequest)
    (epoch : Nat) (hok : IdsOk s) (h : Broker.identityChanged s.identity req.identity = false → Tagged A s g)
    (via : List String) :
    Tagged A (s.apply P (.resume now ord cfg acl req epoch)).1 (g.step P s (.resume now ord cfg acl req epoch) via) := by
  set s₁ := s.resumeBound P now cfg acl req epoch with hs₁
  have hbound : Tagged A s₁ (if Broker.identityChanged s.identity req.identity then {} else g) := by
    have e := resumeBound_outbound P now cfg acl req epoch s
    cases hch : Broker.identityChanged s.identity req.identity with
    | true =>
      rw [hch, if_pos rfl] at e
      exact Tagged.congr (TaggedQueue.nil A rfl (by simp [flightIds, clearOwned]) {} rfl) e
    | false =>
      rw [hch, if_neg Bool.false_ne_true] at e
      exact (h hch).congr e
  have hon : s₁.isOnline := by simp [isOnline, hs₁, resumeBound_out]
  have hids := (hok.resumeBound P now cfg acl req epoch).congr (retransmit_sameOutbound ord s₁)
  simp only [apply, Tags.step, resumeDelivery, ← hs₁, hon, if_true]
  exact TaggedQueue.flushQueue now (hbound.congr (retransmit_sameOutbound ord s₁)) hids

/-! ## What is pushed is in flight -/

/-- A PUBLISH among the items has the packet id of a message in flight. -/
def InFlight (s : Session) (item : Outgoing) : Prop := ∀ p, item = .send p → ∃ id ∈ s.flightIds, p.packetId = some id

theorem InFlight.mono (h : s.flightIds ⊆ s'.flightIds) {item : Outgoing} (hi : InFlight s item) : InFlight s' item := by
  intro p hp
  obtain ⟨id, hid, he⟩ := hi p hp
  exact ⟨id, h hid, he⟩

theorem inFlight_render {now id : Nat} {p : Pending} (hq : p.qos ≠ .atMostOnce) (hl : Launched now s p id s') :
    InFlight s' (.send (p.render now id)) := by
  intro p' hp'
  cases hp'
  refine ⟨id, ?_, by simp [Pending.render, Message.toPublish, hq]⟩
  rw [hl.flightIds hq]
  exact Finset.mem_insert_self ..

/-- A flush adds messages in flight, and pushes no others. -/
theorem flushQueue_inFlight (P : Protocol) (now : Nat) (hok : IdsOk s) :
    s.flightIds ⊆ (flushQueue P now s).1.flightIds ∧
      Grows (InFlight (flushQueue P now s).1) s (flushQueue P now s).1 := by
  obtain ⟨q, s', he, hs', -⟩ := flushLoop_rule P now
    (fun q s' _ => (s.flightIds ⊆ s'.flightIds ∧ Grows (InFlight s') s s') ∧ ∀ p ∈ q, p.qos ≠ .atMostOnce)
    (fun _ _ _ h => h)
    (fun _ _ _ _ _ h => ⟨h.1, (List.forall_mem_cons.1 h.2).2⟩)
    (fun _ _ _ _ _ h => ⟨h.1, (List.forall_mem_cons.1 h.2).2⟩)
    (fun p q s₁ fs id s₂ _ hl h => by
      obtain ⟨hp, hq⟩ := List.forall_mem_cons.1 h.2
      have hsub : s₁.flightIds ⊆ s₂.flightIds := by
        rw [hl.flightIds hp]
        exact Finset.subset_insert ..
      refine ⟨⟨h.1.1.trans hsub, ?_⟩, hq⟩
      exact (h.1.2.mono fun _ => InFlight.mono hsub).trans (.launched (inFlight_render hp hl) hl))
    s.queue s [] ⟨⟨Finset.Subset.refl _, .refl s⟩, hok.queue⟩
  rw [flushQueue, he]
  exact hs'

theorem retransmit_inFlight (ord : Orders) (hok : IdsOk s) : Grows (InFlight s) s (s.retransmit ord) := by
  rw [retransmit_eq]
  refine .pushAll _ s fun i hi p hp => ?_
  simp only [resentItems, List.mem_append, List.mem_map, (reorder_perm _ _).mem_iff] at hi
  rcases hi with (⟨p₀, hp₀, rfl⟩ | ⟨p₀, hp₀, rfl⟩) | ⟨id, -, rfl⟩
  · obtain ⟨id, hid⟩ := lookup_of_mem_values hp₀
    cases hp
    exact ⟨id, mem_flightIds.2 (.inl (AList.lookup_isSome.1 (by simp [hid]))), (hok.puback_entry id p₀ hid).2⟩
  · obtain ⟨id, hid⟩ := lookup_of_mem_values hp₀
    cases hp
    exact ⟨id, mem_flightIds.2 (.inr (AList.lookup_isSome.1 (by simp [hid]))), (hok.pubrec_entry id p₀ hid).2⟩
  · cases hp

/-- The items of `s.pushes`. -/
theorem mem_pushes {Q : Outgoing → Prop} {o : Op} (h : Grows Q { s with out := s.channelFor o } (s.apply P o).1) :
    ∀ i ∈ s.pushes P o, Q i := by
  intro i hi
  unfold pushes at hi
  split at hi
  · rename_i tx htx
    obtain ⟨tx₀, items, htx₀, hsent, hq⟩ := h tx htx
    simp only at htx₀
    rw [htx₀, Option.elim_some, hsent, List.drop_left] at hi
    exact hq i hi
  · cases hi

theorem deliver_inFlight (now : Nat) (m : Message) (qos : QoS) (retain : Bool) (subIds : List Nat) (maxQueued : Nat) :
    Grows (fun i => ∀ p, i = .send p →
        p.packetId = none ∨ ∃ id ∈ (deliver P now s m qos retain subIds maxQueued).1.flightIds, p.packetId = some id)
      s (deliver P now s m qos retain subIds maxQueued).1 := by
  have hd := deliver_delivered P now s m qos retain subIds maxQueued
  generalize (deliver P now s m qos retain subIds maxQueued).1 = s',
    (deliver P now s m qos retain subIds maxQueued).2 = fate at hd
  cases hd with
  | expired => exact .refl s
  | offline => exact .refl s
  | discarded => exact .refl s
  | pushed _ h =>
    refine .trySend (fun p hp => .inl ?_) h
    cases hp
    rfl
  | launched _ hq _ hl => exact .launched (fun p hp => .inr (inFlight_render hq hl p hp)) hl
  | queued _ _ hs =>
    refine .of_out ((enqueue_out _ _ _).trans ?_)
    rcases hs with rfl | rfl <;> rfl

/-- A pushed PUBLISH has no packet id and has just been delivered, or it is in flight now. -/
theorem pushes_inFlight (P : Protocol) (hok : IdsOk s) (o : Op) : ∀ i ∈ s.pushes P o, ∀ p, i = .send p →
    o.isDeliver ∧ p.packetId = none ∨ ∃ id ∈ (s.apply P o).1.flightIds, p.packetId = some id := by
  refine mem_pushes ?_
  cases o with
  | deliver now m qos retain subIds maxQueued =>
    exact (deliver_inFlight now m qos retain subIds maxQueued).mono fun i hi p hp => (hi p hp).imp_left fun h => ⟨rfl, h⟩
  | puback now id =>
    have hflush := (flushQueue_inFlight P now (hok.erase_puback id)).2
    exact (Grows.of_out rfl).trans (hflush.mono fun i hi p hp => .inr (hi p hp))
  | pubcomp now id =>
    have hflush := (flushQueue_inFlight P now (hok.erase_pubcomp id)).2
    exact (Grows.of_out rfl).trans (hflush.mono fun i hi p hp => .inr (hi p hp))
  | resume now ord cfg acl req epoch =>
    set s₁ := s.resumeBound P now cfg acl req epoch with hs₁
    have hids : IdsOk s₁ := hok.resumeBound P now cfg acl req epoch
    have e := retransmit_sameOutbound ord s₁
    obtain ⟨hsub, hflush⟩ := flushQueue_inFlight P now (hids.congr e)
    have hsub' : s₁.flightIds ⊆ (flushQueue P now (s₁.retransmit ord)).1.flightIds := by
      rwa [flightIds, e.puback, e.pubrec] at hsub
    have hon : s₁.isOnline := by simp [isOnline, hs₁, resumeBound_out]
    simp only [apply, resumeDelivery, ← hs₁, hon, if_true]
    have hall := ((retransmit_inFlight ord hids).mono fun _ => InFlight.mono hsub').trans hflush
    exact (Grows.of_out (resumeBound_out ..)).trans (hall.mono fun i hi p hp => .inr (hi p hp))
  | _ =>
    refine (apply_grows (P := P) s rfl).mono fun i hi p hp => ?_
    subst hp
    cases hi

/-- Everything an operation pushes has an approved provenance. -/
theorem sendings_tagged (hok : IdsOk s) {o : Op} {via : List String} (hvia : o.isDeliver → A via)
    (h : Tagged A (s.apply P o).1 (g.step P s o via)) :
    ∀ x ∈ s.sendings P g o via, x.identity = (s.apply P o).1.identity ∧ A x.via := by
  intro x hx
  obtain ⟨i, hi, he⟩ := List.mem_filterMap.1 hx
  split at he
  · rename_i p
    cases he
    refine ⟨rfl, ?_⟩
    rcases pushes_inFlight P hok o _ hi p rfl with ⟨ho, hp⟩ | ⟨id, hid, hp⟩
    · rw [hp]
      exact hvia ho
    · rw [hp]
      exact h.flight id hid
  · cases he

/-- Operations in turn, no takeover among them. -/
theorem track_tagged (P : Protocol) : ∀ (v : List (Op × List String)) {s : Session} {g : Tags}, Tagged A s g → IdsOk s →
    (∀ x ∈ v, x.1.isResume = false) → (∀ x ∈ v, x.1.isDeliver → A x.2) →
    Tagged A (s.applyAll P (v.map Prod.fst)).1 (track P v s g).1 ∧
      (s.applyAll P (v.map Prod.fst)).1.identity = s.identity ∧
      ∀ y ∈ (track P v s g).2, y.identity = s.identity ∧ A y.via
  | [], _, _, h, _, _, _ => ⟨h, rfl, by simp [track]⟩
  | (o, via) :: v, s, g, h, hok, hres, hdel => by
    obtain ⟨ho, hres⟩ := List.forall_mem_cons.1 hres
    obtain ⟨hvia, hdel⟩ := List.forall_mem_cons.1 hdel
    have hstep := h.step P hok ho hvia
    have hid : (s.apply P o).1.identity = s.identity := (apply_binding P s ho).identity
    obtain ⟨h1, hid', h2⟩ := track_tagged P v hstep (apply_idsOk P hok o) hres hdel
    refine ⟨h1, hid'.trans hid, fun y hy => ?_⟩
    rcases List.mem_append.1 hy with hy | hy
    · rw [← hid]
      exact sendings_tagged hok hvia hstep y hy
    · rw [← hid]
      exact h2 y hy

end Session

/-! ## The audited run -/

/-- The policy lets the identity subscribe to one of the filters. -/
def Acl.Allows (P : Protocol) (acl : Acl) (identity : Option String) (via : List String) : Prop :=
  ∃ f ∈ via, acl.canSubscribe P (who identity) f = true

namespace World
open Broker Session
variable {P : Protocol} {w : World} {l : Label} {cid : String} {s s' : Session}

/-- The step is a CONNECT of the client that asks for a clean start. -/
def startsClean (w : World) (l : Label) (cid : String) : Bool :=
  match w.selected l.input with
  | some (.connect req) => req.clientId = cid && req.connect.cleanStart
  | _ => false

/-- The broker with the tags of the client's session. Every label comes with the operations of its step on that session;
what is emitted is what they send. -/
def audit (P : Protocol) (cid : String) (x : World × Tags) (a : Label × List (Op × List String)) :
    (World × Tags) × List Sending :=
  let w' := (x.1.step P a.1).1
  match x.1.broker.sessions.lookup cid, w'.broker.sessions.lookup cid with
  | some s, some _ =>
    if x.1.startsClean a.1 cid then ((w', {}), [])
    else
      let r := track P a.2 s x.2
      ((w', r.1), r.2)
  | _, _ => ((w', {}), [])

/-- The operations are those of the step. -/
def Annotates (P : Protocol) (cid : String) (x : World × Tags) (a : Label × List (Op × List String)) : Prop :=
  ∀ s s', x.1.broker.sessions.lookup cid = some s → (x.1.step P a.1).1.broker.sessions.lookup cid = some s' →
    x.1.startsClean a.1 cid = false →
    Sees P x.1 a.1 cid s a.2 ∧ s' = (s.applyAll P (a.2.map Prod.fst)).1

theorem audit_world (P : Protocol) (cid : String) (x : World × Tags) (a : Label × List (Op × List String)) :
    (audit P cid x a).1.1 = (x.1.step P a.1).1 := by
  unfold audit
  simp only
  split
  · split <;> rfl
  · rfl

/-- Every step of a client's session can be annotated. -/
theorem exists_annotation (P : Protocol) (hcid : ∀ name, cid ≠ bridgeClient name) (x : World × Tags) (l : Label) :
    ∃ v, Annotates P cid x (l, v) := by
  by_cases h : ∃ s s', x.1.broker.sessions.lookup cid = some s ∧
      (x.1.step P l).1.broker.sessions.lookup cid = some s' ∧ x.1.startsClean l cid = false
  · obtain ⟨s, s', hs, hs', hclean⟩ := h
    cases step_becomes P x.1 l hs hs' with
    | @sees v hv he =>
      refine ⟨v, fun s₁ s₁' hs₁ hs₁' _ => ?_⟩
      rw [hs] at hs₁
      rw [hs'] at hs₁'
      cases hs₁
      cases hs₁'
      exact ⟨hv, he⟩
    | fresh hsel hc hcl => simp [startsClean, hsel, hc, hcl] at hclean
    | bridge _ hc => exact absurd hc (hcid _)
  · exact ⟨[], fun s s' hs hs' hclean => absurd ⟨s, s', hs, hs', hclean⟩ h⟩

/-- Every run can be annotated. -/
theorem exists_annotated_run (P : Protocol) (ok : World → Label → Prop) (hcid : ∀ name, cid ≠ bridgeClient name) :
    ∀ (ls : List Label) (x : World × Tags), Machine.Along (step P) ok x.1 ls →
      ∃ as : List (Label × List (Op × List String)), as.map Prod.fst = ls ∧
        Machine.Along (audit P cid) (fun x a => Annotates P cid x a ∧ ok x.1 a.1) x as
  | [], _, _ => ⟨[], rfl, trivial⟩
  | l :: ls, x, hok => by
    obtain ⟨v, hv⟩ := exists_annotation P hcid x l
    have hrest := hok.2
    rw [← audit_world P cid x (l, v)] at hrest
    obtain ⟨as, rfl, has⟩ := exists_annotated_run P ok hcid ls (audit P cid x (l, v)).1 hrest
    exact ⟨(l, v) :: as, rfl, ⟨hv, hok.1⟩, has⟩

/-- The audit watches, it does not interfere. -/
theorem run_audit_world (P : Protocol) (cid : String) : ∀ (as : List (Label × List (Op × List String))) (x : World × Tags),
    (Machine.run (audit P cid) x as).1.1 = (run P x.1 (as.map Prod.fst)).1
  | [], _ => rfl
  | a :: as, x => by
    have h := run_audit_world P cid as (audit P cid x a).1
    rw [audit_world] at h
    exact h

/-! ### One step -/

theorem Sees.resume_or {v : List (Op × List String)} (h : Sees P w l cid s v) :
    (∀ x ∈ v, x.1.isResume = false) ∨
      ∃ req, w.selected l.input = some (.connect req) ∧ cid = req.clientId ∧
        v = plain [.resume l.now l.ord w.broker.config w.broker.acl req w.broker.nextEpoch] := by
  have hvia : ∀ {subs : List Subscription} {o : Op} {via : List String}, DeliveredVia P cid subs o via →
      o.isResume = false := by
    rintro subs o via ⟨now, publisher, m, qos, retain, subIds, maxQueued, rfl, -⟩
    rfl
  cases h with
  | resume hsel hc => exact .inr ⟨_, hsel, hc, rfl⟩
  | routed _ h => exact .inl fun x hx => hvia (h x hx)
  | publish _ h =>
    obtain ⟨pre, ds, post, rfl, hpre, hds, hpost⟩ := h
    refine .inl fun x hx => ?_
    simp only [List.mem_append, plain, List.mem_map] at hx
    rcases hx with (⟨o, ho, rfl⟩ | hx) | ⟨o, ho, rfl⟩
    · rcases hpre o ho with ⟨a, topic, rfl⟩ | ⟨-, id, rfl⟩ <;> rfl
    · exact hvia (hds x hx)
    · obtain ⟨q, ack, -, rfl⟩ := hpost o ho
      rfl
  | ack _ ho => exact .inl (by simpa [plain] using isResume_ackOp ho)
  | subscribe _ h =>
    obtain ⟨subs, suback, ds, rfl, -, hds⟩ := h
    refine .inl fun x hx => ?_
    simp only [List.mem_append, plain, List.mem_map, List.mem_singleton] at hx
    rcases hx with ⟨o, ⟨sub, -, rfl⟩ | rfl, rfl⟩ | hx
    · rfl
    · rfl
    · obtain ⟨⟨now, m, qos, retain, subIds, maxQueued, ho⟩, -⟩ := hds x hx
      rw [ho]
      rfl
  | unsubscribe =>
    refine .inl fun x hx => ?_
    simp only [plain, List.mem_map, List.mem_append, List.mem_singleton] at hx
    obtain ⟨o, ⟨u, -, rfl⟩ | rfl, rfl⟩ := hx <;> rfl
  | revoke _ _ h => rcases h with rfl | rfl <;> exact .inl (by simp [plain, Op.isResume])
  | _ => exact .inl (by simp [plain, Op.isResume])

/-- A delivery comes in through subscriptions that the policy grants, if it grants all of the session's. -/
theorem Sees.allows {v : List (Op × List String)} (h : Sees P w l cid s v) (hauth : s.Authorized P w.broker.acl)
    (henf : w.broker.acl.isEnforced) : ∀ x ∈ v, x.1.isDeliver → w.broker.acl.Allows P s.identity x.2 := by
  have hvia : ∀ {o : Op} {via : List String}, DeliveredVia P cid s.subscriptions o via →
      w.broker.acl.Allows P s.identity via := by
    rintro o via ⟨now, publisher, m, qos, retain, subIds, maxQueued, -, hne, h⟩
    obtain ⟨f, hf⟩ := List.exists_mem_of_ne_nil via hne
    refine ⟨f, hf, ?_⟩
    rcases h with rfl | ⟨sub, hsub, -, -, rfl⟩
    · obtain ⟨sub, hsub, rfl⟩ := List.mem_map.1 hf
      exact hauth sub (List.mem_of_mem_filter hsub)
    · rw [List.mem_singleton.1 hf]
      exact hauth sub hsub
  -- operations that come from nowhere deliver nothing
  have hplain : ∀ {os : List Op}, (∀ o ∈ os, o.isDeliver = false) →
      ∀ x ∈ plain os, x.1.isDeliver → w.broker.acl.Allows P s.identity x.2 := by
    intro os hos x hx hd
    obtain ⟨o, ho, rfl⟩ := List.mem_map.1 hx
    rw [hos o ho] at hd
    cases hd
  cases h with
  | nothing => simp
  | routed _ h => exact fun x hx _ => hvia (h x hx)
  | publish _ h =>
    obtain ⟨pre, ds, post, rfl, hpre, hds, hpost⟩ := h
    intro x hx hd
    simp only [List.mem_append] at hx
    rcases hx with (hx | hx) | hx
    · refine hplain (fun o ho => ?_) x hx hd
      rcases hpre o ho with ⟨a, topic, rfl⟩ | ⟨-, id, rfl⟩ <;> rfl
    · exact hvia (hds x hx)
    · refine hplain (fun o ho => ?_) x hx hd
      obtain ⟨q, ack, -, rfl⟩ := hpost o ho
      rfl
  | @ack packet o hsel ho =>
    refine hplain fun o' ho' => ?_
    rw [List.mem_singleton.1 ho']
    cases packet <;> simp [ackOp] at ho <;> subst ho <;> rfl
  | subscribe _ h =>
    obtain ⟨subs, suback, ds, rfl, hsubs, hds⟩ := h
    intro x hx hd
    rcases List.mem_append.1 hx with hx | hx
    · refine hplain (fun o ho => ?_) x hx hd
      simp only [List.mem_append, List.mem_map, List.mem_singleton] at ho
      rcases ho with ⟨sub, -, rfl⟩ | rfl <;> rfl
    · obtain ⟨-, sub, hsub, hv⟩ := hds x hx
      exact ⟨sub.filter, hv ▸ List.mem_singleton_self _, hsubs sub hsub henf⟩
  | unsubscribe =>
    refine hplain fun o ho => ?_
    simp only [List.mem_append, List.mem_map, List.mem_singleton] at ho
    rcases ho with ⟨u, -, rfl⟩ | rfl <;> rfl
  | revoke _ _ h =>
    refine hplain fun o ho => ?_
    rcases h with rfl | rfl
    · simp at ho
      subst ho
      rfl
    · simp at ho
      rcases ho with rfl | rfl <;> rfl
  | _ => exact hplain (by simp [Op.isDeliver])

theorem Sees.pass_delivers_nothing {v : List (Op × List String)} {acl : Acl} (h : Sees P w l cid s v)
    (hpass : w.selected l.input = some (.revoke acl)) : ∀ x ∈ v, x.1.isDeliver = false := by
  have hcall : ∀ c, l.input ≠ .call c := by
    intro c hin
    simp [hin, selected] at hpass
  have hsel' : ∀ {t : Task}, w.selected l.input = some t → t = .revoke acl := fun hsel =>
    Option.some.inj (hsel.symm.trans hpass)
  cases h with
  | routed hroute =>
    cases hroute with
    | publish hsel => cases hsel' hsel
    | will hsel => cases hsel' hsel
    | sys hin => exact absurd hin (hcall _)
    | bridge hin => exact absurd hin (hcall _)
  | publish hsel => cases hsel' hsel
  | ack hsel => cases hsel' hsel
  | pubrel hsel => cases hsel' hsel
  | subscribe hsel => cases hsel' hsel
  | unsubscribe hsel => cases hsel' hsel
  | revoke _ _ h => rcases h with rfl | rfl <;> simp [plain, Op.isDeliver]
  | _ => simp [plain, Op.isDeliver]

/-- A session that comes into being holds nothing. -/
theorem appeared_tagged {A : List String → Prop} (hcid : ∀ name, cid ≠ bridgeClient name)
    (hnew : w.broker.sessions.lookup cid = none ∨ w.startsClean l cid = true)
    (hs' : (step P w l).1.broker.sessions.lookup cid = some s') : Tagged A s' {} := by
  have hfresh : ∀ req, w.selected l.input = some (.connect req) → cid = req.clientId → Tagged A s' {} := by
    rintro req hsel rfl
    rw [(step_of_selected hsel).1, runTask, finishConnect_fresh] at hs'
    · cases hs'
      exact .nil A rfl (by simp [flightIds, freshSession, Session.new, Session.bind, setWill]) {} rfl
    · rcases hnew with hnew | hnew
      · exact .inr hnew
      · simp only [startsClean, hsel, decide_true, Bool.true_and] at hnew
        exact .inl hnew
  rcases hnew with hnone | hclean
  · rcases (step_change P w l).bound hs' with ⟨s, hs, -⟩ | ⟨req, hsel, hc, -⟩ | ⟨name, -, hc, -⟩
    · rw [hnone] at hs
      cases hs
    · exact hfresh req hsel hc
    · exact absurd hc (hcid name)
  · unfold startsClean at hclean
    split at hclean
    · rename_i req hsel
      simp only [Bool.and_eq_true, decide_eq_true_eq] at hclean
      exact hfresh req hsel hclean.1.symm
    · cases hclean

/-- **A step of the audit**, for any approval of provenances that may depend on the identity: what is delivered is
approved, and what a takeover keeps is approved for the new identity. -/
theorem audit_tagged (A : Option String → List String → Prop) {x : World × Tags} {a : Label × List (Op × List String)}
    (hcid : ∀ name, cid ≠ bridgeClient name) (hids : x.1.broker.fleet.IdsOk) (hann : Annotates P cid x a)
    (h : ∀ s, x.1.broker.sessions.lookup cid = some s → Tagged (A s.identity) s x.2)
    (hdel : ∀ s, x.1.broker.sessions.lookup cid = some s → ∀ v, Sees P x.1 a.1 cid s v →
      ∀ y ∈ v, y.1.isDeliver → A s.identity y.2)
    (hres : ∀ s req, x.1.broker.sessions.lookup cid = some s → x.1.selected a.1.input = some (.connect req) →
      cid = req.clientId → req.connect.cleanStart = false → identityChanged s.identity req.identity = false →
      Tagged (A req.identity) s x.2) :
    (∀ s', (x.1.step P a.1).1.broker.sessions.lookup cid = some s' →
      Tagged (A s'.identity) s' (audit P cid x a).1.2) ∧
    ∀ y ∈ (audit P cid x a).2, A y.identity y.via := by
  unfold audit
  simp only
  split
  · rename_i s s' hs hs'
    split
    · rename_i hclean
      exact ⟨fun s₁ hs₁ => appeared_tagged hcid (.inr hclean) hs₁, by simp⟩
    · rename_i hclean
      obtain ⟨hsees, rfl⟩ := hann s s' hs hs' (by simpa using hclean)
      have hok : IdsOk s := hids cid s hs
      rw [hs']
      rcases hsees.resume_or with hnone | ⟨req, hsel, hc, hv⟩
      · obtain ⟨h1, hid, h2⟩ := track_tagged P a.2 (h s hs) hok hnone (hdel s hs _ hsees)
        refine ⟨fun s₁ hs₁ => ?_, fun y hy => ?_⟩
        · cases hs₁
          rw [hid]
          exact h1
        · obtain ⟨hy1, hy2⟩ := h2 y hy
          rw [hy1]
          exact hy2
      · have hreq : req.connect.cleanStart = false := by simpa [startsClean, hsel, hc] using hclean
        have htag := Tagged.resume P a.1.now a.1.ord x.1.broker.config x.1.broker.acl req x.1.broker.nextEpoch hok
          (hres s req hs hsel hc hreq) []
        have hid := ((apply_resume_binding P a.1.now a.1.ord x.1.broker.config x.1.broker.acl req x.1.broker.nextEpoch
          s).identity).trans (resumeBound_identity ..)
        rw [hv]
        refine ⟨fun s₁ hs₁ => ?_, fun y hy => ?_⟩
        · cases hs₁
          rw [plain_fst, applyAll, applyAll, hid]
          exact htag
        · simp only [plain, List.map_cons, List.map_nil, track, List.append_nil] at hy
          obtain ⟨hy1, hy2⟩ := sendings_tagged hok (by simp [Op.isDeliver]) htag y hy
          rw [hy1, hid]
          exact hy2
  · rename_i hnot
    refine ⟨fun s₁ hs₁ => ?_, by simp⟩
    cases hs : x.1.broker.sessions.lookup cid with
    | none => exact appeared_tagged hcid (.inl hs) hs₁
    | some s => exact absurd hs₁ (hnot s s₁ hs)

/-! ## Every run -/

/-- The session has a queued or in-flight message that came in through `via`. -/
def Held (s : Session) (g : Tags) (via : List String) : Prop :=
  (∃ p, (p, via) ∈ s.queue.zip g.queue) ∨ ∃ id ∈ s.flightIds, g.flight id = via

/-- What is held is approved, entry by entry. -/
theorem tagged_of_held {A : List String → Prop} {g : Tags} (h : Tagged (fun _ => True) s g) (hA : ∀ via, Held s g via → A via) :
    Tagged A s g := by
  refine ⟨h.length, fun via hvia => hA via (.inl ?_), fun id hid => hA _ (.inr ⟨id, hid, rfl⟩)⟩
  obtain ⟨i, hi, rfl⟩ := List.getElem_of_mem hvia
  have hi' : i < s.queue.length := h.length ▸ hi
  refine ⟨s.queue[i], List.mem_iff_getElem.2 ⟨i, by simp [hi, hi'], by simp⟩⟩

/-- In an annotated run from boot, the tags fit. -/
theorem run_tagged (hcid : ∀ name, cid ≠ bridgeClient name) {w : World} (hids : w.broker.fleet.IdsOk)
    (hblank : ∀ s, w.broker.sessions.lookup cid = some s → s.queue = [] ∧ s.flightIds = ∅)
    {as : List (Label × List (Op × List String))} (has : Machine.Along (audit P cid) (Annotates P cid) (w, {}) as) :
    (Machine.run (audit P cid) (w, {}) as).1.1.broker.fleet.IdsOk ∧
      ∀ s, (Machine.run (audit P cid) (w, {}) as).1.1.broker.sessions.lookup cid = some s →
        Tagged (fun _ => True) s (Machine.run (audit P cid) (w, {}) as).1.2 := by
  refine Machine.run_state_invariant (audit P cid)
    (fun x => x.1.broker.fleet.IdsOk ∧ ∀ s, x.1.broker.sessions.lookup cid = some s → Tagged (fun _ => True) s x.2)
    (fun x a h hann => ?_) ⟨hids, fun s hs => ?_⟩ as has
  · rw [audit_world]
    refine ⟨h.1.change (step_pacedChange P x.1 a.1), ?_⟩
    exact (audit_tagged (fun _ _ => True) hcid h.1 hann h.2 (fun _ _ _ _ _ _ _ => trivial) fun s _ hs _ _ _ _ => h.2 s hs).1
  · exact .nil _ (hblank s hs).1 (hblank s hs).2 {} rfl

/-- No policy is installed. -/
def NoReload (l : Label) : Prop := ∀ fresh, l.input ≠ .call (.reload (some fresh))

/-- A named client that takes over an anonymous session finds there only what `acl` lets it subscribe to. -/
def InheritsAllowed (P : Protocol) (acl : Acl) (cid : String) (x : World × Tags) (l : Label) : Prop :=
  ∀ s req, x.1.broker.sessions.lookup cid = some s → x.1.selected l.input = some (.connect req) → cid = req.clientId →
    req.connect.cleanStart = false → s.identity = none → req.identity.isSome →
    ∀ via, Held s x.2 via → acl.Allows P req.identity via

/-- After the pass: the subscriptions of the client are authorized, and so is what it holds. -/
structure Cleared (P : Protocol) (acl : Acl) (cid : String) (x : World × Tags) : Prop where
  ids : x.1.broker.fleet.IdsOk
  policy : x.1.broker.acl = acl
  session : ∀ s, x.1.broker.sessions.lookup cid = some s → s.Authorized P acl ∧ Tagged (acl.Allows P s.identity) s x.2

theorem who_eq_of_unchanged {old new : Option String} (h : identityChanged old new = false)
    (hnamed : ¬(old = none ∧ new.isSome)) : who new = who old := by
  cases old with
  | none =>
    cases new with
    | none => rfl
    | some b => exact absurd ⟨rfl, rfl⟩ hnamed
  | some a =>
    cases new with
    | none => cases h
    | some b =>
      have hab : a = b := by simpa [identityChanged] using h
      rw [hab]

/-- The tags allowed to an identity stay so for whoever takes the session over without clearing it. -/
theorem Cleared.inherited {acl : Acl} {x : World × Tags} (h : Cleared P acl cid x) (hinh : InheritsAllowed P acl cid x l)
    {req : ConnectRequest} (hs : x.1.broker.sessions.lookup cid = some s)
    (hsel : x.1.selected l.input = some (.connect req)) (hc : cid = req.clientId)
    (hclean : req.connect.cleanStart = false) (hch : identityChanged s.identity req.identity = false) :
    Tagged (acl.Allows P req.identity) s x.2 := by
  have htag := (h.session s hs).2
  by_cases hnamed : s.identity = none ∧ req.identity.isSome
  · refine tagged_of_held (htag.mono fun _ _ => trivial) fun via hvia => ?_
    exact hinh s req hs hsel hc hclean hnamed.1 hnamed.2 via hvia
  · refine htag.mono fun via ⟨f, hf, hallow⟩ => ⟨f, hf, ?_⟩
    rwa [who_eq_of_unchanged hch hnamed]

theorem Cleared.step {acl : Acl} {x : World × Tags} {a : Label × List (Op × List String)}
    (hcid : ∀ name, cid ≠ bridgeClient name) (henf : acl.isEnforced) (h : Cleared P acl cid x) (hann : Annotates P cid x a)
    (hno : NoReload a.1) (hinh : InheritsAllowed P acl cid x a.1) :
    Cleared P acl cid (audit P cid x a).1 ∧ ∀ y ∈ (audit P cid x a).2, acl.Allows P y.identity y.via := by
  have hacl : (x.1.step P a.1).1.broker.acl = acl := by
    rcases step_acl P x.1 a.1 with hsame | ⟨⟨fresh, hin⟩, -⟩
    · rw [hsame, h.policy]
    · exact absurd hin (hno fresh)
  obtain ⟨htags, hsent⟩ := audit_tagged (acl.Allows P) hcid h.ids hann (fun s hs => (h.session s hs).2)
    (fun s hs v hv => by
      have hallows := hv.allows (h.policy.symm ▸ (h.session s hs).1) (h.policy.symm ▸ henf)
      rwa [h.policy] at hallows)
    (fun s req hs hsel hc hclean hch => h.inherited hinh hs hsel hc hclean hch)
  refine ⟨⟨?_, ?_, fun s' hs' => ?_⟩, hsent⟩
  · rw [audit_world]
    exact h.ids.change (step_pacedChange P x.1 a.1)
  · rw [audit_world, hacl]
  · rw [audit_world] at hs'
    refine ⟨?_, htags s' hs'⟩
    have hauth := step_authorized hcid hs' fun s hs _ => h.policy.symm ▸ (h.session s hs).1
    rwa [h.policy] at hauth

/-- The pass leaves nothing unauthorized, if nothing unauthorized is held. -/
theorem Cleared.of_pass {acl : Acl} {x : World × Tags} {a : Label × List (Op × List String)}
    (hcid : ∀ name, cid ≠ bridgeClient name) (hids : x.1.broker.fleet.IdsOk)
    (htags : ∀ s, x.1.broker.sessions.lookup cid = some s → Tagged (fun _ => True) s x.2) (hann : Annotates P cid x a)
    (hpass : x.1.selected a.1.input = some (.revoke acl)) (hcur : x.1.broker.acl = acl)
    (hheld : ∀ s, x.1.broker.sessions.lookup cid = some s → ∀ via, Held s x.2 via → acl.Allows P s.identity via) :
    Cleared P acl cid (audit P cid x a).1 := by
  -- the pass only prunes, so what is delivered or inherited does not matter
  obtain ⟨htags', -⟩ := audit_tagged (acl.Allows P) hcid hids hann
    (fun s hs => tagged_of_held (htags s hs) (hheld s hs))
    (fun s _ v hv y hy hd => absurd hd (by simp [hv.pass_delivers_nothing hpass y hy]))
    (fun s req _ hsel => by simp [hpass] at hsel)
  refine ⟨?_, ?_, fun s' hs' => ?_⟩
  · rw [audit_world]
    exact hids.change (step_pacedChange P x.1 a.1)
  · rw [audit_world, (step_of_selected hpass).1, runTask_acl, hcur]
  · rw [audit_world] at hs'
    refine ⟨?_, htags' s' hs'⟩
    rw [(step_of_selected hpass).1] at hs'
    exact revokeUnauthorized_authorized a.1.ord x.1.broker acl hs'

/-- **After the pass of a reload**, until the next one, every PUBLISH a client is sent came in through a filter that the
policy lets the client subscribe to, if that was so for all it held when the pass began, and for all that a named client
inherits from an anonymous one. -/
theorem sent_authorized (P : Protocol) (now : Nat) (cfg : Config) (db : Db) (acl₀ : Acl) (auth : Option Credentials)
    (cid : String) (hcid : ∀ name, cid ≠ bridgeClient name) (before : List (Label × List (Op × List String)))
    (hbefore : Machine.Along (audit P cid) (Annotates P cid) (boot P now cfg db acl₀ auth, {}) before)
    (x : World × Tags) (hx : x = (Machine.run (audit P cid) (boot P now cfg db acl₀ auth, {}) before).1)
    (a : Label × List (Op × List String)) (ha : Annotates P cid x a) (acl : Acl) (henf : acl.isEnforced)
    (hpass : x.1.selected a.1.input = some (.revoke acl)) (hcur : x.1.broker.acl = acl)
    (hheld : ∀ s, x.1.broker.sessions.lookup cid = some s → ∀ via, Held s x.2 via → acl.Allows P s.identity via)
    (after : List (Label × List (Op × List String)))
    (hafter : Machine.Along (audit P cid)
      (fun x a => Annotates P cid x a ∧ NoReload a.1 ∧ InheritsAllowed P acl cid x a.1) (audit P cid x a).1 after)
    (y : Sending) (hy : y ∈ (Machine.run (audit P cid) (audit P cid x a).1 after).2) :
    acl.Allows P y.identity y.via := by
  have hblank : ∀ s, (boot P now cfg db acl₀ auth).broker.sessions.lookup cid = some s → s.queue = [] ∧ s.flightIds = ∅ := by
    intro s hs
    rw [boot_lookup] at hs
    split at hs
    · cases hs
    · obtain ⟨row, -, rfl⟩ := Option.map_eq_some_iff.1 hs
      exact ⟨rfl, rfl⟩
  obtain ⟨hids, htags⟩ := run_tagged hcid (boot_idsOk P now cfg db acl₀ auth) hblank hbefore
  rw [← hx] at hids htags
  have hstart : Cleared P acl cid (audit P cid x a).1 := .of_pass hcid hids htags ha hpass hcur hheld
  refine (Machine.run_invariant (audit P cid)
    (fun x ys => Cleared P acl cid x ∧ ∀ y ∈ ys, acl.Allows P y.identity y.via) ⟨hstart, by simp⟩
    (fun x ys a h ho => ?_) after hafter).2 y hy
  obtain ⟨hann, hno, hinh⟩ := ho
  obtain ⟨hcl, hsent⟩ := h.1.step hcid henf hann hno hinh
  refine ⟨hcl, fun y hy => ?_⟩
  rcases List.mem_append.1 hy with hy | hy
  · exact h.2 y hy
  · exact hsent y hy

/-! ### Two runs -/

/-- A policy for everyone. -/
def policy (publish subscribe : List String) : Acl := ⟨true, false, [{ identity := anyIdentity, publish, subscribe }]⟩

def published (topic : String) : Publish := ⟨false, .atLeastOnce, false, topic, some 1, {}, []⟩

def liberal : World := boot .reference 0 { aclPath := some "acl" } {} (policy ["a", "b"] ["a", "b"]) none

/-- A client subscribes to two topics and hands in a message on the second. -/
def subscribing : List Label :=
  connecting { clientId := "c", cleanStart := true } ++
  sending "c" 1 (.subscribe ⟨1, [{ filter := "a", qos := .atLeastOnce }, { filter := "b", qos := .atLeastOnce }], []⟩) ++
  [{ input := .call (.packet "c" 1 (.publish (published "b"))) }]

/-- The operations of the message on the session of the client. -/
def ownMessage : List (Op × List String) :=
  [(.deliver 0 (.fromPublish 0 (published "b")) .atLeastOnce false [] 1000, ["b"]), (.control (.puback ⟨1, .success⟩), [])]

/-- It is sent the message, does not acknowledge it, and a policy without the first topic is installed. -/
def narrowing : List (Label × List (Op × List String)) :=
  [({ input := .task 0 }, ownMessage), ({ input := .call (.reload (some (policy ["a", "b"] ["b"]))) }, [])]

def pass : Label := { input := .task 0 }

/-- The client comes back. -/
def returning : Connect := { clientId := "c", cleanStart := false }

/-- A PUBLISH on the topic has been pushed. -/
def sentOn (s : Session) (topic : String) : Bool := s.out.any (·.sent.any fun | .send p => p.topic = topic | _ => false)

theorem audit_tracked {x : World × Tags} {a : Label × List (Op × List String)} (hs : x.1.broker.sessions.lookup cid = some s)
    (hs' : (x.1.step P a.1).1.broker.sessions.lookup cid = some s') (hclean : x.1.startsClean a.1 cid = false) :
    audit P cid x a = (((x.1.step P a.1).1, (track P a.2 s x.2).1), (track P a.2 s x.2).2) := by
  simp [audit, hs, hs', hclean]

/-- A policy is installed; its pass has yet to run. -/
theorem reload_sessions (w : World) (fresh : Acl) :
    (w.step P { input := .call (.reload (some fresh)) }).1.broker.sessions = w.broker.sessions := by
  simp only [step, enter, reloadAcl, absorb]
  split <;> rfl

theorem subscribing_publishes : (run .reference liberal subscribing).1.selected (.task 0) =
    some (.dispatch "c" 1 (.publish (published "b"))) := by
  decide +kernel

theorem subscribing_session : ∀ s, (run .reference liberal subscribing).1.broker.sessions.lookup "c" = some s →
    s.epoch = 1 ∧ (deliver .reference 0 s (.fromPublish 0 (published "b")) .atLeastOnce false [] 1000).2 = .sent (some 1) ∧
      (s.subscriptions.filter fun sub => sub.shareName.isNone &&
        eligible .reference (some "c") (.fromPublish 0 (published "b")) "c" sub).map (·.filter) = ["b"] := by
  decide +kernel

theorem subscribing_delivers : ((run .reference liberal subscribing).1.step .reference pass).1.broker.sessions.lookup "c" =
    ((run .reference liberal subscribing).1.broker.sessions.lookup "c").map
      fun s => (s.applyAll .reference (ownMessage.map Prod.fst)).1 := rfl

/-- The message is delivered through the second subscription, and in flight under the id 1. -/
theorem narrowing_annotated {x : World × Tags} (hx : x.1 = (run .reference liberal subscribing).1) :
    Machine.Along (audit .reference "c") (Annotates .reference "c") x narrowing ∧
      (Machine.run (audit .reference "c") x narrowing).1.2.flight 1 = ["b"] := by
  have hsel : x.1.selected (.task 0) = some (.dispatch "c" 1 (.publish (published "b"))) := hx ▸ subscribing_publishes
  obtain ⟨s, hs⟩ : ∃ s, x.1.broker.sessions.lookup "c" = some s := by
    rw [hx]
    exact ⟨_, rfl⟩
  obtain ⟨hepoch, hfate, hvia⟩ := subscribing_session s (hx ▸ hs)
  have hs₁ : (x.1.step .reference pass).1.broker.sessions.lookup "c" =
      some (s.applyAll .reference (ownMessage.map Prod.fst)).1 := by
    rw [hx, subscribing_delivers, ← hx, hs, Option.map_some]
  have hs₂ : ((x.1.step .reference pass).1.step .reference
      { input := .call (.reload (some (policy ["a", "b"] ["b"]))) }).1.broker.sessions.lookup "c" =
        some (s.applyAll .reference (ownMessage.map Prod.fst)).1 := by
    rw [reload_sessions, hs₁]
  have hdelivered := audit_tracked (a := (pass, ownMessage)) hs hs₁ (by simp [startsClean, pass, hsel])
  have hw₁ : (audit .reference "c" x (pass, ownMessage)).1.1 = (x.1.step .reference pass).1 := audit_world ..
  have hreloaded := audit_tracked (x := (audit .reference "c" x (pass, ownMessage)).1)
    (a := ({ input := .call (.reload (some (policy ["a", "b"] ["b"]))) }, [])) (by rw [hw₁, hs₁]) (by rw [hw₁, hs₂])
    (by simp [startsClean, selected])
  refine ⟨⟨fun s₁ s₁' h h' _ => ?_, fun s₁ s₁' h h' _ => ⟨.nothing, ?_⟩, trivial⟩, ?_⟩
  · rw [hs] at h
    cases h
    refine ⟨.publish (hepoch ▸ hsel) ⟨[], [_], [.control (.puback ⟨1, .success⟩)], rfl, by simp, ?_, ?_⟩, ?_⟩
    · exact List.forall_mem_singleton.2 ⟨0, some "c", _, _, _, _, _, rfl, by simp, .inl hvia.symm⟩
    · exact List.forall_mem_singleton.2 ⟨_, _, rfl, rfl⟩
    · exact Option.some.inj (h'.symm.trans hs₁)
  · change (audit .reference "c" x (pass, ownMessage)).1.1.broker.sessions.lookup "c" = _ at h
    change ((audit .reference "c" x (pass, ownMessage)).1.1.step .reference _).1.broker.sessions.lookup "c" = _ at h'
    rw [hw₁, hs₁] at h
    rw [hw₁, hs₂] at h'
    exact Option.some.inj (h'.symm.trans h)
  · show (audit .reference "c" (audit .reference "c" x (pass, ownMessage)).1 _).1.2.flight 1 = _
    rw [hreloaded, hdelivered]
    simp [ownMessage, track, Tags.step, Tags.delivered, hfate]

theorem exists_narrowing : ∃ before, before.map Prod.fst = subscribing ++ narrowing.map Prod.fst ∧
    Machine.Along (audit .reference "c") (Annotates .reference "c") (liberal, {}) before ∧
      (Machine.run (audit .reference "c") (liberal, {}) before).1.2.flight 1 = ["b"] := by
  have hcid : ∀ name, "c" ≠ bridgeClient name := ne_bridgeClient (by decide)
  obtain ⟨first, hfst, hfirst⟩ := exists_annotated_run .reference (fun _ _ => True) hcid subscribing (liberal, {})
    (.of_forall _ (fun _ _ => trivial) _ _)
  obtain ⟨hlast, hflight⟩ := narrowing_annotated
    (show (Machine.run (audit .reference "c") (liberal, {}) first).1.1 = _ by rw [run_audit_world, hfst])
  refine ⟨first ++ narrowing, ?_, ?_, ?_⟩
  · rw [List.map_append, hfst]
  · exact Machine.Along.append _ (Machine.Along.mono _ (fun _ _ h => h.1) hfirst) hlast
  · rw [Machine.run_append, hflight]

/-- Nothing else is held. -/
theorem narrowing_held : ∀ s,
    (run .reference liberal (subscribing ++ narrowing.map Prod.fst)).1.broker.sessions.lookup "c" = some s →
      s.identity = none ∧ s.subscriptions.map (·.filter) = ["a", "b"] ∧ s.queue = [] ∧ s.flightIds = {1} := by
  decide +kernel

/-- The message is held through the subscription that stays while the other is revoked, and is sent again when the client
comes back. -/
theorem sent_authorized_narrowing :
    ∃ before a after, before.map Prod.fst = subscribing ++ narrowing.map Prod.fst ∧ a.1 = pass ∧
      after.map Prod.fst = connecting returning ∧
      (∃ s, (Machine.run (audit .reference "c") (liberal, {}) before).1.1.broker.sessions.lookup "c" = some s ∧
        s.subscriptions.map (·.filter) = ["a", "b"] ∧
        Held s (Machine.run (audit .reference "c") (liberal, {}) before).1.2 ["b"]) ∧
      ((run .reference liberal (before ++ a :: after |>.map Prod.fst)).1.broker.sessions.lookup "c").any
        (fun s => s.subscriptions.map (·.filter) = ["b"] && sentOn s "b") ∧
      ∀ y ∈ (Machine.run (audit .reference "c") (audit .reference "c"
        (Machine.run (audit .reference "c") (liberal, {}) before).1 a).1 after).2,
        (policy ["a", "b"] ["b"]).Allows .reference y.identity y.via := by
  have hcid : ∀ name, "c" ≠ bridgeClient name := ne_bridgeClient (by decide)
  obtain ⟨before, hb, hbefore, htag⟩ := exists_narrowing
  set x := (Machine.run (audit .reference "c") (liberal, {}) before).1 with hx
  have hw : x.1 = (run .reference liberal (subscribing ++ narrowing.map Prod.fst)).1 := by rw [hx, run_audit_world, hb]
  obtain ⟨v, hv⟩ := exists_annotation .reference hcid x pass
  have hw' : (audit .reference "c" x (pass, v)).1.1 =
      (run .reference liberal (subscribing ++ narrowing.map Prod.fst ++ [pass])).1 := by
    rw [audit_world, hw, run_append .reference liberal _ [pass]]
    rfl
  have hafter : Machine.Along (step .reference)
      (fun w l => NoReload l ∧ ∀ req, w.selected l.input = some (.connect req) → req.identity = none)
      (audit .reference "c" x (pass, v)).1.1 (connecting returning) := by
    rw [hw']
    refine ⟨⟨fun fresh => by simp, fun req => by simp [selected]⟩, ⟨fun fresh => by simp, fun req h => ?_⟩, trivial⟩
    have htask : ((step .reference (run .reference liberal (subscribing ++ narrowing.map Prod.fst ++ [pass])).1
        { input := .call (.connect returning none) }).1.selected (.task 0)) =
          some (.connect ⟨returning, .v5, none, "c", false, {}⟩) := by decide +kernel
    rw [htask] at h
    cases h
    rfl
  obtain ⟨after, ha, hafter⟩ := exists_annotated_run .reference _ hcid _ _ hafter
  refine ⟨before, (pass, v), after, hb, rfl, ha, ?_, ?_, fun y hy => ?_⟩
  · obtain ⟨s, hs⟩ : ∃ s, x.1.broker.sessions.lookup "c" = some s := by
      rw [hw]
      exact ⟨_, rfl⟩
    obtain ⟨-, hsubs, -, hids⟩ := narrowing_held s (hw ▸ hs)
    exact ⟨s, hs, hsubs, .inr ⟨1, by simp [hids], htag⟩⟩
  · rw [List.map_append, List.map_cons, hb, ha]
    show ((run .reference liberal
      (subscribing ++ narrowing.map Prod.fst ++ pass :: connecting returning)).1.broker.sessions.lookup "c").any _ = true
    decide +kernel
  · refine sent_authorized .reference 0 { aclPath := some "acl" } {} (policy ["a", "b"] ["a", "b"]) none "c" hcid
      before hbefore x hx (pass, v) hv (policy ["a", "b"] ["b"]) rfl ?_ ?_ ?_ after ?_ y hy
    · rw [hw]
      show (run .reference liberal (subscribing ++ narrowing.map Prod.fst)).1.selected (.task 0) = _
      decide +kernel
    · rw [hw]
      decide +kernel
    · intro s hs via hvia
      obtain ⟨hid, -, hqueue, hids⟩ := narrowing_held s (hw ▸ hs)
      have hb : via = ["b"] := by simpa [Held, hqueue, hids, htag, eq_comm] using hvia
      rw [hid]
      exact ⟨"b", by simp [hb], by decide +kernel⟩
    · refine Machine.Along.mono _ (fun x a h => ⟨h.1, h.2.1, fun s req _ hsel _ _ _ hsome => ?_⟩) hafter
      simp [h.2.2 req hsel] at hsome

def denyAll : Acl := ⟨true, false, []⟩

theorem not_allows_denyAll (P : Protocol) (identity : Option String) (via : List String) :
    ¬denyAll.Allows P identity via := by
  rintro ⟨f, -, hf⟩
  simp [denyAll, Acl.canSubscribe, Acl.applicable] at hf

/-- A client is sent its own message and does not acknowledge it; then a policy that grants nothing is installed. -/
def revoked : List Label :=
  connecting { clientId := "c", cleanStart := true } ++
  sending "c" 1 (.subscribe ⟨1, [{ filter := "a", qos := .atLeastOnce }], []⟩) ++
  sending "c" 1 (.publish (published "a")) ++
  [{ input := .call (.reload (some denyAll)) }]

/-- The client comes back after the pass and is sent the message once more. -/
theorem revoked_delivered :
    ∃ before a after, before.map Prod.fst = revoked ∧ a.1 = pass ∧ after.map Prod.fst = connecting returning ∧
      Machine.Along (audit .reference "c") (Annotates .reference "c") (liberal, {}) (before ++ a :: after) ∧
      ∃ y ∈ (Machine.run (audit .reference "c") (audit .reference "c"
        (Machine.run (audit .reference "c") (liberal, {}) before).1 a).1 after).2,
        ¬denyAll.Allows .reference y.identity y.via := by
  have hcid : ∀ name, "c" ≠ bridgeClient name := ne_bridgeClient (by decide)
  obtain ⟨before, hb, hbefore⟩ := exists_annotated_run .reference (fun _ _ => True) hcid revoked (liberal, {})
    (.of_forall _ (fun _ _ => trivial) _ _)
  set x := (Machine.run (audit .reference "c") (liberal, {}) before).1 with hx
  obtain ⟨v, hv⟩ := exists_annotation .reference hcid x pass
  obtain ⟨u, hu⟩ := exists_annotation .reference hcid (audit .reference "c" x (pass, v)).1
    { input := .call (.connect returning none) }
  set x' := (audit .reference "c" (audit .reference "c" x (pass, v)).1 ({ input := .call (.connect returning none) }, u)).1
    with hx'
  have hw : x'.1 = (run .reference liberal (revoked ++ [pass, { input := .call (.connect returning none) }])).1 := by
    rw [hx', audit_world, audit_world, hx, run_audit_world, hb]
    exact (run_append .reference liberal revoked [pass, { input := .call (.connect returning none) }]).symm
  -- the second section of the CONNECT, annotated
  set req : ConnectRequest := ⟨returning, .v5, none, "c", false, {}⟩
  have hsel : x'.1.selected (.task 0) = some (.connect req) := by
    rw [hw]
    decide +kernel
  obtain ⟨s, hs, hsent⟩ : ∃ s, x'.1.broker.sessions.lookup "c" = some s ∧
      ∃ p, .send p ∈ s.pushes .reference (.resume 0 {} x'.1.broker.config x'.1.broker.acl req x'.1.broker.nextEpoch) := by
    have h : ((x'.1.broker.sessions.lookup "c").any fun s =>
        (s.pushes .reference (.resume 0 {} x'.1.broker.config x'.1.broker.acl req x'.1.broker.nextEpoch)).any
          fun | .send _ => true | _ => false) = true := by
      rw [hw]
      decide +kernel
    obtain ⟨s, hs, hany⟩ := (Option.any_eq_true _ _).1 h
    obtain ⟨i, hi, hsend⟩ := List.any_eq_true.1 hany
    cases i with
    | send p => exact ⟨s, hs, p, hi⟩
    | _ => cases hsend
  obtain ⟨p, hp⟩ := hsent
  set o : Op := .resume 0 {} x'.1.broker.config x'.1.broker.acl req x'.1.broker.nextEpoch with ho
  have hresumed : (x'.1.step .reference { input := .task 0 }).1.broker.sessions.lookup "c" =
      some (s.apply .reference o).1 := by
    rw [(step_of_selected hsel).1]
    exact finishConnect_resumed 0 {} rfl hs
  have hlast : Annotates .reference "c" x' ({ input := .task 0 }, plain [o]) := by
    intro s₁ s₁' hs₁ hs₁' _
    rw [hs] at hs₁
    cases hs₁
    refine ⟨.resume hsel rfl rfl, ?_⟩
    rw [hresumed] at hs₁'
    exact (Option.some.inj hs₁').symm
  refine ⟨before, (pass, v), [({ input := .call (.connect returning none) }, u), ({ input := .task 0 }, plain [o])], hb, rfl,
    rfl, ?_, ⟨(s.apply .reference o).1.identity, p, p.packetId.elim [] (x'.2.step .reference s o []).flight⟩, ?_,
    not_allows_denyAll _ _ _⟩
  · exact Machine.Along.append _ (Machine.Along.mono _ (fun _ _ h => h.1) hbefore) ⟨hv, hu, hlast, trivial⟩
  · refine List.mem_append_right _ (List.mem_append_left _ ?_)
    have hsent : (audit .reference "c" x' ({ input := .task 0 }, plain [o])).2 = s.sendings .reference x'.2 o [] := by
      simp [audit, hs, hresumed, startsClean, hsel, req, returning, track, plain]
    rw [hsent]
    exact List.mem_filterMap.2 ⟨.send p, hp, rfl⟩

end World

end WispMQ
