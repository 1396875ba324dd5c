import WispMQ.Replies
import WispMQ.Wills
/-!
# The copies of a message

A message is followed by its payload. `Gains payload n s s'` says that the channel of a session got at most `n` PUBLISH
packets with the payload, and that the payload is neither in the queue nor in flight: at QoS 0 that is how it stays, so
every copy a session gets is pushed while the message is routed (`step_gains`), and there are no more of them than calls
of `route` that the session's subscriptions take part in.
-/

namespace WispMQ
open KeyMap

/-- The packet is a PUBLISH with the payload. -/
def Packet.bears (payload : Bytes) : Packet → Bool
  | .publish p => p.payload = payload
  | _ => false

/-- The connection task writes a PUBLISH with the payload for the item. -/
def Outgoing.carries (payload : Bytes) : Outgoing → Bool
  | .send p => p.payload = payload
  | .control p => p.bears payload
  | .shutdown _ => false

/-- The operation delivers a message with the payload. -/
def Op.brings (payload : Bytes) : Op → Bool
  | .deliver _ m .. => m.payload = payload
  | .control p => p.bears payload
  | _ => false

/-- The payload is delivered at QoS 0 only. -/
def Op.light (payload : Bytes) : Op → Prop
  | .deliver _ m qos .. => m.payload = payload → qos = .atMostOnce
  | _ => True

theorem Op.light_of_brings {payload : Bytes} {o : Op} (h : o.brings payload = false) : o.light payload := by
  cases o with
  | deliver now m qos retain subIds maxQueued =>
    intro hm
    simp [Op.brings, hm] at h
  | _ => trivial

namespace Session
variable {P : Protocol} {payload : Bytes} {n n' : Nat} {q : List Pending} {s s' s'' : Session}

/-- The payload is not among the entries of `q` and not in flight. -/
structure LacksIn (payload : Bytes) (q : List Pending) (s : Session) : Prop where
  queue : ∀ p ∈ q, p.message.payload ≠ payload
  puback : ∀ id p, s.awaitingPuback.lookup id = some p → p.payload ≠ payload
  pubrec : ∀ id p, s.awaitingPubrec.lookup id = some p → p.payload ≠ payload

/-- The payload is neither in the queue nor in flight. -/
def Lacks (payload : Bytes) (s : Session) : Prop := s.LacksIn payload s.queue

namespace LacksIn

theorem congr (h : s.LacksIn payload q) (hp : s'.awaitingPuback = s.awaitingPuback)
    (hr : s'.awaitingPubrec = s.awaitingPubrec) : s'.LacksIn payload q :=
  ⟨h.queue, fun id p => hp ▸ h.puback id p, fun id p => hr ▸ h.pubrec id p⟩

theorem tail {p : Pending} (h : s.LacksIn payload (p :: q)) : s.LacksIn payload q :=
  ⟨fun x hx => h.queue x (List.mem_cons_of_mem _ hx), h.puback, h.pubrec⟩

theorem launched {now id : Nat} {p : Pending} (h : s.LacksIn payload q) (hp : p.message.payload ≠ payload)
    (hl : s.Launched now p id s') : s'.LacksIn payload q := by
  obtain ⟨tx, -, -, rfl⟩ := hl.sent
  have hrender : (p.render now id).payload ≠ payload := hp
  cases hq : p.qos with
  | atMostOnce => exact ⟨h.queue, h.puback, h.pubrec⟩
  | atLeastOnce =>
    refine ⟨h.queue, fun x p' hx => ?_, h.pubrec⟩
    simp only [record] at hx
    rw [lookup_insert_if] at hx
    split at hx
    · cases hx
      exact hrender
    · exact h.puback x p' hx
  | exactlyOnce =>
    refine ⟨h.queue, h.puback, fun x p' hx => ?_⟩
    simp only [record] at hx
    rw [lookup_insert_if] at hx
    split at hx
    · cases hx
      exact hrender
    · exact h.pubrec x p' hx

theorem flushQueue (now : Nat) (h : s.LacksIn payload s.queue) : (flushQueue P now s).1.Lacks payload := by
  obtain ⟨q, s', he, hs'⟩ := flushLoop_rule P now (fun q s _ => s.LacksIn payload q)
    (fun _ _ _ h => h.congr rfl rfl) (fun _ _ _ _ _ h => h.tail) (fun _ _ _ _ _ h => h.tail)
    (fun p _ _ _ _ _ _ hl h => h.tail.launched (h.queue p List.mem_cons_self) hl) s.queue s [] h
  rw [WispMQ.flushQueue, he]
  exact ⟨hs'.queue, hs'.puback, hs'.pubrec⟩

theorem enqueue {p : Pending} (h : s.LacksIn payload s.queue) (hp : p.message.payload ≠ payload) (maxQueued : Nat) :
    (s.enqueue p maxQueued).1.Lacks payload := by
  have hsnoc : ∀ q : List Pending, (∀ x ∈ q, x.message.payload ≠ payload) →
      ∀ x ∈ q ++ [p], x.message.payload ≠ payload := by
    intro q hq x hx
    rcases List.mem_append.1 hx with hx | hx
    · exact hq x hx
    · rw [List.mem_singleton.1 hx]
      exact hp
  unfold Session.enqueue
  split
  · exact ⟨hsnoc _ fun x hx => h.queue x (List.mem_of_mem_tail hx), h.puback, h.pubrec⟩
  · exact ⟨hsnoc _ h.queue, h.puback, h.pubrec⟩

end LacksIn

namespace Lacks

theorem congr (h : s.Lacks payload) (e : s.SameOutbound s') : s'.Lacks payload := by
  unfold Lacks
  rw [e.queue]
  exact LacksIn.congr h e.puback e.pubrec

theorem delivered {now : Nat} {m : Message} {qos : QoS} {retain : Bool} {subIds : List Nat} {maxQueued : Nat} {fate : Fate}
    (h : s.Lacks payload) (hm : m.payload = payload → qos = .atMostOnce)
    (hd : Delivered P now s m qos retain subIds maxQueued s' fate) : s'.Lacks payload := by
  cases hd with
  | expired => exact h
  | offline => exact h
  | discarded => exact h
  | pushed _ hs =>
    obtain ⟨tx, -, -, rfl⟩ := trySend_some hs
    exact ⟨h.queue, h.puback, h.pubrec⟩
  | launched _ hq _ hl =>
    have hqueue : s'.queue = s.queue := by
      obtain ⟨tx, -, -, rfl⟩ := hl.sent
      cases qos <;> rfl
    unfold Lacks
    rw [hqueue]
    exact LacksIn.launched (p := ⟨m, qos, retain, subIds⟩) h (fun he => hq (hm he)) hl
  | queued _ hq hs =>
    have hne : (Pending.mk m qos retain subIds).message.payload ≠ payload := fun he => hq (hm he)
    rcases hs with rfl | rfl
    · exact LacksIn.enqueue h hne maxQueued
    · exact LacksIn.enqueue (s := s.nextId.2) ⟨h.queue, h.puback, h.pubrec⟩ hne maxQueued

theorem erase_puback (h : s.Lacks payload) (id : Nat) :
    LacksIn payload s.queue { s with awaitingPuback := s.awaitingPuback.erase id } := by
  refine ⟨h.queue, fun x p hx => ?_, h.pubrec⟩
  rw [lookup_erase_if] at hx
  split at hx
  · cases hx
  · exact h.puback x p hx

theorem erase_pubrec (h : s.Lacks payload) (id : Nat) :
    LacksIn payload s.queue { s with awaitingPubrec := s.awaitingPubrec.erase id } := by
  refine ⟨h.queue, h.puback, fun x p hx => ?_⟩
  rw [lookup_erase_if] at hx
  split at hx
  · cases hx
  · exact h.pubrec x p hx

/-- Every operation but a takeover. -/
theorem apply (h : s.Lacks payload) {o : Op} (ho : o.isResume = false) (hlight : o.light payload) :
    (s.apply P o).1.Lacks payload := by
  cases o with
  | deliver now m qos retain subIds maxQueued =>
    exact h.delivered hlight (deliver_delivered P now s m qos retain subIds maxQueued)
  | puback now id => exact LacksIn.flushQueue now (h.erase_puback id)
  | pubcomp now id =>
    exact LacksIn.flushQueue (s := { s with awaitingPubcomp := s.awaitingPubcomp.erase id }) now
      ⟨h.queue, h.puback, h.pubrec⟩
  | pubrec ack =>
    have herased := h.erase_pubrec ack.packetId
    simp only [Session.apply, Session.pubrec]
    split
    · exact herased
    · split
      · exact congr (s := { s with
            awaitingPubrec := s.awaitingPubrec.erase ack.packetId
            awaitingPubcomp := insert ack.packetId s.awaitingPubcomp })
          ⟨herased.queue, herased.puback, herased.pubrec⟩ (push_sameOutbound _ _)
      · split
        · exact herased
        · exact congr (s := { s with awaitingPubrec := s.awaitingPubrec.erase ack.packetId }) herased
            (push_sameOutbound _ _)
  | resume => cases ho
  | _ => exact h.congr (apply_inert P s rfl)

end Lacks

/-! ## What a session gains -/

/-- The channel of `s'`, if it has one, is that of `s` further on, with at most `n` new PUBLISH packets that carry the
payload; nothing else in `s'` has the payload. -/
structure Gains (payload : Bytes) (n : Nat) (s s' : Session) : Prop where
  channel : ∀ tx', s'.out = some tx' → ∃ tx items, s.out = some tx ∧ tx'.sent = tx.sent ++ items ∧
    tx.received ≤ tx'.received ∧ items.countP (·.carries payload) ≤ n
  lacks : s'.Lacks payload

/-- How many copies wait in the channel. -/
def waiting (payload : Bytes) (s : Session) : Nat := s.out.elim 0 (·.waiting.countP (·.carries payload))

/-- The channel has never had the payload. -/
def Silent (payload : Bytes) (s : Session) : Prop := ∀ tx, s.out = some tx → tx.sent.countP (·.carries payload) = 0

namespace Gains

theorem refl (h : s.Lacks payload) : s.Gains payload 0 s :=
  ⟨fun tx htx => ⟨tx, [], htx, by simp, le_refl _, by simp⟩, h⟩

theorem trans (h : s.Gains payload n s') (h' : s'.Gains payload n' s'') : s.Gains payload (n + n') s'' := by
  refine ⟨fun tx'' htx'' => ?_, h'.lacks⟩
  obtain ⟨tx', items', htx', hsent', hrec', hcount'⟩ := h'.channel tx'' htx''
  obtain ⟨tx, items, htx, hsent, hrec, hcount⟩ := h.channel tx' htx'
  refine ⟨tx, items ++ items', htx, by rw [hsent', hsent, List.append_assoc], hrec.trans hrec', ?_⟩
  rw [List.countP_append]
  omega

theorem mono (h : s.Gains payload n s') (hn : n ≤ n') : s.Gains payload n' s' := by
  refine ⟨fun tx' htx' => ?_, h.lacks⟩
  obtain ⟨tx, items, htx, hsent, hrec, hcount⟩ := h.channel tx' htx'
  exact ⟨tx, items, htx, hsent, hrec, hcount.trans hn⟩

/-- What waits afterwards has waited before, or is new. -/
theorem waiting_le (h : s.Gains payload n s') : s'.waiting payload ≤ s.waiting payload + n := by
  cases htx' : s'.out with
  | none => simp [waiting, htx']
  | some tx' =>
    obtain ⟨tx, items, htx, hsent, hrec, hcount⟩ := h.channel tx' htx'
    simp only [waiting, htx, htx', Option.elim_some, OutTx.waiting, hsent]
    have hdrop : ((tx.sent ++ items).drop tx'.received).countP (·.carries payload) ≤
        ((tx.sent ++ items).drop tx.received).countP (·.carries payload) :=
      (List.drop_sublist_drop_left _ hrec).countP_le
    have hnew : ((tx.sent ++ items).drop tx.received).countP (·.carries payload) ≤
        (tx.sent.drop tx.received).countP (·.carries payload) + items.countP (·.carries payload) := by
      rw [List.drop_append, List.countP_append]
      exact Nat.add_le_add_left (List.drop_sublist _ _).countP_le _
    omega

theorem silent (h : s.Gains payload 0 s') (hs : s.Silent payload) : s'.Silent payload := by
  intro tx' htx'
  obtain ⟨tx, items, htx, hsent, -, hcount⟩ := h.channel tx' htx'
  rw [hsent, List.countP_append, hs tx htx]
  omega

end Gains

theorem Silent.waiting (h : s.Silent payload) : s.waiting payload = 0 := by
  cases htx : s.out with
  | none => simp [Session.waiting, htx]
  | some tx =>
    have hle : tx.waiting.countP (·.carries payload) ≤ tx.sent.countP (·.carries payload) :=
      (List.drop_sublist _ _).countP_le
    rw [h tx htx] at hle
    simpa [Session.waiting, htx] using hle

/-- The connection task does not give back what it has taken. -/
theorem apply_received {o : Op} (ho : o.isResume = false) :
    ∀ tx', (s.apply P o).1.out = some tx' → ∃ tx, s.out = some tx ∧ tx.received ≤ tx'.received := by
  have happ : ∀ (s₁ : Session) {s' : Session}, s₁.out = s.out → Appends (fun _ => True) s₁ s' →
      ∀ tx', s'.out = some tx' → ∃ tx, s.out = some tx ∧ tx.received ≤ tx'.received := by
    rintro s₁ s' hout ⟨items, h, -⟩ tx' htx'
    rw [h, hout] at htx'
    obtain ⟨tx, htx, rfl⟩ := Option.map_eq_some_iff.1 htx'
    exact ⟨tx, htx, le_refl _⟩
  cases o with
  | deliver now m qos retain subIds maxQueued =>
    exact happ _ rfl ((deliver_appends now s m qos retain subIds maxQueued).mono fun _ _ => trivial)
  | control p => exact happ _ rfl (.push s _ trivial)
  | shutdown rc => exact happ _ rfl (.push s _ trivial)
  | puback now id =>
    exact happ { s with awaitingPuback := s.awaitingPuback.erase id } rfl (flushQueue_appends P now _)
  | pubcomp now id =>
    exact happ { s with awaitingPubcomp := s.awaitingPubcomp.erase id } rfl (flushQueue_appends P now _)
  | pubrec ack =>
    simp only [Session.apply, Session.pubrec]
    split
    · exact happ _ rfl (.refl _)
    · split
      · exact happ _ rfl (.push _ _ trivial)
      · split
        · exact happ _ rfl (.refl _)
        · exact happ _ rfl (.push _ _ trivial)
  | pubrel id => exact happ _ rfl (.push _ _ trivial)
  | subscribe sub =>
    simp only [Session.apply, upsertSubscription]
    split <;> exact happ _ rfl (.refl _)
  | close =>
    intro tx' htx'
    cases htx'
  | recv =>
    intro tx' htx'
    obtain ⟨tx, htx, rfl⟩ := Option.map_eq_some_iff.1 htx'
    refine ⟨tx, htx, ?_⟩
    unfold OutTx.recv
    split
    · exact Nat.le_succ _
    · exact le_refl _
  | hangup =>
    intro tx' htx'
    obtain ⟨tx, htx, rfl⟩ := Option.map_eq_some_iff.1 htx'
    exact ⟨tx, htx, le_refl _⟩
  | resume => cases ho
  | _ => exact happ _ rfl (.of_out rfl)

/-- Everything but a delivery of the message pushes something else. -/
theorem MayPush.not_carries (h : s.Lacks payload) {o : Op} (ho : o.brings payload = false) {item : Outgoing}
    (hi : MayPush P s o item) : item.carries payload = false := by
  have hflush : ∀ {now : Nat}, Flushes P now s item → item.carries payload = false := by
    rintro now ⟨p, hp, id, rfl, -⟩
    exact decide_eq_false (h.queue p hp)
  cases hi with
  | qos0 => exact ho
  | launched => exact ho
  | control => exact ho
  | puback hf => exact hflush hf
  | pubcomp hf => exact hflush hf
  | _ => rfl

/-- **One operation**: only a delivery of the message brings a copy, and it brings one. -/
theorem apply_gains (h : s.Lacks payload) {o : Op} (ho : o.isResume = false) (hlight : o.light payload) :
    s.Gains payload (if o.brings payload then 1 else 0) (s.apply P o).1 := by
  refine ⟨fun tx' htx' => ?_, h.apply ho hlight⟩
  obtain ⟨tx, htx, hrec⟩ := apply_received ho tx' htx'
  obtain ⟨tx₀, items, htx₀, hsent, hitems⟩ := apply_grows s ho tx' htx'
  rw [htx] at htx₀
  cases htx₀
  refine ⟨tx, items, htx, hsent, hrec, ?_⟩
  cases hb : o.brings payload with
  | false =>
    simp only [Bool.false_eq_true, if_false, Nat.le_zero]
    exact List.countP_eq_zero.2 fun i hi => by rw [(hitems i hi).not_carries h hb]; exact Bool.false_ne_true
  | true =>
    cases o with
    | deliver now m qos retain subIds maxQueued =>
      have hlen : items.length ≤ 1 := by
        simp only [Session.apply, deliverToSession] at htx'
        rcases deliver_out P now s m qos retain subIds maxQueued with hout | ⟨p, tx₁, htx₁, -, hout⟩
        · rw [hout, htx] at htx'
          cases htx'
          simp [show items = [] by simpa using hsent]
        · rw [htx] at htx₁
          cases htx₁
          rw [hout] at htx'
          cases htx'
          rw [← List.append_cancel_left hsent]
          simp
      exact List.countP_le_length.trans (by simpa using hlen)
    | control p =>
      have hlen : items.length ≤ 1 := by
        simp only [Session.apply] at htx'
        by_cases hroom : tx.hasRoom
        · simp [push, trySend, htx, OutTx.trySend, hroom] at htx'
          rw [← htx'] at hsent
          simp [← List.append_cancel_left hsent]
        · simp [push, trySend, htx, OutTx.trySend, hroom] at htx'
          rw [← htx'] at hsent
          simp [show items = [] by simpa using hsent]
      exact List.countP_le_length.trans (by simpa using hlen)
    | _ => cases hb

/-- Operations in turn. -/
theorem applyAll_gains : ∀ {os : List Op} {s : Session}, s.Lacks payload → (∀ o ∈ os, o.isResume = false) →
    (∀ o ∈ os, o.light payload) → s.Gains payload (os.countP (·.brings payload)) (s.applyAll P os).1
  | [], _, h, _, _ => .refl h
  | o :: os, s, h, hres, hlight => by
    obtain ⟨ho, hres⟩ := List.forall_mem_cons.1 hres
    obtain ⟨hl, hlight⟩ := List.forall_mem_cons.1 hlight
    have hone := apply_gains (P := P) h ho hl
    refine (hone.trans (applyAll_gains hone.lacks hres hlight)).mono ?_
    rw [List.countP_cons]
    omega

/-- **A takeover** pushes no copy into the new channel. -/
theorem resume_silent (h : s.Lacks payload) (now : Nat) (ord : Orders) (cfg : Config) (acl : Acl) {req : ConnectRequest}
    (epoch : Nat) (hout : req.out = {}) :
    (s.apply P (.resume now ord cfg acl req epoch)).1.Lacks payload ∧
      (s.apply P (.resume now ord cfg acl req epoch)).1.Silent payload := by
  set s₁ := s.resumeBound P now cfg acl req epoch with hs₁
  have hl₁ : s₁.Lacks payload := by
    refine Lacks.congr ?_ (resumeBound_outbound P now cfg acl req epoch s)
    split
    · exact ⟨by simp [clearOwned], by simp [clearOwned], by simp [clearOwned]⟩
    · exact h
  have hsame := retransmit_sameOutbound ord s₁
  have hl₂ : (s₁.retransmit ord).Lacks payload := hl₁.congr hsame
  have hresent : Grows (fun i => i.carries payload = false) s₁ (s₁.retransmit ord) := by
    rw [retransmit_eq]
    refine .pushAll _ s₁ fun i hi => ?_
    simp only [resentItems, List.mem_append, List.mem_map, (reorder_perm _ _).mem_iff] at hi
    rcases hi with (⟨p, hp, rfl⟩ | ⟨p, hp, rfl⟩) | ⟨id, -, rfl⟩
    · obtain ⟨id, hid⟩ := lookup_of_mem_values hp
      exact decide_eq_false (hl₁.puback id p hid)
    · obtain ⟨id, hid⟩ := lookup_of_mem_values hp
      exact decide_eq_false (hl₁.pubrec id p hid)
    · rfl
  have hflush : Grows (fun i => i.carries payload = false) (s₁.retransmit ord)
      (flushQueue P now (s₁.retransmit ord)).1 := by
    refine (flushQueue_grows now _).mono ?_
    rintro i ⟨p, hp, id, rfl, -⟩
    exact decide_eq_false (hl₂.queue p hp)
  have hon : s₁.isOnline := by simp [isOnline, hs₁, resumeBound_out]
  simp only [Session.apply, resumeDelivery, ← hs₁, hon, if_true]
  refine ⟨LacksIn.flushQueue now hl₂, fun tx' htx' => ?_⟩
  obtain ⟨tx, items, htx, hsent, hitems⟩ := (hresent.trans hflush) tx' htx'
  rw [hs₁, resumeBound_out, hout] at htx
  cases htx
  rw [hsent, List.nil_append]
  exact List.countP_eq_zero.2 fun i hi => by rw [hitems i hi]; exact Bool.false_ne_true

end Session

/-! ## Routing -/

/-- Routing `m` brings the payload to the client: one of its subscriptions takes part. -/
def reaches (P : Protocol) (payload : Bytes) (cid : String) (subs : List Subscription) (publisher : Option String)
    (m : Message) : Bool :=
  m.payload = payload && subs.any (eligible P publisher m cid)

/-- The client gets the payload at QoS 0 only, and not through a shared group. -/
def Lightly (P : Protocol) (payload : Bytes) (cid : String) (subs : List Subscription) (publisher : Option String)
    (m : Message) : Prop :=
  m.payload = payload → ∀ sub ∈ subs, eligible P publisher m cid sub →
    sub.shareName = none ∧ m.qos.min sub.qos = .atMostOnce

/-- The call of `route` an effect stands for. -/
def Effect.routing : Effect → Option (Origin × Message)
  | .routed origin m => some (origin, m)
  | _ => none

/-- The effect is a call of `route` that reaches the client. -/
def Effect.reaches (P : Protocol) (payload : Bytes) (cid : String) (subs : List Subscription) : Effect → Bool
  | .routed origin m => WispMQ.reaches P payload cid subs origin.publisher m
  | _ => false

namespace Broker
open Session
variable {P : Protocol} {payload : Bytes} {b b' : Broker} {cid : String} {s s' : Session} {n n' : Nat}

/-- The session is there in `b'`, with the record it had, and has gained at most `n` copies. -/
def Gives (payload : Bytes) (cid : String) (n : Nat) (s : Session) (b' : Broker) : Prop :=
  ∃ s', b'.sessions.lookup cid = some s' ∧ s.Gains payload n s' ∧ s.SameRecord s'

namespace Gives

theorem of_lookup (h : b'.sessions.lookup cid = some s) (hl : s.Lacks payload) : Gives payload cid 0 s b' :=
  ⟨s, h, .refl hl, .refl s⟩

theorem andThen {b'' : Broker} (h : Gives payload cid n s b')
    (h' : ∀ s', b'.sessions.lookup cid = some s' → s'.Lacks payload → s.SameRecord s' → Gives payload cid n' s' b'') :
    Gives payload cid (n + n') s b'' := by
  obtain ⟨s', hs', hg, hr⟩ := h
  obtain ⟨s'', hs'', hg', hr'⟩ := h' s' hs' hg.lacks hr
  exact ⟨s'', hs'', hg.trans hg', hr.trans hr'⟩

/-- Quiet operations that deliver nothing. -/
theorem of_op {o : Op} (hl : s.Lacks payload) (ho : o.isQuiet) (hb : o.brings payload = false)
    (h : b'.sessions.lookup cid = some (s.apply P o).1) : Gives payload cid 0 s b' := by
  have hres : o.isResume = false := by cases o <;> first | rfl | cases ho
  refine ⟨_, h, ?_, apply_quiet P s ho⟩
  simpa [hb] using apply_gains (P := P) hl hres (Op.light_of_brings hb)

end Gives

/-- **Routing**: at most one copy, and none unless a subscription takes part. -/
theorem route_gives (now : Nat) (ord : Orders) {publisher : Option String} {m : Message}
    (hs : b.sessions.lookup cid = some s) (hl : s.Lacks payload)
    (hlight : Lightly P payload cid s.subscriptions publisher m) :
    Gives payload cid (if reaches P payload cid s.subscriptions publisher m then 1 else 0) s
      (route P now ord b publisher m).1 := by
  have hsubs : b.subsOf cid = s.subscriptions := by simp [subsOf, hs]
  refine ⟨_, route_lookup now ord publisher m hs, ?_, ?_⟩
  · set os := b.deliveries P now ord publisher m cid with hos
    have hmem : ∀ o ∈ os, ∃ qos retain subIds maxQueued, o = .deliver now m qos retain subIds maxQueued := fun o ho =>
      mem_deliveries ho
    have hres : ∀ o ∈ os, o.isResume = false := by
      intro o ho
      obtain ⟨qos, retain, subIds, maxQueued, rfl⟩ := hmem o ho
      rfl
    by_cases hm : m.payload = payload
    · -- the delivery for the ordinary subscriptions is the only one
      have hnil : (b.chosen P ord publisher m).filter (·.clientId = cid) = [] := by
        refine List.filter_eq_nil_iff.2 fun c hc => ?_
        obtain ⟨sub, hsub, hshare, hel, -⟩ := chosen_sharedVia ord b c hc
        rw [decide_eq_true_eq]
        rintro rfl
        rw [hsubs] at hsub
        rw [(hlight hm sub hsub hel).1] at hshare
        cases hshare
      rw [deliveries, hnil, hsubs, List.map_nil, List.append_nil] at hos
      cases ho : ordinary P publisher m cid s.subscriptions with
      | none =>
        rw [ho] at hos
        rw [hos]
        exact (Gains.refl hl).mono (Nat.zero_le _)
      | some d =>
        have hreach : reaches P payload cid s.subscriptions publisher m = true := by
          obtain ⟨sub, hsub, -, hel⟩ := ordinary_isSome.1 (Option.isSome_iff_exists.2 ⟨d, ho⟩)
          simp only [reaches, hm, decide_true, Bool.true_and, List.any_eq_true]
          exact ⟨sub, hsub, hel⟩
        have hqos : d.1 = .atMostOnce := by
          simp only [ordinary] at ho
          obtain ⟨q, hbest, rfl⟩ := Option.map_eq_some_iff.1 ho
          exact scan_best_qos0 s.subscriptions (fun sub hsub _ hel => (hlight hm sub hsub hel).2) (by simp) q hbest
        rw [ho] at hos
        rw [hos, hreach, if_pos rfl]
        refine (applyAll_gains hl (hos ▸ hres) fun o ho => ?_).mono (List.countP_le_length.trans (by simp))
        obtain rfl : o = deliveryOp now m b.config.maxQueuedMessages d := by simpa using ho
        exact fun _ => hqos
    · have hnot : ∀ o ∈ os, o.brings payload = false := by
        intro o ho
        obtain ⟨qos, retain, subIds, maxQueued, rfl⟩ := hmem o ho
        exact decide_eq_false hm
      refine (applyAll_gains hl hres fun o ho => Op.light_of_brings (hnot o ho)).mono ?_
      rw [List.countP_eq_zero.2 fun o ho => by rw [hnot o ho]; exact Bool.false_ne_true]
      exact Nat.zero_le _
  · obtain ⟨s', hs', h⟩ := route_receives (P := P) now ord publisher m hs
    rw [route_lookup now ord publisher m hs] at hs'
    exact Option.some.inj hs' ▸ h.sameRecord

theorem storeRetained_reaches (b : Broker) (origin : Origin) (m : Message) (subs : List Subscription) :
    (b.storeRetained origin m).2.countP (·.reaches P payload cid subs) = 0 := by
  unfold storeRetained
  split
  · split <;> rfl
  · rfl

theorem publishMessage_gives (now : Nat) (ord : Orders) (origin : Origin) {m : Message}
    (hs : b.sessions.lookup cid = some s) (hl : s.Lacks payload)
    (hlight : Lightly P payload cid s.subscriptions origin.publisher m) :
    Gives payload cid
      ((publishMessage P now ord b origin origin.publisher m).effects.countP (·.reaches P payload cid s.subscriptions)) s
      (publishMessage P now ord b origin origin.publisher m).broker := by
  simp only [publishMessage, List.countP_append, storeRetained_reaches, List.countP_singleton, Nat.zero_add]
  exact route_gives now ord ((storeRetained_sessions b origin m) ▸ hs) hl hlight

theorem publishSys_gives (now : Nat) (ord : Orders) {subs : List Subscription} : ∀ (es : List (String × Bytes)) {b : Broker}
    {s : Session}, b.sessions.lookup cid = some s → s.Lacks payload → s.subscriptions = subs →
    (∀ origin m, .routed origin m ∈ (publishSys P now ord es b).effects → Lightly P payload cid subs origin.publisher m) →
    Gives payload cid ((publishSys P now ord es b).effects.countP (·.reaches P payload cid subs)) s
      (publishSys P now ord es b).broker
  | [], _, _, hs, hl, _, _ => .of_lookup hs hl
  | (topic, body) :: es, b, s, hs, hl, hsubs, hlight => by
    simp only [publishSys, List.mem_cons, reduceCtorEq, false_or] at hlight ⊢
    have hone : Gives payload cid (if reaches P payload cid subs none (sysMessage topic body) then 1 else 0) s
        (route P now ord { b with retained := b.retained.insert topic (sysMessage topic body) } none
          (sysMessage topic body)).1 :=
      hsubs ▸ route_gives now ord hs hl (hsubs ▸ hlight .sys _ (.inl rfl))
    have hall := hone.andThen fun s' hs' hl' hr => publishSys_gives now ord es hs' hl'
      (hr.subscriptions.trans hsubs) fun origin m h => hlight origin m (.inr h)
    rw [Nat.add_comm] at hall
    simp only [List.countP_cons, Effect.reaches, Origin.publisher, Bool.false_eq_true, if_false, Nat.add_zero]
    exact hall

/-- An acknowledgement is no copy. -/
theorem acknowledge_gives (c : String) (qos : QoS) (ack : PubAck) (hs : b.sessions.lookup cid = some s)
    (hl : s.Lacks payload) : Gives payload cid 0 s (b.acknowledge c qos ack) := by
  by_cases hc : cid = c
  · subst hc
    have hself := acknowledge_lookup_self qos ack hs
    cases hack : publishAck qos ack with
    | none =>
      rw [hack] at hself
      exact .of_lookup hself hl
    | some q =>
      have hq : q.bears payload = false := by
        cases qos <;> cases hack <;> rfl
      rw [hack] at hself
      exact .of_op (P := .reference) (o := .control q) hl rfl hq hself
  · exact .of_lookup ((acknowledge_lookup_ne qos ack hc).trans hs) hl

theorem routePublish_gives {c : String} (now : Nat) (ord : Orders) (epoch : Nat) {s₀ : Session} {p : Publish} {m : Message}
    (hs : b.sessions.lookup cid = some s) (hs₀ : b.sessions.lookup c = some s₀) (hl : s.Lacks payload)
    (hlight : .routed (.publish c epoch) m ∈ (routePublish P now ord b c epoch s₀ p m).2 →
      Lightly P payload cid s.subscriptions (some c) m) :
    Gives payload cid
      ((routePublish P now ord b c epoch s₀ p m).2.countP (·.reaches P payload cid s.subscriptions)) s
      (routePublish P now ord b c epoch s₀ p m).1 := by
  -- a call of `route`, then the acknowledgement
  have hroute : ∀ {b₁ : Broker} {s₁ : Session} (qos : QoS) (f : Bool → PubAck), b₁.sessions.lookup cid = some s₁ →
      s₁.Lacks payload → s₁.subscriptions = s.subscriptions → Lightly P payload cid s.subscriptions (some c) m →
      Gives payload cid ([Effect.routed (.publish c epoch) m].countP (·.reaches P payload cid s.subscriptions)) s₁
        ((route P now ord b₁ (some c) m).1.acknowledge c qos (f (route P now ord b₁ (some c) m).2)) := by
    intro b₁ s₁ qos f hs₁ hl₁ hsubs hm
    rw [← hsubs] at hm ⊢
    have h := (route_gives now ord hs₁ hl₁ hm).andThen fun s' hs' hl' _ =>
      acknowledge_gives c qos (f (route P now ord b₁ (some c) m).2) hs' hl'
    rw [List.countP_singleton]
    exact h
  simp only [routePublish] at hlight ⊢
  split at hlight
  · exact hroute .atMostOnce (fun _ => ⟨0, .success⟩) hs hl rfl (hlight (by simp))
  · exact hroute .atLeastOnce (fun matched => ⟨p.packetId.getD 0, matchedCode matched⟩) hs hl rfl (hlight (by simp))
  · split at hlight
    · rename_i hdup
      simp only [hdup, if_true]
      exact acknowledge_gives c .exactlyOnce ⟨p.packetId.getD 0, .success⟩ hs hl
    · rename_i hdup
      simp only [hdup, if_false]
      have hset : Gives payload cid 0 s (b.setSession c { s₀ with inboundQos2 := insert (p.packetId.getD 0) s₀.inboundQos2 }) := by
        by_cases hc : cid = c
        · subst hc
          rw [hs] at hs₀
          cases hs₀
          exact .of_op (P := .reference) (o := .inbound (p.packetId.getD 0)) hl rfl rfl (by simp [setSession, Session.apply])
        · exact .of_lookup ((AList.lookup_insert_ne hc).trans hs) hl
      have h := hset.andThen fun s' hs' hl' hr => hroute .exactlyOnce
        (fun matched => ⟨p.packetId.getD 0, matchedCode matched⟩) hs' hl' hr.subscriptions (hlight (by simp))
      rw [Nat.zero_add] at h
      exact h

theorem acceptPublish_gives {c : String} (now : Nat) (ord : Orders) (epoch : Nat) {s₀ : Session} {p : Publish}
    {subs : List Subscription} (hs : b.sessions.lookup cid = some s) (hs₀ : b.sessions.lookup c = some s₀)
    (hl : s.Lacks payload) (hsubs : s.subscriptions = subs)
    (hlight : ∀ origin m, .routed origin m ∈ (acceptPublish P now ord b c epoch s₀ p).effects →
      Lightly P payload cid subs origin.publisher m) :
    Gives payload cid ((acceptPublish P now ord b c epoch s₀ p).effects.countP (·.reaches P payload cid subs)) s
      (acceptPublish P now ord b c epoch s₀ p).broker := by
  subst hsubs
  unfold acceptPublish at hlight ⊢
  split
  · exact .of_lookup hs hl
  split
  · exact .of_lookup hs hl
  split
  · exact acknowledge_gives c p.qos _ hs hl
  · rename_i h1 h2 h3
    simp only [h1, h2, h3, Bool.false_eq_true, if_false] at hlight
    set r := b.storeRetained (.publish c epoch) (Message.fromPublish now p)
    have hsessions : r.1.sessions = b.sessions := storeRetained_sessions ..
    have h := routePublish_gives (P := P) now ord epoch (p := p) (m := Message.fromPublish now p) (hsessions ▸ hs)
      (hsessions ▸ hs₀) hl fun h => hlight _ _ (List.mem_append_left _ (List.mem_append_right _ h))
    simp only [List.countP_append, storeRetained_reaches]
    simpa [Effect.reaches] using h

/-- **A PUBLISH**, whoever sent it. -/
theorem handlePublish_gives {c : String} (now : Nat) (ord : Orders) (epoch : Nat) {p : Publish}
    (hs : b.sessions.lookup cid = some s) (hl : s.Lacks payload)
    (hlight : ∀ origin m, .routed origin m ∈ (handlePublish P now ord b c epoch p).effects →
      Lightly P payload cid s.subscriptions origin.publisher m) :
    Gives payload cid ((handlePublish P now ord b c epoch p).effects.countP (·.reaches P payload cid s.subscriptions)) s
      (handlePublish P now ord b c epoch p).broker := by
  rcases handlePublish_cases P now ord b c epoch p with ⟨rc, he⟩ | ⟨s₀, s₁, p₁, hs₀, -, hr, he⟩
  · rw [he]
    exact .of_lookup hs hl
  · rw [he] at hlight ⊢
    set b₁ := { b with metrics.publishReceived := b.metrics.publishReceived + 1 }.setSession c s₁ with hb₁
    have hs₁ : b₁.sessions.lookup c = some s₁ := by simp [hb₁, setSession]
    have halias : Gives payload cid 0 s b₁ := by
      by_cases hc : cid = c
      · subst hc
        rw [hs] at hs₀
        cases hs₀
        rcases resolveAlias_ok (P := P) hr with rfl | ⟨a, rfl⟩
        · exact .of_lookup hs₁ hl
        · exact .of_op (P := P) (o := .setAlias a p.topic) hl rfl rfl hs₁
      · exact .of_lookup ((AList.lookup_insert_ne hc).trans hs) hl
    have h := halias.andThen fun s' hs' hl' hr' =>
      acceptPublish_gives now ord epoch hs' hs₁ hl' hr'.subscriptions hlight
    rw [Nat.zero_add] at h
    exact h

/-- The message a PUBLISH is routed as, if it passes the checks of `handle_publish` and is no duplicate
(publish.rs:24-165). -/
def accepts (P : Protocol) (now : Nat) (b : Broker) (cid : String) (epoch : Nat) (p : Publish) : Option Message :=
  if !supported b.config p then none
  else match b.sessions.lookup cid with
    | none => none
    | some s =>
      if s.epoch ≠ epoch then none
      else match resolveAlias b.config s p with
        | .error _ => none
        | .ok (s, p) =>
          if !P.validTopicName p.topic || startsWith p.topic sysPrefix ||
              (b.acl.isEnforced && !b.acl.canPublish P (who s.identity) p.topic) ||
              (p.qos = .exactlyOnce && p.packetId.getD 0 ∈ s.inboundQos2) then none
          else some (Message.fromPublish now p)

theorem accepts_payload {now : Nat} {epoch : Nat} {p : Publish} {m : Message}
    (h : b.accepts P now cid epoch p = some m) : m.payload = p.payload := by
  unfold accepts at h
  split at h
  · cases h
  split at h
  · cases h
  split at h
  · cases h
  split at h
  · cases h
  · rename_i hr
    split at h
    · cases h
    · cases h
      obtain ⟨topic, rfl⟩ := resolveAlias_publish hr
      rfl

/-- The part of `accepts` after alias resolution. -/
theorem acceptPublish_routings (now : Nat) (ord : Orders) (b : Broker) (cid : String) (epoch : Nat) (s : Session)
    (p : Publish) :
    (acceptPublish P now ord b cid epoch s p).effects.filterMap Effect.routing =
      if !P.validTopicName p.topic || startsWith p.topic sysPrefix ||
          (b.acl.isEnforced && !b.acl.canPublish P (who s.identity) p.topic) ||
          (p.qos = .exactlyOnce && p.packetId.getD 0 ∈ s.inboundQos2) then []
      else [(.publish cid epoch, Message.fromPublish now p)] := by
  have hstore : ∀ m, (b.storeRetained (.publish cid epoch) m).2.filterMap Effect.routing = [] := by
    intro m
    unfold storeRetained
    split
    · split <;> rfl
    · rfl
  have hroute : ∀ (b : Broker) m, (routePublish P now ord b cid epoch s p m).2.filterMap Effect.routing =
      if p.qos = .exactlyOnce && p.packetId.getD 0 ∈ s.inboundQos2 then [] else [(.publish cid epoch, m)] := by
    intro b m
    unfold routePublish
    cases p.qos with
    | atMostOnce => rfl
    | atLeastOnce => rfl
    | exactlyOnce =>
      by_cases hd : p.packetId.getD 0 ∈ s.inboundQos2
      · simp [hd]
      · simp [hd, Effect.routing]
  unfold acceptPublish
  cases hvalid : P.validTopicName p.topic with
  | false => simp [answer, Effect.routing]
  | true =>
    cases hsys : startsWith p.topic sysPrefix with
    | true => simp [answer, Effect.routing]
    | false =>
      cases hacl : b.acl.isEnforced && !b.acl.canPublish P (who s.identity) p.topic with
      | true => simp [answer, Effect.routing]
      | false =>
        simp only [Bool.not_true, Bool.false_eq_true, if_false, Bool.or_self, Bool.false_or, List.filterMap_append,
          hstore, hroute, List.nil_append]
        exact List.append_nil _

/-- **`handle_publish` routes what it accepts**, once. -/
theorem handlePublish_routings (now : Nat) (ord : Orders) (b : Broker) (cid : String) (epoch : Nat) (p : Publish) :
    (handlePublish P now ord b cid epoch p).effects.filterMap Effect.routing =
      (b.accepts P now cid epoch p).toList.map (Prod.mk (.publish cid epoch)) := by
  by_cases hq : p.qos.asU8 > b.config.maximumQos.asU8
  · simp [handlePublish, accepts, supported, hq, answer, Effect.routing]
  cases hret : p.retain && !b.config.retainAvailable with
  | true => simp [handlePublish, accepts, supported, hq, hret, answer, Effect.routing]
  | false =>
    simp only [handlePublish, accepts, supported, hq, hret, fenced, decide_false, Bool.not_false, Bool.and_self, Bool.not_true,
      Bool.false_eq_true, if_false]
    cases hs : b.sessions.lookup cid with
    | none => rfl
    | some s =>
      by_cases he : s.epoch = epoch
      · simp only [he, if_true, ne_eq, not_true_eq_false, if_false]
        cases hr : resolveAlias b.config s p with
        | error rc => rfl
        | ok r =>
          simp only [acceptPublish_routings, setSession]
          split <;> rfl
      · simp only [he, if_false, ne_eq, not_false_eq_true, if_true]
        rfl

theorem handlePublish_accepts {now : Nat} {ord : Orders} {c : String} {epoch : Nat} {p : Publish} {m : Message}
    (h : .routed (.publish c epoch) m ∈ (handlePublish P now ord b c epoch p).effects) :
    b.accepts P now c epoch p = some m := by
  have hrouting : (.publish c epoch, m) ∈ (handlePublish P now ord b c epoch p).effects.filterMap Effect.routing :=
    List.mem_filterMap.2 ⟨_, h, rfl⟩
  rw [handlePublish_routings, List.mem_map] at hrouting
  obtain ⟨m', hm', he⟩ := hrouting
  cases he
  exact Option.mem_toList.1 hm'

/-! ## SUBSCRIBE -/

/-- The retained messages a SUBSCRIBE picks up (subscribe.rs:104-120). -/
def pickedUp (P : Protocol) (now : Nat) (ord : Orders) (b : Broker) (cid : String) (s : Session) (sub : Subscribe) :
    List Message :=
  (sub.filters.foldl (subscribeFilter P now ord b cid sub.subscriptionIdentifiers.head?)
    { session := s }).retainedToSend.map (·.1)

/-- A SUBSCRIBE that does not pick the message up pushes no copy of it. -/
theorem handleSubscribe_ops {now : Nat} {ord : Orders} {sub : Subscribe} (hs : b.sessions.lookup cid = some s)
    (hnot : ∀ m ∈ b.pickedUp P now ord cid s sub, m.payload ≠ payload)
    (hs' : (handleSubscribe P now ord b cid s.epoch sub).broker.sessions.lookup cid = some s') :
    ∃ os : List Op, s' = (s.applyAll P os).1 ∧ ∀ o ∈ os, o.isResume = false ∧ o.brings payload = false := by
  obtain ⟨subs, -, hsession, -⟩ := subscribeFilters_sees (P := P) now ord b cid sub.subscriptionIdentifiers.head?
    sub.filters { session := s }
  set acc := sub.filters.foldl (subscribeFilter P now ord b cid sub.subscriptionIdentifiers.head?) { session := s } with hacc
  set ds : List Op := acc.retainedToSend.map fun e => .deliver now e.1 e.2.1 true e.2.2 b.config.maxQueuedMessages with hds
  refine ⟨subs.map .subscribe ++ [.control (.suback ⟨sub.packetId, acc.reasonCodes⟩)] ++ ds, ?_, fun o ho => ?_⟩
  · simp only [handleSubscribe, fenced, hs, if_true, addDropped, setSession, AList.lookup_insert, Option.some.injEq,
      ← hacc] at hs'
    rw [← hs', deliverRetained_sees, hsession, Session.applyAll_append, Session.applyAll_append]
    rfl
  · simp only [List.mem_append, List.mem_map, List.mem_singleton, hds] at ho
    rcases ho with (⟨sub, -, rfl⟩ | rfl) | ⟨e, he, rfl⟩
    · exact ⟨rfl, rfl⟩
    · exact ⟨rfl, rfl⟩
    · exact ⟨rfl, decide_eq_false (hnot e.1 (List.mem_map_of_mem he))⟩

end Broker

/-! ## Every step -/

namespace World
open Broker Session
variable {P : Protocol} {payload : Bytes} {w : World} {l : Label} {cid : String} {s s' : Session}

theorem applyAll_keeps : ∀ {os : List Op} {s : Session}, s.Lacks payload →
    (∀ o ∈ os, o.isResume = false ∧ o.brings payload = false) →
    (s.applyAll P os).1.epoch = s.epoch ∧ s.Gains payload 0 (s.applyAll P os).1
  | [], _, hl, _ => ⟨rfl, .refl hl⟩
  | o :: os, s, hl, h => by
    obtain ⟨⟨hres, hb⟩, hos⟩ := List.forall_mem_cons.1 h
    have hone := apply_gains (P := P) hl hres (Op.light_of_brings hb)
    rw [hb] at hone
    obtain ⟨he, hg⟩ := applyAll_keeps hone.lacks hos
    exact ⟨he.trans (apply_binding P s hres).epoch, hone.trans hg⟩

/-- What a step does, seen by a session that looks for the payload: it gains copies on the connection it had, or it has
a new connection without any. -/
def Turn (payload : Bytes) (n : Nat) (s s' : Session) : Prop :=
  s'.epoch = s.epoch ∧ s.Gains payload n s' ∨ s'.Lacks payload ∧ s'.Silent payload

theorem Turn.lacks {n : Nat} (h : Turn payload n s s') : s'.Lacks payload :=
  h.elim (fun h => h.2.lacks) (fun h => h.1)

theorem Turn.of_gives {b : Broker} {n : Nat} (h : Gives payload cid n s b) (hs' : b.sessions.lookup cid = some s') :
    Turn payload n s s' := by
  obtain ⟨s₁, hs₁, hg, hr⟩ := h
  rw [hs'] at hs₁
  cases hs₁
  exact .inl ⟨hr.epoch, hg⟩

theorem Turn.of_ops {n : Nat} (hl : s.Lacks payload) {os : List Op} (he : s' = (s.applyAll P os).1)
    (h : ∀ o ∈ os, o.isResume = false ∧ o.brings payload = false) : Turn payload n s s' := by
  obtain ⟨hepoch, hg⟩ := applyAll_keeps (P := P) hl h
  rw [he]
  exact .inl ⟨hepoch, hg.mono (Nat.zero_le _)⟩

theorem lacks_of_empty (hq : s.queue = []) (hp : s.awaitingPuback = ∅) (hr : s.awaitingPubrec = ∅) : s.Lacks payload :=
  ⟨by simp [hq], by simp [hp], by simp [hr]⟩

theorem freshSession_silent (now : Nat) (b : Broker) {req : ConnectRequest} (hout : req.out = {}) :
    (freshSession now b req).Lacks payload ∧ (freshSession now b req).Silent payload := by
  refine ⟨lacks_of_empty rfl rfl rfl, fun tx htx => ?_⟩
  have hreq : (freshSession now b req).out = some req.out := rfl
  rw [hreq, hout] at htx
  cases htx
  rfl

theorem bridgeSession_silent (b : Broker) (cid : String) :
    (bridgeSession b cid).Lacks payload ∧ (bridgeSession b cid).Silent payload := by
  refine ⟨lacks_of_empty rfl rfl rfl, fun tx htx => ?_⟩
  cases htx
  rfl

/-- A step that routes nothing brings the payload only as a retained message. -/
theorem Sees.no_copies {v : List (Op × List String)} (h : Sees P w l cid s v) (hroute : ¬MayRoute w l)
    (hsub : ∀ sub, w.selected l.input ≠ some (.dispatch cid s.epoch (.subscribe sub)))
    (hconn : ∀ req, w.selected l.input = some (.connect req) → cid ≠ req.clientId) :
    ∀ o ∈ v.map Prod.fst, o.isResume = false ∧ o.brings payload = false := by
  cases h with
  | nothing => simp
  | routed hr => exact absurd hr hroute
  | publish hsel => exact absurd (.publish hsel) hroute
  | @ack packet o hsel ho => cases packet <;> simp [ackOp] at ho <;> subst ho <;> simp [plain, Op.isResume, Op.brings]
  | subscribe hsel => exact absurd hsel (hsub _)
  | unsubscribe =>
    intro o ho
    simp only [plain_fst, List.mem_append, List.mem_map, List.mem_singleton] at ho
    rcases ho with ⟨u, -, rfl⟩ | rfl <;> exact ⟨rfl, rfl⟩
  | revoke _ _ h => rcases h with rfl | rfl <;> simp [plain, Op.isResume, Op.brings]
  | resume hsel hc => exact absurd hc (hconn _ hsel)
  | _ => simp [plain, Op.isResume, Op.brings, Packet.bears]

/-- **One step**: a session gains a copy only when the message is routed and one of its subscriptions takes part, and
then one. -/
theorem step_gains (hs : w.broker.sessions.lookup cid = some s)
    (hs' : (step P w l).1.broker.sessions.lookup cid = some s') (hl : s.Lacks payload)
    (hlight : ∀ origin m, .routed origin m ∈ (step P w l).2 → Lightly P payload cid s.subscriptions origin.publisher m)
    (hsub : ∀ sub, w.selected l.input = some (.dispatch cid s.epoch (.subscribe sub)) →
      ∀ m ∈ w.broker.pickedUp P l.now l.ord cid s sub, m.payload ≠ payload)
    (hout : ∀ req, w.selected l.input = some (.connect req) → req.out = {}) :
    Turn payload ((step P w l).2.countP (·.reaches P payload cid s.subscriptions)) s s' := by
  by_cases hroute : MayRoute w l
  · cases hroute with
    | publish hsel =>
      rw [(step_of_selected hsel).1] at hs'
      rw [(step_of_selected hsel).2] at hlight ⊢
      exact .of_gives (handlePublish_gives l.now l.ord _ hs hl hlight) hs'
    | will hsel =>
      rw [(step_of_selected hsel).1] at hs'
      rw [(step_of_selected hsel).2] at hlight ⊢
      exact .of_gives (publishMessage_gives l.now l.ord (.will _ _) hs hl
        (hlight _ _ (by simp [runTask, willPublish, publishMessage]))) hs'
    | sys hin =>
      simp only [step, hin, absorb] at hs' hlight ⊢
      exact .of_gives (publishSys_gives l.now l.ord _ hs hl rfl hlight) hs'
    | bridge hin =>
      simp only [step, hin, absorb] at hs' hlight ⊢
      exact .of_gives (publishMessage_gives l.now l.ord (.bridge _) hs hl
        (hlight _ _ (by simp [enter, injectPublish, publishMessage]))) hs'
  by_cases hsubscribe : ∃ sub, w.selected l.input = some (.dispatch cid s.epoch (.subscribe sub))
  · obtain ⟨sub, hsel⟩ := hsubscribe
    rw [(step_of_selected hsel).1] at hs'
    obtain ⟨os, he, hos⟩ := handleSubscribe_ops hs (hsub sub hsel) hs'
    exact .of_ops hl he hos
  by_cases hconn : ∃ req, w.selected l.input = some (.connect req) ∧ cid = req.clientId
  · obtain ⟨req, hsel, rfl⟩ := hconn
    rw [(step_of_selected hsel).1, runTask] at hs'
    cases hclean : req.connect.cleanStart with
    | false =>
      rw [finishConnect_resumed l.now l.ord hclean hs] at hs'
      cases hs'
      exact .inr (resume_silent hl l.now l.ord _ _ _ (hout req hsel))
    | true =>
      rw [finishConnect_fresh l.now l.ord (.inl hclean)] at hs'
      cases hs'
      exact .inr (freshSession_silent l.now w.broker (hout req hsel))
  cases step_becomes P w l hs hs' with
  | sees h he =>
    exact .of_ops hl he (h.no_copies hroute (fun sub hsel => hsubscribe ⟨sub, hsel⟩) fun req hsel hc => hconn ⟨req, hsel, hc⟩)
  | fresh hsel hc => exact absurd ⟨_, hsel, hc⟩ hconn
  | bridge _ _ he =>
    rw [he]
    exact .inr (bridgeSession_silent w.broker cid)

/-- A session that a step makes knows nothing of the message. -/
theorem step_new (hs : w.broker.sessions.lookup cid = none)
    (hs' : (step P w l).1.broker.sessions.lookup cid = some s')
    (hout : ∀ req, w.selected l.input = some (.connect req) → req.out = {}) :
    s'.Lacks payload ∧ s'.Silent payload := by
  cases step_stems P w l hs' with
  | fresh hsel _ _ h =>
    rw [h]
    exact freshSession_silent l.now w.broker (hout _ hsel)
  | bridge _ _ h =>
    rw [h]
    exact bridgeSession_silent w.broker cid
  | same hs₀ => rw [hs] at hs₀; cases hs₀
  | publish hs₀ => rw [hs] at hs₀; cases hs₀
  | closed hs₀ => rw [hs] at hs₀; cases hs₀
  | resumed hs₀ => rw [hs] at hs₀; cases hs₀

end World

/-! ## PUBLISH packets under way -/

def Input.sends (payload : Bytes) (links : List (String × Nat)) : Input → Bool
  | .call (.packet c e packet) => (c, e) ∈ links && packet.bears payload
  | _ => false

def Task.handles (payload : Bytes) (links : List (String × Nat)) : Task → Bool
  | .dispatch c e packet => (c, e) ∈ links && packet.bears payload
  | _ => false

/-- The message of such a PUBLISH is handed to `route`. -/
def Effect.relays (payload : Bytes) (links : List (String × Nat)) : Effect → Bool
  | .routed (.publish c e) m => (c, e) ∈ links && m.payload = payload
  | _ => false

namespace World
open Broker
variable {P : Protocol} {payload : Bytes} {links : List (String × Nat)} {w : World} {l : Label}

theorem relays_le_selected (P : Protocol) (payload : Bytes) (links : List (String × Nat)) (w : World) (l : Label) :
    (step P w l).2.countP (·.relays payload links) ≤
    (w.selected l.input).toList.countP (·.handles payload links) := by
  rcases Nat.eq_zero_or_pos ((step P w l).2.countP (·.relays payload links)) with h | h
  · omega
  obtain ⟨x, hx, hrel⟩ := List.countP_pos_iff.1 h
  unfold Effect.relays at hrel
  split at hrel
  · rename_i c e m
    obtain ⟨p, hsel, -⟩ := routed_publish hx
    have hcount : (step P w l).2.countP (·.relays payload links) =
        ((step P w l).2.filterMap Effect.routing).countP fun r => (Effect.routed r.1 r.2).relays payload links := by
      rw [List.countP_filterMap]
      refine List.countP_congr fun x _ => ?_
      cases x <;> simp [Effect.routing, Effect.relays]
    rw [hcount, (step_of_selected hsel).2]
    simp only [runTask, dispatch]
    rw [handlePublish_routings, hsel]
    cases ha : w.broker.accepts P l.now c e p with
    | none => simp
    | some m =>
      have hm := accepts_payload ha
      simp [Effect.relays, Task.handles, Packet.bears, hm]
  · cases hrel

/-- A dispatch is spawned by the packet it handles. -/
theorem newTasks_handles (P : Protocol) (payload : Bytes) (links : List (String × Nat)) (w : World) (l : Label) :
    (newTasks P w l).countP (·.handles payload links) ≤
    if l.input.sends payload links then 1 else 0 := by
  rcases Nat.eq_zero_or_pos ((newTasks P w l).countP (·.handles payload links)) with h | h
  · omega
  obtain ⟨t, ht, hh⟩ := List.countP_pos_iff.1 h
  have hs := newTasks_spawned ht
  unfold Task.handles at hh
  split at hh
  · rename_i c e packet
    have hin := hs.dispatched.1
    have hlen : (newTasks P w l).length ≤ 1 := by
      simp only [newTasks, hin, enter, handlePacket, answer]
      split
      · split <;> simp
      · simp
    simp only [hin, Input.sends, hh, if_true]
    exact List.countP_le_length.trans hlen
  · cases hh

/-- **No PUBLISH is handled twice**: what a connection's packets are routed as, they have arrived as. -/
theorem step_relays (P : Protocol) (payload : Bytes) (links : List (String × Nat)) (w : World) (l : Label) :
    (step P w l).1.tasks.countP (·.handles payload links) + (step P w l).2.countP (·.relays payload links) ≤
      w.tasks.countP (·.handles payload links) + if l.input.sends payload links then 1 else 0 := by
  have hcount := step_countP P w l (·.handles payload links)
  have hnew := newTasks_handles P payload links w l
  have hsel := relays_le_selected P payload links w l
  omega

end World

end WispMQ
