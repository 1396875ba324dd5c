import WispMQ.Ledger
/-!
# Delivery order

Accepted messages go out in order because a flush takes the queue from the front and a delivery that cannot
be sent joins its end. A delivery that can be sent bypasses the queue; `Overtakes` is the case where the queue
is not empty then. It arises after an error PUBREC, which frees a place in the window without a flush, and
after the connection task has drained a full channel. In every run without it the order is kept.
-/

namespace WispMQ
open KeyMap

/-- A first transmission of a QoS 1 or 2 message. -/
def Outgoing.firstTransmission : Outgoing → Option Publish
  | .send p => if p.dup = false ∧ p.qos ≠ .atMostOnce then some p else none
  | _ => none

/-- The PUBLISH is a rendering of the message. -/
def Renders (pub : Publish) (p : Pending) : Prop := ∃ now id, pub = p.render now id

/-- The first transmissions are those of `L.transmitted`, in order, and follow the order of acceptance. -/
structure InOrder (items : List Outgoing) (L : Ledger) : Prop where
  rendered : List.Forall₂ Renders (items.filterMap Outgoing.firstTransmission) L.transmitted
  sublist : L.transmitted.Sublist L.accepted

/-- A delivery that is sent at once although older messages wait in the queue. -/
def Overtakes (P : Protocol) (s : Session) : Op → Prop
  | .deliver now m qos retain subIds _ =>
    qos ≠ .atMostOnce ∧ m.isExpired now = false ∧
      s.oversized P (m.toPublish now qos (some 0) retain subIds) = false ∧
      s.windowOpen = true ∧ s.out.any OutTx.hasRoom = true ∧ s.queue ≠ []
  | _ => False

instance (P : Protocol) (s : Session) : ∀ o : Op, Decidable (Overtakes P s o)
  | .deliver .. => inferInstanceAs (Decidable (_ ∧ _))
  | .control _ | .shutdown _ | .puback .. | .pubrec _ | .pubrel _ | .pubcomp .. | .setAlias .. | .inbound _
  | .subscribe _ | .unsubscribe .. | .revoke _ | .bridgeSubscribe _ | .setExpiry _ | .close | .recv | .hangup
  | .resume .. => .isFalse id

/-! ## What is pushed is what the ledger says -/

namespace Session

/-- Since the channel held `base`, the first transmissions pushed are those of `ps`. -/
structure Sends (base : List Outgoing) (ps : List Pending) (s : Session) : Prop where
  offline : s.out = none → ps = []
  online : ∀ tx, s.out = some tx → ∃ items, tx.sent = base ++ items ∧
    List.Forall₂ Renders (items.filterMap Outgoing.firstTransmission) ps

namespace Sends
variable {base : List Outgoing} {ps : List Pending} {s s' : Session}

theorem start (h : ∀ tx, s.out = some tx → tx.sent = base) : Sends base [] s :=
  ⟨fun _ => rfl, fun tx htx => ⟨[], by simp [h tx htx], .nil⟩⟩

theorem congr (h : Sends base ps s) (hout : s'.out = s.out) : Sends base ps s' :=
  ⟨fun ho => h.offline (hout ▸ ho), fun tx htx => h.online tx (hout ▸ htx)⟩

/-- Pushing anything else. -/
theorem trySend {item : Outgoing} (h : Sends base ps s) (hi : item.firstTransmission = none)
    (hs : s.trySend item = some s') : Sends base ps s' := by
  obtain ⟨tx, htx, -, rfl⟩ := trySend_some hs
  obtain ⟨items, he, hr⟩ := h.online tx htx
  refine ⟨fun ho => absurd ho (by simp), ?_⟩
  rintro tx' ⟨⟩
  exact ⟨items ++ [item], by simp [he], by simpa [List.filterMap_append, hi] using hr⟩

theorem push {item : Outgoing} (h : Sends base ps s) (hi : item.firstTransmission = none) :
    Sends base ps (s.push item) := by
  cases hs : s.trySend item with
  | none => simpa [Session.push, hs] using h
  | some s' => simpa [Session.push, hs] using h.trySend hi hs

theorem retransmit (ord : Orders) (h : Sends base ps s) : Sends base ps (s.retransmit ord) :=
  retransmit_rule (Sends base ps) (fun _ _ h => h.push (by simp [Outgoing.firstTransmission]))
    (fun _ _ h => h.push rfl) ord h

theorem launched {now id : Nat} {p : Pending} (h : Sends base ps s) (hq : p.qos ≠ .atMostOnce)
    (hl : Launched now s p id s') : Sends base (ps ++ [p]) s' := by
  obtain ⟨tx, htx, -, hout⟩ := hl.out
  obtain ⟨items, he, hr⟩ := h.online tx htx
  have hfirst : (Outgoing.send (p.render now id)).firstTransmission = some (p.render now id) := by
    simp [Outgoing.firstTransmission, Pending.render, Message.toPublish, hq]
  refine ⟨fun ho => absurd ho (by simp [hout]), fun tx' htx' => ?_⟩
  rw [hout] at htx'
  cases htx'
  refine ⟨items ++ [.send (p.render now id)], by simp [he], ?_⟩
  rw [List.filterMap_append]
  simp only [List.filterMap_cons, hfirst, List.filterMap_nil]
  exact List.rel_append hr (.cons ⟨now, id, rfl⟩ .nil)

end Sends

end Session

namespace Ledger

/-- The entries a flush sent. -/
def sentOf (fates : List (Pending × FlushFate)) : List Pending :=
  fates.filterMap fun
    | (p, .sent _) => some p
    | _ => none

theorem flushed_lists (L : Ledger) (e : Pending × FlushFate) :
    (L.flushed e).transmitted = L.transmitted ++ sentOf [e] ∧ (L.flushed e).accepted = L.accepted := by
  obtain ⟨p, fate⟩ := e
  cases fate <;> simp [flushed, launch, sentOf]

theorem foldl_flushed_lists : ∀ (fates : List (Pending × FlushFate)) (L : Ledger),
    (fates.foldl flushed L).transmitted = L.transmitted ++ sentOf fates ∧
      (fates.foldl flushed L).accepted = L.accepted
  | [], L => by simp [sentOf]
  | e :: fates, L => by
    obtain ⟨h1, h2⟩ := foldl_flushed_lists fates (L.flushed e)
    obtain ⟨h3, h4⟩ := flushed_lists L e
    rw [List.foldl_cons, h1, h2, h3, h4, List.append_assoc]
    refine ⟨congrArg _ ?_, rfl⟩
    rw [sentOf, sentOf, ← List.filterMap_append]
    rfl

theorem flush_lists (L : Ledger) (fates : List (Pending × FlushFate)) (n : Nat) :
    (L.flush fates n).transmitted = L.transmitted ++ sentOf fates ∧ (L.flush fates n).accepted = L.accepted :=
  foldl_flushed_lists fates _

end Ledger

namespace Session.Sends
variable {base : List Outgoing} {ps : List Pending} {s s' : Session}

theorem flushQueue (P : Protocol) (now : Nat) (h : Sends base ps s) (hok : s.IdsOk) :
    Sends base (ps ++ Ledger.sentOf (flushFates P now s)) (flushQueue P now s).1 := by
  obtain ⟨q, s', he, hs', -⟩ := flushLoop_rule P now
    (fun q s fs => Sends base (ps ++ Ledger.sentOf fs) s ∧ ∀ p ∈ q, p.qos ≠ .atMostOnce)
    (fun _ _ _ h => ⟨h.1.congr rfl, h.2⟩)
    (fun p q s fs _ h => ⟨by simpa [Ledger.sentOf, List.filterMap_append] using h.1, (List.forall_mem_cons.1 h.2).2⟩)
    (fun p q s fs _ h => ⟨by simpa [Ledger.sentOf, List.filterMap_append] using h.1, (List.forall_mem_cons.1 h.2).2⟩)
    (fun p q s fs id s' _ hl h =>
      have hq := List.forall_mem_cons.1 h.2
      ⟨by simpa [Ledger.sentOf, List.filterMap_append] using h.1.launched hq.1 hl, hq.2⟩)
    s.queue s [] ⟨by simpa [Ledger.sentOf] using h, hok.queue⟩
  rw [WispMQ.flushQueue, he]
  exact hs'.congr rfl

end Session.Sends

/-- The items in the channel an operation starts with. -/
def Session.pushBase (s : Session) (o : Op) : List Outgoing := (s.channelFor o).elim [] (·.sent)

theorem Session.pushes_of_sends {P : Protocol} {s : Session} {o : Op} {ps : List Pending}
    (h : Sends (s.pushBase o) ps (s.apply P o).1) :
    List.Forall₂ Renders ((s.pushes P o).filterMap Outgoing.firstTransmission) ps := by
  cases hout : (s.apply P o).1.out with
  | none => simp [pushes, hout, h.offline hout]
  | some tx =>
    obtain ⟨items, he, hr⟩ := h.online tx hout
    have hlen : (s.channelFor o).elim 0 (·.sent.length) = (s.pushBase o).length := by
      unfold pushBase
      cases s.channelFor o <;> rfl
    simpa [pushes, hout, hlen, he] using hr

theorem Session.Sends.inert (P : Protocol) {base : List Outgoing} {s : Session} (h : Sends base [] s) {o : Op}
    (hi : o.isInert) : Sends base [] (s.apply P o).1 := by
  have hmap : ∀ g : OutTx → OutTx, (∀ tx, (g tx).sent = tx.sent) → Sends base [] { s with out := s.out.map g } := by
    intro g hg
    refine ⟨fun _ => rfl, fun tx htx => ?_⟩
    obtain ⟨tx₀, h0, rfl⟩ := Option.map_eq_some_iff.1 htx
    rw [hg]
    exact h.online tx₀ h0
  cases o with
  | control p => exact h.push rfl
  | shutdown rc => exact h.push rfl
  | pubrel id =>
    have h' : Sends base [] { s with inboundQos2 := s.inboundQos2.erase id } := h.congr rfl
    exact h'.push rfl
  | subscribe sub =>
    simp only [apply, upsertSubscription]
    split <;> exact h.congr rfl
  | close => exact ⟨fun _ => rfl, fun tx htx => by cases htx⟩
  | recv => exact hmap _ fun tx => by simp only [OutTx.recv]; split <;> rfl
  | hangup => exact hmap _ fun _ => rfl
  | _ => first | exact h.congr rfl | simp [Op.isInert] at hi

/-- The first transmission a delivery makes at once. -/
def Fate.first (p : Pending) : Fate → List Pending
  | .sent (some _) => [p]
  | _ => []

theorem Session.enqueue_first (s : Session) (p : Pending) (maxQueued : Nat) :
    (s.enqueue p maxQueued).2.first p = [] ∧ (s.enqueue p maxQueued).1.out = s.out := by
  unfold enqueue
  split <;> exact ⟨rfl, rfl⟩

theorem Session.Sends.delivered {P : Protocol} {now : Nat} {s s' : Session} {base : List Outgoing} {m : Message}
    {qos : QoS} {retain : Bool} {subIds : List Nat} {maxQueued : Nat} {fate : Fate} (h : Sends base [] s)
    (hd : Delivered P now s m qos retain subIds maxQueued s' fate) :
    Sends base (fate.first ⟨m, qos, retain, subIds⟩) s' := by
  cases hd with
  | expired => exact h
  | offline => exact h
  | discarded => exact h
  | pushed hq hs => exact h.trySend (by simp [Outgoing.firstTransmission, Message.toPublish]) hs
  | launched _ hq _ hl => exact h.launched (p := ⟨m, qos, retain, subIds⟩) hq hl
  | queued _ _ hs =>
    rw [(enqueue_first _ _ _).1]
    refine h.congr ((enqueue_first _ _ _).2.trans ?_)
    rcases hs with rfl | rfl <;> rfl

theorem Delivered.first_qos0 {P : Protocol} {now : Nat} {s s' : Session} {m : Message} {qos : QoS} {retain : Bool}
    {subIds : List Nat} {maxQueued : Nat} {fate : Fate} {p : Pending}
    (hd : Delivered P now s m qos retain subIds maxQueued s' fate) (hq : qos = .atMostOnce) : fate.first p = [] := by
  cases hd with
  | launched _ hq' => exact absurd hq hq'
  | queued _ hq' => exact absurd hq hq'
  | _ => rfl

theorem Delivered.queue_qos0 {P : Protocol} {now : Nat} {s s' : Session} {m : Message} {qos : QoS} {retain : Bool}
    {subIds : List Nat} {maxQueued : Nat} {fate : Fate}
    (hd : Delivered P now s m qos retain subIds maxQueued s' fate) (hq : qos = .atMostOnce) : s'.queue = s.queue := by
  cases hd with
  | launched _ hq' => exact absurd hq hq'
  | queued _ hq' => exact absurd hq hq'
  | pushed _ hs =>
    obtain ⟨tx, -, -, rfl⟩ := Session.trySend_some hs
    rfl
  | _ => rfl

theorem Ledger.deliver_transmitted (L : Ledger) (p : Pending) (fate : Fate) (n : Nat) :
    (L.deliver p fate n).transmitted = L.transmitted ++ fate.first p := by
  match fate with
  | .sent (some id) => rfl
  | .sent none | .queued _ | .discarded | .expired | .offline => simp [deliver, Fate.first]

theorem Session.Sends.pubrec {base : List Outgoing} {s : Session} (h : Sends base [] s) (ack : PubAck) :
    Sends base [] (s.pubrec ack) := by
  simp only [Session.pubrec]
  split
  · exact h.congr rfl
  · split
    · exact Sends.push (s := { s with
        awaitingPubrec := s.awaitingPubrec.erase ack.packetId
        awaitingPubcomp := insert ack.packetId s.awaitingPubcomp }) (h.congr rfl) rfl
    · split
      · exact h.congr rfl
      · exact Sends.push (s := { s with awaitingPubrec := s.awaitingPubrec.erase ack.packetId }) (h.congr rfl) rfl

theorem Ledger.pubrec_lists (P : Protocol) (s : Session) (L : Ledger) (ack : PubAck) :
    (L.step P s (.pubrec ack)).transmitted = L.transmitted ∧ (L.step P s (.pubrec ack)).accepted = L.accepted := by
  simp only [step]
  split
  · split <;> exact ⟨rfl, rfl⟩
  · exact ⟨rfl, rfl⟩

/-- The first transmissions an operation pushes are those it adds to the ledger. -/
theorem Ledger.step_transmitted (P : Protocol) {s : Session} (hok : s.IdsOk) (L : Ledger) (o : Op) :
    ∃ ps, (L.step P s o).transmitted = L.transmitted ++ ps ∧
      List.Forall₂ Renders ((s.pushes P o).filterMap Outgoing.firstTransmission) ps := by
  suffices h : ∃ ps, (L.step P s o).transmitted = L.transmitted ++ ps ∧
      Session.Sends (s.pushBase o) ps (s.apply P o).1 by
    obtain ⟨ps, h1, h2⟩ := h
    exact ⟨ps, h1, Session.pushes_of_sends h2⟩
  have start : s.channelFor o = s.out → s.Sends (s.pushBase o) [] := fun h =>
    .start fun tx htx => by simp [Session.pushBase, h, htx]
  have hcomplete : ∀ (c : Prop) [Decidable c] (id : Nat), (if c then L.complete id else L).transmitted =
      L.transmitted := by
    intro c _ id
    split <;> rfl
  by_cases hi : o.isInert
  · refine ⟨[], by rw [Ledger.step_inert P s L hi, List.append_nil], Session.Sends.inert P (start ?_) hi⟩
    cases o <;> first | rfl | simp [Op.isInert] at hi
  cases o with
  | deliver now m qos retain subIds maxQueued =>
    have hd := deliver_delivered P now s m qos retain subIds maxQueued
    refine ⟨_, ?_, (start rfl).delivered hd⟩
    simp only [step]
    split
    · rename_i hq
      rw [hd.first_qos0 hq, List.append_nil]
    · exact deliver_transmitted L _ _ _
  | puback now id =>
    refine ⟨_, ?_, Session.Sends.flushQueue P now ((start rfl).congr rfl) (hok.erase_puback id)⟩
    simp only [step, (flush_lists _ _ _).1, hcomplete, List.nil_append]
  | pubcomp now id =>
    refine ⟨_, ?_, Session.Sends.flushQueue P now ((start rfl).congr rfl) (hok.erase_pubcomp id)⟩
    simp only [step, (flush_lists _ _ _).1, hcomplete, List.nil_append]
  | pubrec ack => exact ⟨[], by rw [(pubrec_lists P s L ack).1, List.append_nil], (start rfl).pubrec ack⟩
  | resume now ord cfg acl req epoch =>
    have hout := Session.resumeBound_out P now cfg acl req epoch s
    have hb : Session.Sends (s.pushBase (.resume now ord cfg acl req epoch)) []
        (s.resumeBound P now cfg acl req epoch) := by
      refine .start fun tx htx => ?_
      cases hout.symm.trans htx
      rfl
    have hr := hb.retransmit ord
    have hids := (hok.resumeBound P now cfg acl req epoch).congr (Session.retransmit_sameOutbound ord _)
    have hon : (s.resumeBound P now cfg acl req epoch).isOnline := by simp [Session.isOnline, hout]
    have hf := Session.Sends.flushQueue P now hr hids
    refine ⟨_, ?_, by simpa only [Session.apply, resumeDelivery, hon, if_true] using hf⟩
    simp only [step, (flush_lists _ _ _).1, List.nil_append]
  | _ => simp [Op.isInert] at hi

/-! ## The order of acceptance -/

/-- What was sent, and then what waits, in the order of acceptance. -/
def Ordered (q : List Pending) (L : Ledger) : Prop := (L.transmitted ++ q).Sublist L.accepted

namespace Ordered
variable {q q' : List Pending} {s s' : Session} {L L' : Ledger}

theorem congr (h : Ordered q L) (hq : q'.Sublist q) (ht : L'.transmitted = L.transmitted)
    (ha : L'.accepted = L.accepted) : Ordered q' L' := by
  rw [Ordered, ht, ha]
  exact (hq.append_left _).trans h

/-- A message is accepted and joins the end of the queue. -/
theorem accept {p : Pending} (h : Ordered q L) (hq : q'.Sublist q) (ht : L'.transmitted = L.transmitted)
    (ha : L'.accepted = L.accepted ++ [p]) : Ordered (q' ++ [p]) L' := by
  rw [Ordered, ht, ha, ← List.append_assoc]
  exact ((hq.append_left _).trans h).append_right _

/-- The first entry of the queue is sent. -/
theorem launch {p : Pending} (h : Ordered (p :: q) L) (id : Nat) : Ordered q (L.launch id p) := by
  simpa [Ordered, Ledger.launch] using h

theorem flush (P : Protocol) (now n : Nat) (h : Ordered s.queue L) :
    Ordered (flushQueue P now s).1.queue (L.flush (flushFates P now s) n) := by
  obtain ⟨q, s', he, hq⟩ := flushLoop_rule P now
    (fun q _ fs => Ordered q (fs.foldl Ledger.flushed { L with dropped := L.dropped + n }))
    (fun _ _ _ h => h)
    (fun p q s fs _ h => by rw [List.foldl_append]; exact h.congr (List.sublist_cons_self p q) rfl rfl)
    (fun p q s fs _ h => by rw [List.foldl_append]; exact h.congr (List.sublist_cons_self p q) rfl rfl)
    (fun p q s fs id s' _ _ h => by rw [List.foldl_append]; exact h.launch id)
    s.queue s [] h
  rw [flushQueue, he]
  exact hq

/-- A delivery that overtakes nothing. -/
theorem delivered {P : Protocol} {now : Nat} {m : Message} {qos : QoS} {retain : Bool} {subIds : List Nat}
    {maxQueued : Nat} {fate : Fate} (h : Ordered s.queue L) (hq : qos ≠ .atMostOnce)
    (ho : ¬Overtakes P s (.deliver now m qos retain subIds maxQueued))
    (hd : Delivered P now s m qos retain subIds maxQueued s' fate) (n : Nat) :
    Ordered s'.queue (L.deliver ⟨m, qos, retain, subIds⟩ fate n) := by
  cases hd with
  | expired => exact h
  | offline => exact h
  | discarded => exact h.trans (List.sublist_append_left _ _)
  | pushed hq' => exact absurd hq' hq
  | launched he _ hsize hl =>
    obtain ⟨tx, htx, hroom, hs'⟩ := hl.sent
    have hnil : s.queue = [] := by
      by_contra hne
      exact ho ⟨hq, he, hsize, hl.window, by simp [htx, hroom], hne⟩
    have hqueue : s'.queue = [] := by
      rw [hs', ← hnil]
      unfold Session.record
      split <;> rfl
    rw [hqueue]
    rw [hnil] at h
    have ha : Ordered ([] ++ [_]) { L with accepted := L.accepted ++ [_], dropped := L.dropped + n } :=
      h.accept (p := ⟨m, qos, retain, subIds⟩) (List.Sublist.refl _) rfl rfl
    exact ha.launch _
  | queued _ _ hs =>
    have hqueue : ∀ s₁ : Session, s₁.queue = s.queue → Ordered (s₁.enqueue ⟨m, qos, retain, subIds⟩ maxQueued).1.queue
        (L.deliver ⟨m, qos, retain, subIds⟩ (s₁.enqueue ⟨m, qos, retain, subIds⟩ maxQueued).2 n) := by
      intro s₁ h₁
      simp only [Session.enqueue, h₁]
      split
      · exact h.accept (List.tail_sublist _) rfl rfl
      · exact h.accept (List.Sublist.refl _) rfl rfl
    rcases hs with rfl | rfl
    · exact hqueue _ rfl
    · exact hqueue _ rfl

end Ordered

/-- Every operation that overtakes nothing keeps the order. -/
theorem Ledger.step_ordered (P : Protocol) {s : Session} {L : Ledger} (h : Ordered s.queue L) (o : Op)
    (ho : ¬Overtakes P s o) : Ordered (s.apply P o).1.queue (L.step P s o) := by
  have hcomplete : ∀ (c : Prop) [Decidable c] (id : Nat), Ordered s.queue (if c then L.complete id else L) := by
    intro c _ id
    split <;> exact h
  by_cases hi : o.isInert
  · rw [Ledger.step_inert P s L hi, (Session.apply_inert P s hi).queue]
    exact h
  cases o with
  | deliver now m qos retain subIds maxQueued =>
    have hd := deliver_delivered P now s m qos retain subIds maxQueued
    simp only [step]
    split
    · rename_i hq
      rw [show (s.apply P (.deliver now m qos retain subIds maxQueued)).1.queue = s.queue from hd.queue_qos0 hq]
      exact h
    · rename_i hq
      exact h.delivered hq ho hd _
  | puback now id => exact Ordered.flush (s := { s with awaitingPuback := s.awaitingPuback.erase id }) P now _ (hcomplete _ id)
  | pubcomp now id => exact Ordered.flush (s := { s with awaitingPubcomp := s.awaitingPubcomp.erase id }) P now _ (hcomplete _ id)
  | pubrec ack =>
    have hq : (s.pubrec ack).queue = s.queue := by
      simp only [Session.pubrec]
      split
      · rfl
      · split
        · exact (Session.push_sameOutbound _ _).queue
        · split
          · rfl
          · exact (Session.push_sameOutbound _ _).queue
    exact h.congr (hq ▸ List.Sublist.refl _) (pubrec_lists P s L ack).1 (pubrec_lists P s L ack).2
  | resume now ord cfg acl req epoch =>
    have e := (Session.resumeBound_outbound P now cfg acl req epoch s).trans (Session.retransmit_sameOutbound ord _)
    have hon : (s.resumeBound P now cfg acl req epoch).isOnline := by
      simp [Session.isOnline, Session.resumeBound_out]
    simp only [Session.apply, resumeDelivery, hon, if_true]
    refine Ordered.flush P now _ (h.congr ?_ rfl rfl)
    rw [e.queue]
    split
    · exact List.nil_sublist _
    · exact List.Sublist.refl _
  | _ => simp [Op.isInert] at hi

/-- A session with its ledger, and all it has pushed so far. -/
structure OrderKept (x : Session × Ledger) (items : List Outgoing) : Prop where
  ids : x.1.IdsOk
  ordered : Ordered x.1.queue x.2
  rendered : List.Forall₂ Renders (items.filterMap Outgoing.firstTransmission) x.2.transmitted

theorem account_orderKept (P : Protocol) {x : Session × Ledger} {items : List Outgoing} {o : Op}
    (h : OrderKept x items) (ho : ¬Overtakes P x.1 o) :
    OrderKept (account P x o).1 (items ++ (account P x o).2) := by
  refine ⟨Session.apply_idsOk P h.ids o, Ledger.step_ordered P h.ordered o ho, ?_⟩
  obtain ⟨ps, h1, h2⟩ := Ledger.step_transmitted P h.ids x.2 o
  simp only [account, h1, List.filterMap_append]
  exact List.rel_append h.rendered h2

/-- **Delivery order**: in every run in which no delivery overtakes the queue, the first transmissions pushed
into the session's channels follow the order in which the messages were accepted. -/
theorem run_inOrder (P : Protocol) (s₀ : Session) (h₀ : s₀.Blank) (ops : List Op)
    (hops : Machine.Along (account P) (fun x o => ¬Overtakes P x.1 o) (s₀, {}) ops) :
    InOrder (Machine.run (account P) (s₀, {}) ops).2 (Machine.run (account P) (s₀, {}) ops).1.2 := by
  have h := Machine.run_invariant (account P) OrderKept (s := (s₀, {}))
    ⟨h₀.idsOk, by simp [Ordered, h₀.queue], .nil⟩ (fun _ _ _ hx ho => account_orderKept P hx ho) ops hops
  exact ⟨h.rendered, (List.sublist_append_left _ _).trans h.ordered⟩

namespace Order

def message (b : UInt8) : Message := { topic := "t", payload := [b], qos := .atLeastOnce, retain := false }

/-- A connection of `"c"` that takes one message at a time. -/
def oneAtATime : Op :=
  .resume 0 {} {} .permitAll
    ⟨{ clientId := "c", cleanStart := false, receiveMaximum := some 1 }, .v5, none, "c", false, {}⟩ 1

/-- One message is sent, one waits for its PUBACK, and a third comes after both. -/
def waitInLine : List Op :=
  [oneAtATime, .deliver 0 (message 1) .atLeastOnce false [] 0, .deliver 0 (message 2) .atLeastOnce false [] 0,
    .puback 0 1, .deliver 0 (message 3) .atLeastOnce false [] 0]

/-- An error PUBREC frees the window while a message waits, and the next delivery goes first. -/
def jumpTheQueue : List Op :=
  [oneAtATime, .deliver 0 (message 1) .exactlyOnce false [] 0, .deliver 0 (message 2) .atLeastOnce false [] 0,
    .pubrec ⟨1, .unspecifiedError⟩, .deliver 0 (message 3) .atLeastOnce false [] 0, .puback 0 2]

end Order

theorem run_inOrder_waitInLine :
    InOrder (Machine.run (account .reference) (Session.new "c" 60, {}) Order.waitInLine).2
      (Machine.run (account .reference) (Session.new "c" 60, {}) Order.waitInLine).1.2 :=
  run_inOrder .reference (Session.new "c" 60) ⟨rfl, rfl, rfl, rfl, by decide⟩ Order.waitInLine
    (by decide +kernel)

theorem run_jumpTheQueue_notInOrder :
    ¬InOrder (Machine.run (account .reference) (Session.new "c" 60, {}) Order.jumpTheQueue).2
      (Machine.run (account .reference) (Session.new "c" 60, {}) Order.jumpTheQueue).1.2 := by
  intro h
  have hsub := h.sublist
  revert hsub
  decide +kernel

end WispMQ
