import WispMQ.PacketIds
import WispMQ.Epochs
/-!
# Where every message is

A `Ledger` follows the QoS 1 and 2 messages of one session from the moment `deliver_to_session` accepts them.
It is computed from what the code reports: the fate of a delivery, the fates of a flush, and which exchange an
acknowledgement ends. `account` runs the session and its ledger side by side; what it emits is what was
pushed into the session's channels.

`Accounted` is the invariant: the accepted messages are exactly those in the queue, in flight under their
own ids, completed, expired or discarded, each as often as it was accepted.
-/

namespace WispMQ
open KeyMap

structure Ledger where
  /-- Accepted by `deliver_to_session`, oldest first. -/
  accepted : List Pending := []
  /-- Pushed for the first time, oldest first. -/
  transmitted : List Pending := []
  /-- Sent under an id and not completed. -/
  flight : List (Nat × Pending) := []
  completed : List Pending := []
  /-- Removed by `flush_queue` because they had expired. -/
  expired : List Pending := []
  /-- Evicted from the queue, or too large for the client. -/
  discarded : List Pending := []
  /-- What the operations added to `publish_dropped`. -/
  dropped : Nat := 0
  /-- Insertions into an awaiting map that replaced an entry. -/
  overwritten : Nat := 0

namespace Ledger

/-- A message is sent under `id` and recorded in an awaiting map. -/
def launch (L : Ledger) (id : Nat) (p : Pending) : Ledger :=
  { L with
    transmitted := L.transmitted ++ [p]
    flight := (id, p) :: L.flight
    overwritten := L.overwritten + if id ∈ L.flight.map (·.1) then 1 else 0 }

/-- The exchange of `id` ends. -/
def complete (L : Ledger) (id : Nat) : Ledger :=
  { L with
    flight := L.flight.filter (·.1 ≠ id)
    completed := L.completed ++ (L.flight.filter (·.1 = id)).map (·.2) }

/-- A QoS 1 or 2 delivery, and the drops it reported. -/
def deliver (L : Ledger) (p : Pending) (fate : Fate) (drops : Nat) : Ledger :=
  match fate with
  | .sent (some id) => { L with accepted := L.accepted ++ [p], dropped := L.dropped + drops }.launch id p
  | .queued evicted =>
    { L with
      accepted := L.accepted ++ [p]
      discarded := L.discarded ++ evicted.toList
      dropped := L.dropped + drops }
  | .discarded =>
    { L with
      accepted := L.accepted ++ [p]
      discarded := L.discarded ++ [p]
      dropped := L.dropped + drops }
  | _ => L

/-- One entry a flush removed from the queue. -/
def flushed (L : Ledger) : Pending × FlushFate → Ledger
  | (p, .expired) => { L with expired := L.expired ++ [p] }
  | (p, .oversized) => { L with discarded := L.discarded ++ [p] }
  | (p, .sent id) => L.launch id p

/-- A flush, and the drops it reported. -/
def flush (L : Ledger) (fates : List (Pending × FlushFate)) (drops : Nat) : Ledger :=
  fates.foldl flushed { L with dropped := L.dropped + drops }

end Ledger

section Account
variable (P : Protocol)

/-- The ledger after the operation, from the session before it. -/
def Ledger.step (s : Session) (L : Ledger) : Op → Ledger
  | .deliver now m qos retain subIds maxQueued =>
    if qos = .atMostOnce then L
    else
      L.deliver ⟨m, qos, retain, subIds⟩ (WispMQ.deliver P now s m qos retain subIds maxQueued).2
        (deliverToSession P now s m qos retain subIds maxQueued).2.toNat
  | .puback now id =>
    let s' := { s with awaitingPuback := s.awaitingPuback.erase id }
    (if id ∈ s.awaitingPuback then L.complete id else L).flush (flushFates P now s') (flushQueue P now s').2
  | .pubrec ack =>
    if ack.packetId ∈ s.awaitingPubrec then
      if ack.reasonCode.isError then L.complete ack.packetId
      else { L with overwritten := L.overwritten + if ack.packetId ∈ s.awaitingPubcomp then 1 else 0 }
    else L
  | .pubcomp now id =>
    let s' := { s with awaitingPubcomp := s.awaitingPubcomp.erase id }
    (if id ∈ s.awaitingPubcomp then L.complete id else L).flush (flushFates P now s') (flushQueue P now s').2
  | .resume now ord cfg acl req epoch =>
    let s' := (s.resumeBound P now cfg acl req epoch).retransmit ord
    L.flush (flushFates P now s') (flushQueue P now s').2
  | _ => L

theorem Ledger.step_inert (s : Session) (L : Ledger) {o : Op} (h : o.isInert) : L.step P s o = L := by
  cases o <;> first | rfl | simp [Op.isInert] at h

/-- The channel an operation starts with; a takeover brings a new one. -/
def Session.channelFor (s : Session) : Op → Option OutTx
  | .resume _ _ _ _ req _ => some req.out
  | _ => s.out

/-- What an operation pushed into the session's channel. -/
def Session.pushes (s : Session) (o : Op) : List Outgoing :=
  match (s.apply P o).1.out with
  | some tx => tx.sent.drop ((s.channelFor o).elim 0 (·.sent.length))
  | none => []

/-- A session with its ledger. -/
def account (x : Session × Ledger) (o : Op) : (Session × Ledger) × List Outgoing :=
  (((x.1.apply P o).1, x.2.step P x.1 o), x.1.pushes P o)

end Account

/-- A session that holds no message yet, as `Session::new` and the loader make them. -/
structure Session.Blank (s : Session) : Prop where
  puback : s.awaitingPuback = ∅
  pubrec : s.awaitingPubrec = ∅
  pubcomp : s.awaitingPubcomp = ∅
  queue : s.queue = []
  next : 1 ≤ s.nextPacketId ∧ s.nextPacketId ≤ 65535

theorem Session.Blank.idsOk {s : Session} (h : s.Blank) : s.IdsOk where
  puback_pubrec := by simp [h.puback]
  puback_pubcomp := by simp [h.puback]
  pubrec_pubcomp := by simp [h.pubrec]
  range := by simp [Session.idsInUse, h.puback, h.pubrec, h.pubcomp]
  puback_entry := by simp [h.puback]
  pubrec_entry := by simp [h.pubrec]
  next := h.next
  queue := by simp [h.queue]

/-! ## The invariant -/

/-- The message is in the awaiting map of its QoS, or its PUBREC has come. -/
def Session.Holds (s : Session) (id : Nat) (p : Pending) : Prop :=
  (∃ now, s.awaitingPuback.lookup id = some (p.render now id)) ∨
  (∃ now, s.awaitingPubrec.lookup id = some (p.render now id)) ∨ id ∈ s.awaitingPubcomp

/-- The ledger of a flush in progress: `q` is what is left of the queue. -/
structure Balanced (q : List Pending) (s : Session) (L : Ledger) : Prop where
  ids : s.IdsOk
  queue : ∀ p ∈ q, p.qos ≠ .atMostOnce
  conserved : L.accepted.Perm (q ++ L.flight.map (·.2) ++ L.completed ++ L.expired ++ L.discarded)
  nodup : (L.flight.map (·.1)).Nodup
  inUse : ∀ id, id ∈ L.flight.map (·.1) ↔ id ∈ s.idsInUse
  holds : ∀ id p, (id, p) ∈ L.flight → s.Holds id p
  overwritten : L.overwritten = 0

namespace Balanced
variable {q : List Pending} {s s' : Session} {L : Ledger}

theorem nextId (h : Balanced q s L) : Balanced q s.nextId.2 L :=
  ⟨h.ids.nextId, h.queue, h.conserved, h.nodup, h.inUse, h.holds, h.overwritten⟩

theorem congr (h : Balanced q s L) (e : s.SameOutbound s') : Balanced q s' L where
  ids := h.ids.congr e
  queue := h.queue
  conserved := h.conserved
  nodup := h.nodup
  inUse := fun id => by rw [h.inUse, Session.idsInUse, Session.idsInUse, e.puback, e.pubrec, e.pubcomp]
  holds := fun id p hp => by
    simp only [Session.Holds, e.puback, e.pubrec, e.pubcomp]
    exact h.holds id p hp
  overwritten := h.overwritten

/-- A launched message leaves the queue and is in flight under an id of its own. -/
theorem launch {now id : Nat} {p : Pending} (h : Balanced (p :: q) s L) (hl : s.Launched now p id s') :
    Balanced q s' (L.launch id p) := by
  have hq := (List.forall_mem_cons.1 h.queue).1
  have hnew : id ∉ L.flight.map (·.1) := by
    rw [h.inUse, ← Session.idInUse_iff, (Session.nextId_fresh h.ids.next hl.fresh).1]
    simp
  exact {
    ids := h.ids.launched hq hl
    queue := (List.forall_mem_cons.1 h.queue).2
    conserved := by
      refine h.conserved.trans ?_
      simp only [Ledger.launch, List.map_cons, List.cons_append, List.append_assoc]
      exact List.perm_middle.symm
    nodup := List.nodup_cons.2 ⟨hnew, h.nodup⟩
    inUse := fun x => by
      rw [hl.idsInUse hq]
      simp only [Ledger.launch, List.map_cons, List.mem_cons, Finset.mem_insert, h.inUse]
    holds := by
      intro x r hr
      simp only [Ledger.launch, List.mem_cons, Prod.mk.injEq] at hr
      obtain ⟨tx, -, -, rfl⟩ := hl.sent
      rcases hr with ⟨rfl, rfl⟩ | hr
      · cases hqos : r.qos with
        | atMostOnce => exact absurd hqos hq
        | atLeastOnce => exact .inl ⟨now, by simp [Session.record]⟩
        | exactlyOnce => exact .inr (.inl ⟨now, by simp [Session.record]⟩)
      · have hx : x ≠ id := fun e => hnew (e ▸ List.mem_map_of_mem hr)
        have := h.holds x r hr
        cases hqos : p.qos <;>
          simpa [Session.Holds, Session.record, Session.nextId, lookup_insert_if, hx] using this
    overwritten := by simp [Ledger.launch, hnew, h.overwritten] }

/-- An expired entry leaves the queue. -/
theorem expire {p : Pending} (h : Balanced (p :: q) s L) : Balanced q s (L.flushed (p, .expired)) where
  ids := h.ids
  queue := (List.forall_mem_cons.1 h.queue).2
  conserved := by
    refine h.conserved.trans ?_
    simp only [Ledger.flushed, List.cons_append, List.append_assoc]
    simp only [← List.append_assoc]
    exact List.perm_middle.symm.trans (by simp)
  nodup := h.nodup
  inUse := h.inUse
  holds := h.holds
  overwritten := h.overwritten

/-- An entry that is too large leaves the queue. -/
theorem discard {p : Pending} (h : Balanced (p :: q) s L) : Balanced q s (L.flushed (p, .oversized)) where
  ids := h.ids
  queue := (List.forall_mem_cons.1 h.queue).2
  conserved := by
    refine h.conserved.trans ?_
    simp only [Ledger.flushed, List.cons_append, ← List.append_assoc]
    exact (List.perm_append_singleton _ _).symm
  nodup := h.nodup
  inUse := h.inUse
  holds := h.holds
  overwritten := h.overwritten

/-- `flush_queue` moves entries from the queue to where its fates say. -/
theorem flush (P : Protocol) (now n : Nat) (h : Balanced s.queue s L) :
    Balanced (flushQueue P now s).1.queue (flushQueue P now s).1 (L.flush (flushFates P now s) n) := by
  obtain ⟨q', s', he, hb⟩ := flushLoop_rule P now
    (fun q s fs => Balanced q s (fs.foldl Ledger.flushed { L with dropped := L.dropped + n }))
    (fun _ _ _ h => h.nextId)
    (fun p q s fs _ h => by rw [List.foldl_append]; exact h.expire)
    (fun p q s fs _ h => by rw [List.foldl_append]; exact h.discard)
    (fun p q s fs id s' _ hl h => by rw [List.foldl_append]; exact h.launch hl)
    s.queue s [] ⟨h.ids, h.queue, h.conserved, h.nodup, h.inUse, h.holds, h.overwritten⟩
  rw [flushQueue, he]
  exact ⟨hb.ids.setQueue hb.queue, hb.queue, hb.conserved, hb.nodup, hb.inUse, hb.holds, hb.overwritten⟩

/-- An exchange ends: one id is no longer in use, and its message is completed. -/
theorem complete (h : Balanced q s L) {id : Nat} (hids : s'.IdsOk) (huse : s'.idsInUse = s.idsInUse.erase id)
    (hholds : ∀ x p, x ≠ id → s.Holds x p → s'.Holds x p) : Balanced q s' (L.complete id) where
  ids := hids
  queue := h.queue
  conserved := by
    have hsplit : (L.flight.map (·.2)).Perm
        ((L.flight.filter (·.1 ≠ id)).map (·.2) ++ (L.flight.filter (·.1 = id)).map (·.2)) := by
      rw [← List.map_append]
      refine List.Perm.map _ ((List.filter_append_perm (fun e => decide (e.1 ≠ id)) L.flight).symm.trans ?_)
      simp
    refine h.conserved.trans ?_
    simp only [Ledger.complete, List.append_assoc]
    refine List.Perm.append_left q ?_
    refine (hsplit.append_right _).trans ?_
    rw [List.append_assoc]
    refine List.Perm.append_left _ ?_
    rw [← List.append_assoc, ← List.append_assoc (L.completed)]
    exact List.perm_append_comm.append_right _
  nodup := h.nodup.sublist (List.filter_sublist.map _)
  inUse := fun x => by
    rw [huse, Finset.mem_erase, ← h.inUse]
    simp only [Ledger.complete, List.mem_map, List.mem_filter, decide_eq_true_eq]
    constructor
    · rintro ⟨e, ⟨he, hne⟩, rfl⟩; exact ⟨hne, e, he, rfl⟩
    · rintro ⟨hne, e, he, rfl⟩; exact ⟨e, ⟨he, hne⟩, rfl⟩
  holds := by
    intro x p hp
    simp only [Ledger.complete, List.mem_filter, decide_eq_true_eq] at hp
    exact hholds x p hp.2 (h.holds x p hp.1)
  overwritten := h.overwritten

theorem puback (h : Balanced q s L) (id : Nat) :
    Balanced q { s with awaitingPuback := s.awaitingPuback.erase id }
      (if id ∈ s.awaitingPuback then L.complete id else L) := by
  split
  · rename_i hid
    have hmem := mem_keySet.2 hid
    refine h.complete (h.ids.erase_puback id) ?_ fun x p hx hp => ?_
    · have h1 := Finset.disjoint_left.1 h.ids.puback_pubrec hmem
      have h2 := Finset.disjoint_left.1 h.ids.puback_pubcomp hmem
      simp only [Session.idsInUse, keySet_erase, Finset.erase_union_distrib, Finset.erase_eq_of_notMem h1,
        Finset.erase_eq_of_notMem h2]
    · simpa [Session.Holds, lookup_erase_if, hx] using hp
  · rename_i hid
    rw [erase_of_notMem hid]
    exact h

theorem pubcomp (h : Balanced q s L) (id : Nat) :
    Balanced q { s with awaitingPubcomp := s.awaitingPubcomp.erase id }
      (if id ∈ s.awaitingPubcomp then L.complete id else L) := by
  split
  · rename_i hid
    refine h.complete (h.ids.erase_pubcomp id) ?_ fun x p hx hp => ?_
    · have h1 := Finset.disjoint_right.1 h.ids.puback_pubcomp hid
      have h2 := Finset.disjoint_right.1 h.ids.pubrec_pubcomp hid
      simp only [Session.idsInUse, Finset.erase_union_distrib, Finset.erase_eq_of_notMem h1,
        Finset.erase_eq_of_notMem h2]
    · simpa [Session.Holds, hx] using hp
  · rename_i hid
    rw [Finset.erase_eq_of_notMem hid]
    exact h

/-- An error PUBREC ends the exchange. -/
theorem refuse (h : Balanced q s L) {id : Nat} (hid : id ∈ s.awaitingPubrec) :
    Balanced q { s with awaitingPubrec := s.awaitingPubrec.erase id } (L.complete id) := by
  have hmem := mem_keySet.2 hid
  refine h.complete (h.ids.erase_pubrec id) ?_ fun x p hx hp => ?_
  · have h1 := Finset.disjoint_right.1 h.ids.puback_pubrec hmem
    have h2 := Finset.disjoint_left.1 h.ids.pubrec_pubcomp hmem
    simp only [Session.idsInUse, keySet_erase, Finset.erase_union_distrib, Finset.erase_eq_of_notMem h1,
      Finset.erase_eq_of_notMem h2]
  · simpa [Session.Holds, lookup_erase_if, hx] using hp

/-- A PUBREC moves an id on; the message stays in flight. -/
theorem release (h : Balanced q s L) {id : Nat} (hid : id ∈ s.awaitingPubrec) :
    Balanced q { s with
        awaitingPubrec := s.awaitingPubrec.erase id, awaitingPubcomp := insert id s.awaitingPubcomp } L where
  ids := h.ids.release hid
  queue := h.queue
  conserved := h.conserved
  nodup := h.nodup
  inUse := fun x => by
    have hmem := mem_keySet.2 hid
    rw [h.inUse]
    simp only [Session.idsInUse, keySet_erase, Finset.mem_union, Finset.mem_erase, Finset.mem_insert]
    by_cases hx : x = id
    · subst hx; simp [hid]
    · simp [hx]
  holds := fun x p hp => by
    by_cases hx : x = id
    · exact .inr (.inr (by simp [hx]))
    · have := h.holds x p hp
      simpa [Session.Holds, lookup_erase_if, hx] using this
  overwritten := h.overwritten

/-- A newly accepted message, before anything is done with it. -/
theorem accept {p : Pending} (h : Balanced q s L) (hp : p.qos ≠ .atMostOnce) (n : Nat) :
    Balanced (p :: q) s { L with accepted := L.accepted ++ [p], dropped := L.dropped + n } where
  ids := h.ids
  queue := List.forall_mem_cons.2 ⟨hp, h.queue⟩
  conserved := (List.perm_append_singleton _ _).trans (h.conserved.cons _)
  nodup := h.nodup
  inUse := h.inUse
  holds := h.holds
  overwritten := h.overwritten

/-- Queueing it, with the eviction of the oldest entry. -/
theorem enqueue {p : Pending} (h : Balanced s.queue s L) (hp : p.qos ≠ .atMostOnce) (maxQueued n : Nat) :
    Balanced (s.enqueue p maxQueued).1.queue (s.enqueue p maxQueued).1
      (L.deliver p (s.enqueue p maxQueued).2 n) := by
  have build : ∀ q' ev : List Pending, (p :: s.queue).Perm (q' ++ ev) → Session.IdsOk { s with queue := q' } →
      Balanced q' { s with queue := q' }
        { L with accepted := L.accepted ++ [p], discarded := L.discarded ++ ev, dropped := L.dropped + n } := by
    intro q' ev hperm hids
    refine ⟨hids, hids.queue, ?_, h.nodup, h.inUse, h.holds, h.overwritten⟩
    refine (h.accept hp n).conserved.trans ?_
    simp only [List.append_assoc]
    refine (hperm.append_right _).trans ?_
    rw [List.append_assoc]
    exact List.Perm.append_left _ (List.perm_append_comm.trans (by simp))
  have hids := h.ids.enqueue hp maxQueued
  simp only [Session.enqueue] at hids ⊢
  split at hids
  · rename_i hfull
    simp only [hfull, if_true, Ledger.deliver]
    refine build _ _ ?_ hids
    cases s.queue with
    | nil => simp
    | cons x xs =>
      simp only [List.tail_cons, List.head?_cons, Option.toList_some]
      exact (List.Perm.swap _ _ _).trans (((List.perm_append_singleton p xs).symm.cons x).trans
        (List.perm_append_singleton x _).symm)
  · rename_i hfull
    simp only [hfull, Bool.false_eq_true, if_false, Ledger.deliver]
    refine build _ [] ?_ hids
    simpa using (List.perm_append_singleton p s.queue).symm

theorem delivered {P : Protocol} {now : Nat} {m : Message} {qos : QoS} {retain : Bool} {subIds : List Nat} {maxQueued : Nat}
    {fate : Fate} (h : Balanced s.queue s L) (hq : qos ≠ .atMostOnce)
    (hd : Delivered P now s m qos retain subIds maxQueued s' fate) (n : Nat) :
    Balanced s'.queue s' (L.deliver ⟨m, qos, retain, subIds⟩ fate n) := by
  cases hd with
  | expired => exact h
  | offline => exact h
  | discarded =>
    exact (h.accept (p := ⟨m, qos, retain, subIds⟩) hq n).discard
  | pushed hq' => exact absurd hq' hq
  | launched _ _ _ hl =>
    have hb := (h.accept (p := ⟨m, qos, retain, subIds⟩) hq n).launch hl
    have hqueue : s'.queue = s.queue := by
      obtain ⟨tx, -, -, rfl⟩ := hl.sent
      unfold Session.record
      split <;> rfl
    rw [hqueue]
    exact hb
  | queued _ _ hs =>
    rcases hs with rfl | rfl
    · exact h.enqueue hq maxQueued n
    · exact h.nextId.enqueue (s := s.nextId.2) hq maxQueued n

end Balanced

/-! ## Drops are counted once -/

namespace Ledger

theorem flushed_discarded (L : Ledger) (e : Pending × FlushFate) :
    (L.flushed e).discarded.length = L.discarded.length + [e].countP (·.2 = .oversized) ∧
      (L.flushed e).dropped = L.dropped := by
  obtain ⟨p, fate⟩ := e
  cases fate <;> simp [flushed, launch]

theorem flush_discarded (n : Nat) : ∀ (fates : List (Pending × FlushFate)) (L : Ledger),
    (L.flush fates n).discarded.length = L.discarded.length + fates.countP (·.2 = .oversized) ∧
      (L.flush fates n).dropped = L.dropped + n
  | [], L => by simp [flush]
  | e :: fates, L => by
    have ih := flush_discarded n fates (L.flushed e)
    have he := flushed_discarded L e
    have hstep : L.flush (e :: fates) n = (L.flushed e).flush fates n := by
      obtain ⟨p, fate⟩ := e
      cases fate <;> rfl
    rw [hstep, ih.1, ih.2, he.1, he.2]
    simp only [List.countP_cons, List.countP_nil]
    exact ⟨by omega, trivial⟩

theorem deliver_discarded {P : Protocol} {now : Nat} {s s' : Session} {m : Message} {qos : QoS} {retain : Bool}
    {subIds : List Nat} {maxQueued : Nat} {fate : Fate} (L : Ledger) (hq : qos ≠ .atMostOnce)
    (hd : Delivered P now s m qos retain subIds maxQueued s' fate) (p : Pending) :
    (L.deliver p fate fate.dropped.toNat).discarded.length = L.discarded.length + fate.dropped.toNat ∧
      (L.deliver p fate fate.dropped.toNat).dropped = L.dropped + fate.dropped.toNat := by
  cases hd with
  | expired => simp [deliver, Fate.dropped]
  | offline => simp [deliver, Fate.dropped]
  | discarded => simp [deliver, Fate.dropped]
  | pushed hq' => exact absurd hq' hq
  | launched => simp [deliver, launch, Fate.dropped]
  | queued =>
    unfold Session.enqueue
    split
    · cases h : (Session.queue _).head? <;> simp [deliver, Fate.dropped]
    · simp [deliver, Fate.dropped]

end Ledger

/-! ## Runs -/

/-- A takeover leaves the owner as it is. -/
def SameOwner (x : Session × Ledger) : Op → Prop
  | .resume _ _ _ _ req _ => Broker.identityChanged x.1.identity req.identity = false
  | _ => True

/-- The state of an account. -/
structure Accounted (x : Session × Ledger) : Prop where
  balanced : Balanced x.1.queue x.1 x.2
  dropped : x.2.discarded.length = x.2.dropped

theorem account_start {s : Session} (h : s.Blank) : Accounted (s, {}) where
  balanced := {
    ids := h.idsOk
    queue := by simp [h.queue]
    conserved := by simp [h.queue]
    nodup := by simp
    inUse := by simp [Session.idsInUse, h.puback, h.pubrec, h.pubcomp]
    holds := by simp
    overwritten := rfl }
  dropped := rfl

theorem Accounted.flush {s : Session} {L : Ledger} (P : Protocol) (now : Nat) (hb : Balanced s.queue s L)
    (hd : L.discarded.length = L.dropped) :
    Accounted ((flushQueue P now s).1, L.flush (flushFates P now s) (flushQueue P now s).2) := by
  refine ⟨hb.flush P now _, ?_⟩
  obtain ⟨h1, h2⟩ := Ledger.flush_discarded (flushQueue P now s).2 (flushFates P now s) L
  simp only [h1, h2, hd]
  rfl

theorem Accounted.deliver (P : Protocol) {s : Session} {L : Ledger} (h : Accounted (s, L)) (now : Nat) (m : Message)
    (qos : QoS) (retain : Bool) (subIds : List Nat) (maxQueued : Nat) :
    Accounted (account P (s, L) (.deliver now m qos retain subIds maxQueued)).1 := by
  obtain ⟨hb, hd⟩ := h
  simp only at hb hd
  have hdel := deliver_delivered P now s m qos retain subIds maxQueued
  simp only [account, Session.apply, Ledger.step]
  by_cases hq : qos = .atMostOnce
  · rw [if_pos hq]
    refine ⟨?_, hd⟩
    unfold deliverToSession
    generalize (WispMQ.deliver P now s m qos retain subIds maxQueued).1 = s',
      (WispMQ.deliver P now s m qos retain subIds maxQueued).2 = fate at hdel
    cases hdel with
    | expired => exact hb
    | offline => exact hb
    | discarded => exact hb
    | pushed _ hs =>
      obtain ⟨tx, -, -, rfl⟩ := Session.trySend_some hs
      exact hb.congr ⟨rfl, rfl, rfl, rfl, rfl⟩
    | launched _ hq' => exact absurd hq hq'
    | queued _ hq' => exact absurd hq hq'
  · rw [if_neg hq]
    refine ⟨hb.delivered hq hdel _, ?_⟩
    obtain ⟨h1, h2⟩ := Ledger.deliver_discarded L hq hdel ⟨m, qos, retain, subIds⟩
    simp only [deliverToSession, h1, h2, hd]

/-- A PUBREC ends the exchange, or moves it on to its second half, or is about none. -/
theorem Accounted.pubrec (P : Protocol) {s : Session} {L : Ledger} (h : Accounted (s, L)) (ack : PubAck) :
    Accounted (account P (s, L) (.pubrec ack)).1 := by
  obtain ⟨hb, hd⟩ := h
  simp only at hb hd
  simp only [account, Session.apply, Ledger.step, Session.pubrec]
  by_cases hk : ack.packetId ∈ s.awaitingPubrec
  · by_cases he : ack.reasonCode.isError
    · simp only [hk, he, decide_true, Bool.and_self, if_true]
      exact ⟨hb.refuse hk, hd⟩
    · have hn : ack.packetId ∉ s.awaitingPubcomp :=
        Finset.disjoint_left.1 hb.ids.pubrec_pubcomp (mem_keySet.2 hk)
      simp only [hk, he, hn, decide_true, Bool.true_and, if_true, Bool.false_eq_true, if_false, Nat.add_zero]
      have hrel := (hb.release hk).congr (Session.push_sameOutbound _
        (.control (.pubrel ⟨ack.packetId, .success⟩)))
      refine ⟨?_, hd⟩
      have hqueue := (Session.push_sameOutbound { s with
        awaitingPubrec := s.awaitingPubrec.erase ack.packetId
        awaitingPubcomp := insert ack.packetId s.awaitingPubcomp }
        (.control (.pubrel ⟨ack.packetId, .success⟩))).queue
      rw [hqueue]
      exact hrel
  · simp only [hk, decide_false, Bool.false_and, Bool.false_eq_true, if_false, erase_of_notMem hk]
    split
    · exact ⟨hb, hd⟩
    · have e := Session.push_sameOutbound s (.control (.pubrel ⟨ack.packetId, .packetIdentifierNotFound⟩))
      exact ⟨by rw [e.queue]; exact hb.congr e, hd⟩

/-- Every operation keeps the account, a takeover by another identity apart. -/
theorem account_accounted (P : Protocol) (x : Session × Ledger) (o : Op) (h : Accounted x) (ho : SameOwner x o) :
    Accounted (account P x o).1 := by
  obtain ⟨s, L⟩ := x
  obtain ⟨hb, hd⟩ := id h
  simp only at hb hd
  have hcomplete : ∀ (c : Prop) [Decidable c] (id : Nat), (if c then L.complete id else L).discarded.length =
      (if c then L.complete id else L).dropped := by
    intro c _ id
    split <;> exact hd
  by_cases hi : o.isInert
  · have e := Session.apply_inert P s hi
    simp only [account, Ledger.step_inert P s L hi]
    exact ⟨by rw [e.queue]; exact hb.congr e, hd⟩
  cases o with
  | deliver now m qos retain subIds maxQueued => exact h.deliver P now m qos retain subIds maxQueued
  | puback now id => exact .flush P now (hb.puback id) (hcomplete _ id)
  | pubcomp now id => exact .flush P now (hb.pubcomp id) (hcomplete _ id)
  | pubrec ack => exact h.pubrec P ack
  | resume now ord cfg acl req epoch =>
    have e := Session.resumeBound_outbound P now cfg acl req epoch s
    rw [show Broker.identityChanged s.identity req.identity = false from ho] at e
    have e' := e.trans (Session.retransmit_sameOutbound ord _)
    have hon : (s.resumeBound P now cfg acl req epoch).isOnline := by
      simp [Session.isOnline, Session.resumeBound_out]
    simp only [account, Session.apply, resumeDelivery, hon, if_true, Ledger.step]
    exact .flush P now (by rw [e'.queue]; exact hb.congr e') hd
  | _ => simp [Op.isInert] at hi

/-- The messages in flight under the given ids. -/
def Ledger.inFlight (L : Ledger) (ids : Finset Nat) : List Pending := (L.flight.filter (·.1 ∈ ids)).map (·.2)

/-- Each accepted message is in exactly one place, as often as it was accepted. -/
structure InOnePlace (s : Session) (L : Ledger) : Prop where
  conserved : L.accepted.Perm (s.queue ++ L.inFlight (keySet s.awaitingPuback) ++
    L.inFlight (keySet s.awaitingPubrec) ++ L.inFlight s.awaitingPubcomp ++ L.completed ++ L.expired ++ L.discarded)
  /-- One message per id, and one id in use per message. -/
  nodup : (L.flight.map (·.1)).Nodup
  inUse : ∀ id, id ∈ L.flight.map (·.1) ↔ s.idInUse id
  /-- What a map holds under an id is the message in flight under it. -/
  puback : ∀ id pub, s.awaitingPuback.lookup id = some pub → ∃ p now, (id, p) ∈ L.flight ∧ pub = p.render now id
  pubrec : ∀ id pub, s.awaitingPubrec.lookup id = some pub → ∃ p now, (id, p) ∈ L.flight ∧ pub = p.render now id
  /-- One increment of `publish_dropped` per discarded message. -/
  dropped : L.discarded.length = L.dropped
  overwritten : L.overwritten = 0

theorem Balanced.flight_split {q : List Pending} {s : Session} {L : Ledger} (h : Balanced q s L) :
    (L.flight.map (·.2)).Perm (L.inFlight (keySet s.awaitingPuback) ++
      (L.inFlight (keySet s.awaitingPubrec) ++ L.inFlight s.awaitingPubcomp)) := by
  have hmem : ∀ e ∈ L.flight, e.1 ∈ keySet s.awaitingPuback ∨ e.1 ∈ keySet s.awaitingPubrec ∨
      e.1 ∈ s.awaitingPubcomp := by
    intro e he
    have := (h.inUse e.1).1 (List.mem_map_of_mem he)
    simpa only [Session.idsInUse, Finset.mem_union, or_assoc] using this
  have h12 := Finset.disjoint_left.1 h.ids.puback_pubrec
  have h13 := Finset.disjoint_left.1 h.ids.puback_pubcomp
  have h23 := Finset.disjoint_left.1 h.ids.pubrec_pubcomp
  simp only [Ledger.inFlight, ← List.map_append]
  refine List.Perm.map _ ?_
  refine (List.filter_append_perm (fun e => decide (e.1 ∈ keySet s.awaitingPuback)) L.flight).symm.trans ?_
  refine List.Perm.append_left _ ?_
  refine (List.filter_append_perm (fun e => decide (e.1 ∈ keySet s.awaitingPubrec)) _).symm.trans ?_
  simp only [List.filter_filter]
  refine List.Perm.of_eq (congrArg₂ _ (List.filter_congr fun e he => ?_) (List.filter_congr fun e he => ?_))
  · by_cases h2 : e.1 ∈ keySet s.awaitingPubrec
    · have h1 : e.1 ∉ keySet s.awaitingPuback := fun h1 => h12 h1 h2
      simp only [h1, h2, decide_true, decide_false, Bool.not_false, Bool.and_true]
    · simp only [h2, decide_false, Bool.false_and]
  · rcases hmem e he with h1 | h2 | h3
    · simp only [h1, h13 h1, decide_true, decide_false, Bool.not_true, Bool.and_false]
    · simp only [h2, h23 h2, decide_true, decide_false, Bool.not_true, Bool.false_and]
    · have h1 : e.1 ∉ keySet s.awaitingPuback := fun h1 => h13 h1 h3
      have h2 : e.1 ∉ keySet s.awaitingPubrec := fun h2 => h23 h2 h3
      simp only [h1, h2, h3, decide_true, decide_false, Bool.not_false, Bool.and_true]

theorem Accounted.inOnePlace {s : Session} {L : Ledger} (h : Accounted (s, L)) : InOnePlace s L := by
  obtain ⟨hb, hd⟩ := h
  have held : ∀ {id : Nat}, id ∈ s.idsInUse → ∃ p, (id, p) ∈ L.flight ∧ s.Holds id p := by
    intro id hid
    obtain ⟨⟨x, p⟩, hp, rfl⟩ := List.mem_map.1 ((hb.inUse id).2 hid)
    exact ⟨p, hp, hb.holds x p hp⟩
  refine ⟨?_, hb.nodup, fun id => by rw [hb.inUse, Session.idInUse_iff], ?_, ?_, hd, hb.overwritten⟩
  · refine hb.conserved.trans ?_
    simp only [List.append_assoc]
    refine List.Perm.append_left _ ((hb.flight_split.append_right _).trans ?_)
    simp
  · intro id pub hpub
    have hid : id ∈ keySet s.awaitingPuback := mem_keySet.2 (mem_iff_lookup.2 ⟨pub, hpub⟩)
    obtain ⟨p, hp, ⟨now, h1⟩ | ⟨now, h2⟩ | h3⟩ := held (Finset.mem_union_left _ (Finset.mem_union_left _ hid))
    · exact ⟨p, now, hp, Option.some.inj (hpub.symm.trans h1)⟩
    · exact absurd (mem_keySet.2 (mem_iff_lookup.2 ⟨_, h2⟩)) (Finset.disjoint_left.1 hb.ids.puback_pubrec hid)
    · exact absurd h3 (Finset.disjoint_left.1 hb.ids.puback_pubcomp hid)
  · intro id pub hpub
    have hid : id ∈ keySet s.awaitingPubrec := mem_keySet.2 (mem_iff_lookup.2 ⟨pub, hpub⟩)
    obtain ⟨p, hp, ⟨now, h1⟩ | ⟨now, h2⟩ | h3⟩ := held (Finset.mem_union_left _ (Finset.mem_union_right _ hid))
    · exact absurd (mem_keySet.2 (mem_iff_lookup.2 ⟨_, h1⟩)) (Finset.disjoint_right.1 hb.ids.puback_pubrec hid)
    · exact ⟨p, now, hp, Option.some.inj (hpub.symm.trans h2)⟩
    · exact absurd h3 (Finset.disjoint_left.1 hb.ids.pubrec_pubcomp hid)

/-- **No loss and no duplication**: after any run of a session's operations, with its owner unchanged, the
QoS 1 and 2 messages it accepted are exactly those in its queue, those in flight by their ids, the completed,
the expired and the discarded ones; every discard was counted once, and nothing outstanding was ever
overwritten. -/
theorem run_inOnePlace (P : Protocol) (s₀ : Session) (h₀ : s₀.Blank) (ops : List Op)
    (hown : Machine.Along (account P) SameOwner (s₀, {}) ops) :
    InOnePlace (Machine.run (account P) (s₀, {}) ops).1.1 (Machine.run (account P) (s₀, {}) ops).1.2 :=
  Accounted.inOnePlace (Machine.run_state_invariant (account P) Accounted (account_accounted P)
    (account_start h₀) ops hown)

/-- A message evicted from a queue of one, one sent on resume and acknowledged, one left in flight. -/
def evictSendAck : List Op :=
  let m (b : UInt8) : Message := { topic := "t", payload := [b], qos := .atLeastOnce, retain := false }
  [.deliver 0 (m 1) .atLeastOnce false [] 1, .deliver 0 (m 2) .atLeastOnce false [] 1,
    .resume 0 {} {} .permitAll ⟨{ clientId := "c", cleanStart := false }, .v5, none, "c", false, {}⟩ 1,
    .deliver 0 (m 3) .exactlyOnce false [] 1, .puback 0 1]

theorem run_inOnePlace_evictSendAck :
    InOnePlace (Machine.run (account .reference) (Session.new "c" 60, {}) evictSendAck).1.1
      (Machine.run (account .reference) (Session.new "c" 60, {}) evictSendAck).1.2 :=
  run_inOnePlace .reference (Session.new "c" 60) ⟨rfl, rfl, rfl, rfl, by decide⟩ evictSendAck
    ⟨trivial, trivial, rfl, trivial, trivial, trivial⟩

end WispMQ
