import WispMQ.Outbound
/-!
# Outbound packet identifiers

`IdsOk` is the invariant of a session's in-flight state: no id is outstanding twice, every stored PUBLISH
carries the id it is stored under, and the queue holds what can be acknowledged. Every operation keeps it
(`apply_idsOk`), so it holds of every session in every reachable state.
-/

namespace WispMQ
open KeyMap

namespace Session

/-- The packet ids in use. -/
def idsInUse (s : Session) : Finset Nat :=
  keySet s.awaitingPuback ∪ keySet s.awaitingPubrec ∪ s.awaitingPubcomp

theorem idInUse_iff (s : Session) (id : Nat) : s.idInUse id ↔ id ∈ s.idsInUse := by
  simp [idInUse, idsInUse, or_assoc]

theorem Launched.idsInUse {now : Nat} {s s' : Session} {p : Pending} {id : Nat} (h : Launched now s p id s')
    (hq : p.qos ≠ .atMostOnce) : s'.idsInUse = insert id s.idsInUse := by
  obtain ⟨tx, -, -, rfl⟩ := h.sent
  cases hqos : p.qos with
  | atMostOnce => exact absurd hqos hq
  | atLeastOnce => simp only [record, Session.idsInUse, nextId, keySet_insert, Finset.insert_union]
  | exactlyOnce =>
    simp only [record, Session.idsInUse, nextId, keySet_insert, Finset.insert_union, Finset.union_insert]

structure IdsOk (s : Session) : Prop where
  puback_pubrec : Disjoint (keySet s.awaitingPuback) (keySet s.awaitingPubrec)
  puback_pubcomp : Disjoint (keySet s.awaitingPuback) s.awaitingPubcomp
  pubrec_pubcomp : Disjoint (keySet s.awaitingPubrec) s.awaitingPubcomp
  range : ∀ id ∈ s.idsInUse, 1 ≤ id ∧ id ≤ 65535
  puback_entry : ∀ id p, s.awaitingPuback.lookup id = some p → p.qos = .atLeastOnce ∧ p.packetId = some id
  pubrec_entry : ∀ id p, s.awaitingPubrec.lookup id = some p → p.qos = .exactlyOnce ∧ p.packetId = some id
  next : 1 ≤ s.nextPacketId ∧ s.nextPacketId ≤ 65535
  queue : ∀ p ∈ s.queue, p.qos ≠ .atMostOnce

namespace IdsOk
variable {s s' : Session}

theorem congr (h : IdsOk s) (e : SameOutbound s s') : IdsOk s' where
  puback_pubrec := by rw [e.puback, e.pubrec]; exact h.puback_pubrec
  puback_pubcomp := by rw [e.puback, e.pubcomp]; exact h.puback_pubcomp
  pubrec_pubcomp := by rw [e.pubrec, e.pubcomp]; exact h.pubrec_pubcomp
  range := by rw [idsInUse, e.puback, e.pubrec, e.pubcomp]; exact h.range
  puback_entry := by rw [e.puback]; exact h.puback_entry
  pubrec_entry := by rw [e.pubrec]; exact h.pubrec_entry
  next := by rw [e.next]; exact h.next
  queue := by rw [e.queue]; exact h.queue

theorem new (cid : String) (secs : Nat) : IdsOk (Session.new cid secs) where
  puback_pubrec := by simp [Session.new]
  puback_pubcomp := by simp [Session.new]
  pubrec_pubcomp := by simp [Session.new]
  range := by simp [Session.new, idsInUse]
  puback_entry := by simp [Session.new]
  pubrec_entry := by simp [Session.new]
  next := by simp [Session.new]
  queue := by simp [Session.new]

theorem setQueue (h : IdsOk s) {q : List Pending} (hq : ∀ p ∈ q, p.qos ≠ .atMostOnce) :
    IdsOk { s with queue := q } :=
  ⟨h.1, h.2, h.3, h.4, h.5, h.6, h.7, hq⟩

theorem nextId (h : IdsOk s) : IdsOk s.nextId.2 := ⟨h.1, h.2, h.3, h.4, h.5, h.6, nextId_range h.7, h.8⟩

/-- Fewer outstanding ids. -/
theorem shrink (h : IdsOk s) {ap ar : KeyMap Nat Publish} {ac : Finset Nat}
    (hp : ∀ id p, ap.lookup id = some p → s.awaitingPuback.lookup id = some p)
    (hr : ∀ id p, ar.lookup id = some p → s.awaitingPubrec.lookup id = some p) (hc : ac ⊆ s.awaitingPubcomp) :
    IdsOk { s with awaitingPuback := ap, awaitingPubrec := ar, awaitingPubcomp := ac } := by
  have keys : ∀ {m m' : KeyMap Nat Publish}, (∀ id p, m.lookup id = some p → m'.lookup id = some p) →
      keySet m ⊆ keySet m' := by
    intro m m' h id hid
    rw [mem_keySet, mem_iff_lookup] at hid ⊢
    exact hid.imp fun p => h id p
  exact {
    puback_pubrec := h.puback_pubrec.mono (keys hp) (keys hr)
    puback_pubcomp := h.puback_pubcomp.mono (keys hp) hc
    pubrec_pubcomp := h.pubrec_pubcomp.mono (keys hr) hc
    range := fun id hid => h.range id
      (Finset.union_subset_union (Finset.union_subset_union (keys hp) (keys hr)) hc hid)
    puback_entry := fun id p e => h.puback_entry id p (hp id p e)
    pubrec_entry := fun id p e => h.pubrec_entry id p (hr id p e)
    next := h.next
    queue := h.queue }

theorem lookup_of_erase {m : KeyMap Nat Publish} {k id : Nat} {p : Publish} (h : (m.erase k).lookup id = some p) :
    m.lookup id = some p := by
  rw [lookup_erase_if] at h
  split at h
  · cases h
  · exact h

theorem erase_puback (h : IdsOk s) (id : Nat) : IdsOk { s with awaitingPuback := s.awaitingPuback.erase id } :=
  h.shrink (fun _ _ => lookup_of_erase) (fun _ _ e => e) Finset.Subset.rfl

theorem erase_pubrec (h : IdsOk s) (id : Nat) : IdsOk { s with awaitingPubrec := s.awaitingPubrec.erase id } :=
  h.shrink (fun _ _ e => e) (fun _ _ => lookup_of_erase) Finset.Subset.rfl

theorem erase_pubcomp (h : IdsOk s) (id : Nat) :
    IdsOk { s with awaitingPubcomp := s.awaitingPubcomp.erase id } :=
  h.shrink (fun _ _ e => e) (fun _ _ e => e) (Finset.erase_subset _ _)

theorem clearOwned (h : IdsOk s) : IdsOk s.clearOwned := by
  have h1 : IdsOk { s with awaitingPuback := ∅, awaitingPubrec := ∅, awaitingPubcomp := ∅ } :=
    h.shrink (by simp) (by simp) (Finset.empty_subset _)
  have h2 := h1.setQueue (q := []) (by simp)
  exact h2.congr ⟨rfl, rfl, rfl, rfl, rfl⟩

/-- PUBREC moves an id from `awaiting_pubrec` to `awaiting_pubcomp`. -/
theorem release (h : IdsOk s) {id : Nat} (hid : id ∈ s.awaitingPubrec) :
    IdsOk { s with
      awaitingPubrec := s.awaitingPubrec.erase id, awaitingPubcomp := insert id s.awaitingPubcomp } := by
  have h' := h.erase_pubrec id
  have hmem : id ∈ keySet s.awaitingPubrec := mem_keySet.2 hid
  exact {
    puback_pubrec := h'.puback_pubrec
    puback_pubcomp := Finset.disjoint_insert_right.2
      ⟨Finset.disjoint_right.1 h.puback_pubrec hmem, h.puback_pubcomp⟩
    pubrec_pubcomp := Finset.disjoint_insert_right.2 ⟨by simp, h'.pubrec_pubcomp⟩
    range := by
      intro x hx
      simp only [idsInUse, keySet_erase, Finset.mem_union, Finset.mem_insert, Finset.mem_erase] at hx
      refine h.range x ?_
      simp only [idsInUse, Finset.mem_union]
      rcases hx with (hx | hx) | rfl | hx
      · exact .inl (.inl hx)
      · exact .inl (.inr hx.2)
      · exact .inl (.inr hmem)
      · exact .inr hx
    puback_entry := h'.puback_entry
    pubrec_entry := h'.pubrec_entry
    next := h'.next
    queue := h'.queue }

theorem insert_puback (h : IdsOk s) {id : Nat} {p : Publish} (hid : id ∉ s.idsInUse) (hr : 1 ≤ id ∧ id ≤ 65535)
    (hq : p.qos = .atLeastOnce) (hp : p.packetId = some id) :
    IdsOk { s with awaitingPuback := s.awaitingPuback.insert id p } := by
  simp only [idsInUse, Finset.mem_union, not_or] at hid
  exact {
    puback_pubrec := by rw [keySet_insert]; exact Finset.disjoint_insert_left.2 ⟨hid.1.2, h.puback_pubrec⟩
    puback_pubcomp := by rw [keySet_insert]; exact Finset.disjoint_insert_left.2 ⟨hid.2, h.puback_pubcomp⟩
    pubrec_pubcomp := h.pubrec_pubcomp
    range := by
      intro x hx
      simp only [idsInUse, keySet_insert, Finset.insert_union, Finset.mem_insert] at hx
      rcases hx with rfl | hx
      · exact hr
      · exact h.range x hx
    puback_entry := by
      intro x q hx
      rw [lookup_insert_if] at hx
      split at hx
      · rename_i e; cases hx; exact ⟨hq, e ▸ hp⟩
      · exact h.puback_entry x q hx
    pubrec_entry := h.pubrec_entry
    next := h.next
    queue := h.queue }

theorem insert_pubrec (h : IdsOk s) {id : Nat} {p : Publish} (hid : id ∉ s.idsInUse) (hr : 1 ≤ id ∧ id ≤ 65535)
    (hq : p.qos = .exactlyOnce) (hp : p.packetId = some id) :
    IdsOk { s with awaitingPubrec := s.awaitingPubrec.insert id p } := by
  simp only [idsInUse, Finset.mem_union, not_or] at hid
  exact {
    puback_pubrec := by rw [keySet_insert]; exact Finset.disjoint_insert_right.2 ⟨hid.1.1, h.puback_pubrec⟩
    puback_pubcomp := h.puback_pubcomp
    pubrec_pubcomp := by rw [keySet_insert]; exact Finset.disjoint_insert_left.2 ⟨hid.2, h.pubrec_pubcomp⟩
    range := by
      intro x hx
      simp only [idsInUse, keySet_insert, Finset.union_insert, Finset.insert_union, Finset.mem_insert] at hx
      rcases hx with rfl | hx
      · exact hr
      · exact h.range x hx
    puback_entry := h.puback_entry
    pubrec_entry := by
      intro x q hx
      rw [lookup_insert_if] at hx
      split at hx
      · rename_i e; cases hx; exact ⟨hq, e ▸ hp⟩
      · exact h.pubrec_entry x q hx
    next := h.next
    queue := h.queue }

/-- A new id is not in use, so recording it keeps the maps disjoint. -/
theorem launched {now id : Nat} {p : Pending} (h : IdsOk s) (hq : p.qos ≠ .atMostOnce)
    (hl : Launched now s p id s') : IdsOk s' := by
  obtain ⟨tx, -, -, rfl⟩ := hl.sent
  obtain ⟨hu, hr⟩ := nextId_fresh h.next hl.fresh
  have hid : id ∉ s.idsInUse := by rw [← idInUse_iff, hu]; simp
  have h' : IdsOk { s.nextId.2 with out := some { tx with sent := tx.sent ++ [.send (p.render now id)] } } :=
    h.nextId.congr ⟨rfl, rfl, rfl, rfl, rfl⟩
  have hpid : (p.render now id).packetId = some id := by simp [Pending.render, Message.toPublish, hq]
  cases hqos : p.qos with
  | atMostOnce => exact absurd hqos hq
  | atLeastOnce => exact h'.insert_puback hid hr hqos hpid
  | exactlyOnce => exact h'.insert_pubrec hid hr hqos hpid

/-! ## The operations keep it -/

theorem flushQueue (P : Protocol) (now : Nat) (h : IdsOk s) : IdsOk (flushQueue P now s).1 := by
  obtain ⟨q, s', he, hs', hq⟩ := flushLoop_rule P now
    (fun q s _ => IdsOk s ∧ ∀ p ∈ q, p.qos ≠ .atMostOnce)
    (fun _ _ _ h => ⟨h.1.nextId, h.2⟩)
    (fun _ _ _ _ _ h => ⟨h.1, (List.forall_mem_cons.1 h.2).2⟩)
    (fun _ _ _ _ _ h => ⟨h.1, (List.forall_mem_cons.1 h.2).2⟩)
    (fun _ _ _ _ _ _ _ hl h => ⟨h.1.launched (List.forall_mem_cons.1 h.2).1 hl, (List.forall_mem_cons.1 h.2).2⟩)
    s.queue s [] ⟨h, h.queue⟩
  rw [WispMQ.flushQueue, he]
  exact hs'.setQueue hq

theorem enqueue (h : IdsOk s) {p : Pending} (hp : p.qos ≠ .atMostOnce) (maxQueued : Nat) :
    IdsOk (s.enqueue p maxQueued).1 := by
  unfold Session.enqueue
  split
  · refine h.setQueue fun x hx => ?_
    rcases List.mem_append.1 hx with hx | hx
    · exact h.queue x (List.mem_of_mem_tail hx)
    · exact List.mem_singleton.1 hx ▸ hp
  · refine h.setQueue fun x hx => ?_
    rcases List.mem_append.1 hx with hx | hx
    · exact h.queue x hx
    · exact List.mem_singleton.1 hx ▸ hp

theorem delivered {P : Protocol} {now : Nat} {m : Message} {qos : QoS} {retain : Bool} {subIds : List Nat} {maxQueued : Nat}
    {fate : Fate} (h : IdsOk s) (hd : Delivered P now s m qos retain subIds maxQueued s' fate) : IdsOk s' := by
  cases hd with
  | expired => exact h
  | offline => exact h
  | discarded => exact h
  | pushed hq hs =>
    obtain ⟨tx, -, -, rfl⟩ := trySend_some hs
    exact h.congr ⟨rfl, rfl, rfl, rfl, rfl⟩
  | launched _ hq _ hl => exact h.launched hq hl
  | queued _ hq hs =>
    rcases hs with rfl | rfl
    · exact h.enqueue hq maxQueued
    · exact h.nextId.enqueue hq maxQueued

theorem pubrec (h : IdsOk s) (ack : PubAck) : IdsOk (s.pubrec ack) := by
  have h' := h.erase_pubrec ack.packetId
  simp only [Session.pubrec]
  split
  · exact h'
  · split
    · rename_i hk
      exact (h.release (of_decide_eq_true hk)).congr (push_sameOutbound _ _)
    · split
      · exact h'
      · exact h'.congr (push_sameOutbound _ _)

theorem resumeBound (P : Protocol) (now : Nat) (cfg : Config) (acl : Acl) (req : ConnectRequest) (epoch : Nat)
    (h : IdsOk s) : IdsOk (s.resumeBound P now cfg acl req epoch) := by
  refine congr ?_ (resumeBound_outbound P now cfg acl req epoch s)
  split
  · exact h.clearOwned
  · exact h

theorem resumeDelivery (P : Protocol) (now : Nat) (ord : Orders) (h : IdsOk s) :
    IdsOk (resumeDelivery P now ord s).1 := by
  unfold WispMQ.resumeDelivery
  split
  · exact flushQueue P now (h.congr (retransmit_sameOutbound ord s))
  · exact h

end IdsOk

/-- Every operation keeps the invariant. -/
theorem apply_idsOk (P : Protocol) {s : Session} (h : IdsOk s) (o : Op) : IdsOk (s.apply P o).1 := by
  by_cases hi : o.isInert
  · exact h.congr (apply_inert P s hi)
  · cases o with
    | deliver now m qos retain subIds maxQueued =>
      exact h.delivered (deliver_delivered P now s m qos retain subIds maxQueued)
    | puback now id => exact (h.erase_puback id).flushQueue P now
    | pubrec ack => exact h.pubrec ack
    | pubcomp now id => exact (h.erase_pubcomp id).flushQueue P now
    | resume now ord cfg acl req epoch =>
      exact (h.resumeBound P now cfg acl req epoch).resumeDelivery P now ord
    | _ => simp [Op.isInert] at hi

theorem inflightCount_eq_card {s : Session} (h : IdsOk s) : s.inflightCount = s.idsInUse.card := by
  rw [inflightCount, idsInUse, Finset.card_union_of_disjoint, Finset.card_union_of_disjoint h.puback_pubrec,
    card_keySet, card_keySet]
  exact Finset.disjoint_union_left.2 ⟨h.puback_pubcomp, h.pubrec_pubcomp⟩

theorem card_idsInUse_le {s : Session} (h : IdsOk s) : s.idsInUse.card ≤ 65535 := by
  have hsub : s.idsInUse ⊆ Finset.Icc 1 65535 := fun id hid => Finset.mem_Icc.2 (h.range id hid)
  simpa using Finset.card_le_card hsub

end Session

/-! ## Every reachable state -/

/-- The invariant of all sessions. -/
def Fleet.IdsOk (f : Fleet) : Prop := ∀ cid s, f.session cid = some s → s.IdsOk

theorem Fleet.IdsOk.change {P : Protocol} {w : World} {l : Label} {f : Fleet} (h : w.broker.fleet.IdsOk)
    (hc : World.PacedChange P w l f) : f.IdsOk :=
  hc.forall_sessions (fun _ o _ hs => Session.apply_idsOk P hs o) (fun _ _ _ hs => Session.apply_idsOk P hs _)
    (fun _ _ => (Session.IdsOk.new "" 0).congr ⟨rfl, rfl, rfl, rfl, rfl⟩)
    (fun _ => (Session.IdsOk.new "" 0).congr ⟨rfl, rfl, rfl, rfl, rfl⟩) h

namespace World
variable (P : Protocol)

theorem boot_idsOk (now : Nat) (cfg : Config) (db : Db) (acl : Acl) (auth : Option Credentials) :
    (boot P now cfg db acl auth).broker.fleet.IdsOk := by
  intro cid s hs
  rw [Broker.fleet_session, boot_lookup] at hs
  split at hs
  · cases hs
  · obtain ⟨row, -, rfl⟩ := Option.map_eq_some_iff.1 hs
    exact (Session.IdsOk.new "" 0).congr ⟨rfl, rfl, rfl, rfl, rfl⟩

theorem run_idsOk {w : World} (h : w.broker.fleet.IdsOk) (ls : List Label) :
    (run P w ls).1.broker.fleet.IdsOk :=
  Machine.run_preserves (step P) (fun w => w.broker.fleet.IdsOk) (fun w l h => h.change (step_pacedChange P w l)) h ls

/-- **Outbound packet identifiers**: in every state a booted broker reaches, the three in-flight sets of
every session are disjoint and within 1..65535, every stored PUBLISH has the QoS of its map and the id of
its key, the counter is in range, and the queue holds only QoS 1 and 2. So the in-flight count is the
number of distinct ids in use, and at most 65535. -/
theorem reachable_packetIds (now : Nat) (cfg : Config) (db : Db) (acl : Acl) (auth : Option Credentials)
    (ls : List Label) (cid : String) (s : Session)
    (hs : (run P (boot P now cfg db acl auth) ls).1.broker.sessions.lookup cid = some s) :
    s.IdsOk ∧ s.inflightCount = s.idsInUse.card ∧ s.inflightCount ≤ 65535 := by
  have h : s.IdsOk := run_idsOk P (boot_idsOk P now cfg db acl auth) ls cid s hs
  refine ⟨h, Session.inflightCount_eq_card h, ?_⟩
  rw [Session.inflightCount_eq_card h]
  exact Session.card_idsInUse_le h

/-- One client subscribes with QoS 1 and another publishes to it. -/
def oneInFlight : List Label :=
  connecting { clientId := "sub", cleanStart := true } ++
  sending "sub" 1 (.subscribe ⟨1, [{ filter := "t", qos := .atLeastOnce }], []⟩) ++
  connecting { clientId := "pub", cleanStart := true } ++
  sending "pub" 2 (.publish ⟨false, .atLeastOnce, false, "t", some 7, {}, [1]⟩)

theorem reachable_packetIds_oneInFlight :
    ∃ s, (run .reference (boot .reference 0 {} {} .permitAll none) oneInFlight).1.broker.sessions.lookup "sub" = some s ∧
      s.inflightCount = 1 ∧ s.IdsOk ∧ s.inflightCount = s.idsInUse.card ∧ s.inflightCount ≤ 65535 := by
  have h : ((run .reference (boot .reference 0 {} {} .permitAll none) oneInFlight).1.broker.sessions.lookup "sub").map
      (·.inflightCount) = some 1 := by decide
  obtain ⟨s, hs, h1⟩ := Option.map_eq_some_iff.1 h
  exact ⟨s, hs, h1, reachable_packetIds .reference 0 {} {} .permitAll none oneInFlight "sub" s hs⟩

end World

end WispMQ
