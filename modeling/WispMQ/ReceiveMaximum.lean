import WispMQ.PacketIds
import WispMQ.Epochs
import WispMQ.Effects
/-!
# Receive Maximum

An observer of one connection keeps the ids of the QoS 1 and 2 PUBLISH packets pushed into its channel whose
exchange has not ended (`unacked`). A fresh send needs an open window, so it keeps the observer's set within
the client's Receive Maximum; the retransmissions of a resume do not look at the window. `ResumeFits` is
the condition under which they stay within it, and the bound holds in every run whose CONNECTs meet it.
-/

namespace WispMQ
open KeyMap

/-- The packet id of a QoS 1 or 2 PUBLISH. -/
def Outgoing.publishId : Outgoing → Option Nat
  | .send p => if p.qos = .atMostOnce then none else p.packetId
  | _ => none

/-- The packet ids of the QoS 1 and 2 PUBLISH packets among the items. -/
def publishIds (items : List Outgoing) : Finset Nat := (items.filterMap Outgoing.publishId).toFinset

@[simp] theorem publishIds_nil : publishIds [] = ∅ := rfl

@[simp] theorem publishIds_append (is js : List Outgoing) : publishIds (is ++ js) = publishIds is ∪ publishIds js := by
  simp [publishIds]

theorem publishIds_singleton (i : Outgoing) : publishIds [i] = i.publishId.elim ∅ ({·}) := by
  cases h : i.publishId <;> simp [publishIds, h]

/-! ## The observer -/

/-- The id whose exchange an acknowledgement ends: it is the one the session waits for. -/
def Session.completes (s : Session) : Packet → Finset Nat
  | .puback a => if a.packetId ∈ s.awaitingPuback then {a.packetId} else ∅
  | .pubrec a => if a.packetId ∈ s.awaitingPubrec ∧ a.reasonCode.isError then {a.packetId} else ∅
  | .pubcomp a => if a.packetId ∈ s.awaitingPubcomp then {a.packetId} else ∅
  | _ => ∅

namespace World
variable (P : Protocol)

/-- The channel of a connection, while the broker holds its sender. -/
def channel (w : World) (cid : String) (epoch : Nat) : Option OutTx :=
  (w.broker.sessions.lookup cid).bind fun s => if s.epoch = epoch then s.out else none

/-- The channel a step let go of. -/
def detachedIn (cid : String) (epoch : Nat) (es : List Effect) : Option OutTx :=
  es.findSome? fun
    | .detached c e tx => if c = cid ∧ e = epoch then some tx else none
    | _ => none

/-- What a step pushed into the connection's channel. -/
def pushed (w : World) (l : Label) (cid : String) (epoch : Nat) : List Outgoing :=
  match ((step P w l).1.channel cid epoch).or (detachedIn cid epoch (step P w l).2) with
  | some tx => tx.sent.drop ((w.channel cid epoch).elim 0 (·.sent.length))
  | none => []

/-- The ids whose exchange a step ended on the connection's behalf. -/
def acked (w : World) (l : Label) (cid : String) (epoch : Nat) : Finset Nat :=
  match w.selected l.input, w.broker.sessions.lookup cid with
  | some (.dispatch c e packet), some s =>
    if c = cid ∧ e = epoch ∧ s.epoch = epoch then s.completes packet else ∅
  | _, _ => ∅

/-- The observer over a run: ids pushed and not yet acknowledged. -/
def unacked (cid : String) (epoch : Nat) : World → List Label → Finset Nat → Finset Nat
  | _, [], U => U
  | w, l :: ls, U =>
    unacked cid epoch (step P w l).1 ls (U \ w.acked l cid epoch ∪ publishIds (w.pushed P l cid epoch))

/-- A CONNECT that resumes a session re-sends at most as many PUBLISH packets as its Receive Maximum: they
are those in flight, as far as the new channel takes them. -/
def ResumeFits (w : World) (req : ConnectRequest) : Prop :=
  req.connect.cleanStart = false → ∀ s, w.broker.sessions.lookup req.clientId = some s →
    Broker.identityChanged s.identity req.identity = false →
    min outboundChannelCapacity (size s.awaitingPuback + size s.awaitingPubrec) ≤
      req.connect.receiveMaximum.getD 65535

end World

/-! ## The window of a session -/

namespace Session

/-- What was pushed since the channel held `base`, on top of `U`, is in use and fits the window. -/
def InWindow (base : List Outgoing) (U : Finset Nat) (s : Session) : Prop :=
  ∀ tx, s.out = some tx → ∃ items, tx.sent = base ++ items ∧ U ∪ publishIds items ⊆ s.idsInUse ∧
    (U ∪ publishIds items).card ≤ s.clientReceiveMaximum

namespace InWindow
variable {base : List Outgoing} {U : Finset Nat} {s s' : Session}

theorem congr (h : InWindow base U s) (hout : s'.out = s.out) (hids : s'.idsInUse = s.idsInUse)
    (hmax : s'.clientReceiveMaximum = s.clientReceiveMaximum) : InWindow base U s' := by
  intro tx htx
  rw [hids, hmax]
  exact h tx (hout ▸ htx)

/-- Pushing anything that is not a QoS 1 or 2 PUBLISH. -/
theorem trySend {item : Outgoing} (h : InWindow base U s) (hi : item.publishId = none)
    (hs : s.trySend item = some s') : InWindow base U s' := by
  obtain ⟨tx, htx, -, rfl⟩ := trySend_some hs
  intro tx' e
  obtain ⟨items, he, hsub, hcard⟩ := h tx htx
  cases e
  refine ⟨items ++ [item], by simp [he], ?_⟩
  rw [publishIds_append, publishIds_singleton, hi]
  simpa using ⟨hsub, hcard⟩

theorem push {item : Outgoing} (h : InWindow base U s) (hi : item.publishId = none) :
    InWindow base U (s.push item) := by
  cases hs : s.trySend item with
  | none => simpa [Session.push, hs] using h
  | some s' => simpa [Session.push, hs] using h.trySend hi hs

theorem resendPubrel : ∀ (ids : List Nat) {s : Session}, InWindow base U s → InWindow base U (s.resendPubrel ids)
  | [], _, h => h
  | _ :: ids, _, h => resendPubrel ids (h.push rfl)

theorem launched {now id : Nat} {p : Pending} (h : InWindow base U s) (hok : IdsOk s)
    (hq : p.qos ≠ .atMostOnce) (hl : Launched now s p id s') : InWindow base U s' := by
  obtain ⟨tx, htx, -, hout⟩ := hl.out
  obtain ⟨items, he, hsub, hcard⟩ := h tx htx
  have hid : (Outgoing.send (p.render now id)).publishId = some id := by
    simp [Outgoing.publishId, Pending.render, Message.toPublish, hq]
  intro tx' htx'
  rw [hout] at htx'
  cases htx'
  refine ⟨items ++ [.send (p.render now id)], by simp [he], ?_⟩
  rw [hl.idsInUse hq, (SameRecord.launched hl).receiveMaximum, publishIds_append, publishIds_singleton, hid]
  -- the window was open: one more id still fits
  have hw : s.idsInUse.card < s.clientReceiveMaximum := by
    have := hl.window
    rwa [windowOpen, decide_eq_true_eq, inflightCount_eq_card hok] at this
  have hsub' : U ∪ (publishIds items ∪ {id}) ⊆ insert id s.idsInUse := by
    intro x hx
    simp only [Finset.mem_union, Finset.mem_singleton] at hx
    rcases hx with hx | hx | rfl
    · exact Finset.mem_insert_of_mem (hsub (Finset.mem_union_left _ hx))
    · exact Finset.mem_insert_of_mem (hsub (Finset.mem_union_right _ hx))
    · exact Finset.mem_insert_self _ _
  refine ⟨hsub', (Finset.card_le_card hsub').trans ((Finset.card_insert_le _ _).trans hw)⟩

theorem flushQueue (P : Protocol) (now : Nat) (h : InWindow base U s) (hok : IdsOk s) :
    InWindow base U (flushQueue P now s).1 := by
  obtain ⟨q, s', he, hs', -⟩ := flushLoop_rule P now
    (fun q s _ => InWindow base U s ∧ IdsOk s ∧ ∀ p ∈ q, p.qos ≠ .atMostOnce)
    (fun _ _ _ h => ⟨h.1.congr rfl rfl rfl, h.2.1.nextId, h.2.2⟩)
    (fun _ _ _ _ _ h => ⟨h.1, h.2.1, (List.forall_mem_cons.1 h.2.2).2⟩)
    (fun _ _ _ _ _ h => ⟨h.1, h.2.1, (List.forall_mem_cons.1 h.2.2).2⟩)
    (fun _ _ _ _ _ _ _ hl h =>
      have hq := List.forall_mem_cons.1 h.2.2
      ⟨h.1.launched h.2.1 hq.1 hl, h.2.1.launched hq.1 hl, hq.2⟩)
    s.queue s [] ⟨h, hok, hok.queue⟩
  rw [WispMQ.flushQueue, he]
  exact hs'.congr rfl rfl rfl

theorem delivered {P : Protocol} {now : Nat} {m : Message} {qos : QoS} {retain : Bool} {subIds : List Nat} {maxQueued : Nat}
    {fate : Fate} (h : InWindow base U s) (hok : IdsOk s)
    (hd : Delivered P now s m qos retain subIds maxQueued s' fate) : InWindow base U s' := by
  have enq : ∀ (s1 : Session) (p : Pending), InWindow base U s1 → InWindow base U (s1.enqueue p maxQueued).1 := by
    intro s1 p h
    unfold enqueue
    split <;> exact h.congr rfl rfl rfl
  cases hd with
  | expired => exact h
  | offline => exact h
  | discarded => exact h
  | pushed hq hs => exact h.trySend (by simp [Outgoing.publishId, Message.toPublish]) hs
  | launched _ hq _ hl => exact h.launched hok hq hl
  | queued _ _ hs =>
    rcases hs with rfl | rfl
    · exact enq _ _ h
    · exact enq _ _ (h.congr rfl rfl rfl)

/-- A channel event that adds nothing. -/
theorem mapOut {g : OutTx → OutTx} (h : InWindow base U s) (hg : ∀ tx, (g tx).sent = tx.sent) :
    InWindow base U { s with out := s.out.map g } := by
  intro tx htx
  obtain ⟨tx₀, h0, rfl⟩ := Option.map_eq_some_iff.1 htx
  obtain ⟨items, he, hrest⟩ := h tx₀ h0
  exact ⟨items, (hg tx₀).trans he, hrest⟩

end InWindow

theorem recv_sent (tx : OutTx) : tx.recv.sent = tx.sent := by
  simp only [OutTx.recv]; split <;> rfl

/-- Operations other than acknowledgements and takeovers stay in the window. -/
theorem apply_inWindow (P : Protocol) {base : List Outgoing} {U : Finset Nat} {s : Session}
    (h : InWindow base U s) (hok : IdsOk s) {o : Op} (ho : o.isRoutine) : InWindow base U (s.apply P o).1 := by
  cases o with
  | deliver now m qos retain subIds maxQueued =>
    exact h.delivered hok (deliver_delivered P now s m qos retain subIds maxQueued)
  | control p => exact h.push rfl
  | shutdown rc => exact h.push rfl
  | pubrel id =>
    have h' : InWindow base U { s with inboundQos2 := s.inboundQos2.erase id } := h.congr rfl rfl rfl
    exact h'.push rfl
  | subscribe sub =>
    simp only [apply, upsertSubscription]
    split <;> exact h.congr rfl rfl rfl
  | close => intro tx htx; cases htx
  | recv => exact h.mapOut recv_sent
  | hangup => exact h.mapOut fun _ => rfl
  | setAlias a topic => exact h.congr rfl rfl rfl
  | inbound id => exact h.congr rfl rfl rfl
  | unsubscribe filter shareName => exact h.congr rfl rfl rfl
  | revoke acl => exact h.congr rfl rfl rfl
  | bridgeSubscribe sub => exact h.congr rfl rfl rfl
  | setExpiry secs => exact h.congr rfl rfl rfl
  | puback now id => simp [Op.isRoutine, Op.isAck] at ho
  | pubrec ack => simp [Op.isRoutine, Op.isAck] at ho
  | pubcomp now id => simp [Op.isRoutine, Op.isAck] at ho
  | resume => simp [Op.isRoutine, Op.isResume] at ho

theorem inWindow_start {base : List Outgoing} {U : Finset Nat} {s : Session}
    (hbase : ∀ tx, s.out = some tx → tx.sent = base) (hsub : s.out.isSome → U ⊆ s.idsInUse)
    (hcard : U.card ≤ s.clientReceiveMaximum) : InWindow base U s := by
  intro tx htx
  exact ⟨[], by simp [hbase tx htx], by simpa using hsub (by simp [htx]), by simpa using hcard⟩

/-- An id in use that the PUBACK does not complete stays in use. -/
theorem sdiff_puback (s : Session) (a : PubAck) : s.idsInUse \ s.completes (.puback a) ⊆
    ({ s with awaitingPuback := s.awaitingPuback.erase a.packetId } : Session).idsInUse := by
  intro x hx
  simp only [idsInUse, Finset.mem_sdiff, Finset.mem_union, or_assoc] at hx
  obtain ⟨hx, hc⟩ := hx
  simp only [idsInUse, keySet_erase, Finset.mem_union, Finset.mem_erase, or_assoc]
  by_cases hxa : x = a.packetId
  · refine .inr (hx.resolve_left fun hp => hc ?_)
    rw [mem_keySet] at hp
    simp [completes, ← hxa, hp]
  · exact hx.imp_left fun h => ⟨hxa, h⟩

theorem sdiff_pubcomp (s : Session) (a : PubAck) : s.idsInUse \ s.completes (.pubcomp a) ⊆
    ({ s with awaitingPubcomp := s.awaitingPubcomp.erase a.packetId } : Session).idsInUse := by
  intro x hx
  simp only [idsInUse, Finset.mem_sdiff, Finset.mem_union, or_assoc] at hx
  obtain ⟨hx, hc⟩ := hx
  simp only [idsInUse, Finset.mem_union, Finset.mem_erase, or_assoc]
  by_cases hxa : x = a.packetId
  · rcases hx with hx | hx | hx
    · exact .inl hx
    · exact .inr (.inl hx)
    · exact absurd (by simp [completes, ← hxa, hx]) hc
  · exact hx.imp_right (·.imp_right fun h => ⟨hxa, h⟩)

/-- The id of a PUBREC stays in use unless the PUBREC carries an error. -/
theorem sdiff_pubrec (s : Session) (a : PubAck) (h : a.reasonCode.isError ∨ a.packetId ∉ s.awaitingPubrec) :
    s.idsInUse \ s.completes (.pubrec a) ⊆
      ({ s with awaitingPubrec := s.awaitingPubrec.erase a.packetId } : Session).idsInUse := by
  intro x hx
  simp only [idsInUse, Finset.mem_sdiff, Finset.mem_union, or_assoc] at hx
  obtain ⟨hx, hc⟩ := hx
  simp only [idsInUse, keySet_erase, Finset.mem_union, Finset.mem_erase, or_assoc]
  rcases hx with hx | hx | hx
  · exact .inl hx
  · refine .inr (.inl ⟨fun hxa => ?_, hx⟩)
    rw [mem_keySet, hxa] at hx
    rcases h with he | hn
    · exact hc (by simp [completes, hx, he, hxa])
    · exact hn hx
  · exact .inr (.inr hx)

/-- A PUBREC that is answered moves the id from one map to the other. -/
theorem subset_released (s : Session) (id : Nat) : s.idsInUse ⊆
    ({ s with awaitingPubrec := s.awaitingPubrec.erase id, awaitingPubcomp := insert id s.awaitingPubcomp } :
      Session).idsInUse := by
  intro x hx
  simp only [idsInUse, Finset.mem_union, or_assoc] at hx
  simp only [idsInUse, keySet_erase, Finset.mem_union, Finset.mem_erase, Finset.mem_insert, or_assoc]
  by_cases hxa : x = id
  · exact .inr (.inr (.inl hxa))
  · rcases hx with hx | hx | hx
    · exact .inl hx
    · exact .inr (.inl ⟨hxa, hx⟩)
    · exact .inr (.inr (.inr hx))

/-- An acknowledgement takes the id it completes out of the observer's set, then may send from the queue. -/
theorem ack_inWindow (P : Protocol) {base : List Outgoing} {U : Finset Nat} {s : Session} (hok : IdsOk s)
    (hbase : ∀ tx, s.out = some tx → tx.sent = base) (hsub : s.out.isSome → U ⊆ s.idsInUse)
    (hcard : U.card ≤ s.clientReceiveMaximum) {now : Nat} {packet : Packet} {o : Op}
    (ho : World.ackOp now packet = some o) : InWindow base (U \ s.completes packet) (s.apply P o).1 := by
  have hcard' : (U \ s.completes packet).card ≤ s.clientReceiveMaximum :=
    (Finset.card_le_card Finset.sdiff_subset).trans hcard
  have hids : s.out.isSome → U \ s.completes packet ⊆ s.idsInUse \ s.completes packet := fun hon =>
    Finset.sdiff_subset_sdiff (hsub hon) (Finset.Subset.refl _)
  cases packet with
  | puback a =>
    cases ho
    exact InWindow.flushQueue P now (inWindow_start hbase (fun hon => (hids hon).trans (sdiff_puback s a)) hcard')
      (hok.erase_puback _)
  | pubcomp a =>
    cases ho
    exact InWindow.flushQueue P now (inWindow_start hbase (fun hon => (hids hon).trans (sdiff_pubcomp s a)) hcard')
      (hok.erase_pubcomp _)
  | pubrec a =>
    cases ho
    simp only [apply, pubrec]
    split
    · rename_i h
      simp only [Bool.and_eq_true] at h
      exact inWindow_start hbase (fun hon => (hids hon).trans (sdiff_pubrec s a (.inl h.2))) hcard'
    · split
      · refine InWindow.push (inWindow_start hbase (fun hon => ?_) hcard') rfl
        exact ((hids hon).trans Finset.sdiff_subset).trans (subset_released s a.packetId)
      · rename_i hk
        have hn : a.packetId ∉ s.awaitingPubrec := by simpa using hk
        have hgone := fun hon => (hids hon).trans (sdiff_pubrec s a (.inr hn))
        split
        · exact inWindow_start hbase hgone hcard'
        · exact InWindow.push (inWindow_start hbase hgone hcard') rfl
  | _ => simp [World.ackOp] at ho

/-! ## Retransmission -/

/-- A new channel takes items up to its capacity. -/
theorem push_take {s : Session} {xs : List Outgoing} (item : Outgoing) (hout : s.out = some { sent := xs })
    (hlen : xs.length ≤ outboundChannelCapacity) :
    (s.push item).out = some { sent := (xs ++ [item]).take outboundChannelCapacity } := by
  by_cases hroom : xs.length < outboundChannelCapacity
  · rw [List.take_of_length_le (by simp; omega)]
    simp [push, trySend, hout, OutTx.trySend, OutTx.hasRoom, hroom]
  · rw [List.take_append_of_le_length (by omega), List.take_of_length_le (by omega)]
    simp [push, trySend, hout, OutTx.trySend, OutTx.hasRoom, hroom]

/-- A retransmission. -/
def dupItem (p : Publish) : Outgoing := .send { p with dup := true }

theorem take_take_append {α : Type} (k : Nat) (l l' : List α) : (l.take k ++ l').take k = (l ++ l').take k := by
  rw [List.take_append, List.take_append, List.take_take, min_self, List.length_take]
  congr 2
  omega

/-- Items pushed in turn. -/
def pushAll (s : Session) (items : List Outgoing) : Session := items.foldl push s

theorem pushAll_append (s : Session) (is js : List Outgoing) : s.pushAll (is ++ js) = (s.pushAll is).pushAll js :=
  List.foldl_append

theorem pushAll_take : ∀ (items : List Outgoing) {s : Session} {xs : List Outgoing}, s.out = some { sent := xs } →
    xs.length ≤ outboundChannelCapacity →
    (s.pushAll items).out = some { sent := (xs ++ items).take outboundChannelCapacity }
  | [], s, xs, hout, hlen => by simpa [pushAll, List.take_of_length_le hlen] using hout
  | item :: items, s, xs, hout, hlen => by
    have h1 := push_take item hout hlen
    have h2 := pushAll_take items h1 (List.length_take_le _ _)
    rw [pushAll, List.foldl_cons, ← pushAll, h2, take_take_append, ← List.append_cons xs]

theorem resend_eq (s : Session) (ps : List Publish) : s.resend ps = s.pushAll (ps.map dupItem) := by
  rw [pushAll, List.foldl_map]
  rfl

/-- The ids of stored PUBLISH packets, re-sent in some order. -/
theorem resent_ids {m : KeyMap Nat Publish}
    (hm : ∀ id p, m.lookup id = some p → p.qos ≠ .atMostOnce ∧ p.packetId = some id) (ks : List Nat) :
    ∃ ids : List Nat, ids.Perm m.keys ∧
      ((reorder ks (values m)).map dupItem).map Outgoing.publishId =
        ids.map some := by
  have hentry : ∀ e ∈ reorder ks m.entries, e.2.qos ≠ .atMostOnce ∧ e.2.packetId = some e.1 :=
    fun e he => hm e.1 e.2 (mem_entries_iff.1 (mem_reorder.1 he))
  refine ⟨(reorder ks m.entries).map (·.1), (reorder_perm ks _).map _, ?_⟩
  rw [values, reorder_map, List.map_map, List.map_map, List.map_map]
  refine List.map_congr_left fun e he => ?_
  simp [dupItem, Outgoing.publishId, hentry e he]

theorem publishIds_take {xs : List Outgoing} {ids : List Nat} (h : xs.map Outgoing.publishId = ids.map some) (k : Nat) :
    publishIds (xs.take k) = (ids.take k).toFinset := by
  have hmap : (xs.take k).filterMap Outgoing.publishId = ((xs.take k).map Outgoing.publishId).filterMap id := by
    rw [List.filterMap_map]; rfl
  rw [publishIds, hmap, List.map_take, h, ← List.map_take, List.filterMap_map]
  congr 1
  exact List.filterMap_some

/-- What the two resends of `resume_delivery` leave in a new channel: as many of the PUBLISH packets in
flight as fit, each under its own id. -/
theorem resend_inflight (ord : Orders) {s : Session} (hok : IdsOk s) (hout : s.out = some {}) :
    ∃ xs, ((s.resend (reorder ord.puback (values s.awaitingPuback))).resend
        (reorder ord.pubrec (values s.awaitingPubrec))).out = some { sent := xs } ∧
      publishIds xs ⊆ s.idsInUse ∧
      (publishIds xs).card = min outboundChannelCapacity (size s.awaitingPuback + size s.awaitingPubrec) := by
  obtain ⟨ids₁, hp₁, he₁⟩ := resent_ids (m := s.awaitingPuback)
    (fun id p h => ⟨by simp [(hok.puback_entry id p h).1], (hok.puback_entry id p h).2⟩) ord.puback
  obtain ⟨ids₂, hp₂, he₂⟩ := resent_ids (m := s.awaitingPubrec)
    (fun id p h => ⟨by simp [(hok.pubrec_entry id p h).1], (hok.pubrec_entry id p h).2⟩) ord.pubrec
  have h := pushAll_take ((reorder ord.puback (values s.awaitingPuback)).map dupItem ++
    (reorder ord.pubrec (values s.awaitingPubrec)).map dupItem) hout (by simp)
  rw [pushAll_append, ← resend_eq, ← resend_eq, List.nil_append] at h
  refine ⟨_, h, ?_⟩
  have hxs : ((reorder ord.puback (values s.awaitingPuback)).map dupItem ++
      (reorder ord.pubrec (values s.awaitingPubrec)).map dupItem).map Outgoing.publishId =
        (ids₁ ++ ids₂).map some := by
    rw [List.map_append, List.map_append, he₁, he₂]
  rw [publishIds_take hxs]
  have hmem : ∀ id ∈ ids₁ ++ ids₂, id ∈ s.idsInUse := by
    intro id hid
    simp only [List.mem_append, hp₁.mem_iff, hp₂.mem_iff, ← AList.mem_keys] at hid
    simp only [idsInUse, Finset.mem_union, mem_keySet]
    exact .inl hid
  have hnd : (ids₁ ++ ids₂).Nodup := by
    refine List.Nodup.append (hp₁.nodup_iff.2 s.awaitingPuback.keys_nodup)
      (hp₂.nodup_iff.2 s.awaitingPubrec.keys_nodup) fun id h1 h2 => ?_
    rw [hp₁.mem_iff, ← AList.mem_keys] at h1
    rw [hp₂.mem_iff, ← AList.mem_keys] at h2
    exact Finset.disjoint_left.1 hok.puback_pubrec (mem_keySet.2 h1) (mem_keySet.2 h2)
  refine ⟨fun id hid => hmem id (List.mem_of_mem_take (List.mem_toFinset.1 hid)), ?_⟩
  rw [List.toFinset_card_of_nodup (hnd.sublist (List.take_sublist _ _)), List.length_take, List.length_append,
    hp₁.length_eq, hp₂.length_eq]
  simp [AList.keys, List.keys, size]

/-! ### The channel only grows -/

/-- The channel holds `base` as its first items. -/
def Extends (base : List Outgoing) (s : Session) : Prop := ∃ tx, s.out = some tx ∧ base <+: tx.sent

theorem Extends.push {base : List Outgoing} {s : Session} (h : Extends base s) (item : Outgoing) :
    Extends base (s.push item) := by
  cases hs : s.trySend item with
  | none => simpa [Session.push, hs] using h
  | some s' =>
    obtain ⟨tx, htx, -, rfl⟩ := trySend_some hs
    obtain ⟨tx', htx', hb⟩ := h
    rw [htx] at htx'; cases htx'
    refine ⟨{ tx with sent := tx.sent ++ [item] }, by simp [Session.push, hs], hb.trans (List.prefix_append _ _)⟩

theorem Extends.resendPubrel {base : List Outgoing} : ∀ (ids : List Nat) {s : Session}, Extends base s →
    Extends base (s.resendPubrel ids)
  | [], _, h => h
  | _ :: ids, _, h => Extends.resendPubrel ids (h.push _)

theorem Extends.flushQueue {base : List Outgoing} {s : Session} (P : Protocol) (now : Nat) (h : Extends base s) :
    Extends base (flushQueue P now s).1 := by
  obtain ⟨q, s', he, hs'⟩ := flushLoop_rule P now (fun _ s _ => Extends base s) (fun _ _ _ h => h)
    (fun _ _ _ _ _ h => h) (fun _ _ _ _ _ h => h) (fun _ _ _ _ _ _ _ hl ⟨tx', htx', hb⟩ => by
      obtain ⟨tx, htx, -, hout⟩ := hl.out
      rw [htx] at htx'; cases htx'
      exact ⟨_, hout, hb.trans (List.prefix_append _ _)⟩) s.queue s [] h
  rw [WispMQ.flushQueue, he]
  exact hs'

theorem publishIds_subset_of_isPrefix {xs ys : List Outgoing} (h : xs <+: ys) : publishIds xs ⊆ publishIds ys := by
  obtain ⟨zs, rfl⟩ := h
  simp

/-- On a new channel, `resume_delivery` pushes all that is in flight and fits, and stays in the window if
that does. -/
theorem resumeDelivery_window (P : Protocol) (now : Nat) (ord : Orders) {s : Session} (hok : IdsOk s)
    (hout : s.out = some {}) :
    (∃ tx, (resumeDelivery P now ord s).1.out = some tx ∧
      min outboundChannelCapacity (size s.awaitingPuback + size s.awaitingPubrec) ≤ (publishIds tx.sent).card) ∧
    (min outboundChannelCapacity (size s.awaitingPuback + size s.awaitingPubrec) ≤ s.clientReceiveMaximum →
      InWindow [] ∅ (resumeDelivery P now ord s).1) := by
  obtain ⟨xs, hxs, hsub, hcard⟩ := resend_inflight ord hok hout
  set s1 := s.resend (reorder ord.puback (values s.awaitingPuback)) with hs1
  have e1 : SameOutbound s s1 := resend_sameOutbound _ _
  set s2 := s1.resend (reorder ord.pubrec (values s.awaitingPubrec)) with hs2
  have e2 : SameOutbound s s2 := e1.trans (resend_sameOutbound _ _)
  have r2 : SameRecord s s2 := (resend_sameRecord _ _).trans (resend_sameRecord _ _)
  set s3 := s2.resendPubrel (reorder ord.pubcomp (s2.awaitingPubcomp.sort (· ≤ ·))) with hs3
  have e3 : SameOutbound s s3 := e2.trans (resendPubrel_sameOutbound _ _)
  have hon : s.isOnline := by simp [isOnline, hout]
  have hres : resumeDelivery P now ord s = WispMQ.flushQueue P now s3 := by
    simp only [resumeDelivery, retransmit, hon, if_true, ← hs1, e1.pubrec, ← hs2, ← hs3]
  rw [hres]
  constructor
  · have hext : Extends xs s2 := ⟨_, hxs, List.prefix_rfl⟩
    obtain ⟨tx, htx, hpre⟩ := (hext.resendPubrel (reorder ord.pubcomp (s2.awaitingPubcomp.sort (· ≤ ·)))).flushQueue P now
    exact ⟨tx, htx, hcard ▸ Finset.card_le_card (publishIds_subset_of_isPrefix hpre)⟩
  · intro hfit
    have h2 : InWindow [] ∅ s2 := by
      intro tx htx
      rw [hxs] at htx
      cases htx
      refine ⟨xs, rfl, ?_, ?_⟩
      · rw [Finset.empty_union, idsInUse, e2.puback, e2.pubrec, e2.pubcomp]
        exact hsub
      · rw [Finset.empty_union, r2.receiveMaximum, hcard]
        exact hfit
    have h3 : InWindow [] ∅ s3 := h2.resendPubrel _
    exact h3.flushQueue P now (hok.congr e3)

/-- What is in flight when a CONNECT has taken the session over. -/
def resentCount (s : Session) (req : ConnectRequest) : Nat :=
  if Broker.identityChanged s.identity req.identity then 0
  else min outboundChannelCapacity (size s.awaitingPuback + size s.awaitingPubrec)

theorem resume_window (P : Protocol) (now : Nat) (ord : Orders) (cfg : Config) (acl : Acl) (req : ConnectRequest)
    (epoch : Nat) {s : Session} (hok : IdsOk s) (hout : req.out = {}) :
    (∃ tx, (s.apply P (.resume now ord cfg acl req epoch)).1.out = some tx ∧
      s.resentCount req ≤ (publishIds tx.sent).card) ∧
    (s.resentCount req ≤ req.connect.receiveMaximum.getD 65535 →
      InWindow [] ∅ (s.apply P (.resume now ord cfg acl req epoch)).1) := by
  have e := resumeBound_outbound P now cfg acl req epoch s
  have h := resumeDelivery_window P now ord (hok.resumeBound P now cfg acl req epoch) (by rw [resumeBound_out, hout])
  have hcount : s.resentCount req = min outboundChannelCapacity
      (size (s.resumeBound P now cfg acl req epoch).awaitingPuback +
        size (s.resumeBound P now cfg acl req epoch).awaitingPubrec) := by
    rw [resentCount, e.puback, e.pubrec]
    split
    · exact (Nat.min_zero _).symm
    · rfl
  rw [resumeBound_receiveMaximum, ← hcount] at h
  exact h

end Session

/-! ## Every run -/

namespace World
open Broker
variable {P : Protocol} {w : World} {l : Label} {cid : String} {epoch rm : Nat} {U : Finset Nat}

/-- The state of an observed connection. -/
structure Observed (cid : String) (epoch rm : Nat) (w : World) (U : Finset Nat) : Prop where
  ids : w.broker.fleet.IdsOk
  epochs : w.EpochsOk
  issued : epoch < w.broker.nextEpoch
  card : U.card ≤ rm
  current : ∀ s, w.broker.sessions.lookup cid = some s → s.epoch = epoch →
    s.clientReceiveMaximum = rm ∧ (s.out.isSome → U ⊆ s.idsInUse)

theorem channel_of_lookup {s : Session} (h : w.broker.sessions.lookup cid = some s) (he : s.epoch = epoch) :
    w.channel cid epoch = s.out := by
  simp [channel, h, he]

/-- What a step pushed, when the session keeps its connection. -/
theorem pushed_of_lookup {s s' : Session} {tx tx' : OutTx} (hs : w.broker.sessions.lookup cid = some s)
    (htx : s.out = some tx) (hs' : (step P w l).1.broker.sessions.lookup cid = some s') (he : s'.epoch = s.epoch)
    (htx' : s'.out = some tx') : w.pushed P l cid s.epoch = tx'.sent.drop tx.sent.length := by
  simp only [pushed, channel_of_lookup hs' he, htx', channel_of_lookup hs rfl, htx, Option.some_or, Option.elim_some]

theorem channel_some {tx : OutTx} (h : w.channel cid epoch = some tx) :
    ∃ s, w.broker.sessions.lookup cid = some s ∧ s.epoch = epoch ∧ s.out = some tx := by
  simp only [channel, Option.bind_eq_some_iff] at h
  obtain ⟨s, hs, h⟩ := h
  split at h
  · rename_i he; exact ⟨s, hs, he, h⟩
  · cases h

/-- The next connection has no channel yet. -/
theorem channel_next (hep : w.EpochsOk) (cid : String) : w.channel cid w.broker.nextEpoch = none := by
  cases hch : w.channel cid w.broker.nextEpoch with
  | none => rfl
  | some tx =>
    obtain ⟨s, hs, he, -⟩ := channel_some hch
    exact absurd he (Nat.ne_of_lt (hep _ s hs))

theorem detachedIn_some {es : List Effect} {tx : OutTx} (h : detachedIn cid epoch es = some tx) :
    .detached cid epoch tx ∈ es := by
  obtain ⟨e, he, h⟩ := List.exists_of_findSome?_eq_some h
  split at h
  · split at h
    · rename_i hc; cases h; obtain ⟨rfl, rfl⟩ := hc; exact he
    · cases h
  · cases h

/-- If the connection has no channel after the step, the step pushed no PUBLISH into it. -/
theorem pushed_of_gone (h : (step P w l).1.channel cid epoch = none) : publishIds (w.pushed P l cid epoch) = ∅ := by
  simp only [pushed, h, Option.none_or]
  split
  · rename_i tx hd
    obtain ⟨s, tx₀, hs, he, ho, hsent⟩ := step_letGo (detachedIn_some hd)
    rw [channel_of_lookup hs he, ho]
    rcases hsent with h | ⟨rc, h⟩ <;> simp [h, publishIds_singleton, Outgoing.publishId]
  · rfl

/-- A session that ends the step in its window is what the observer sees. -/
theorem pushed_of_inWindow (base : List Outgoing) {s' : Session}
    (hs' : (step P w l).1.broker.sessions.lookup cid = some s') (he : s'.epoch = epoch) (hbase : ((w.channel cid epoch).elim 0 (·.sent.length)) = base.length)
    (h : s'.InWindow base U) (hU : U.card ≤ rm) (hmax : s'.clientReceiveMaximum = rm) :
    (U ∪ publishIds (w.pushed P l cid epoch)).card ≤ rm ∧
      (s'.out.isSome → U ∪ publishIds (w.pushed P l cid epoch) ⊆ s'.idsInUse) := by
  cases ho : s'.out with
  | none =>
    have hch : (step P w l).1.channel cid epoch = none := by rw [channel_of_lookup hs' he, ho]
    rw [pushed_of_gone hch]
    simpa using hU
  | some tx =>
    obtain ⟨items, hsent, hsub, hcard⟩ := h tx ho
    have hp : w.pushed P l cid epoch = items := by
      simp [pushed, channel_of_lookup hs' he, ho, hbase, hsent]
    rw [hp]
    exact ⟨hmax ▸ hcard, fun _ => hsub⟩

/-- While the connection lasts, a step leaves its session in the window. -/
theorem Observed.inWindow (h : Observed cid epoch rm w U) (base : List Outgoing) {s s' : Session} {f : Fleet}
    (hs : w.broker.sessions.lookup cid = some s) (he : s.epoch = epoch)
    (hbase : ∀ tx, s.out = some tx → tx.sent = base) (hc : Change P w l f) (hs' : f.session cid = some s')
    (he' : s'.epoch = epoch) : s'.InWindow base (U \ w.acked l cid epoch) := by
  obtain ⟨hmax, hsub⟩ := h.current s hs he
  have hcard : (U \ w.acked l cid epoch).card ≤ s.clientReceiveMaximum :=
    hmax ▸ (Finset.card_le_card Finset.sdiff_subset).trans h.card
  have hstart : s.InWindow base (U \ w.acked l cid epoch) :=
    Session.inWindow_start hbase (fun ho => Finset.sdiff_subset.trans (hsub ho)) hcard
  have hnot : s'.epoch ≠ w.broker.nextEpoch := by
    have := h.issued
    omega
  have hok := h.ids cid s hs
  refine (hc.rule hs hs' hnot (fun s₁ => s₁.IdsOk ∧ s₁.InWindow base (U \ w.acked l cid epoch)) ⟨hok, hstart⟩
    (fun s₁ o ho h₁ => ⟨Session.apply_idsOk P h₁.1 o, Session.apply_inWindow P h₁.2 h₁.1 ho⟩) fun packet o hsel ho => ?_).2
  have hacked : w.acked l cid epoch = s.completes packet := by
    rw [he] at hsel
    simp [acked, hsel, hs, he]
  refine ⟨Session.apply_idsOk P hok o, ?_⟩
  rw [hacked]
  exact Session.ack_inWindow P hok hbase hsub (hmax ▸ h.card) ho

theorem Observed.step (h : Observed cid epoch rm w U) (l : Label) :
    Observed cid epoch rm (step P w l).1 (U \ w.acked l cid epoch ∪ publishIds (w.pushed P l cid epoch)) := by
  obtain ⟨hle, hb⟩ := (step_change P w l).epochs
  have hU : (U \ w.acked l cid epoch).card ≤ rm := (Finset.card_le_card Finset.sdiff_subset).trans h.card
  have hcur : ∀ s', (World.step P w l).1.broker.sessions.lookup cid = some s' → s'.epoch = epoch →
      s'.clientReceiveMaximum = rm ∧
      (U \ w.acked l cid epoch ∪ publishIds (w.pushed P l cid epoch)).card ≤ rm ∧
      (s'.out.isSome → U \ w.acked l cid epoch ∪ publishIds (w.pushed P l cid epoch) ⊆ s'.idsInUse) := by
    intro s' hs' he'
    rcases hb cid s' hs' with ⟨s, hs, hsame, -⟩ | ⟨he, -⟩
    · have he : s.epoch = epoch := hsame.epoch ▸ he'
      have hmax : s'.clientReceiveMaximum = rm := hsame.receiveMaximum.trans (h.current s hs he).1
      have hwin := h.inWindow (s.out.elim [] (·.sent)) hs he
        (fun tx htx => by simp [htx]) (step_change P w l) hs' he'
      refine ⟨hmax, pushed_of_inWindow _ hs' he' ?_ hwin hU hmax⟩
      rw [channel_of_lookup hs he]
      cases s.out <;> rfl
    · have := h.issued
      omega
  refine ⟨h.ids.change (step_pacedChange P w l), step_epochsOk P l h.epochs, lt_of_lt_of_le h.issued hle, ?_,
    fun s' hs' he' => ⟨(hcur s' hs' he').1, (hcur s' hs' he').2.2⟩⟩
  cases hch : (World.step P w l).1.channel cid epoch with
  | none => rw [pushed_of_gone hch]; simpa using hU
  | some tx =>
    obtain ⟨s', hs', he', -⟩ := channel_some hch
    exact (hcur s' hs' he').2.1

theorem Observed.run : ∀ (ls : List Label) {w : World} {U : Finset Nat}, Observed cid epoch rm w U →
    (unacked P cid epoch w ls U).card ≤ rm
  | [], _, _, h => h.card
  | l :: ls, _, _, h => Observed.run ls (h.step l)

/-- The session an accepted CONNECT leaves: bound with the epoch given out, on a channel that holds all that
was re-sent, and in the window if that fits. -/
theorem accepted_window {req : ConnectRequest} (hids : w.broker.fleet.IdsOk) (hout : req.out = {})
    (hsel : w.selected l.input = some (.connect req)) :
    ∃ s' tx, (World.step P w l).1.broker.sessions.lookup req.clientId = some s' ∧
      s'.epoch = w.broker.nextEpoch ∧ s'.clientReceiveMaximum = req.connect.receiveMaximum.getD 65535 ∧
      s'.out = some tx ∧
      (ResumeFits w req → s'.InWindow [] ∅) ∧
      (¬ResumeFits w req → req.connect.receiveMaximum.getD 65535 < (publishIds tx.sent).card) := by
  have hfleet : (World.step P w l).1.broker.fleet = ((connectMove l.now l.ord w.broker req).apply P w.broker.fleet).tick := by
    rw [(step_of_selected hsel).1]
    exact finishConnect_moves l.now l.ord w.broker req
  simp only [← fleet_session, hfleet, Fleet.tick]
  by_cases hp : (w.broker.claimed req).2
  · obtain ⟨hclean, s, hs, -⟩ := claimed_present hp
    obtain ⟨⟨tx, htx, hle⟩, hwin⟩ := Session.resume_window P l.now l.ord w.broker.config w.broker.acl req
      w.broker.nextEpoch (hids req.clientId s hs) hout
    have hfits : ResumeFits w req ↔ s.resentCount req ≤ req.connect.receiveMaximum.getD 65535 := by
      simp only [ResumeFits, hclean, hs, Option.some.injEq, forall_eq', forall_const, Session.resentCount]
      cases Broker.identityChanged s.identity req.identity <;> simp
    simp only [connectMove, hp, if_true]
    rw [Fleet.apply_op (f := w.broker.fleet) hs]
    refine ⟨_, tx, Function.update_self _ _ _, ?_, ?_, htx, fun h => hwin (hfits.1 h), fun h => ?_⟩
    · rw [(Session.apply_resume_binding P _ _ _ _ _ _ _).epoch, Session.resumeBound_epoch]
    · rw [(Session.apply_resume_binding P _ _ _ _ _ _ _).receiveMaximum, Session.resumeBound_receiveMaximum]
    · rw [hfits, not_le] at h
      exact lt_of_lt_of_le h hle
  · have hfits : ResumeFits w req := by
      intro hclean s hs hi
      simp [claimed, hclean, hs] at hp
    simp only [connectMove, hp, Bool.false_eq_true, if_false, Move.apply, Fleet.set]
    refine ⟨_, {}, Function.update_self _ _ _, rfl, rfl, congrArg some hout, fun _ => ?_, fun h => absurd hfits h⟩
    intro tx htx
    have htx : some req.out = some tx := htx
    rw [hout] at htx
    cases htx
    exact ⟨[], rfl, by simp, by simp⟩

/-- **Receive Maximum**: from the step that accepts a connection on, the number of distinct packet ids of
QoS 1 and 2 PUBLISH packets pushed into its channel and not yet acknowledged stays within the Receive
Maximum of its CONNECT, in every run, exactly if what the CONNECT finds in flight and re-sends does. -/
theorem receiveMaximum_iff (P : Protocol) (now : Nat) (cfg : Config) (db : Db) (acl : Acl)
    (auth : Option Credentials) (before : List Label) (l : Label) (req : ConnectRequest)
    (hsel : (run P (boot P now cfg db acl auth) before).1.selected l.input = some (.connect req)) :
    (∀ after : List Label,
      (unacked P req.clientId (run P (boot P now cfg db acl auth) before).1.broker.nextEpoch
        (run P (boot P now cfg db acl auth) before).1 (l :: after) ∅).card ≤
          req.connect.receiveMaximum.getD 65535) ↔
    ResumeFits (run P (boot P now cfg db acl auth) before).1 req := by
  have hout := (run_connect hsel).1
  have hids : (run P (boot P now cfg db acl auth) before).1.broker.fleet.IdsOk :=
    run_idsOk P (boot_idsOk P now cfg db acl auth) before
  have hep : (run P (boot P now cfg db acl auth) before).1.EpochsOk :=
    run_epochsOk P (boot_epochsOk P now cfg db acl auth) before
  set w := (run P (boot P now cfg db acl auth) before).1
  obtain ⟨s', tx, hs', he', hmax, htx, hwin, hbad⟩ := accepted_window (P := P) hids hout hsel
  have hnone : w.channel req.clientId w.broker.nextEpoch = none := channel_next hep req.clientId
  constructor
  · intro h
    by_contra hfits
    have hpushed : w.pushed P l req.clientId w.broker.nextEpoch = tx.sent := by
      simp [pushed, channel_of_lookup hs' he', htx, hnone]
    have hcard := h []
    simp only [unacked, Finset.empty_sdiff, Finset.empty_union, hpushed] at hcard
    exact absurd (hbad hfits) (not_lt.2 hcard)
  · intro hfits after
    have hobs := pushed_of_inWindow [] hs' he' (by rw [hnone]; rfl) (hwin hfits) (Nat.zero_le _) hmax
    simp only [unacked, Finset.empty_sdiff]
    refine Observed.run after ⟨hids.change (step_pacedChange P w l), step_epochsOk P l hep, ?_, hobs.1, ?_⟩
    · exact he' ▸ step_epochsOk P l hep _ s' hs'
    · intro s hs he
      rw [hs'] at hs
      cases hs
      exact ⟨hmax, hobs.2⟩

/-- A subscriber with two QoS 1 messages in flight, and its CONNECT that waits to resume the session with
Receive Maximum `rm`. -/
def lowering (rm : Nat) : List Label :=
  connecting { clientId := "sub", cleanStart := true, sessionExpiryInterval := some 60 } ++
  sending "sub" 1 (.subscribe ⟨1, [{ filter := "t", qos := .atLeastOnce }], []⟩) ++
  connecting { clientId := "pub", cleanStart := true } ++
  sending "pub" 2 (.publish ⟨false, .atLeastOnce, false, "t", some 7, {}, [1]⟩) ++
  sending "pub" 2 (.publish ⟨false, .atLeastOnce, false, "t", some 8, {}, [2]⟩) ++
  [{ input := .call (.connect { clientId := "sub", cleanStart := false, receiveMaximum := some rm } none) }]

/-- The request that waits then. -/
def loweringRequest (rm : Nat) : ConnectRequest :=
  ⟨{ clientId := "sub", cleanStart := false, receiveMaximum := some rm }, .v5, none, "sub", false, {}⟩

theorem receiveMaximum_iff_two :
    (run .reference (boot .reference 0 {} {} .permitAll none) (lowering 2)).1.selected (.task 0) =
      some (.connect (loweringRequest 2)) ∧
    ∀ after, (unacked .reference "sub" 3 (run .reference (boot .reference 0 {} {} .permitAll none) (lowering 2)).1
      ({ input := .task 0 } :: after) ∅).card ≤ 2 := by
  have hsel : (run .reference (boot .reference 0 {} {} .permitAll none) (lowering 2)).1.selected (.task 0) =
      some (.connect (loweringRequest 2)) := by decide
  refine ⟨hsel, (receiveMaximum_iff .reference 0 {} {} .permitAll none (lowering 2) { input := .task 0 }
    (loweringRequest 2) hsel).2 ?_⟩
  intro _ s hs _
  have h : ((run .reference (boot .reference 0 {} {} .permitAll none) (lowering 2)).1.broker.sessions.lookup "sub").map
      (fun s => size s.awaitingPuback + size s.awaitingPubrec) = some 2 := by decide
  rw [show (loweringRequest 2).clientId = "sub" from rfl] at hs
  rw [hs, Option.map_some, Option.some.injEq] at h
  rw [h]
  decide

/-- Resuming with Receive Maximum 1 re-sends both messages. -/
theorem receiveMaximum_exceeded :
    (run .reference (boot .reference 0 {} {} .permitAll none) (lowering 1)).1.selected (.task 0) =
      some (.connect (loweringRequest 1)) ∧
    (run .reference (boot .reference 0 {} {} .permitAll none) (lowering 1)).1.broker.nextEpoch = 3 ∧
    ¬(unacked .reference "sub" 3 (run .reference (boot .reference 0 {} {} .permitAll none) (lowering 1)).1
      [{ input := .task 0 }] ∅).card ≤ 1 := by
  refine ⟨?_, ?_, ?_⟩ <;> decide +kernel

end World

end WispMQ
