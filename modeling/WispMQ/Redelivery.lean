import WispMQ.Backlog
import WispMQ.Ledger
import WispMQ.Pushes
/-!
# Redelivery on resume

`resume_delivery` re-sends everything in flight on the new channel: the PUBLISH packets with DUP set, QoS 1 first,
then a PUBREL for every id whose PUBREC has come. Each goes through `try_send` and the result is discarded
(routing.rs:322, :327, :332), so the channel takes the first `OUTBOUND_CHANNEL_CAPACITY` of them and the rest is
dropped while their ids stay in flight. `redelivery_complete_iff` says that nothing else is lost.

The order is that of the two hash maps, which hold no trace of when a packet was sent; `redelivery_order` compares
it with the order of first transmission.
-/

namespace WispMQ
open KeyMap

/-- The packet id an item tells the client about. -/
def Outgoing.tells : Outgoing → Option Nat
  | .control (.pubrel a) => some a.packetId
  | item => item.publishId

namespace Session

/-- A PUBREL of `resume_delivery`. -/
def relItem (id : Nat) : Outgoing := .control (.pubrel ⟨id, .success⟩)

/-- What `resume_delivery` tries to re-send, in its order. -/
def resentItems (ord : Orders) (s : Session) : List Outgoing :=
  (reorder ord.puback (values s.awaitingPuback)).map dupItem ++
    (reorder ord.pubrec (values s.awaitingPubrec)).map dupItem ++
    (reorder ord.pubcomp (s.awaitingPubcomp.sort (· ≤ ·))).map relItem

theorem resendPubrel_eq (s : Session) (ids : List Nat) : s.resendPubrel ids = s.pushAll (ids.map relItem) := by
  rw [pushAll, List.foldl_map]
  rfl

theorem Grows.pushAll {Q : Outgoing → Prop} : ∀ (items : List Outgoing) (s : Session), (∀ i ∈ items, Q i) →
    Grows Q s (s.pushAll items)
  | [], s, _ => .refl s
  | i :: items, s, h => by
    obtain ⟨hi, his⟩ := List.forall_mem_cons.1 h
    exact (Grows.push hi).trans (Grows.pushAll items _ his)

theorem retransmit_eq (ord : Orders) (s : Session) : s.retransmit ord = s.pushAll (s.resentItems ord) := by
  have e1 := resend_sameOutbound (reorder ord.puback (values s.awaitingPuback)) s
  have e2 := resend_sameOutbound (reorder ord.pubrec (values s.awaitingPubrec))
    (s.resend (reorder ord.puback (values s.awaitingPuback)))
  simp only [retransmit, e1.pubrec, (e1.trans e2).pubcomp]
  rw [resentItems, pushAll_append, pushAll_append, ← resend_eq, ← resend_eq, ← resendPubrel_eq]

/-- Every id in flight is told once. -/
theorem resentItems_tells (ord : Orders) {s : Session} (hok : IdsOk s) :
    ∃ ids : List Nat, (s.resentItems ord).map Outgoing.tells = ids.map some ∧ ids.Nodup ∧
      ids.toFinset = s.idsInUse := by
  obtain ⟨ids₁, hp₁, he₁⟩ := resent_ids (m := s.awaitingPuback)
    (fun id p h => ⟨by simp [(hok.puback_entry id p h).1], (hok.puback_entry id p h).2⟩) ord.puback
  obtain ⟨ids₂, hp₂, he₂⟩ := resent_ids (m := s.awaitingPubrec)
    (fun id p h => ⟨by simp [(hok.pubrec_entry id p h).1], (hok.pubrec_entry id p h).2⟩) ord.pubrec
  have hp₃ := reorder_perm ord.pubcomp (s.awaitingPubcomp.sort (· ≤ ·))
  set ids₃ := reorder ord.pubcomp (s.awaitingPubcomp.sort (· ≤ ·))
  have m₁ : ∀ id, id ∈ ids₁ ↔ id ∈ keySet s.awaitingPuback := fun id => by
    rw [hp₁.mem_iff, mem_keySet, AList.mem_keys]
  have m₂ : ∀ id, id ∈ ids₂ ↔ id ∈ keySet s.awaitingPubrec := fun id => by
    rw [hp₂.mem_iff, mem_keySet, AList.mem_keys]
  have m₃ : ∀ id, id ∈ ids₃ ↔ id ∈ s.awaitingPubcomp := fun id => by rw [hp₃.mem_iff, Finset.mem_sort]
  refine ⟨ids₁ ++ ids₂ ++ ids₃, ?_, ?_, ?_⟩
  · have hdup : ∀ ps : List Publish, (ps.map dupItem).map Outgoing.tells = (ps.map dupItem).map Outgoing.publishId := by
      intro ps
      rw [List.map_map, List.map_map]
      rfl
    have hrel : (ids₃.map relItem).map Outgoing.tells = ids₃.map some := by rw [List.map_map]; rfl
    rw [resentItems, List.map_append, List.map_append, hdup, hdup, he₁, he₂, hrel, List.map_append, List.map_append]
  · rw [List.nodup_append', List.nodup_append']
    refine ⟨⟨hp₁.nodup_iff.2 s.awaitingPuback.keys_nodup, hp₂.nodup_iff.2 s.awaitingPubrec.keys_nodup, ?_⟩,
      hp₃.nodup_iff.2 (Finset.sort_nodup _ _), ?_⟩
    · intro id h1 h2
      exact Finset.disjoint_left.1 hok.puback_pubrec ((m₁ id).1 h1) ((m₂ id).1 h2)
    · intro id h12 h3
      rcases List.mem_append.1 h12 with h1 | h2
      · exact Finset.disjoint_left.1 hok.puback_pubcomp ((m₁ id).1 h1) ((m₃ id).1 h3)
      · exact Finset.disjoint_left.1 hok.pubrec_pubcomp ((m₂ id).1 h2) ((m₃ id).1 h3)
  · ext id
    simp only [List.mem_toFinset, List.mem_append, m₁, m₂, m₃, idsInUse, Finset.mem_union]

theorem resentItems_length (ord : Orders) {s : Session} (hok : IdsOk s) :
    (s.resentItems ord).length = s.inflightCount := by
  obtain ⟨ids, he, hnd, hids⟩ := resentItems_tells ord hok
  have hlen := congrArg List.length he
  rw [List.length_map, List.length_map] at hlen
  rw [hlen, inflightCount_eq_card hok, ← hids, List.toFinset_card_of_nodup hnd]

theorem resentItems_nodup (ord : Orders) {s : Session} (hok : IdsOk s) : (s.resentItems ord).Nodup := by
  obtain ⟨ids, he, hnd, -⟩ := resentItems_tells ord hok
  refine List.Nodup.of_map Outgoing.tells ?_
  rw [he]
  exact hnd.map (Option.some_injective _)

/-! ## What a new channel holds afterwards -/

/-- A full channel stays as it is. -/
theorem flushQueue_full (P : Protocol) (now : Nat) {s : Session} {tx : OutTx} (hout : s.out = some tx)
    (hfull : tx.hasRoom = false) : (flushQueue P now s).1.out = some tx := by
  obtain ⟨q, s', he, hs'⟩ := flushLoop_rule P now (fun _ s _ => s.out = some tx) (fun _ _ _ h => h)
    (fun _ _ _ _ _ h => h) (fun _ _ _ _ _ h => h) (fun _ _ _ _ _ _ _ hl h => by
      obtain ⟨tx', htx', hroom, -⟩ := hl.out
      rw [h] at htx'
      cases htx'
      rw [hfull] at hroom
      cases hroom) s.queue s [] hout
  rw [flushQueue, he]
  exact hs'

/-- Every id in flight has been told on the channel. -/
def AllTold (s : Session) : Prop :=
  ∃ tx, s.out = some tx ∧ ∀ id ∈ s.idsInUse, ∃ item ∈ tx.sent, item.tells = some id

theorem AllTold.flushQueue {s : Session} (P : Protocol) (now : Nat) (h : AllTold s) (hok : IdsOk s) :
    AllTold (flushQueue P now s).1 := by
  obtain ⟨q, s', he, hs', -⟩ := flushLoop_rule P now
    (fun q s _ => AllTold s ∧ ∀ p ∈ q, p.qos ≠ .atMostOnce) (fun _ _ _ h => h)
    (fun _ _ _ _ _ h => ⟨h.1, (List.forall_mem_cons.1 h.2).2⟩)
    (fun _ _ _ _ _ h => ⟨h.1, (List.forall_mem_cons.1 h.2).2⟩)
    (fun p q s fs id s' _ hl h => by
      obtain ⟨⟨tx, htx, htold⟩, hq⟩ := h
      obtain ⟨hp, hq⟩ := List.forall_mem_cons.1 hq
      obtain ⟨tx', htx', -, hout⟩ := hl.out
      rw [htx] at htx'
      cases htx'
      refine ⟨⟨_, hout, fun x hx => ?_⟩, hq⟩
      rw [hl.idsInUse hp, Finset.mem_insert] at hx
      -- a new id is told by the PUBLISH itself
      rcases hx with rfl | hx
      · refine ⟨.send (p.render now x), by simp, ?_⟩
        simp [Outgoing.tells, Outgoing.publishId, Pending.render, Message.toPublish, hp]
      · obtain ⟨item, hi, ht⟩ := htold x hx
        exact ⟨item, by simp [hi], ht⟩) s.queue s [] ⟨h, hok.queue⟩
  rw [WispMQ.flushQueue, he]
  exact hs'

theorem retransmit_out (ord : Orders) {s : Session} (hout : s.out = some {}) :
    (s.retransmit ord).out = some { sent := (s.resentItems ord).take outboundChannelCapacity } := by
  have h := pushAll_take (s.resentItems ord) hout (by simp)
  rwa [← retransmit_eq, List.nil_append] at h

/-- What a takeover pushes: as much of what is in flight as the new channel holds, then queued entries. -/
theorem resume_out (P : Protocol) (now : Nat) (ord : Orders) (cfg : Config) (acl : Acl) (req : ConnectRequest)
    (epoch : Nat) (s : Session) (hout : req.out = {}) :
    ∃ tx items, (s.apply P (.resume now ord cfg acl req epoch)).1.out = some tx ∧
      tx.sent = ((s.resumeBound P now cfg acl req epoch).resentItems ord).take outboundChannelCapacity ++ items ∧
      ∀ i ∈ items, (s.resumeBound P now cfg acl req epoch).Flushes P now i := by
  set s₁ := s.resumeBound P now cfg acl req epoch with hs₁
  have hb : s₁.out = some {} := by rw [hs₁, resumeBound_out, hout]
  have hon : s₁.isOnline := by simp [isOnline, hb]
  have hext : Extends ((s₁.resentItems ord).take outboundChannelCapacity) (s₁.retransmit ord) :=
    ⟨_, retransmit_out ord hb, List.prefix_rfl⟩
  obtain ⟨tx, htx, -⟩ := hext.flushQueue P now
  obtain ⟨tx₀, items, htx₀, hsent, hi⟩ := flushQueue_grows (P := P) now (s₁.retransmit ord) tx htx
  rw [retransmit_out ord hb] at htx₀
  cases htx₀
  refine ⟨tx, items, ?_, hsent, fun i hmem => ?_⟩
  · rw [apply, resumeDelivery, ← hs₁, if_pos hon]
    exact htx
  · obtain ⟨p, hp, id, he, hexp, hsize⟩ := hi i hmem
    rw [(retransmit_sameOutbound ord s₁).queue] at hp
    rw [oversized, (retransmit_sameRecord ord s₁).maxPacketSize] at hsize
    exact ⟨p, hp, id, he, hexp, hsize⟩

/-- All that is in flight has been re-sent on the channel. -/
structure Redelivered (s : Session) (tx : OutTx) : Prop where
  puback : ∀ id p, s.awaitingPuback.lookup id = some p → dupItem p ∈ tx.sent
  pubrec : ∀ id p, s.awaitingPubrec.lookup id = some p → dupItem p ∈ tx.sent
  pubcomp : ∀ id ∈ s.awaitingPubcomp, relItem id ∈ tx.sent

theorem mem_values_of_lookup {m : KeyMap Nat Publish} {id : Nat} {p : Publish} (h : m.lookup id = some p) :
    p ∈ values m :=
  List.mem_map.2 ⟨⟨id, p⟩, mem_entries_iff.2 h, rfl⟩

theorem lookup_of_mem_values {m : KeyMap Nat Publish} {p : Publish} (h : p ∈ values m) :
    ∃ id, m.lookup id = some p := by
  obtain ⟨⟨id, _⟩, he, rfl⟩ := List.mem_map.1 h
  exact ⟨id, mem_entries_iff.1 he⟩

theorem redelivered_iff (ord : Orders) (s : Session) (tx : OutTx) :
    s.Redelivered tx ↔ ∀ item ∈ s.resentItems ord, item ∈ tx.sent := by
  constructor
  · intro h item hitem
    simp only [resentItems, List.mem_append, List.mem_map, mem_reorder] at hitem
    rcases hitem with (⟨p, hp, rfl⟩ | ⟨p, hp, rfl⟩) | ⟨id, hid, rfl⟩
    · obtain ⟨id, hid⟩ := lookup_of_mem_values hp
      exact h.puback id p hid
    · obtain ⟨id, hid⟩ := lookup_of_mem_values hp
      exact h.pubrec id p hid
    · exact h.pubcomp id ((Finset.mem_sort _).1 hid)
  · intro h
    refine ⟨fun id p hp => h _ ?_, fun id p hp => h _ ?_, fun id hid => h _ ?_⟩
    · simp only [resentItems, List.mem_append, List.mem_map, mem_reorder]
      exact .inl (.inl ⟨p, mem_values_of_lookup hp, rfl⟩)
    · simp only [resentItems, List.mem_append, List.mem_map, mem_reorder]
      exact .inl (.inr ⟨p, mem_values_of_lookup hp, rfl⟩)
    · simp only [resentItems, List.mem_append, List.mem_map, mem_reorder]
      exact .inr ⟨id, (Finset.mem_sort _).2 hid, rfl⟩

/-- On a new channel, `resume_delivery` re-sends all that is in flight exactly if the channel can hold it; then no
id in flight is left untold. -/
theorem resumeDelivery_redelivered_iff (P : Protocol) (now : Nat) (ord : Orders) {s : Session} (hok : IdsOk s)
    (hout : s.out = some {}) :
    (∃ tx, (resumeDelivery P now ord s).1.out = some tx ∧ s.Redelivered tx ∧
      ∀ id ∈ (resumeDelivery P now ord s).1.idsInUse, ∃ item ∈ tx.sent, item.tells = some id) ↔
    s.inflightCount ≤ outboundChannelCapacity := by
  have hon : s.isOnline := by simp [isOnline, hout]
  have hres : resumeDelivery P now ord s = flushQueue P now (s.retransmit ord) := by
    simp only [resumeDelivery, hon, if_true]
  have hout' := retransmit_out ord hout
  have hlen := resentItems_length ord hok
  rw [hres]
  constructor
  · rintro ⟨tx, htx, hred, -⟩
    by_contra hmany
    -- the channel is full after the first `outboundChannelCapacity` items, so the next one is missing
    have hfull : ({ sent := (s.resentItems ord).take outboundChannelCapacity } : OutTx).hasRoom = false := by
      simp [OutTx.hasRoom, List.length_take, hlen]
      omega
    rw [flushQueue_full P now hout' hfull] at htx
    cases htx
    have hlt : outboundChannelCapacity < (s.resentItems ord).length := by omega
    have hmem := (redelivered_iff ord s _).1 hred _ (List.getElem_mem hlt)
    obtain ⟨i, hi, he⟩ := List.mem_iff_getElem.1 hmem
    rw [List.getElem_take] at he
    have hi' := (List.Nodup.getElem_inj_iff (resentItems_nodup ord hok)).1 he
    simp only [List.length_take] at hi
    omega
  · intro hfew
    rw [List.take_of_length_le (by omega)] at hout'
    have e := retransmit_sameOutbound ord s
    have htold : AllTold (s.retransmit ord) := by
      refine ⟨_, hout', fun id hid => ?_⟩
      rw [idsInUse, e.puback, e.pubrec, e.pubcomp, ← idsInUse] at hid
      obtain ⟨ids, he, -, hids⟩ := resentItems_tells ord hok
      rw [← hids, List.mem_toFinset] at hid
      have hmem : some id ∈ (s.resentItems ord).map Outgoing.tells := he ▸ List.mem_map_of_mem hid
      exact List.mem_map.1 hmem
    obtain ⟨tx, htx, hall⟩ := htold.flushQueue P now (hok.congr e)
    refine ⟨tx, htx, (redelivered_iff ord s tx).2 fun item hi => ?_, hall⟩
    have hext : Extends (s.resentItems ord) (s.retransmit ord) := ⟨_, hout', List.prefix_rfl⟩
    obtain ⟨tx', htx', hpre⟩ := hext.flushQueue P now
    rw [htx] at htx'
    cases htx'
    exact hpre.subset hi

end Session

/-! ## Every accepted CONNECT -/

namespace World
open Broker
variable {P : Protocol} {w : World} {l : Label} {req : ConnectRequest} {s : Session}

/-- A CONNECT that finds a session and keeps it resumes it. -/
theorem step_resumed (hsel : w.selected l.input = some (.connect req)) (hclean : req.connect.cleanStart = false)
    (hs : w.broker.sessions.lookup req.clientId = some s) :
    (step P w l).1.broker.sessions.lookup req.clientId =
      some (s.apply P (.resume l.now l.ord w.broker.config w.broker.acl req w.broker.nextEpoch)).1 := by
  have hp : (w.broker.claimed req).2 = true := by simp [claimed, hclean, hs]
  rw [← fleet_session, (step_of_selected hsel).1, runTask, finishConnect_moves, connectMove, hp, if_pos rfl,
    Fleet.apply_op (f := w.broker.fleet) hs]
  exact Function.update_self _ _ _

/-- One resuming CONNECT on a new channel. -/
theorem step_redelivered_iff (hsel : w.selected l.input = some (.connect req)) (hout : req.out = {})
    (hclean : req.connect.cleanStart = false) (hs : w.broker.sessions.lookup req.clientId = some s) (hok : s.IdsOk)
    (hid : identityChanged s.identity req.identity = false) :
    (∃ s' tx, (step P w l).1.broker.sessions.lookup req.clientId = some s' ∧ s'.out = some tx ∧ s.Redelivered tx ∧
      ∀ id ∈ s'.idsInUse, ∃ item ∈ tx.sent, item.tells = some id) ↔ s.inflightCount ≤ outboundChannelCapacity := by
  rw [step_resumed hsel hclean hs]
  set s₁ := s.resumeBound P l.now w.broker.config w.broker.acl req w.broker.nextEpoch with hs₁
  have e : s.SameOutbound s₁ := by
    have := Session.resumeBound_outbound P l.now w.broker.config w.broker.acl req w.broker.nextEpoch s
    simpa only [hid, Bool.false_eq_true, if_false] using this
  have hred : ∀ tx, s₁.Redelivered tx ↔ s.Redelivered tx := by
    intro tx
    rw [Session.redelivered_iff l.ord, Session.redelivered_iff l.ord, Session.resentItems, Session.resentItems, e.puback,
      e.pubrec, e.pubcomp]
  have h := Session.resumeDelivery_redelivered_iff P l.now l.ord (s := s₁) (hok.congr e)
    (by rw [hs₁, Session.resumeBound_out, hout])
  simp only [hred] at h
  rw [← e.inflightCount, ← h]
  simp only [Session.apply, Option.some.injEq, exists_and_left, exists_eq_left', ← hs₁]

/-- **Complete redelivery**: in every reachable state, a CONNECT that resumes a session of the same owner finds,
when `handle_connect` returns, everything that was in flight re-sent on its channel and every id in flight told
there, if and only if no more was in flight than the channel holds. -/
theorem redelivery_complete_iff (P : Protocol) (now : Nat) (cfg : Config) (db : Db) (acl : Acl)
    (auth : Option Credentials) (ls : List Label) (l : Label) (req : ConnectRequest) (s : Session)
    (hsel : (run P (boot P now cfg db acl auth) ls).1.selected l.input = some (.connect req))
    (hclean : req.connect.cleanStart = false)
    (hs : (run P (boot P now cfg db acl auth) ls).1.broker.sessions.lookup req.clientId = some s)
    (hid : identityChanged s.identity req.identity = false) :
    (∃ s' tx, (step P (run P (boot P now cfg db acl auth) ls).1 l).1.broker.sessions.lookup req.clientId = some s' ∧
      s'.out = some tx ∧ s.Redelivered tx ∧ ∀ id ∈ s'.idsInUse, ∃ item ∈ tx.sent, item.tells = some id) ↔
    s.inflightCount ≤ outboundChannelCapacity :=
  step_redelivered_iff hsel (run_connect hsel).1 hclean hs
    (run_idsOk P (boot_idsOk P now cfg db acl auth) ls req.clientId s hs) hid

end World

/-! ## Filling a channel -/

/-- The session of a first connection with the default limits, `a` ids in flight and `k` items in its channel. -/
structure Session.Filling (a k : Nat) (s : Session) : Prop where
  epoch : s.epoch = 1
  identity : s.identity = none
  ids : s.IdsOk
  inflight : s.inflightCount = a
  receiveMaximum : s.clientReceiveMaximum = 65535
  maxPacketSize : s.clientMaxPacketSize = none
  channel : ∃ tx, s.out = some tx ∧ tx.rxOpen = true ∧ tx.capacity = outboundChannelCapacity ∧
    tx.sent.length = tx.received + k

namespace Session.Filling
variable {a k : Nat} {s s' : Session}

theorem room (h : Filling a k s) : s.out.any OutTx.hasRoom = true ↔ k < outboundChannelCapacity := by
  obtain ⟨tx, htx, hopen, hcap, hlen⟩ := h.channel
  simp [htx, OutTx.hasRoom, hopen, hcap, hlen]

theorem congr (h : Filling a k s) (e : s.SameOutbound s') (b : s.SameBinding s') (hout : s'.out = s.out) :
    Filling a k s' where
  epoch := b.epoch.trans h.epoch
  identity := b.identity.trans h.identity
  ids := h.ids.congr e
  inflight := e.inflightCount.trans h.inflight
  receiveMaximum := b.receiveMaximum.trans h.receiveMaximum
  maxPacketSize := b.maxPacketSize.trans h.maxPacketSize
  channel := hout ▸ h.channel

theorem control (h : Filling a k s) (hk : k < outboundChannelCapacity) (p : Packet) :
    Filling a (k + 1) (s.push (.control p)) := by
  have e := push_sameOutbound s (.control p)
  have r := SameRecord.push s (.control p)
  have hroom := h.room.2 hk
  obtain ⟨tx, htx, hopen, hcap, hlen⟩ := h.channel
  have hr : tx.hasRoom = true := by simpa [htx] using hroom
  refine ⟨r.epoch.trans h.epoch, r.identity.trans h.identity, h.ids.congr e, e.inflightCount.trans h.inflight,
    r.receiveMaximum.trans h.receiveMaximum, r.maxPacketSize.trans h.maxPacketSize, { tx with sent := tx.sent ++ [.control p] }, ?_, hopen, hcap, ?_⟩
  · simp [push, trySend, htx, OutTx.trySend, hr]
  · simp only [List.length_append, List.length_singleton]
    omega

/-- One more message is in flight and in the channel. -/
theorem deliver (P : Protocol) (h : Filling a k s) (ha : a < 65535) (hk : k < outboundChannelCapacity) (now : Nat)
    {m : Message} (hm : m.isExpired now = false) (qos : QoS) (hq : qos ≠ .atMostOnce) (retain : Bool)
    (subIds : List Nat) (maxQueued : Nat) :
    Filling (a + 1) (k + 1) (deliverToSession P now s m qos retain subIds maxQueued).1 := by
  have hw : s.windowOpen := by
    rw [windowOpen, h.inflight, h.receiveMaximum]
    exact decide_eq_true ha
  obtain ⟨id, s', hsend, hl⟩ := sendNow_launched now ⟨m, qos, retain, subIds⟩ h.ids
    (by rw [h.receiveMaximum]) hw (h.room.2 hk)
  have hd : (deliverToSession P now s m qos retain subIds maxQueued).1 = s' := by
    cases qos with
    | atMostOnce => exact absurd rfl hq
    | _ => simp [deliverToSession, WispMQ.deliver, hm, oversized, h.maxPacketSize, hsend]
  rw [hd]
  have hfresh : id ∉ s.idsInUse := by
    rw [← idInUse_iff, (nextId_fresh h.ids.next hl.fresh).1]
    simp
  have hids := h.ids.launched hq hl
  obtain ⟨tx, htx, -, hout⟩ := hl.out
  obtain ⟨tx', htx', hopen, hcap, hlen⟩ := h.channel
  rw [htx] at htx'
  cases htx'
  have r := SameRecord.launched hl
  refine ⟨r.epoch.trans h.epoch, r.identity.trans h.identity, hids, ?_, r.receiveMaximum.trans h.receiveMaximum,
    r.maxPacketSize.trans h.maxPacketSize, _, hout, hopen, hcap, ?_⟩
  · rw [inflightCount_eq_card hids, hl.idsInUse hq, Finset.card_insert_of_notMem hfresh, ← inflightCount_eq_card h.ids,
      h.inflight]
  · simp only [List.length_append, List.length_singleton]
    omega

/-- `n` retained deliveries, while window and channel last. -/
theorem deliverRetained (P : Protocol) (now maxQueued : Nat) {m : Message} (hm : m.isExpired now = false) :
    ∀ (n : Nat) {a k : Nat} {s : Session} (d : Nat), Filling a k s → a + n ≤ 65535 → k + n ≤ outboundChannelCapacity →
      Filling (a + n) (k + n) ((List.replicate n (m, QoS.atLeastOnce, ([] : List Nat))).foldl
        (Broker.deliverRetained P now maxQueued) (s, d)).1
  | 0, _, _, _, _, h, _, _ => h
  | n + 1, a, k, s, d, h, ha, hk => by
    have h1 := h.deliver P (by omega) (by omega) now hm .atLeastOnce (by simp) true [] maxQueued
    have ih := deliverRetained P now maxQueued hm n (d + (deliverToSession P now s m .atLeastOnce true [] maxQueued).2.toNat)
      h1 (by omega) (by omega)
    rw [Nat.add_assoc, Nat.add_assoc, Nat.add_comm 1 n] at ih
    exact ih

end Session.Filling

namespace World
open Broker

/-- A retained QoS 1 message. -/
def floodMessage : Message := { topic := "t", payload := [1], qos := .atLeastOnce, retain := true }

/-- Tables that hold it and nothing else. -/
def floodDb : Db := { retained := (∅ : KeyMap String RetainedRow).insert "t" (floodMessage.toRow .reference) }

/-- A SUBSCRIBE that names its filter `n` times and so asks for the message `n` times. -/
def floodSubscribe (n : Nat) : Subscribe := ⟨1, List.replicate n { filter := "t", qos := .atLeastOnce }, []⟩

/-- A broker on these tables and its client, with `a` ids in flight and `k` items in the channel. -/
structure Flooded (a k : Nat) (w : World) : Prop where
  tasks : w.tasks = []
  retained : w.broker.retained.entries = [⟨"t", floodMessage⟩]
  acl : w.broker.acl = .permitAll
  config : w.broker.config = {}
  auth : w.broker.auth.isNone
  session : ∃ s, w.broker.sessions.lookup "c" = some s ∧ s.Filling a k

theorem upsertSubscription_eq (s : Session) (sub : Subscription) :
    (s.upsertSubscription sub).1 = { s with subscriptions := (s.upsertSubscription sub).1.subscriptions } := by
  unfold Session.upsertSubscription
  split <;> rfl

theorem subscribeFilter_flood {b : Broker} (hret : b.retained.entries = [⟨"t", floodMessage⟩])
    (hacl : b.acl = .permitAll) (hcfg : b.config = {}) (acc : SubscribeAcc) :
    (∃ sub, (subscribeFilter .reference 0 {} b "c" none acc { filter := "t", qos := .atLeastOnce }).session =
      (acc.session.upsertSubscription sub).1) ∧
    (subscribeFilter .reference 0 {} b "c" none acc { filter := "t", qos := .atLeastOnce }).retainedToSend =
      acc.retainedToSend ++ [(floodMessage, .atLeastOnce, [])] := by
  have hvalid : Protocol.reference.validTopicFilter (stripShareForValidation "t") = true := by decide
  have hparse : Protocol.reference.parseFilter "t" = some ⟨none, "t"⟩ := by decide
  have hmatch : b.retainedMatches .reference 0 {} "t" .atLeastOnce none = [(floodMessage, .atLeastOnce, [])] := by
    rw [retainedMatches, hret]
    decide
  have hgrant : QoS.atLeastOnce.min QoS.exactlyOnce = .atLeastOnce := rfl
  simp only [subscribeFilter, hvalid, hparse, hacl, hcfg, Acl.permitAll, Acl.isEnforced, Bool.not_true, Bool.false_eq_true,
    if_false, Bool.false_and, hgrant, hmatch, sendsRetained, Option.isNone_none, Bool.true_and, if_true]
  exact ⟨⟨_, rfl⟩, trivial⟩

theorem subscribe_flood {b : Broker} (hret : b.retained.entries = [⟨"t", floodMessage⟩])
    (hacl : b.acl = .permitAll) (hcfg : b.config = {}) : ∀ (n : Nat) (acc : SubscribeAcc),
    (∃ subs, ((List.replicate n ({ filter := "t", qos := .atLeastOnce } : TopicFilter)).foldl
        (subscribeFilter .reference 0 {} b "c" none) acc).session = { acc.session with subscriptions := subs }) ∧
      ((List.replicate n ({ filter := "t", qos := .atLeastOnce } : TopicFilter)).foldl
        (subscribeFilter .reference 0 {} b "c" none) acc).retainedToSend =
          acc.retainedToSend ++ List.replicate n (floodMessage, .atLeastOnce, [])
  | 0, acc => ⟨⟨acc.session.subscriptions, rfl⟩, by simp⟩
  | n + 1, acc => by
    obtain ⟨⟨sub, h1⟩, h2⟩ := subscribeFilter_flood hret hacl hcfg acc
    obtain ⟨⟨subs, hs⟩, hr⟩ := subscribe_flood hret hacl hcfg n
      (subscribeFilter .reference 0 {} b "c" none acc { filter := "t", qos := .atLeastOnce })
    rw [h1, upsertSubscription_eq] at hs
    rw [h2, List.append_assoc, List.singleton_append, ← List.replicate_succ] at hr
    exact ⟨⟨subs, hs⟩, hr⟩

/-- The SUBSCRIBE sends its SUBACK and the message `n` times. -/
theorem Flooded.subscribe {w : World} {a k : Nat} (h : Flooded a k w) (n : Nat) (ha : a + n ≤ 65535)
    (hk : k + 1 + n ≤ outboundChannelCapacity) :
    Flooded (a + n) (k + 1 + n) (run .reference w (sending "c" 1 (.subscribe (floodSubscribe n)))).1 := by
  obtain ⟨s, hs, hf⟩ := h.session
  have he := hf.epoch
  have h1 : World.step .reference w { input := .call (.packet "c" 1 (.subscribe (floodSubscribe n))) } =
      ({ w with tasks := [.dispatch "c" 1 (.subscribe (floodSubscribe n))] }, []) := by
    simp [World.step, absorb, enter, handlePacket, hs, he, h.tasks]
  obtain ⟨⟨subs, hsubs⟩, hret⟩ := subscribe_flood h.retained h.acl h.config n { session := s }
  set acc := (List.replicate n ({ filter := "t", qos := .atLeastOnce } : TopicFilter)).foldl
    (subscribeFilter .reference 0 {} w.broker "c" none) { session := s } with hacc
  have hf1 : acc.session.Filling a k := by
    rw [hsubs]
    exact hf.congr ⟨rfl, rfl, rfl, rfl, rfl⟩ ⟨rfl, rfl, rfl, rfl, rfl, rfl⟩ rfl
  have hf2 := hf1.control (by omega) (.suback ⟨1, acc.reasonCodes⟩)
  have hf3 := hf2.deliverRetained .reference 0 1000 (m := floodMessage) (by decide) n 0 ha (by omega)
  set r := (List.replicate n (floodMessage, QoS.atLeastOnce, ([] : List Nat))).foldl
    (Broker.deliverRetained .reference 0 1000) (acc.session.push (.control (.suback ⟨1, acc.reasonCodes⟩)), 0) with hr
  have h2 : (World.step .reference { w with tasks := [.dispatch "c" 1 (.subscribe (floodSubscribe n))] }
      { input := .task 0 }).1 = { w with broker := (w.broker.setSession "c" r.1).addDropped r.2 } := by
    simp only [World.step, selected, List.getElem?_cons_zero, Task.due, Nat.zero_le, decide_true, Option.filter_some,
      if_true, absorb, runTask, dispatch, handleSubscribe, fenced, hs, he, floodSubscribe, List.head?_nil, ← hacc, hret,
      h.config, List.nil_append, ← hr, List.eraseIdx_zero, List.tail_cons, List.append_nil, h.tasks]
  have hrun : (run .reference w (sending "c" 1 (.subscribe (floodSubscribe n)))).1 =
      { w with broker := (w.broker.setSession "c" r.1).addDropped r.2 } := by
    simp only [run, sending, Machine.run, h1, h2]
  rw [hrun]
  refine ⟨h.tasks, h.retained, h.acl, h.config, h.auth, r.1, ?_, hf3⟩
  simp [addDropped, setSession]

/-- The connection task takes `n` items. -/
theorem Flooded.recv {a : Nat} : ∀ (n : Nat) {k : Nat} {w : World}, Flooded a (k + n) w →
    Flooded a k (run .reference w (List.replicate n { input := .recv "c" 1 })).1
  | 0, _, _, h => h
  | n + 1, k, w, h => by
    rw [List.replicate_succ, run, Machine.run]
    refine Flooded.recv n ?_
    obtain ⟨s, hs, hf⟩ := h.session
    obtain ⟨tx, htx, hopen, hcap, hlen⟩ := hf.channel
    have hstep : (World.step .reference w { input := .recv "c" 1 }).1 =
        { w with broker := w.broker.setSession "c" { s with out := some { tx with received := tx.received + 1 } } } := by
      have hlt : tx.received < tx.sent.length := by omega
      simp [World.step, modifySession, hs, Session.onChannel, hf.epoch, htx, OutTx.recv, hlt]
    rw [hstep]
    refine ⟨h.tasks, h.retained, h.acl, h.config, h.auth, { s with out := some { tx with received := tx.received + 1 } }, ?_, ?_⟩
    · simp [setSession]
    · exact ⟨hf.epoch, hf.identity, hf.ids.congr ⟨rfl, rfl, rfl, rfl, rfl⟩, hf.inflight, hf.receiveMaximum, hf.maxPacketSize,
        _, rfl, hopen, hcap, by simp only; omega⟩

/-- The client connects. -/
def floodStart : List Label := connecting { clientId := "c", cleanStart := true, sessionExpiryInterval := some 60 }

theorem flooded_start : Flooded 0 0 (run .reference (boot .reference 0 {} floodDb .permitAll none) floodStart).1 where
  tasks := by decide
  retained := by decide
  acl := by decide
  config := by decide
  auth := by decide
  session := by
    set w := (run .reference (boot .reference 0 {} floodDb .permitAll none) floodStart).1 with hw
    have h : (w.broker.sessions.lookup "c").any (fun s => s.epoch = 1 ∧ s.identity = none ∧ s.inflightCount = 0 ∧
        s.clientReceiveMaximum = 65535 ∧ s.clientMaxPacketSize = none ∧ s.out = some {}) = true := by decide
    obtain ⟨s, hs, h⟩ := (Option.any_eq_true _ _).1 h
    obtain ⟨h1, h2, h3, h4, h5, h6⟩ := of_decide_eq_true h
    exact ⟨s, hs, h1, h2, run_idsOk .reference (boot_idsOk .reference 0 {} floodDb .permitAll none) floodStart "c" s hs,
      h3, h4, h5, {}, h6, rfl, rfl, rfl⟩

/-- The client connects again. -/
def reconnect : Label :=
  { input := .call (.connect { clientId := "c", cleanStart := false, sessionExpiryInterval := some 60 } none) }

/-- The request that waits then. -/
def floodRequest : ConnectRequest :=
  ⟨{ clientId := "c", cleanStart := false, sessionExpiryInterval := some 60 }, .v5, none, "c", false, {}⟩

theorem startConnect_flood {b : Broker} (h : b.auth = none) :
    startConnect .reference 0 b { clientId := "c", cleanStart := false, sessionExpiryInterval := some 60 } {} none =
      { broker := b, tasks := [.connect floodRequest] } := by
  unfold startConnect authenticate
  rw [h]
  rfl

theorem Flooded.reconnect {w : World} {a k : Nat} (h : Flooded a k w) :
    (run .reference w [World.reconnect]).1 = { w with tasks := [.connect floodRequest] } := by
  simp only [run, Machine.run, World.step, World.reconnect, enter, startConnect_flood (Option.isNone_iff_eq_none.1 h.auth),
    absorb, h.tasks, List.nil_append]

/-- Twice a thousand messages, the first thousand drained in between. -/
def flooding : List Label :=
  floodStart ++ sending "c" 1 (.subscribe (floodSubscribe 1000)) ++ List.replicate 1001 { input := .recv "c" 1 } ++
  sending "c" 1 (.subscribe (floodSubscribe 1000))

theorem flooded_twice : Flooded 2000 1001 (run .reference (boot .reference 0 {} floodDb .permitAll none) flooding).1 := by
  simp only [flooding, run_append]
  have h1 := flooded_start.subscribe 1000 (by decide) (by decide)
  have h2 := Flooded.recv 1001 (k := 0) h1
  exact h2.subscribe 1000 (by decide) (by decide)

/-- Two messages in flight are both re-sent. -/
theorem redelivery_complete_two :
    (run .reference (boot .reference 0 {} {} .permitAll none) (lowering 10)).1.selected (.task 0) =
      some (.connect (loweringRequest 10)) ∧
    ∃ s, (run .reference (boot .reference 0 {} {} .permitAll none) (lowering 10)).1.broker.sessions.lookup "sub" = some s ∧
      s.inflightCount = 2 ∧
      ∃ s' tx, (step .reference (run .reference (boot .reference 0 {} {} .permitAll none) (lowering 10)).1
        { input := .task 0 }).1.broker.sessions.lookup "sub" = some s' ∧
        s'.out = some tx ∧ s.Redelivered tx ∧ ∀ id ∈ s'.idsInUse, ∃ item ∈ tx.sent, item.tells = some id := by
  have hsel : (run .reference (boot .reference 0 {} {} .permitAll none) (lowering 10)).1.selected (.task 0) =
      some (.connect (loweringRequest 10)) := by decide
  have h : ((run .reference (boot .reference 0 {} {} .permitAll none) (lowering 10)).1.broker.sessions.lookup "sub").map
      (fun s => (s.inflightCount, s.identity)) = some (2, none) := by decide
  obtain ⟨s, hs, h⟩ := Option.map_eq_some_iff.1 h
  simp only [Prod.mk.injEq] at h
  refine ⟨hsel, s, hs, h.1, (redelivery_complete_iff .reference 0 {} {} .permitAll none (lowering 10)
    { input := .task 0 } (loweringRequest 10) s hsel rfl hs ?_).2 ?_⟩
  · rw [h.2]; rfl
  · rw [h.1]; decide

/-- The reconnecting client's session after `ls` has everything re-sent. -/
def RedeliversAfter (ls : List Label) (s : Session) : Prop :=
  ∃ s' tx, (step .reference (run .reference (boot .reference 0 {} floodDb .permitAll none) (ls ++ [reconnect])).1
    { input := .task 0 }).1.broker.sessions.lookup "c" = some s' ∧
    s'.out = some tx ∧ s.Redelivered tx ∧ ∀ id ∈ s'.idsInUse, ∃ item ∈ tx.sent, item.tells = some id

theorem Flooded.cut {ls : List Label} {a k : Nat}
    (h : Flooded a k (run .reference (boot .reference 0 {} floodDb .permitAll none) ls).1)
    (ha : outboundChannelCapacity < a) :
    (run .reference (boot .reference 0 {} floodDb .permitAll none) (ls ++ [World.reconnect])).1.selected (.task 0) =
      some (.connect floodRequest) ∧
    ∃ s, (run .reference (boot .reference 0 {} floodDb .permitAll none) (ls ++ [World.reconnect])).1.broker.sessions.lookup
        "c" = some s ∧
      identityChanged s.identity floodRequest.identity = false ∧ ¬RedeliversAfter ls s := by
  obtain ⟨s, hs, hf⟩ := h.session
  have hlast := h.reconnect
  rw [← run_append] at hlast
  have hsel : (run .reference (boot .reference 0 {} floodDb .permitAll none) (ls ++ [World.reconnect])).1.selected
      (.task 0) = some (.connect floodRequest) := by
    rw [hlast]
    rfl
  have hs' : (run .reference (boot .reference 0 {} floodDb .permitAll none) (ls ++ [World.reconnect])).1.broker.sessions.lookup
      "c" = some s := by rw [hlast]; exact hs
  have hid : identityChanged s.identity floodRequest.identity = false := by rw [hf.identity]; rfl
  refine ⟨hsel, s, hs', hid, fun hred => ?_⟩
  have hle := (step_redelivered_iff (P := .reference) (l := { input := .task 0 }) hsel rfl rfl hs' hf.ids hid).1 hred
  rw [hf.inflight] at hle
  omega

/-- Of two thousand messages in flight only as many are re-sent as the channel holds. -/
theorem redelivery_cut :
    (run .reference (boot .reference 0 {} floodDb .permitAll none) (flooding ++ [reconnect])).1.selected (.task 0) =
      some (.connect floodRequest) ∧
    ∃ s, (run .reference (boot .reference 0 {} floodDb .permitAll none) (flooding ++ [reconnect])).1.broker.sessions.lookup
        "c" = some s ∧
      identityChanged s.identity floodRequest.identity = false ∧ ¬RedeliversAfter flooding s :=
  flooded_twice.cut (by decide)

end World

/-! ## The order of redelivery -/

/-- The packet id of a retransmission. -/
def Outgoing.dupId : Outgoing → Option Nat
  | .send p => if p.dup then p.packetId else none
  | _ => none

/-- The packet ids in flight, in the order in which their PUBLISH packets were first sent. -/
def Ledger.sendOrder (L : Ledger) : List Nat := (L.flight.map (·.1)).reverse

namespace Session

theorem resent_dupIds {m : KeyMap Nat Publish} (hm : ∀ id p, m.lookup id = some p → p.packetId = some id)
    (ks : List Nat) : ((reorder ks (values m)).map dupItem).map Outgoing.dupId = (reorder ks m.keys).map some := by
  have hkeys : m.keys = m.entries.map (·.1) := rfl
  rw [values, hkeys, reorder_map, reorder_map, List.map_map, List.map_map, List.map_map]
  refine List.map_congr_left fun e he => ?_
  have := hm e.1 e.2 (mem_entries_iff.1 (mem_reorder.1 he))
  simp [dupItem, Outgoing.dupId, this]

theorem filterMap_eq_of_map_some {items : List Outgoing} {ids : List Nat}
    (h : items.map Outgoing.dupId = ids.map some) : items.filterMap Outgoing.dupId = ids := by
  have hid : items.filterMap Outgoing.dupId = (items.map Outgoing.dupId).filterMap id := by
    rw [List.filterMap_map]
    rfl
  rw [hid, h, List.filterMap_map]
  exact List.filterMap_some

/-- The retransmissions a takeover pushes: QoS 1 in the order of its map, then QoS 2 in the order of its own. -/
theorem resume_dupIds (P : Protocol) (now : Nat) (ord : Orders) (cfg : Config) (acl : Acl) (req : ConnectRequest)
    (epoch : Nat) {s : Session} (hok : IdsOk s) (hout : req.out = {})
    (hid : Broker.identityChanged s.identity req.identity = false) :
    (s.pushes P (.resume now ord cfg acl req epoch)).filterMap Outgoing.dupId =
      (reorder ord.puback s.awaitingPuback.keys ++ reorder ord.pubrec s.awaitingPubrec.keys).take
        outboundChannelCapacity := by
  obtain ⟨tx, items, htx, hsent, hi⟩ := resume_out P now ord cfg acl req epoch s hout
  have e : s.SameOutbound (s.resumeBound P now cfg acl req epoch) := by
    have := resumeBound_outbound P now cfg acl req epoch s
    simpa only [hid, Bool.false_eq_true, if_false] using this
  have hpushes : s.pushes P (.resume now ord cfg acl req epoch) = tx.sent := by
    simp [pushes, htx, channelFor, hout]
  -- what the flush adds is sent for the first time
  have hfresh : items.filterMap Outgoing.dupId = [] := by
    refine List.filterMap_eq_nil_iff.2 fun i hmem => ?_
    obtain ⟨p, -, id, rfl, -⟩ := hi i hmem
    rfl
  have h1 := resent_dupIds (fun id p h => (hok.puback_entry id p h).2) ord.puback
  have h2 := resent_dupIds (fun id p h => (hok.pubrec_entry id p h).2) ord.pubrec
  have h3 : ∀ (ids : List Nat) (n : Nat), ((ids.map relItem).take n).filterMap Outgoing.dupId = [] := by
    intro ids n
    refine List.filterMap_eq_nil_iff.2 fun i hmem => ?_
    obtain ⟨id, -, rfl⟩ := List.mem_map.1 (List.mem_of_mem_take hmem)
    rfl
  rw [hpushes, hsent, List.filterMap_append, hfresh, List.append_nil, resentItems, e.puback, e.pubrec, e.pubcomp,
    List.take_append, List.filterMap_append, h3, List.append_nil]
  refine filterMap_eq_of_map_some ?_
  rw [List.map_take, List.map_append, h1, h2, List.map_take, List.map_append]

end Session

/-- A list without repetitions holds two elements in one order only. -/
theorem not_both_orders {x y : Nat} : ∀ {l : List Nat}, l.Nodup → [x, y].Sublist l → ¬[y, x].Sublist l
  | [], _, h, _ => by simp at h
  | z :: l, hnd, h1, h2 => by
    rw [List.nodup_cons] at hnd
    rw [List.sublist_cons_iff] at h1 h2
    rcases h1 with h1 | ⟨r, he, h1⟩
    · rcases h2 with h2 | ⟨r, he, -⟩
      · exact not_both_orders hnd.2 h1 h2
      · cases he
        exact hnd.1 (h1.subset (by simp))
    · cases he
      rcases h2 with h2 | ⟨r, he, h2⟩
      · exact hnd.1 (h2.subset (by simp))
      · cases he
        exact hnd.1 (h1.subset (by simp))

theorem eq_singleton_of_mem {K : List Nat} {a : Nat} (h : K.length ≤ 1) (ha : a ∈ K) : K = [a] := by
  cases K with
  | nil => cases ha
  | cons b K =>
    obtain rfl : K = [] := List.length_eq_zero_iff.1 (by simpa using h)
    rw [List.mem_singleton.1 ha]

theorem reorder_short {K : List Nat} (ks : List Nat) (h : K.length ≤ 1) : reorder ks K = K := by
  have hp := reorder_perm ks K
  cases K with
  | nil => exact hp.eq_nil
  | cons a K =>
    obtain rfl : K = [] := List.length_eq_zero_iff.1 (by simpa using h)
    exact List.perm_singleton.1 hp

/-- Two keys at the front of what is pushed come in their order. -/
theorem pair_sublist_take (front : List Nat) (hf : front.length ≤ 1) (x y : Nat) (rest : List Nat) :
    [x, y].Sublist ((front ++ x :: y :: rest).take outboundChannelCapacity) := by
  have hcons : [x, y].Sublist ((x :: y :: rest).take (outboundChannelCapacity - front.length)) := by
    obtain ⟨n, hn⟩ : ∃ n, outboundChannelCapacity - front.length = n + 2 := ⟨1022 - front.length, by
      simp only [outboundChannelCapacity]
      omega⟩
    rw [hn, List.take_succ_cons, List.take_succ_cons]
    exact (List.nil_sublist _).cons_cons y |>.cons_cons x
  rw [List.take_append]
  exact hcons.trans (List.sublist_append_right _ _)

/-- Pushing the keys of two maps, each in any order, follows `l` in every case exactly when there is nothing to choose. -/
theorem all_orders_sublist_iff (K₁ K₂ : List Nat) {l : List Nat} (hl : l.Nodup) (h₁ : ∀ a ∈ K₁, a ∈ l) (h₂ : ∀ b ∈ K₂, b ∈ l) :
    (∀ ord : Orders, ((reorder ord.puback K₁ ++ reorder ord.pubrec K₂).take outboundChannelCapacity).Sublist l) ↔
      K₁.length ≤ 1 ∧ K₂.length ≤ 1 ∧ ∀ a ∈ K₁, ∀ b ∈ K₂, [a, b].Sublist l := by
  constructor
  · intro h
    -- every pair of orders is some pair of iteration orders
    have hany : ∀ l₁ l₂ : List Nat, l₁.Perm K₁ → l₂.Perm K₂ → ((l₁ ++ l₂).take outboundChannelCapacity).Sublist l := by
      intro l₁ l₂ hp₁ hp₂
      obtain ⟨ks₁, rfl⟩ := reorder_surjective l₁ K₁ hp₁
      obtain ⟨ks₂, rfl⟩ := reorder_surjective l₂ K₂ hp₂
      exact h { puback := ks₁, pubrec := ks₂ }
    have hlen₁ : K₁.length ≤ 1 := by
      cases K₁ with
      | nil => simp
      | cons x K => cases K with
        | nil => simp
        | cons y r =>
          refine absurd ((pair_sublist_take [] (by simp) y x (r ++ K₂)).trans ?_)
            (not_both_orders hl ((pair_sublist_take [] (by simp) x y (r ++ K₂)).trans ?_))
          · exact hany (y :: x :: r) K₂ (List.Perm.swap _ _ _) (.refl _)
          · exact hany (x :: y :: r) K₂ (.refl _) (.refl _)
    have hlen₂ : K₂.length ≤ 1 := by
      cases K₂ with
      | nil => simp
      | cons x K => cases K with
        | nil => simp
        | cons y r =>
          refine absurd ((pair_sublist_take K₁ hlen₁ y x r).trans ?_)
            (not_both_orders hl ((pair_sublist_take K₁ hlen₁ x y r).trans ?_))
          · exact hany K₁ (y :: x :: r) (.refl _) (List.Perm.swap _ _ _)
          · exact hany K₁ (x :: y :: r) (.refl _) (.refl _)
    refine ⟨hlen₁, hlen₂, fun a ha b hb => ?_⟩
    obtain rfl : K₁ = [a] := eq_singleton_of_mem hlen₁ ha
    obtain rfl : K₂ = [b] := eq_singleton_of_mem hlen₂ hb
    exact hany [a] [b] (.refl _) (.refl _)
  · rintro ⟨hlen₁, hlen₂, hab⟩ ord
    refine (List.take_sublist _ _).trans ?_
    rw [reorder_short _ hlen₁, reorder_short _ hlen₂]
    rcases K₁.eq_nil_or_concat with rfl | ⟨_, a, rfl⟩
    · rcases K₂.eq_nil_or_concat with rfl | ⟨_, b, rfl⟩
      · simp
      · rw [eq_singleton_of_mem (a := b) hlen₂ (by simp)]
        exact List.singleton_sublist.2 (h₂ b (by simp))
    · rw [eq_singleton_of_mem (a := a) hlen₁ (by simp)]
      rcases K₂.eq_nil_or_concat with rfl | ⟨_, b, rfl⟩
      · exact List.singleton_sublist.2 (h₁ a (by simp))
      · rw [eq_singleton_of_mem (a := b) hlen₂ (by simp)]
        exact hab a (by simp) b (by simp)

/-- **Order of redelivery**: after any run of a session's operations, with its owner unchanged, a takeover re-sends the
unacknowledged QoS 1 packets in the order of their map and then the QoS 2 packets in the order of theirs, as far as
the channel takes them. That is the order of first transmission for every iteration order of the maps exactly
when at most one packet of each QoS is unacknowledged, and the QoS 1 packet was sent before the QoS 2 packet. -/
theorem redelivery_order (P : Protocol) (s₀ : Session) (h₀ : s₀.Blank) (ops : List Op)
    (hown : Machine.Along (account P) SameOwner (s₀, {}) ops) (s : Session) (L : Ledger)
    (hrun : (Machine.run (account P) (s₀, {}) ops).1 = (s, L)) (now : Nat) (cfg : Config) (acl : Acl)
    (req : ConnectRequest) (epoch : Nat) (hout : req.out = {})
    (hid : Broker.identityChanged s.identity req.identity = false) :
    (∀ ord, (s.pushes P (.resume now ord cfg acl req epoch)).filterMap Outgoing.dupId =
      (reorder ord.puback s.awaitingPuback.keys ++ reorder ord.pubrec s.awaitingPubrec.keys).take
        outboundChannelCapacity) ∧
    ((∀ ord, ((s.pushes P (.resume now ord cfg acl req epoch)).filterMap Outgoing.dupId).Sublist L.sendOrder) ↔
      size s.awaitingPuback ≤ 1 ∧ size s.awaitingPubrec ≤ 1 ∧
        ∀ a ∈ s.awaitingPuback, ∀ b ∈ s.awaitingPubrec, [a, b].Sublist L.sendOrder) := by
  have hacc : Accounted (s, L) := hrun ▸ Machine.run_state_invariant (account P) Accounted (account_accounted P)
    (account_start h₀) ops hown
  have hb := hacc.balanced
  have hdup := fun ord => Session.resume_dupIds P now ord cfg acl req epoch hb.ids hout hid
  refine ⟨hdup, ?_⟩
  have hmem : ∀ id, id ∈ L.sendOrder ↔ id ∈ s.idsInUse := fun id => by rw [Ledger.sendOrder, List.mem_reverse, hb.inUse]
  have hall := all_orders_sublist_iff s.awaitingPuback.keys s.awaitingPubrec.keys (l := L.sendOrder)
    (List.nodup_reverse.2 hb.nodup)
    (fun a ha => (hmem a).2 (by simp [Session.idsInUse, AList.mem_keys, ha]))
    (fun b hb' => (hmem b).2 (by simp [Session.idsInUse, AList.mem_keys, hb']))
  have hsize : ∀ m : KeyMap Nat Publish, m.keys.length = size m := fun m => by simp [AList.keys, List.keys, size]
  simp only [hdup, hall, hsize, AList.mem_keys]

/-- A takeover of the session of `"c"`. -/
def takeoverRequest : ConnectRequest := ⟨{ clientId := "c", cleanStart := false }, .v5, none, "c", false, {}⟩

/-- A connection to which two messages are sent with the given QoS. -/
def sendTwo (q₁ q₂ : QoS) : List Op :=
  let m (b : UInt8) : Message := { topic := "t", payload := [b], qos := .exactlyOnce, retain := false }
  [.resume 0 {} {} .permitAll takeoverRequest 1, .deliver 0 (m 1) q₁ false [] 1000, .deliver 0 (m 2) q₂ false [] 1000]

/-- The session and its ledger then. -/
def twoSent (q₁ q₂ : QoS) : Session × Ledger :=
  (Machine.run (account .reference) (Session.new "c" 60, {}) (sendTwo q₁ q₂)).1

theorem redelivery_order_oneEach :
    (twoSent .atLeastOnce .exactlyOnce).1.inflightCount = 2 ∧
    ∀ ord, (((twoSent .atLeastOnce .exactlyOnce).1.pushes .reference
        (.resume 0 ord {} .permitAll takeoverRequest 2)).filterMap Outgoing.dupId).Sublist
      (twoSent .atLeastOnce .exactlyOnce).2.sendOrder := by
  have h1 : (twoSent .atLeastOnce .exactlyOnce).1.awaitingPuback.keys = [1] := by decide +kernel
  have h2 : (twoSent .atLeastOnce .exactlyOnce).1.awaitingPubrec.keys = [2] := by decide +kernel
  refine ⟨by decide +kernel, (redelivery_order .reference (Session.new "c" 60) ⟨rfl, rfl, rfl, rfl, by decide⟩
    (sendTwo .atLeastOnce .exactlyOnce) ⟨rfl, trivial, trivial, trivial⟩ (twoSent .atLeastOnce .exactlyOnce).1
    (twoSent .atLeastOnce .exactlyOnce).2 rfl 0 {} .permitAll takeoverRequest 2 rfl (by decide +kernel)).2.2
    ⟨by decide +kernel, by decide +kernel, fun a ha b hb => ?_⟩⟩
  rw [AList.mem_keys, h1, List.mem_singleton] at ha
  rw [AList.mem_keys, h2, List.mem_singleton] at hb
  rw [ha, hb]
  decide +kernel

/-- Two QoS 1 packets are re-sent in the order of the map, here the later one first. -/
theorem redelivery_reordered :
    Machine.Along (account .reference) SameOwner (Session.new "c" 60, {}) (sendTwo .atLeastOnce .atLeastOnce) ∧
    ¬∀ ord, (((twoSent .atLeastOnce .atLeastOnce).1.pushes .reference
        (.resume 0 ord {} .permitAll takeoverRequest 2)).filterMap Outgoing.dupId).Sublist
      (twoSent .atLeastOnce .atLeastOnce).2.sendOrder := by
  refine ⟨⟨rfl, trivial, trivial, trivial⟩, fun h => ?_⟩
  have h := h {}
  revert h
  decide +kernel

end WispMQ
