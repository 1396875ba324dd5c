import WispMQ.PacketSize
import WispMQ.Untouched
/-!
# The lifetime of a message

A PUBLISH carries what is left of the lifetime of its message at the reading of the clock it is rendered at
(message.rs:56, :77). An unacknowledged PUBLISH is stored as it was rendered and re-sent like that (routing.rs:318-329), at
another reading of the clock.

| here | there |
| --- | --- |
| `Publish.IsFresh`   | `to_publish` of an unexpired message (message.rs:77) |
| `Session.Unacked`   | the PUBLISH packets `resume_delivery` re-sends (routing.rs:318, :324) |
| `World.LastSent`    | which message a PUBLISH in flight was rendered from, and when |
| `World.SentFor`     | which message a PUBLISH that is pushed is sent for |

`run_lastSent` finds the message of every PUBLISH in flight in the history of the run. A fresh PUBLISH keeps the deadline of
its message (`IsFresh.keeps`); one that is re-sent does exactly if no time has passed, or the deadline is so far away that the
interval was cut to 32 bits (`resent_keeps_iff`).
-/

namespace WispMQ
open KeyMap

/-- The packet is rendered from the message at the reading `now`, before its deadline. -/
structure Publish.IsFresh (now : Nat) (m : Message) (p : Publish) : Prop where
  unexpired : m.isExpired now = false
  rendered : ∃ qos id retain subIds, p = m.toPublish now qos id retain subIds

/-- A deadline the packet keeps if it arrives at `now`: what it carries ends by then. -/
def Publish.Keeps (now deadline : Nat) (p : Publish) : Prop :=
  ∃ e, p.properties.messageExpiryInterval = some e ∧ now + e ≤ deadline

namespace Publish.IsFresh
variable {now : Nat} {m : Message} {p : Publish}

theorem dup (h : p.IsFresh now m) : p.dup = false := by
  obtain ⟨qos, id, retain, subIds, rfl⟩ := h.rendered
  rfl

theorem interval (h : p.IsFresh now m) {d : Nat} (hd : m.expiresAt = some d) :
    now < d ∧ p.properties.messageExpiryInterval = some (min (d - now) (2 ^ 32 - 1)) := by
  obtain ⟨qos, id, retain, subIds, rfl⟩ := h.rendered
  have hexp := h.unexpired
  simp only [Message.isExpired, Message.remainingExpiry, hd, Option.map_some] at hexp
  by_cases hle : d ≤ now
  · simp [hle] at hexp
  · refine ⟨by omega, ?_⟩
    simp [Message.toPublish, Message.remainingExpiry, hd, hle]

/-- A fresh packet keeps the deadline of its message. -/
theorem keeps (h : p.IsFresh now m) {d : Nat} (hd : m.expiresAt = some d) : p.Keeps now d := by
  obtain ⟨hlt, he⟩ := h.interval hd
  exact ⟨_, he, by omega⟩

/-- Re-sent at a later reading, it does only if that is the same one, or the deadline is out of reach of the interval. -/
theorem resent_keeps_iff (h : p.IsFresh now m) {d later : Nat} (hd : m.expiresAt = some d) (hlater : now ≤ later) :
    Publish.Keeps later d { p with dup := true } ↔ now = later ∨ later + (2 ^ 32 - 1) ≤ d := by
  obtain ⟨hlt, he⟩ := h.interval hd
  simp only [Keeps, he, Option.some.injEq, exists_eq_left']
  omega

end Publish.IsFresh

namespace Session
variable {P : Protocol} {now : Nat} {s s' s'' : Session}

/-- A PUBLISH in flight. -/
def Unacked (s : Session) (q : Publish) : Prop :=
  ∃ id, s.awaitingPuback.lookup id = some q ∨ s.awaitingPubrec.lookup id = some q

/-- Everything pushed into the channel so far. -/
def channelItems (s : Session) : List Outgoing := s.out.elim [] (·.sent)

/-- The connection of `s` is that of `s'`, which got fresh packets on it, every new one in flight among them. -/
structure SendsFresh (now : Nat) (s s' : Session) : Prop where
  epoch : s'.epoch = s.epoch
  online : s'.isOnline = s.isOnline
  items : ∃ items, s'.channelItems = s.channelItems ++ items ∧ (∀ p, .send p ∈ items → ∃ m, p.IsFresh now m) ∧
    ∀ q, s'.Unacked q → s.Unacked q ∨ .send q ∈ items

theorem unacked_of_maps (hp : s'.awaitingPuback = s.awaitingPuback) (hr : s'.awaitingPubrec = s.awaitingPubrec)
    {q : Publish} (h : s'.Unacked q) : s.Unacked q := by
  rwa [Unacked, hp, hr] at h

theorem SameOutbound.unacked {q : Publish} (h : SameOutbound s s') (hq : s'.Unacked q) : s.Unacked q :=
  unacked_of_maps h.puback h.pubrec hq

namespace SendsFresh

/-- Nothing is pushed, and nothing new is in flight. -/
theorem quiet (he : s'.epoch = s.epoch) (hout : s'.out.map (·.sent) = s.out.map (·.sent))
    (hq : ∀ q, s'.Unacked q → s.Unacked q) : s.SendsFresh now s' := by
  have hitems : s'.channelItems = s.channelItems := by
    unfold channelItems
    cases h : s.out <;> cases h' : s'.out <;> simp_all
  refine ⟨he, ?_, [], by rw [hitems, List.append_nil], by simp, fun q h => .inl (hq q h)⟩
  simpa [isOnline] using congrArg Option.isSome hout

theorem refl (s : Session) : s.SendsFresh now s := quiet rfl rfl fun _ h => h

theorem trans (h : s.SendsFresh now s') (h' : s'.SendsFresh now s'') : s.SendsFresh now s'' := by
  obtain ⟨items, hitems, hfresh, hnew⟩ := h.items
  obtain ⟨items', hitems', hfresh', hnew'⟩ := h'.items
  refine ⟨h'.epoch.trans h.epoch, h'.online.trans h.online, items ++ items',
    by rw [hitems', hitems, List.append_assoc], fun p hp => ?_, fun q hq => ?_⟩
  · rcases List.mem_append.1 hp with hp | hp
    · exact hfresh p hp
    · exact hfresh' p hp
  · rcases hnew' q hq with hq | hq
    · exact (hnew q hq).imp_right fun hq => List.mem_append_left _ hq
    · exact .inr (List.mem_append_right _ hq)

/-- A fresh packet, or no PUBLISH at all, is pushed; nothing new is in flight. -/
theorem trySend {item : Outgoing} (hitem : ∀ p, item = .send p → ∃ m, p.IsFresh now m) (h : s.trySend item = some s') :
    s.SendsFresh now s' := by
  obtain ⟨tx, htx, -, rfl⟩ := trySend_some h
  refine ⟨rfl, by simp [isOnline, htx], [item], by simp [channelItems, htx], fun p hp => ?_, fun q hq => .inl hq⟩
  exact hitem p (List.mem_singleton.1 hp).symm

theorem push {item : Outgoing} (hitem : ∀ p, item = .send p → ∃ m, p.IsFresh now m) : s.SendsFresh now (s.push item) := by
  cases h : s.trySend item with
  | none => rw [Session.push, h]; exact refl s
  | some s' => rw [Session.push, h]; exact trySend hitem h

theorem control (s : Session) (p : Packet) : s.SendsFresh now (s.push (.control p)) := push fun _ h => by cases h

theorem shutdown (s : Session) (rc : ReasonCode) : s.SendsFresh now (s.push (.shutdown rc)) := push fun _ h => by cases h

theorem erasePuback (s : Session) (id : Nat) :
    s.SendsFresh now { s with awaitingPuback := s.awaitingPuback.erase id } := by
  refine quiet rfl rfl fun q hq => ?_
  obtain ⟨x, hx | hx⟩ := hq
  · rw [lookup_erase_if] at hx
    split at hx
    · cases hx
    · exact ⟨x, .inl hx⟩
  · exact ⟨x, .inr hx⟩

theorem erasePubrec (s : Session) (id : Nat) :
    s.SendsFresh now { s with awaitingPubrec := s.awaitingPubrec.erase id } := by
  refine quiet rfl rfl fun q hq => ?_
  obtain ⟨x, hx | hx⟩ := hq
  · exact ⟨x, .inl hx⟩
  · rw [lookup_erase_if] at hx
    split at hx
    · cases hx
    · exact ⟨x, .inr hx⟩

/-- The ids of the second half of a QoS 2 exchange do not matter. -/
theorem setPubcomp (s : Session) (ids : Finset Nat) : s.SendsFresh now { s with awaitingPubcomp := ids } :=
  quiet rfl rfl fun _ h => h

theorem launched {p : Pending} {id : Nat} (hexp : p.message.isExpired now = false) (h : s.Launched now p id s') :
    s.SendsFresh now s' := by
  have hfresh : (p.render now id).IsFresh now p.message := ⟨hexp, p.qos, some id, p.retain, p.subscriptionIds, rfl⟩
  obtain ⟨tx, htx, -, rfl⟩ := h.sent
  have hrecord : ∀ (t : Session) (q : Publish), (t.record p.qos id (p.render now id)).Unacked q →
      t.Unacked q ∨ q = p.render now id := by
    intro t q hq
    cases hqos : p.qos with
    | atMostOnce => exact .inl (by simpa only [record, hqos] using hq)
    | atLeastOnce =>
      simp only [Unacked, record, hqos] at hq
      obtain ⟨x, hx | hx⟩ := hq
      · rw [lookup_insert_if] at hx
        split at hx
        · exact .inr (Option.some.inj hx).symm
        · exact .inl ⟨x, .inl hx⟩
      · exact .inl ⟨x, .inr hx⟩
    | exactlyOnce =>
      simp only [Unacked, record, hqos] at hq
      obtain ⟨x, hx | hx⟩ := hq
      · exact .inl ⟨x, .inl hx⟩
      · rw [lookup_insert_if] at hx
        split at hx
        · exact .inr (Option.some.inj hx).symm
        · exact .inl ⟨x, .inr hx⟩
  refine ⟨by cases p.qos <;> rfl, ?_, [.send (p.render now id)], ?_, fun q hq => ?_, fun q hq => ?_⟩
  · cases p.qos <;> simp [record, isOnline, htx]
  · cases p.qos <;> simp [record, channelItems, htx]
  · cases List.mem_singleton.1 hq
    exact ⟨p.message, hfresh⟩
  · rcases hrecord _ q hq with hq | rfl
    · exact .inl hq
    · exact .inr (List.mem_singleton_self _)

theorem flushQueue (P : Protocol) (now : Nat) (s : Session) : s.SendsFresh now (flushQueue P now s).1 := by
  obtain ⟨q, s', he, hs'⟩ := flushLoop_rule P now (fun _ s' _ => s.SendsFresh now s')
    (fun _ _ _ h => h.trans (quiet rfl rfl fun _ h => h)) (fun _ _ _ _ _ h => h) (fun _ _ _ _ _ h => h)
    (fun _ _ _ _ _ _ hexp hl h => h.trans (launched hexp hl)) s.queue s [] (refl s)
  rw [WispMQ.flushQueue, he]
  exact hs'.trans (quiet rfl rfl fun _ h => h)

theorem deliver (P : Protocol) (now : Nat) (s : Session) (m : Message) (qos : QoS) (retain : Bool) (subIds : List Nat)
    (maxQueued : Nat) : s.SendsFresh now (deliver P now s m qos retain subIds maxQueued).1 := by
  have hd := deliver_delivered P now s m qos retain subIds maxQueued
  have hexpired : m.isExpired now = true → WispMQ.deliver P now s m qos retain subIds maxQueued = (s, .expired) :=
    fun he => by simp [WispMQ.deliver, he]
  cases hexp : m.isExpired now with
  | true => rw [hexpired hexp]; exact refl s
  | false =>
    generalize (WispMQ.deliver P now s m qos retain subIds maxQueued).1 = s',
      (WispMQ.deliver P now s m qos retain subIds maxQueued).2 = fate at hd
    cases hd with
    | expired => exact refl s
    | offline => exact refl s
    | discarded => exact refl s
    | pushed _ h => exact trySend (fun p hp => ⟨m, hexp, _, _, _, _, (Outgoing.send.inj hp).symm⟩) h
    | launched he _ _ hl => exact launched he hl
    | queued _ _ hs =>
      refine quiet ?_ ?_ ?_
      · unfold enqueue
        rcases hs with rfl | rfl <;> split <;> rfl
      · rw [enqueue_out]
        rcases hs with rfl | rfl <;> rfl
      · unfold enqueue
        intro q hq
        rcases hs with rfl | rfl <;> split at hq <;> exact hq

end SendsFresh

/-- **What an operation pushes is fresh**, as long as the connection stays. -/
theorem apply_sends (P : Protocol) (s : Session) {now maxQueued : Nat} {o : Op} (ho : o.steadyAt now maxQueued) :
    s.SendsFresh now (s.apply P o).1 := by
  cases o with
  | deliver now' m qos retain subIds k =>
    obtain ⟨rfl, -⟩ : now' = now ∧ k = maxQueued := by simpa [Op.steadyAt] using ho
    exact SendsFresh.deliver P now' s m qos retain subIds k
  | control p => exact .control s p
  | shutdown rc => exact .shutdown s rc
  | puback now' id =>
    obtain rfl : now' = now := by simpa [Op.steadyAt] using ho
    exact (SendsFresh.erasePuback s id).trans (.flushQueue P now' _)
  | pubcomp now' id =>
    obtain rfl : now' = now := by simpa [Op.steadyAt] using ho
    exact (SendsFresh.setPubcomp s _).trans (.flushQueue P now' { s with awaitingPubcomp := s.awaitingPubcomp.erase id })
  | pubrec ack =>
    have herased : s.SendsFresh now _ := .erasePubrec s ack.packetId
    simp only [apply, pubrec]
    split
    · exact herased
    · split
      · exact (herased.trans (.setPubcomp _ _)).trans (.control _ _)
      · split
        · exact herased
        · exact herased.trans (.control _ _)
  | pubrel id =>
    have hinbound : s.SendsFresh now { s with inboundQos2 := s.inboundQos2.erase id } := .quiet rfl rfl fun _ h => h
    exact hinbound.trans (.control _ _)
  | subscribe sub =>
    simp only [apply, upsertSubscription]
    split <;> exact .quiet rfl rfl fun q hq => hq
  | recv =>
    refine .quiet rfl ?_ fun q hq => hq
    simp only [apply, Option.map_map]
    congr 1
    funext tx
    simp only [Function.comp_apply, OutTx.recv]
    split <;> rfl
  | hangup => exact .quiet rfl (by simp only [apply, Option.map_map]; rfl) fun q hq => hq
  | close => cases ho
  | resume => cases ho
  | _ => exact .quiet rfl rfl fun q hq => hq

/-- A takeover re-sends what is in flight, as far as the new channel takes it, and then fresh packets. -/
theorem resume_sends (P : Protocol) (now : Nat) (ord : Orders) (cfg : Config) (acl : Acl) (req : ConnectRequest)
    (epoch : Nat) (s : Session) (hout : req.out = {}) :
    (s.apply P (.resume now ord cfg acl req epoch)).1.epoch = epoch ∧
      ∃ items, (s.apply P (.resume now ord cfg acl req epoch)).1.channelItems =
          ((s.resumeBound P now cfg acl req epoch).resentItems ord).take outboundChannelCapacity ++ items ∧
        (∀ p, .send p ∈ items → ∃ m, p.IsFresh now m) ∧
        ∀ q, (s.apply P (.resume now ord cfg acl req epoch)).1.Unacked q → s.Unacked q ∨ .send q ∈ items := by
  refine ⟨(apply_resume_binding P now ord cfg acl req epoch s).epoch.trans (resumeBound_epoch ..), ?_⟩
  set s₁ := s.resumeBound P now cfg acl req epoch with hs₁
  have hb : s₁.out = some {} := by rw [hs₁, resumeBound_out, hout]
  have hon : s₁.isOnline := by simp [isOnline, hb]
  have hresent : (s₁.retransmit ord).channelItems = (s₁.resentItems ord).take outboundChannelCapacity := by
    rw [channelItems, retransmit_out ord hb]
    rfl
  obtain ⟨items, hitems, hfresh, hnew⟩ := (SendsFresh.flushQueue P now (s₁.retransmit ord)).items
  simp only [apply, resumeDelivery, ← hs₁, if_pos hon]
  refine ⟨items, by rw [hitems, hresent], hfresh, fun q hq => (hnew q hq).imp_left fun hq => ?_⟩
  have hbound : s₁.Unacked q := SameOutbound.unacked (retransmit_sameOutbound ord s₁) hq
  have h := SameOutbound.unacked (resumeBound_outbound P now cfg acl req epoch s) hbound
  split at h
  · obtain ⟨id, hx | hx⟩ := h <;> simp [clearOwned] at hx
  · exact h

end Session

namespace World
open Broker
variable {P : Protocol} {w : World} {l : Label} {cid : String} {epoch : Nat}

/-! ## One step -/

/-- The PUBLISH packets in flight that the step re-sends to a client: those of a session it takes over for the same owner, as
far as the new channel takes them. -/
def resent (w : World) (l : Label) (cid : String) : List Publish :=
  match w.selected l.input, w.broker.sessions.lookup cid with
  | some (.connect req), some s =>
    if req.clientId = cid ∧ req.connect.cleanStart = false ∧ identityChanged s.identity req.identity = false then
      (s.resentPublishes l.ord).take outboundChannelCapacity
    else []
  | _, _ => []

/-- The session of a client after a step, by what it was. -/
inductive Sent (P : Protocol) (w : World) (l : Label) (cid : String) (s' : Session) : Prop
  | kept {s : Session} (hs : w.broker.sessions.lookup cid = some s) (h : s.SendsFresh l.now s')
  | closed {s : Session} (hs : w.broker.sessions.lookup cid = some s) (h : s' = closedSession s)
  | resumed {req : ConnectRequest} {s : Session} (hsel : w.selected l.input = some (.connect req)) (hcid : req.clientId = cid)
      (hclean : req.connect.cleanStart = false) (hs : w.broker.sessions.lookup cid = some s)
      (h : s' = (s.apply P (.resume l.now l.ord w.broker.config w.broker.acl req w.broker.nextEpoch)).1)
  | blank (hitems : s'.channelItems = []) (h : ∀ q, ¬s'.Unacked q)

theorem step_sent (hcon : ∀ req, w.selected l.input = some (.connect req) → req.out = {}) {s' : Session}
    (hs' : (step P w l).1.broker.sessions.lookup cid = some s') : Sent P w l cid s' := by
  have hsame : w.broker.sessions.lookup cid = some s' → Sent P w l cid s' := fun h => .kept h (.refl s')
  rcases (step_pacedChange P w l).2 with hr | ⟨mv, hmv, hf⟩
  · have hrel := hr.session_rel (R := fun s s' => s.SendsFresh l.now s') (fun s => .refl s) (fun _ _ _ => .trans)
      (fun s o ho => Session.apply_sends P s ho) cid
    rw [fleet_session, fleet_session, hs'] at hrel
    cases hs : w.broker.sessions.lookup cid with
    | none => rw [hs] at hrel; cases hrel
    | some s =>
      rw [hs] at hrel
      cases hrel with
      | some h => exact .kept hs h
  · have hs' : (step P w l).1.broker.fleet.session cid = some s' := hs'
    rw [hf] at hs'
    have hset : ∀ {c : String} {x : Option Session}, (w.broker.fleet.set c x).session cid = some s' →
        (cid = c → x = some s' → Sent P w l cid s') → Sent P w l cid s' := by
      intro c x h hx
      simp only [Fleet.set, Function.update_apply] at h
      split at h
      · rename_i hc
        exact hx hc h
      · exact hsame h
    cases hmv with
    | @close c =>
      cases hs : w.broker.sessions.lookup c with
      | none =>
        simp only [Move.apply, fleet_session, hs] at hs'
        exact hsame hs'
      | some s =>
        rw [Fleet.apply_op (f := w.broker.fleet) hs] at hs'
        exact hset hs' fun hc h => .closed (hc ▸ hs) (Option.some.inj h).symm
    | @connect req hsel =>
      unfold connectMove at hs'
      split at hs'
      · rename_i hp
        obtain ⟨hclean, s, hs, -⟩ := claimed_present hp
        rw [Fleet.apply_op (f := w.broker.fleet) hs] at hs'
        exact hset hs' fun hc h => .resumed hsel hc.symm hclean (hc ▸ hs) (Option.some.inj h).symm
      · refine hset hs' fun _ h => ?_
        cases h
        refine .blank ?_ fun q => ?_
        · rw [Session.channelItems, show (freshSession l.now w.broker req).out = some req.out from rfl, hcon req hsel]
          rfl
        · rintro ⟨id, hx | hx⟩ <;> cases hx
    | bridge hin =>
      refine hset hs' fun _ h => ?_
      cases h
      refine .blank rfl fun q => ?_
      rintro ⟨id, hx | hx⟩ <;> cases hx
    | removed => exact hset hs' fun _ h => by cases h

/-- A PUBLISH that is pushed is in the channel of the session afterwards. -/
theorem pushed_send {p : Publish} (h : .send p ∈ w.pushed P l cid epoch) :
    ∃ s', (step P w l).1.broker.sessions.lookup cid = some s' ∧ s'.epoch = epoch ∧
      .send p ∈ s'.channelItems.drop ((w.channel cid epoch).elim 0 (·.sent.length)) := by
  cases hch : (step P w l).1.channel cid epoch with
  | some tx =>
    obtain ⟨s', hs', he, htx⟩ := channel_some hch
    refine ⟨s', hs', he, ?_⟩
    simpa [pushed, hch, Session.channelItems, htx] using h
  | none =>
    -- the channel was let go of: at most a Shutdown was added
    simp only [pushed, hch, Option.none_or] at h
    split at h
    · rename_i tx hd
      obtain ⟨s, tx₀, hs, he, ho, hsent⟩ := step_letGo (detachedIn_some hd)
      rw [channel_of_lookup hs he, ho] at h
      rcases hsent with hsent | ⟨rc, hsent⟩ <;> simp [hsent] at h
    · cases h

/-- What a session gained on the same connection was pushed. -/
theorem mem_pushed {s' : Session} (hs' : (step P w l).1.broker.sessions.lookup cid = some s') {p : Publish}
    (h : .send p ∈ s'.channelItems.drop ((w.channel cid s'.epoch).elim 0 (·.sent.length))) :
    .send p ∈ w.pushed P l cid s'.epoch := by
  cases htx : s'.out with
  | none => simp [Session.channelItems, htx] at h
  | some tx =>
    simpa [pushed, channel_of_lookup hs' rfl, htx, Session.channelItems] using h

theorem channel_length {s : Session} (hs : w.broker.sessions.lookup cid = some s) :
    (w.channel cid s.epoch).elim 0 (·.sent.length) = s.channelItems.length := by
  rw [channel_of_lookup hs rfl, Session.channelItems]
  cases s.out <;> rfl

/-- The packets a takeover re-sends, with those of a changed owner left out. -/
theorem resumeBound_resentItems {req : ConnectRequest} {s : Session} (hsel : w.selected l.input = some (.connect req))
    (hclean : req.connect.cleanStart = false) (hs : w.broker.sessions.lookup req.clientId = some s) (p : Publish) :
    .send p ∈ ((s.resumeBound P l.now w.broker.config w.broker.acl req w.broker.nextEpoch).resentItems l.ord).take
        outboundChannelCapacity ↔ ∃ q ∈ w.resent l req.clientId, p = { q with dup := true } := by
  set s₁ := s.resumeBound P l.now w.broker.config w.broker.acl req w.broker.nextEpoch with hs₁
  have hresent : w.resent l req.clientId = (s₁.resentPublishes l.ord).take outboundChannelCapacity := by
    have e := Session.resumeBound_outbound P l.now w.broker.config w.broker.acl req w.broker.nextEpoch s
    rw [← hs₁] at e
    rw [Session.resentPublishes, e.puback, e.pubrec]
    simp only [resent, hsel, hs, hclean, true_and]
    cases identityChanged s.identity req.identity with
    | false => simp only [Bool.false_eq_true, if_true, if_false]; rfl
    | true => simp [Session.clearOwned, values]
  obtain ⟨ids, hids⟩ := Session.resentItems_take l.ord s₁ outboundChannelCapacity
  rw [hids, hresent]
  simp only [List.mem_append, List.mem_map, Session.dupItem, Outgoing.send.injEq, Session.relItem, reduceCtorEq, and_false,
    exists_const, or_false]
  exact exists_congr fun q => and_congr_right fun _ => eq_comm

/-- **Where a PUBLISH comes from**: it is fresh, or was in flight and is re-sent. -/
theorem pushed_cases (hep : w.EpochsOk) (hcon : ∀ req, w.selected l.input = some (.connect req) → req.out = {})
    {p : Publish} (h : .send p ∈ w.pushed P l cid epoch) :
    (∃ m, p.IsFresh l.now m) ∨ ∃ q ∈ w.resent l cid, p = { q with dup := true } := by
  obtain ⟨s', hs', he, hp⟩ := pushed_send h
  cases step_sent hcon hs' with
  | kept hs hsends =>
    obtain ⟨items, hitems, hfresh, -⟩ := hsends.items
    rw [← he, hsends.epoch, channel_length hs, hitems, List.drop_left] at hp
    exact .inl (hfresh p hp)
  | closed hs hclosed =>
    rw [hclosed] at hp
    simp [Session.channelItems, closedSession, Session.goOffline] at hp
  | @resumed req s hsel hcid hclean hs heq =>
    subst hcid
    obtain ⟨hepoch, items, hitems, hfresh, -⟩ := Session.resume_sends P l.now l.ord w.broker.config w.broker.acl req
      w.broker.nextEpoch s (hcon req hsel)
    rw [← heq] at hepoch hitems
    rw [← he, hepoch, channel_next hep, Option.elim_none, List.drop_zero, hitems] at hp
    rcases List.mem_append.1 hp with hp | hp
    · exact .inr ((resumeBound_resentItems hsel hclean hs p).1 hp)
    · exact .inl (hfresh p hp)
  | blank hitems =>
    rw [hitems] at hp
    simp at hp

/-- Every packet the step is to re-send is pushed. -/
theorem resent_pushed (hep : w.EpochsOk) (hcon : ∀ req, w.selected l.input = some (.connect req) → req.out = {})
    {q : Publish} (h : q ∈ w.resent l cid) : ∃ epoch, .send { q with dup := true } ∈ w.pushed P l cid epoch := by
  unfold resent at h
  split at h
  · rename_i req s hsel hs
    split at h
    · rename_i hc
      obtain ⟨rfl, hclean, hid⟩ := hc
      have hmem := (resumeBound_resentItems (P := P) hsel hclean hs { q with dup := true }).2
        ⟨q, by simp only [resent, hsel, hs, hclean, hid]; exact h, rfl⟩
      have hlook : (step P w l).1.broker.sessions.lookup req.clientId =
          some (s.apply P (.resume l.now l.ord w.broker.config w.broker.acl req w.broker.nextEpoch)).1 := by
        have hp : (w.broker.claimed req).2 = true := by simp [claimed, hclean, hs]
        rw [← fleet_session, (step_of_selected hsel).1, runTask, finishConnect_moves, connectMove, hp, if_pos rfl,
          Fleet.apply_op (f := w.broker.fleet) hs]
        simp [Fleet.tick]
      obtain ⟨hepoch, items, hitems, -, -⟩ := Session.resume_sends P l.now l.ord w.broker.config w.broker.acl req
        w.broker.nextEpoch s (hcon req hsel)
      refine ⟨_, mem_pushed hlook ?_⟩
      rw [hepoch, channel_next hep, Option.elim_none, List.drop_zero, hitems]
      exact List.mem_append_left _ hmem
    · cases h
  · cases h

/-- A PUBLISH that is in flight after a step was so before, or has been pushed. -/
theorem unacked_step (hep : w.EpochsOk) (hcon : ∀ req, w.selected l.input = some (.connect req) → req.out = {})
    {s' : Session} (hs' : (step P w l).1.broker.sessions.lookup cid = some s') {q : Publish} (hq : s'.Unacked q) :
    (∃ s, w.broker.sessions.lookup cid = some s ∧ s.Unacked q) ∨
      q.dup = false ∧ .send q ∈ w.pushed P l cid s'.epoch := by
  cases step_sent hcon hs' with
  | kept hs hsends =>
    obtain ⟨items, hitems, hfresh, hnew⟩ := hsends.items
    refine (hnew q hq).imp (fun h => ⟨_, hs, h⟩) fun h => ⟨?_, mem_pushed hs' ?_⟩
    · obtain ⟨m, hm⟩ := hfresh q h
      exact hm.dup
    · rw [hsends.epoch, channel_length hs, hitems, List.drop_left]
      exact h
  | closed hs h => exact .inl ⟨_, hs, by rw [h] at hq; exact hq⟩
  | @resumed req s hsel hcid hclean hs h =>
    obtain ⟨hepoch, items, hitems, hfresh, hnew⟩ := Session.resume_sends P l.now l.ord w.broker.config w.broker.acl req
      w.broker.nextEpoch s (hcon req hsel)
    rw [← h] at hepoch hitems hnew
    refine (hnew q hq).imp (fun h => ⟨_, hs, h⟩) fun h => ⟨?_, mem_pushed hs' ?_⟩
    · obtain ⟨m, hm⟩ := hfresh q h
      exact hm.dup
    · rw [hepoch, channel_next hep, Option.elim_none, List.drop_zero, hitems]
      exact List.mem_append_right _ h
  | blank _ hnone => exact absurd hq (hnone q)

/-! ## Every run -/

/-- In the run `ls` from `w₀`, the packet `q` was pushed to the client at the reading `t`, rendered from `m`, and not pushed
again. -/
def LastSent (P : Protocol) (w₀ : World) (ls : List Label) (cid : String) (q : Publish) (m : Message) (t : Nat) : Prop :=
  ∃ pre l post, ls = pre ++ l :: post ∧ l.now = t ∧ q.IsFresh t m ∧
    (∃ epoch, .send q ∈ (run P w₀ pre).1.pushed P l cid epoch) ∧
    ∀ pre' l' post', post = pre' ++ l' :: post' →
      ∀ epoch, .send q ∉ (run P w₀ (pre ++ l :: pre')).1.pushed P l' cid epoch

/-- A packet the step `l` after `pre` pushes to the client is sent for `m`: it is rendered from it in the step, or re-sent and
was rendered from it when it was last sent. -/
inductive SentFor (P : Protocol) (w₀ : World) (pre : List Label) (l : Label) (cid : String) : Publish → Message → Prop
  | fresh {p : Publish} {m : Message} (h : p.IsFresh l.now m) : SentFor P w₀ pre l cid p m
  | again {q : Publish} {m : Message} {t : Nat} (hq : q ∈ (run P w₀ pre).1.resent l cid) (h : LastSent P w₀ pre cid q m t) :
      SentFor P w₀ pre l cid { q with dup := true } m

/-- Every PUBLISH that is pushed in the run is sent for some message. -/
def SendsMessages (P : Protocol) (w₀ : World) (ls : List Label) : Prop :=
  ∀ pre l post, ls = pre ++ l :: post → ∀ cid epoch p, .send p ∈ (run P w₀ pre).1.pushed P l cid epoch →
    ∃ m, SentFor P w₀ pre l cid p m

/-- Every PUBLISH that is pushed in the run keeps the deadline of its message. -/
def KeepsDeadlines (P : Protocol) (w₀ : World) (ls : List Label) : Prop :=
  ∀ pre l post, ls = pre ++ l :: post → ∀ cid epoch p, .send p ∈ (run P w₀ pre).1.pushed P l cid epoch →
    ∀ m, SentFor P w₀ pre l cid p m → ∀ d, m.expiresAt = some d → p.Keeps l.now d

/-- No PUBLISH with a deadline is re-sent at a later reading than it was sent at, unless the deadline is 2^32 - 1 seconds away
or more. -/
def ResendsInTime (P : Protocol) (w₀ : World) (ls : List Label) : Prop :=
  ∀ pre l post, ls = pre ++ l :: post → ∀ cid, ∀ q ∈ (run P w₀ pre).1.resent l cid, ∀ m t d,
    LastSent P w₀ pre cid q m t → m.expiresAt = some d → t = l.now ∨ l.now + (2 ^ 32 - 1) ≤ d

theorem LastSent.extend {w₀ : World} {ls : List Label} {q : Publish} {m : Message} {t : Nat}
    (h : LastSent P w₀ ls cid q m t) (hno : ∀ epoch, .send q ∉ (run P w₀ ls).1.pushed P l cid epoch) :
    LastSent P w₀ (ls ++ [l]) cid q m t := by
  obtain ⟨pre, l₁, post, rfl, ht, hfresh, hpushed, hlast⟩ := h
  refine ⟨pre, l₁, post ++ [l], by simp, ht, hfresh, hpushed, fun pre' l' post' hsplit => ?_⟩
  rcases List.eq_nil_or_concat post' with rfl | ⟨post', l₂, rfl⟩
  · obtain ⟨rfl, hl⟩ := List.append_inj' hsplit rfl
    cases hl
    exact hno
  · have hsplit' : post ++ [l] = (pre' ++ l' :: post') ++ [l₂] := by rw [hsplit, List.concat_eq_append]; simp
    obtain ⟨rfl, -⟩ := List.append_inj' hsplit' rfl
    exact hlast pre' l' post' rfl

section Boot
variable {now : Nat} {cfg : Config} {db : Db} {acl : Acl} {auth : Option Credentials}

/-- The message of a PUBLISH in flight. -/
theorem run_lastSent (ls : List Label) : ∀ {cid : String} {s : Session} {q : Publish},
    (run P (boot P now cfg db acl auth) ls).1.broker.sessions.lookup cid = some s → s.Unacked q →
    ∃ m t, LastSent P (boot P now cfg db acl auth) ls cid q m t := by
  induction ls using List.reverseRecOn with
  | nil =>
    intro cid s q hs hq
    rw [run, Machine.run, boot_lookup] at hs
    split at hs
    · cases hs
    · obtain ⟨row, -, rfl⟩ := Option.map_eq_some_iff.1 hs
      obtain ⟨id, hx | hx⟩ := hq <;> cases hx
  | append_singleton ls l ih =>
    intro cid s q hs hq
    rw [run_append] at hs
    have hcon := fun req (h : (run P (boot P now cfg db acl auth) ls).1.selected l.input = some (.connect req)) =>
      (run_connect h).1
    have hep := run_epochsOk P (boot_epochsOk P now cfg db acl auth) ls
    have hcases := unacked_step hep hcon hs hq
    by_cases hpushed : ∃ epoch, .send q ∈ (run P (boot P now cfg db acl auth) ls).1.pushed P l cid epoch
    · have hdup : q.dup = false := by
        rcases hcases with ⟨s₀, hs₀, hq₀⟩ | ⟨hdup, -⟩
        · obtain ⟨m, t, pre, l₁, post, -, -, hfresh, -⟩ := ih hs₀ hq₀
          exact hfresh.dup
        · exact hdup
      obtain ⟨epoch, hp⟩ := hpushed
      rcases pushed_cases hep hcon hp with ⟨m, hm⟩ | ⟨q', -, rfl⟩
      · exact ⟨m, l.now, ls, l, [], rfl, rfl, hm, ⟨epoch, hp⟩, by simp⟩
      · cases hdup
    · have hno := not_exists.1 hpushed
      rcases hcases with ⟨s₀, hs₀, hq₀⟩ | ⟨-, hp⟩
      · obtain ⟨m, t, h⟩ := ih hs₀ hq₀
        exact ⟨m, t, h.extend hno⟩
      · exact absurd hp (hno _)

theorem unacked_of_resent {w : World} {q : Publish} (h : q ∈ w.resent l cid) :
    ∃ s, w.broker.sessions.lookup cid = some s ∧ s.Unacked q := by
  unfold resent at h
  split at h
  · rename_i req s hsel hs
    split at h
    · refine ⟨s, hs, ?_⟩
      have hmem := List.mem_of_mem_take h
      simp only [Session.resentPublishes, List.mem_append, (reorder_perm _ _).mem_iff] at hmem
      rcases hmem with hmem | hmem
      · obtain ⟨id, hid⟩ := Session.lookup_of_mem_values hmem
        exact ⟨id, .inl hid⟩
      · obtain ⟨id, hid⟩ := Session.lookup_of_mem_values hmem
        exact ⟨id, .inr hid⟩
    · cases h
  · cases h

theorem run_sendsMessages (P : Protocol) (now : Nat) (cfg : Config) (db : Db) (acl : Acl) (auth : Option Credentials)
    (ls : List Label) : SendsMessages P (boot P now cfg db acl auth) ls := by
  intro pre l post hsplit cid epoch p hp
  have hep := run_epochsOk P (boot_epochsOk P now cfg db acl auth) pre
  rcases pushed_cases hep (fun req h => (run_connect h).1) hp with ⟨m, hm⟩ | ⟨q, hq, rfl⟩
  · exact ⟨m, .fresh hm⟩
  · obtain ⟨s, hs, hunacked⟩ := unacked_of_resent hq
    obtain ⟨m, t, h⟩ := run_lastSent pre hs hunacked
    exact ⟨m, .again hq h⟩

/-- **The lifetime of a message**: every PUBLISH the broker pushes is sent for a message, and all of a run keep the deadlines
of theirs if and only if none with a deadline is re-sent after time has passed. -/
theorem lifetime_iff (P : Protocol) (now : Nat) (cfg : Config) (db : Db) (acl : Acl) (auth : Option Credentials)
    (ls : List Label) (hclock : (ls.map (·.now)).Pairwise (· ≤ ·)) :
    SendsMessages P (boot P now cfg db acl auth) ls ∧
      (KeepsDeadlines P (boot P now cfg db acl auth) ls ↔ ResendsInTime P (boot P now cfg db acl auth) ls) := by
  refine ⟨run_sendsMessages P now cfg db acl auth ls, fun hkeeps => ?_, fun htime => ?_⟩
  · intro pre l post hsplit cid q hq m t d hlast hd
    have hep := run_epochsOk P (boot_epochsOk P now cfg db acl auth) pre
    obtain ⟨epoch, hp⟩ := resent_pushed (P := P) hep (fun req h => (run_connect h).1) hq
    have hkeep := hkeeps pre l post hsplit cid epoch _ hp m (.again hq hlast) d hd
    obtain ⟨pre₁, l₁, post₁, hpre, rfl, hfresh, -⟩ := hlast
    have hle : l₁.now ≤ l.now := by
      rw [hsplit, hpre, List.map_append, List.map_cons, List.map_append, List.map_cons] at hclock
      exact (List.pairwise_append.1 hclock).2.2 _ (by simp) _ (by simp)
    exact (hfresh.resent_keeps_iff hd hle).1 hkeep
  · intro pre l post hsplit cid epoch p hp m hfor d hd
    cases hfor with
    | fresh h => exact h.keeps hd
    | @again q _ t hq hlast =>
      have hintime := htime pre l post hsplit cid q hq m t d hlast hd
      obtain ⟨pre₁, l₁, post₁, hpre, rfl, hfresh, -⟩ := hlast
      have hle : l₁.now ≤ l.now := by
        rw [hsplit, hpre, List.map_append, List.map_cons, List.map_append, List.map_cons] at hclock
        exact (List.pairwise_append.1 hclock).2.2 _ (by simp) _ (by simp)
      exact (hfresh.resent_keeps_iff hd hle).2 hintime

end Boot

/-- A client subscribes to `t`. -/
def lateSubscriber : List Label :=
  connecting { clientId := "c", cleanStart := true, sessionExpiryInterval := some 600 } ++
  sending "c" 1 (.subscribe ⟨1, [{ filter := "t", qos := .atLeastOnce }], []⟩)

/-- A message that expires at time 60. -/
def lateMessage : Message := ⟨"t", [1], .atLeastOnce, false, none, none, none, none, [], some 60⟩

/-- It is published at time 0. -/
def latePublish : Label := { input := .call (.injectPublish "x" lateMessage) }

/-- The client comes back. -/
def lateConnect (later : Nat) : Label :=
  { input := .call (.connect { clientId := "c", cleanStart := false } none), now := later }

def lateTask (later : Nat) : Label := { input := .task 0, now := later }

def lateResume (later : Nat) : List Label := lateSubscriber ++ [latePublish, lateConnect later] ++ [lateTask later]

/-- Re-sent at the time it was sent at, the packet keeps the deadline. -/
theorem lifetime_prompt : KeepsDeadlines .reference empty (lateResume 0) := by
  refine (lifetime_iff .reference 0 {} {} .permitAll none (lateResume 0) (by decide)).2.2 ?_
  rintro pre l post hsplit cid q - m t d ⟨pre₁, l₁, post₁, hpre, rfl, -⟩ -
  have hall : ∀ x ∈ lateResume 0, x.now = 0 := by decide
  left
  rw [hall l (by rw [hsplit]; simp), hall l₁ (by rw [hsplit, hpre]; simp)]

/-- Re-sent at time 50, the packet still grants 60 seconds. -/
theorem lifetime_late :
    ((lateResume 50).map (·.now)).Pairwise (· ≤ ·) ∧ ¬KeepsDeadlines .reference empty (lateResume 50) := by
  refine ⟨by decide, fun h => ?_⟩
  set q := lateMessage.toPublish 0 .atLeastOnce (some 1) false [] with hq
  have hfresh : q.IsFresh 0 lateMessage := ⟨by decide, _, _, _, _, hq⟩
  have hsent : .send q ∈ (run .reference empty lateSubscriber).1.pushed .reference latePublish "c" 1 := by decide +kernel
  have hresent : q ∈ (run .reference empty (lateSubscriber ++ [latePublish, lateConnect 50])).1.resent (lateTask 50) "c" := by
    decide +kernel
  have hpushed : .send { q with dup := true } ∈
      (run .reference empty (lateSubscriber ++ [latePublish, lateConnect 50])).1.pushed .reference (lateTask 50) "c" 2 := by
    decide +kernel
  have hlast : LastSent .reference empty (lateSubscriber ++ [latePublish, lateConnect 50]) "c" q lateMessage 0 := by
    refine ⟨lateSubscriber, latePublish, [lateConnect 50], rfl, rfl, hfresh, ⟨1, hsent⟩, fun pre' l' post' hsplit => ?_⟩
    have hepoch : ((step .reference (run .reference empty (lateSubscriber ++ [latePublish])).1
        (lateConnect 50)).1.broker.sessions.lookup "c").all (fun s => s.epoch = 1) = true := by decide +kernel
    have hno : .send q ∉
        (run .reference empty (lateSubscriber ++ [latePublish])).1.pushed .reference (lateConnect 50) "c" 1 := by
      decide +kernel
    cases pre' with
    | nil =>
      cases hsplit
      intro epoch hp
      obtain ⟨s', hs', he, -⟩ := pushed_send hp
      rw [hs', Option.all_some, decide_eq_true_eq] at hepoch
      exact hno (by rw [← hepoch, he]; exact hp)
    | cons x xs => simp at hsplit
  have hkeeps := h (lateSubscriber ++ [latePublish, lateConnect 50]) (lateTask 50) [] rfl "c" 2 _ hpushed lateMessage
    (.again hresent hlast) 60 rfl
  obtain ⟨e, he, hle⟩ := hkeeps
  have he : some 60 = some e := he
  cases he
  exact absurd hle (by decide)

end World

end WispMQ
