import WispMQ.Lifetime
/-!
# What a session carries

A session carries PUBLISH packets in three shapes: as entries of its queue, as packets in flight, and in its channel. What
holds of the messages that are delivered to it (`Op.Delivers`) holds of all it carries, from one operation to the next, if
it is kept when an entry becomes a packet and when a packet is sent again (`Packs`).

* `Session.Carries E R` — `E` holds of the entries, `R` of the packets.
* `Carries.apply`, `Carries.resume` — what each operation keeps.
-/

namespace WispMQ
open KeyMap

/-- What holds of an entry holds of the packets it can become. -/
structure Packs (E : Pending → Prop) (R : Publish → Prop) : Prop where
  render : ∀ p, E p → ∀ now id, R (p.render now id)
  /-- At QoS 0 there is no id. -/
  unacknowledged : ∀ p, E p → ∀ now, R (p.message.toPublish now .atMostOnce none p.retain p.subscriptionIds)
  dup : ∀ q, R q → R { q with dup := true }

/-- `R` holds of the item if it is a PUBLISH. -/
def Outgoing.Sends (R : Publish → Prop) (item : Outgoing) : Prop := ∀ q, item = .send q → R q

/-- `E` holds of what the operation delivers, if it delivers. -/
def Op.Delivers (E : Pending → Prop) : Op → Prop
  | .deliver _ m qos retain subIds _ => E ⟨m, qos, retain, subIds⟩
  | _ => True

namespace Session
variable {P : Protocol} {E E' : Pending → Prop} {R R' : Publish → Prop} {q : List Pending} {s s' : Session}

/-- `E` holds of the entries of `q`, and `R` of what is in flight. -/
structure HeldAs (E : Pending → Prop) (R : Publish → Prop) (q : List Pending) (s : Session) : Prop where
  queue : ∀ p ∈ q, E p
  puback : ∀ id p, s.awaitingPuback.lookup id = some p → R p
  pubrec : ∀ id p, s.awaitingPubrec.lookup id = some p → R p

structure Carries (E : Pending → Prop) (R : Publish → Prop) (s : Session) : Prop where
  held : s.HeldAs E R s.queue
  channel : ∀ item ∈ s.channelItems, item.Sends R

namespace HeldAs

theorem congr (h : s.HeldAs E R q) (hp : s'.awaitingPuback = s.awaitingPuback) (hr : s'.awaitingPubrec = s.awaitingPubrec) :
    s'.HeldAs E R q :=
  ⟨h.queue, fun id p => hp ▸ h.puback id p, fun id p => hr ▸ h.pubrec id p⟩

theorem sameOutbound (h : s.HeldAs E R s.queue) (e : s.SameOutbound s') : s'.HeldAs E R s'.queue := by
  rw [e.queue]
  exact h.congr e.puback e.pubrec

theorem tail {p : Pending} (h : s.HeldAs E R (p :: q)) : s.HeldAs E R q :=
  ⟨fun x hx => h.queue x (List.mem_cons_of_mem _ hx), h.puback, h.pubrec⟩

theorem launched (hER : Packs E R) {now id : Nat} {p : Pending} (h : s.HeldAs E R q) (hp : E p) (hl : s.Launched now p id s') :
    s'.HeldAs E R q := by
  obtain ⟨tx, -, -, rfl⟩ := hl.sent
  cases hq : p.qos with
  | atMostOnce => exact ⟨h.queue, h.puback, h.pubrec⟩
  | atLeastOnce =>
    refine ⟨h.queue, fun x p' hx => ?_, h.pubrec⟩
    simp only [record] at hx
    rw [lookup_insert_if] at hx
    split at hx
    · cases hx
      exact hER.render p hp now id
    · exact h.puback x p' hx
  | exactlyOnce =>
    refine ⟨h.queue, h.puback, fun x p' hx => ?_⟩
    simp only [record] at hx
    rw [lookup_insert_if] at hx
    split at hx
    · cases hx
      exact hER.render p hp now id
    · exact h.pubrec x p' hx

theorem flushQueue (hER : Packs E R) (now : Nat) (h : s.HeldAs E R s.queue) :
    (flushQueue P now s).1.HeldAs E R (WispMQ.flushQueue P now s).1.queue := by
  obtain ⟨q, s', he, hs'⟩ := flushLoop_rule P now (fun q s _ => s.HeldAs E R q)
    (fun _ _ _ h => h.congr rfl rfl) (fun _ _ _ _ _ h => h.tail) (fun _ _ _ _ _ h => h.tail)
    (fun p _ _ _ _ _ _ hl h => h.tail.launched hER (h.queue p List.mem_cons_self) hl) s.queue s [] h
  rw [WispMQ.flushQueue, he]
  exact ⟨hs'.queue, hs'.puback, hs'.pubrec⟩

theorem enqueue {p : Pending} (h : s.HeldAs E R s.queue) (hp : E p) (maxQueued : Nat) :
    (s.enqueue p maxQueued).1.HeldAs E R (s.enqueue p maxQueued).1.queue := by
  have hsnoc : ∀ q : List Pending, (∀ x ∈ q, E x) → ∀ x ∈ q ++ [p], E x := by
    intro q hq x hx
    rcases List.mem_append.1 hx with hx | hx
    · exact hq x hx
    · rw [List.mem_singleton.1 hx]
      exact hp
  unfold Session.enqueue
  split
  · exact ⟨hsnoc _ fun x hx => h.queue x (List.mem_of_mem_tail hx), h.puback, h.pubrec⟩
  · exact ⟨hsnoc _ h.queue, h.puback, h.pubrec⟩

theorem erase_puback (h : s.HeldAs E R s.queue) (id : Nat) :
    HeldAs E R s.queue { s with awaitingPuback := s.awaitingPuback.erase id } := by
  refine ⟨h.queue, fun x p hx => ?_, h.pubrec⟩
  rw [lookup_erase_if] at hx
  split at hx
  · cases hx
  · exact h.puback x p hx

theorem erase_pubrec (h : s.HeldAs E R s.queue) (id : Nat) :
    HeldAs E R s.queue { s with awaitingPubrec := s.awaitingPubrec.erase id } := by
  refine ⟨h.queue, h.puback, fun x p hx => ?_⟩
  rw [lookup_erase_if] at hx
  split at hx
  · cases hx
  · exact h.pubrec x p hx

theorem delivered (hER : Packs E R) {now : Nat} {m : Message} {qos : QoS} {retain : Bool} {subIds : List Nat}
    {maxQueued : Nat} {fate : Fate} (h : s.HeldAs E R s.queue) (hm : E ⟨m, qos, retain, subIds⟩)
    (hd : Delivered P now s m qos retain subIds maxQueued s' fate) : s'.HeldAs E R s'.queue := by
  cases hd with
  | expired => exact h
  | offline => exact h
  | discarded => exact h
  | pushed _ hs =>
    obtain ⟨tx, -, -, rfl⟩ := trySend_some hs
    exact ⟨h.queue, h.puback, h.pubrec⟩
  | launched _ _ _ hl =>
    have hqueue : s'.queue = s.queue := by
      obtain ⟨tx, -, -, rfl⟩ := hl.sent
      cases qos <;> rfl
    rw [hqueue]
    exact h.launched hER hm hl
  | queued _ _ hs =>
    rcases hs with rfl | rfl
    · exact h.enqueue hm maxQueued
    · exact enqueue (s := s.nextId.2) ⟨h.queue, h.puback, h.pubrec⟩ hm maxQueued

/-- Every operation but a takeover. -/
theorem apply (hER : Packs E R) (h : s.HeldAs E R s.queue) {o : Op} (ho : o.isResume = false) (hfrom : o.Delivers E) :
    (s.apply P o).1.HeldAs E R (s.apply P o).1.queue := by
  cases o with
  | deliver now m qos retain subIds maxQueued =>
    exact h.delivered hER hfrom (deliver_delivered P now s m qos retain subIds maxQueued)
  | puback now id => exact flushQueue hER now (h.erase_puback id)
  | pubcomp now id =>
    exact flushQueue (s := { s with awaitingPubcomp := s.awaitingPubcomp.erase id }) hER now ⟨h.queue, h.puback, h.pubrec⟩
  | pubrec ack =>
    have herased := h.erase_pubrec ack.packetId
    simp only [Session.apply, Session.pubrec]
    split
    · exact herased
    · split
      · exact sameOutbound (s := { s with
            awaitingPubrec := s.awaitingPubrec.erase ack.packetId
            awaitingPubcomp := insert ack.packetId s.awaitingPubcomp })
          ⟨herased.queue, herased.puback, herased.pubrec⟩ (push_sameOutbound _ _)
      · split
        · exact herased
        · exact sameOutbound (s := { s with awaitingPubrec := s.awaitingPubrec.erase ack.packetId }) herased
            (push_sameOutbound _ _)
  | resume => cases ho
  | _ => exact h.sameOutbound (apply_inert P s rfl)

end HeldAs

namespace Carries

theorem mono (hE : ∀ p, E p → E' p) (hR : ∀ q, R q → R' q) (h : s.Carries E R) : s.Carries E' R' :=
  ⟨⟨fun p hp => hE p (h.held.queue p hp), fun id q hq => hR q (h.held.puback id q hq),
    fun id q hq => hR q (h.held.pubrec id q hq)⟩, fun item hi q hq => hR q (h.channel item hi q hq)⟩

/-- What an operation pushes. -/
theorem mayPush (hER : Packs E R) (h : s.HeldAs E R s.queue) {o : Op} (hfrom : o.Delivers E) {item : Outgoing}
    (hi : MayPush P s o item) : item.Sends R := by
  have hflush : ∀ {now : Nat}, Flushes P now s item → item.Sends R := by
    rintro now ⟨p, hp, id, rfl, -⟩ q hq
    cases hq
    exact hER.render p (h.queue p hp) now id
  cases hi with
  | qos0 =>
    intro q hq
    cases hq
    exact hER.unacknowledged _ hfrom _
  | launched =>
    intro q hq
    cases hq
    exact hER.render _ hfrom _ _
  | puback hf => exact hflush hf
  | pubcomp hf => exact hflush hf
  | _ => rintro q ⟨⟩

theorem grows (h : ∀ item ∈ s.channelItems, item.Sends R) (hg : Grows (·.Sends R) s s') :
    ∀ item ∈ s'.channelItems, item.Sends R := by
  intro item hi
  cases hout : s'.out with
  | none => simp [channelItems, hout] at hi
  | some tx' =>
    obtain ⟨tx, items, htx, hsent, hitems⟩ := hg tx' hout
    simp only [channelItems, hout, Option.elim_some, hsent, List.mem_append] at hi
    rcases hi with hi | hi
    · exact h item (by simpa [channelItems, htx] using hi)
    · exact hitems item hi

/-- **One operation.** -/
theorem apply (hER : Packs E R) (h : s.Carries E R) {o : Op} (ho : o.isResume = false) (hfrom : o.Delivers E) :
    (s.apply P o).1.Carries E R :=
  ⟨h.held.apply hER ho hfrom, grows h.channel ((apply_grows s ho).mono fun _ => mayPush hER h.held hfrom)⟩

theorem applyAll (hER : Packs E R) : ∀ {os : List Op} {t : Session}, t.Carries E R →
    (∀ o ∈ os, o.isResume = false ∧ o.Delivers E) → (t.applyAll P os).1.Carries E R
  | [], _, h, _ => h
  | o :: os, t, h, hos => by
    obtain ⟨ho, hos⟩ := List.forall_mem_cons.1 hos
    exact applyAll hER (t := (t.apply P o).1) (h.apply hER ho.1 ho.2) hos

/-- A takeover sends again what is in flight, and then what is queued. -/
theorem resume (hER : Packs E R) (h : s.Carries E R) (now : Nat) (ord : Orders) (cfg : Config) (acl : Acl)
    {req : ConnectRequest} (epoch : Nat) (hout : req.out = {}) : (s.apply P (.resume now ord cfg acl req epoch)).1.Carries E R := by
  set s₁ := s.resumeBound P now cfg acl req epoch with hs₁
  have hl₁ : s₁.HeldAs E R s₁.queue := by
    refine HeldAs.sameOutbound ?_ (resumeBound_outbound P now cfg acl req epoch s)
    split
    · exact ⟨by simp [clearOwned], by simp [clearOwned], by simp [clearOwned]⟩
    · exact h.held
  have hsame := retransmit_sameOutbound ord s₁
  have hl₂ : (s₁.retransmit ord).HeldAs E R (s₁.retransmit ord).queue := hl₁.sameOutbound hsame
  have hresent : Grows (·.Sends R) s₁ (s₁.retransmit ord) := by
    rw [retransmit_eq]
    refine .pushAll _ s₁ fun i hi => ?_
    simp only [resentItems, List.mem_append, List.mem_map, (reorder_perm _ _).mem_iff] at hi
    rcases hi with (⟨p, hp, rfl⟩ | ⟨p, hp, rfl⟩) | ⟨id, -, rfl⟩
    · obtain ⟨id, hid⟩ := lookup_of_mem_values hp
      rintro q ⟨⟩
      exact hER.dup p (hl₁.puback id p hid)
    · obtain ⟨id, hid⟩ := lookup_of_mem_values hp
      rintro q ⟨⟩
      exact hER.dup p (hl₁.pubrec id p hid)
    · rintro q ⟨⟩
  have hflush : Grows (·.Sends R) (s₁.retransmit ord) (flushQueue P now (s₁.retransmit ord)).1 := by
    refine (flushQueue_grows now _).mono ?_
    rintro i ⟨p, hp, id, rfl, -⟩ q hq
    cases hq
    exact hER.render p (hl₂.queue p hp) now id
  have hon : s₁.isOnline := by simp [isOnline, hs₁, resumeBound_out]
  simp only [Session.apply, resumeDelivery, ← hs₁, hon, if_true]
  refine ⟨HeldAs.flushQueue hER now hl₂, grows (s := s₁) (fun item hi => ?_) (hresent.trans hflush)⟩
  simp [channelItems, hs₁, resumeBound_out, hout] at hi

/-- A session nothing has been delivered to. -/
theorem of_empty (hq : s.queue = []) (hp : s.awaitingPuback = ∅) (hr : s.awaitingPubrec = ∅) (hc : s.channelItems = []) :
    s.Carries E R :=
  ⟨⟨by simp [hq], by simp [hp], by simp [hr]⟩, by simp [hc]⟩

end Carries

end Session

end WispMQ
