import WispMQ.InboundQos2
/-!
# Inbound QoS 2: exactly once

The client's side of a session is a `Sender`: which message each packet id stands for, what it has sent on its connection
that the server has not read, and what the server has pushed that it has not read. `Dialog.step` runs it beside the
broker. Messages carry a tag, so that a retransmission is the same message and a new message under an old id is another
one.

Packets of one id are answered in order, so what is under way for an id has one of six shapes, `Lane`. They are kept as
long as a PUBLISH that the policy refuses stands alone (`RefusedAlone`): no earlier copy was accepted, and no other copy
is under way. Then every message is routed at most once, and once if its PUBREC says so (`routed_exactly_once`); without
it a message is acknowledged and lost (`refused_copy_swallows`).
-/

namespace WispMQ
open KeyMap

/-! ## The client -/

/-- What a packet id stands for at the client. -/
inductive Slot where
  | idle
  /-- Message `tag` is sent, and no PUBREC for it is read. -/
  | published (tag : Nat)
  /-- Its PUBREC is read, and no PUBCOMP. -/
  | released (tag : Nat)
deriving DecidableEq

def Slot.tag : Slot → Option Nat
  | .idle => none
  | .published t | .released t => some t

/-- A packet of an exchange on its way to the server. -/
inductive Sent where
  | publish (tag : Nat) (p : Publish)
  | pubrel (ack : PubAck)
deriving DecidableEq

namespace Sent

def packet : Sent → Packet
  | publish _ p => .publish p
  | pubrel ack => .pubrel ack

def packetId : Sent → Nat
  | publish _ p => p.packetId.getD 0
  | pubrel ack => ack.packetId

def isPubrel : Sent → Bool
  | pubrel _ => true
  | _ => false

/-- A copy of message `t`. -/
def carries (t : Nat) : Sent → Bool
  | publish tag _ => tag = t
  | _ => false

end Sent

namespace Outgoing

/-- The packet id a PUBREC or PUBCOMP is for. -/
def replyId : Outgoing → Option Nat
  | .control (.pubrec a) | .control (.pubcomp a) => some a.packetId
  | _ => none

def isPubcomp : Outgoing → Bool
  | .control (.pubcomp _) => true
  | _ => false

/-- A PUBREC without an error. -/
def isGrant : Outgoing → Bool
  | .control (.pubrec a) => !a.reasonCode.isError
  | _ => false

def isRefusal : Outgoing → Bool
  | .control (.pubrec a) => a.reasonCode.isError
  | _ => false

end Outgoing

namespace Slot

/-- Reading a reply for the packet id. -/
def read : Slot → Outgoing → Slot
  | .published t, .control (.pubrec a) => if a.reasonCode.isError then .idle else .released t
  | .released _, .control (.pubcomp _) => .idle
  | slot, _ => slot

/-- What the client sends on reading it. -/
def answer : Slot → Outgoing → List Sent
  | .published _, .control (.pubrec a) => if a.reasonCode.isError then [] else [.pubrel ⟨a.packetId, .success⟩]
  | _, _ => []

/-- The message it grants. -/
def grants : Slot → Outgoing → List Nat
  | .published t, .control (.pubrec a) => if a.reasonCode.isError then [] else [t]
  | _, _ => []

theorem read_pubcomp {slot : Slot} {r : Outgoing} (hr : r.isPubcomp) (hs : ∀ t, slot ≠ .released t) :
    slot.read r = slot ∧ slot.answer r = [] ∧ slot.grants r = [] := by
  unfold Outgoing.isPubcomp at hr
  split at hr
  · cases slot with
    | released t => exact absurd rfl (hs t)
    | _ => exact ⟨rfl, rfl, rfl⟩
  · cases hr

theorem read_released {t : Nat} {r : Outgoing} : (Slot.released t).answer r = [] ∧ (Slot.released t).grants r = [] := by
  constructor
  · cases r <;> rfl
  · cases r <;> rfl

theorem tag_of_read {slot : Slot} {r : Outgoing} {t : Nat} (h : (slot.read r).tag = some t) : slot.tag = some t := by
  unfold read at h
  split at h
  · split at h
    · cases h
    · exact h
  · cases h
  · exact h

theorem answer_id {slot : Slot} {r : Outgoing} : ∀ x ∈ slot.answer r, r.replyId = some x.packetId := by
  unfold answer
  split
  · split
    · simp
    · simp [Outgoing.replyId, Sent.packetId]
  · simp

end Slot

/-! ## What is under way for one packet id -/

/-- The packets of one id that the server has not read, and the replies that the client has not: `done` are the messages
that were routed, `held` says that the id is in `inbound_qos2`. Before the id is used again, PUBRELs and PUBCOMPs of the
last message may still be under way. -/
inductive Lane (done : Nat → Prop) (held : Prop) (slot : Slot) (wire : List Sent) (replies : List Outgoing) : Prop
  | idle (hs : slot = .idle) (hw : ∀ x ∈ wire, x.isPubrel) (hr : ∀ r ∈ replies, r.isPubcomp) (hheld : ¬held)
  /-- No copy was accepted or refused so far. -/
  | fresh {t : Nat} {rels pubs : List Sent} (hs : slot = .published t) (hw : wire = rels ++ pubs)
      (hrels : ∀ x ∈ rels, x.isPubrel) (hpubs : ∀ x ∈ pubs, x.carries t) (hr : ∀ r ∈ replies, r.isPubcomp)
      (hdone : ¬done t) (hheld : ¬held)
  | refused {t : Nat} {comps : List Outgoing} {refusal : Outgoing} (hs : slot = .published t) (hw : wire = [])
      (hr : replies = comps ++ [refusal]) (hcomps : ∀ r ∈ comps, r.isPubcomp) (href : refusal.isRefusal) (hdone : ¬done t)
      (hheld : ¬held)
  | accepted {t : Nat} {comps recs : List Outgoing} (hs : slot = .published t) (hw : ∀ x ∈ wire, x.carries t)
      (hr : replies = comps ++ recs) (hcomps : ∀ r ∈ comps, r.isPubcomp) (hrecs : ∀ r ∈ recs, r.isGrant) (hdone : done t)
      (hheld : held)
  /-- No PUBREL has reached the server. -/
  | confirming {t : Nat} {pubs rels : List Sent} (hs : slot = .released t) (hw : wire = pubs ++ rels)
      (hpubs : ∀ x ∈ pubs, x.carries t) (hrels : ∀ x ∈ rels, x.isPubrel) (hr : ∀ r ∈ replies, r.isGrant) (hdone : done t)
      (hheld : held)
  | finishing {t : Nat} {recs comps : List Outgoing} (hs : slot = .released t) (hw : ∀ x ∈ wire, x.isPubrel)
      (hr : replies = recs ++ comps) (hrecs : ∀ r ∈ recs, r.isGrant) (hcomps : ∀ r ∈ comps, r.isPubcomp) (hdone : done t)
      (hheld : ¬held)

namespace Lane
variable {done done' : Nat → Prop} {held held' : Prop} {slot : Slot} {wire : List Sent} {replies rs : List Outgoing}
variable {t : Nat} {p : Publish} {a : PubAck}

theorem congr (h : Lane done held slot wire replies) (hheld : held' ↔ held)
    (hdone : ∀ t, slot.tag = some t → (done' t ↔ done t)) : Lane done' held' slot wire replies := by
  cases h with
  | idle hs hw hr hh => exact .idle hs hw hr (mt hheld.1 hh)
  | fresh hs hw hrels hpubs hr hd hh => exact .fresh hs hw hrels hpubs hr (mt (hdone _ (hs ▸ rfl)).1 hd) (mt hheld.1 hh)
  | refused hs hw hr hc href hd hh => exact .refused hs hw hr hc href (mt (hdone _ (hs ▸ rfl)).1 hd) (mt hheld.1 hh)
  | accepted hs hw hr hc hrecs hd hh => exact .accepted hs hw hr hc hrecs ((hdone _ (hs ▸ rfl)).2 hd) (hheld.2 hh)
  | confirming hs hw hp hrels hr hd hh => exact .confirming hs hw hp hrels hr ((hdone _ (hs ▸ rfl)).2 hd) (hheld.2 hh)
  | finishing hs hw hr hrecs hc hd hh => exact .finishing hs hw hr hrecs hc ((hdone _ (hs ▸ rfl)).2 hd) (mt hheld.1 hh)

/-- A new connection: nothing is under way. -/
theorem reset (h : Lane done held slot wire replies) : Lane done held slot [] [] := by
  have hw : ∀ {q : Sent → Bool}, ∀ x ∈ ([] : List Sent), q x := by simp
  have hr : ∀ {q : Outgoing → Bool}, ∀ x ∈ ([] : List Outgoing), q x := by simp
  cases h with
  | idle hs _ _ hh => exact .idle hs hw hr hh
  | fresh hs _ _ _ _ hd hh => exact .fresh hs (List.append_nil []).symm hw hw hr hd hh
  | refused hs _ _ _ _ hd hh => exact .fresh hs (List.append_nil []).symm hw hw hr hd hh
  | accepted hs _ _ _ _ hd hh => exact .accepted hs hw (List.append_nil []).symm hr hr hd hh
  | confirming hs _ _ _ _ hd hh => exact .confirming hs (List.append_nil []).symm hw hw hr hd hh
  | finishing hs _ _ _ _ hd hh => exact .finishing hs hw (List.append_nil []).symm hr hr hd hh

/-! ### The client's moves -/

theorem publish_new (h : Lane done held .idle wire replies) (hd : ¬done t) (p : Publish) :
    Lane done held (.published t) (wire ++ [.publish t p]) replies := by
  cases h with
  | idle _ hw hr hh => exact .fresh rfl rfl hw (by simp [Sent.carries]) hr hd hh
  | _ hs => cases hs

theorem publish_again (h : Lane done held (.published t) wire replies) (hr : ∀ r ∈ replies, r.isRefusal = false)
    (p : Publish) : Lane done held (.published t) (wire ++ [.publish t p]) replies := by
  have hsnoc : ∀ {xs : List Sent}, (∀ x ∈ xs, x.carries t) → ∀ x ∈ xs ++ [.publish t p], x.carries t := by
    intro xs hxs x hx
    rcases List.mem_append.1 hx with hx | hx
    · exact hxs x hx
    · rw [List.mem_singleton.1 hx]
      simp [Sent.carries]
  cases h with
  | fresh hs hw hrels hpubs hcomps hd hh =>
    cases hs
    exact .fresh rfl (by rw [hw, List.append_assoc]) hrels (hsnoc hpubs) hcomps hd hh
  | refused hs hw hr' hc href hd hh =>
    have := hr _ (hr' ▸ List.mem_append_right _ (List.mem_singleton_self _))
    simp [href] at this
  | accepted hs hw hr' hc hrecs hd hh =>
    cases hs
    exact .accepted rfl (hsnoc hw) hr' hc hrecs hd hh
  | idle hs => cases hs
  | confirming hs => cases hs
  | finishing hs => cases hs

theorem release (h : Lane done held (.released t) wire replies) (a : PubAck) :
    Lane done held (.released t) (wire ++ [.pubrel a]) replies := by
  have hsnoc : ∀ {xs : List Sent}, (∀ x ∈ xs, x.isPubrel) → ∀ x ∈ xs ++ [.pubrel a], x.isPubrel := by
    intro xs hxs x hx
    rcases List.mem_append.1 hx with hx | hx
    · exact hxs x hx
    · rw [List.mem_singleton.1 hx]
      rfl
  cases h with
  | confirming hs hw hp hrels hr hd hh =>
    exact .confirming hs (by rw [hw, List.append_assoc]) hp (hsnoc hrels) hr hd hh
  | finishing hs hw hr hrecs hc hd hh => exact .finishing hs (hsnoc hw) hr hrecs hc hd hh
  | idle hs => cases hs
  | fresh hs => cases hs
  | refused hs => cases hs
  | accepted hs => cases hs

/-- The client reads the next reply; what it takes as granted was routed. -/
theorem read {r : Outgoing} (h : Lane done held slot wire (r :: replies)) :
    Lane done held (slot.read r) (wire ++ slot.answer r) replies ∧ ∀ t ∈ slot.grants r, done t := by
  cases h with
  | idle hs hw hr hh =>
    obtain ⟨hr, hrs⟩ := List.forall_mem_cons.1 hr
    obtain ⟨h1, h2, h3⟩ := slot.read_pubcomp hr (by simp [hs])
    rw [h1, h2, h3, List.append_nil]
    exact ⟨.idle hs hw hrs hh, by simp⟩
  | fresh hs hw hrels hpubs hr hd hh =>
    obtain ⟨hr, hrs⟩ := List.forall_mem_cons.1 hr
    obtain ⟨h1, h2, h3⟩ := slot.read_pubcomp hr (by simp [hs])
    rw [h1, h2, h3, List.append_nil]
    exact ⟨.fresh hs hw hrels hpubs hrs hd hh, by simp⟩
  | refused hs hw hr hc href hd hh =>
    rename_i comps refusal
    cases comps with
    | nil =>
      obtain ⟨rfl, rfl⟩ := List.cons.inj hr
      unfold Outgoing.isRefusal at href
      split at href
      · simp only [hs, Slot.read, Slot.answer, Slot.grants, href, if_true]
        exact ⟨.idle rfl (by simp [hw]) (by simp) hh, by simp⟩
      · cases href
    | cons c comps =>
      obtain ⟨rfl, rfl⟩ := List.cons.inj hr
      obtain ⟨hc, hcs⟩ := List.forall_mem_cons.1 hc
      obtain ⟨h1, h2, h3⟩ := slot.read_pubcomp hc (by simp [hs])
      rw [h1, h2, h3, List.append_nil]
      exact ⟨.refused hs hw rfl hcs href hd hh, by simp⟩
  | accepted hs hw hr hc hrecs hd hh =>
    rename_i comps recs
    cases comps with
    | nil =>
      rw [List.nil_append] at hr
      subst hr
      obtain ⟨hr, hrs⟩ := List.forall_mem_cons.1 hrecs
      unfold Outgoing.isGrant at hr
      split at hr
      · rename_i a
        have ha : a.reasonCode.isError = false := by simpa using hr
        simp only [hs, Slot.read, Slot.answer, Slot.grants, ha, Bool.false_eq_true, if_false]
        exact ⟨.confirming rfl rfl hw (by simp [Sent.isPubrel]) hrs hd hh, by simpa using hd⟩
      · cases hr
    | cons c comps =>
      obtain ⟨rfl, rfl⟩ := List.cons.inj hr
      obtain ⟨hc, hcs⟩ := List.forall_mem_cons.1 hc
      obtain ⟨h1, h2, h3⟩ := slot.read_pubcomp hc (by simp [hs])
      rw [h1, h2, h3, List.append_nil]
      exact ⟨.accepted hs hw rfl hcs hrecs hd hh, by simp⟩
  | confirming hs hw hp hrels hr hd hh =>
    obtain ⟨hr, hrs⟩ := List.forall_mem_cons.1 hr
    have hstay : slot.read r = slot := by
      unfold Outgoing.isGrant at hr
      split at hr
      · rw [hs]
        rfl
      · cases hr
    rw [hstay, hs, Slot.read_released.1, Slot.read_released.2, List.append_nil]
    exact ⟨.confirming rfl hw hp hrels hrs hd hh, by simp⟩
  | finishing hs hw hr hrecs hc hd hh =>
    rename_i recs comps
    rw [hs, Slot.read_released.1, Slot.read_released.2, List.append_nil]
    refine ⟨?_, by simp⟩
    cases recs with
    | nil =>
      rw [List.nil_append] at hr
      subst hr
      obtain ⟨hr, hrs⟩ := List.forall_mem_cons.1 hc
      unfold Outgoing.isPubcomp at hr
      split at hr
      · exact .idle rfl hw hrs hh
      · cases hr
    | cons r' recs =>
      obtain ⟨rfl, rfl⟩ := List.cons.inj hr
      obtain ⟨hr, hrs⟩ := List.forall_mem_cons.1 hrecs
      unfold Outgoing.isGrant at hr
      split at hr
      · exact .finishing rfl hw rfl hrs hc hd hh
      · cases hr

/-! ### The server's moves -/

theorem forall_snoc {q : Outgoing → Bool} (h : ∀ r ∈ replies, q r) (h' : ∀ r ∈ rs, q r) : ∀ r ∈ replies ++ rs, q r := by
  intro r hr
  rcases List.mem_append.1 hr with hr | hr
  · exact h r hr
  · exact h' r hr

/-- The next packet is a copy of message `t`: none was accepted so far, or one was and the copies are answered alike. -/
theorem head_publish (h : Lane done held slot (.publish t p :: wire) replies) :
    (slot = .published t ∧ (∀ x ∈ wire, x.carries t) ∧ (∀ r ∈ replies, r.isPubcomp) ∧ ¬done t ∧ ¬held) ∨
      done t ∧ held ∧ ∀ rs : List Outgoing, (∀ r ∈ rs, r.isGrant) → Lane done held slot wire (replies ++ rs) := by
  cases h with
  | idle hs hw => simp [Sent.isPubrel] at hw
  | fresh hs hw hrels hpubs hr hd hh =>
    rename_i t' rels pubs
    cases rels with
    | nil =>
      rw [List.nil_append] at hw
      subst hw
      obtain ⟨ht, hpubs⟩ := List.forall_mem_cons.1 hpubs
      have ht : t = t' := by simpa [Sent.carries] using ht
      subst ht
      exact .inl ⟨hs, hpubs, hr, hd, hh⟩
    | cons x rels =>
      obtain ⟨rfl, -⟩ := List.cons.inj hw
      simp [Sent.isPubrel] at hrels
  | refused hs hw => cases hw
  | accepted hs hw hr hc hrecs hd hh =>
    rename_i t' comps recs
    obtain ⟨ht, hw⟩ := List.forall_mem_cons.1 hw
    have ht : t = t' := by simpa [Sent.carries] using ht
    subst ht
    refine .inr ⟨hd, hh, fun rs hrs => ?_⟩
    exact .accepted hs hw (by rw [hr, List.append_assoc]) hc (forall_snoc hrecs hrs) hd hh
  | confirming hs hw hp hrels hr hd hh =>
    rename_i t' pubs rels
    cases pubs with
    | nil =>
      rw [List.nil_append] at hw
      subst hw
      simp [Sent.isPubrel] at hrels
    | cons x pubs =>
      obtain ⟨rfl, hwire⟩ := List.cons.inj hw
      obtain ⟨ht, hp⟩ := List.forall_mem_cons.1 hp
      have ht : t = t' := by simpa [Sent.carries] using ht
      subst ht
      exact .inr ⟨hd, hh, fun rs hrs => .confirming hs hwire hp hrels (forall_snoc hr hrs) hd hh⟩
  | finishing hs hw => simp [Sent.isPubrel] at hw

/-- The next packet is a PUBREL. -/
theorem head_pubrel (h : Lane done held slot (.pubrel a :: wire) replies) (hrs : ∀ r ∈ rs, r.isPubcomp) :
    Lane done False slot wire (replies ++ rs) := by
  cases h with
  | idle hs hw hr hh => exact .idle hs (List.forall_mem_cons.1 hw).2 (forall_snoc hr hrs) id
  | fresh hs hw hrels hpubs hr hd hh =>
    rename_i t' rels pubs
    cases rels with
    | nil =>
      rw [List.nil_append] at hw
      subst hw
      simp [Sent.carries] at hpubs
    | cons x rels =>
      obtain ⟨rfl, hwire⟩ := List.cons.inj hw
      exact .fresh hs hwire (List.forall_mem_cons.1 hrels).2 hpubs (forall_snoc hr hrs) hd id
  | refused hs hw => cases hw
  | accepted hs hw => simp [Sent.carries] at hw
  | confirming hs hw hp hrels hr hd hh =>
    rename_i t' pubs rels
    cases pubs with
    | nil =>
      rw [List.nil_append] at hw
      subst hw
      exact .finishing hs (List.forall_mem_cons.1 hrels).2 rfl hr hrs hd id
    | cons x pubs =>
      obtain ⟨rfl, -⟩ := List.cons.inj hw
      simp [Sent.carries] at hp
  | finishing hs hw hr hrecs hc hd hh =>
    exact .finishing hs (List.forall_mem_cons.1 hw).2 (by rw [hr, List.append_assoc]) hrecs (forall_snoc hc hrs) hd id

end Lane

/-! ## The client beside the broker -/

/-- The client's side of a session, and what becomes of its messages. -/
structure Sender where
  slot : Nat → Slot := fun _ => .idle
  /-- The messages it has ever sent. -/
  used : List Nat := []
  /-- What it has sent on the connection, and what it can read there. -/
  wire : List Sent := []
  replies : List Outgoing := []
  /-- The messages handed to `route`. -/
  routed : List Nat := []
  /-- The messages whose PUBREC, as the server answers or as the client reads it, has no error. -/
  granted : List Nat := []
  /-- QoS 2 messages of the client that were handed to `route` in no such step. -/
  stray : Nat := 0

structure Dialog where
  world : World
  sender : Sender := {}

/-- A step of the broker, or a move of the client. -/
inductive Act where
  | broker (l : Label)
  /-- Message `tag` is sent: for the first time, or again. -/
  | publish (tag : Nat) (p : Publish)
  /-- A PUBREL is sent again. -/
  | release (id : Nat)
  | read
deriving DecidableEq

/-- What a step of the broker is to the client. -/
inductive Part where
  | connect (req : ConnectRequest)
  | exchange (packet : Packet)
  | elsewhere

def World.part (w : World) (l : Label) (cid : String) (s : Session) : Part :=
  match w.selected l.input with
  | some (.connect req) => if req.clientId = cid then .connect req else .elsewhere
  | some (.dispatch c e packet) => if c = cid ∧ e = s.epoch ∧ packet.isExchange then .exchange packet else .elsewhere
  | _ => .elsewhere

namespace Sender

def publish (c : Sender) (tag : Nat) (p : Publish) : Sender :=
  { c with
    slot := Function.update c.slot (p.packetId.getD 0) (.published tag)
    used := tag :: c.used
    wire := c.wire ++ [.publish tag p] }

def release (c : Sender) (id : Nat) : Sender := { c with wire := c.wire ++ [.pubrel ⟨id, .success⟩] }

def read (c : Sender) : Sender :=
  match c.replies with
  | [] => c
  | r :: replies =>
    match r.replyId with
    | none => { c with replies }
    | some id =>
      { c with
        slot := Function.update c.slot id ((c.slot id).read r)
        wire := c.wire ++ (c.slot id).answer r
        replies
        granted := c.granted ++ (c.slot id).grants r }

/-- The server handles the next packet of the wire, routes `n` messages and pushes `rs`. -/
def handled (c : Sender) (n : Nat) (rs : List Outgoing) : Sender :=
  match c.wire with
  | [] => { c with replies := c.replies ++ rs, stray := c.stray + n }
  | .pubrel _ :: wire => { c with wire, replies := c.replies ++ rs, stray := c.stray + n }
  | .publish tag _ :: wire =>
    { c with
      wire
      replies := c.replies ++ rs
      routed := c.routed ++ List.replicate n tag
      granted := c.granted ++ (rs.filter Outgoing.isGrant).map fun _ => tag }

/-- The broker makes a step that leaves the client its session. -/
def observe (c : Sender) (part : Part) (n : Nat) (s s' : Session) : Sender :=
  match part with
  | .connect req =>
    { c with wire := [], replies := { s with out := some req.out }.qos2Replies s', stray := c.stray + n }
  | .exchange _ => c.handled n (s.qos2Replies s')
  | .elsewhere => { c with replies := c.replies ++ s.qos2Replies s', stray := c.stray + n }

end Sender

namespace Part

/-- The step fits what the client has sent. -/
def Follows (c : Sender) : Part → Prop
  | connect req => req.connect.cleanStart = false
  | exchange packet => c.wire.head?.map Sent.packet = some packet
  | elsewhere => True

instance Follows.decidable (c : Sender) : DecidablePred (Follows c)
  | connect _ | exchange _ => inferInstanceAs (Decidable (_ = _))
  | elsewhere => .isTrue trivial

def publish? : Part → Option Publish
  | exchange (.publish p) => some p
  | _ => none

end Part

namespace Dialog

def step (P : Protocol) (cid : String) (d : Dialog) : Act → Dialog × List Effect
  | .broker l =>
    let r := d.world.step P l
    match d.world.broker.sessions.lookup cid, r.1.broker.sessions.lookup cid with
    | some s, some s' => (⟨r.1, d.sender.observe (d.world.part l cid s) (routedCount cid r.2) s s'⟩, r.2)
    | _, _ => (⟨r.1, d.sender⟩, r.2)
  | .publish tag p => (⟨d.world, d.sender.publish tag p⟩, [])
  | .release id => (⟨d.world, d.sender.release id⟩, [])
  | .read => (⟨d.world, d.sender.read⟩, [])

def run (P : Protocol) (cid : String) (d : Dialog) (as : List Act) : Dialog × List Effect :=
  Machine.run (step P cid) d as

/-- The client keeps to the protocol: packets are handled in the order they are sent, every CONNECT asks for the session,
a message is sent again only under its id and before its PUBREC is read, and an id is used for a new message only when it is
idle. The session lives on. -/
def Conforms (P : Protocol) (cid : String) (d : Dialog) : Act → Prop
  | .broker l => ∃ s ∈ d.world.broker.sessions.lookup cid,
    ((d.world.step P l).1.broker.sessions.lookup cid).isSome ∧ (d.world.part l cid s).Follows d.sender
  | .publish tag p => ∃ id ∈ p.packetId, p.qos = .exactlyOnce ∧
    (d.sender.slot id = .idle ∧ tag ∉ d.sender.used ∨ d.sender.slot id = .published tag)
  | .release id => ∃ t ∈ (d.sender.slot id).tag, d.sender.slot id = .released t
  | .read => True

instance Conforms.decidable (P : Protocol) (cid : String) (d : Dialog) : DecidablePred (Conforms P cid d)
  | .broker _ | .publish .. | .release _ => inferInstanceAs (Decidable (∃ x ∈ (_ : Option _), _))
  | .read => .isTrue trivial

/-- A QoS 2 PUBLISH that the policy refuses stands alone: its id is not in `inbound_qos2`, no other copy is on the
connection, and none is sent before the refusal is read. -/
def RefusedAlone (P : Protocol) (cid : String) (d : Dialog) : Act → Prop
  | .broker l => ∀ s ∈ d.world.broker.sessions.lookup cid, ∀ p ∈ (d.world.part l cid s).publish?,
    d.world.broker.refusesPublish P s p →
      p.packetId.getD 0 ∉ s.inboundQos2 ∧ ∀ x ∈ d.sender.wire.tail, x.packetId ≠ p.packetId.getD 0
  | .publish _ p => ∀ r ∈ d.sender.replies, r.replyId = some (p.packetId.getD 0) → r.isRefusal = false
  | .release _ | .read => True

instance RefusedAlone.decidable (P : Protocol) (cid : String) (d : Dialog) : DecidablePred (RefusedAlone P cid d)
  | .broker _ => inferInstanceAs (Decidable (∀ x ∈ (_ : Option _), _))
  | .publish .. => inferInstanceAs (Decidable (∀ x ∈ (_ : List _), _))
  | .release _ | .read => .isTrue trivial

end Dialog

/-! ## The invariant -/

namespace Sender
variable {c c' : Sender} {held held' : Nat → Prop} {tag id : Nat} {p : Publish} {wire : List Sent} {rs : List Outgoing}

/-- What is under way for a packet id. -/
def wireAt (c : Sender) (id : Nat) : List Sent := c.wire.filter (·.packetId = id)

def repliesAt (c : Sender) (id : Nat) : List Outgoing := c.replies.filter (·.replyId = some id)

/-- What is recorded of the messages. -/
structure Books (c : Sender) : Prop where
  tags : ∀ i j t, (c.slot i).tag = some t → (c.slot j).tag = some t → i = j
  slots : ∀ i t, (c.slot i).tag = some t → t ∈ c.used
  routed : ∀ t ∈ c.routed, t ∈ c.used
  nodup : c.routed.Nodup
  granted : ∀ t ∈ c.granted, t ∈ c.routed
  stray : c.stray = 0

def LaneAt (held : Nat → Prop) (c : Sender) (id : Nat) : Prop :=
  Lane (· ∈ c.routed) (held id) (c.slot id) (c.wireAt id) (c.repliesAt id)

/-- The invariant: `held` are the ids in `inbound_qos2`. -/
structure Ok (held : Nat → Prop) (c : Sender) : Prop where
  books : c.Books
  lanes : ∀ id, c.LaneAt held id

/-- The lanes of the other ids see nothing of a move on one. -/
theorem Ok.of_lane (h : c.Ok held) (id : Nat) (hslot : ∀ i, i ≠ id → c'.slot i = c.slot i)
    (hwire : ∀ i, i ≠ id → c'.wireAt i = c.wireAt i) (hreplies : ∀ i, i ≠ id → c'.repliesAt i = c.repliesAt i)
    (hheld : ∀ i, i ≠ id → (held' i ↔ held i))
    (hdone : ∀ i, i ≠ id → ∀ t, (c.slot i).tag = some t → (t ∈ c'.routed ↔ t ∈ c.routed)) (hbooks : c'.Books)
    (hlane : c'.LaneAt held' id) : c'.Ok held' := by
  refine ⟨hbooks, fun i => ?_⟩
  by_cases hi : i = id
  · exact hi ▸ hlane
  · rw [LaneAt, hslot i hi, hwire i hi, hreplies i hi]
    exact (h.lanes i).congr (hheld i hi) (hdone i hi)

theorem filter_append_of_forall {α : Type} {q : α → Bool} {xs ys : List α} (h : ∀ y ∈ ys, q y = false) :
    (xs ++ ys).filter q = xs.filter q := by
  have hys : ys.filter q = [] := List.filter_eq_nil_iff.2 fun y hy => by simp [h y hy]
  rw [List.filter_append, hys, List.append_nil]

/-! ### The client's moves -/

theorem Ok.publish (h : c.Ok held)
    (hslot : c.slot (p.packetId.getD 0) = .idle ∧ tag ∉ c.used ∨ c.slot (p.packetId.getD 0) = .published tag)
    (hrefused : ∀ r ∈ c.replies, r.replyId = some (p.packetId.getD 0) → r.isRefusal = false) :
    (c.publish tag p).Ok held := by
  set id := p.packetId.getD 0 with hid
  have hwire : ∀ i, i ≠ id → (c.publish tag p).wireAt i = c.wireAt i := fun i hi =>
    filter_append_of_forall fun y hy => by simpa [List.mem_singleton.1 hy, Sent.packetId] using Ne.symm hi
  have hwire' : (c.publish tag p).wireAt id = c.wireAt id ++ [.publish tag p] := by
    simp [wireAt, Sender.publish, Sent.packetId, ← hid]
  have hother : ∀ i t, (c.slot i).tag = some t → t = tag → i = id := by
    rintro i t ht rfl
    rcases hslot with ⟨-, hnew⟩ | hslot
    · exact absurd (h.books.slots i t ht) hnew
    · exact h.books.tags i id t ht (by rw [hslot]; rfl)
  refine h.of_lane id (fun i hi => Function.update_of_ne hi _ _) hwire (fun _ _ => rfl) (fun _ _ => .rfl)
    (fun _ _ _ _ => .rfl) ?_ ?_
  · have htag : ∀ i t, ((c.publish tag p).slot i).tag = some t →
        i = id ∧ t = tag ∨ i ≠ id ∧ (c.slot i).tag = some t := by
      intro i t ht
      by_cases hi : i = id
      · subst hi
        simp only [Sender.publish, ← hid, Function.update_self, Slot.tag, Option.some.injEq] at ht
        exact .inl ⟨rfl, ht.symm⟩
      · simp only [Sender.publish, ← hid, Function.update_of_ne hi] at ht
        exact .inr ⟨hi, ht⟩
    refine ⟨fun i j t hi hj => ?_, fun i t ht => ?_, fun t ht => List.mem_cons_of_mem _ (h.books.routed t ht),
      h.books.nodup, h.books.granted, h.books.stray⟩
    · rcases htag i t hi with ⟨hi₀, ht⟩ | ⟨hne, hi₀⟩
      · rcases htag j t hj with ⟨hj₀, -⟩ | ⟨hne, hj₀⟩
        · rw [hi₀, hj₀]
        · exact absurd (hother j t hj₀ ht) hne
      · rcases htag j t hj with ⟨-, ht⟩ | ⟨-, hj₀⟩
        · exact absurd (hother i t hi₀ ht) hne
        · exact h.books.tags i j t hi₀ hj₀
    · rcases htag i t ht with ⟨-, rfl⟩ | ⟨-, ht⟩
      · exact List.mem_cons_self ..
      · exact List.mem_cons_of_mem _ (h.books.slots i t ht)
  · have hlane := h.lanes id
    rw [LaneAt] at hlane ⊢
    rw [hwire']
    simp only [Sender.publish, ← hid, Function.update_self]
    rcases hslot with ⟨hidle, hnew⟩ | hslot
    · rw [hidle] at hlane
      exact hlane.publish_new (fun ht => hnew (h.books.routed tag ht)) p
    · rw [hslot] at hlane
      refine hlane.publish_again (fun r hr => ?_) p
      obtain ⟨hmem, hri⟩ := List.mem_filter.1 hr
      exact hrefused r hmem (by simpa using hri)

theorem Ok.release (h : c.Ok held) {t : Nat} (hslot : c.slot id = .released t) : (c.release id).Ok held := by
  have hwire : ∀ i, i ≠ id → (c.release id).wireAt i = c.wireAt i := fun i hi =>
    filter_append_of_forall fun y hy => by simpa [List.mem_singleton.1 hy, Sent.packetId] using Ne.symm hi
  refine h.of_lane id (fun _ _ => rfl) hwire (fun _ _ => rfl) (fun _ _ => .rfl) (fun _ _ _ _ => .rfl)
    ⟨h.books.tags, h.books.slots, h.books.routed, h.books.nodup, h.books.granted, h.books.stray⟩ ?_
  have hlane := h.lanes id
  have hwire' : (c.release id).wireAt id = c.wireAt id ++ [.pubrel ⟨id, .success⟩] := by
    simp [wireAt, Sender.release, Sent.packetId]
  rw [LaneAt, hslot] at hlane
  rw [LaneAt, hwire']
  simp only [Sender.release, hslot]
  exact hlane.release _

theorem Ok.read (h : c.Ok held) : c.read.Ok held := by
  unfold Sender.read
  split
  · exact h
  · rename_i r replies hreplies
    have hskip : ∀ i, r.replyId ≠ some i → replies.filter (·.replyId = some i) = c.repliesAt i := by
      intro i hi
      rw [repliesAt, hreplies, List.filter_cons, if_neg (by simpa using hi)]
    split
    · rename_i hnone
      refine ⟨⟨h.books.tags, h.books.slots, h.books.routed, h.books.nodup, h.books.granted, h.books.stray⟩, fun i => ?_⟩
      have hlane := h.lanes i
      rw [LaneAt, ← hskip i (by simp [hnone])] at hlane
      exact hlane
    · rename_i id hsome
      have hlane := h.lanes id
      rw [LaneAt, repliesAt, hreplies, List.filter_cons, if_pos (by simpa using hsome)] at hlane
      obtain ⟨hread, hgrants⟩ := hlane.read
      have hother : ∀ i, i ≠ id → r.replyId ≠ some i := by
        intro i hi h
        rw [hsome] at h
        exact hi (Option.some.inj h).symm
      refine h.of_lane id (fun i hi => Function.update_of_ne hi _ _) (fun i hi => ?_) (fun i hi => hskip i (hother i hi))
        (fun _ _ => .rfl) (fun _ _ _ _ => .rfl) ?_ ?_
      · refine filter_append_of_forall fun x hx => ?_
        have hid := Slot.answer_id x hx
        rw [hsome] at hid
        simpa using fun h : x.packetId = i => hi (h ▸ (Option.some.inj hid).symm)
      · have htag : ∀ i t, ((Function.update c.slot id ((c.slot id).read r)) i).tag = some t → (c.slot i).tag = some t := by
          intro i t ht
          by_cases hi : i = id
          · subst hi
            rw [Function.update_self] at ht
            exact Slot.tag_of_read ht
          · rwa [Function.update_of_ne hi] at ht
        refine ⟨fun i j t hi hj => h.books.tags i j t (htag i t hi) (htag j t hj),
          fun i t ht => h.books.slots i t (htag i t ht), h.books.routed, h.books.nodup, fun t ht => ?_, h.books.stray⟩
        rcases List.mem_append.1 ht with ht | ht
        · exact h.books.granted t ht
        · exact hgrants t ht
      · have hanswer : ((c.slot id).answer r).filter (·.packetId = id) = (c.slot id).answer r := by
          refine List.filter_eq_self.2 fun x hx => ?_
          have hid := Slot.answer_id x hx
          rw [hsome] at hid
          simpa using (Option.some.inj hid).symm
        rw [LaneAt, wireAt, List.filter_append, hanswer]
        simp only [Function.update_self]
        exact hread

/-! ### The server's moves -/

/-- A new connection. -/
theorem Ok.connect (h : c.Ok held) : { c with wire := [], replies := [] }.Ok held :=
  ⟨⟨h.books.tags, h.books.slots, h.books.routed, h.books.nodup, h.books.granted, h.books.stray⟩,
    fun id => (h.lanes id).reset⟩

theorem Ok.handled_pubrel (h : c.Ok held) {a : PubAck} (hw : c.wire = .pubrel a :: wire)
    (hheld : ∀ i, held' i ↔ held i ∧ i ≠ a.packetId)
    (hrs : ∀ r ∈ rs, r.isPubcomp ∧ r.replyId = some a.packetId) : (c.handled 0 rs).Ok held' := by
  unfold handled
  rw [hw]
  refine h.of_lane a.packetId (fun _ _ => rfl) (fun i hi => ?_) (fun i hi => ?_) (fun i hi => ?_) (fun _ _ _ _ => .rfl)
    ⟨h.books.tags, h.books.slots, h.books.routed, h.books.nodup, h.books.granted, h.books.stray⟩ ?_
  · rw [wireAt, wireAt, hw, List.filter_cons, if_neg (by simp [Sent.packetId, Ne.symm hi])]
  · refine filter_append_of_forall fun r hr => ?_
    simpa [(hrs r hr).2] using Ne.symm hi
  · rw [hheld, and_iff_left hi]
  · have hlane := h.lanes a.packetId
    rw [LaneAt, wireAt, hw, List.filter_cons, if_pos (by simp [Sent.packetId])] at hlane
    have hreplies : rs.filter (·.replyId = some a.packetId) = rs := List.filter_eq_self.2 fun r hr => by simp [(hrs r hr).2]
    rw [LaneAt, repliesAt, List.filter_append, hreplies]
    refine (hlane.head_pubrel fun r hr => (hrs r hr).1).congr ?_ fun _ _ => .rfl
    rw [hheld]
    simp

/-- A copy of message `tag` is handled: `n` says whether it is routed. -/
theorem Ok.handled_publish (h : c.Ok held) (hw : c.wire = .publish tag p :: wire) (hid : id = p.packetId.getD 0) {n : Nat}
    (hn : n = 0 ∨ n = 1 ∧ c.slot id = .published tag ∧ tag ∉ c.routed) (hheld : ∀ i, i ≠ id → (held' i ↔ held i))
    (hrs : ∀ r ∈ rs, r.replyId = some id) (hgrant : ∀ r ∈ rs, r.isGrant → n = 1 ∨ tag ∈ c.routed)
    (hlane : Lane (· ∈ c.routed ++ List.replicate n tag) (held' id) (c.slot id) (wire.filter (·.packetId = id))
      (c.repliesAt id ++ rs)) : (c.handled n rs).Ok held' := by
  unfold handled
  rw [hw]
  refine h.of_lane id (fun _ _ => rfl) (fun i hi => ?_) (fun i hi => ?_) hheld (fun i hi t ht => ?_) ?_ ?_
  · rw [wireAt, wireAt, hw, List.filter_cons, if_neg (by simpa [Sent.packetId, ← hid] using Ne.symm hi)]
  · refine filter_append_of_forall fun r hr => ?_
    simpa [hrs r hr] using Ne.symm hi
  · rcases hn with rfl | ⟨rfl, hslot, -⟩
    · simp
    · have hne : t ≠ tag := by
        rintro rfl
        exact hi (h.books.tags i id t ht (by rw [hslot]; rfl))
      simp [hne]
  · refine ⟨h.books.tags, h.books.slots, fun t ht => ?_, ?_, fun t ht => ?_, h.books.stray⟩
    · rcases List.mem_append.1 ht with ht | ht
      · exact h.books.routed t ht
      · obtain ⟨hn₀, rfl⟩ := List.mem_replicate.1 ht
        obtain ⟨-, hslot, -⟩ := hn.resolve_left hn₀
        exact h.books.slots id t (by rw [hslot]; rfl)
    · rcases hn with rfl | ⟨rfl, -, hnew⟩
      · simpa using h.books.nodup
      · refine List.nodup_append.2 ⟨h.books.nodup, by simp, fun t ht t' ht' => ?_⟩
        rw [List.eq_of_mem_replicate ht']
        exact fun he => hnew (he ▸ ht)
    · rcases List.mem_append.1 ht with ht | ht
      · exact List.mem_append_left _ (h.books.granted t ht)
      · obtain ⟨r, hr, rfl⟩ := List.mem_map.1 ht
        obtain ⟨hr, hg⟩ := List.mem_filter.1 hr
        rcases hgrant r hr hg with rfl | hdone
        · simp
        · exact List.mem_append_left _ hdone
  · have hreplies : rs.filter (·.replyId = some id) = rs := List.filter_eq_self.2 fun r hr => by simp [hrs r hr]
    rw [LaneAt, repliesAt, List.filter_append, hreplies]
    exact hlane

end Sender

/-! ## Steps of the broker -/

namespace World
variable {w : World} {l : Label} {cid : String} {s : Session}

theorem part_connect {req : ConnectRequest} (h : w.part l cid s = .connect req) :
    w.selected l.input = some (.connect req) ∧ cid = req.clientId := by
  unfold part at h
  split at h
  · split at h
    · rename_i hsel hc
      cases h
      exact ⟨hsel, hc.symm⟩
    · cases h
  · split at h <;> cases h
  · cases h

theorem part_exchange {packet : Packet} (h : w.part l cid s = .exchange packet) :
    w.selected l.input = some (.dispatch cid s.epoch packet) ∧ packet.isExchange := by
  unfold part at h
  split at h
  · split at h <;> cases h
  · split at h
    · rename_i hsel hc
      obtain ⟨rfl, rfl, hx⟩ := hc
      cases h
      exact ⟨hsel, hx⟩
    · cases h
  · cases h

theorem part_elsewhere (hcid : reservedClientId cid = false) (h : w.part l cid s = .elsewhere) :
    Elsewhere w l cid s := by
  refine ⟨fun packet hsel => ?_, fun req hsel hc => ?_, fun name _ => (ne_bridgeClient hcid name).symm⟩
  · rw [part, hsel] at h
    simpa using h
  · simp [part, hsel, hc] at h

end World

namespace Sender
open Session
variable {P : Protocol} {b : Broker} {c : Sender} {s s' : Session} {tag n : Nat} {p : Publish} {wire : List Sent}

/-- The server has handled a copy of message `tag`. -/
theorem Ok.of_outcome (h : c.Ok (· ∈ s.inboundQos2)) (hw : c.wire = .publish tag p :: wire)
    (ho : Qos2Outcome P b s p s' n)
    (halone : b.refusesPublish P s p →
      p.packetId.getD 0 ∉ s.inboundQos2 ∧ ∀ x ∈ wire, x.packetId ≠ p.packetId.getD 0) :
    (c.handled n (s.qos2Replies s')).Ok (· ∈ s'.inboundQos2) := by
  set id := p.packetId.getD 0 with hid
  have hlane := h.lanes id
  rw [LaneAt, wireAt, hw, List.filter_cons, if_pos (by simp [Sent.packetId, hid])] at hlane
  have hhead := hlane.head_publish
  cases ho with
  | dropped hk hn =>
    subst hn
    rw [qos2Replies_eq_nil hk.grows, hk.inbound]
    refine h.handled_publish hw hid (.inl rfl) (fun _ _ => .rfl) (by simp) (by simp) ?_
    rw [List.replicate_zero, List.append_nil, List.append_nil]
    rcases hhead with ⟨hs, hwire, hr, hd, hh⟩ | ⟨-, -, hnext⟩
    · exact .fresh hs (List.nil_append _).symm (by simp) hwire hr hd hh
    · simpa using hnext [] (by simp)
  | refused hr hk he hn =>
    subst hn he
    rw [push_inbound, hk.inbound]
    obtain ⟨hnew, hrest⟩ := halone hr
    rcases hhead with ⟨hs, -, hcomps, hd, -⟩ | ⟨-, hh, -⟩
    · have hrest : wire.filter (·.packetId = id) = [] := List.filter_eq_nil_iff.2 fun x hx => by simpa using hrest x hx
      rcases qos2Replies_push hk.grows (.control (.pubrec ⟨id, .notAuthorized⟩)) rfl with hrs | hrs
      · rw [hrs]
        refine h.handled_publish hw hid (.inl rfl) (fun _ _ => .rfl) (by simp) (by simp) ?_
        simp only [List.replicate_zero, List.append_nil, hrest]
        exact .fresh hs (List.append_nil []).symm (by simp) (by simp) hcomps hd hnew
      · rw [hrs]
        refine h.handled_publish hw hid (.inl rfl) (fun _ _ => .rfl) (by simp [Outgoing.replyId])
          (by simp [Outgoing.isGrant, ReasonCode.isError, ReasonCode.asU8]) ?_
        simp only [List.replicate_zero, List.append_nil, hrest]
        exact .refused hs rfl rfl hcomps rfl hd hnew
    · exact absurd hh hnew
  | duplicate hd hk he hn =>
    subst hn he
    rw [push_inbound, hk.inbound]
    rcases hhead with ⟨-, -, -, -, hh⟩ | ⟨hdone, -, hnext⟩
    · exact absurd hd hh
    · rcases qos2Replies_push hk.grows (.control (.pubrec ⟨id, .success⟩)) rfl with hrs | hrs
      · rw [hrs]
        refine h.handled_publish hw hid (.inl rfl) (fun _ _ => .rfl) (by simp) (by simp) ?_
        simpa using hnext [] (by simp)
      · rw [hrs]
        refine h.handled_publish hw hid (.inl rfl) (fun _ _ => .rfl) (by simp [Outgoing.replyId])
          (fun _ _ _ => .inr hdone) ?_
        rw [List.replicate_zero, List.append_nil]
        exact hnext _ (by simp [Outgoing.isGrant, ReasonCode.isError, ReasonCode.asU8])
  | routed hnew hin hg hrc he hn =>
    rename_i s₁ rc
    subst hn he
    rw [push_inbound, hin]
    have hheld : ∀ i, i ≠ id → (i ∈ insert id s.inboundQos2 ↔ i ∈ s.inboundQos2) := fun i hi => by simp [hi]
    rcases hhead with ⟨hs, hwire, hcomps, hd, -⟩ | ⟨-, hh, -⟩
    · rcases qos2Replies_push hg (.control (.pubrec ⟨id, rc⟩)) rfl with hrs | hrs
      · rw [hrs]
        refine h.handled_publish hw hid (.inr ⟨rfl, hs, hd⟩) hheld (by simp) (by simp) ?_
        exact .accepted hs hwire rfl hcomps (by simp) (by simp) (Finset.mem_insert_self ..)
      · rw [hrs]
        refine h.handled_publish hw hid (.inr ⟨rfl, hs, hd⟩) hheld (by simp [Outgoing.replyId]) (fun _ _ _ => .inl rfl) ?_
        exact .accepted hs hwire rfl hcomps (by simp [Outgoing.isGrant, hrc]) (by simp) (Finset.mem_insert_self ..)
    · exact absurd hh hnew

end Sender

namespace Dialog
open Session
variable {P : Protocol} {cid : String} {d : Dialog}

def Ok (cid : String) (d : Dialog) : Prop :=
  ∃ s, d.world.broker.sessions.lookup cid = some s ∧ d.sender.Ok (· ∈ s.inboundQos2)

/-- A step of the broker. -/
theorem broker_ok {l : Label} (hcid : reservedClientId cid = false) (h : d.Ok cid) (hconf : d.Conforms P cid (.broker l))
    (halone : d.RefusedAlone P cid (.broker l)) : (step P cid d (.broker l)).1.Ok cid := by
  obtain ⟨s, hs, hok⟩ := h
  obtain ⟨s₀, hs₀, hsome, hconf⟩ := hconf
  obtain rfl : s = s₀ := Option.some.inj (hs.symm.trans hs₀)
  have halone := halone s hs
  obtain ⟨s', hs'⟩ := Option.isSome_iff_exists.1 hsome
  refine ⟨s', by simp only [step, hs, hs'], ?_⟩
  simp only [step, hs, hs', Sender.observe]
  cases hpart : d.world.part l cid s with
  | connect req =>
    rw [hpart] at hconf
    obtain ⟨hsel, hc⟩ := World.part_connect hpart
    obtain ⟨hin, hrs⟩ := World.connect_qos2 hsel hc hconf hs hs'
    have hn := World.step_routedCount P hs (l := l) fun p hsel' => by simp [hsel] at hsel'
    simp only [hrs, hn, Nat.add_zero, hin]
    exact hok.connect
  | exchange packet =>
    rw [hpart] at hconf
    obtain ⟨hsel, hx⟩ := World.part_exchange hpart
    obtain ⟨x, hx₀, hpacket⟩ := Option.map_eq_some_iff.1 hconf
    obtain ⟨wire, hw⟩ := List.head?_eq_some_iff.1 hx₀
    subst hpacket
    cases x with
    | publish tag p =>
      have hq : p.qos = .exactlyOnce := by simpa [Sent.packet, Packet.isExchange] using hx
      refine hok.of_outcome hw (World.publish_qos2 hsel hq hs hs') ?_
      simpa [hpart, Sent.packet, Part.publish?, hw] using halone
    | pubrel a =>
      have hn := World.step_routedCount P hs (l := l) fun p hsel' => by simp [hsel, Sent.packet] at hsel'
      obtain ⟨hin, hrs⟩ := World.pubrel_qos2 hsel hs hs'
      rw [hn, hin]
      refine hok.handled_pubrel hw (fun i => ?_) fun r hr => ?_
      · rw [Finset.mem_erase, and_comm]
      · obtain ⟨rc, rfl⟩ := hrs r hr
        exact ⟨rfl, rfl⟩
  | elsewhere =>
    have hwhere := World.part_elsewhere hcid hpart
    have hk := World.step_keepsQos2 P hwhere hs hs'
    have hn := World.step_routedCount P hs (l := l) fun p hsel hq => by
      simpa [Packet.isExchange, hq] using hwhere.exchange _ hsel
    simp only [qos2Replies_eq_nil hk.grows, hn, List.append_nil, Nat.add_zero, hk.inbound]
    exact hok

theorem step_ok {a : Act} (hcid : reservedClientId cid = false) (h : d.Ok cid) (hconf : d.Conforms P cid a)
    (halone : d.RefusedAlone P cid a) : (step P cid d a).1.Ok cid := by
  cases a with
  | broker l => exact broker_ok hcid h hconf halone
  | publish tag p =>
    obtain ⟨s, hs, hok⟩ := h
    obtain ⟨id, hid, -, hslot⟩ := hconf
    refine ⟨s, hs, hok.publish ?_ halone⟩
    rw [Option.mem_def.1 hid]
    exact hslot
  | release id =>
    obtain ⟨s, hs, hok⟩ := h
    obtain ⟨t, -, hslot⟩ := hconf
    exact ⟨s, hs, hok.release hslot⟩
  | read =>
    obtain ⟨s, hs, hok⟩ := h
    exact ⟨s, hs, hok.read⟩

/-- **Exactly once**: let a client without open exchanges keep to the protocol, and let every QoS 2 PUBLISH that the
policy refuses stand alone. Then every message is handed to `route` at most once, and exactly once if its PUBREC has no
error. -/
theorem routed_exactly_once (P : Protocol) (cid : String) (hcid : reservedClientId cid = false) (w : World) (s : Session)
    (hs : w.broker.sessions.lookup cid = some s) (hempty : s.inboundQos2 = ∅) (as : List Act)
    (hrun : Machine.Along (step P cid) (fun d a => d.Conforms P cid a ∧ d.RefusedAlone P cid a) ⟨w, {}⟩ as) :
    let c := (run P cid ⟨w, {}⟩ as).1.sender
    c.stray = 0 ∧ (∀ t, c.routed.count t ≤ 1) ∧ ∀ t ∈ c.granted, c.routed.count t = 1 := by
  have hstart : Ok cid ⟨w, {}⟩ := by
    refine ⟨s, hs, ⟨by simp [Slot.tag], by simp [Slot.tag], by simp, List.nodup_nil, by simp, rfl⟩, fun id => ?_⟩
    exact .idle rfl (by simp [Sender.wireAt]) (by simp [Sender.repliesAt]) (by simp [hempty])
  obtain ⟨s', -, hok⟩ := Machine.run_state_invariant (step P cid) (Ok cid)
    (fun d a h ho => step_ok hcid h ho.1 ho.2) hstart as hrun
  refine ⟨hok.books.stray, fun t => List.nodup_iff_count_le_one.1 hok.books.nodup t, fun t ht => ?_⟩
  exact List.count_eq_one_of_mem hok.books.nodup (hok.books.granted t ht)

/-! ### Two runs -/

/-- A policy that lets everyone publish to the given topics. -/
def publishOnly (topics : List String) : Acl := ⟨true, false, [{ identity := anyIdentity, publish := topics }]⟩

/-- A client that may publish to two topics has connected. -/
def opened : World :=
  (World.run .reference (World.boot .reference 0 { aclPath := some "acl" } {} (publishOnly ["a", "b"]) none)
    (World.connecting { clientId := "c", cleanStart := true })).1

/-- A QoS 2 PUBLISH with packet id 5. -/
def message (topic : String) (dup : Bool) : Publish := ⟨dup, .exactlyOnce, false, topic, some 5, {}, []⟩

/-- The client sends a packet, and the server handles it. -/
def exchanging (tag epoch : Nat) (p : Publish) : List Act :=
  .publish tag p :: (World.sending "c" epoch (.publish p)).map .broker

def reconnecting : List Act := (World.connecting { clientId := "c", cleanStart := false }).map .broker

def reloading (topics : List String) : List Act :=
  [.broker { input := .call (.reload (some (publishOnly topics))) }, .broker { input := .task 0 }]

/-- A message is sent again on a new connection, its PUBREC unread, and the exchange is finished; the id is used again. -/
def resent : List Act :=
  exchanging 1 1 (message "a" false) ++ reconnecting ++ exchanging 1 2 (message "a" true) ++ [.read] ++
    (World.sending "c" 2 (.pubrel ⟨5, .success⟩)).map .broker ++ [.read] ++ exchanging 2 2 (message "b" false) ++ [.read]

theorem routed_exactly_once_resent :
    (run .reference "c" ⟨opened, {}⟩ resent).1.sender.granted = [1, 1, 1, 2, 2] ∧
      (run .reference "c" ⟨opened, {}⟩ resent).1.sender.routed.count 1 = 1 := by
  have h : (opened.broker.sessions.lookup "c").map (·.inboundQos2) = some ∅ := by decide +kernel
  obtain ⟨s, hs, hempty⟩ := Option.map_eq_some_iff.1 h
  have hgranted : (run .reference "c" ⟨opened, {}⟩ resent).1.sender.granted = [1, 1, 1, 2, 2] := by decide +kernel
  refine ⟨hgranted, (routed_exactly_once .reference "c" (by decide) opened s hs hempty resent (by decide +kernel)).2.2 1 ?_⟩
  simp [hgranted]

/-- The PUBREC of an accepted message is not read, and the policy forbids its topic before it is sent again. -/
def forbidden : List Act :=
  exchanging 1 1 (message "a" false) ++ reloading ["b"] ++ reconnecting ++ exchanging 1 2 (message "a" true) ++ [.read] ++
    exchanging 2 2 (message "b" false) ++ [.read]

/-- The copy is refused, so the client may use the id for a new message. That one is taken for a duplicate of the first:
it is acknowledged and never routed. -/
theorem refused_copy_swallows :
    Machine.Along (step .reference "c") (Conforms .reference "c") ⟨opened, {}⟩ forbidden ∧
      2 ∈ (run .reference "c" ⟨opened, {}⟩ forbidden).1.sender.granted ∧
      (run .reference "c" ⟨opened, {}⟩ forbidden).1.sender.routed.count 2 = 0 ∧
      (run .reference "c" ⟨opened, {}⟩ forbidden).1.world.broker.acl.canPublish .reference anonymous "b" := by
  decide +kernel

end Dialog

end WispMQ
