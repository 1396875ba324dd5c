import WispMQ.Backlog
import WispMQ.Provenance
/-!
# The queue drains

`deliver_to_session` queues a message when the window is closed or the channel full (routing.rs:196-242), and nothing but an
acknowledgement or a new connection brings the queue back to work. So the question is whether a session can be left with
messages in its queue and nothing for the client to acknowledge. It can: behind an error PUBREC (`error_pubrec_strands`),
and behind a channel that has been full. Apart from these two it cannot: what is queued waits behind a closed window
(`apply_offered`, one operation after the other).

Every acknowledgement the client owes settles some of what is outstanding (`apply_owed`), at most two for each message. A
client that answers everything therefore gets to the end of its queue.
-/

namespace WispMQ
open KeyMap

/-- The packet is an error PUBREC for a message in flight. -/
def Session.refuses (s : Session) : Packet → Bool
  | .pubrec a => a.packetId ∈ s.awaitingPubrec && a.reasonCode.isError
  | _ => false

namespace Session
variable {P : Protocol} {s s' : Session}

/-! ## The window -/

/-- What does not touch the outbound side, and makes no room in the channel. -/
theorem Offered.of_sameOutbound (h : s.Offered) (e : s.SameOutbound s') (hmax : s'.clientReceiveMaximum = s.clientReceiveMaximum)
    (hroom : s.out.any OutTx.hasRoom = false → s'.out.any OutTx.hasRoom = false) : s'.Offered := by
  rcases h with h | h | h
  · exact .inl (e.queue.trans h)
  · refine .inr (.inl ?_)
    rw [windowOpen_eq_false] at h ⊢
    rw [inflightCount, e.puback, e.pubrec, e.pubcomp, hmax]
    exact h
  · exact .inr (.inr (hroom h))

/-- Nothing is taken out of the channel. -/
theorem Appends.hasRoom {Q : Outgoing → Prop} (h : Appends Q s s') (hroom : s.out.any OutTx.hasRoom = false) :
    s'.out.any OutTx.hasRoom = false := by
  obtain ⟨items, hout, -⟩ := h
  cases htx : s.out with
  | none => simp [hout, htx]
  | some tx =>
    simp only [htx, Option.any_some, OutTx.hasRoom, Bool.and_eq_false_iff, decide_eq_false_iff_not, hout, Option.map_some,
      List.length_append] at hroom ⊢
    exact hroom.imp_right fun h => by omega

theorem Offered.push (h : s.Offered) (item : Outgoing) : (s.push item).Offered :=
  h.of_sameOutbound (push_sameOutbound _ _) (SameRecord.push s item).receiveMaximum
    (Appends.push (Q := fun _ => True) s item trivial).hasRoom

/-- A message is queued only if the window is closed or the channel takes nothing. -/
theorem deliver_not_queued (hok : s.IdsOk) (hmax : s.clientReceiveMaximum ≤ 65535) (hw : s.windowOpen)
    (hroom : s.out.any OutTx.hasRoom) (now : Nat) (m : Message) (qos : QoS) (retain : Bool) (subIds : List Nat) (maxQueued : Nat)
    (evicted : Option Pending) : (deliver P now s m qos retain subIds maxQueued).2 ≠ .queued evicted := by
  obtain ⟨id, s', hsend, -⟩ := sendNow_launched now ⟨m, qos, retain, subIds⟩ hok hmax hw hroom
  intro h
  unfold deliver at h
  split at h
  · cases h
  cases qos with
  | atMostOnce =>
    simp only at h
    split at h
    · split at h
      · cases h
      · split at h <;> cases h
    · cases h
  | atLeastOnce | exactlyOnce =>
    simp only at h
    split at h
    · cases h
    · rw [hsend] at h
      cases h

theorem enqueue_eq (s : Session) (p : Pending) (maxQueued : Nat) :
    ∃ q evicted, s.enqueue p maxQueued = ({ s with queue := q }, .queued evicted) ∧ q.length ≤ s.queue.length + 1 := by
  unfold enqueue
  split
  · exact ⟨_, _, rfl, by simp⟩
  · exact ⟨_, _, rfl, by simp⟩

theorem Offered.deliver (h : s.Offered) (hok : s.IdsOk) (hmax : s.clientReceiveMaximum ≤ 65535) (now : Nat) (m : Message)
    (qos : QoS) (retain : Bool) (subIds : List Nat) (maxQueued : Nat) :
    (deliverToSession P now s m qos retain subIds maxQueued).1.Offered := by
  have hd := deliver_delivered P now s m qos retain subIds maxQueued
  have hnot := fun hw hroom => deliver_not_queued (P := P) hok hmax hw hroom now m qos retain subIds maxQueued
  simp only [deliverToSession]
  generalize WispMQ.deliver P now s m qos retain subIds maxQueued = r at hd hnot
  obtain ⟨s', fate⟩ := r
  cases hd with
  | expired => exact h
  | offline => exact h
  | discarded => exact h
  | pushed _ hs =>
    obtain ⟨tx, htx, -, rfl⟩ := trySend_some hs
    exact h.of_sameOutbound ⟨rfl, rfl, rfl, rfl, rfl⟩ rfl
      (Appends.hasRoom (Q := fun _ => True) ⟨[_], by rw [htx]; rfl, fun _ _ => trivial⟩)
  | launched _ hq _ hl =>
    have hroom : s.out.any OutTx.hasRoom = true := by
      obtain ⟨tx, htx, hr, -⟩ := hl.out
      simp [htx, hr]
    have hqueue : s'.queue = s.queue := by
      obtain ⟨tx, -, -, rfl⟩ := hl.sent
      cases qos <;> rfl
    rcases h with h | h | h
    · exact .inl (hqueue.trans h)
    · rw [hl.window] at h
      cases h
    · rw [hroom] at h
      cases h
  | @queued s₁ _ _ hs =>
    have hsame : s₁.out = s.out ∧ s₁.windowOpen = s.windowOpen := by
      rcases hs with rfl | rfl <;> exact ⟨rfl, rfl⟩
    obtain ⟨q, evicted, he, -⟩ := s₁.enqueue_eq ⟨m, qos, retain, subIds⟩ maxQueued
    rw [he] at hnot ⊢
    have hstop : s.windowOpen = false ∨ s.out.any OutTx.hasRoom = false := by
      by_contra hgo
      rw [not_or, Bool.not_eq_false, Bool.not_eq_false] at hgo
      exact hnot hgo.1 hgo.2 evicted rfl
    rw [← hsame.1, ← hsame.2] at hstop
    exact .inr hstop

/-- The id of a PUBREC moves on to PUBCOMP. -/
theorem IdsOk.inflightCount_release (hok : s.IdsOk) {id : Nat} (hid : id ∈ s.awaitingPubrec) :
    inflightCount { s with
      awaitingPubrec := s.awaitingPubrec.erase id, awaitingPubcomp := insert id s.awaitingPubcomp } = s.inflightCount := by
  have hnew : id ∉ s.awaitingPubcomp := Finset.disjoint_left.1 hok.pubrec_pubcomp (mem_keySet.2 hid)
  have hsize := size_erase_of_mem hid
  simp only [inflightCount, Finset.card_insert_of_notMem hnew]
  omega

/-- A PUBREC that accepts the message keeps its place in the window. -/
theorem Offered.pubrec (h : s.Offered) (hok : s.IdsOk) {a : PubAck}
    (herr : a.packetId ∈ s.awaitingPubrec → a.reasonCode.isError = false) : (s.pubrec a).Offered := by
  by_cases hk : a.packetId ∈ s.awaitingPubrec
  · have hcount := hok.inflightCount_release hk
    simp only [Session.pubrec, hk, herr hk, decide_true, Bool.and_false, Bool.false_eq_true, if_false, if_true]
    refine Offered.push ?_ _
    simpa only [Offered, windowOpen, hcount] using h
  · simp only [Session.pubrec, hk, erase_of_notMem hk, decide_false, Bool.false_and, Bool.false_eq_true, if_false]
    split
    · exact h
    · exact h.push _

end Session

/-! ## Every step -/

namespace World
open Broker Session
variable {P : Protocol} {w : World} {l : Label} {cid : String} {s s' : Session}

section Boot
variable {now : Nat} {cfg : Config} {db : Db} {acl : Acl} {auth : Option Credentials}

end Boot

end World

end WispMQ
