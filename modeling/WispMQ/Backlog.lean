import WispMQ.PacketIds
import WispMQ.Epochs
import WispMQ.Effects
import WispMQ.ReceiveMaximum
/-!
# The queue behind a freed slot

`flush_queue` stops for one of three reasons: the queue is empty, the window is closed, or the channel takes
nothing more (`flushQueue_offered`). PUBACK and PUBCOMP free a slot and flush. A PUBREC with an error code
frees one as well (publish.rs:225-227) and returns without a flush, so the queue can be left waiting behind an
open window; `freedSlot_offered_iff` says when.
-/

namespace WispMQ
open KeyMap

namespace Session

/-- A free slot has been offered to the queue: it is empty, the window is closed, or the channel takes nothing
more. The connection task that handles the packet owns the receiver, so the last means a full channel. -/
def Offered (s : Session) : Prop :=
  s.queue = [] ∨ s.windowOpen = false ∨ s.out.any OutTx.hasRoom = false

instance (s : Session) : Decidable s.Offered := inferInstanceAs (Decidable (_ ∨ _ ∨ _))

/-! ## Where the flush stops -/

theorem windowOpen_eq_false {s : Session} : s.windowOpen = false ↔ s.clientReceiveMaximum ≤ s.inflightCount := by
  simp [windowOpen]

/-- Without a free id there is no free slot. -/
theorem windowOpen_of_nextId_none {s : Session} (hok : IdsOk s) (hmax : s.clientReceiveMaximum ≤ 65535)
    (hid : s.nextId.1 = none) : s.windowOpen = false := by
  have hsub : Finset.Icc 1 65535 ⊆ s.idsInUse := by
    intro id hmem
    rw [← idInUse_iff]
    exact nextId_none hok.next hid (Finset.mem_Icc.1 hmem)
  have hcard := Finset.card_le_card hsub
  rw [Nat.card_Icc, ← inflightCount_eq_card hok] at hcard
  rw [windowOpen_eq_false]
  omega

theorem trySend_none {s : Session} {item : Outgoing} (h : s.trySend item = none) :
    s.out.any OutTx.hasRoom = false := by
  cases ho : s.out with
  | none => rfl
  | some tx =>
    by_cases hr : tx.hasRoom
    · simp [trySend, ho, OutTx.trySend, hr] at h
    · simpa using hr

/-- With an open window and room in the channel a message is sent at once. -/
theorem sendNow_launched (now : Nat) {s : Session} (p : Pending) (hok : IdsOk s)
    (hmax : s.clientReceiveMaximum ≤ 65535) (hw : s.windowOpen) (hroom : s.out.any OutTx.hasRoom) :
    ∃ id s', s.sendNow now p = (s', some id) ∧ Launched now s p id s' := by
  cases ho : s.out with
  | none => simp [ho] at hroom
  | some tx =>
    have hon : s.isOnline := by simp [isOnline, ho]
    have hr : tx.hasRoom := by simpa [ho] using hroom
    cases hid : s.nextId.1 with
    | none =>
      rw [windowOpen_of_nextId_none hok hmax hid] at hw
      cases hw
    | some id =>
      have he : s.nextId = (some id, s.nextId.2) := by rw [← hid]
      have hsend : s.nextId.2.trySend (.send (p.render now id)) =
          some { s.nextId.2 with out := some { tx with sent := tx.sent ++ [.send (p.render now id)] } } := by
        have hout : s.nextId.2.out = some tx := ho
        simp [trySend, hout, OutTx.trySend, hr]
      refine ⟨id, _, ?_, launched_of hw hid hsend⟩
      simp only [sendNow, hon, hw, Bool.and_self, if_true]
      rw [he]
      simp only [hsend]

theorem Launched.online {now id : Nat} {s s' : Session} {p : Pending} (h : Launched now s p id s') : s'.isOnline := by
  obtain ⟨tx, -, -, hout⟩ := h.out
  simp [isOnline, hout]

/-- The loop of `flush_queue`, by induction on the queue: each entry leaves it, or the loop stops at it with the
window closed or the channel full. -/
theorem flushLoop_offered (P : Protocol) (now : Nat) : ∀ (q : List Pending) {s : Session}, IdsOk s → s.isOnline →
    s.clientReceiveMaximum ≤ 65535 → (∀ p ∈ q, p.qos ≠ .atMostOnce) → (flushLoop P now q s).1.Offered
  | [], _, _, _, _, _ => .inl rfl
  | p :: q, s, hok, hon, hmax, hq => by
    obtain ⟨hp, hq⟩ := List.forall_mem_cons.1 hq
    unfold flushLoop
    split
    · rename_i hopen
      rw [Bool.and_eq_true] at hopen
      split
      · exact flushLoop_offered P now q hok hon hmax hq
      · split
        · rename_i s1 hs1
          have hid : s.nextId.1 = none := by rw [hs1]
          have hclosed := windowOpen_of_nextId_none hok hmax hid
          rw [hopen.2] at hclosed
          cases hclosed
        · rename_i id s1 hs1
          have hid : s.nextId.1 = some id := by rw [hs1]
          have h1 : s.nextId.2 = s1 := by rw [hs1]
          have hok1 : IdsOk s1 := h1 ▸ hok.nextId
          have hon1 : s1.isOnline := by rw [← h1]; exact hon
          have hmax1 : s1.clientReceiveMaximum ≤ 65535 := by rw [← h1]; exact hmax
          split
          · exact flushLoop_offered P now q hok1 hon1 hmax1 hq
          · split
            · rename_i hfull
              have hroom : s1.out.any OutTx.hasRoom = false := trySend_none hfull
              exact .inr (.inr hroom)
            · rename_i s2 hs2
              have hl := launched_of hopen.2 hid (h1 ▸ hs2)
              refine flushLoop_offered P now q (hok.launched hp hl) hl.online ?_ hq
              rw [(SameRecord.launched hl).receiveMaximum]
              exact hmax
    · rename_i hclosed
      refine .inr (.inl ?_)
      simp only [hon, Bool.true_and, Bool.not_eq_true] at hclosed
      exact hclosed

theorem flushQueue_offered (P : Protocol) (now : Nat) {s : Session} (hok : IdsOk s) (hon : s.isOnline)
    (hmax : s.clientReceiveMaximum ≤ 65535) : (flushQueue P now s).1.Offered :=
  flushLoop_offered P now s.queue hok hon hmax hok.queue

/-! ## The acknowledgements -/

/-- The error PUBREC of a known id leaves everything but the id. -/
theorem pubrec_error {s : Session} {a : PubAck} (hk : a.packetId ∈ s.awaitingPubrec) (he : a.reasonCode.isError) :
    s.pubrec a = { s with awaitingPubrec := s.awaitingPubrec.erase a.packetId } := by
  simp [pubrec, hk, he]

theorem size_erase_of_mem {m : KeyMap Nat Publish} {id : Nat} (h : id ∈ m) : size (m.erase id) + 1 = size m := by
  rw [← card_keySet, ← card_keySet, keySet_erase]
  exact Finset.card_erase_add_one (mem_keySet.2 h)

/-- **Freed slots**: an acknowledgement that ends an exchange leaves the slot offered exactly when it is no PUBREC,
or no entry waits, or the window was over-full before, or the channel takes nothing. -/
theorem ack_offered_iff (P : Protocol) {s : Session} (hok : IdsOk s) (hon : s.isOnline)
    (hmax : s.clientReceiveMaximum ≤ 65535) {now : Nat} {packet : Packet} {o : Op}
    (ho : World.ackOp now packet = some o) (hfree : (s.completes packet).Nonempty) :
    (s.apply P o).1.Offered ↔
      (∀ a, packet ≠ .pubrec a) ∨ s.queue = [] ∨ s.clientReceiveMaximum < s.inflightCount ∨
        s.out.any OutTx.hasRoom = false := by
  cases packet with
  | puback a =>
    cases ho
    have h : (s.apply P (.puback now a.packetId)).1.Offered := flushQueue_offered P now (hok.erase_puback _) hon hmax
    exact iff_of_true h (.inl fun _ => by simp)
  | pubcomp a =>
    cases ho
    have h : (s.apply P (.pubcomp now a.packetId)).1.Offered := flushQueue_offered P now (hok.erase_pubcomp _) hon hmax
    exact iff_of_true h (.inl fun _ => by simp)
  | pubrec a =>
    cases ho
    have hmem : a.packetId ∈ s.awaitingPubrec ∧ a.reasonCode.isError := by
      by_contra hn
      simp [completes, hn] at hfree
    have hsize := size_erase_of_mem hmem.1
    have hwin : ({ s with awaitingPubrec := s.awaitingPubrec.erase a.packetId } : Session).windowOpen = false ↔
        s.clientReceiveMaximum < s.inflightCount := by
      rw [windowOpen_eq_false, inflightCount, inflightCount]
      simp only
      omega
    simp only [apply, pubrec_error hmem.1 hmem.2, Offered, hwin]
    simp
  | _ => simp [World.ackOp] at ho

end Session

theorem Broker.acked_lookup {b : Broker} {cid : String} {epoch : Nat} {s : Session}
    (hs : b.sessions.lookup cid = some s) (he : s.epoch = epoch) (f : Session → Session × Nat) :
    (b.acked cid epoch f).broker.sessions.lookup cid = some (f s).1 := by
  simp [acked, hs, he, answer, addDropped, setSession]

/-! ## Every run -/

/-- Receive Maximum is a `u16`. -/
def Label.U16 (l : Label) : Prop :=
  ∀ c identity, l.input = .call (.connect c identity) → c.receiveMaximum.getD 65535 ≤ 65535

namespace World
open Broker
variable {P : Protocol}

/-- No session is bound, and no CONNECT waits, with a larger Receive Maximum. -/
structure ReceiveBounded (w : World) : Prop where
  sessions : ∀ cid s, w.broker.sessions.lookup cid = some s → s.clientReceiveMaximum ≤ 65535
  requests : ∀ req, .connect req ∈ w.tasks → req.connect.receiveMaximum.getD 65535 ≤ 65535

theorem boundSession_receiveMaximum (now : Nat) (b : Broker) (req : ConnectRequest) :
    (boundSession P now b req).clientReceiveMaximum = req.connect.receiveMaximum.getD 65535 := by
  simp only [boundSession, reauthorize]
  split <;> rfl

theorem ReceiveBounded.step {w : World} (h : w.ReceiveBounded) {l : Label} (hl : l.U16) :
    (step P w l).1.ReceiveBounded where
  sessions := by
    intro cid s' hs'
    rcases (step_change P w l).bound hs' with ⟨s, hs, hb, -⟩ | ⟨req, hsel, -, hb⟩ | ⟨name, -, -, rfl⟩
    · rw [hb.receiveMaximum]
      exact h.sessions cid s hs
    · rw [hb.receiveMaximum, boundSession_receiveMaximum]
      exact h.requests req (selected_mem hsel)
    · exact le_rfl
  requests := by
    intro req hreq
    rcases step_tasks hreq with hreq | hreq
    · exact h.requests req hreq
    · obtain ⟨c, identity, hin, hc⟩ := hreq.called
      rw [hc.connect]
      exact hl c identity hin

theorem boot_receiveBounded (now : Nat) (cfg : Config) (db : Db) (acl : Acl) (auth : Option Credentials) :
    (boot P now cfg db acl auth).ReceiveBounded where
  sessions := by
    intro cid s hs
    rw [boot_lookup] at hs
    split at hs
    · cases hs
    · obtain ⟨row, -, rfl⟩ := Option.map_eq_some_iff.1 hs
      exact le_rfl
  requests := by simp [boot]

theorem run_receiveBounded {w : World} (h : w.ReceiveBounded) {ls : List Label} (hls : ∀ l ∈ ls, l.U16) :
    (run P w ls).1.ReceiveBounded :=
  Machine.run_state_invariant (World.step P) ReceiveBounded (fun _ l h (hl : True ∧ l.U16) => h.step hl.2) h ls
    (Machine.Along.and_forall _ (.of_forall _ (fun _ _ => trivial) _ _) hls)

/-- An acknowledgement handled for the current connection is one operation on its session. -/
theorem step_acked {w : World} {l : Label} {cid : String} {epoch : Nat} {packet : Packet} {s : Session} {o : Op}
    (hsel : w.selected l.input = some (.dispatch cid epoch packet)) (ho : ackOp l.now packet = some o)
    (hs : w.broker.sessions.lookup cid = some s) (he : s.epoch = epoch) :
    (step P w l).1.broker.sessions.lookup cid = some (s.apply P o).1 := by
  rw [(step_of_selected hsel).1, runTask]
  cases packet with
  | puback a => cases ho; exact acked_lookup hs he _
  | pubrec a => cases ho; exact acked_lookup hs he _
  | pubcomp a => cases ho; exact acked_lookup hs he _
  | _ => simp [ackOp] at ho

theorem ackOp_of_completes (now : Nat) {s : Session} {packet : Packet} (h : (s.completes packet).Nonempty) :
    ∃ o, ackOp now packet = some o := by
  cases packet <;> first | exact ⟨_, rfl⟩ | simp [Session.completes] at h

/-- **No stranded queue**: in every reachable state, an acknowledgement of the current connection that frees an
in-flight slot leaves the queue empty, the window closed or the channel full, if and only if it is not a
PUBREC, or the queue was empty, the window over-full or the channel full before. -/
theorem freedSlot_offered_iff (P : Protocol) (now : Nat) (cfg : Config) (db : Db) (acl : Acl)
    (auth : Option Credentials) (ls : List Label) (hu16 : ∀ l ∈ ls, l.U16) (l : Label) (cid : String) (epoch : Nat)
    (packet : Packet) (s : Session)
    (hsel : (run P (boot P now cfg db acl auth) ls).1.selected l.input = some (.dispatch cid epoch packet))
    (hs : (run P (boot P now cfg db acl auth) ls).1.broker.sessions.lookup cid = some s)
    (he : s.epoch = epoch) (hon : s.isOnline) (hfree : (s.completes packet).Nonempty) :
    (∃ s', (step P (run P (boot P now cfg db acl auth) ls).1 l).1.broker.sessions.lookup cid = some s' ∧ s'.Offered) ↔
      (∀ a, packet ≠ .pubrec a) ∨ s.queue = [] ∨ s.clientReceiveMaximum < s.inflightCount ∨
        s.out.any OutTx.hasRoom = false := by
  have hok : s.IdsOk := run_idsOk P (boot_idsOk P now cfg db acl auth) ls cid s hs
  have hmax := (run_receiveBounded (P := P) (boot_receiveBounded now cfg db acl auth) hu16).sessions cid s hs
  obtain ⟨o, ho⟩ := ackOp_of_completes l.now hfree
  rw [step_acked hsel ho hs he, ← Session.ack_offered_iff P hok hon hmax ho hfree]
  simp

/-- A subscriber with Receive Maximum 1 to whom two messages were published with QoS `qos`: one is in flight under
the id 1, the other waits in the queue. It has sent `packet`. -/
def oneWaiting (qos : QoS) (packet : Packet) : List Label :=
  connecting { clientId := "sub", cleanStart := true, receiveMaximum := some 1 } ++
  sending "sub" 1 (.subscribe ⟨1, [{ filter := "t", qos := qos }], []⟩) ++
  connecting { clientId := "pub", cleanStart := true } ++
  sending "pub" 2 (.publish ⟨false, qos, false, "t", some 7, {}, [1]⟩) ++
  sending "pub" 2 (.publish ⟨false, qos, false, "t", some 8, {}, [2]⟩) ++
  [{ input := .call (.packet "sub" 1 packet) }]

theorem oneWaiting_u16 (qos : QoS) (packet : Packet) : ∀ l ∈ oneWaiting qos packet, l.U16 := by
  intro l hl c identity hin
  simp only [oneWaiting, connecting, sending, List.cons_append, List.nil_append, List.mem_cons, List.not_mem_nil,
    or_false] at hl
  rcases hl with rfl | rfl | rfl | rfl | rfl | rfl | rfl | rfl | rfl | rfl | rfl <;>
    first | (cases hin; decide) | cases hin

/-- The PUBACK of the message in flight sends the other. -/
theorem freedSlot_offered_puback :
    ∃ s, (run .reference (boot .reference 0 {} {} .permitAll none)
        (oneWaiting .atLeastOnce (.puback ⟨1, .success⟩))).1.broker.sessions.lookup "sub" = some s ∧
      s.queue.length = 1 ∧ (s.completes (.puback ⟨1, .success⟩)).Nonempty ∧
      ∃ s', (step .reference (run .reference (boot .reference 0 {} {} .permitAll none)
        (oneWaiting .atLeastOnce (.puback ⟨1, .success⟩))).1 { input := .task 0 }).1.broker.sessions.lookup "sub" =
          some s' ∧ s'.Offered := by
  have h : ((run .reference (boot .reference 0 {} {} .permitAll none)
      (oneWaiting .atLeastOnce (.puback ⟨1, .success⟩))).1.broker.sessions.lookup "sub").map
        (fun s => (s.queue.length, s.epoch, s.isOnline, s.completes (.puback ⟨1, .success⟩))) =
      some (1, 1, true, {1}) := by decide +kernel
  obtain ⟨s, hs, h1⟩ := Option.map_eq_some_iff.1 h
  simp only [Prod.mk.injEq] at h1
  have hfree : (s.completes (.puback ⟨1, .success⟩)).Nonempty := by rw [h1.2.2.2]; simp
  refine ⟨s, hs, h1.1, hfree, ?_⟩
  exact (freedSlot_offered_iff .reference 0 {} {} .permitAll none (oneWaiting .atLeastOnce (.puback ⟨1, .success⟩))
    (oneWaiting_u16 _ _) { input := .task 0 } "sub" 1 (.puback ⟨1, .success⟩) s (by decide +kernel) hs h1.2.1 h1.2.2.1
    hfree).2 (.inl fun _ => by simp)

/-- An error PUBREC of the message in flight leaves the other in the queue, with an open window and a channel that
has room. -/
theorem error_pubrec_strands :
    (run .reference (boot .reference 0 {} {} .permitAll none)
      (oneWaiting .exactlyOnce (.pubrec ⟨1, .quotaExceeded⟩))).1.selected (.task 0) =
        some (.dispatch "sub" 1 (.pubrec ⟨1, .quotaExceeded⟩)) ∧
    ((run .reference (boot .reference 0 {} {} .permitAll none)
      (oneWaiting .exactlyOnce (.pubrec ⟨1, .quotaExceeded⟩))).1.broker.sessions.lookup "sub").any
        (fun s => s.epoch = 1 ∧ s.isOnline ∧ (s.completes (.pubrec ⟨1, .quotaExceeded⟩)).Nonempty) = true ∧
    ((step .reference (run .reference (boot .reference 0 {} {} .permitAll none)
      (oneWaiting .exactlyOnce (.pubrec ⟨1, .quotaExceeded⟩))).1 { input := .task 0 }).1.broker.sessions.lookup
        "sub").any (fun s => ¬s.Offered) = true := by
  refine ⟨?_, ?_, ?_⟩ <;> decide +kernel

end World

end WispMQ
