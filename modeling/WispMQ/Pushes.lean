import WispMQ.Epochs
/-!
# What an operation pushes

`Grows Q s s'` says that `s'` still has the channel of `s`, with items added that all satisfy `Q`. `MayPush` lists the
items each operation can add, with the checks they have passed (`apply_grows`); a takeover starts a new channel
and has its own statement, `resume_grows`.
-/

namespace WispMQ
open KeyMap

namespace Session

/-- The channel of `s'`, if it has one, is that of `s` with more items, each satisfying `Q`. -/
def Grows (Q : Outgoing → Prop) (s s' : Session) : Prop :=
  ∀ tx', s'.out = some tx' → ∃ tx items, s.out = some tx ∧ tx'.sent = tx.sent ++ items ∧ ∀ i ∈ items, Q i

namespace Grows
variable {Q Q' : Outgoing → Prop} {s s' s'' : Session}

theorem of_out (h : s'.out = s.out) : Grows Q s s' :=
  fun tx htx => ⟨tx, [], h ▸ htx, by simp, by simp⟩

theorem refl (s : Session) : Grows Q s s := of_out rfl

theorem mono (hQ : ∀ i, Q i → Q' i) (h : Grows Q s s') : Grows Q' s s' := by
  intro tx' htx'
  obtain ⟨tx, items, htx, hsent, hi⟩ := h tx' htx'
  exact ⟨tx, items, htx, hsent, fun i hmem => hQ i (hi i hmem)⟩

theorem trans (h : Grows Q s s') (h' : Grows Q s' s'') : Grows Q s s'' := by
  intro tx'' htx''
  obtain ⟨tx', items', htx', hsent', hi'⟩ := h' tx'' htx''
  obtain ⟨tx, items, htx, hsent, hi⟩ := h tx' htx'
  refine ⟨tx, items ++ items', htx, by rw [hsent', hsent, List.append_assoc], fun i hmem => ?_⟩
  rcases List.mem_append.1 hmem with hmem | hmem
  · exact hi i hmem
  · exact hi' i hmem

theorem trySend {item : Outgoing} (hQ : Q item) (h : s.trySend item = some s') : Grows Q s s' := by
  obtain ⟨tx, htx, -, rfl⟩ := trySend_some h
  rintro tx' ⟨⟩
  exact ⟨tx, [item], htx, rfl, by simpa using hQ⟩

theorem push {item : Outgoing} (hQ : Q item) : Grows Q s (s.push item) := by
  cases h : s.trySend item with
  | none => rw [Session.push, h]; exact refl s
  | some s' => rw [Session.push, h]; exact trySend hQ h

theorem launched {now id : Nat} {p : Pending} (hQ : Q (.send (p.render now id))) (h : Launched now s p id s') :
    Grows Q s s' := by
  obtain ⟨tx, htx, -, hout⟩ := h.out
  intro tx' htx'
  rw [hout] at htx'
  cases htx'
  exact ⟨tx, [.send (p.render now id)], htx, rfl, by simpa using hQ⟩

/-- A channel event that adds nothing. -/
theorem mapOut {g : OutTx → OutTx} (hg : ∀ tx, (g tx).sent = tx.sent) : Grows Q s { s with out := s.out.map g } := by
  intro tx' htx'
  obtain ⟨tx, htx, rfl⟩ := Option.map_eq_some_iff.1 htx'
  exact ⟨tx, [], htx, by simp [hg], by simp⟩

theorem gone (h : s'.out = none) : Grows Q s s' := fun tx htx => by rw [h] at htx; cases htx

end Grows

/-- The same channel with more items, each satisfying `Q`. -/
def Appends (Q : Outgoing → Prop) (s s' : Session) : Prop :=
  ∃ items, s'.out = (s.out.map fun tx => { tx with sent := tx.sent ++ items }) ∧ ∀ i ∈ items, Q i

namespace Appends
variable {Q Q' : Outgoing → Prop} {s s' s'' : Session}

theorem of_out (h : s'.out = s.out) : Appends Q s s' := ⟨[], by simp [h], by simp⟩

theorem refl (s : Session) : Appends Q s s := of_out rfl

theorem mono (hQ : ∀ i, Q i → Q' i) (h : Appends Q s s') : Appends Q' s s' := by
  obtain ⟨items, he, hi⟩ := h
  exact ⟨items, he, fun i hmem => hQ i (hi i hmem)⟩

theorem trans (h : Appends Q s s') (h' : Appends Q s' s'') : Appends Q s s'' := by
  obtain ⟨items, he, hi⟩ := h
  obtain ⟨items', he', hi'⟩ := h'
  refine ⟨items ++ items', by rw [he', he, Option.map_map]; simp [Function.comp_def], fun i hmem => ?_⟩
  rcases List.mem_append.1 hmem with hmem | hmem
  · exact hi i hmem
  · exact hi' i hmem

theorem trySend {item : Outgoing} (hQ : Q item) (h : s.trySend item = some s') : Appends Q s s' := by
  obtain ⟨tx, htx, -, rfl⟩ := trySend_some h
  exact ⟨[item], by simp [htx], by simpa using hQ⟩

theorem push (s : Session) (item : Outgoing) (hQ : Q item) : Appends Q s (s.push item) := by
  cases h : s.trySend item with
  | none => rw [Session.push, h]; exact refl s
  | some s' => rw [Session.push, h]; exact trySend hQ h

/-- A channel that has room had room before. -/
theorem room (h : Appends Q s s') (hr : s'.out.any OutTx.hasRoom) : s.out.any OutTx.hasRoom := by
  obtain ⟨items, h, -⟩ := h
  cases ho : s.out with
  | none => simp [h, ho] at hr
  | some tx =>
    simp only [h, ho, Option.map_some, Option.any_some, OutTx.hasRoom, Bool.and_eq_true, decide_eq_true_eq,
      List.length_append] at hr ⊢
    exact ⟨hr.1, by omega⟩

/-- What was pushed into the channel stays. -/
theorem mem {tx tx' : OutTx} {item : Outgoing} (h : Appends Q s s') (htx : s.out = some tx) (htx' : s'.out = some tx')
    {n : Nat} (hi : item ∈ tx.sent.drop n) : item ∈ tx'.sent.drop n := by
  obtain ⟨items, h, -⟩ := h
  rw [htx, htx', Option.map_some, Option.some.injEq] at h
  rw [h, List.drop_append]
  exact List.mem_append_left _ hi

end Appends

/-! ## The operations -/

section Push
variable (P : Protocol)

/-- A queued entry as `flush_queue` sends it: it has not expired and fits the client's limit. -/
def Flushes (now : Nat) (s : Session) (item : Outgoing) : Prop :=
  ∃ p ∈ s.queue, ∃ id, item = .send (p.render now id) ∧ p.message.isExpired now = false ∧
    s.oversized P (p.render now id) = false

/-- What an operation other than a takeover can push. -/
inductive MayPush (s : Session) : Op → Outgoing → Prop
  | qos0 {now : Nat} {m : Message} {retain : Bool} {subIds : List Nat} {maxQueued : Nat}
      (he : m.isExpired now = false) (hs : s.oversized P (m.toPublish now .atMostOnce none retain subIds) = false) :
      MayPush s (.deliver now m .atMostOnce retain subIds maxQueued) (.send (m.toPublish now .atMostOnce none retain subIds))
  | launched {now : Nat} {m : Message} {qos : QoS} {retain : Bool} {subIds : List Nat} {maxQueued id : Nat}
      (he : m.isExpired now = false) (hq : qos ≠ .atMostOnce)
      (hs : s.oversized P (m.toPublish now qos (some 0) retain subIds) = false) :
      MayPush s (.deliver now m qos retain subIds maxQueued)
        (.send (Pending.render now ⟨m, qos, retain, subIds⟩ id))
  | control {p : Packet} : MayPush s (.control p) (.control p)
  | shutdown {rc : ReasonCode} : MayPush s (.shutdown rc) (.shutdown rc)
  | puback {now id : Nat} {item : Outgoing} (h : Flushes P now s item) : MayPush s (.puback now id) item
  | pubcomp {now id : Nat} {item : Outgoing} (h : Flushes P now s item) : MayPush s (.pubcomp now id) item
  | pubrec {ack : PubAck} {rc : ReasonCode} : MayPush s (.pubrec ack) (.control (.pubrel ⟨ack.packetId, rc⟩))
  | pubrel {id : Nat} {rc : ReasonCode} : MayPush s (.pubrel id) (.control (.pubcomp ⟨id, rc⟩))

variable {P}

theorem enqueue_out (s : Session) (p : Pending) (maxQueued : Nat) : (s.enqueue p maxQueued).1.out = s.out := by
  unfold enqueue
  split <;> rfl

theorem deliver_grows (now : Nat) (s : Session) (m : Message) (qos : QoS) (retain : Bool) (subIds : List Nat)
    (maxQueued : Nat) :
    Grows (MayPush P s (.deliver now m qos retain subIds maxQueued)) s
      (deliver P now s m qos retain subIds maxQueued).1 := by
  by_cases hq : qos = .atMostOnce
  · subst hq
    unfold deliver
    split
    · exact .refl s
    · rename_i he
      rw [Bool.not_eq_true] at he
      simp only
      split
      · split
        · exact .refl s
        · rename_i hs
          rw [Bool.not_eq_true] at hs
          split
          · rename_i s' h
            exact .trySend (.qos0 he hs) h
          · exact .refl s
      · exact .refl s
  · have hd := deliver_delivered P now s m qos retain subIds maxQueued
    generalize (deliver P now s m qos retain subIds maxQueued).1 = s',
      (deliver P now s m qos retain subIds maxQueued).2 = fate at hd
    cases hd with
    | expired => exact .refl s
    | offline => exact .refl s
    | discarded => exact .refl s
    | pushed hq' => exact absurd hq' hq
    | launched he _ hs hl => exact .launched (.launched he hq hs) hl
    | queued _ _ hs =>
      rcases hs with rfl | rfl
      · exact .of_out (enqueue_out _ _ _)
      · exact .of_out (enqueue_out _ _ _)

/-- A delivery pushes at most one item, a PUBLISH. -/
theorem deliver_out (P : Protocol) (now : Nat) (s : Session) (m : Message) (qos : QoS) (retain : Bool)
    (subIds : List Nat) (maxQueued : Nat) :
    (deliver P now s m qos retain subIds maxQueued).1.out = s.out ∨
      ∃ p tx, s.out = some tx ∧ tx.hasRoom ∧ (deliver P now s m qos retain subIds maxQueued).1.out =
        some { tx with sent := tx.sent ++ [.send p] } := by
  have hd := deliver_delivered P now s m qos retain subIds maxQueued
  generalize (deliver P now s m qos retain subIds maxQueued).1 = s',
    (deliver P now s m qos retain subIds maxQueued).2 = fate at hd
  cases hd with
  | expired => exact .inl rfl
  | offline => exact .inl rfl
  | discarded => exact .inl rfl
  | pushed _ h =>
    obtain ⟨tx, htx, hroom, rfl⟩ := trySend_some h
    exact .inr ⟨_, tx, htx, hroom, rfl⟩
  | launched _ _ _ hl =>
    obtain ⟨tx, htx, hroom, hout⟩ := hl.out
    exact .inr ⟨_, tx, htx, hroom, hout⟩
  | queued _ _ hs =>
    rcases hs with rfl | rfl
    · exact .inl (enqueue_out _ _ _)
    · exact .inl (enqueue_out _ _ _)

theorem deliver_appends (now : Nat) (s : Session) (m : Message) (qos : QoS) (retain : Bool) (subIds : List Nat)
    (maxQueued : Nat) :
    Appends (fun i => ∃ p, i = .send p) s (deliver P now s m qos retain subIds maxQueued).1 := by
  rcases deliver_out P now s m qos retain subIds maxQueued with h | ⟨p, tx, htx, -, h⟩
  · exact .of_out h
  · exact ⟨[.send p], by rw [h, htx]; rfl, by simp⟩

/-- Routing only adds to a channel. -/
theorem apply_appends (s : Session) {o : Op} (h : o.isRouting) : Appends (fun _ => True) s (s.apply P o).1 := by
  cases o with
  | deliver now m qos retain subIds maxQueued =>
    exact (deliver_appends now s m qos retain subIds maxQueued).mono fun _ _ => trivial
  | control p => exact .push s _ trivial
  | setAlias a topic => exact .of_out rfl
  | inbound id => exact .of_out rfl
  | _ => cases h

theorem flushQueue_grows (now : Nat) (s : Session) : Grows (Flushes P now s) s (flushQueue P now s).1 := by
  obtain ⟨q, s', he, hs', -⟩ := flushLoop_sized_rule P now
    (fun q s' _ => (Grows (Flushes P now s) s s' ∧ s'.clientMaxPacketSize = s.clientMaxPacketSize) ∧
      ∀ p ∈ q, p ∈ s.queue)
    (fun _ _ _ h => ⟨⟨h.1.1.trans (.of_out rfl), h.1.2⟩, h.2⟩)
    (fun _ _ _ _ _ h => ⟨h.1, (List.forall_mem_cons.1 h.2).2⟩)
    (fun _ _ _ _ _ h => ⟨h.1, (List.forall_mem_cons.1 h.2).2⟩)
    (fun p q s₁ fs id s₂ hexp hsize hl h => by
      obtain ⟨⟨hg, hmax⟩, hq⟩ := h
      obtain ⟨hp, hq⟩ := List.forall_mem_cons.1 hq
      rw [oversized, hmax, ← oversized] at hsize
      exact ⟨⟨hg.trans (.launched ⟨p, hp, id, rfl, hexp, hsize⟩ hl),
        (SameRecord.launched hl).maxPacketSize.trans hmax⟩, hq⟩)
    s.queue s [] ⟨⟨.refl s, rfl⟩, fun _ h => h⟩
  rw [flushQueue, he]
  exact hs'.1.trans (.of_out rfl)

/-- **What an operation pushes.** -/
theorem apply_grows (s : Session) {o : Op} (h : o.isResume = false) : Grows (MayPush P s o) s (s.apply P o).1 := by
  cases o with
  | deliver now m qos retain subIds maxQueued => exact deliver_grows now s m qos retain subIds maxQueued
  | control p => exact .push .control
  | shutdown rc => exact .push .shutdown
  | puback now id =>
    have hf := flushQueue_grows (P := P) now { s with awaitingPuback := s.awaitingPuback.erase id }
    exact (Grows.of_out rfl).trans (hf.mono fun _ hi => .puback hi)
  | pubcomp now id =>
    have hf := flushQueue_grows (P := P) now { s with awaitingPubcomp := s.awaitingPubcomp.erase id }
    exact (Grows.of_out rfl).trans (hf.mono fun _ hi => .pubcomp hi)
  | pubrec ack =>
    simp only [apply, pubrec]
    split
    · exact .of_out rfl
    · split
      · exact (Grows.of_out rfl).trans (.push .pubrec)
      · split
        · exact .of_out rfl
        · exact (Grows.of_out rfl).trans (.push .pubrec)
  | pubrel id => exact (Grows.of_out rfl).trans (.push .pubrel)
  | subscribe sub =>
    simp only [apply, upsertSubscription]
    split <;> exact .of_out rfl
  | close => exact .gone rfl
  | recv =>
    refine .mapOut fun tx => ?_
    unfold OutTx.recv
    split <;> rfl
  | hangup => exact .mapOut fun _ => rfl
  | resume => cases h
  | _ => exact .of_out rfl

end Push

end Session

end WispMQ
