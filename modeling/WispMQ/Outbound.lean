import WispMQ.Sections
/-!
# The outbound side of a session

What the delivery functions can do, once and for all: `Delivered` inverts `deliver_to_session`,
`flushLoop_rule` is the invariant rule of `flush_queue`'s loop, and `apply_inert` says which operations
leave the in-flight maps, the queue and the id counter alone.
-/

namespace WispMQ
open KeyMap

namespace Session

/-- The in-flight maps, the queue and the id counter are the same. -/
structure SameOutbound (s s' : Session) : Prop where
  puback : s'.awaitingPuback = s.awaitingPuback
  pubrec : s'.awaitingPubrec = s.awaitingPubrec
  pubcomp : s'.awaitingPubcomp = s.awaitingPubcomp
  queue : s'.queue = s.queue
  next : s'.nextPacketId = s.nextPacketId

namespace SameOutbound

theorem refl (s : Session) : SameOutbound s s := ⟨rfl, rfl, rfl, rfl, rfl⟩

theorem trans {s s' s'' : Session} (h : SameOutbound s s') (h' : SameOutbound s' s'') : SameOutbound s s'' :=
  ⟨h'.1.trans h.1, h'.2.trans h.2, h'.3.trans h.3, h'.4.trans h.4, h'.5.trans h.5⟩

theorem idInUse {s s' : Session} (h : SameOutbound s s') (id : Nat) : s'.idInUse id = s.idInUse id := by
  simp only [Session.idInUse, h.puback, h.pubrec, h.pubcomp]

theorem inflightCount {s s' : Session} (h : SameOutbound s s') : s'.inflightCount = s.inflightCount := by
  simp only [Session.inflightCount, h.puback, h.pubrec, h.pubcomp]

end SameOutbound

/-! ## Pushing into the channel -/

theorem trySend_some {s s' : Session} {item : Outgoing} (h : s.trySend item = some s') :
    ∃ tx, s.out = some tx ∧ tx.hasRoom ∧ s' = { s with out := some { tx with sent := tx.sent ++ [item] } } := by
  cases hs : s.out with
  | none => simp [trySend, hs] at h
  | some tx =>
    by_cases hr : tx.hasRoom
    · refine ⟨tx, rfl, hr, ?_⟩
      simpa [trySend, hs, OutTx.trySend, hr] using h.symm
    · simp [trySend, hs, OutTx.trySend, hr] at h

theorem push_eq (s : Session) (item : Outgoing) : s.push item = { s with out := (s.push item).out } := by
  cases h : s.trySend item with
  | none => simp [push, h]
  | some s' =>
    obtain ⟨tx, -, -, rfl⟩ := trySend_some h
    simp [push, h]

theorem push_sameOutbound (s : Session) (item : Outgoing) : SameOutbound s (s.push item) := by
  rw [push_eq]; exact ⟨rfl, rfl, rfl, rfl, rfl⟩

/-- What pushing a duplicate preserves, re-sending does. -/
theorem resend_rule (I : Session → Prop) (hsend : ∀ s (p : Publish), I s → I (s.push (.send { p with dup := true }))) :
    ∀ (ps : List Publish) {s : Session}, I s → I (s.resend ps)
  | [], _, h => h
  | p :: ps, _, h => resend_rule I hsend ps (hsend _ p h)

theorem resendPubrel_rule (I : Session → Prop)
    (hrel : ∀ s id, I s → I (s.push (.control (.pubrel ⟨id, .success⟩)))) :
    ∀ (ids : List Nat) {s : Session}, I s → I (s.resendPubrel ids)
  | [], _, h => h
  | id :: ids, _, h => resendPubrel_rule I hrel ids (hrel _ id h)

/-- The invariant rule of `retransmit`. -/
theorem retransmit_rule (I : Session → Prop)
    (hsend : ∀ s (p : Publish), I s → I (s.push (.send { p with dup := true })))
    (hrel : ∀ s id, I s → I (s.push (.control (.pubrel ⟨id, .success⟩)))) (ord : Orders) {s : Session} (h : I s) :
    I (s.retransmit ord) :=
  resendPubrel_rule I hrel _ (resend_rule I hsend _ (resend_rule I hsend _ h))

theorem resend_sameOutbound (ps : List Publish) (s : Session) : SameOutbound s (s.resend ps) :=
  resend_rule (SameOutbound s) (fun _ _ h => h.trans (push_sameOutbound _ _)) ps (.refl s)

theorem resendPubrel_sameOutbound (ids : List Nat) (s : Session) : SameOutbound s (s.resendPubrel ids) :=
  resendPubrel_rule (SameOutbound s) (fun _ _ h => h.trans (push_sameOutbound _ _)) ids (.refl s)

theorem retransmit_sameOutbound (ord : Orders) (s : Session) : SameOutbound s (s.retransmit ord) :=
  ((resend_sameOutbound _ _).trans (resend_sameOutbound _ _)).trans (resendPubrel_sameOutbound _ _)

/-! ## Packet identifiers -/

theorem bumpId_range {id : Nat} (h : 1 ≤ id ∧ id ≤ 65535) : 1 ≤ bumpId id ∧ bumpId id ≤ 65535 := by
  simp only [bumpId]; split <;> omega

theorem scanIds_spec (used : Nat → Bool) : ∀ (fuel next : Nat), 1 ≤ next ∧ next ≤ 65535 →
    (1 ≤ (scanIds used fuel next).2 ∧ (scanIds used fuel next).2 ≤ 65535) ∧
    ∀ id, (scanIds used fuel next).1 = some id → used id = false ∧ 1 ≤ id ∧ id ≤ 65535
  | 0, next, h => ⟨h, by simp [scanIds]⟩
  | fuel + 1, next, h => by
    by_cases hu : used next
    · simp only [scanIds, hu, if_true]
      exact scanIds_spec used fuel _ (bumpId_range h)
    · simp only [scanIds, hu, Bool.false_eq_true, if_false]
      refine ⟨bumpId_range h, fun id hid => ?_⟩
      cases hid
      exact ⟨by simpa using hu, h⟩

theorem nextId_range {s : Session} (h : 1 ≤ s.nextPacketId ∧ s.nextPacketId ≤ 65535) :
    1 ≤ s.nextId.2.nextPacketId ∧ s.nextId.2.nextPacketId ≤ 65535 :=
  (scanIds_spec s.idInUse 65536 _ h).1

/-- An allocated id is in range and not in use. -/
theorem nextId_fresh {s : Session} (h : 1 ≤ s.nextPacketId ∧ s.nextPacketId ≤ 65535) {id : Nat}
    (hid : s.nextId.1 = some id) : s.idInUse id = false ∧ 1 ≤ id ∧ id ≤ 65535 :=
  (scanIds_spec s.idInUse 65536 _ h).2 id hid

/-- The counter `k` steps after `next`. -/
theorem bumpId_iterate {next : Nat} (h : 1 ≤ next ∧ next ≤ 65535) :
    ∀ k, bumpId^[k] next = (next - 1 + k) % 65535 + 1
  | 0 => by
    rw [Function.iterate_zero_apply, Nat.add_zero, Nat.mod_eq_of_lt] <;> omega
  | k + 1 => by
    rw [Function.iterate_succ_apply', bumpId_iterate h k, bumpId]
    split <;> omega

theorem scanIds_none {used : Nat → Bool} : ∀ {fuel next : Nat}, (scanIds used fuel next).1 = none →
    ∀ k < fuel, used (bumpId^[k] next)
  | 0, _, _, _, hk => absurd hk (Nat.not_lt_zero _)
  | fuel + 1, next, h, k, hk => by
    by_cases hu : used next
    · simp only [scanIds, hu, if_true] at h
      cases k with
      | zero => exact hu
      | succ k => exact scanIds_none h k (by omega)
    · simp [scanIds, hu] at h

/-- `next_id` gives up only when every id is taken. -/
theorem nextId_none {s : Session} (h : 1 ≤ s.nextPacketId ∧ s.nextPacketId ≤ 65535) (hid : s.nextId.1 = none)
    {id : Nat} (hr : 1 ≤ id ∧ id ≤ 65535) : s.idInUse id := by
  -- the scan is longer than one round, so it has come by `id`
  have hk : (id + 65535 - s.nextPacketId) % 65535 < 65536 :=
    lt_trans (Nat.mod_lt _ (by decide)) (by decide)
  have hused := scanIds_none hid _ hk
  rw [bumpId_iterate h] at hused
  have he : (s.nextPacketId - 1 + (id + 65535 - s.nextPacketId) % 65535) % 65535 + 1 = id := by omega
  rwa [he] at hused

/-! ## Sending under a new id -/

/-- The session after `p` was sent under `id` for the first time. -/
structure Launched (now : Nat) (s : Session) (p : Pending) (id : Nat) (s' : Session) : Prop where
  window : s.windowOpen
  fresh : s.nextId.1 = some id
  sent : ∃ tx, s.out = some tx ∧ tx.hasRoom ∧
    s' = { s.nextId.2 with
      out := some { tx with sent := tx.sent ++ [Outgoing.send (p.render now id)] } }.record p.qos id (p.render now id)

theorem launched_of {now : Nat} {s s' : Session} {p : Pending} {id : Nat} (hw : s.windowOpen)
    (hid : s.nextId.1 = some id) (h : s.nextId.2.trySend (.send (p.render now id)) = some s') :
    Launched now s p id (s'.record p.qos id (p.render now id)) := by
  obtain ⟨tx, htx, hroom, rfl⟩ := trySend_some h
  exact ⟨hw, hid, tx, htx, hroom, rfl⟩

theorem Launched.out {now : Nat} {s s' : Session} {p : Pending} {id : Nat} (h : Launched now s p id s') :
    ∃ tx, s.out = some tx ∧ tx.hasRoom ∧
      s'.out = some { tx with sent := tx.sent ++ [.send (p.render now id)] } := by
  obtain ⟨tx, htx, hroom, rfl⟩ := h.sent
  exact ⟨tx, htx, hroom, by cases p.qos <;> rfl⟩

theorem sendNow_cases (now : Nat) (s : Session) (p : Pending) :
    (∃ id s', s.sendNow now p = (s', some id) ∧ Launched now s p id s') ∨
    s.sendNow now p = (s, none) ∨ s.sendNow now p = (s.nextId.2, none) := by
  by_cases h : s.isOnline && s.windowOpen
  · rw [Bool.and_eq_true] at h
    cases hid : s.nextId.1 with
    | none =>
      refine .inr (.inr ?_)
      simp only [sendNow, h.1, h.2, Bool.and_self, if_true]
      rw [show s.nextId = (none, s.nextId.2) by rw [← hid]]
    | some id =>
      have he : s.nextId = (some id, s.nextId.2) := by rw [← hid]
      cases hsend : s.nextId.2.trySend (.send (p.render now id)) with
      | none =>
        refine .inr (.inr ?_)
        simp only [sendNow, h.1, h.2, Bool.and_self, if_true]
        rw [he]; simp only [hsend]
      | some s' =>
        refine .inl ⟨id, _, ?_, launched_of h.2 hid hsend⟩
        simp only [sendNow, h.1, h.2, Bool.and_self, if_true]
        rw [he]; simp only [hsend]
  · exact .inr (.inl (by simp [sendNow, h]))

end Session

/-! ## `deliver_to_session` -/

section Deliver
variable (P : Protocol) (now : Nat) (s : Session) (m : Message) (qos : QoS) (retain : Bool)
  (subIds : List Nat) (maxQueued : Nat)

/-- Everything `deliver_to_session` can do: the session it leaves and the fate of the message. -/
inductive Delivered : Session → Fate → Prop
  | expired (h : m.isExpired now = true) : Delivered s .expired
  | offline (hq : qos = .atMostOnce) : Delivered s .offline
  | discarded (h : m.isExpired now = false) : Delivered s .discarded
  | pushed {s' : Session} (hq : qos = .atMostOnce)
      (h : s.trySend (.send (m.toPublish now .atMostOnce none retain subIds)) = some s') :
      Delivered s' (.sent none)
  | launched {s' : Session} {id : Nat} (h : m.isExpired now = false) (hq : qos ≠ .atMostOnce)
      (hsize : s.oversized P (m.toPublish now qos (some 0) retain subIds) = false)
      (hl : s.Launched now ⟨m, qos, retain, subIds⟩ id s') : Delivered s' (.sent (some id))
  | queued {s' : Session} (h : m.isExpired now = false) (hq : qos ≠ .atMostOnce)
      (hs : s' = s ∨ s' = s.nextId.2) :
      Delivered (s'.enqueue ⟨m, qos, retain, subIds⟩ maxQueued).1
        (s'.enqueue ⟨m, qos, retain, subIds⟩ maxQueued).2

theorem deliver_delivered :
    Delivered P now s m qos retain subIds maxQueued
      (deliver P now s m qos retain subIds maxQueued).1 (deliver P now s m qos retain subIds maxQueued).2 := by
  cases he : m.isExpired now with
  | true => simp only [deliver, he, if_true]; exact .expired he
  | false =>
    by_cases hq : qos = .atMostOnce
    · subst hq
      simp only [deliver, he, Bool.false_eq_true, if_false]
      split
      · split
        · exact .discarded he
        · split
          · rename_i s' hs; exact .pushed rfl hs
          · exact .discarded he
      · exact .offline rfl
    · cases hsize : s.oversized P (m.toPublish now qos (some 0) retain subIds) with
      | true =>
        cases qos with
        | atMostOnce => exact absurd rfl hq
        | atLeastOnce | exactlyOnce =>
          simp only [deliver, he, hsize, Bool.false_eq_true, if_false, if_true]
          exact .discarded he
      | false =>
        rcases Session.sendNow_cases now s ⟨m, qos, retain, subIds⟩ with ⟨id, s', h, hl⟩ | h | h
        · have hd : deliver P now s m qos retain subIds maxQueued = (s', .sent (some id)) := by
            cases qos <;> simp_all [deliver]
          rw [hd]
          exact .launched he hq hsize hl
        · have hd : deliver P now s m qos retain subIds maxQueued = s.enqueue ⟨m, qos, retain, subIds⟩ maxQueued := by
            cases qos <;> simp_all [deliver]
          rw [hd]
          exact .queued he hq (.inl rfl)
        · have hd : deliver P now s m qos retain subIds maxQueued =
              s.nextId.2.enqueue ⟨m, qos, retain, subIds⟩ maxQueued := by
            cases qos <;> simp_all [deliver]
          rw [hd]
          exact .queued he hq (.inr rfl)

end Deliver

/-! ## `flush_queue` -/

section Flush
variable (P : Protocol) (now : Nat)

/-- The invariant rule of the loop: `J q s fs` speaks of the queue still to go, the session and the fates
so far. It must survive a move of the id counter and each of the three ways an entry leaves the queue; the size is
checked under the id the entry would be sent with. -/
theorem flushLoop_fates_rule (J : List Pending → Session → List (Pending × FlushFate) → Prop)
    (hnext : ∀ q s fs, J q s fs → J q s.nextId.2 fs)
    (hexpired : ∀ p q s fs, p.message.isExpired now = true → J (p :: q) s fs → J q s (fs ++ [(p, .expired)]))
    (hover : ∀ p q s fs id, p.message.isExpired now = false → s.nextId.1 = some id →
      s.oversized P (p.render now id) = true → J (p :: q) s fs → J q s.nextId.2 (fs ++ [(p, .oversized)]))
    (hsent : ∀ p q s fs id s', p.message.isExpired now = false → s.oversized P (p.render now id) = false →
      s.Launched now p id s' → J (p :: q) s fs → J q s' (fs ++ [(p, .sent id)])) :
    ∀ (q : List Pending) (s : Session) (fs : List (Pending × FlushFate)), J q s fs →
      ∃ q' s', (flushLoop P now q s).1 = { s' with queue := q' } ∧ J q' s' (fs ++ (flushLoop P now q s).2)
  | [], s, fs, h => ⟨[], s, rfl, by simpa [flushLoop] using h⟩
  | p :: q, s, fs, h => by
    unfold flushLoop
    split
    · rename_i hon
      rw [Bool.and_eq_true] at hon
      split
      · rename_i he
        have ih := flushLoop_fates_rule J hnext hexpired hover hsent q s _ (hexpired p q s fs he h)
        simpa using ih
      · rename_i he
        rw [Bool.not_eq_true] at he
        split
        · rename_i s1 hs1
          refine ⟨p :: q, s1, rfl, ?_⟩
          have := hnext _ _ _ h
          rw [hs1] at this
          simpa using this
        · rename_i id s1 hs1
          have h1 : s.nextId.2 = s1 := by rw [hs1]
          have hid : s.nextId.1 = some id := by rw [hs1]
          split
          · rename_i hsize
            have hsize : s.oversized P (p.render now id) = true := by
              rw [← h1] at hsize
              exact hsize
            have ih := flushLoop_fates_rule J hnext hexpired hover hsent q s1 _
              (h1 ▸ hover p q s fs id he hid hsize h)
            simpa using ih
          · rename_i hsize
            have hsize : s.oversized P (p.render now id) = false := by
              rw [Bool.not_eq_true, ← h1] at hsize
              exact hsize
            split
            · refine ⟨p :: q, s1, rfl, ?_⟩
              simpa using (h1 ▸ hnext _ _ _ h : J (p :: q) s1 fs)
            · rename_i s2 hs2
              have hl := Session.launched_of hon.2 hid (h1 ▸ hs2)
              have ih := flushLoop_fates_rule J hnext hexpired hover hsent q _ _ (hsent p q s fs id _ he hsize hl h)
              simpa using ih
    · exact ⟨p :: q, s, rfl, by simpa using h⟩

/-- The rule for what does not depend on which entries are too large. -/
theorem flushLoop_sized_rule (J : List Pending → Session → List (Pending × FlushFate) → Prop)
    (hnext : ∀ q s fs, J q s fs → J q s.nextId.2 fs)
    (hexpired : ∀ p q s fs, p.message.isExpired now = true → J (p :: q) s fs → J q s (fs ++ [(p, .expired)]))
    (hover : ∀ p q s fs, p.message.isExpired now = false → J (p :: q) s fs → J q s (fs ++ [(p, .oversized)]))
    (hsent : ∀ p q s fs id s', p.message.isExpired now = false → s.oversized P (p.render now id) = false →
      s.Launched now p id s' → J (p :: q) s fs → J q s' (fs ++ [(p, .sent id)]))
    (q : List Pending) (s : Session) (fs : List (Pending × FlushFate)) (h : J q s fs) :
    ∃ q' s', (flushLoop P now q s).1 = { s' with queue := q' } ∧ J q' s' (fs ++ (flushLoop P now q s).2) := by
  refine flushLoop_fates_rule P now J hnext hexpired ?_ hsent q s fs h
  intro p q s fs id he _ _ h
  exact hnext _ _ _ (hover p q s fs he h)

/-- The rule without the size check. -/
theorem flushLoop_rule (J : List Pending → Session → List (Pending × FlushFate) → Prop)
    (hnext : ∀ q s fs, J q s fs → J q s.nextId.2 fs)
    (hexpired : ∀ p q s fs, p.message.isExpired now = true → J (p :: q) s fs → J q s (fs ++ [(p, .expired)]))
    (hover : ∀ p q s fs, p.message.isExpired now = false → J (p :: q) s fs → J q s (fs ++ [(p, .oversized)]))
    (hsent : ∀ p q s fs id s', p.message.isExpired now = false → s.Launched now p id s' →
      J (p :: q) s fs → J q s' (fs ++ [(p, .sent id)])) (q : List Pending) (s : Session)
    (fs : List (Pending × FlushFate)) (h : J q s fs) :
    ∃ q' s', (flushLoop P now q s).1 = { s' with queue := q' } ∧ J q' s' (fs ++ (flushLoop P now q s).2) :=
  flushLoop_sized_rule P now J hnext hexpired hover (fun p q s fs id s' he _ => hsent p q s fs id s' he) q s fs h

end Flush

/-! ## Operations -/

/-- The operations that leave the outbound side alone. -/
def Op.isInert : Op → Bool
  | .deliver .. | .puback .. | .pubrec _ | .pubcomp .. | .resume .. => false
  | _ => true

/-- The operation is a delivery. -/
def Op.isDeliver : Op → Bool
  | .deliver .. => true
  | _ => false

theorem Session.apply_inert (P : Protocol) (s : Session) {o : Op} (h : o.isInert) :
    SameOutbound s (s.apply P o).1 := by
  cases o with
  | control p => exact push_sameOutbound s _
  | shutdown rc => exact push_sameOutbound s _
  | pubrel id =>
    have hrel : SameOutbound s { s with inboundQos2 := s.inboundQos2.erase id } := ⟨rfl, rfl, rfl, rfl, rfl⟩
    exact hrel.trans (push_sameOutbound _ _)
  | subscribe sub =>
    simp only [apply, upsertSubscription]
    split <;> exact ⟨rfl, rfl, rfl, rfl, rfl⟩
  | _ => first | exact ⟨rfl, rfl, rfl, rfl, rfl⟩ | simp [Op.isInert] at h

/-- Before anything is sent, a takeover keeps the outbound side, or clears it if the identity changed. -/
theorem Session.resumeBound_outbound (P : Protocol) (now : Nat) (cfg : Config) (acl : Acl) (req : ConnectRequest)
    (epoch : Nat) (s : Session) :
    SameOutbound (if Broker.identityChanged s.identity req.identity then s.clearOwned else s)
      (s.resumeBound P now cfg acl req epoch) := by
  simp only [resumeBound, Broker.reauthorize, takenOver]
  split
  · split <;> exact ⟨rfl, rfl, rfl, rfl, rfl⟩
  · split <;> exact ⟨rfl, rfl, rfl, rfl, rfl⟩

end WispMQ
