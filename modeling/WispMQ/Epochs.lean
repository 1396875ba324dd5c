import WispMQ.Outbound
/-!
# Epochs

Only a CONNECT or a bridge registration binds a session to a connection, and each takes a new epoch. So the
epoch of a client's session never goes back (`run_atLeast`), and what a connection was bound with stays
as it is until the next one (`SameBinding`).
-/

namespace WispMQ
open KeyMap

namespace Session

/-- The fields `handle_connect` binds, apart from the channel. -/
structure SameBinding (s s' : Session) : Prop where
  clientId : s'.clientId = s.clientId
  identity : s'.identity = s.identity
  epoch : s'.epoch = s.epoch
  persistent : s'.persistent = s.persistent
  receiveMaximum : s'.clientReceiveMaximum = s.clientReceiveMaximum
  maxPacketSize : s'.clientMaxPacketSize = s.clientMaxPacketSize

/-- The binding and what the database stores of a session. -/
structure SameRecord (s s' : Session) : Prop extends SameBinding s s' where
  expiry : s'.sessionExpiryInterval = s.sessionExpiryInterval
  subscriptions : s'.subscriptions = s.subscriptions

namespace SameRecord

theorem refl (s : Session) : SameRecord s s := ⟨⟨rfl, rfl, rfl, rfl, rfl, rfl⟩, rfl, rfl⟩

theorem trans {s s' s'' : Session} (h : SameRecord s s') (h' : SameRecord s' s'') : SameRecord s s'' :=
  ⟨⟨h'.1.1.trans h.1.1, h'.1.2.trans h.1.2, h'.1.3.trans h.1.3, h'.1.4.trans h.1.4, h'.1.5.trans h.1.5,
    h'.1.6.trans h.1.6⟩, h'.2.trans h.2, h'.3.trans h.3⟩

theorem push (s : Session) (item : Outgoing) : SameRecord s (s.push item) := by
  rw [push_eq]; exact ⟨⟨rfl, rfl, rfl, rfl, rfl, rfl⟩, rfl, rfl⟩

theorem launched {now id : Nat} {s s' : Session} {p : Pending} (h : Launched now s p id s') : SameRecord s s' := by
  obtain ⟨tx, -, -, rfl⟩ := h.sent
  unfold record
  split <;> exact ⟨⟨rfl, rfl, rfl, rfl, rfl, rfl⟩, rfl, rfl⟩

theorem flushQueue (P : Protocol) (now : Nat) (s : Session) : SameRecord s (flushQueue P now s).1 := by
  obtain ⟨q, s', he, hs'⟩ := flushLoop_rule P now (fun _ s' _ => SameRecord s s')
    (fun _ _ _ h => h.trans ⟨⟨rfl, rfl, rfl, rfl, rfl, rfl⟩, rfl, rfl⟩)
    (fun _ _ _ _ _ h => h) (fun _ _ _ _ _ h => h)
    (fun _ _ _ _ _ _ _ hl h => h.trans (launched hl)) s.queue s [] (refl s)
  rw [WispMQ.flushQueue, he]
  exact hs'.trans ⟨⟨rfl, rfl, rfl, rfl, rfl, rfl⟩, rfl, rfl⟩

theorem delivered {P : Protocol} {now : Nat} {s s' : Session} {m : Message} {qos : QoS} {retain : Bool} {subIds : List Nat}
    {maxQueued : Nat} {fate : Fate} (h : Delivered P now s m qos retain subIds maxQueued s' fate) :
    SameRecord s s' := by
  have enq : ∀ s1 : Session, SameRecord s1 (s1.enqueue ⟨m, qos, retain, subIds⟩ maxQueued).1 := by
    intro s1
    unfold Session.enqueue
    split <;> exact ⟨⟨rfl, rfl, rfl, rfl, rfl, rfl⟩, rfl, rfl⟩
  cases h with
  | expired => exact refl s
  | offline => exact refl s
  | discarded => exact refl s
  | pushed _ hs =>
    obtain ⟨tx, -, -, rfl⟩ := trySend_some hs
    exact ⟨⟨rfl, rfl, rfl, rfl, rfl, rfl⟩, rfl, rfl⟩
  | launched _ _ _ hl => exact launched hl
  | queued _ _ hs =>
    rcases hs with rfl | rfl
    · exact enq _
    · refine SameRecord.trans ?_ (enq s.nextId.2)
      exact ⟨⟨rfl, rfl, rfl, rfl, rfl, rfl⟩, rfl, rfl⟩

end SameRecord

theorem resend_sameRecord (ps : List Publish) (s : Session) : SameRecord s (s.resend ps) :=
  resend_rule (SameRecord s) (fun _ _ h => h.trans (.push _ _)) ps (.refl s)

theorem retransmit_sameRecord (ord : Orders) (s : Session) : SameRecord s (s.retransmit ord) :=
  retransmit_rule (SameRecord s) (fun _ _ h => h.trans (.push _ _)) (fun _ _ h => h.trans (.push _ _)) ord (.refl s)

end Session

/-- The operations that leave a session's stored record alone. -/
def Op.isQuiet : Op → Bool
  | .subscribe _ | .unsubscribe .. | .revoke _ | .bridgeSubscribe _ | .setExpiry _ | .resume .. => false
  | _ => true

namespace Session
variable (P : Protocol)

theorem apply_quiet (s : Session) {o : Op} (h : o.isQuiet) : SameRecord s (s.apply P o).1 := by
  cases o with
  | deliver now m qos retain subIds maxQueued =>
    exact .delivered (deliver_delivered P now s m qos retain subIds maxQueued)
  | control p => exact .push s _
  | shutdown rc => exact .push s _
  | puback now id =>
    refine SameRecord.trans ?_ (.flushQueue P now { s with awaitingPuback := s.awaitingPuback.erase id })
    exact ⟨⟨rfl, rfl, rfl, rfl, rfl, rfl⟩, rfl, rfl⟩
  | pubcomp now id =>
    refine SameRecord.trans ?_ (.flushQueue P now { s with awaitingPubcomp := s.awaitingPubcomp.erase id })
    exact ⟨⟨rfl, rfl, rfl, rfl, rfl, rfl⟩, rfl, rfl⟩
  | pubrec ack =>
    simp only [apply, pubrec]
    split
    · exact ⟨⟨rfl, rfl, rfl, rfl, rfl, rfl⟩, rfl, rfl⟩
    · split
      · refine SameRecord.trans ?_ (.push _ _)
        exact ⟨⟨rfl, rfl, rfl, rfl, rfl, rfl⟩, rfl, rfl⟩
      · split
        · exact ⟨⟨rfl, rfl, rfl, rfl, rfl, rfl⟩, rfl, rfl⟩
        · refine SameRecord.trans ?_ (.push _ _)
          exact ⟨⟨rfl, rfl, rfl, rfl, rfl, rfl⟩, rfl, rfl⟩
  | pubrel id =>
    refine SameRecord.trans ?_ (.push _ _)
    exact ⟨⟨rfl, rfl, rfl, rfl, rfl, rfl⟩, rfl, rfl⟩
  | _ => first | exact ⟨⟨rfl, rfl, rfl, rfl, rfl, rfl⟩, rfl, rfl⟩ | simp [Op.isQuiet] at h

/-- Only a takeover rebinds a session. -/
theorem apply_binding (s : Session) {o : Op} (h : o.isResume = false) : SameBinding s (s.apply P o).1 := by
  by_cases hq : o.isQuiet
  · exact (apply_quiet P s hq).toSameBinding
  · cases o with
    | subscribe sub =>
      simp only [apply, upsertSubscription]
      split <;> exact ⟨rfl, rfl, rfl, rfl, rfl, rfl⟩
    | resume => simp [Op.isResume] at h
    | _ => first | exact ⟨rfl, rfl, rfl, rfl, rfl, rfl⟩ | simp [Op.isQuiet] at hq

/-- What a takeover binds. -/
theorem apply_resume_binding (now : Nat) (ord : Orders) (cfg : Config) (acl : Acl) (req : ConnectRequest)
    (epoch : Nat) (s : Session) :
    SameRecord (s.resumeBound P now cfg acl req epoch) (s.apply P (.resume now ord cfg acl req epoch)).1 := by
  simp only [apply, resumeDelivery]
  split
  · exact (retransmit_sameRecord ord _).trans (.flushQueue P now _)
  · exact .refl _

/-! ### The bound session -/

section Bound
variable (now : Nat) (cfg : Config) (acl : Acl) (req : ConnectRequest) (epoch : Nat) (s : Session)

theorem resumeBound_epoch : (s.resumeBound P now cfg acl req epoch).epoch = epoch := by
  simp only [resumeBound, Broker.reauthorize]; split <;> rfl

theorem resumeBound_out : (s.resumeBound P now cfg acl req epoch).out = some req.out := by
  simp only [resumeBound, Broker.reauthorize]; split <;> rfl

theorem resumeBound_identity : (s.resumeBound P now cfg acl req epoch).identity = req.identity := by
  simp only [resumeBound, Broker.reauthorize]; split <;> rfl

theorem resumeBound_receiveMaximum :
    (s.resumeBound P now cfg acl req epoch).clientReceiveMaximum = req.connect.receiveMaximum.getD 65535 := by
  simp only [resumeBound, Broker.reauthorize]; split <;> rfl

end Bound

/-- Without a takeover, a session that has no channel gets none. -/
theorem apply_offline (s : Session) {o : Op} (h : o.isResume = false) (ho : s.out = none) :
    (s.apply P o).1.out = none := by
  have hpush : ∀ (s : Session) (item : Outgoing), s.out = none → (s.push item).out = none := by
    intro s item hs; simp [push, trySend, hs]
  have hlaunch : ∀ {now id : Nat} {s s' : Session} {p : Pending}, s.out = none → ¬Launched now s p id s' := by
    intro now id s s' p hs hl
    obtain ⟨tx, htx, -⟩ := hl.sent
    rw [hs] at htx; cases htx
  have hflush : ∀ (now : Nat) (s : Session), s.out = none → (flushQueue P now s).1.out = none := by
    intro now s hs
    obtain ⟨q, s', he, hs'⟩ := flushLoop_rule P now (fun _ s' _ => s'.out = none) (fun _ _ _ h => h)
      (fun _ _ _ _ _ h => h) (fun _ _ _ _ _ h => h) (fun _ _ _ _ _ _ _ hl h => absurd hl (hlaunch h)) s.queue s [] hs
    rw [flushQueue, he]
    exact hs'
  cases o with
  | deliver now m qos retain subIds maxQueued =>
    have hd := deliver_delivered P now s m qos retain subIds maxQueued
    simp only [apply, deliverToSession]
    generalize (deliver P now s m qos retain subIds maxQueued).1 = s',
      (deliver P now s m qos retain subIds maxQueued).2 = fate at hd
    cases hd with
    | expired => exact ho
    | offline => exact ho
    | discarded => exact ho
    | pushed _ hs => simp [trySend, ho] at hs
    | launched _ _ _ hl => exact absurd hl (hlaunch ho)
    | queued _ _ hs =>
      rcases hs with rfl | rfl <;> simp only [enqueue] <;> split <;> exact ho
  | control p => exact hpush s _ ho
  | shutdown rc => exact hpush s _ ho
  | puback now id => exact hflush now _ ho
  | pubcomp now id => exact hflush now _ ho
  | pubrec ack =>
    simp only [apply, pubrec]
    split
    · exact ho
    · split
      · exact hpush _ _ ho
      · split
        · exact ho
        · exact hpush _ _ ho
  | pubrel id => exact hpush _ _ ho
  | subscribe sub =>
    simp only [apply, upsertSubscription]
    split <;> exact ho
  | close => rfl
  | recv => simp [apply, ho]
  | hangup => simp [apply, ho]
  | resume => simp [Op.isResume] at h
  | _ => exact ho

end Session

namespace Broker
variable {P : Protocol}

/-- A CONNECT that finds its session present binds that session. -/
theorem boundSession_present (now : Nat) {b : Broker} {req : ConnectRequest} (h : (b.claimed req).2) :
    ∃ s, req.connect.cleanStart = false ∧ b.sessions.lookup req.clientId = some s ∧
      boundSession P now b req = s.resumeBound P now b.config b.acl req b.nextEpoch := by
  obtain ⟨hclean, s, hs, hc⟩ := claimed_present h
  exact ⟨s, hclean, hs, by rw [boundSession, h, hc, Session.resumeBound]⟩

theorem boundSession_absent (now : Nat) {b : Broker} {req : ConnectRequest} (h : (b.claimed req).2 = false) :
    boundSession P now b req = freshSession now b req := by
  rw [boundSession, h, claimed_absent h]
  rfl

theorem boundSession_epoch (now : Nat) (b : Broker) (req : ConnectRequest) :
    (boundSession P now b req).epoch = b.nextEpoch := by
  simp only [boundSession, reauthorize]
  split <;> rfl

theorem resumed_sameRecord (now : Nat) (ord : Orders) (present : Bool) (s : Session) :
    s.SameRecord (resumed P now ord present s).1 := by
  unfold resumed resumeDelivery
  split
  · split
    · exact (Session.retransmit_sameRecord ord s).trans (.flushQueue P now _)
    · exact .refl s
  · exact .refl s

end Broker

/-! ## Epochs only grow -/

namespace Fleet
variable {P : Protocol} {f f' : Fleet}

/-- An operation that is no takeover keeps every session, with its binding. -/
theorem apply_op_binding {o : Op} (h : o.isResume = false) (cid c : String) (s' : Session)
    (hs : ((Move.op cid o).apply P f).session c = some s') :
    ∃ s, f.session c = some s ∧ s.SameBinding s' ∧ (s.out = none → s'.out = none) := by
  cases hf : f.session cid with
  | none =>
    simp only [Move.apply, hf] at hs
    exact ⟨s', hs, ⟨rfl, rfl, rfl, rfl, rfl, rfl⟩, fun h => h⟩
  | some s =>
    rw [apply_op hf] at hs
    simp only [Function.update_apply] at hs
    split at hs
    · rename_i hc
      cases hs
      exact ⟨s, hc ▸ hf, Session.apply_binding P s h, Session.apply_offline P s h⟩
    · exact ⟨s', hs, ⟨rfl, rfl, rfl, rfl, rfl, rfl⟩, fun h => h⟩

theorem Reaches.binding (h : Reaches P (Move.IsOp Op.isRoutine) f f') :
    f'.nextEpoch = f.nextEpoch ∧ ∀ c s', f'.session c = some s' →
      ∃ s, f.session c = some s ∧ s.SameBinding s' ∧ (s.out = none → s'.out = none) := by
  refine h.invariant (fun g => g.nextEpoch = f.nextEpoch ∧ ∀ c s', g.session c = some s' →
      ∃ s, f.session c = some s ∧ s.SameBinding s' ∧ (s.out = none → s'.out = none)) ?_
    ⟨rfl, fun c s hs => ⟨s, hs, ⟨rfl, rfl, rfl, rfl, rfl, rfl⟩, fun h => h⟩⟩
  rintro g (⟨cid, o⟩ | _ | _) hmv ⟨hn, hg⟩
  · refine ⟨?_, fun c s' hs => ?_⟩
    · simp only [Move.apply]; split <;> exact hn
    · obtain ⟨s1, hs1, hb, ho⟩ := apply_op_binding (Op.isResume_of_isRoutine hmv) cid c s' hs
      obtain ⟨s, hs, hb', ho'⟩ := hg c s1 hs1
      exact ⟨s, hs, ⟨hb.1.trans hb'.1, hb.2.trans hb'.2, hb.3.trans hb'.3, hb.4.trans hb'.4, hb.5.trans hb'.5,
        hb.6.trans hb'.6⟩, fun h => ho (ho' h)⟩
  · cases hmv
  · cases hmv

end Fleet

namespace World
variable {P : Protocol} {w : World} {l : Label} {f : Fleet}

/-- Every session after a step was there before with the same binding, or a CONNECT or a bridge registration
bound it in the step. -/
theorem Change.bound (hc : Change P w l f) {cid : String} {s' : Session} (hs' : f.session cid = some s') :
    (∃ s, w.broker.sessions.lookup cid = some s ∧ s.SameBinding s' ∧ (s.out = none → s'.out = none)) ∨
    (∃ req, w.selected l.input = some (.connect req) ∧ cid = req.clientId ∧
      (Broker.boundSession P l.now w.broker req).SameRecord s') ∨
    ∃ name, l.input = .call (.registerBridge name) ∧ cid = bridgeClient name ∧
      s' = Broker.bridgeSession w.broker cid := by
  have hkeep : ∀ {s}, w.broker.sessions.lookup cid = some s → s = s' →
      ∃ s, w.broker.sessions.lookup cid = some s ∧ s.SameBinding s' ∧ (s.out = none → s'.out = none) :=
    fun hs e => ⟨_, hs, e ▸ ⟨rfl, rfl, rfl, rfl, rfl, rfl⟩, e ▸ id⟩
  cases hc with
  | routine hr =>
    exact .inl (hr.binding.2 cid s' hs')
  | ack hsel ho hs he =>
    exact .inl (Fleet.apply_op_binding (isResume_ackOp ho) _ cid s' hs')
  | connect hsel =>
    rename_i req
    unfold Broker.connectMove at hs'
    split at hs'
    · rename_i hp
      obtain ⟨s, -, hs, hb⟩ := Broker.boundSession_present (P := P) l.now hp
      rw [Fleet.apply_op (f := w.broker.fleet) hs] at hs'
      simp only [Fleet.tick, Function.update_apply] at hs'
      split at hs'
      · rename_i hcid
        cases hs'
        refine .inr (.inl ⟨req, hsel, hcid, ?_⟩)
        exact hb ▸ Session.apply_resume_binding P _ _ _ _ _ _ _
      · exact .inl (hkeep hs' rfl)
    · rename_i hp
      rw [Bool.not_eq_true] at hp
      simp only [Move.apply, Fleet.set, Fleet.tick, Function.update_apply] at hs'
      split at hs'
      · rename_i hcid
        cases hs'
        exact .inr (.inl ⟨req, hsel, hcid, Broker.boundSession_absent (P := P) l.now hp ▸ .refl _⟩)
      · exact .inl (hkeep hs' rfl)
  | bridge hin =>
    rename_i name
    simp only [Move.apply, Fleet.set, Fleet.tick, Function.update_apply] at hs'
    split at hs'
    · rename_i hcid
      cases hs'
      exact .inr (.inr ⟨name, hin, hcid, hcid ▸ rfl⟩)
    · exact .inl (hkeep hs' rfl)
  | removed =>
    simp only [Move.apply, Fleet.set, Function.update_apply] at hs'
    split at hs'
    · cases hs'
    · exact .inl (hkeep hs' rfl)

/-- Every session after a step was there before with the same binding, or was bound in the step with the
epoch given out then. -/
theorem Change.epochs (hc : Change P w l f) :
    w.broker.nextEpoch ≤ f.nextEpoch ∧ ∀ cid s', f.session cid = some s' →
      (∃ s, w.broker.sessions.lookup cid = some s ∧ s.SameBinding s' ∧ (s.out = none → s'.out = none)) ∨
      (s'.epoch = w.broker.nextEpoch ∧ f.nextEpoch = w.broker.nextEpoch + 1) := by
  have hset : ∀ {cid c : String} {x : Option Session} {s' : Session} {n : Nat},
      (∀ s, x = some s → s.epoch = w.broker.nextEpoch ∧ n = w.broker.nextEpoch + 1) →
      (w.broker.fleet.set cid x).session c = some s' →
      (∃ s, w.broker.sessions.lookup c = some s ∧ s.SameBinding s' ∧ (s.out = none → s'.out = none)) ∨
      (s'.epoch = w.broker.nextEpoch ∧ n = w.broker.nextEpoch + 1) := by
    intro cid c x s' n hx hs
    simp only [Fleet.set, Function.update_apply] at hs
    split at hs
    · exact .inr (hx s' hs)
    · exact .inl ⟨s', hs, ⟨rfl, rfl, rfl, rfl, rfl, rfl⟩, fun h => h⟩
  cases hc with
  | routine hr =>
    obtain ⟨hn, hb⟩ := hr.binding
    exact ⟨hn ▸ le_rfl, fun cid s' hs => .inl (hb cid s' hs)⟩
  | ack hsel ho hs he =>
    refine ⟨?_, fun c s' hs' => .inl (Fleet.apply_op_binding (isResume_ackOp ho) _ c s' hs')⟩
    rw [Fleet.apply_op (f := w.broker.fleet) hs]
    exact le_rfl
  | connect hsel =>
    rename_i req
    unfold Broker.connectMove
    split
    · rename_i hp
      obtain ⟨-, s, hs, -⟩ := Broker.claimed_present hp
      rw [Fleet.apply_op (f := w.broker.fleet) hs]
      refine ⟨Nat.le_succ _, fun c s' hs' => hset (x := some (s.apply P _).1) (fun s1 e => ?_) hs'⟩
      cases e
      refine ⟨?_, rfl⟩
      rw [(Session.apply_resume_binding P _ _ _ _ _ _ _).epoch, Session.resumeBound_epoch]
    · exact ⟨Nat.le_succ _, fun c s' hs' => hset (fun s1 e => by cases e; exact ⟨rfl, rfl⟩) hs'⟩
  | bridge hin =>
    exact ⟨Nat.le_succ _, fun c s' hs' => hset (fun s1 e => by cases e; exact ⟨rfl, rfl⟩) hs'⟩
  | removed => exact ⟨le_rfl, fun c s' hs' => hset (fun s1 e => by cases e) hs'⟩

/-- What the operations of a step make of a session that the step does not rebind: routine operations, or an acknowledgement
of the session's own connection. -/
theorem Change.rule (hc : Change P w l f) {cid : String} {s s' : Session} (hs : w.broker.sessions.lookup cid = some s)
    (hs' : f.session cid = some s') (he : s'.epoch ≠ w.broker.nextEpoch) (Q : Session → Prop) (hstart : Q s)
    (hroutine : ∀ s₁ o, o.isRoutine = true → Q s₁ → Q (s₁.apply P o).1)
    (hack : ∀ packet o, w.selected l.input = some (.dispatch cid s.epoch packet) → ackOp l.now packet = some o →
      Q (s.apply P o).1) : Q s' := by
  have hfleet : w.broker.fleet.session cid = some s := hs
  -- a move elsewhere leaves the session as it was; one that rebinds it takes the next epoch
  have hset : ∀ {c : String} {x : Option Session}, (∀ s₁, x = some s₁ → s₁.epoch = w.broker.nextEpoch) →
      (w.broker.fleet.set c x).session cid = some s' → Q s' := by
    intro c x hx hset
    simp only [Fleet.set, Function.update_apply] at hset
    split at hset
    · exact absurd (hx s' hset) he
    · rw [hfleet] at hset
      cases hset
      exact hstart
  cases hc with
  | routine hr =>
    refine hr.invariant (fun g => ∀ s₁, g.session cid = some s₁ → Q s₁) ?_ ?_ s' hs'
    · rintro g (⟨c, o⟩ | _ | _) hmv hg s₁ hs₁
      · cases hgc : g.session c with
        | none =>
          simp only [Move.apply, hgc] at hs₁
          exact hg s₁ hs₁
        | some s₀ =>
          rw [Fleet.apply_op hgc] at hs₁
          simp only [Function.update_apply] at hs₁
          split at hs₁
          · rename_i hcc
            cases hs₁
            exact hroutine s₀ o hmv (hg s₀ (hcc ▸ hgc))
          · exact hg s₁ hs₁
      · cases hmv
      · cases hmv
    · intro s₁ hs₁
      rw [hfleet] at hs₁
      cases hs₁
      exact hstart
  | ack hsel ho hs₀ he₀ =>
    rw [Fleet.apply_op (f := w.broker.fleet) hs₀] at hs'
    simp only [Function.update_apply] at hs'
    split at hs'
    · rename_i hcc
      subst hcc
      rw [hs] at hs₀
      cases hs₀
      cases hs'
      exact hack _ _ (he₀ ▸ hsel) ho
    · rw [hfleet] at hs'
      cases hs'
      exact hstart
  | connect hsel =>
    unfold Broker.connectMove at hs'
    split at hs'
    · rename_i hp
      obtain ⟨-, s₀, hs₀, -⟩ := Broker.claimed_present hp
      rw [Fleet.apply_op (f := w.broker.fleet) hs₀] at hs'
      refine hset (x := some (s₀.apply P _).1) (fun s₁ e => ?_) hs'
      cases e
      rw [(Session.apply_resume_binding P _ _ _ _ _ _ _).epoch, Session.resumeBound_epoch]
    · exact hset (fun s₁ e => by cases e; rfl) hs'
  | bridge hin => exact hset (fun s₁ e => by cases e; rfl) hs'
  | removed => exact hset (fun s₁ e => by cases e) hs'

/-- Epochs already given out are below the next one. -/
def EpochsOk (w : World) : Prop := ∀ cid s, w.broker.sessions.lookup cid = some s → s.epoch < w.broker.nextEpoch

theorem step_epochsOk (P : Protocol) (l : Label) (h : w.EpochsOk) : (step P w l).1.EpochsOk := by
  intro cid s' hs
  obtain ⟨hle, hb⟩ := (step_change P w l).epochs
  have hle' : w.broker.nextEpoch ≤ (step P w l).1.broker.nextEpoch := hle
  rcases hb cid s' hs with ⟨s, hs0, hsame, -⟩ | ⟨he, hn⟩
  · have := h cid s hs0
    rw [hsame.epoch]; omega
  · have hn' : (step P w l).1.broker.nextEpoch = w.broker.nextEpoch + 1 := hn
    omega

theorem boot_epochsOk (P : Protocol) (now : Nat) (cfg : Config) (db : Db) (acl : Acl) (auth : Option Credentials) :
    (boot P now cfg db acl auth).EpochsOk := by
  intro cid s hs
  rw [boot_lookup] at hs
  split at hs
  · cases hs
  · obtain ⟨row, -, rfl⟩ := Option.map_eq_some_iff.1 hs
    exact Nat.zero_lt_one

theorem run_epochsOk (P : Protocol) {w : World} (h : w.EpochsOk) (ls : List Label) : (run P w ls).1.EpochsOk :=
  Machine.run_preserves (step P) EpochsOk (fun _ l h => step_epochsOk P l h) h ls

/-- Epoch `e` has been given out, and `cid`'s session is no older. -/
def AtLeast (cid : String) (e : Nat) (w : World) : Prop :=
  e < w.broker.nextEpoch ∧ ∀ s, w.broker.sessions.lookup cid = some s → e ≤ s.epoch

theorem step_atLeast (P : Protocol) (l : Label) {cid : String} {e : Nat} (h : w.AtLeast cid e) :
    (step P w l).1.AtLeast cid e := by
  obtain ⟨hle, hb⟩ := (step_change P w l).epochs
  refine ⟨lt_of_lt_of_le h.1 hle, fun s' hs => ?_⟩
  rcases hb cid s' hs with ⟨s, hs0, hsame, -⟩ | ⟨he, -⟩
  · rw [hsame.epoch]; exact h.2 s hs0
  · rw [he]; exact le_of_lt h.1

/-- The epoch of a client's session never goes back. -/
theorem run_atLeast (P : Protocol) {cid : String} {e : Nat} (h : w.AtLeast cid e) (ls : List Label) :
    (run P w ls).1.AtLeast cid e :=
  Machine.run_preserves (step P) (AtLeast cid e) (fun _ l h => step_atLeast P l h) h ls

end World

end WispMQ
