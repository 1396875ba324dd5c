import WispMQ.World
/-!
# What a step does to the sessions

The abstract view of the broker: a `Fleet` is the session of each client and the number of messages
dropped so far, and it changes by `Move`s. A move applies one operation to one session (`Op`), puts a new
session in place, or removes one. Every critical section of the faithful model is a list of moves, in the
order in which the code makes them (`Sections`). An invariant of sessions is then proved once per `Op` and
holds of every reachable state.
-/

namespace WispMQ
open KeyMap

/-- One operation on a session record. -/
inductive Op where
  | deliver (now : Nat) (message : Message) (qos : QoS) (retain : Bool) (subIds : List Nat) (maxQueued : Nat)
  | control (p : Packet)
  | shutdown (rc : ReasonCode)
  | puback (now id : Nat)
  | pubrec (ack : PubAck)
  | pubrel (id : Nat)
  | pubcomp (now id : Nat)
  /-- Remember a topic alias. -/
  | setAlias (a : Nat) (topic : String)
  /-- Remember the packet id of an inbound QoS 2 PUBLISH. -/
  | inbound (id : Nat)
  | subscribe (sub : Subscription)
  | unsubscribe (filter : String) (shareName : Option String)
  /-- Keep the subscriptions the policy grants. -/
  | revoke (acl : Acl)
  | bridgeSubscribe (sub : Subscription)
  | setExpiry (secs : Nat)
  | close
  | recv
  | hangup
  /-- A CONNECT takes the session over. -/
  | resume (now : Nat) (ord : Orders) (cfg : Config) (acl : Acl) (req : ConnectRequest) (epoch : Nat)

namespace Op

/-- The operations `route` and the handler of a PUBLISH make. -/
def isRouting : Op → Bool
  | deliver .. | control _ | setAlias .. | inbound _ => true
  | _ => false

/-- The acknowledgements that can end an exchange. -/
def isAck : Op → Bool
  | puback .. | pubrec _ | pubcomp .. => true
  | _ => false

def isResume : Op → Bool
  | resume .. => true
  | _ => false

/-- Neither an acknowledgement nor a takeover. -/
def isRoutine (o : Op) : Bool := !o.isAck && !o.isResume

/-- The connection stays; the operation reads the clock at `now` and delivers up to the bound `maxQueued`. -/
def steadyAt (now maxQueued : Nat) : Op → Bool
  | deliver now' _ _ _ _ maxQueued' => now' = now && maxQueued' = maxQueued
  | puback now' _ | pubcomp now' _ => now' = now
  | close | resume .. => false
  | _ => true

def routingAt (now maxQueued : Nat) (o : Op) : Bool := o.isRouting && o.steadyAt now maxQueued

def routineAt (now maxQueued : Nat) (o : Op) : Bool := o.isRoutine && o.steadyAt now maxQueued

theorem routingAt_deliver (now maxQueued : Nat) (m : Message) (qos : QoS) (retain : Bool) (subIds : List Nat) :
    routingAt now maxQueued (deliver now m qos retain subIds maxQueued) := by
  simp [routingAt, isRouting, steadyAt]

theorem isRoutine_of_isRouting {o : Op} (h : o.isRouting) : o.isRoutine := by
  cases o <;> simp_all [isRouting, isRoutine, isAck, isResume]

theorem routineAt_of_routingAt {now maxQueued : Nat} {o : Op} (h : o.routingAt now maxQueued) :
    o.routineAt now maxQueued := by
  simp only [routingAt, routineAt, Bool.and_eq_true] at h ⊢
  exact ⟨isRoutine_of_isRouting h.1, h.2⟩

theorem isResume_of_isRoutine {o : Op} (h : o.isRoutine) : o.isResume = false := by
  simp only [isRoutine, Bool.and_eq_true, Bool.not_eq_true'] at h
  exact h.2

/-- No takeover is among the operations that keep the connection, and none closes it. -/
theorem isResume_of_steadyAt {now maxQueued : Nat} {o : Op} (h : o.steadyAt now maxQueued ∨ o = .close) :
    o.isResume = false := by
  rcases h with h | rfl
  · cases o <;> first | rfl | cases h
  · rfl

end Op

namespace Session
variable (P : Protocol)

/-- The session a CONNECT resumes, before anything is sent on the new channel (connect.rs:133-240). -/
def resumeBound (now : Nat) (cfg : Config) (acl : Acl) (req : ConnectRequest) (epoch : Nat) (s : Session) :
    Session :=
  (Broker.reauthorize P acl true ((s.takenOver req.identity).bind cfg req epoch)).setWill now req.connect

/-- The session after the operation, and how many messages it dropped. -/
def apply (s : Session) : Op → Session × Nat
  | .deliver now m qos retain subIds maxQueued =>
    let r := deliverToSession P now s m qos retain subIds maxQueued
    (r.1, r.2.toNat)
  | .control p => (s.push (.control p), 0)
  | .shutdown rc => (s.push (.shutdown rc), 0)
  | .puback now id => s.puback P now id
  | .pubrec ack => (s.pubrec ack, 0)
  | .pubrel id => (s.pubrel id, 0)
  | .pubcomp now id => s.pubcomp P now id
  | .setAlias a topic => ({ s with inboundAliases := s.inboundAliases.insert a topic }, 0)
  | .inbound id => ({ s with inboundQos2 := insert id s.inboundQos2 }, 0)
  | .subscribe sub => ((s.upsertSubscription sub).1, 0)
  | .unsubscribe filter shareName => ((s.removeSubscription filter shareName).1, 0)
  | .revoke acl => (s.retainAuthorized P acl, 0)
  | .bridgeSubscribe sub => ({ s with subscriptions := s.subscriptions ++ [sub] }, 0)
  | .setExpiry secs => ({ s with sessionExpiryInterval := secs }, 0)
  | .close => (Broker.closedSession s, 0)
  | .recv => ({ s with out := s.out.map OutTx.recv }, 0)
  | .hangup => ({ s with out := s.out.map ({ · with rxOpen := false }) }, 0)
  | .resume now ord cfg acl req epoch => resumeDelivery P now ord (s.resumeBound P now cfg acl req epoch)

/-- Operations in turn. -/
def applyAll : List Op → Session → Session × Nat
  | [], s => (s, 0)
  | o :: os, s => ((applyAll os (s.apply P o).1).1, (s.apply P o).2 + (applyAll os (s.apply P o).1).2)

theorem applyAll_append : ∀ (os os' : List Op) (s : Session),
    s.applyAll P (os ++ os') =
      (((s.applyAll P os).1.applyAll P os').1, (s.applyAll P os).2 + ((s.applyAll P os).1.applyAll P os').2)
  | [], _, _ => by simp [applyAll]
  | o :: os, os', s => by simp [applyAll, applyAll_append os os', Nat.add_assoc]

end Session

/-! ## Fleets -/

/-- The sessions by client id, `publish_dropped`, and the epoch of the next connection. -/
@[ext] structure Fleet where
  session : String → Option Session
  dropped : Nat
  nextEpoch : Nat

inductive Move where
  | op (cid : String) (o : Op)
  | create (cid : String) (s : Session)
  | remove (cid : String)

def Fleet.set (f : Fleet) (cid : String) (s : Option Session) : Fleet :=
  { f with session := Function.update f.session cid s }

/-- An epoch is given out. -/
def Fleet.tick (f : Fleet) : Fleet := { f with nextEpoch := f.nextEpoch + 1 }

/-- An operation of the given kind. -/
def Move.IsOp (p : Op → Bool) : Move → Prop
  | op _ o => p o = true
  | _ => False

theorem Move.IsOp.mono {p q : Op → Bool} (hpq : ∀ o, p o → q o) {mv : Move} (h : mv.IsOp p) : mv.IsOp q := by
  cases mv with
  | op cid o => exact hpq o h
  | create => exact h
  | remove => exact h

section Moves
variable (P : Protocol)

def Move.apply (f : Fleet) : Move → Fleet
  | op cid o =>
    match f.session cid with
    | some s => ⟨Function.update f.session cid (some (s.apply P o).1), f.dropped + (s.apply P o).2, f.nextEpoch⟩
    | none => f
  | create cid s => f.set cid (some s)
  | remove cid => f.set cid none

/-- Some moves that all meet `ok` lead from one fleet to the other. -/
def Fleet.Reaches (ok : Move → Prop) (f f' : Fleet) : Prop :=
  ∃ ms : List Move, (∀ mv ∈ ms, ok mv) ∧ ms.foldl (Move.apply P) f = f'

end Moves

namespace Fleet
variable {P : Protocol} {ok ok' : Move → Prop} {f f' f'' : Fleet}

theorem Reaches.refl (f : Fleet) : Reaches P ok f f := ⟨[], by simp, rfl⟩

theorem Reaches.of_eq (h : f' = f) : Reaches P ok f f' := h ▸ Reaches.refl _

theorem Reaches.trans : Reaches P ok f f' → Reaches P ok f' f'' → Reaches P ok f f''
  | ⟨ms, hms, h⟩, ⟨ms', hms', h'⟩ =>
    ⟨ms ++ ms', by simpa [or_imp, forall_and] using ⟨hms, hms'⟩, by rw [List.foldl_append, h, h']⟩

theorem Reaches.single (mv : Move) (h : ok mv) : Reaches P ok f (mv.apply P f) := ⟨[mv], by simpa using h, rfl⟩

theorem Reaches.mono (h : ∀ mv, ok mv → ok' mv) : Reaches P ok f f' → Reaches P ok' f f'
  | ⟨ms, hms, e⟩ => ⟨ms, fun mv hmv => h mv (hms mv hmv), e⟩

/-- Operations of one kind are also of a wider one. -/
theorem Reaches.isOp {p q : Op → Bool} (hpq : ∀ o, p o → q o) (h : Reaches P (Move.IsOp p) f f') :
    Reaches P (Move.IsOp q) f f' := h.mono fun _ => Move.IsOp.mono hpq

theorem Reaches.routing {now maxQueued : Nat} (h : Reaches P (Move.IsOp (Op.routingAt now maxQueued)) f f') :
    Reaches P (Move.IsOp Op.isRouting) f f' :=
  h.isOp fun _ ho => (Bool.and_eq_true_iff.1 ho).1

/-- What every move that meets `ok` preserves, holds after all of them. -/
theorem Reaches.invariant (I : Fleet → Prop) (hstep : ∀ f mv, ok mv → I f → I (mv.apply P f)) :
    Reaches P ok f f' → I f → I f'
  | ⟨ms, hms, e⟩, h => by
    induction ms generalizing f with
    | nil => exact e ▸ h
    | cons mv ms ih =>
      exact ih (fun m hm => hms m (List.mem_cons_of_mem _ hm)) e (hstep f mv (hms mv List.mem_cons_self) h)

theorem apply_op {cid : String} {s : Session} (h : f.session cid = some s) (o : Op) :
    (Move.op cid o).apply P f =
      ⟨Function.update f.session cid (some (s.apply P o).1), f.dropped + (s.apply P o).2, f.nextEpoch⟩ := by
  simp only [Move.apply, h]

/-- A preorder that every operation of the kind respects holds between each session before and after. -/
theorem Reaches.session_rel {p : Op → Bool} {R : Session → Session → Prop} (hrefl : ∀ s, R s s)
    (htrans : ∀ s s' s'', R s s' → R s' s'' → R s s'') (hop : ∀ s o, p o = true → R s (s.apply P o).1)
    (h : Reaches P (Move.IsOp p) f f') (c : String) : Option.Rel R (f.session c) (f'.session c) := by
  have hself : ∀ a : Option Session, Option.Rel R a a
    | none => .none
    | some s => .some (hrefl s)
  refine h.invariant (fun g => Option.Rel R (f.session c) (g.session c)) ?_ (hself _)
  rintro g (⟨cid, o⟩ | _ | _) hmv hg
  · cases hs : g.session cid with
    | none => simpa only [Move.apply, hs] using hg
    | some s =>
      rw [apply_op hs]
      by_cases hc : c = cid
      · subst hc
        rw [hs] at hg
        generalize f.session c = a at hg ⊢
        cases hg with
        | some hg =>
          simp only [Function.update_self]
          exact .some (htrans _ _ _ hg (hop s o hmv))
      · simpa only [Function.update_of_ne hc] using hg
  · cases hmv
  · cases hmv

/-- A list of operations on one session. -/
theorem Reaches.ops {cid : String} : ∀ {os : List Op} {s : Session} {f : Fleet}, f.session cid = some s →
    (∀ o ∈ os, ok (.op cid o)) →
    Reaches P ok f ⟨Function.update f.session cid (some (s.applyAll P os).1),
      f.dropped + (s.applyAll P os).2, f.nextEpoch⟩
  | [], s, f, h, _ => .of_eq (by ext1 <;> simp [Session.applyAll, ← h])
  | o :: os, s, f, h, hos => by
    have h1 : Reaches P ok f ((Move.op cid o).apply P f) := .single _ (hos o List.mem_cons_self)
    rw [apply_op h] at h1
    refine h1.trans ?_
    have h2 : Reaches P ok
        ⟨Function.update f.session cid (some (s.apply P o).1), f.dropped + (s.apply P o).2, f.nextEpoch⟩ _ :=
      Reaches.ops (s := (s.apply P o).1) (by simp) fun o ho => hos o (List.mem_cons_of_mem _ ho)
    simpa [Session.applyAll, Nat.add_assoc] using h2

end Fleet

/-! ## The broker as a fleet -/

namespace Broker

def fleet (b : Broker) : Fleet := ⟨fun cid => b.sessions.lookup cid, b.metrics.publishDropped, b.nextEpoch⟩

@[simp] theorem fleet_session (b : Broker) (cid : String) : b.fleet.session cid = b.sessions.lookup cid := rfl

theorem fleet_setSession (b : Broker) (cid : String) (s : Session) :
    (b.setSession cid s).fleet = b.fleet.set cid (some s) := by
  ext1
  · funext c; simp [fleet, setSession, Fleet.set, lookup_insert_if, Function.update_apply]
  · rfl
  · rfl

theorem fleet_removeSession (b : Broker) (cid : String) :
    (b.removeSession cid).fleet = b.fleet.set cid none := by
  ext1
  · funext c; simp [fleet, removeSession, Fleet.set, lookup_erase_if, Function.update_apply]
  · rfl
  · rfl

theorem fleet_addDropped (b : Broker) (n : Nat) :
    (b.addDropped n).fleet = { b.fleet with dropped := b.fleet.dropped + n } := rfl

/-- Writing back what an operation leaves of a session, with its drops. -/
theorem fleet_applied (P : Protocol) {b : Broker} {cid : String} {s : Session}
    (h : b.sessions.lookup cid = some s) (o : Op) :
    ((b.setSession cid (s.apply P o).1).addDropped (s.apply P o).2).fleet = (Move.op cid o).apply P b.fleet := by
  rw [Fleet.apply_op (f := b.fleet) h, fleet_addDropped, fleet_setSession]
  rfl

theorem fleet_setSession_self {b : Broker} {cid : String} {s : Session} (h : b.sessions.lookup cid = some s) :
    (b.setSession cid s).fleet = b.fleet := by
  rw [fleet_setSession]
  ext1 <;> simp [Fleet.set, ← h, ← fleet_session]

theorem fleet_modifySession (P : Protocol) (b : Broker) (cid : String) (g : Session → Session) (o : Op)
    (h : ∀ s : Session, s.apply P o = (g s, 0)) :
    (b.modifySession cid g).fleet = (Move.op cid o).apply P b.fleet := by
  cases hs : b.sessions.lookup cid with
  | none => simp [modifySession, Move.apply, hs]
  | some s =>
    have := fleet_applied P hs o
    simpa [modifySession, hs, h, fleet_addDropped] using this

end Broker

end WispMQ
