import WispMQ.Views
/-!
# What a session keeps of its connection

The Will, the alias table and the channel belong to one network connection, but live in the session record that
successive connections share. `step_stems` says where all three come from after a step: they are those of the
same connection before the step, apart from a PUBLISH that binds an alias; or the connection was closed; or a CONNECT
or a bridge registration put a new connection in place.
-/

namespace WispMQ
open KeyMap

namespace Session

/-- The connection of the session goes on as it was. -/
structure SameConnection (s s' : Session) : Prop where
  epoch : s'.epoch = s.epoch
  will : s'.will = s.will
  aliases : s'.inboundAliases = s.inboundAliases
  online : s'.isOnline = s.isOnline

namespace SameConnection

theorem refl (s : Session) : SameConnection s s := ⟨rfl, rfl, rfl, rfl⟩

theorem trans {s s' s'' : Session} (h : SameConnection s s') (h' : SameConnection s' s'') : SameConnection s s'' :=
  ⟨h'.epoch.trans h.epoch, h'.will.trans h.will, h'.aliases.trans h.aliases, h'.online.trans h.online⟩

theorem trySend {s s' : Session} {item : Outgoing} (h : s.trySend item = some s') : SameConnection s s' := by
  obtain ⟨tx, htx, -, rfl⟩ := trySend_some h
  exact ⟨rfl, rfl, rfl, by simp [isOnline, htx]⟩

theorem push (s : Session) (item : Outgoing) : SameConnection s (s.push item) := by
  unfold Session.push
  cases h : s.trySend item with
  | none => exact refl s
  | some s' => exact trySend h

theorem launched {now id : Nat} {s s' : Session} {p : Pending} (h : Launched now s p id s') : SameConnection s s' := by
  obtain ⟨tx, htx, -, rfl⟩ := h.sent
  unfold record
  split <;> exact ⟨rfl, rfl, rfl, by simp [isOnline, htx]⟩

theorem flushQueue (P : Protocol) (now : Nat) (s : Session) : SameConnection s (flushQueue P now s).1 := by
  obtain ⟨q, s', he, hs'⟩ := flushLoop_rule P now (fun _ s' _ => SameConnection s s')
    (fun _ _ _ h => h.trans ⟨rfl, rfl, rfl, rfl⟩) (fun _ _ _ _ _ h => h) (fun _ _ _ _ _ h => h)
    (fun _ _ _ _ _ _ _ hl h => h.trans (launched hl)) s.queue s [] (refl s)
  rw [WispMQ.flushQueue, he]
  exact hs'.trans ⟨rfl, rfl, rfl, rfl⟩

theorem delivered {P : Protocol} {now : Nat} {s s' : Session} {m : Message} {qos : QoS} {retain : Bool}
    {subIds : List Nat} {maxQueued : Nat} {fate : Fate} (h : Delivered P now s m qos retain subIds maxQueued s' fate) :
    SameConnection s s' := by
  have henq : ∀ s₁ : Session, SameConnection s₁ (s₁.enqueue ⟨m, qos, retain, subIds⟩ maxQueued).1 := by
    intro s₁
    unfold enqueue
    split <;> exact ⟨rfl, rfl, rfl, rfl⟩
  cases h with
  | expired => exact refl s
  | offline => exact refl s
  | discarded => exact refl s
  | pushed _ hs => exact trySend hs
  | launched _ _ _ hl => exact launched hl
  | queued _ _ hs =>
    rcases hs with rfl | rfl
    · exact henq _
    · refine trans ?_ (henq s.nextId.2)
      exact ⟨rfl, rfl, rfl, rfl⟩

end SameConnection

end Session

/-- The operations that leave the connection alone. -/
def Op.keepsConnection : Op → Bool
  | .setAlias .. | .close | .resume .. => false
  | _ => true

namespace Session
variable {P : Protocol}

theorem apply_sameConnection (s : Session) {o : Op} (h : o.keepsConnection) : SameConnection s (s.apply P o).1 := by
  cases o with
  | deliver now m qos retain subIds maxQueued => exact .delivered (deliver_delivered P now s m qos retain subIds maxQueued)
  | control p => exact .push s _
  | shutdown rc => exact .push s _
  | puback now id =>
    refine SameConnection.trans ?_ (.flushQueue P now { s with awaitingPuback := s.awaitingPuback.erase id })
    exact ⟨rfl, rfl, rfl, rfl⟩
  | pubcomp now id =>
    refine SameConnection.trans ?_ (.flushQueue P now { s with awaitingPubcomp := s.awaitingPubcomp.erase id })
    exact ⟨rfl, rfl, rfl, rfl⟩
  | pubrec ack =>
    simp only [apply, pubrec]
    split
    · exact ⟨rfl, rfl, rfl, rfl⟩
    · split
      · refine SameConnection.trans ?_ (.push _ _)
        exact ⟨rfl, rfl, rfl, rfl⟩
      · split
        · exact ⟨rfl, rfl, rfl, rfl⟩
        · refine SameConnection.trans ?_ (.push _ _)
          exact ⟨rfl, rfl, rfl, rfl⟩
  | pubrel id =>
    refine SameConnection.trans ?_ (.push _ _)
    exact ⟨rfl, rfl, rfl, rfl⟩
  | subscribe sub =>
    simp only [apply, upsertSubscription]
    split <;> exact ⟨rfl, rfl, rfl, rfl⟩
  | recv => exact ⟨rfl, rfl, rfl, by simp [apply, isOnline]⟩
  | hangup => exact ⟨rfl, rfl, rfl, by simp [apply, isOnline]⟩
  | setAlias => cases h
  | close => cases h
  | resume => cases h
  | _ => exact ⟨rfl, rfl, rfl, rfl⟩

theorem applyAll_sameConnection : ∀ {os : List Op} (s : Session), (∀ o ∈ os, o.keepsConnection) →
    SameConnection s (s.applyAll P os).1
  | [], s, _ => .refl s
  | o :: os, s, h => by
    obtain ⟨ho, hos⟩ := List.forall_mem_cons.1 h
    exact (apply_sameConnection s ho).trans (applyAll_sameConnection _ hos)

/-- A takeover: the new connection has its own Will and channel, and the alias table of the old one. -/
theorem resume_connection (now : Nat) (ord : Orders) (cfg : Config) (acl : Acl) (req : ConnectRequest) (epoch : Nat)
    (s : Session) :
    SameConnection { s with
        epoch := epoch
        out := some req.out
        will := req.connect.will.map fun w => (Message.fromWill now w, w.willDelayInterval.getD 0) }
      (s.apply P (.resume now ord cfg acl req epoch)).1 := by
  have hbound : SameConnection { s with
        epoch := epoch
        out := some req.out
        will := req.connect.will.map fun w => (Message.fromWill now w, w.willDelayInterval.getD 0) }
      (s.resumeBound P now cfg acl req epoch) := by
    simp only [resumeBound, Broker.reauthorize, takenOver]
    split <;> split <;> exact ⟨rfl, rfl, rfl, rfl⟩
  have hresent : ∀ s : Session, SameConnection s (s.retransmit ord) := fun s =>
    retransmit_rule (SameConnection s) (fun _ _ h => h.trans (.push _ _)) (fun _ _ h => h.trans (.push _ _)) ord (.refl s)
  simp only [apply, resumeDelivery]
  split
  · exact (hbound.trans (hresent _)).trans (.flushQueue P now _)
  · exact hbound

end Session

/-! ## PUBLISH -/

namespace Broker
variable {P : Protocol} {b : Broker} {cid : String} {s : Session}

/-- The alias table of the session after the PUBLISH. -/
def aliasesAfter (cfg : Config) (s : Session) (p : Publish) : KeyMap Nat String :=
  if supported cfg p then
    match resolveAlias cfg s p with
    | .ok (s', _) => s'.inboundAliases
    | .error _ => s.inboundAliases
  else s.inboundAliases

theorem Receives.sameConnection {s' : Session} (h : Receives P cid s s') : s.SameConnection s' := by
  obtain ⟨v, hv, rfl⟩ := h
  refine Session.applyAll_sameConnection s fun o ho => ?_
  obtain ⟨x, hx, rfl⟩ := List.mem_map.1 ho
  obtain ⟨now, publisher, m, qos, retain, subIds, maxQueued, ho, -⟩ := hv x hx
  rw [ho]
  rfl

theorem acknowledge_sameConnection (qos : QoS) (ack : PubAck) (hs : b.sessions.lookup cid = some s) :
    ∃ s', (b.acknowledge cid qos ack).sessions.lookup cid = some s' ∧ s.SameConnection s' := by
  refine ⟨_, acknowledge_lookup_self qos ack hs, ?_⟩
  cases publishAck qos ack with
  | none => exact .refl s
  | some q => exact .push s _

theorem routePublish_sameConnection (now : Nat) (ord : Orders) (epoch : Nat) (p : Publish) (m : Message)
    (hs : b.sessions.lookup cid = some s) :
    ∃ s', (routePublish P now ord b cid epoch s p m).1.sessions.lookup cid = some s' ∧ s.SameConnection s' := by
  have hrest : ∀ {b₁ : Broker} {s₁ : Session} (qos : QoS) (ack : Bool → PubAck), b₁.sessions.lookup cid = some s₁ →
      s.SameConnection s₁ → ∃ s', ((route P now ord b₁ (some cid) m).1.acknowledge cid qos
        (ack (route P now ord b₁ (some cid) m).2)).sessions.lookup cid = some s' ∧ s.SameConnection s' := by
    intro b₁ s₁ qos ack hs₁ h₁
    obtain ⟨s₂, hs₂, h₂⟩ := route_receives (P := P) now ord (some cid) m hs₁
    obtain ⟨s₃, hs₃, h₃⟩ := acknowledge_sameConnection qos (ack (route P now ord b₁ (some cid) m).2) hs₂
    exact ⟨s₃, hs₃, (h₁.trans h₂.sameConnection).trans h₃⟩
  simp only [routePublish]
  split
  · obtain ⟨s', hs', h⟩ := route_receives (P := P) now ord (some cid) m hs
    exact ⟨s', hs', h.sameConnection⟩
  · exact hrest .atLeastOnce (fun matched => ⟨p.packetId.getD 0, matchedCode matched⟩) hs (.refl s)
  · split
    · exact acknowledge_sameConnection .exactlyOnce ⟨p.packetId.getD 0, .success⟩ hs
    · set s₁ : Session := { s with inboundQos2 := insert (p.packetId.getD 0) s.inboundQos2 } with hs₁
      have hlookup : (b.setSession cid s₁).sessions.lookup cid = some s₁ := by simp [setSession]
      exact hrest .exactlyOnce (fun matched => ⟨p.packetId.getD 0, matchedCode matched⟩) hlookup ⟨rfl, rfl, rfl, rfl⟩

theorem acceptPublish_sameConnection (now : Nat) (ord : Orders) (epoch : Nat) (p : Publish)
    (hs : b.sessions.lookup cid = some s) :
    ∃ s', (acceptPublish P now ord b cid epoch s p).broker.sessions.lookup cid = some s' ∧ s.SameConnection s' := by
  unfold acceptPublish
  split
  · exact ⟨s, hs, .refl s⟩
  split
  · exact ⟨s, hs, .refl s⟩
  split
  · exact acknowledge_sameConnection p.qos _ hs
  · refine routePublish_sameConnection now ord epoch p _ ?_
    rw [storeRetained_sessions, hs]

/-- A PUBLISH of the current connection: nothing changes about the connection but its alias table. -/
theorem handlePublish_connection (now : Nat) (ord : Orders) (p : Publish) (hs : b.sessions.lookup cid = some s) :
    ∃ s', (handlePublish P now ord b cid s.epoch p).broker.sessions.lookup cid = some s' ∧
      Session.SameConnection { s with inboundAliases := aliasesAfter b.config s p } s' := by
  have hsame : ∀ {rc : ReasonCode}, aliasesAfter b.config s p = s.inboundAliases →
      ∃ s', ({ b with metrics.publishReceived := b.metrics.publishReceived + 1 }.answer cid s.epoch
          (.serverDisconnect rc)).broker.sessions.lookup cid = some s' ∧
        Session.SameConnection { s with inboundAliases := aliasesAfter b.config s p } s' :=
    fun h => ⟨s, hs, rfl, rfl, h.symm, rfl⟩
  simp only [handlePublish]
  split
  · rename_i hqos
    exact hsame (by simp [aliasesAfter, supported, hqos])
  split
  · rename_i hretain
    exact hsame (by simp [aliasesAfter, supported, hretain])
  · rename_i hqos hretain
    have hsup : supported b.config p := by simp [supported, hqos, hretain]
    simp only [fenced, hs, if_true]
    split
    · rename_i rc hr
      exact hsame (by simp [aliasesAfter, hsup, hr])
    · rename_i s₁ p₁ hr
      have hs₁ : ({ b with metrics.publishReceived := b.metrics.publishReceived + 1 }.setSession cid s₁).sessions.lookup
          cid = some s₁ := by simp [setSession]
      obtain ⟨s', hs', h⟩ := acceptPublish_sameConnection (P := P) now ord s.epoch p₁ hs₁
      have haliases : aliasesAfter b.config s p = s₁.inboundAliases := by simp [aliasesAfter, hsup, hr]
      refine ⟨s', hs', Session.SameConnection.trans ?_ h⟩
      rw [haliases]
      rcases resolveAlias_ok (P := P) hr with rfl | ⟨a, rfl⟩ <;> exact ⟨rfl, rfl, rfl, rfl⟩

end Broker

/-! ## Every step -/

namespace World
open Broker Session
variable {P : Protocol} {w : World} {l : Label} {cid : String} {s s' : Session}

/-- The session `s'` of `cid` after the step, by what happened to its connection. -/
inductive Stems (P : Protocol) (w : World) (l : Label) (cid : String) (s' : Session) : Prop
  | same {s : Session} (hs : w.broker.sessions.lookup cid = some s) (h : s.SameConnection s')
      (hopen : ∀ pw, l.input ≠ .call (.closed cid s.epoch pw))
      (hpub : ∀ p, w.selected l.input ≠ some (.dispatch cid s.epoch (.publish p)))
  | publish {s : Session} {p : Publish} (hs : w.broker.sessions.lookup cid = some s)
      (hsel : w.selected l.input = some (.dispatch cid s.epoch (.publish p)))
      (h : SameConnection { s with inboundAliases := aliasesAfter w.broker.config s p } s')
  | closed {s : Session} {pw : Bool} (hs : w.broker.sessions.lookup cid = some s)
      (hin : l.input = .call (.closed cid s.epoch pw)) (h : s' = closedSession s)
  | resumed {s : Session} {req : ConnectRequest} (hs : w.broker.sessions.lookup cid = some s)
      (hsel : w.selected l.input = some (.connect req)) (hc : cid = req.clientId) (hclean : req.connect.cleanStart = false)
      (h : SameConnection { s with
          epoch := w.broker.nextEpoch
          out := some req.out
          will := req.connect.will.map fun x => (Message.fromWill l.now x, x.willDelayInterval.getD 0) } s')
  | fresh {req : ConnectRequest} (hsel : w.selected l.input = some (.connect req)) (hc : cid = req.clientId)
      (hnew : req.connect.cleanStart = true ∨ w.broker.sessions.lookup cid = none)
      (h : s' = freshSession l.now w.broker req)
  | bridge {name : String} (hin : l.input = .call (.registerBridge name)) (hc : cid = bridgeClient name)
      (h : s' = bridgeSession w.broker cid)

/-- What the step must be to make the operation, for the operations that few steps make. -/
def Causes (w : World) (l : Label) (cid : String) (s : Session) : Op → Prop
  | .setAlias .. => ∃ p, w.selected l.input = some (.dispatch cid s.epoch (.publish p))
  | .setExpiry _ => ∃ e n pw, w.selected l.input = some (.disconnectExpiry cid e n pw)
  | .close => ∃ e pw, l.input = .call (.closed cid e pw)
  | .resume .. => ∃ req, w.selected l.input = some (.connect req) ∧ cid = req.clientId
  | _ => True

theorem Sees.causes {v : List (Op × List String)} (h : Sees P w l cid s v) : ∀ x ∈ v, w.Causes l cid s x.1 := by
  have hvia : ∀ {subs : List Subscription} {o : Op} {via : List String}, DeliveredVia P cid subs o via →
      w.Causes l cid s o := by
    rintro subs o via ⟨now, publisher, m, qos, retain, subIds, maxQueued, rfl, -⟩
    trivial
  cases h with
  | nothing => simp
  | routed _ h => exact fun x hx => hvia (h x hx)
  | publish hsel h =>
    obtain ⟨pre, ds, post, rfl, hpre, hds, hpost⟩ := h
    intro x hx
    simp only [List.mem_append, plain, List.mem_map] at hx
    rcases hx with (⟨o, ho, rfl⟩ | hx) | ⟨o, ho, rfl⟩
    · rcases hpre o ho with ⟨a, topic, rfl⟩ | ⟨-, id, rfl⟩
      · exact ⟨_, hsel⟩
      · trivial
    · exact hvia (hds x hx)
    · obtain ⟨q, ack, -, rfl⟩ := hpost o ho
      trivial
  | @ack packet o hsel ho => cases packet <;> simp [ackOp] at ho <;> subst ho <;> simp [plain, Causes]
  | subscribe _ h =>
    obtain ⟨subs, suback, ds, rfl, -, hds⟩ := h
    intro x hx
    simp only [List.mem_append, plain, List.mem_map, List.mem_singleton] at hx
    rcases hx with ⟨o, ⟨sub, -, rfl⟩ | rfl, rfl⟩ | hx
    · trivial
    · trivial
    · obtain ⟨⟨now, m, qos, retain, subIds, maxQueued, ho⟩, -⟩ := hds x hx
      rw [ho]
      trivial
  | unsubscribe =>
    intro x hx
    simp only [plain, List.mem_map, List.mem_append, List.mem_singleton] at hx
    obtain ⟨o, ⟨u, -, rfl⟩ | rfl, rfl⟩ := hx <;> trivial
  | expiry hsel =>
    intro x hx
    rw [List.mem_singleton.1 hx]
    exact ⟨_, _, _, hsel⟩
  | closed hin =>
    intro x hx
    rw [List.mem_singleton.1 hx]
    exact ⟨_, _, hin⟩
  | revoke _ _ h => rcases h with rfl | rfl <;> simp [plain, Causes]
  | resume hsel hc =>
    intro x hx
    rw [List.mem_singleton.1 hx]
    exact ⟨_, hsel, hc⟩
  | _ => simp [plain, Causes]

/-- The operations of a step that is neither the close of the connection, nor a PUBLISH of it, nor a takeover. -/
theorem Sees.keepsConnection {v : List (Op × List String)} (h : Sees P w l cid s v)
    (hclosed : ∀ e pw, l.input ≠ .call (.closed cid e pw))
    (hpub : ∀ p, w.selected l.input ≠ some (.dispatch cid s.epoch (.publish p)))
    (hconn : ∀ req, w.selected l.input = some (.connect req) → cid ≠ req.clientId) :
    ∀ x ∈ v, x.1.keepsConnection := by
  rintro ⟨o, via⟩ hx
  have hc := h.causes _ hx
  cases o with
  | setAlias a topic => exact absurd hc.choose_spec (hpub _)
  | close =>
    obtain ⟨e, pw, hin⟩ := hc
    exact absurd hin (hclosed e pw)
  | resume now ord cfg acl req epoch =>
    obtain ⟨req, hsel, hcid⟩ := hc
    exact absurd hcid (hconn req hsel)
  | _ => rfl

/-- **Inversion**: where the connection of a session comes from. -/
theorem step_stems (P : Protocol) (w : World) (l : Label) (hs' : (step P w l).1.broker.sessions.lookup cid = some s') :
    Stems P w l cid s' := by
  by_cases hconn : ∃ req, w.selected l.input = some (.connect req) ∧ cid = req.clientId
  · obtain ⟨req, hsel, rfl⟩ := hconn
    rw [(step_of_selected hsel).1, runTask] at hs'
    by_cases hnew : req.connect.cleanStart = true ∨ w.broker.sessions.lookup req.clientId = none
    · rw [finishConnect_fresh l.now l.ord hnew] at hs'
      exact .fresh hsel rfl hnew (Option.some.inj hs').symm
    · rw [not_or, Bool.not_eq_true] at hnew
      obtain ⟨s, hs⟩ := Option.ne_none_iff_exists'.1 hnew.2
      rw [finishConnect_resumed l.now l.ord hnew.1 hs] at hs'
      cases hs'
      exact .resumed hs hsel rfl hnew.1 (resume_connection ..)
  have hne : ∀ req, w.selected l.input = some (.connect req) → cid ≠ req.clientId := fun req hsel hc => hconn ⟨req, hsel, hc⟩
  cases hs : w.broker.sessions.lookup cid with
  | none =>
    rcases (step_change P w l).bound hs' with ⟨s, hs₀, -⟩ | ⟨req, hsel, hc, -⟩ | ⟨name, hin, hc, h⟩
    · rw [hs] at hs₀
      cases hs₀
    · exact absurd hc (hne req hsel)
    · exact .bridge hin hc h
  | some s =>
    by_cases hclosed : ∃ e pw, l.input = .call (.closed cid e pw)
    · obtain ⟨e, pw, hin⟩ := hclosed
      simp only [step, hin, absorb, enter, handleConnectionClosed, hs] at hs'
      split at hs'
      · rename_i he
        subst he
        simp only [setSession, AList.lookup_insert, Option.some.injEq] at hs'
        exact .closed hs hin hs'.symm
      · rename_i he
        rw [hs] at hs'
        cases hs'
        refine .same hs (.refl _) (fun pw' h => ?_) fun p h => by simp [hin, selected] at h
        rw [hin] at h
        cases h
        exact he rfl
    have hcl : ∀ e pw, l.input ≠ .call (.closed cid e pw) := fun e pw h => hclosed ⟨e, pw, h⟩
    by_cases hpub : ∃ p, w.selected l.input = some (.dispatch cid s.epoch (.publish p))
    · obtain ⟨p, hsel⟩ := hpub
      obtain ⟨s₁, hs₁, h⟩ := handlePublish_connection (P := P) l.now l.ord p hs
      rw [(step_of_selected hsel).1, runTask, dispatch, hs₁] at hs'
      cases hs'
      exact .publish hs hsel h
    have hp : ∀ p, w.selected l.input ≠ some (.dispatch cid s.epoch (.publish p)) := fun p h => hpub ⟨p, h⟩
    cases step_becomes P w l hs hs' with
    | @sees v hv he =>
      refine .same hs ?_ (hcl _) hp
      rw [he]
      refine applyAll_sameConnection s fun o ho => ?_
      obtain ⟨x, hx, rfl⟩ := List.mem_map.1 ho
      exact hv.keepsConnection hcl hp hne x hx
    | fresh hsel hc => exact absurd hc (hne _ hsel)
    | bridge hin hc he => exact .bridge hin hc he

end World

end WispMQ
