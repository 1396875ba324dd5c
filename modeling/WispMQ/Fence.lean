import WispMQ.Effects
import WispMQ.Epochs
/-!
# The epoch fence

After a takeover the old connection may still have packets in its handlers and a close to report. Every section
such a connection makes checks the epoch, with two exceptions: the second section of a DISCONNECT that
carries a Session Expiry Interval (lifecycle.rs:42-55) and the answer to a PINGREQ (mod.rs:308, `push_control`).
`epochFence_iff` says that these are the only ones that can reach the new connection's session, and when
they do.
-/

namespace WispMQ
open KeyMap

namespace Broker
variable {P : Protocol} {b : Broker} {cid : String} {epoch : Nat}

/-- The session of `cid`, if there is one, belongs to another connection. -/
def Superseded (b : Broker) (cid : String) (epoch : Nat) : Prop :=
  ∀ s, b.sessions.lookup cid = some s → s.epoch ≠ epoch

theorem fenced_superseded (h : b.Superseded cid epoch) (body : Session → Outcome) :
    (b.fenced cid epoch body).broker = b := by
  unfold fenced
  split
  · rename_i s hs
    rw [if_neg (h s hs)]
    rfl
  · rfl

theorem acked_superseded (h : b.Superseded cid epoch) (f : Session → Session × Nat) :
    (b.acked cid epoch f).broker = b := by
  unfold acked
  split
  · rfl
  · rename_i s hs
    rw [if_neg (h s hs)]
    rfl

theorem handlePublish_superseded (now : Nat) (ord : Orders) (h : b.Superseded cid epoch) (p : Publish) :
    (handlePublish P now ord b cid epoch p).broker.sessions = b.sessions := by
  have h' : Superseded { b with metrics.publishReceived := b.metrics.publishReceived + 1 } cid epoch := h
  simp only [handlePublish]
  split
  · rfl
  split
  · rfl
  · rw [fenced_superseded h']

theorem handlePacket_broker (b : Broker) (cid : String) (epoch : Nat) (p : Packet) :
    (handlePacket b cid epoch p).broker = b := by
  unfold handlePacket
  split
  · split <;> rfl
  · rfl

theorem handleConnectionClosed_superseded (clock : Nat) (h : b.Superseded cid epoch) (publishWill : Bool) :
    (handleConnectionClosed clock b cid epoch publishWill).broker = b := by
  unfold handleConnectionClosed
  split
  · rfl
  · rename_i s hs
    rw [if_neg (h s hs)]

theorem removeIfOffline_superseded (h : b.Superseded cid epoch) : (removeIfOffline b cid epoch).broker = b := by
  unfold removeIfOffline
  split
  · rfl
  · rename_i s hs
    simp [h s hs]

/-- Every packet but PINGREQ is fenced again in its handler. -/
theorem dispatch_superseded (now : Nat) (ord : Orders) (h : b.Superseded cid epoch) {p : Packet} (hp : p ≠ .pingreq) :
    (dispatch P now ord b cid epoch p).broker.sessions = b.sessions := by
  cases p with
  | publish p => exact handlePublish_superseded now ord h p
  | puback a => exact congrArg _ (acked_superseded h _)
  | pubrec a => exact congrArg _ (acked_superseded h _)
  | pubrel a => exact congrArg _ (acked_superseded h _)
  | pubcomp a => exact congrArg _ (acked_superseded h _)
  | subscribe s => exact congrArg _ (fenced_superseded h _)
  | unsubscribe u => exact congrArg _ (fenced_superseded h _)
  | disconnect d => exact congrArg _ (fenced_superseded h _)
  | pingreq => exact absurd rfl hp
  | _ => rfl

theorem willWake_broker (b : Broker) (cid : String) (epoch : Nat) (m : Message) (owner : String) :
    (willWake b cid epoch m owner).broker = b := by
  unfold willWake
  split
  · split <;> rfl
  · rfl

theorem willAuthorize_broker (b : Broker) (cid : String) (epoch : Nat) (m : Message) (owner : String) :
    (willAuthorize P b cid epoch m owner).broker = b := by
  unfold willAuthorize
  split <;> rfl

/-! ## The two sections without a check -/

/-- The rest of a DISCONNECT writes the session whatever its epoch. -/
theorem disconnectExpiry_lookup (b : Broker) (cid : String) (epoch newExpiry : Nat) (publishWill : Bool) :
    (disconnectExpiry b cid epoch newExpiry publishWill).broker.sessions.lookup cid =
      (b.sessions.lookup cid).map fun s =>
        { s with sessionExpiryInterval := min newExpiry b.config.maxSessionExpiry } := by
  unfold disconnectExpiry
  split
  · rename_i hs; simp [answer, hs]
  · rename_i s hs; simp [setSession, hs]

/-- So does the answer to a PINGREQ. -/
theorem pingreq_lookup (now : Nat) (ord : Orders) (b : Broker) (cid : String) (epoch : Nat) :
    (dispatch P now ord b cid epoch .pingreq).broker.sessions.lookup cid =
      (b.sessions.lookup cid).map (·.push (.control .pingresp)) := by
  simp only [dispatch, answer, sendTo, modifySession]
  cases hs : b.sessions.lookup cid with
  | none => simp [hs]
  | some s => simp [setSession]

end Broker

theorem Session.push_eq_self_iff (s : Session) (item : Outgoing) :
    s.push item = s ↔ s.out.any OutTx.hasRoom = false := by
  cases ho : s.out with
  | none => simp [push, trySend, ho]
  | some tx =>
    by_cases hr : tx.hasRoom
    · simp only [Option.any_some, hr, Bool.true_eq_false, iff_false]
      intro h
      have hlen := congrArg (fun s : Session => s.out.elim 0 (·.sent.length)) h
      simp [push, trySend, ho, OutTx.trySend, hr] at hlen
    · simp [push, trySend, ho, OutTx.trySend, hr]

namespace World
open Broker
variable {P : Protocol} {w : World} {cid : String} {e : Nat} {l : Label}

/-- A section that runs for the connection `e` of `cid`: a packet it received, the close it reports, and what
these leave to be done. A Will that fires is a publication of its own, and not among them. -/
inductive OnBehalf (w : World) (cid : String) (e : Nat) (l : Label) : Prop
  | packet (p : Packet) (h : l.input = .call (.packet cid e p))
  | dispatch (p : Packet) (h : w.selected l.input = some (.dispatch cid e p))
  | disconnect (n : Nat) (publishWill : Bool) (h : w.selected l.input = some (.disconnectExpiry cid e n publishWill))
  | closed (publishWill : Bool) (h : l.input = .call (.closed cid e publishWill))
  | remove (h : w.selected l.input = some (.closeRemove cid e))
  | expiry (due : Nat) (h : w.selected l.input = some (.expiry cid e due))
  | willSleep (m : Message) (owner : String) (due : Nat) (h : w.selected l.input = some (.willSleep cid e m owner due))
  | willAuthorize (m : Message) (owner : String) (h : w.selected l.input = some (.willAuthorize cid e m owner))

/-- The step is one of the two sections without a check, and finds something to write. -/
def Unfenced (w : World) (cid : String) (l : Label) : Prop :=
  match w.selected l.input, w.broker.sessions.lookup cid with
  | some (.disconnectExpiry _ _ n _), some s => s.sessionExpiryInterval ≠ min n w.broker.config.maxSessionExpiry
  | some (.dispatch _ _ .pingreq), some s => s.out.any OutTx.hasRoom = true
  | _, _ => False

theorem step_of_call {c : Call} (h : l.input = .call c) :
    (step P w l).1.broker = (enter P w.clock l.now l.ord w.broker c).broker := by
  simp only [step, h, absorb]

theorem not_unfenced_of_call {c : Call} (h : l.input = .call c) : ¬w.Unfenced cid l := by
  simp [Unfenced, h, selected]

theorem not_unfenced_of_dispatch {p : Packet} {c : String} (hsel : w.selected l.input = some (.dispatch c e p))
    (hp : p ≠ .pingreq) : ¬w.Unfenced cid l := by
  rw [Unfenced, hsel]
  cases p <;> first | exact absurd rfl hp | simp

/-- **One stale step**: it leaves the session as it is unless it is an unfenced section with something to
write. -/
theorem onBehalf_lookup_iff (hl : w.OnBehalf cid e l) (h : w.broker.Superseded cid e) :
    (step P w l).1.broker.sessions.lookup cid = w.broker.sessions.lookup cid ↔ ¬w.Unfenced cid l := by
  cases hl with
  | packet p hin =>
    rw [step_of_call hin, enter, handlePacket_broker]
    simp [not_unfenced_of_call hin]
  | closed pw hin =>
    rw [step_of_call hin, enter, handleConnectionClosed_superseded _ h]
    simp [not_unfenced_of_call hin]
  | dispatch p hsel =>
    rw [(step_of_selected hsel).1, runTask]
    by_cases hp : p = .pingreq
    · subst hp
      rw [pingreq_lookup, Unfenced, hsel]
      cases hs : w.broker.sessions.lookup cid with
      | none => simp
      | some s => simp [Session.push_eq_self_iff]
    · rw [dispatch_superseded l.now l.ord h hp]
      simp [not_unfenced_of_dispatch hsel hp]
  | disconnect n pw hsel =>
    rw [(step_of_selected hsel).1, runTask, disconnectExpiry_lookup, Unfenced, hsel]
    cases hs : w.broker.sessions.lookup cid with
    | none => simp
    | some s =>
      simp only [Option.map_some, Option.some.injEq, ne_eq, not_not]
      constructor
      · intro heq; exact (congrArg Session.sessionExpiryInterval heq).symm
      · intro heq; rw [← heq]
  | remove hsel =>
    rw [(step_of_selected hsel).1, runTask, removeIfOffline_superseded h]
    simp [Unfenced, hsel]
  | expiry due hsel =>
    rw [(step_of_selected hsel).1, runTask, removeIfOffline_superseded h]
    simp [Unfenced, hsel]
  | willSleep m owner due hsel =>
    rw [(step_of_selected hsel).1, runTask, willWake_broker]
    simp [Unfenced, hsel]
  | willAuthorize m owner hsel =>
    rw [(step_of_selected hsel).1, runTask, willAuthorize_broker]
    simp [Unfenced, hsel]

/-- A CONNECT gives its client's session the next epoch. -/
theorem connect_atLeast {req : ConnectRequest} (hsel : w.selected l.input = some (.connect req)) :
    (step P w l).1.AtLeast req.clientId w.broker.nextEpoch := by
  rw [AtLeast, (step_of_selected hsel).1]
  refine ⟨Nat.lt_succ_self _, fun s hs => ?_⟩
  simp only [runTask, finishConnect, AList.lookup_insert, Option.some.injEq] at hs
  rw [← hs, (resumed_sameRecord ..).epoch, boundSession_epoch]

/-- **Epoch fence**: in any run after the step that installs an epoch for a client, a section that runs for an
earlier connection of the client leaves the session and its channel as they are, if and only if it is not an
unfenced one that finds something to write. -/
theorem epochFence_iff (P : Protocol) (w : World) (l₂ : Label) (req : ConnectRequest)
    (hsel : w.selected l₂.input = some (.connect req)) (ls : List Label) (e₁ : Nat) (he : e₁ < w.broker.nextEpoch)
    (l : Label) (hl : ((step P w l₂).1.run P ls).1.OnBehalf req.clientId e₁ l) :
    (step P ((step P w l₂).1.run P ls).1 l).1.broker.sessions.lookup req.clientId =
        ((step P w l₂).1.run P ls).1.broker.sessions.lookup req.clientId ↔
      ¬((step P w l₂).1.run P ls).1.Unfenced req.clientId l := by
  refine onBehalf_lookup_iff hl fun s hs heq => ?_
  have h := (run_atLeast P (connect_atLeast (P := P) hsel) ls).2 s hs
  omega

/-- The first connection of `"c"` has sent `p`, and its handler has run up to its second section, if it has
one; the CONNECT of the second connection waits behind it. -/
def overtaken (p : Packet) : World :=
  let c : Connect := { clientId := "c", cleanStart := false, sessionExpiryInterval := some 60 }
  let sent : List Label := match p with
    | .disconnect _ => sending "c" 1 p
    | _ => [{ input := .call (.packet "c" 1 p) }]
  (run .reference (boot .reference 0 {} {} .permitAll none)
    (connecting c ++ sent ++ [{ input := .call (.connect c none) }])).1

def overtaking : ConnectRequest :=
  ⟨{ clientId := "c", cleanStart := false, sessionExpiryInterval := some 60 }, .v5, none, "c", false, {}⟩

/-- The second connection has taken the session over. -/
def takenFrom (p : Packet) : World := (step .reference (overtaken p) { input := .task 1 }).1

/-- A SUBSCRIBE to one filter. -/
def lateSubscribe : Packet := .subscribe ⟨1, [{ filter := "t", qos := .atLeastOnce }], []⟩

/-- A SUBSCRIBE of the first connection that is handled after the takeover changes nothing. -/
theorem epochFence_iff_subscribe :
    (overtaken lateSubscribe).selected (.task 1) = some (.connect overtaking) ∧
    (overtaken lateSubscribe).broker.nextEpoch = 2 ∧
    (step .reference (takenFrom lateSubscribe) { input := .task 0 }).1.broker.sessions.lookup "c" =
      (takenFrom lateSubscribe).broker.sessions.lookup "c" := by
  have hsel : (overtaken lateSubscribe).selected (.task 1) = some (.connect overtaking) := by decide
  have hdis : (takenFrom lateSubscribe).selected (.task 0) = some (.dispatch "c" 1 lateSubscribe) := by
    decide +kernel
  refine ⟨hsel, by decide, (epochFence_iff .reference (overtaken lateSubscribe) { input := .task 1 } overtaking hsel [] 1
    (by decide) { input := .task 0 } (.dispatch _ hdis)).2 (not_unfenced_of_dispatch hdis (by decide))⟩

/-- A DISCONNECT that sets the Session Expiry Interval to 0. -/
def lateDisconnect : Packet := .disconnect ⟨.success, some 0⟩

/-- The rest of a DISCONNECT sets the Session Expiry Interval of the second connection's session. -/
theorem disconnect_reaches_successor :
    (overtaken lateDisconnect).selected (.task 1) = some (.connect overtaking) ∧
    (overtaken lateDisconnect).broker.nextEpoch = 2 ∧
    (takenFrom lateDisconnect).selected (.task 0) = some (.disconnectExpiry "c" 1 0 false) ∧
    (step .reference (takenFrom lateDisconnect) { input := .task 0 }).1.broker.sessions.lookup "c" ≠
      (takenFrom lateDisconnect).broker.sessions.lookup "c" := by
  decide +kernel

end World

end WispMQ
