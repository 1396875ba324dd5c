import WispMQ.Wills
import WispMQ.Forwarding
/-!
# Counters and gauges: `metrics.rs`, `broker/stats.rs`

Most counters are updated in one place each. `step_marks` says what a step of the broker does to the two that claims are
made about: `clients_maximum` is raised by a CONNECT (connect.rs:284), `publish_received` by `handle_publish`
(publish.rs:20).

`clients_connected` counts every session with a channel (stats.rs:31), and a bridge's has one from its registration on, which
does not raise the maximum (`highWater_iff`).

`packet_received[Publish]` is counted where packets are read (server.rs:255, :351, bridge.rs:425, :543). Not every PUBLISH
that is read reaches `handle_publish` (`counters_agree_iff`).
-/

namespace WispMQ
open KeyMap

/-! ## What the handlers count -/

namespace Broker
variable {P : Protocol}

/-- `clients_maximum` and `publish_received`. -/
def marks (b : Broker) : Nat × Nat := (b.metrics.clientsMaximum, b.metrics.publishReceived)

@[simp] theorem setSession_marks (b : Broker) (cid : String) (s : Session) : (b.setSession cid s).marks = b.marks := rfl

@[simp] theorem modifySession_marks (b : Broker) (cid : String) (g : Session → Session) :
    (b.modifySession cid g).marks = b.marks := by
  unfold modifySession
  split <;> rfl

@[simp] theorem acknowledge_marks (b : Broker) (cid : String) (qos : QoS) (ack : PubAck) :
    (b.acknowledge cid qos ack).marks = b.marks := by
  unfold acknowledge
  split
  · exact modifySession_marks ..
  · rfl

@[simp] theorem storeRetained_marks (b : Broker) (origin : Origin) (m : Message) :
    (b.storeRetained origin m).1.marks = b.marks := by
  unfold storeRetained
  split
  · split <;> rfl
  · rfl

@[simp] theorem route_marks (now : Nat) (ord : Orders) (b : Broker) (publisher : Option String) (m : Message) :
    (route P now ord b publisher m).1.marks = b.marks := by
  unfold route
  split <;> rfl

@[simp] theorem publishMessage_marks (now : Nat) (ord : Orders) (b : Broker) (origin : Origin)
    (publisher : Option String) (m : Message) : (publishMessage P now ord b origin publisher m).broker.marks = b.marks := by
  simp [publishMessage]

theorem publishSys_marks (now : Nat) (ord : Orders) : ∀ (es : List (String × Bytes)) (b : Broker),
    (publishSys P now ord es b).broker.marks = b.marks
  | [], _ => rfl
  | (topic, payload) :: es, b => by
    simp only [publishSys]
    rw [publishSys_marks now ord es, route_marks]
    rfl

theorem fenced_marks {b : Broker} {cid : String} {epoch : Nat} {body : Session → Outcome}
    (h : ∀ s, (body s).broker.marks = b.marks) : (b.fenced cid epoch body).broker.marks = b.marks := by
  unfold fenced
  split
  · split
    · exact h _
    · rfl
  · rfl

theorem acked_marks (b : Broker) (cid : String) (epoch : Nat) (f : Session → Session × Nat) :
    (b.acked cid epoch f).broker.marks = b.marks := by
  unfold acked
  split
  · rfl
  · split <;> rfl

theorem routePublish_marks (now : Nat) (ord : Orders) (b : Broker) (cid : String) (epoch : Nat) (s : Session)
    (publish : Publish) (m : Message) : (routePublish P now ord b cid epoch s publish m).1.marks = b.marks := by
  simp only [routePublish]
  split
  · exact route_marks ..
  · rw [acknowledge_marks, route_marks]
  · split
    · exact acknowledge_marks ..
    · rw [acknowledge_marks, route_marks, setSession_marks]

/-- `handle_publish` counts every PUBLISH it is called for, whatever becomes of it. -/
theorem handlePublish_marks (now : Nat) (ord : Orders) (b : Broker) (cid : String) (epoch : Nat) (publish : Publish) :
    (handlePublish P now ord b cid epoch publish).broker.marks = (b.marks.1, b.marks.2 + 1) := by
  rcases handlePublish_cases P now ord b cid epoch publish with ⟨rc, he⟩ | ⟨s, s', publish', -, -, -, he⟩
  · rw [he]
    rfl
  · rw [he]
    unfold acceptPublish
    split
    · rfl
    split
    · rfl
    split
    · exact acknowledge_marks ..
    · exact (routePublish_marks ..).trans (storeRetained_marks ..)

theorem removeIfOffline_marks (b : Broker) (cid : String) (epoch : Nat) :
    (removeIfOffline b cid epoch).broker.marks = b.marks := by
  unfold removeIfOffline
  split
  · rfl
  · split <;> rfl

end Broker

/-- The task hands a PUBLISH to `handle_publish`. -/
def Task.isPublish : Task → Bool
  | .dispatch _ _ (.publish _) => true
  | _ => false

namespace Broker
variable {P : Protocol}

theorem dispatch_marks (now : Nat) (ord : Orders) (b : Broker) (cid : String) (epoch : Nat) (packet : Packet) :
    (dispatch P now ord b cid epoch packet).broker.marks =
      (b.marks.1, b.marks.2 + (Task.dispatch cid epoch packet).isPublish.toNat) := by
  cases packet with
  | publish p => exact handlePublish_marks ..
  | puback a => exact acked_marks ..
  | pubrec a => exact acked_marks ..
  | pubrel a => exact acked_marks ..
  | pubcomp a => exact acked_marks ..
  | subscribe s => exact fenced_marks fun _ => rfl
  | unsubscribe u => exact fenced_marks fun _ => rfl
  | pingreq => exact modifySession_marks ..
  | disconnect d =>
    rw [dispatch, handleClientDisconnect_broker]
    rfl
  | _ => rfl

/-- A task that is no CONNECT leaves the maximum, and counts the PUBLISH it hands over. -/
theorem runTask_marks (now : Nat) (ord : Orders) (b : Broker) {t : Task} (h : ∀ req, t ≠ .connect req) :
    (runTask P now ord b t).broker.marks = (b.marks.1, b.marks.2 + t.isPublish.toNat) := by
  cases t with
  | dispatch cid epoch packet => exact dispatch_marks ..
  | disconnectExpiry cid epoch n pw =>
    simp only [runTask, disconnectExpiry]
    split <;> rfl
  | connect req => exact absurd rfl (h req)
  | closeRemove cid epoch => exact removeIfOffline_marks ..
  | willSleep cid epoch m owner due =>
    simp only [runTask, willWake]
    split
    · split <;> rfl
    · rfl
  | willAuthorize cid epoch m owner =>
    simp only [runTask, willAuthorize]
    split <;> rfl
  | willPublish cid epoch m => exact publishMessage_marks ..
  | expiry cid epoch due => exact removeIfOffline_marks ..
  | revoke acl =>
    simp only [runTask, revokeUnauthorized]
    split <;> rfl

theorem enter_marks (clock now : Nat) (ord : Orders) (b : Broker) (c : Call) :
    (enter P clock now ord b c).broker.marks = b.marks := by
  cases c with
  | connect c identity =>
    simp only [enter, startConnect, refuse]
    repeat' split
    all_goals rfl
  | packet cid epoch packet =>
    simp only [enter, handlePacket]
    split
    · split <;> rfl
    · rfl
  | closed cid epoch pw =>
    simp only [enter, handleConnectionClosed]
    split
    · rfl
    · split <;> rfl
  | reload fresh =>
    simp only [enter, reloadAcl]
    split <;> rfl
  | snapshot => rfl
  | publishSys entries => exact publishSys_marks ..
  | registerBridge name => rfl
  | bridgeAddSubscription name filter noLocal => exact modifySession_marks ..
  | injectPublish name m => exact publishMessage_marks ..
  | deregisterBridge name epoch =>
    simp only [enter, deregisterBridge]
    split
    · split <;> rfl
    · rfl

end Broker

namespace World
open Broker
variable {P : Protocol} {w : World} {l : Label}

/-- **Inversion**: a step that accepts no CONNECT leaves the maximum, and counts the PUBLISH it hands to `handle_publish`. -/
theorem step_marks (P : Protocol) (w : World) (l : Label) (h : ∀ req, w.selected l.input ≠ some (.connect req)) :
    (step P w l).1.broker.marks = (w.broker.marks.1, w.broker.marks.2 + (w.selected l.input).toList.countP Task.isPublish) := by
  cases hin : l.input with
  | call c =>
    simp only [step, hin, absorb]
    exact enter_marks ..
  | task i =>
    cases hsel : w.selected (.task i) with
    | none => simp [step, hin, hsel]
    | some t =>
      simp only [step, hin, hsel, absorb]
      rw [runTask_marks _ _ _ fun req he => h req (by rw [hin, hsel, he])]
      cases hp : t.isPublish <;> simp [hp]
  | sleep secs => simp [step, hin, selected]
  | recv cid epoch =>
    simp only [step, hin]
    exact modifySession_marks ..
  | hangup cid epoch =>
    simp only [step, hin]
    exact modifySession_marks ..

end World

/-! ## The high-water mark -/

/-- What `Broker::snapshot` reports of the counters that are modelled (stats.rs:19-49, :76-108). -/
structure Snapshot where
  clientsConnected : Nat
  clientsMaximum : Nat
  publishReceived : Nat

namespace Broker

def snapshot (b : Broker) : Snapshot where
  clientsConnected := b.onlineCount
  clientsMaximum := b.metrics.clientsMaximum
  publishReceived := b.metrics.publishReceived

/-- The clients whose session is online. -/
def onlineClients (b : Broker) : Finset String :=
  (keySet b.sessions).filter fun cid => (b.sessions.lookup cid).any (·.isOnline)

theorem onlineCount_eq (b : Broker) : b.onlineCount = b.onlineClients.card := countP_values ..

theorem mem_onlineClients {b : Broker} {cid : String} :
    cid ∈ b.onlineClients ↔ ∃ s, b.sessions.lookup cid = some s ∧ s.isOnline := by
  simp only [onlineClients, Finset.mem_filter, mem_keySet, mem_iff_lookup, Option.any_eq_true]
  constructor
  · exact fun h => h.2
  · rintro ⟨s, hs, hon⟩
    exact ⟨⟨s, hs⟩, s, hs, hon⟩

end Broker

namespace World
open Broker
variable {P : Protocol} {w : World} {l : Label}

/-- A step that accepts no CONNECT and registers no bridge brings no session online. -/
theorem step_online_subset (hconnect : ∀ req, w.selected l.input ≠ some (.connect req))
    (hbridge : ∀ name, l.input ≠ .call (.registerBridge name)) :
    (step P w l).1.broker.onlineClients ⊆ w.broker.onlineClients := by
  intro cid hcid
  obtain ⟨s', hs', hon⟩ := mem_onlineClients.1 hcid
  rcases (step_change P w l).bound hs' with ⟨s, hs, -, hoff⟩ | ⟨req, hsel, -⟩ | ⟨name, hin, -⟩
  · refine mem_onlineClients.2 ⟨s, hs, ?_⟩
    by_contra h
    have hnone : s.out = none := by simpa [Session.isOnline] using h
    rw [Session.isOnline, hoff hnone] at hon
    cases hon
  · exact absurd hsel (hconnect req)
  · exact absurd hin (hbridge name)

/-- `register_bridge` brings the bridge's session online. -/
theorem registerBridge_online {name : String} (hin : l.input = .call (.registerBridge name)) :
    (step P w l).1.broker.onlineClients = insert (bridgeClient name) w.broker.onlineClients := by
  ext cid
  simp only [Finset.mem_insert, mem_onlineClients, step, hin, absorb, enter, registerBridge, lookup_insert_if]
  by_cases hcid : cid = bridgeClient name
  · simp [hcid, Session.isOnline]
  · simp [hcid]

/-- If a bridge registers, its session is online already or fewer sessions are than have been at some time. -/
def observed (w : World) (l : Label) : Bool :=
  match l.input with
  | .call (.registerBridge name) =>
    (w.broker.sessions.lookup (bridgeClient name)).any (·.isOnline) || w.broker.onlineCount < w.broker.metrics.clientsMaximum
  | _ => true

/-- The high-water mark is no less than the gauge. -/
def HighWater (w : World) : Prop := w.broker.snapshot.clientsConnected ≤ w.broker.snapshot.clientsMaximum

/-- The maximum stays in a step that accepts no CONNECT. -/
theorem step_maximum (P : Protocol) (w : World) (l : Label) (h : ∀ req, w.selected l.input ≠ some (.connect req)) :
    (step P w l).1.broker.metrics.clientsMaximum = w.broker.metrics.clientsMaximum :=
  congrArg Prod.fst (step_marks P w l h)

/-- One step: the mark is kept up, unless a bridge registers that was not counted. -/
theorem step_highWater_iff (P : Protocol) (l : Label) (h : w.HighWater) : (step P w l).1.HighWater ↔ w.observed l = true := by
  simp only [HighWater, snapshot, onlineCount_eq] at h ⊢
  by_cases hconnect : ∃ req, w.selected l.input = some (.connect req)
  · -- the CONNECT observes what it leaves
    obtain ⟨req, hsel⟩ := hconnect
    have hobs : w.observed l = true := by
      unfold observed
      split
      · rename_i hin
        rw [hin] at hsel
        cases hsel
      · rfl
    refine iff_of_true ?_ hobs
    rw [(step_of_selected hsel).1, ← onlineCount_eq]
    exact le_max_right _ _
  · rw [not_exists] at hconnect
    rw [step_maximum P w l hconnect]
    by_cases hbridge : ∃ name, l.input = .call (.registerBridge name)
    · obtain ⟨name, hin⟩ := hbridge
      rw [registerBridge_online hin]
      simp only [observed, hin, Bool.or_eq_true, decide_eq_true_eq, onlineCount_eq]
      rw [show ((w.broker.sessions.lookup (bridgeClient name)).any (·.isOnline) = true) ↔
        bridgeClient name ∈ w.broker.onlineClients by rw [mem_onlineClients, Option.any_eq_true]]
      by_cases hmem : bridgeClient name ∈ w.broker.onlineClients
      · rw [Finset.insert_eq_of_mem hmem]
        exact iff_of_true h (.inl hmem)
      · rw [Finset.card_insert_of_notMem hmem]
        simp only [hmem, false_or]
        omega
    · rw [not_exists] at hbridge
      have hobs : w.observed l = true := by
        unfold observed
        split
        · rename_i name hin
          exact absurd hin (hbridge name)
        · rfl
      exact iff_of_true (le_trans (Finset.card_le_card (step_online_subset hconnect hbridge)) h) hobs

theorem boot_highWater (P : Protocol) (now : Nat) (cfg : Config) (db : Db) (acl : Acl) (auth : Option Credentials) :
    (boot P now cfg db acl auth).HighWater := by
  have hnone : (boot P now cfg db acl auth).broker.onlineClients = ∅ := by
    refine Finset.eq_empty_of_forall_notMem fun cid hcid => ?_
    obtain ⟨s, hs, hon⟩ := mem_onlineClients.1 hcid
    rw [boot_lookup] at hs
    split at hs
    · cases hs
    · obtain ⟨row, -, rfl⟩ := Option.map_eq_some_iff.1 hs
      cases hon
  rw [HighWater, snapshot, onlineCount_eq, hnone]
  exact Nat.zero_le _

/-- **The high-water mark** is no less than the gauge in every state of a run, if and only if no bridge of the run comes
online uncounted. -/
theorem highWater_iff (P : Protocol) (now : Nat) (cfg : Config) (db : Db) (acl : Acl) (auth : Option Credentials)
    (ls : List Label) :
    (∀ pre post, ls = pre ++ post → (run P (boot P now cfg db acl auth) pre).1.HighWater) ↔
      Machine.Along (step P) (fun w l => w.observed l = true) (boot P now cfg db acl auth) ls := by
  constructor
  · intro h
    refine Machine.Along.of_splits (step P) fun pre l post hls => ?_
    have hafter := h (pre ++ [l]) post (by simp [hls])
    rw [run_append] at hafter
    exact (step_highWater_iff P l (h pre (l :: post) hls)).1 hafter
  · rintro h pre post rfl
    exact Machine.run_state_invariant (step P) HighWater (fun w l hw hl => (step_highWater_iff P l hw).2 hl)
      (boot_highWater P now cfg db acl auth) pre h.of_append

/-- A bridge registers with a broker that no client has connected to. -/
theorem bridge_unobserved :
    ¬∀ pre post, [({ input := .call (.registerBridge "r") } : Label)] = pre ++ post → (run .reference empty pre).1.HighWater := by
  intro h
  have := h [{ input := .call (.registerBridge "r") }] [] rfl
  revert this
  unfold HighWater
  decide +kernel

end World

/-! ## PUBLISH packets -/

def Packet.isPublish : Packet → Bool
  | .publish _ => true
  | _ => false

/-- The broker, the count of PUBLISH packets where packets are read, and the bridges that are connected. -/
structure Metered where
  world : World
  /-- `packet_received[Publish]`. -/
  packetReceived : Nat := 0
  /-- `run_loop` of each bridge, by its name. -/
  loops : KeyMap String BridgeLoop := ∅

/-- A packet is read, or something else goes on. -/
inductive Reading where
  /-- A step of the broker that follows no reading of a packet. -/
  | broker (l : Label)
  /-- The first packet of a connection (server.rs:247-271). -/
  | first (p : Packet) (identity : Option String) (now : Nat)
  /-- A packet in the loop of a connection (server.rs:349-356). -/
  | client (cid : String) (epoch : Nat) (p : Packet)
  /-- What a bridge reads after its CONNECT (bridge.rs:423-441). -/
  | answer (name : String) (p : Packet)
  /-- A packet in the loop of a bridge (bridge.rs:538-560). -/
  | remote (name : String) (p : Packet) (now : Nat) (ord : Orders)
  /-- The connection of a bridge is lost. -/
  | lost (name : String)

/-- The call follows the reading of a packet. -/
def Input.reads : Input → Bool
  | .call (.connect ..) | .call (.packet ..) | .call (.injectPublish ..) => true
  | _ => false

namespace Metered
variable (P : Protocol)

/-- `Metrics::record_received` (metrics.rs:111), for the type PUBLISH. -/
def record (m : Metered) (p : Packet) : Metered := { m with packetReceived := m.packetReceived + p.isPublish.toNat }

/-- The broker makes a step. -/
def advance (m : Metered) (l : Label) : Metered × List Effect :=
  let r := World.step P m.world l
  ({ m with world := r.1 }, r.2)

def setLoop (m : Metered) (name : String) : Option BridgeLoop → Metered
  | some loop => { m with loops := m.loops.insert name loop }
  | none => { m with loops := m.loops.erase name }

def step (m : Metered) : Reading → Metered × List Effect
  | .broker l => if l.input.reads then (m, []) else m.advance P l
  | .first p identity now =>
    match p with
    | .connect c => (m.record p).advance P { input := .call (.connect c identity), now }
    | _ => (m.record p, [])
  | .client cid epoch p => (m.record p).advance P { input := .call (.packet cid epoch p) }
  | .answer name p =>
    ((m.record p).setLoop name (match p with
      | .connack c => if c.reasonCode.isError then none else some {}
      | _ => none), [])
  | .remote name p now ord =>
    match m.loops.lookup name with
    | none => (m, [])
    | some loop =>
      let r := loop.receive now p
      let m := (m.record p).setLoop name r.loop
      match r.inject with
      | some message => m.advance P { input := .call (.injectPublish name message), now, ord }
      | none => (m, [])
  | .lost name => (m.setLoop name none, [])

/-- The state and the effects of a run. -/
def run (m : Metered) (rs : List Reading) : Metered × List Effect := Machine.run (step P) m rs

/-- The PUBLISH packets that have passed the fence of `handle_packet` and are not handled yet. -/
def pending (m : Metered) : Nat := m.world.tasks.countP Task.isPublish

/-- The PUBLISH that is read does not reach `handle_publish`: it is the first packet of a connection, or the connection is
not the session's, or it comes from the remote of a bridge. -/
def misses (m : Metered) : Reading → Bool
  | .first p _ _ | .answer _ p => p.isPublish
  | .client cid epoch p => p.isPublish && !(m.world.broker.sessions.lookup cid).any (·.epoch = epoch)
  | .remote name p _ _ => p.isPublish && (m.loops.lookup name).isSome
  | _ => false

end Metered

namespace World
open Broker
variable {P : Protocol} {w : World} {l : Label}

/-- What a step adds to the PUBLISH packets counted or under way is what it lets pass the fence. -/
theorem step_counted (P : Protocol) (w : World) (l : Label) :
    (step P w l).1.broker.metrics.publishReceived + (step P w l).1.tasks.countP Task.isPublish =
      w.broker.metrics.publishReceived + w.tasks.countP Task.isPublish + (newTasks P w l).countP Task.isPublish := by
  have hcount := step_countP P w l Task.isPublish
  have hmarks : (step P w l).1.broker.metrics.publishReceived =
      w.broker.metrics.publishReceived + (w.selected l.input).toList.countP Task.isPublish := by
    by_cases hconnect : ∃ req, w.selected l.input = some (.connect req)
    · obtain ⟨req, hsel⟩ := hconnect
      rw [(step_of_selected hsel).1, hsel]
      rfl
    · rw [not_exists] at hconnect
      exact congrArg Prod.snd (step_marks P w l hconnect)
  omega

/-- Only a packet that is read passes the fence. -/
theorem newTasks_publish_of_ne (h : ∀ cid epoch p, l.input ≠ .call (.packet cid epoch p)) :
    (newTasks P w l).countP Task.isPublish = 0 := by
  refine List.countP_eq_zero.2 fun t ht hp => ?_
  unfold Task.isPublish at hp
  split at hp
  · exact h _ _ _ (newTasks_spawned ht).dispatched.1
  · cases hp

/-- The fence of `handle_packet`. -/
theorem newTasks_publish {cid : String} {epoch : Nat} {p : Packet} (hin : l.input = .call (.packet cid epoch p)) :
    (newTasks P w l).countP Task.isPublish =
      (p.isPublish && (w.broker.sessions.lookup cid).any (·.epoch = epoch)).toNat := by
  have htask : (Task.dispatch cid epoch p).isPublish = p.isPublish := by cases p <;> rfl
  simp only [newTasks, hin, enter, handlePacket]
  cases hs : w.broker.sessions.lookup cid with
  | none => simp [answer]
  | some s =>
    by_cases he : s.epoch = epoch
    · simp only [he, ne_eq, not_true_eq_false, if_false, List.countP_cons, List.countP_nil, htask, Nat.zero_add,
        Option.any_some, decide_true, Bool.and_true]
      cases p.isPublish <;> rfl
    · simp [he, answer]

end World

namespace Metered
open Broker
variable {P : Protocol} {m : Metered}

/-- The PUBLISH packets counted by `handle_publish` or on their way there. -/
def handled (m : Metered) : Nat := m.world.broker.metrics.publishReceived + m.pending

theorem advance_handled (m : Metered) (l : Label) :
    (m.advance P l).1.packetReceived = m.packetReceived ∧
      (m.advance P l).1.handled = m.handled + (World.newTasks P m.world l).countP Task.isPublish :=
  ⟨rfl, World.step_counted P m.world l⟩

theorem setLoop_handled (m : Metered) (name : String) (loop : Option BridgeLoop) :
    (m.setLoop name loop).packetReceived = m.packetReceived ∧ (m.setLoop name loop).handled = m.handled := by
  cases loop <;> exact ⟨rfl, rfl⟩

/-- Reading a packet handles nothing. -/
theorem record_handled (m : Metered) (p : Packet) :
    (m.record p).packetReceived + m.handled = m.packetReceived + (m.record p).handled + p.isPublish.toNat := by
  simp only [record, handled, pending]
  omega

/-- A PUBLISH that is read is handled, or missed. -/
theorem step_handled (P : Protocol) (m : Metered) (r : Reading) :
    (m.step P r).1.packetReceived + m.handled = m.packetReceived + (m.step P r).1.handled + (m.misses r).toNat := by
  have hquiet : ∀ (m : Metered) {l : Label}, (∀ cid epoch p, l.input ≠ .call (.packet cid epoch p)) →
      (m.advance P l).1.packetReceived = m.packetReceived ∧ (m.advance P l).1.handled = m.handled := by
    intro m l h
    obtain ⟨hrec, hhandled⟩ := advance_handled (P := P) m l
    exact ⟨hrec, by rw [hhandled, World.newTasks_publish_of_ne h]; rfl⟩
  cases r with
  | broker l =>
    simp only [step, misses]
    split
    · simp
    · rename_i hreads
      obtain ⟨hrec, hhandled⟩ := hquiet m (l := l) fun cid epoch p hin => hreads (by rw [hin]; rfl)
      rw [hrec, hhandled]
      rfl
  | first p identity now =>
    cases p with
    | connect c =>
      obtain ⟨hrec, hhandled⟩ := hquiet (m.record (.connect c)) (l := { input := .call (.connect c identity), now })
        (by simp)
      simp only [step, misses]
      rw [hrec, hhandled]
      exact m.record_handled (.connect c)
    | _ => exact m.record_handled _
  | client cid epoch p =>
    obtain ⟨hrec, hhandled⟩ := advance_handled (P := P) (m.record p) { input := .call (.packet cid epoch p) }
    simp only [step, misses]
    rw [hrec, hhandled, World.newTasks_publish rfl]
    simp only [record, handled, pending]
    cases p.isPublish <;> cases (m.world.broker.sessions.lookup cid).any (·.epoch = epoch) <;> simp <;> omega
  | answer name p =>
    obtain ⟨hrec, hhandled⟩ := setLoop_handled (m.record p) name (match p with
      | .connack c => if c.reasonCode.isError then none else some {}
      | _ => none)
    simp only [step, misses]
    rw [hrec, hhandled]
    exact m.record_handled p
  | remote name p now ord =>
    simp only [step, misses]
    cases hloop : m.loops.lookup name with
    | none => simp
    | some loop =>
      obtain ⟨hrec, hhandled⟩ := setLoop_handled (m.record p) name (loop.receive now p).loop
      simp only [Option.isSome_some, Bool.and_true]
      cases (loop.receive now p).inject with
      | none =>
        rw [hrec, hhandled]
        exact m.record_handled p
      | some message =>
        obtain ⟨hrec', hhandled'⟩ := hquiet ((m.record p).setLoop name (loop.receive now p).loop)
          (l := { input := .call (.injectPublish name message), now, ord }) (by simp)
        rw [hrec', hhandled', hrec, hhandled]
        exact m.record_handled p
  | lost name => rfl

/-- What is read and not handled has been missed. -/
theorem run_handled (P : Protocol) : ∀ (rs : List Reading) (m : Metered),
    (m.run P rs).1.packetReceived + m.handled =
      m.packetReceived + (m.run P rs).1.handled + Machine.total (step P) (fun m r => (m.misses r).toNat) m rs
  | [], m => rfl
  | r :: rs, m => by
    have hone := step_handled P m r
    have hrest := run_handled P rs (m.step P r).1
    simp only [run, Machine.run, Machine.total] at hrest ⊢
    omega

/-- A broker that has just started, with no bridge connected. -/
def boot (P : Protocol) (now : Nat) (cfg : Config) (db : Db) (acl : Acl) (auth : Option Credentials) : Metered where
  world := World.boot P now cfg db acl auth

theorem boot_handled (P : Protocol) (now : Nat) (cfg : Config) (db : Db) (acl : Acl) (auth : Option Credentials) :
    (boot P now cfg db acl auth).handled = 0 := rfl

/-- **The two counters of PUBLISH packets** agree once every packet is handled, if and only if every PUBLISH of the run was
read in the loop of a connection that was its session's. -/
theorem counters_agree_iff (P : Protocol) (now : Nat) (cfg : Config) (db : Db) (acl : Acl) (auth : Option Credentials)
    (rs : List Reading) (hdone : ((boot P now cfg db acl auth).run P rs).1.pending = 0) :
    ((boot P now cfg db acl auth).run P rs).1.world.broker.snapshot.publishReceived =
        ((boot P now cfg db acl auth).run P rs).1.packetReceived ↔
      Machine.Along (step P) (fun m r => m.misses r = false) (boot P now cfg db acl auth) rs := by
  have hrun := run_handled P rs (boot P now cfg db acl auth)
  have htotal : ((boot P now cfg db acl auth).run P rs).1.packetReceived =
      ((boot P now cfg db acl auth).run P rs).1.world.broker.metrics.publishReceived +
        Machine.total (step P) (fun m r => (m.misses r).toNat) (boot P now cfg db acl auth) rs := by
    rw [boot_handled, show (boot P now cfg db acl auth).packetReceived = 0 from rfl, handled, hdone] at hrun
    omega
  have hiff : Machine.total (step P) (fun m r => (m.misses r).toNat) (boot P now cfg db acl auth) rs = 0 ↔
      Machine.Along (step P) (fun m r => m.misses r = false) (boot P now cfg db acl auth) rs := by
    refine (Machine.total_eq_zero (step P)).trans ⟨fun h => h.mono (step P) ?_, fun h => h.mono (step P) ?_⟩
    · intro m r hr
      exact Bool.toNat_eq_zero.1 hr
    · intro m r hr
      exact Bool.toNat_eq_zero.2 hr
  show _ = _ ↔ _
  simp only [← hiff, htotal, snapshot]
  omega

/-- A QoS 0 PUBLISH to `t`. -/
def sample : Publish := ⟨false, .atMostOnce, false, "t", none, {}, [1]⟩

/-- A client connects and publishes. -/
def oneClient : List Reading :=
  [.first (.connect { clientId := "c", cleanStart := true }) none 0, .broker { input := .task 0 },
    .client "c" 1 (.publish sample), .broker { input := .task 0 }]

theorem counters_agree_oneClient :
    ((boot .reference 0 {} {} .permitAll none).run .reference oneClient).1.world.broker.snapshot.publishReceived =
      ((boot .reference 0 {} {} .permitAll none).run .reference oneClient).1.packetReceived ∧
    ((boot .reference 0 {} {} .permitAll none).run .reference oneClient).1.packetReceived = 1 :=
  ⟨(counters_agree_iff .reference 0 {} {} .permitAll none oneClient (by decide +kernel)).2 (by decide +kernel),
    by decide +kernel⟩

/-- A bridge registers, its remote accepts it and sends it a PUBLISH. -/
def oneRemote : List Reading :=
  [.broker { input := .call (.registerBridge "r") },
    .answer "r" (.connack { sessionPresent := false, reasonCode := .success }), .remote "r" (.publish sample) 0 {}]

/-- A second connection takes the client's session over, and the first one still sends a PUBLISH. -/
def superseded : List Reading :=
  [.first (.connect { clientId := "c", cleanStart := true }) none 0, .broker { input := .task 0 },
    .first (.connect { clientId := "c", cleanStart := true }) none 0, .broker { input := .task 0 },
    .client "c" 1 (.publish sample)]

/-- What is under way and what the two counters read after a run. -/
def counts (rs : List Reading) : Nat × Nat × Nat :=
  let m := ((boot .reference 0 {} {} .permitAll none).run .reference rs).1
  (m.pending, m.packetReceived, m.world.broker.snapshot.publishReceived)

/-- Everything is handled and the PUBLISH is counted only where it was read. -/
theorem counters_disagree : counts oneRemote = (0, 1, 0) ∧ counts superseded = (0, 1, 0) := by
  constructor <;> decide +kernel

end Metered

end WispMQ
