import WispMQ.Subscribe
import WispMQ.Lifecycle
import WispMQ.Lib.Machine
/-!
# The running broker

The broker with its continuations: one `step` is one critical section, a delivery to a connection task,
or time passing. Which section runs next, the wall clock it reads and the orders in which it walks the
hash maps are all in the `Label`, so a list of labels is an interleaving of any number of connections,
timers, reloads and bridges.

| here | there |
| --- | --- |
| `handlePacket`, `dispatch` | `handle_packet` (mod.rs:253), before and after it releases the lock |
| `Call`                     | the entry points: server.rs, main.rs (SIGHUP), sysinfo.rs, bridge.rs |
| `Input.task`               | the rest of a handler, or a spawned task, taking the lock |
| `Input.recv`, `Input.hangup` | the connection task's `rx.recv()`, and the end of its `rx` |

Nothing ties a `Call` to a live connection: packets and closes may come for any client id and epoch.
-/

namespace WispMQ
open KeyMap

/-- `format!("$bridge/{}", cfg.name)` (bridge.rs:220). -/
def bridgeClient (name : String) : String := "$bridge/" ++ name

theorem reserved_bridgeClient (name : String) : reservedClientId (bridgeClient name) = true := by
  have h : startsWith (bridgeClient name) "$bridge/" = true := by
    rw [startsWith, List.isPrefixOf_iff_prefix, bridgeClient, String.toList_append]
    exact List.prefix_append _ _
  rw [reservedClientId, h, Bool.true_or]

/-- A client id that is not reserved is no bridge's. -/
theorem ne_bridgeClient {cid : String} (h : reservedClientId cid = false) (name : String) : cid ≠ bridgeClient name := by
  rintro rfl
  rw [reserved_bridgeClient] at h
  cases h

/-- Connections are told apart by client id and epoch. -/
instance lawfulBEqConnection : LawfulBEq (String × Nat) := inferInstance

inductive Call where
  | connect (connect : Connect) (identity : Option String)
  | packet (cid : String) (epoch : Nat) (packet : Packet)
  | closed (cid : String) (epoch : Nat) (publishWill : Bool)
  /-- SIGHUP; `none` when the policy file does not load. -/
  | reload (fresh : Option Acl)
  /-- `snapshot`, which purges expired retained messages. -/
  | snapshot
  | publishSys (entries : List (String × Bytes))
  | registerBridge (name : String)
  | bridgeAddSubscription (name : String) (filter : String) (noLocal : Bool)
  | injectPublish (name : String) (message : Message)
  | deregisterBridge (name : String) (epoch : Nat)
deriving DecidableEq

inductive Input where
  | call (c : Call)
  /-- Run the `i`-th waiting task, if it is due. -/
  | task (i : Nat)
  | sleep (secs : Nat)
  | recv (cid : String) (epoch : Nat)
  | hangup (cid : String) (epoch : Nat)
deriving DecidableEq

structure Label where
  input : Input
  now : Nat := 0
  ord : Orders := {}
deriving DecidableEq

/-- Monotonic time at which a task may run. -/
def Task.due : Task → Nat
  | .willSleep _ _ _ _ due | .expiry _ _ due => due
  | _ => 0

/-- The task removes the session of connection `e` of `cid`, if it is still there and offline. -/
def Task.removes (cid : String) (e : Nat) : Task → Prop
  | .expiry c e' _ | .closeRemove c e' => c = cid ∧ e' = e
  | _ => False

namespace Broker
variable (P : Protocol)

/-- The epoch fence of `handle_packet` (mod.rs:264-290). -/
def handlePacket (b : Broker) (cid : String) (epoch : Nat) (packet : Packet) : Outcome :=
  match b.sessions.lookup cid with
  | some s =>
    if s.epoch ≠ epoch then b.answer cid epoch .continue
    else { broker := b, tasks := [.dispatch cid epoch packet] }
  | none => b.answer cid epoch .continue

/-- The `match packet` of `handle_packet` (mod.rs:292-315). A PINGREQ is answered by `push_control`,
which takes the lock again and does not look at the epoch. -/
def dispatch (now : Nat) (ord : Orders) (b : Broker) (cid : String) (epoch : Nat) : Packet → Outcome
  | .publish p => handlePublish P now ord b cid epoch p
  | .puback a => handlePuback P now b cid epoch a
  | .pubrec a => handlePubrec b cid epoch a
  | .pubrel a => handlePubrel b cid epoch a
  | .pubcomp a => handlePubcomp P now b cid epoch a
  | .subscribe s => handleSubscribe P now ord b cid epoch s
  | .unsubscribe u => handleUnsubscribe P b cid epoch u
  | .pingreq => (b.sendTo cid (.control .pingresp)).answer cid epoch .continue
  | .disconnect d => handleClientDisconnect b cid epoch d
  | .auth => b.answer cid epoch .continue
  | .connect _ | .connack _ | .suback _ | .unsuback _ | .pingresp =>
    b.answer cid epoch (.serverDisconnect .protocolError)

/-- A waiting task takes the lock. -/
def runTask (now : Nat) (ord : Orders) (b : Broker) : Task → Outcome
  | .dispatch cid epoch packet => dispatch P now ord b cid epoch packet
  | .disconnectExpiry cid epoch newExpiry publishWill => disconnectExpiry b cid epoch newExpiry publishWill
  | .connect req => finishConnect P now ord b req
  | .closeRemove cid epoch => removeIfOffline b cid epoch
  | .willSleep cid epoch message owner _ => willWake b cid epoch message owner
  | .willAuthorize cid epoch message owner => willAuthorize P b cid epoch message owner
  | .willPublish cid epoch message => willPublish P now ord b cid epoch message
  | .expiry cid epoch _ => removeIfOffline b cid epoch
  | .revoke acl => revokeUnauthorized P ord b acl

/-- An entry point takes the lock for the first time. A connection brings a new channel (server.rs:278). -/
def enter (clock now : Nat) (ord : Orders) (b : Broker) : Call → Outcome
  | .connect connect identity => startConnect P now b connect {} identity
  | .packet cid epoch packet => handlePacket b cid epoch packet
  | .closed cid epoch publishWill => handleConnectionClosed clock b cid epoch publishWill
  | .reload fresh => reloadAcl b fresh
  | .snapshot => purgeRetained now b
  | .publishSys entries => publishSys P now ord entries b
  | .registerBridge name => registerBridge b (bridgeClient name) {}
  | .bridgeAddSubscription name filter noLocal => bridgeAddSubscription b (bridgeClient name) filter noLocal
  | .injectPublish name message => injectPublish P now ord b (bridgeClient name) message
  | .deregisterBridge name epoch => deregisterBridge b (bridgeClient name) epoch

end Broker

/-- Rewrite the channel of connection `epoch` while the session still holds its sender. -/
def Session.onChannel (epoch : Nat) (f : OutTx → OutTx) (s : Session) : Session :=
  if s.epoch = epoch then { s with out := s.out.map f } else s

structure World where
  broker : Broker
  tasks : List Task := []
  /-- Monotonic clock, in seconds. -/
  clock : Nat := 0

namespace World
variable (P : Protocol)

/-- The broker as `main` starts it, on the tables `db`. -/
def boot (now : Nat) (cfg : Config) (db : Db) (acl : Acl) (auth : Option Credentials) : World :=
  { broker := Broker.new P cfg (loadAll P now db) acl auth }

/-- Take over what a critical section left behind. -/
def absorb (w : World) (o : Outcome) : World × List Effect :=
  ({ w with broker := o.broker, tasks := w.tasks ++ o.tasks }, o.effects)

/-- The task an input runs. -/
def selected (w : World) : Input → Option Task
  | .task i => (w.tasks[i]?).filter (·.due ≤ w.clock)
  | _ => none

def step (w : World) (l : Label) : World × List Effect :=
  match l.input with
  | .call c => w.absorb (Broker.enter P w.clock l.now l.ord w.broker c)
  | .task i =>
    match w.selected (.task i) with
    | some t => { w with tasks := w.tasks.eraseIdx i }.absorb (Broker.runTask P l.now l.ord w.broker t)
    | none => (w, [])
  | .sleep secs => ({ w with clock := w.clock + secs }, [])
  | .recv cid epoch =>
    ({ w with broker := w.broker.modifySession cid (·.onChannel epoch OutTx.recv) }, [])
  | .hangup cid epoch =>
    ({ w with broker := w.broker.modifySession cid (·.onChannel epoch ({ · with rxOpen := false })) }, [])

/-- The state and the effects of a run. -/
def run (w : World) (ls : List Label) : World × List Effect := Machine.run (step P) w ls

theorem run_append (w : World) (ls ls' : List Label) : (run P w (ls ++ ls')).1 = (run P (run P w ls).1 ls').1 := by
  rw [run, Machine.run_append]
  rfl

/-! ### Schedules of one connection, for concrete runs -/

/-- A broker with nothing stored, no credentials and no policy. -/
def empty : World := boot .reference 0 {} {} .permitAll none

/-- A CONNECT, handled without interruption. -/
def connecting (c : Connect) (identity : Option String := none) : List Label :=
  [{ input := .call (.connect c identity) }, { input := .task 0 }]

/-- A packet, handled without interruption while no other task waits. -/
def sending (cid : String) (epoch : Nat) (p : Packet) : List Label :=
  [{ input := .call (.packet cid epoch p) }, { input := .task 0 }]

/-- A booted broker holds the loaded sessions, reserved client ids left out. -/
theorem boot_lookup (now : Nat) (cfg : Config) (db : Db) (acl : Acl) (auth : Option Credentials) (cid : String) :
    (boot P now cfg db acl auth).broker.sessions.lookup cid =
      if reservedClientId cid then none
      else (db.sessions.lookup cid).map fun row =>
        Broker.restoreSession P ⟨cid, row.sessionExpiry, row.ownerIdentity, db.subsOf cid⟩ := by
  simp only [boot, Broker.new, loadAll, List.foldl_map]
  rw [lookup_foldl_insert reservedClientId (fun cid (row : SessionRow) =>
    Broker.restoreSession P ⟨cid, row.sessionExpiry, row.ownerIdentity, db.subsOf cid⟩) cid _ _ db.sessions.nodupKeys]
  cases h : db.sessions.lookup cid with
  | none => simp [AList.lookup] at h ⊢; simp [h]
  | some row => simp only [AList.lookup] at h; simp [h]

end World

/-- The storage commands among the effects, in order. -/
def commands : List Effect → List Command
  | [] => []
  | .store c :: es => c :: commands es
  | _ :: es => commands es

@[simp] theorem commands_append : ∀ es es' : List Effect, commands (es ++ es') = commands es ++ commands es'
  | [], _ => rfl
  | e :: es, es' => by cases e <;> simp [commands, commands_append es es']

@[simp] theorem commands_map_store : ∀ cs : List Command, commands (cs.map .store) = cs
  | [] => rfl
  | c :: cs => by simp [commands, commands_map_store cs]

end WispMQ
