import WispMQ.Publish
import WispMQ.Connect
/-!
# Session lifecycle, authorization reload and bridges:
`broker/lifecycle.rs`, `broker/authz.rs`, `broker/bridges.rs`

Handlers that release the lock and go on are split where they release it. The rest of a DISCONNECT
(`disconnectExpiry`), of a close (`removeIfOffline`), of a Will (`willWake`, `willAuthorize`) and of a
reload (`revokeUnauthorized`) are sections of their own. `clock` is the monotonic time the timers sleep on.
-/

namespace WispMQ
open KeyMap

namespace Broker
variable (P : Protocol)

/-! ## DISCONNECT -/

/-- `handle_client_disconnect` up to `drop(st)` (lifecycle.rs:13-35). A new Session Expiry Interval is
written in a second critical section. -/
def handleClientDisconnect (b : Broker) (cid : String) (epoch : Nat) (d : Disconnect) : Outcome :=
  b.fenced cid epoch fun _ =>
    let publishWill : Bool := d.reasonCode = .disconnectWithWillMessage
    match d.sessionExpiryInterval with
    | some newExpiry => { broker := b, tasks := [.disconnectExpiry cid epoch newExpiry publishWill] }
    | none => b.answer cid epoch (.clientDisconnect publishWill)

/-- The second critical section (lifecycle.rs:42-55): it does not look at the epoch again. -/
def disconnectExpiry (b : Broker) (cid : String) (epoch : Nat) (newExpiry : Nat) (publishWill : Bool) :
    Outcome :=
  match b.sessions.lookup cid with
  | none => b.answer cid epoch (.clientDisconnect publishWill)
  | some s =>
    let s := { s with sessionExpiryInterval := min newExpiry b.config.maxSessionExpiry }
    { broker := b.setSession cid s
      effects :=
        (if s.persistent then [.store (.upsertSession cid s.sessionExpiryInterval s.identity)] else []) ++
        [.result cid epoch (.clientDisconnect publishWill)] }

/-! ## Closing, expiry and Wills -/

/-- The Will task `schedule_will` spawns (lifecycle.rs:121-130). -/
def scheduleWill (clock : Nat) (cid : String) (epoch : Nat) (will : Message × Nat) (owner : String) : Task :=
  if will.2 > 0 then .willSleep cid epoch will.1 owner (clock + will.2)
  else .willAuthorize cid epoch will.1 owner

/-- What is left to do about the session after a close (lifecycle.rs:102-118). -/
def scheduleExpiry (clock : Nat) (cid : String) (epoch expiry : Nat) : Task :=
  if expiry = 0 then .closeRemove cid epoch else .expiry cid epoch (clock + expiry)

/-- The session after its connection is gone (lifecycle.rs:78-93). -/
def closedSession (s : Session) : Session := { s.goOffline with inboundAliases := ∅, will := none }

/-- `handle_connection_closed`, first critical section and the tasks it leads to (lifecycle.rs:64-119). -/
def handleConnectionClosed (clock : Nat) (b : Broker) (cid : String) (epoch : Nat) (publishWill : Bool) :
    Outcome :=
  match b.sessions.lookup cid with
  | none => { broker := b }
  | some s =>
    if s.epoch = epoch then
      { broker := b.setSession cid (closedSession s)
        effects := (s.out.map fun tx => .detached cid epoch tx).toList
        tasks :=
          (if publishWill then (s.will.map fun w => scheduleWill clock cid epoch w (who s.identity)).toList
            else []) ++ [scheduleExpiry clock cid epoch s.sessionExpiryInterval] }
    else { broker := b }

/-- Remove the session if it is still the closed one and offline (lifecycle.rs:103-114, :181-190). -/
def removeIfOffline (b : Broker) (cid : String) (epoch : Nat) : Outcome :=
  match b.sessions.lookup cid with
  | none => { broker := b }
  | some s =>
    if s.epoch = epoch && !s.isOnline then
      { broker := { b.removeSession cid with
          metrics.clientsExpired := b.metrics.clientsExpired + if s.persistent then 1 else 0 }
        effects := [.store (.deleteSession cid)] }
    else { broker := b }

/-- After the delay: a reconnection cancels the Will (lifecycle.rs:133-139). -/
def willWake (b : Broker) (cid : String) (epoch : Nat) (message : Message) (owner : String) : Outcome :=
  match b.sessions.lookup cid with
  | some s =>
    if s.epoch ≠ epoch || s.isOnline then { broker := b }
    else { broker := b, tasks := [.willAuthorize cid epoch message owner] }
  | none => { broker := b, tasks := [.willAuthorize cid epoch message owner] }

/-- The authorization check at fire time (lifecycle.rs:149-156). -/
def willAuthorize (b : Broker) (cid : String) (epoch : Nat) (message : Message) (owner : String) : Outcome :=
  if b.acl.canPublish P owner message.topic then { broker := b, tasks := [.willPublish cid epoch message] }
  else { broker := b }

/-- lifecycle.rs:158-172. -/
def willPublish (now : Nat) (ord : Orders) (b : Broker) (cid : String) (epoch : Nat) (message : Message) :
    Outcome :=
  publishMessage P now ord b (.will cid epoch) none message

/-! ## Reloading the policy -/

/-- `reload_acl` up to the swap (authz.rs:25-30); `none` stands for a file that does not load. -/
def reloadAcl (b : Broker) (fresh : Option Acl) : Outcome :=
  match b.config.aclPath, fresh with
  | some _, some acl => { broker := { b with acl := acl }, tasks := [.revoke acl] }
  | _, _ => { broker := b }

/-- One iteration of `revoke_unauthorized_subscriptions` (authz.rs:47-93). -/
def revokeVisit (acl : Acl) (_ : String) (s : Session) (cmds : List Command) : Session × List Command :=
  let revoked := s.unauthorized P acl
  if revoked.isEmpty then (s.retainAuthorized P acl, cmds)
  else
    ((s.retainAuthorized P acl).push (.shutdown .notAuthorized),
      cmds ++ if s.persistent then revoked.map fun sub => .deleteSubscription s.clientId sub.key else [])

/-- `revoke_unauthorized_subscriptions` (authz.rs:42). -/
def revokeUnauthorized (ord : Orders) (b : Broker) (acl : Acl) : Outcome :=
  if !acl.isEnforced then { broker := b }
  else
    let r := iterMut (revokeVisit P acl) ord.sessions b.sessions []
    { broker := { b with sessions := r.1 }, effects := r.2.map .store }

/-! ## Bridges and `$SYS` -/

/-- The channel of a session that is replaced or removed. -/
def dropped (b : Broker) (cid : String) : List Effect :=
  match b.sessions.lookup cid with
  | some s => (s.out.map fun tx => .detached cid s.epoch tx).toList
  | none => []

/-- `register_bridge` (bridges.rs:20). -/
def registerBridge (b : Broker) (cid : String) (out : OutTx) : Outcome :=
  { broker := { b with
      nextEpoch := b.nextEpoch + 1
      sessions := b.sessions.insert cid
        { Session.new cid 0 with epoch := b.nextEpoch, identity := some "$bridge", out := some out } }
    effects := b.dropped cid }

/-- `bridge_add_subscription` (bridges.rs:37). -/
def bridgeAddSubscription (b : Broker) (cid : String) (filter : String) (noLocal : Bool) : Outcome :=
  { broker := b.modifySession cid fun s =>
      { s with subscriptions := s.subscriptions ++ [⟨filter, none, .atMostOnce, noLocal, true, none⟩] } }

/-- `inject_publish` (bridges.rs:54). -/
def injectPublish (now : Nat) (ord : Orders) (b : Broker) (from_ : String) (m : Message) : Outcome :=
  publishMessage P now ord b (.bridge from_) (some from_) m

/-- The message `publish_sys` builds (bridges.rs:84-95). -/
def sysMessage (topic : String) (payload : Bytes) : Message :=
  { topic, payload, qos := .atMostOnce, retain := true, payloadFormatIndicator := some 1 }

/-- `publish_sys` (bridges.rs:81): retained in memory only, then routed. -/
def publishSys (now : Nat) (ord : Orders) : List (String × Bytes) → Broker → Outcome
  | [], b => { broker := b }
  | (topic, payload) :: es, b =>
    let m := sysMessage topic payload
    let b := { b with retained := b.retained.insert topic m }
    let r := publishSys now ord es (route P now ord b none m).1
    { broker := r.broker, effects := .retain .sys m :: .routed .sys m :: r.effects }

/-- `deregister_bridge` (bridges.rs:101). -/
def deregisterBridge (b : Broker) (cid : String) (epoch : Nat) : Outcome :=
  match b.sessions.lookup cid with
  | some s => if s.epoch = epoch then { broker := b.removeSession cid, effects := b.dropped cid } else { broker := b }
  | none => { broker := b }

/-- The purge in `snapshot` (stats.rs:66). -/
def purgeRetained (now : Nat) (b : Broker) : Outcome :=
  { broker := { b with retained := filterEntries b.retained fun _ m => !m.isExpired now } }

end Broker

end WispMQ
