import WispMQ.Connect
import WispMQ.ConfigFile
/-!
# What the broker reports: `metrics.rs`, `broker/stats.rs`

| here | there |
| --- | --- |
| `Snapshot`             | `Snapshot` (metrics.rs:162) |
| `Snapshot.series`      | `Snapshot::series` (metrics.rs:273) |
| `Snapshot.toPrometheus` | `Snapshot::to_prometheus` (metrics.rs:490) |
| `State.snapshot`       | `Broker::snapshot` (stats.rs:19), which also drops the retained messages that have expired (`State.purge`) |
| `State.clients`, `State.retainedInfos` | `Broker::clients`, `Broker::retained` (stats.rs:114, :134) |
| `isBrokerBookkeeping`  | `is_broker_bookkeeping` (stats.rs:168) |
-/

namespace WispMQ.Admin
open KeyMap

/-! ## The snapshot -/

/-- `PACKET_KINDS` (metrics.rs:20). -/
abbrev packetKinds : Nat := 16

/-- `PACKET_NAMES` (metrics.rs:23). -/
def packetNames : Vector String packetKinds :=
  #v["reserved", "connect", "connack", "publish", "puback", "pubrec", "pubrel", "pubcomp", "subscribe", "suback",
    "unsubscribe", "unsuback", "pingreq", "pingresp", "disconnect", "auth"]

/-- The counters of `Metrics` that the handlers of the broker do not update (metrics.rs:44). -/
structure Counters where
  packetsReceived : Nat := 0
  packetsSent : Nat := 0
  bytesReceived : Nat := 0
  bytesSent : Nat := 0
  bridgeForwardedOut : Nat := 0
  bridgeForwardedIn : Nat := 0
  bridgesConnected : Nat := 0
  publishBytesReceived : Nat := 0
  publishBytesSent : Nat := 0
  socketConnections : Nat := 0
  connectionsRateLimited : Nat := 0
  packetReceived : Vector Nat packetKinds := .replicate packetKinds 0
  packetSent : Vector Nat packetKinds := .replicate packetKinds 0

structure Snapshot where
  connectionsTotal : Nat
  packetsReceived : Nat
  packetsSent : Nat
  bytesReceived : Nat
  bytesSent : Nat
  publishReceived : Nat
  publishDelivered : Nat
  publishDropped : Nat
  bridgeForwardedOut : Nat
  bridgeForwardedIn : Nat
  publishBytesReceived : Nat
  publishBytesSent : Nat
  socketConnections : Nat
  clientsExpired : Nat
  connectionsRateLimited : Nat
  packetReceived : Vector Nat packetKinds
  packetSent : Vector Nat packetKinds
  clientsConnected : Nat
  clientsDisconnected : Nat
  clientsTotal : Nat
  clientsMaximum : Nat
  sessionsTotal : Nat
  retainedMessages : Nat
  retainedBytes : Nat
  subscriptionsTotal : Nat
  sharedSubscriptionsCount : Nat
  bridgesConnected : Nat
  storeMessagesCount : Nat
  storeMessagesBytes : Nat
  packetOutCount : Nat
  packetOutBytes : Nat
  uptimeSeconds : Nat
  version : String

/-! ## Series -/

inductive SeriesKind where
  | counter
  | gauge
deriving DecidableEq, Repr

structure Series where
  name : String
  kind : SeriesKind
  help : String
  value : Nat
deriving DecidableEq, Repr

namespace Series

def counter (name help : String) (value : Nat) : Series := { name, kind := .counter, help, value }

def gauge (name help : String) (value : Nat) : Series := { name, kind := .gauge, help, value }

/-- One statistic in the exposition. -/
def render (s : Series) : String :=
  let ty := match s.kind with
    | .counter => "counter"
    | .gauge => "gauge"
  s!"# HELP {s.name} {s.help}\n# TYPE {s.name} {ty}\n{s.name} {s.value}\n"

end Series

namespace Snapshot

def counters (s : Snapshot) : List Series :=
  [ .counter "mqtt_connections_total" "Total accepted client connections." s.connectionsTotal,
    .counter "mqtt_packets_received_total" "Total MQTT control packets received." s.packetsReceived,
    .counter "mqtt_packets_sent_total" "Total MQTT control packets sent." s.packetsSent,
    .counter "mqtt_bytes_received_total" "Total bytes received from clients and bridge remotes." s.bytesReceived,
    .counter "mqtt_bytes_sent_total" "Total bytes sent to clients and bridge remotes." s.bytesSent,
    .counter "mqtt_publish_received_total"
      "Total PUBLISH packets received from clients and bridge remotes." s.publishReceived,
    .counter "mqtt_publish_delivered_total" "Total PUBLISH deliveries to subscribers." s.publishDelivered,
    .counter "mqtt_publish_dropped_total"
      "Total messages dropped because an offline session's queue was full." s.publishDropped,
    .counter "mqtt_bridge_forwarded_out_total"
      "Total messages forwarded out to bridged remote brokers." s.bridgeForwardedOut,
    .counter "mqtt_bridge_forwarded_in_total"
      "Total messages received from bridged remotes and injected locally." s.bridgeForwardedIn,
    .counter "mqtt_messages_received_total" "Total MQTT messages (all control packets) received." s.packetsReceived,
    .counter "mqtt_messages_sent_total" "Total MQTT messages (all control packets) sent." s.packetsSent,
    .counter "mqtt_publish_sent_total" "Total PUBLISH packets sent to clients and bridge remotes." s.packetSent[3],
    .counter "mqtt_publish_bytes_received_total" "Total PUBLISH payload bytes received." s.publishBytesReceived,
    .counter "mqtt_publish_bytes_sent_total" "Total PUBLISH payload bytes sent." s.publishBytesSent,
    .counter "mqtt_socket_connections_total"
      "Total sockets accepted (including those that never sent CONNECT)." s.socketConnections,
    .counter "mqtt_clients_expired_total"
      "Total persistent sessions discarded after Session Expiry elapsed." s.clientsExpired,
    .counter "mqtt_connections_rate_limited_total"
      "Total connections refused by the per-source-IP rate limiter." s.connectionsRateLimited ]

/-- Two counters for each kind of packet; index 0 is no packet. -/
def packetCounters (s : Snapshot) : List Series :=
  ((List.finRange packetKinds).drop 1).flatMap fun kind =>
    let name := packetNames[kind]
    let upper := String.ofList (name.toList.map Char.toUpper)
    [ .counter s!"mqtt_packet_{name}_received_total" s!"Total {upper} packets received." s.packetReceived[kind],
      .counter s!"mqtt_packet_{name}_sent_total" s!"Total {upper} packets sent." s.packetSent[kind] ]

def gauges (s : Snapshot) : List Series :=
  [ .gauge "mqtt_clients_connected" "Currently connected clients." s.clientsConnected,
    .gauge "mqtt_sessions_total" "Sessions currently held (online and offline)." s.sessionsTotal,
    .gauge "mqtt_retained_messages" "Retained messages currently stored." s.retainedMessages,
    .gauge "mqtt_subscriptions_total" "Active subscriptions across all sessions." s.subscriptionsTotal,
    .gauge "mqtt_bridges_connected" "Currently-connected broker-to-broker bridges." s.bridgesConnected,
    .gauge "mqtt_clients_disconnected" "Persistent sessions currently offline." s.clientsDisconnected,
    .gauge "mqtt_clients_total" "Clients known to the broker (connected plus offline persistent)." s.clientsTotal,
    .gauge "mqtt_clients_maximum" "High-water mark of concurrently connected clients." s.clientsMaximum,
    .gauge "mqtt_retained_bytes" "Payload bytes held in retained messages." s.retainedBytes,
    .gauge "mqtt_shared_subscriptions_count"
      "Active shared subscriptions ($share/...) across all sessions." s.sharedSubscriptionsCount,
    .gauge "mqtt_store_messages_count"
      "Messages held in memory (queued for offline sessions plus retained)." s.storeMessagesCount,
    .gauge "mqtt_store_messages_bytes" "Payload bytes of messages held in memory." s.storeMessagesBytes,
    .gauge "mqtt_packet_out_count" "Messages queued for delivery across all sessions." s.packetOutCount,
    .gauge "mqtt_packet_out_bytes" "Payload bytes queued for delivery across all sessions." s.packetOutBytes,
    .gauge "mqtt_uptime_seconds" "Seconds since the broker started." s.uptimeSeconds ]

def series (s : Snapshot) : List Series := s.counters ++ s.packetCounters ++ s.gauges

def toPrometheus (s : Snapshot) : String :=
  String.join (s.series.map Series.render) ++
    "# HELP mqtt_build_info Broker build information.\n# TYPE mqtt_build_info gauge\n" ++
    s!"mqtt_build_info\x7bversion=\"{s.version}\"\x7d 1\n"

end Snapshot

/-! ## The broker -/

/-- The broker with all its configuration and the counters its handlers do not update. -/
structure State where
  config : Configuration.Config := {}
  broker : Broker := {}
  counters : Counters := {}

/-- When the broker is asked, and how it iterates over its maps. -/
structure Circumstances where
  now : Nat
  /-- Seconds since `started_at`. -/
  uptime : Nat
  orders : Orders := {}

/-- `VERSION` (config.rs:93). -/
def version : String := "0.9.8"

def isBrokerBookkeeping (topic : String) (cfg : Configuration.Config) : Bool :=
  startsWith topic sysPrefix || startsWith topic s!"wispmq/{cfg.serviceName}/" ||
    startsWith topic s!"{cfg.haDiscoveryPrefix}/sensor/{cfg.serviceName}/"

structure ClientInfo where
  clientId : String
  online : Bool
  subscriptions : Nat
  inflight : Nat
  queued : Nat
  sessionExpiry : Nat
  persistent : Bool
deriving DecidableEq, Repr

def ClientInfo.ofSession (s : Session) : ClientInfo where
  clientId := s.clientId
  online := s.isOnline
  subscriptions := s.subscriptions.length
  inflight := s.inflightCount
  queued := s.queue.length
  sessionExpiry := s.sessionExpiryInterval
  persistent := s.persistent

structure RetainedInfo where
  topic : String
  payloadSize : Nat
  qos : Nat
deriving DecidableEq, Repr

def RetainedInfo.ofEntry (e : Σ _ : String, Message) : RetainedInfo where
  topic := e.1
  payloadSize := e.2.payload.length
  qos := e.2.qos.asU8

/-- `sort_by`, at a key. -/
def sortBy {α : Type} (key : α → String) (l : List α) : List α := l.mergeSort fun a b => key a ≤ key b

namespace State

/-- `st.retained.retain(|_, msg| !msg.is_expired())` (stats.rs:63). -/
def purge (st : State) (now : Nat) : State :=
  { st with broker.retained := filterEntries st.broker.retained fun _ m => !m.isExpired now }

/-- The retained messages that are not the broker's own. -/
def userRetained (st : State) : List (Σ _ : String, Message) :=
  st.broker.retained.entries.filter fun e => !isBrokerBookkeeping e.1 st.config

def snapshot (st : State) (c : Circumstances) : Snapshot × State :=
  let st := st.purge c.now
  let sessions := values st.broker.sessions
  let packetOutCount := (sessions.map fun s => s.queue.length + s.inflightCount).sum
  let packetOutBytes := (sessions.map fun s => (s.queue.map (·.message.payload.length)).sum).sum
  let retainedMessages := st.userRetained.length
  let retainedBytes := (st.userRetained.map (·.2.payload.length)).sum
  ({
    connectionsTotal := st.broker.metrics.connectionsTotal
    packetsReceived := st.counters.packetsReceived
    packetsSent := st.counters.packetsSent
    bytesReceived := st.counters.bytesReceived
    bytesSent := st.counters.bytesSent
    publishReceived := st.broker.metrics.publishReceived
    publishDelivered := st.broker.metrics.publishDelivered
    publishDropped := st.broker.metrics.publishDropped
    bridgeForwardedOut := st.counters.bridgeForwardedOut
    bridgeForwardedIn := st.counters.bridgeForwardedIn
    publishBytesReceived := st.counters.publishBytesReceived
    publishBytesSent := st.counters.publishBytesSent
    socketConnections := st.counters.socketConnections
    clientsExpired := st.broker.metrics.clientsExpired
    connectionsRateLimited := st.counters.connectionsRateLimited
    packetReceived := st.counters.packetReceived
    packetSent := st.counters.packetSent
    clientsConnected := st.broker.onlineCount
    clientsDisconnected := sessions.countP fun s => !s.isOnline
    clientsTotal := size st.broker.sessions
    clientsMaximum := st.broker.metrics.clientsMaximum
    sessionsTotal := size st.broker.sessions
    retainedMessages := retainedMessages
    retainedBytes := retainedBytes
    subscriptionsTotal := (sessions.map fun s => s.subscriptions.length).sum
    sharedSubscriptionsCount := (sessions.map fun s => s.subscriptions.countP fun x => x.shareName.isSome).sum
    bridgesConnected := st.counters.bridgesConnected
    storeMessagesCount := retainedMessages + packetOutCount
    storeMessagesBytes := retainedBytes + packetOutBytes
    packetOutCount := packetOutCount
    packetOutBytes := packetOutBytes
    uptimeSeconds := c.uptime
    version := version }, st)

def clients (st : State) (c : Circumstances) : List ClientInfo :=
  sortBy (·.clientId) ((reorder c.orders.sessions (values st.broker.sessions)).map ClientInfo.ofSession)

/-- Whether the listing has the entry. -/
def lists (st : State) (now : Nat) (e : Σ _ : String, Message) : Bool :=
  !e.2.isExpired now && !isBrokerBookkeeping e.1 st.config

def retainedInfos (st : State) (c : Circumstances) : List RetainedInfo :=
  sortBy (·.topic)
    (((reorder c.orders.retained st.broker.retained.entries).filter (st.lists c.now)).map RetainedInfo.ofEntry)

end State

/-! ## Series have different names -/

namespace Snapshot

/-- The names do not depend on the values. -/
theorem series_names (s s' : Snapshot) : s.series.map (·.name) = s'.series.map (·.name) := by
  simp only [series, counters, packetCounters, gauges, List.map_append, List.map_flatMap, List.map_cons, List.map_nil,
    Series.counter, Series.gauge]

/-- A scrape meets no name twice. -/
theorem series_nodup (s : Snapshot) : (s.series.map (·.name)).Nodup := by
  rw [series_names s (State.snapshot {} ⟨0, 0, {}⟩).1]
  -- as numbers the names are compared faster
  refine List.Nodup.of_map (fun name => name.toByteArray.data.toList.foldl (fun n b => 256 * n + b.toNat) 0) ?_
  decide +kernel

end Snapshot

/-! ## Listings -/

section Sorting
variable {α : Type} {key : α → String} {l l' : List α}

theorem sortBy_perm (key : α → String) (l : List α) : (sortBy key l).Perm l := List.mergeSort_perm ..

theorem sortBy_pairwise (key : α → String) (l : List α) : (sortBy key l).Pairwise (key · ≤ key ·) := by
  have h : (sortBy key l).Pairwise fun a b => decide (key a ≤ key b) = true :=
    List.pairwise_mergeSort
      (fun a b c hab hbc => by simpa using le_trans (of_decide_eq_true hab) (of_decide_eq_true hbc))
      (fun a b => by simpa using le_total (key a) (key b)) l
  exact h.imp fun hab => of_decide_eq_true hab

/-- Where no key is repeated, the order before does not matter. -/
theorem sortBy_eq_of_perm (h : l.Perm l') (hl : (l.map key).Nodup) : sortBy key l = sortBy key l' := by
  refine List.Perm.eq_of_pairwise ?_ (sortBy_pairwise key l) (sortBy_pairwise key l')
    (((sortBy_perm key l).trans h).trans (sortBy_perm key l').symm)
  intro a b ha hb hab hba
  have ha := (sortBy_perm key l).mem_iff.1 ha
  have hb := h.mem_iff.2 ((sortBy_perm key l').mem_iff.1 hb)
  exact List.inj_on_of_nodup_map hl ha hb (le_antisymm hab hba)

end Sorting

namespace State
variable (st : State) (c : Circumstances)

/-- What is listed, in no particular order. -/
theorem retainedInfos_perm :
    (st.retainedInfos c).Perm ((st.broker.retained.entries.filter (st.lists c.now)).map .ofEntry) :=
  (sortBy_perm _ _).trans (((reorder_perm _ _).filter _).map _)

theorem retainedInfos_eq : st.retainedInfos c =
    sortBy (·.topic) ((st.broker.retained.entries.filter (st.lists c.now)).map .ofEntry) := by
  have hperm := ((reorder_perm c.orders.retained st.broker.retained.entries).filter (st.lists c.now)).map
    RetainedInfo.ofEntry
  refine sortBy_eq_of_perm hperm ((hperm.map _).nodup_iff.2 ?_)
  rw [List.map_map]
  exact st.broker.retained.nodupKeys.sublist List.filter_sublist

/-- The listing does not depend on the order of the map. -/
theorem retainedInfos_orders {c c' : Circumstances} (h : c.now = c'.now) : st.retainedInfos c = st.retainedInfos c' := by
  rw [retainedInfos_eq, retainedInfos_eq, h]

theorem filter_lists_purge {now later : Nat} (hle : now ≤ later) :
    (st.purge now).broker.retained.entries.filter ((st.purge now).lists later) =
      st.broker.retained.entries.filter (st.lists later) := by
  simp only [purge, filterEntries, List.filter_filter]
  refine List.filter_congr fun e _ => ?_
  -- what has expired by now has expired later
  have hmono := Message.isExpired_mono (m := e.2) hle
  cases hnow : e.2.isExpired now with
  | false => simp [lists]
  | true => simp [lists, hmono hnow]

/-- Dropping expired messages takes nothing off a later listing. -/
theorem retainedInfos_purge {now : Nat} (hle : now ≤ c.now) : (st.purge now).retainedInfos c = st.retainedInfos c := by
  rw [retainedInfos_eq, retainedInfos_eq, filter_lists_purge st hle]

@[simp] theorem clients_purge (now : Nat) : (st.purge now).clients c = st.clients c := rfl

@[simp] theorem purge_purge (now : Nat) : (st.purge now).purge now = st.purge now := by
  simp [purge, filterEntries]

/-! ## The snapshot and the listings agree -/

theorem snapshot_clientsTotal : (st.snapshot c).1.clientsTotal = (st.clients c).length := by
  rw [clients, (sortBy_perm _ _).length_eq, List.length_map, (reorder_perm _ _).length_eq]
  simp [snapshot, purge, values, size]

theorem snapshot_connected_add_disconnected :
    (st.snapshot c).1.clientsConnected + (st.snapshot c).1.clientsDisconnected = (st.snapshot c).1.clientsTotal := by
  have h := List.length_eq_countP_add_countP (·.isOnline) (l := values st.broker.sessions)
  simpa [snapshot, purge, Broker.onlineCount, values, size] using h.symm

theorem userRetained_purge (now : Nat) :
    (st.purge now).userRetained = st.broker.retained.entries.filter (st.lists now) := by
  simp only [userRetained, purge, filterEntries, List.filter_filter]
  exact List.filter_congr fun e _ => Bool.and_comm ..

theorem snapshot_retained : (st.snapshot c).1.retainedMessages = (st.retainedInfos c).length := by
  rw [(st.retainedInfos_perm c).length_eq, List.length_map]
  simp only [snapshot, userRetained_purge]

theorem snapshot_retainedBytes :
    (st.snapshot c).1.retainedBytes = ((st.retainedInfos c).map (·.payloadSize)).sum := by
  rw [((st.retainedInfos_perm c).map _).sum_eq, List.map_map]
  simp only [snapshot, userRetained_purge]
  rfl

end State

end WispMQ.Admin
