import WispMQ.Admin
import WispMQ.Endpoint
import WispMQ.Retained
/-!
# Status topics: `metrics.rs:526-670`, `sysinfo.rs`

| here | there |
| --- | --- |
| `Snapshot.toSysTopics` | `Snapshot::to_sys_topics` (metrics.rs:526) |
| `Snapshot.haSensors`   | the configs of `Snapshot::to_ha_discovery` (metrics.rs:632), before `to_string` |
| `Snapshot.toHaStates`  | `Snapshot::to_ha_states` (metrics.rs:669) |
| `State.statusEntries`  | what `publish_once` publishes (sysinfo.rs:69) |
| `State.publishSys`     | `Broker::publish_sys` |

A tick takes its snapshot first and the lock again to publish it, so the broker it is published in may be another one than
was looked at. Whatever lies between, the topics end up with the values of the snapshot (`status_current`), and nothing that
is reported about what clients have retained moves (`status_unlisted`).
-/

namespace WispMQ.Admin
open KeyMap WispMQ.Configuration

namespace Snapshot

/-- The topics below `$SYS/broker/`. -/
def sysEntries (s : Snapshot) : List (String × String) :=
  [ ("version", s!"WispMQ {s.version}"),
    ("uptime", s!"{s.uptimeSeconds} seconds"),
    ("clients/connected", toString s.clientsConnected),
    ("clients/disconnected", toString s.clientsDisconnected),
    ("clients/total", toString s.clientsTotal),
    ("clients/maximum", toString s.clientsMaximum),
    ("clients/expired", toString s.clientsExpired),
    ("bytes/received", toString s.bytesReceived),
    ("bytes/sent", toString s.bytesSent),
    ("messages/received", toString s.packetsReceived),
    ("messages/sent", toString s.packetsSent),
    ("publish/messages/received", toString s.publishReceived),
    ("publish/messages/sent", toString s.packetSent[3]!),
    ("publish/messages/dropped", toString s.publishDropped),
    ("publish/bytes/received", toString s.publishBytesReceived),
    ("publish/bytes/sent", toString s.publishBytesSent),
    ("subscriptions/count", toString s.subscriptionsTotal),
    ("shared_subscriptions/count", toString s.sharedSubscriptionsCount),
    ("retained messages/count", toString s.retainedMessages),
    ("store/messages/count", toString s.storeMessagesCount),
    ("store/messages/bytes", toString s.storeMessagesBytes),
    ("connections/socket/count", toString s.socketConnections),
    ("connections/rate_limited", toString s.connectionsRateLimited),
    ("bridges/connected", toString s.bridgesConnected) ] ++
  ((List.finRange packetKinds).drop 1).flatMap fun kind =>
    let name := packetNames.get kind
    [ (s!"mqtt/{name}/received", toString (s.packetReceived.get kind)),
      (s!"mqtt/{name}/sent", toString (s.packetSent.get kind)) ]

def toSysTopics (s : Snapshot) : List (String × String) := s.sysEntries.map fun e => ("$SYS/broker/" ++ e.1, e.2)

/-- `ha_state_topic` (metrics.rs:678). -/
def haStateTopic (nodeId objectId : String) : String := "wispmq/" ++ (nodeId ++ ("/" ++ objectId))

/-- `friendly_series_name` (metrics.rs:684). -/
def friendlySeriesName (objectId : String) : String :=
  let rest := if startsWith objectId "mqtt_" then objectId.toList.drop 5 else objectId.toList
  String.ofList (rest.map fun c => if c = '_' then ' ' else c)

def uniqueId (nodeId objectId : String) : String := "wispmq_" ++ (nodeId ++ ("_" ++ objectId))

def haTopic (pre nodeId objectId : String) : String := pre ++ ("/sensor/" ++ (nodeId ++ ("/" ++ (objectId ++ "/config"))))

/-- The config of one sensor. -/
def haSensor (s : Snapshot) (nodeId : String) (series : Series) : Json :=
  obj
    [ ("name", .string (friendlySeriesName series.name)),
      ("unique_id", .string (uniqueId nodeId series.name)),
      ("state_topic", .string (haStateTopic nodeId series.name)),
      ("state_class", .string (match series.kind with
        | .counter => "total_increasing"
        | .gauge => "measurement")),
      ("device", obj
        [ ("identifiers", .array [.string ("wispmq_" ++ nodeId)]),
          ("name", .string (if nodeId = "wispmq" then "WispMQ" else s!"WispMQ ({nodeId})")),
          ("manufacturer", .string "elpapimango"),
          ("model", .string "wispmq"),
          ("sw_version", .string s.version) ]) ]

def haSensors (s : Snapshot) (pre nodeId : String) : List (String × Json) :=
  s.series.map fun series => (haTopic pre nodeId series.name, s.haSensor nodeId series)

def toHaDiscovery (S : Serde) (s : Snapshot) (pre nodeId : String) : List (String × String) :=
  (s.haSensors pre nodeId).map fun e => (e.1, S.toString e.2)

def toHaStates (s : Snapshot) (nodeId : String) : List (String × String) :=
  s.series.map fun series => (haStateTopic nodeId series.name, toString series.value)

end Snapshot

namespace State

def statusEntries (st : State) (snap : Snapshot) : List (String × String) :=
  snap.toSysTopics ++ if st.config.haDiscovery then snap.toHaStates st.config.serviceName else []

/-- What `publish_ha_discovery` publishes (sysinfo.rs:82). -/
def discoveryEntries (st : State) (S : Serde) (snap : Snapshot) : List (String × String) :=
  snap.toHaDiscovery S st.config.haDiscoveryPrefix st.config.serviceName

def publishSys (st : State) (P : Protocol) (now : Nat) (ord : Orders) (entries : List (String × String)) : State :=
  { st with broker := (Broker.publishSys P now ord (entries.map fun e => (e.1, utf8 e.2)) st.broker).broker }

end State

/-! ## The topics -/

namespace Snapshot

/-- The snapshot of a broker that has just started. -/
def initial : Snapshot := (State.snapshot {} ⟨0, 0, {}⟩).1

/-- A name of a series is one level, not the last one of a config, and has `mqtt_` at its beginning only. -/
structure SeriesName (name : String) : Prop where
  level : '/' ∉ name.toList
  not_config : name.toList ≠ "config".toList
  mqtt : "mqtt_".toList <+: name.toList
  once : ∀ rest, rest <:+ name.toList.tail → ¬"mqtt_".toList <+: rest

theorem series_name (s : Snapshot) : ∀ series ∈ s.series, SeriesName series.name := by
  have hall : ∀ name ∈ s.series.map (·.name), SeriesName name := by
    rw [series_names s initial]
    have hcheck : ∀ name ∈ initial.series.map (·.name),
        '/' ∉ name.toList ∧ name.toList ≠ "config".toList ∧ "mqtt_".toList <+: name.toList ∧
          ∀ rest ∈ name.toList.tail.tails, ¬"mqtt_".toList <+: rest := by
      decide +kernel
    intro name hname
    obtain ⟨hlevel, hconfig, hmqtt, honce⟩ := hcheck name hname
    exact ⟨hlevel, hconfig, hmqtt, fun rest hrest => honce rest ((List.mem_tails ..).2 hrest)⟩
  exact fun series hs => hall _ (List.mem_map_of_mem hs)

/-- What begins with `mqtt_`, and has it there only, is told from what is before it. -/
theorem split_mqtt {a a' b b' : List Char} (hb : "mqtt_".toList <+: b) (hb' : "mqtt_".toList <+: b')
    (hn : ∀ rest, rest <:+ b.tail → ¬"mqtt_".toList <+: rest) (hn' : ∀ rest, rest <:+ b'.tail → ¬"mqtt_".toList <+: rest)
    (h : a ++ '_' :: b = a' ++ '_' :: b') : a = a' ∧ b = b' := by
  have hlater : ∀ {xs ys : List Char} {x : Char}, ys <:+ (x :: (xs ++ '_' :: ys)).tail :=
    fun {xs ys _} => ⟨xs ++ ['_'], by simp⟩
  rcases List.append_eq_append_iff.1 h with ⟨as, rfl, has⟩ | ⟨bs, rfl, hbs⟩
  · cases as with
    | nil => exact ⟨(List.append_nil a).symm, (List.cons.inj has).2⟩
    | cons x as =>
      obtain ⟨-, rfl⟩ := List.cons.inj has
      cases as with
      | nil => exact absurd hb (by simp)
      | cons y as => exact absurd hb' (hn _ hlater)
  · cases bs with
    | nil => exact ⟨List.append_nil a', (List.cons.inj hbs).2.symm⟩
    | cons x bs =>
      obtain ⟨-, rfl⟩ := List.cons.inj hbs
      cases bs with
      | nil => exact absurd hb' (by simp)
      | cons y bs => exact absurd hb (hn' _ hlater)

theorem toList_haStateTopic (nodeId objectId : String) :
    (haStateTopic nodeId objectId).toList = "wispmq/".toList ++ (nodeId.toList ++ '/' :: objectId.toList) := by
  simp [haStateTopic]

theorem toList_haTopic (pre nodeId objectId : String) : (haTopic pre nodeId objectId).toList =
    (pre.toList ++ ("/sensor/".toList ++ (nodeId.toList ++ '/' :: objectId.toList))) ++ '/' :: "config".toList := by
  simp [haTopic]

theorem toList_uniqueId (nodeId objectId : String) :
    (uniqueId nodeId objectId).toList = "wispmq_".toList ++ (nodeId.toList ++ '_' :: objectId.toList) := by
  simp [uniqueId]

/-- What a topic for Home Assistant is for: the state of a series, or the config of its sensor. -/
inductive HaKind where
  | state
  | config
deriving DecidableEq

/-- A topic for Home Assistant, read from its last level: its kind, the node and the series. -/
def readHaTopic (pre topic : String) : Option (HaKind × String × String) :=
  match rsplitOnce '/' topic.toList with
  | none => none
  | some (front, last) =>
    if last = "config".toList then
      match ((pre.toList ++ "/sensor/".toList).isPrefixOf? front).bind (rsplitOnce '/') with
      | some (nodeId, objectId) => some (.config, String.ofList nodeId, String.ofList objectId)
      | none => none
    else ("wispmq/".toList.isPrefixOf? front).map fun nodeId => (.state, String.ofList nodeId, String.ofList last)

section Instances
variable {nodeId nodeId' name name' : String}

theorem isPrefixOf?_append (front rest : List Char) : front.isPrefixOf? (front ++ rest) = some rest :=
  List.isPrefixOf?_eq_some_iff_append_eq.2 rfl

theorem readHaTopic_haStateTopic (pre nodeId : String) (h : SeriesName name) :
    readHaTopic pre (haStateTopic nodeId name) = some (.state, nodeId, name) := by
  rw [readHaTopic, toList_haStateTopic, ← List.append_assoc, rsplitOnce_append _ h.level]
  simp only [if_neg h.not_config, isPrefixOf?_append, Option.map_some, String.ofList_toList]

theorem readHaTopic_haTopic (pre nodeId : String) (h : SeriesName name) :
    readHaTopic pre (haTopic pre nodeId name) = some (.config, nodeId, name) := by
  rw [readHaTopic, toList_haTopic, rsplitOnce_append _ (by decide), ← List.append_assoc]
  simp only [if_true, isPrefixOf?_append, Option.bind_some, rsplitOnce_append _ h.level, String.ofList_toList]

theorem haStateTopic_inj (h : SeriesName name) (h' : SeriesName name')
    (heq : haStateTopic nodeId name = haStateTopic nodeId' name') : nodeId = nodeId' ∧ name = name' := by
  have hread := (readHaTopic_haStateTopic "" nodeId h).symm.trans (heq ▸ readHaTopic_haStateTopic "" nodeId' h')
  injection hread with hread
  exact Prod.mk.inj (Prod.mk.inj hread).2

theorem uniqueId_inj (h : SeriesName name) (h' : SeriesName name')
    (heq : uniqueId nodeId name = uniqueId nodeId' name') : nodeId = nodeId' ∧ name = name' := by
  rw [← String.toList_inj, toList_uniqueId, toList_uniqueId, List.append_cancel_left_eq] at heq
  obtain ⟨hnode, hname⟩ := split_mqtt h.mqtt h'.mqtt h.once h'.once heq
  exact ⟨String.toList_inj.1 hnode, String.toList_inj.1 hname⟩

end Instances

/-- What a sensor's config says, by its name and that of the series. -/
theorem haSensor_members (s : Snapshot) (nodeId : String) (series : Series) :
    member (s.haSensor nodeId series) "unique_id" = some (.string (uniqueId nodeId series.name)) ∧
      member (s.haSensor nodeId series) "state_topic" = some (.string (haStateTopic nodeId series.name)) := by
  have hkeys : ∀ a b c d e : Json,
      (([("name", a), ("unique_id", b), ("state_topic", c), ("state_class", d), ("device", e)] : List (String × Json)).map
        Prod.fst).Nodup := by
    intro a b c d e
    simp
  constructor
  · rw [haSensor, obj, member]
    exact SortedMap.get_ofList (hkeys ..)
  · rw [haSensor, obj, member]
    exact SortedMap.get_ofList (hkeys ..)

/-- The topics of the node for Home Assistant. -/
def haTopics (s : Snapshot) (pre nodeId : String) : List String :=
  (s.toHaStates nodeId).map (·.1) ++ (s.haSensors pre nodeId).map (·.1)

/-- Whatever is published under such a topic, the topic tells the node. -/
theorem readHaTopic_of_mem {s : Snapshot} {pre nodeId topic : String} (h : topic ∈ s.haTopics pre nodeId) :
    (readHaTopic pre topic).map (·.2.1) = some nodeId := by
  rcases List.mem_append.1 h with h | h
  · obtain ⟨e, he, rfl⟩ := List.mem_map.1 h
    obtain ⟨series, hs, rfl⟩ := List.mem_map.1 he
    rw [readHaTopic_haStateTopic pre nodeId (s.series_name series hs), Option.map_some]
  · obtain ⟨e, he, rfl⟩ := List.mem_map.1 h
    obtain ⟨series, hs, rfl⟩ := List.mem_map.1 he
    rw [readHaTopic_haTopic pre nodeId (s.series_name series hs), Option.map_some]

/-- **Instances keep apart**: the topics a node has for Home Assistant, at whatever it stands, read back to the node and the
series they are for. So two brokers with the same discovery prefix and different service names share none of them; and
whatever their prefixes are, none of their sensors have the same id or state topic. -/
theorem instances_apart (s s' : Snapshot) (pre pre' nodeId nodeId' : String) (hne : nodeId ≠ nodeId') :
    (s.toHaStates nodeId).map (fun e => readHaTopic pre e.1) =
      s.series.map (fun series => some (.state, nodeId, series.name)) ∧
    (s.haSensors pre nodeId).map (fun e => readHaTopic pre e.1) =
      s.series.map (fun series => some (.config, nodeId, series.name)) ∧
    (s.haTopics pre nodeId).Disjoint (s'.haTopics pre nodeId') ∧
    ∀ e ∈ s.haSensors pre nodeId, ∀ e' ∈ s'.haSensors pre' nodeId',
      member e.2 "unique_id" ≠ member e'.2 "unique_id" ∧ member e.2 "state_topic" ≠ member e'.2 "state_topic" := by
  refine ⟨?_, ?_, ?_, ?_⟩
  · rw [toHaStates, List.map_map]
    exact List.map_congr_left fun series hs => readHaTopic_haStateTopic pre nodeId (s.series_name series hs)
  · rw [haSensors, List.map_map]
    exact List.map_congr_left fun series hs => readHaTopic_haTopic pre nodeId (s.series_name series hs)
  · intro topic h h'
    have hnode := (readHaTopic_of_mem h).symm.trans (readHaTopic_of_mem h')
    exact hne (Option.some.inj hnode)
  · intro e he e' he'
    obtain ⟨series, hs, rfl⟩ := List.mem_map.1 he
    obtain ⟨series', hs', rfl⟩ := List.mem_map.1 he'
    have hname := s.series_name series hs
    have hname' := s'.series_name series' hs'
    simp only [haSensor_members, ne_eq, Option.some.injEq, Json.string.injEq]
    exact ⟨fun heq => hne (uniqueId_inj hname hname' heq).1, fun heq => hne (haStateTopic_inj hname hname' heq).1⟩

/-- Two instances on one broker, of which one has a level of its own for the state topics of the other. -/
theorem instances_apart_edges :
    (initial.haTopics "homeassistant" "edge").Disjoint
      ({ initial with uptimeSeconds := 60 : Snapshot }.haTopics "homeassistant" "edge/1") :=
  (instances_apart initial { initial with uptimeSeconds := 60 } "homeassistant" "ha" "edge" "edge/1" (by decide)).2.2.1

end Snapshot

/-! ## What is published -/

section Published
variable {P : Protocol} {now : Nat} {ord : Orders} {b : Broker} {entries : List (String × Bytes)}

/-- Without a repeated topic, each topic is left with its own entry. -/
theorem publishSys_current : ∀ {entries : List (String × Bytes)} {b : Broker}, (entries.map Prod.fst).Nodup →
    ∀ e ∈ entries, (Broker.publishSys P now ord entries b).broker.retained.lookup e.1 = some (Broker.sysMessage e.1 e.2)
  | [], _, _, _, he => by simp at he
  | (topic, payload) :: entries, b, hnodup, e, he => by
    obtain ⟨hnot, hrest⟩ := List.nodup_cons.1 hnodup
    simp only [Broker.publishSys]
    rcases List.mem_cons.1 he with rfl | he
    · rw [Broker.publishSys_lookup ord _ hnot, Broker.retained_of_kept (Broker.route_kept ..), AList.lookup_insert]
    · exact publishSys_current hrest e he

theorem filter_kerase {p : (Σ _ : String, Message) → Bool} {topic : String} (hp : ∀ m, p ⟨topic, m⟩ = false) :
    ∀ l : List (Σ _ : String, Message), (l.kerase topic).filter p = l.filter p
  | [] => rfl
  | ⟨t, m⟩ :: l => by
    by_cases ht : topic = t
    · subst ht
      have herase : List.kerase topic (⟨topic, m⟩ :: l) = l := List.kerase_cons_eq rfl
      rw [herase, List.filter_cons_of_neg (by simp [hp])]
    · rw [List.kerase_cons_ne ht, List.filter_cons, List.filter_cons, filter_kerase hp l]

/-- What a listing leaves out may be published without it showing. -/
theorem publishSys_filter {p : (Σ _ : String, Message) → Bool} : ∀ {entries : List (String × Bytes)} {b : Broker},
    (∀ e ∈ entries, ∀ m, p ⟨e.1, m⟩ = false) →
      (Broker.publishSys P now ord entries b).broker.retained.entries.filter p = b.retained.entries.filter p
  | [], _, _ => rfl
  | (topic, payload) :: entries, b, h => by
    obtain ⟨htopic, hrest⟩ := List.forall_mem_cons.1 h
    simp only [Broker.publishSys]
    rw [publishSys_filter hrest, Broker.retained_of_kept (Broker.route_kept ..), AList.entries_insert,
      List.filter_cons_of_neg (by simp [htopic]), filter_kerase htopic]

end Published

namespace State
variable {P : Protocol} {now : Nat} {ord : Orders} (st : State)

theorem bookkeeping_sys (topic : String) : isBrokerBookkeeping ("$SYS/broker/" ++ topic) st.config = true := by
  have hsys : startsWith ("$SYS/broker/" ++ topic) sysPrefix = true := by
    rw [startsWith, String.toList_append, List.isPrefixOf_iff_prefix]
    exact (by decide : sysPrefix.toList <+: "$SYS/broker/".toList).trans (List.prefix_append _ _)
  rw [isBrokerBookkeeping, hsys]
  rfl

theorem bookkeeping_state (name : String) :
    isBrokerBookkeeping (Snapshot.haStateTopic st.config.serviceName name) st.config = true := by
  have hstate : startsWith (Snapshot.haStateTopic st.config.serviceName name) s!"wispmq/{st.config.serviceName}/" = true := by
    rw [startsWith, List.isPrefixOf_iff_prefix, Snapshot.toList_haStateTopic]
    refine ⟨name.toList, ?_⟩
    simp [toString]
  rw [isBrokerBookkeeping, hstate]
  simp

theorem bookkeeping_config (name : String) :
    isBrokerBookkeeping (Snapshot.haTopic st.config.haDiscoveryPrefix st.config.serviceName name) st.config = true := by
  have hconfig : startsWith (Snapshot.haTopic st.config.haDiscoveryPrefix st.config.serviceName name)
      s!"{st.config.haDiscoveryPrefix}/sensor/{st.config.serviceName}/" = true := by
    rw [startsWith, List.isPrefixOf_iff_prefix, Snapshot.toList_haTopic]
    refine ⟨name.toList ++ '/' :: "config".toList, ?_⟩
    simp [toString]
  rw [isBrokerBookkeeping, hconfig]
  simp

/-- Every topic of a tick is the broker's own, and so is every topic of the discovery. -/
theorem entries_bookkeeping (S : Serde) (snap : Snapshot) :
    ∀ e ∈ st.statusEntries snap ++ st.discoveryEntries S snap, isBrokerBookkeeping e.1 st.config = true := by
  intro e he
  rcases List.mem_append.1 he with he | he
  · rcases List.mem_append.1 he with he | he
    · obtain ⟨e, -, rfl⟩ := List.mem_map.1 he
      exact st.bookkeeping_sys e.1
    · split at he
      · obtain ⟨series, -, rfl⟩ := List.mem_map.1 he
        exact st.bookkeeping_state series.name
      · cases he
  · obtain ⟨x, hx, rfl⟩ := List.mem_map.1 he
    obtain ⟨series, -, rfl⟩ := List.mem_map.1 hx
    exact st.bookkeeping_config series.name

/-- The broker's own topics are no part of the listing. -/
theorem retainedInfos_publishSys {entries : List (String × String)}
    (h : ∀ e ∈ entries, isBrokerBookkeeping e.1 st.config = true) (c : Circumstances) :
    (st.publishSys P now ord entries).retainedInfos c = st.retainedInfos c := by
  rw [retainedInfos_eq, retainedInfos_eq]
  have hfilter : (st.publishSys P now ord entries).broker.retained.entries.filter (st.lists c.now) =
      st.broker.retained.entries.filter (st.lists c.now) := by
    refine publishSys_filter fun e he m => ?_
    obtain ⟨x, hx, rfl⟩ := List.mem_map.1 he
    simp [lists, h x hx]
  exact congrArg (fun l => sortBy (·.topic) (l.map RetainedInfo.ofEntry)) hfilter

/-- Each topic of the entries has its own, and the others have what they had. -/
theorem publishSys_lookup {entries : List (String × String)} (hnodup : (entries.map (·.1)).Nodup) :
    (∀ e ∈ entries, (st.publishSys P now ord entries).broker.retained.lookup e.1 =
      some (Broker.sysMessage e.1 (utf8 e.2))) ∧
    ∀ topic, topic ∉ entries.map (·.1) →
      (st.publishSys P now ord entries).broker.retained.lookup topic = st.broker.retained.lookup topic := by
  have hmap : (entries.map fun e => (e.1, utf8 e.2)).map Prod.fst = entries.map (·.1) := List.map_map
  constructor
  · intro e he
    exact publishSys_current (hmap ▸ hnodup) (e.1, utf8 e.2) (List.mem_map_of_mem he)
  · intro topic htopic
    exact Broker.publishSys_lookup ord _ (hmap ▸ htopic)

/-- **Status goes unlisted**: whatever a tick or the discovery publishes, and into whatever broker, the listing of the
retained messages stays as it is, and so do the two gauges that count them. -/
theorem status_unlisted (P : Protocol) (S : Serde) (now : Nat) (ord : Orders) (snap : Snapshot) (c : Circumstances) :
    ∀ entries ∈ [st.statusEntries snap, st.discoveryEntries S snap],
      (st.publishSys P now ord entries).retainedInfos c = st.retainedInfos c ∧
      ((st.publishSys P now ord entries).snapshot c).1.retainedMessages = (st.snapshot c).1.retainedMessages ∧
      ((st.publishSys P now ord entries).snapshot c).1.retainedBytes = (st.snapshot c).1.retainedBytes := by
  intro entries hentries
  have hown : ∀ e ∈ entries, isBrokerBookkeeping e.1 st.config = true := by
    intro e he
    refine st.entries_bookkeeping S snap e (List.mem_append.2 ?_)
    rcases List.mem_cons.1 hentries with rfl | hentries
    · exact .inl he
    · rw [List.mem_singleton.1 hentries] at he
      exact .inr he
  have hlist := @retainedInfos_publishSys P now ord st entries hown c
  refine ⟨hlist, ?_, ?_⟩
  · rw [snapshot_retained, snapshot_retained, hlist]
  · rw [snapshot_retainedBytes, snapshot_retainedBytes, hlist]

/-- A broker that holds one message of a client. -/
def holdsOne : State where
  broker :=
    { retained := (∅ : KeyMap String Message).insert "t" ⟨"t", [1], .atMostOnce, true, none, none, none, none, [], none⟩ }

/-- Its first tick. -/
theorem status_unlisted_holdsOne :
    ((holdsOne.publishSys .reference 0 {} (holdsOne.statusEntries .initial)).snapshot ⟨0, 0, {}⟩).1.retainedMessages = 1 :=
  (status_unlisted holdsOne .reference ⟨fun _ => .error "", fun _ => none, fun _ => none, fun _ => ""⟩ 0 {} .initial
    ⟨0, 0, {}⟩ _ (List.mem_cons_self ..)).2.1.trans (by decide +kernel)

end State

end WispMQ.Admin
