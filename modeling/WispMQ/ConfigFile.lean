import WispMQ.Toml
import WispMQ.Forwarding
/-!
# The config file: `config.rs`, `bridge.rs`

| here | there |
| --- | --- |
| `Config`           | `Config` (config.rs:212), `Config::default` (config.rs:339) |
| `jStr`, `jI64`, `jBool`, `jU32` | the typed accessors (config.rs:933-988) |
| `flattenSections`  | `flatten_sections` (config.rs:897) |
| `parseBridges`, `parseTopics` | `parse_bridges` (bridge.rs:117), `parse_topics` (bridge.rs:166) |
| `applyAddrs` … `applyBridges` | the blocks of `apply_toml_str` (config.rs:650-802), in its order |
| `Parsers`          | `toml::from_str` and `SocketAddr::from_str` |

`flatten_sections` folds bare keys and sections into one table in the order of the names, and takes a bare key that is there
already for impossible (config.rs:916): a section that comes before it may have it.
-/

namespace WispMQ.Configuration

structure SocketAddr where
  ip : Bytes
  port : UInt16
deriving DecidableEq, Repr

/-- One bridge (bridge.rs:74). -/
structure BridgeConfig where
  name : String
  address : String
  clientId : String
  username : Option String
  password : Option String
  keepalive : Nat
  protocolVersion : ProtocolVersion
  tlsCa : Option String
  tlsCert : Option String
  tlsKey : Option String
  tlsInsecure : Bool
  topics : List BridgeTopic
deriving DecidableEq

/-- Header names and values, in the order they are sent. -/
abbrev OtlpHeaders := List (String × String)

structure Config where
  listenAddr : Option SocketAddr := some ⟨[0, 0, 0, 0], 1883⟩
  adminAddr : SocketAddr := ⟨[127, 0, 0, 1], 9001⟩
  adminToken : Option String := none
  tlsListenAddr : Option SocketAddr := none
  tlsCert : Option String := none
  tlsKey : Option String := none
  tlsClientCa : Option String := none
  wsListenAddr : Option SocketAddr := none
  wsTlsListenAddr : Option SocketAddr := none
  wsTlsCert : Option String := none
  wsTlsKey : Option String := none
  wsTlsClientCa : Option String := none
  adminTlsCert : Option String := none
  adminTlsKey : Option String := none
  adminTlsClientCa : Option String := none
  aclPath : Option String := none
  passwordFile : Option String := none
  allowAnonymous : Bool := false
  dbPath : String := "mqtt_broker.db"
  maxPacketSize : Nat := 1024 * 1024
  receiveMaximum : Nat := 64
  maximumQos : QoS := .exactlyOnce
  retainAvailable : Bool := true
  topicAliasMaximum : Nat := 16
  serverKeepAlive : Option Nat := none
  maxSessionExpiry : Nat := 3600
  maxQueuedMessages : Nat := 1000
  maxConnectionsPerIp : Nat := 0
  connectionRateWindowSecs : Nat := 10
  sysInterval : Nat := 10
  bridges : List BridgeConfig := []
  otlpEndpoint : Option String := none
  otlpProtocol : String := "http"
  otlpHeaders : OtlpHeaders := []
  otlpInterval : Nat := 60
  otlpMetrics : Bool := true
  otlpLogs : Bool := true
  serviceName : String := "wispmq"
  haDiscovery : Bool := false
  haDiscoveryPrefix : String := "homeassistant"
  configFile : Option String := none
deriving DecidableEq

/-- The bridge as `run_bridge` sees it. -/
def BridgeConfig.forwarding (b : BridgeConfig) : WispMQ.BridgeConfig where
  name := b.name
  clientId := b.clientId
  username := b.username
  password := b.password.map (·.toUTF8.toList)
  keepalive := b.keepalive
  protocolVersion := b.protocolVersion
  topics := b.topics

/-- The options the broker reads. -/
def Config.broker (cfg : Config) : WispMQ.Config where
  maxSessionExpiry := cfg.maxSessionExpiry
  serverKeepAlive := cfg.serverKeepAlive
  receiveMaximum := cfg.receiveMaximum
  maximumQos := cfg.maximumQos
  retainAvailable := cfg.retainAvailable
  maxPacketSize := cfg.maxPacketSize
  topicAliasMaximum := cfg.topicAliasMaximum
  allowAnonymous := cfg.allowAnonymous
  maxQueuedMessages := cfg.maxQueuedMessages
  aclPath := cfg.aclPath

/-- Both start from the same defaults. -/
theorem broker_default : ({} : Config).broker = {} := rfl

/-! ## Errors -/

inductive HeaderError where
  /-- `otlp header: expected NAME=VALUE` -/
  | expectedPair
  /-- `otlp header: the header name is empty` -/
  | emptyName
deriving DecidableEq, Repr

/-- The errors of the config file, with the data their texts carry; `place` is `at`, the place in the file. -/
inductive ConfigError where
  /-- `read config file {path}: …` -/
  | readFile (path : String)
  /-- `{source}: invalid TOML: …` -/
  | invalidToml (source : String)
  /-- `{source}: '{key}' must be a table` -/
  | sectionNotTable (source key : String)
  /-- `{source}: key '{key}' is set more than once …` -/
  | setTwice (source key : String)
  /-- `{source}: top level must be a table of "option" = value pairs` -/
  | topLevel (source : String)
  /-- `{source}: unknown key '{key}'` -/
  | unknownKey (source key : String)
  /-- `{source}: key '{key}' must be a string` -/
  | notString (source key : String)
  /-- `{source}: key '{key}' must be an integer` -/
  | notInteger (source key : String)
  /-- `{source}: key '{key}' must be a boolean (true/false)` -/
  | notBoolean (source key : String)
  /-- `{source}: key '{key}' out of range (0-4294967295)`, or `{source}: {key} out of range (0-65535)` -/
  | outOfRange (bits : Nat) (source key : String)
  /-- `{source}: maximum_qos must be 0, 1, or 2` -/
  | maximumQos (source : String)
  /-- `{flag}: invalid socket address …` -/
  | invalidAddr (flag value : String)
  /-- `{source}: 'otlp_headers' must be a table of Name = "value" pairs` -/
  | headersNotTable (source : String)
  /-- `{source}: otlp_headers['{name}'] must be a string` -/
  | headerNotString (source name : String)
  /-- `{source}: …` -/
  | header (source : String) (e : HeaderError)
  /-- `{source}: 'bridges' must be an array` -/
  | bridgesNotArray (source : String)
  /-- `{at}: missing string '{key}'` -/
  | missingString (place key : String)
  /-- `{at}: keepalive out of range (0-65535)` -/
  | keepalive (place : String)
  /-- `{at}: protocol_version must be 3, 4 or 5 (got {v})` -/
  | protocolVersion (place : String) (v : Int)
  /-- `{at}: 'topics' must be an array` -/
  | topicsNotArray (place : String)
  /-- `{at}: at least one topic mapping is required` -/
  | noTopics (place : String)
  /-- `{at}: invalid topic filter …` -/
  | invalidFilter (place pattern : String)
  /-- `{at}: direction must be in|out|both` -/
  | direction (place : String)
  /-- `{at}: qos must be 0, 1 or 2 (got {v})` -/
  | qos (place : String) (v : Int)
  /-- `tls_listen_addr is set but tls_cert/tls_key are not …`, and the same with `ws_` -/
  | missingCertificate (listener : String)
  /-- `tls_cert/tls_key are set but tls_listen_addr is not …`, and the same with `ws_` -/
  | unusedCertificate (listener : String)
deriving DecidableEq, Repr

/-- How reading the configuration fails. -/
inductive Failure where
  | error (e : ConfigError)
  /-- `unreachable!` -/
  | panicked
deriving DecidableEq, Repr

abbrev Reads (α : Type) := Except Failure α

def fail {α : Type} (e : ConfigError) : Reads α := .error (.error e)

/-! ## Accessors -/

def jStr (doc : Json) (key source : String) : Reads (Option String) :=
  let v := doc.get key
  if v.isNull then .ok none
  else
    match v.asStr with
    | some s => .ok (if trim s = "" then none else some (trim s))
    | none => fail (.notString source key)

def jI64 (doc : Json) (key source : String) : Reads (Option Int) :=
  let v := doc.get key
  if v.isNull then .ok none
  else
    match v.asI64 with
    | some n => .ok (some n)
    | none => fail (.notInteger source key)

def jBool (doc : Json) (key source : String) : Reads (Option Bool) :=
  let v := doc.get key
  if v.isNull then .ok none
  else
    match v.asBool with
    | some b => .ok (some b)
    | none => fail (.notBoolean source key)

/-- An integer option of a given width: `j_u32`, and `j_i64` with `u16::try_from`. -/
def jUInt (bits : Nat) (doc : Json) (key source : String) : Reads (Option Nat) := do
  match ← jI64 doc key source with
  | some n =>
    match tryFrom bits n with
    | some m => return some m
    | none => fail (.outOfRange bits source key)
  | none => return none

def jU32 (doc : Json) (key source : String) : Reads (Option Nat) := jUInt 32 doc key source

def jU16 (doc : Json) (key source : String) : Reads (Option Nat) := jUInt 16 doc key source

/-- `QoS::from_u8`. -/
def qosOfNat : Nat → Option QoS
  | 0 => some .atMostOnce
  | 1 => some .atLeastOnce
  | 2 => some .exactlyOnce
  | _ => none

def jQos (doc : Json) (source : String) : Reads (Option QoS) := do
  match ← jI64 doc "maximum_qos" source with
  | some n =>
    match (tryFrom 8 n).bind qosOfNat with
    | some q => return some q
    | none => fail (.maximumQos source)
  | none => return none

/-- Code outside this repository. -/
structure Parsers where
  /-- `toml::from_str`: the entries of the root table. -/
  toml : String → Option (List (String × Toml))
  /-- `SocketAddr::from_str` -/
  addr : String → Option SocketAddr

def parseAddr (L : Parsers) (v flag : String) : Reads SocketAddr :=
  match L.addr v with
  | some a => .ok a
  | none => fail (.invalidAddr flag v)

def jAddr (L : Parsers) (doc : Json) (key source : String) : Reads (Option SocketAddr) := do
  match ← jStr doc key source with
  | some v => return some (← parseAddr L v key)
  | none => return none

/-! ## Sections -/

/-- `KNOWN_KEYS` (config.rs:26). -/
def knownKeys : List String :=
  ["listen_addr", "admin_addr", "admin_token", "tls_listen_addr", "tls_cert", "tls_key", "tls_client_ca", "ws_listen_addr",
    "ws_tls_listen_addr", "ws_tls_cert", "ws_tls_key", "ws_tls_client_ca", "admin_tls_cert", "admin_tls_key",
    "admin_tls_client_ca", "acl_path", "password_file", "allow_anonymous", "db_path", "max_packet_size", "receive_maximum",
    "max_session_expiry", "max_queued_messages", "max_connections_per_ip", "connection_rate_window_secs", "sys_interval",
    "maximum_qos", "retain_available", "topic_alias_maximum", "server_keep_alive", "bridges", "otlp_endpoint",
    "otlp_protocol", "otlp_headers", "otlp_interval", "otlp_metrics", "otlp_logs", "service_name", "ha_discovery",
    "ha_discovery_prefix"]

/-- `SECTION_NAMES` (config.rs:77). -/
def sectionNames : List String :=
  ["network", "mqtt_tls", "websockets", "admin", "auth", "storage", "protocol", "otlp", "home_assistant"]

def isSection (key : String) : Bool := sectionNames.contains key

/-- The `for (k, v) in section` loop. -/
def foldSection (source : String) : List (String × Json) → List (String × Json) → Reads (List (String × Json))
  | [], flat => .ok flat
  | (k, v) :: rest, flat =>
    if (SortedMap.get k flat).isSome then fail (.setTwice source k)
    else foldSection source rest (SortedMap.insert k v flat)

/-- One round of the `for (key, value) in map` loop. -/
def foldEntry (source : String) (e : String × Json) (flat : List (String × Json)) : Reads (List (String × Json)) :=
  if isSection e.1 then
    match e.2.asObject with
    | none => fail (.sectionNotTable source e.1)
    | some entries => foldSection source entries flat
  else if (SortedMap.get e.1 flat).isSome then .error .panicked
  else .ok (SortedMap.insert e.1 e.2 flat)

def foldSections (source : String) : List (String × Json) → List (String × Json) → Reads (List (String × Json))
  | [], flat => .ok flat
  | e :: rest, flat =>
    match foldEntry source e flat with
    | .ok flat => foldSections source rest flat
    | .error f => .error f

def flattenSections (doc : Json) (source : String) : Reads Json :=
  match doc.asObject with
  | none => .ok doc
  | some map => return .object (← foldSections source map [])

/-! ## Bridges -/

def reqStr (node : Json) (key place : String) : Reads String :=
  match (node.get key).asStr with
  | some s => .ok s
  | none => fail (.missingString place key)

def optStr (node : Json) (key : String) : Option String := (node.get key).asStr

def parseDirection (node : Json) (place : String) : Reads Direction :=
  match (node.get "direction").asStr with
  | some "out" => .ok .out
  | some "in" => .ok .in_
  | some "both" => .ok .both
  | _ => fail (.direction place)

def parseQos (node : Json) (place : String) : Reads QoS :=
  match (node.get "qos").asI64 with
  | none => .ok .atMostOnce
  | some v =>
    if v = 0 then .ok .atMostOnce
    else if v = 1 then .ok .atLeastOnce
    else if v = 2 then .ok .exactlyOnce
    else fail (.qos place v)

/-- One round of the loop of `parse_topics`. -/
def parseTopic (P : Protocol) (t : Json) (place : String) : Reads BridgeTopic := do
  let pattern ← reqStr t "pattern" place
  if !P.validTopicFilter pattern then fail (.invalidFilter place pattern)
  else
    let direction ← parseDirection t place
    let qos ← parseQos t place
    return { pattern, direction, qos }

def parseTopicList (P : Protocol) (place : String) : Nat → List Json → Reads (List BridgeTopic)
  | _, [] => .ok []
  | j, t :: ts => do
    let topic ← parseTopic P t (place ++ ".topics[" ++ toString j ++ "]")
    return topic :: (← parseTopicList P place (j + 1) ts)

def parseTopics (P : Protocol) (node : Json) (place : String) : Reads (List BridgeTopic) :=
  match node.asArray with
  | none => fail (.topicsNotArray place)
  | some list => parseTopicList P place 0 list

def parseProtocolVersion (b : Json) (place : String) : Reads ProtocolVersion :=
  match (b.get "protocol_version").asI64 with
  | none => .ok .v5
  | some v =>
    if v = 5 then .ok .v5
    else if v = 4 then .ok .v3_1_1
    else if v = 3 then .ok .v3_1
    else fail (.protocolVersion place v)

/-- One round of the loop of `parse_bridges`. -/
def parseBridge (P : Protocol) (b : Json) (place : String) : Reads BridgeConfig := do
  let name ← reqStr b "name" place
  let address ← reqStr b "address" place
  let clientId := (optStr b "client_id").getD ("wispmq-bridge-" ++ name)
  match tryFrom 16 ((b.get "keepalive").asI64.getD 60) with
  | none => fail (.keepalive place)
  | some keepalive =>
    let protocolVersion ← parseProtocolVersion b place
    let topics ← parseTopics P (b.get "topics") place
    if topics.isEmpty then fail (.noTopics place)
    else return {
      name, address, clientId
      username := optStr b "username"
      password := optStr b "password"
      keepalive, protocolVersion
      tlsCa := optStr b "tls_ca"
      tlsCert := optStr b "tls_cert"
      tlsKey := optStr b "tls_key"
      tlsInsecure := (b.get "tls_insecure").asBool.getD false
      topics }

def parseBridgeList (P : Protocol) (source : String) : Nat → List Json → Reads (List BridgeConfig)
  | _, [] => .ok []
  | i, b :: bs => do
    let bridge ← parseBridge P b (source ++ ": bridges[" ++ toString i ++ "]")
    return bridge :: (← parseBridgeList P source (i + 1) bs)

def parseBridges (P : Protocol) (doc : Json) (source : String) : Reads (List BridgeConfig) :=
  let node := doc.get "bridges"
  if node.isNull then .ok []
  else
    match node.asArray with
    | none => fail (.bridgesNotArray source)
    | some list => parseBridgeList P source 0 list

/-! ## Headers -/

/-- `OtlpHeaders::parse_pairs` (config.rs:156). -/
def parsePairs : List String → Except HeaderError OtlpHeaders
  | [] => .ok []
  | pair :: pairs =>
    let pair := trim pair
    if pair = "" then parsePairs pairs
    else
      -- the value may contain '='
      match splitOnce '=' pair with
      | none => .error .expectedPair
      | some (name, value) =>
        let name := trim name
        if name = "" then .error .emptyName
        else (parsePairs pairs).map ((name, trim value) :: ·)

/-- The `for (name, value) in map` loop. -/
def headerPairs (source : String) : List (String × Json) → Reads (List String)
  | [] => .ok []
  | (name, value) :: rest =>
    match value.asStr with
    | none => fail (.headerNotString source name)
    | some value => return (name ++ "=" ++ value) :: (← headerPairs source rest)

/-- The table of headers, if there is one. -/
def jHeaders (doc : Json) (source : String) : Reads (Option OtlpHeaders) :=
  let headers := doc.get "otlp_headers"
  if headers.isNull then .ok none
  else
    match headers.asObject with
    | none => fail (.headersNotTable source)
    | some map => do
      match parsePairs (← headerPairs source map) with
      | .ok h => return some h
      | .error e => fail (.header source e)

/-! ## The layer -/

def applyAddrs (L : Parsers) (doc : Json) (source : String) (cfg : Config) : Reads Config := do
  let listenAddr ← jAddr L doc "listen_addr" source
  let adminAddr ← jAddr L doc "admin_addr" source
  let wsListenAddr ← jAddr L doc "ws_listen_addr" source
  let tlsListenAddr ← jAddr L doc "tls_listen_addr" source
  let wsTlsListenAddr ← jAddr L doc "ws_tls_listen_addr" source
  return { cfg with
    listenAddr := listenAddr.or cfg.listenAddr
    adminAddr := adminAddr.getD cfg.adminAddr
    wsListenAddr := wsListenAddr.or cfg.wsListenAddr
    tlsListenAddr := tlsListenAddr.or cfg.tlsListenAddr
    wsTlsListenAddr := wsTlsListenAddr.or cfg.wsTlsListenAddr }

def applyStrings (doc : Json) (source : String) (cfg : Config) : Reads Config := do
  let adminToken ← jStr doc "admin_token" source
  let tlsCert ← jStr doc "tls_cert" source
  let tlsKey ← jStr doc "tls_key" source
  let tlsClientCa ← jStr doc "tls_client_ca" source
  let wsTlsCert ← jStr doc "ws_tls_cert" source
  let wsTlsKey ← jStr doc "ws_tls_key" source
  let wsTlsClientCa ← jStr doc "ws_tls_client_ca" source
  let adminTlsCert ← jStr doc "admin_tls_cert" source
  let adminTlsKey ← jStr doc "admin_tls_key" source
  let adminTlsClientCa ← jStr doc "admin_tls_client_ca" source
  let aclPath ← jStr doc "acl_path" source
  let passwordFile ← jStr doc "password_file" source
  let allowAnonymous ← jBool doc "allow_anonymous" source
  let dbPath ← jStr doc "db_path" source
  return { cfg with
    adminToken := adminToken.or cfg.adminToken
    tlsCert := tlsCert.or cfg.tlsCert
    tlsKey := tlsKey.or cfg.tlsKey
    tlsClientCa := tlsClientCa.or cfg.tlsClientCa
    wsTlsCert := wsTlsCert.or cfg.wsTlsCert
    wsTlsKey := wsTlsKey.or cfg.wsTlsKey
    wsTlsClientCa := wsTlsClientCa.or cfg.wsTlsClientCa
    adminTlsCert := adminTlsCert.or cfg.adminTlsCert
    adminTlsKey := adminTlsKey.or cfg.adminTlsKey
    adminTlsClientCa := adminTlsClientCa.or cfg.adminTlsClientCa
    aclPath := aclPath.or cfg.aclPath
    passwordFile := passwordFile.or cfg.passwordFile
    allowAnonymous := allowAnonymous.getD cfg.allowAnonymous
    dbPath := dbPath.getD cfg.dbPath }

def applyIntegers (doc : Json) (source : String) (cfg : Config) : Reads Config := do
  let maxPacketSize ← jU32 doc "max_packet_size" source
  let maxSessionExpiry ← jU32 doc "max_session_expiry" source
  let maxQueuedMessages ← jU32 doc "max_queued_messages" source
  let maxConnectionsPerIp ← jU32 doc "max_connections_per_ip" source
  let connectionRateWindowSecs ← jU32 doc "connection_rate_window_secs" source
  let sysInterval ← jU32 doc "sys_interval" source
  let receiveMaximum ← jU16 doc "receive_maximum" source
  let topicAliasMaximum ← jU16 doc "topic_alias_maximum" source
  let serverKeepAlive ← jU16 doc "server_keep_alive" source
  let maximumQos ← jQos doc source
  let retainAvailable ← jBool doc "retain_available" source
  return { cfg with
    maxPacketSize := maxPacketSize.getD cfg.maxPacketSize
    maxSessionExpiry := maxSessionExpiry.getD cfg.maxSessionExpiry
    maxQueuedMessages := maxQueuedMessages.getD cfg.maxQueuedMessages
    maxConnectionsPerIp := maxConnectionsPerIp.getD cfg.maxConnectionsPerIp
    connectionRateWindowSecs := connectionRateWindowSecs.getD cfg.connectionRateWindowSecs
    sysInterval := sysInterval.getD cfg.sysInterval
    receiveMaximum := receiveMaximum.getD cfg.receiveMaximum
    topicAliasMaximum := topicAliasMaximum.getD cfg.topicAliasMaximum
    serverKeepAlive := serverKeepAlive.or cfg.serverKeepAlive
    maximumQos := maximumQos.getD cfg.maximumQos
    retainAvailable := retainAvailable.getD cfg.retainAvailable }

def applyTelemetry (doc : Json) (source : String) (cfg : Config) : Reads Config := do
  let otlpEndpoint ← jStr doc "otlp_endpoint" source
  let otlpProtocol ← jStr doc "otlp_protocol" source
  let serviceName ← jStr doc "service_name" source
  let haDiscovery ← jBool doc "ha_discovery" source
  let haDiscoveryPrefix ← jStr doc "ha_discovery_prefix" source
  let otlpInterval ← jU32 doc "otlp_interval" source
  let otlpMetrics ← jBool doc "otlp_metrics" source
  let otlpLogs ← jBool doc "otlp_logs" source
  let otlpHeaders ← jHeaders doc source
  return { cfg with
    otlpEndpoint := otlpEndpoint.or cfg.otlpEndpoint
    otlpProtocol := otlpProtocol.getD cfg.otlpProtocol
    serviceName := serviceName.getD cfg.serviceName
    haDiscovery := haDiscovery.getD cfg.haDiscovery
    haDiscoveryPrefix := haDiscoveryPrefix.getD cfg.haDiscoveryPrefix
    otlpInterval := otlpInterval.getD cfg.otlpInterval
    otlpMetrics := otlpMetrics.getD cfg.otlpMetrics
    otlpLogs := otlpLogs.getD cfg.otlpLogs
    otlpHeaders := otlpHeaders.getD cfg.otlpHeaders }

def applyBridges (P : Protocol) (doc : Json) (source : String) (cfg : Config) : Reads Config := do
  let bridges ← parseBridges P doc source
  return if bridges.isEmpty then cfg else { cfg with bridges }

/-- The options of a flattened document, in the order they are read. -/
def applyOptions (L : Parsers) (P : Protocol) (doc : Json) (source : String) (cfg : Config) : Reads Config := do
  let cfg ← applyAddrs L doc source cfg
  let cfg ← applyStrings doc source cfg
  let cfg ← applyIntegers doc source cfg
  let cfg ← applyTelemetry doc source cfg
  applyBridges P doc source cfg

/-- `apply_toml_str` on the parsed document (config.rs:634-802). -/
def applyDoc (L : Parsers) (P : Protocol) (doc : List (String × Toml)) (source : String) (cfg : Config) : Reads Config := do
  let doc ← flattenSections (Toml.table doc).toJson source
  match doc.asObject with
  | none => fail (.topLevel source)
  | some map =>
    match map.find? fun e => !knownKeys.contains e.1 with
    | some e => fail (.unknownKey source e.1)
    | none => applyOptions L P doc source cfg

/-- `apply_toml_str`: a blank file is no error. -/
def applyTomlStr (L : Parsers) (P : Protocol) (text source : String) (cfg : Config) : Reads Config :=
  if trim text = "" then .ok cfg
  else
    match L.toml text with
    | none => fail (.invalidToml source)
    | some doc => applyDoc L P doc source cfg

end WispMQ.Configuration
