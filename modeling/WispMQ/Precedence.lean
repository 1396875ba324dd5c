import WispMQ.ConfigSections
import WispMQ.ConfigLayers
import WispMQ.Lib.Layered
/-!
# The options, one by one

`Field.wiring` lists each option with its type, its key in the file and its variable in the environment. The three layers are
read off it: `fileLayer` from the options of a document, `envLayer` from the environment, `cliLayer` from the flags.

| here | there |
| --- | --- |
| `Kind.ofJson`, `Kind.ofEnv` | what counts as a value of an option, in the file and in the environment |
| `applyDoc_ok` | `apply_toml_str` puts the options of a document over a configuration |
| `applyEnv_overlays`, `cli_overlays` | so do `apply_env` and `Cli::apply` with theirs |
| `layered_precedence` | every option has the value of the topmost layer that supplies it, else the default |
-/

namespace WispMQ.Configuration
open Layered SortedMap

inductive Kind where
  | text | addr | uint (bits : Nat) | bool | qos | headers | bridges

abbrev Kind.Value : Kind → Type
  | text => String
  | addr => SocketAddr
  | uint _ => Nat
  | bool => Bool
  | qos => QoS
  | headers => OtlpHeaders
  | bridges => List BridgeConfig

inductive Field where
  | listenAddr | adminAddr | adminToken | tlsListenAddr | tlsCert | tlsKey | tlsClientCa | wsListenAddr
  | wsTlsListenAddr | wsTlsCert | wsTlsKey | wsTlsClientCa | adminTlsCert | adminTlsKey | adminTlsClientCa | aclPath
  | passwordFile | allowAnonymous | dbPath | maxPacketSize | receiveMaximum | maximumQos | retainAvailable
  | topicAliasMaximum | serverKeepAlive | maxSessionExpiry | maxQueuedMessages | maxConnectionsPerIp
  | connectionRateWindowSecs | sysInterval | bridges | otlpEndpoint | otlpProtocol | otlpHeaders | otlpInterval
  | otlpMetrics | otlpLogs | serviceName | haDiscovery | haDiscoveryPrefix | configFile
deriving DecidableEq

/-- Where an option is set, outside the command line. -/
structure Wiring where
  kind : Kind
  key : Option String
  envVar : Option String

abbrev Field.wiring : Field → Wiring
  | .listenAddr => ⟨.addr, some "listen_addr", some "MQTT_LISTEN_ADDR"⟩
  | .adminAddr => ⟨.addr, some "admin_addr", some "MQTT_ADMIN_ADDR"⟩
  | .adminToken => ⟨.text, some "admin_token", some "MQTT_ADMIN_TOKEN"⟩
  | .tlsListenAddr => ⟨.addr, some "tls_listen_addr", some "MQTT_TLS_LISTEN_ADDR"⟩
  | .tlsCert => ⟨.text, some "tls_cert", some "MQTT_TLS_CERT"⟩
  | .tlsKey => ⟨.text, some "tls_key", some "MQTT_TLS_KEY"⟩
  | .tlsClientCa => ⟨.text, some "tls_client_ca", some "MQTT_TLS_CLIENT_CA"⟩
  | .wsListenAddr => ⟨.addr, some "ws_listen_addr", some "MQTT_WS_LISTEN_ADDR"⟩
  | .wsTlsListenAddr => ⟨.addr, some "ws_tls_listen_addr", some "MQTT_WS_TLS_LISTEN_ADDR"⟩
  | .wsTlsCert => ⟨.text, some "ws_tls_cert", some "MQTT_WS_TLS_CERT"⟩
  | .wsTlsKey => ⟨.text, some "ws_tls_key", some "MQTT_WS_TLS_KEY"⟩
  | .wsTlsClientCa => ⟨.text, some "ws_tls_client_ca", some "MQTT_WS_TLS_CLIENT_CA"⟩
  | .adminTlsCert => ⟨.text, some "admin_tls_cert", some "MQTT_ADMIN_TLS_CERT"⟩
  | .adminTlsKey => ⟨.text, some "admin_tls_key", some "MQTT_ADMIN_TLS_KEY"⟩
  | .adminTlsClientCa => ⟨.text, some "admin_tls_client_ca", some "MQTT_ADMIN_TLS_CLIENT_CA"⟩
  | .aclPath => ⟨.text, some "acl_path", some "MQTT_ACL_FILE"⟩
  | .passwordFile => ⟨.text, some "password_file", some "MQTT_PASSWORD_FILE"⟩
  | .allowAnonymous => ⟨.bool, some "allow_anonymous", some "MQTT_ALLOW_ANONYMOUS"⟩
  | .dbPath => ⟨.text, some "db_path", some "MQTT_DB_PATH"⟩
  | .maxPacketSize => ⟨.uint 32, some "max_packet_size", some "MQTT_MAX_PACKET_SIZE"⟩
  | .receiveMaximum => ⟨.uint 16, some "receive_maximum", some "MQTT_RECEIVE_MAXIMUM"⟩
  | .maximumQos => ⟨.qos, some "maximum_qos", some "MQTT_MAXIMUM_QOS"⟩
  | .retainAvailable => ⟨.bool, some "retain_available", some "MQTT_RETAIN_AVAILABLE"⟩
  | .topicAliasMaximum => ⟨.uint 16, some "topic_alias_maximum", some "MQTT_TOPIC_ALIAS_MAXIMUM"⟩
  | .serverKeepAlive => ⟨.uint 16, some "server_keep_alive", some "MQTT_SERVER_KEEP_ALIVE"⟩
  | .maxSessionExpiry => ⟨.uint 32, some "max_session_expiry", some "MQTT_MAX_SESSION_EXPIRY"⟩
  | .maxQueuedMessages => ⟨.uint 32, some "max_queued_messages", some "MQTT_MAX_QUEUED_MESSAGES"⟩
  | .maxConnectionsPerIp => ⟨.uint 32, some "max_connections_per_ip", some "MQTT_MAX_CONNECTIONS_PER_IP"⟩
  | .connectionRateWindowSecs => ⟨.uint 32, some "connection_rate_window_secs", some "MQTT_CONNECTION_RATE_WINDOW_SECS"⟩
  | .sysInterval => ⟨.uint 32, some "sys_interval", some "MQTT_SYS_INTERVAL"⟩
  | .bridges => ⟨.bridges, some "bridges", none⟩
  | .otlpEndpoint => ⟨.text, some "otlp_endpoint", some "MQTT_OTLP_ENDPOINT"⟩
  | .otlpProtocol => ⟨.text, some "otlp_protocol", some "MQTT_OTLP_PROTOCOL"⟩
  | .otlpHeaders => ⟨.headers, some "otlp_headers", some "MQTT_OTLP_HEADERS"⟩
  | .otlpInterval => ⟨.uint 32, some "otlp_interval", some "MQTT_OTLP_INTERVAL"⟩
  | .otlpMetrics => ⟨.bool, some "otlp_metrics", some "MQTT_OTLP_METRICS"⟩
  | .otlpLogs => ⟨.bool, some "otlp_logs", some "MQTT_OTLP_LOGS"⟩
  | .serviceName => ⟨.text, some "service_name", some "MQTT_SERVICE_NAME"⟩
  | .haDiscovery => ⟨.bool, some "ha_discovery", some "MQTT_HA_DISCOVERY"⟩
  | .haDiscoveryPrefix => ⟨.text, some "ha_discovery_prefix", some "MQTT_HA_DISCOVERY_PREFIX"⟩
  | .configFile => ⟨.text, none, none⟩

abbrev Field.Value (f : Field) : Type := f.wiring.kind.Value

def Config.get (cfg : Config) : Layer Field.Value
  | .listenAddr => cfg.listenAddr
  | .adminAddr => some cfg.adminAddr
  | .adminToken => cfg.adminToken
  | .tlsListenAddr => cfg.tlsListenAddr
  | .tlsCert => cfg.tlsCert
  | .tlsKey => cfg.tlsKey
  | .tlsClientCa => cfg.tlsClientCa
  | .wsListenAddr => cfg.wsListenAddr
  | .wsTlsListenAddr => cfg.wsTlsListenAddr
  | .wsTlsCert => cfg.wsTlsCert
  | .wsTlsKey => cfg.wsTlsKey
  | .wsTlsClientCa => cfg.wsTlsClientCa
  | .adminTlsCert => cfg.adminTlsCert
  | .adminTlsKey => cfg.adminTlsKey
  | .adminTlsClientCa => cfg.adminTlsClientCa
  | .aclPath => cfg.aclPath
  | .passwordFile => cfg.passwordFile
  | .allowAnonymous => some cfg.allowAnonymous
  | .dbPath => some cfg.dbPath
  | .maxPacketSize => some cfg.maxPacketSize
  | .receiveMaximum => some cfg.receiveMaximum
  | .maximumQos => some cfg.maximumQos
  | .retainAvailable => some cfg.retainAvailable
  | .topicAliasMaximum => some cfg.topicAliasMaximum
  | .serverKeepAlive => cfg.serverKeepAlive
  | .maxSessionExpiry => some cfg.maxSessionExpiry
  | .maxQueuedMessages => some cfg.maxQueuedMessages
  | .maxConnectionsPerIp => some cfg.maxConnectionsPerIp
  | .connectionRateWindowSecs => some cfg.connectionRateWindowSecs
  | .sysInterval => some cfg.sysInterval
  | .bridges => some cfg.bridges
  | .otlpEndpoint => cfg.otlpEndpoint
  | .otlpProtocol => some cfg.otlpProtocol
  | .otlpHeaders => some cfg.otlpHeaders
  | .otlpInterval => some cfg.otlpInterval
  | .otlpMetrics => some cfg.otlpMetrics
  | .otlpLogs => some cfg.otlpLogs
  | .serviceName => some cfg.serviceName
  | .haDiscovery => some cfg.haDiscovery
  | .haDiscoveryPrefix => some cfg.haDiscoveryPrefix
  | .configFile => cfg.configFile

/-- The options are all there is to a configuration. -/
theorem Config.ext_get {cfg cfg' : Config} (h : ∀ f, cfg.get f = cfg'.get f) : cfg = cfg' := by
  cases cfg
  cases cfg'
  congr 1
  exacts [h .listenAddr, Option.some.inj (h .adminAddr), h .adminToken, h .tlsListenAddr, h .tlsCert, h .tlsKey,
    h .tlsClientCa, h .wsListenAddr, h .wsTlsListenAddr, h .wsTlsCert, h .wsTlsKey, h .wsTlsClientCa, h .adminTlsCert,
    h .adminTlsKey, h .adminTlsClientCa, h .aclPath, h .passwordFile, Option.some.inj (h .allowAnonymous),
    Option.some.inj (h .dbPath), Option.some.inj (h .maxPacketSize), Option.some.inj (h .receiveMaximum),
    Option.some.inj (h .maximumQos), Option.some.inj (h .retainAvailable), Option.some.inj (h .topicAliasMaximum),
    h .serverKeepAlive, Option.some.inj (h .maxSessionExpiry), Option.some.inj (h .maxQueuedMessages),
    Option.some.inj (h .maxConnectionsPerIp), Option.some.inj (h .connectionRateWindowSecs),
    Option.some.inj (h .sysInterval), Option.some.inj (h .bridges), h .otlpEndpoint, Option.some.inj (h .otlpProtocol),
    Option.some.inj (h .otlpHeaders), Option.some.inj (h .otlpInterval), Option.some.inj (h .otlpMetrics),
    Option.some.inj (h .otlpLogs), Option.some.inj (h .serviceName), Option.some.inj (h .haDiscovery),
    Option.some.inj (h .haDiscoveryPrefix), h .configFile]

/-! ## The command line -/

def cliLayer (cli : Cli) : Layer Field.Value
  | .listenAddr => cli.listenAddr
  | .adminAddr => cli.adminAddr
  | .adminToken => cli.adminToken
  | .tlsListenAddr => cli.tlsListenAddr
  | .tlsCert => cli.tlsCert
  | .tlsKey => cli.tlsKey
  | .tlsClientCa => cli.tlsClientCa
  | .wsListenAddr => cli.wsListenAddr
  | .wsTlsListenAddr => cli.wsTlsListenAddr
  | .wsTlsCert => cli.wsTlsCert
  | .wsTlsKey => cli.wsTlsKey
  | .wsTlsClientCa => cli.wsTlsClientCa
  | .adminTlsCert => cli.adminTlsCert
  | .adminTlsKey => cli.adminTlsKey
  | .adminTlsClientCa => cli.adminTlsClientCa
  | .aclPath => cli.aclFile
  | .passwordFile => cli.passwordFile
  | .allowAnonymous => cli.allowAnonymous
  | .dbPath => cli.dbPath
  | .maxPacketSize => cli.maxPacketSize
  | .receiveMaximum => cli.receiveMaximum
  | .maximumQos => cli.maximumQos
  | .retainAvailable => cli.retainAvailable
  | .topicAliasMaximum => cli.topicAliasMaximum
  | .serverKeepAlive => cli.serverKeepAlive
  | .maxSessionExpiry => cli.maxSessionExpiry
  | .maxQueuedMessages => cli.maxQueuedMessages
  | .maxConnectionsPerIp => cli.maxConnectionsPerIp
  | .connectionRateWindowSecs => cli.connectionRateWindowSecs
  | .sysInterval => cli.sysInterval
  | .bridges => none
  | .otlpEndpoint => cli.otlpEndpoint
  | .otlpProtocol => cli.otlpProtocol
  | .otlpHeaders => if cli.otlpHeader.isEmpty then none else some cli.otlpHeader
  | .otlpInterval => cli.otlpInterval
  | .otlpMetrics => cli.otlpMetrics
  | .otlpLogs => cli.otlpLogs
  | .serviceName => cli.serviceName
  | .haDiscovery => cli.haDiscovery
  | .haDiscoveryPrefix => cli.haDiscoveryPrefix
  | .configFile => none

theorem cli_overlays (cli : Cli) : Overlays Config.get (cliLayer cli) cli.apply := fun cfg => by
  funext f
  cases f with
  | otlpHeaders => cases h : cli.otlpHeader <;> simp [Config.get, overlay, cliLayer, Cli.apply, h]
  | _ => simp [Config.get, overlay, cliLayer, Cli.apply]

/-! ## The environment -/

/-- What a variable that is set and not blank says, if it can be read. -/
def Kind.ofEnv (L : Parsers) : (k : Kind) → String → Option k.Value
  | text => some
  | addr => L.addr
  | uint bits => parseUInt bits
  | bool => parseBoolValue
  | qos => parseQosValue
  | headers => fun v => (parsePairs (splitOn ',' v)).toOption.filter (!·.isEmpty)
  | bridges => fun _ => none

def envLayer (L : Parsers) (env : Env) : Layer Field.Value := fun f =>
  f.wiring.envVar.bind fun name => (nonEmptyEnv env name).bind (f.wiring.kind.ofEnv L)

theorem envHeaders_eq (L : Parsers) (env : Env) (name : String) :
    envHeaders env name = (nonEmptyEnv env name).bind (Kind.headers.ofEnv L) := by
  rw [envHeaders]
  cases nonEmptyEnv env name with
  | none => rfl
  | some v =>
    simp only [Option.bind_some, Kind.ofEnv]
    cases parsePairs (splitOn ',' v) with
    | error e => rfl
    | ok h => cases h <;> rfl

theorem applyEnv_overlays (L : Parsers) (env : Env) : Overlays Config.get (envLayer L env) (applyEnv L env) := fun cfg => by
  funext f
  cases f <;>
    simp [Config.get, overlay, envLayer, applyEnv, Kind.ofEnv, envAddr, envU32, envU16, envUInt, envBool, envQos,
      envHeaders_eq L]

/-! ## The file -/

section
variable (L : Parsers) (P : Protocol) (source : String)

def nonBlank (s : String) : Option String := if trim s = "" then none else some (trim s)

/-- What a key of the file says, if its value is of the type of the option. A blank string says nothing, and neither does an
array without a bridge. -/
def Kind.ofJson : (k : Kind) → Json → Option k.Value
  | text, v => v.asStr.bind nonBlank
  | addr, v => (v.asStr.bind nonBlank).bind L.addr
  | uint bits, v => v.asI64.bind (tryFrom bits)
  | bool, v => v.asBool
  | qos, v => v.asI64.bind fun n => (tryFrom 8 n).bind qosOfNat
  | headers, v => v.asObject.bind fun map => (headerPairs source map).toOption.bind fun pairs => (parsePairs pairs).toOption
  | bridges, v => v.asArray.bind fun list => (parseBridgeList P source 0 list).toOption.filter (!·.isEmpty)

/-- The values that are taken for an option of this type; `null` is none at all. -/
def Kind.Admits (k : Kind) (v : Json) : Prop :=
  v = .null ∨
    match k with
    | text => ∃ s, v = .string s
    | addr => ∃ s, v = .string s ∧ ∀ a, nonBlank s = some a → (L.addr a).isSome
    | uint bits => ∃ n, v = .integer n ∧ (tryFrom bits n).isSome
    | bool => ∃ b, v = .bool b
    | qos => ∃ n, v = .integer n ∧ ((tryFrom 8 n).bind qosOfNat).isSome
    | headers => ∃ map, v = .object map ∧ ∃ pairs, headerPairs source map = .ok pairs
    | bridges => ∃ list bs, v = .array list ∧ parseBridgeList P source 0 list = .ok bs

/-- What the values of the keys say. -/
def settings (value : String → Json) : Layer Field.Value := fun f =>
  f.wiring.key.bind fun key => f.wiring.kind.ofJson L P source (value key)

/-- The options `fs` have been read from `doc`, and nothing else has been changed. -/
structure Applies (fs : List Field) (doc : Json) (cfg cfg' : Config) : Prop where
  admits : ∀ f ∈ fs, ∀ key, f.wiring.key = some key → f.wiring.kind.Admits L P source (doc.get key)
  get : cfg'.get = overlay (restrict fs (settings L P source doc.get)) cfg.get

variable {L P source} {doc : Json} {cfg cfg' : Config}

theorem Applies.trans {fs gs : List Field} {cfg₁ : Config} (h : Applies L P source fs doc cfg cfg₁)
    (h' : Applies L P source gs doc cfg₁ cfg') : Applies L P source (fs ++ gs) doc cfg cfg' where
  admits := fun f hf => (List.mem_append.1 hf).elim (h.admits f) (h'.admits f)
  get := by rw [h'.get, h.get, overlay_restrict]

theorem asStr_eq_some {v : Json} {s : String} : v.asStr = some s ↔ v = .string s := by
  cases v <;> simp [Json.asStr]

theorem asObject_eq_some {v : Json} {es : List (String × Json)} : v.asObject = some es ↔ v = .object es := by
  cases v <;> simp [Json.asObject]

theorem ofJson_text (s : String) : Kind.text.ofJson L P source (.string s) = nonBlank s := by
  simp only [Kind.ofJson, Json.asStr, Option.bind_some]

theorem jStr_ok {key : String} {r : Option String} (h : jStr doc key source = .ok r) :
    Kind.text.Admits L P source (doc.get key) ∧ r = Kind.text.ofJson L P source (doc.get key) := by
  unfold jStr at h
  cases hv : doc.get key with
  | null =>
    rw [hv] at h
    exact ⟨.inl rfl, (Except.ok.inj h).symm⟩
  | string s =>
    rw [hv] at h
    have hr : nonBlank s = r := Except.ok.inj h
    rw [ofJson_text]
    exact ⟨.inr ⟨s, rfl⟩, hr.symm⟩
  | _ =>
    rw [hv] at h
    cases h

theorem jBool_ok {key : String} {r : Option Bool} (h : jBool doc key source = .ok r) :
    Kind.bool.Admits L P source (doc.get key) ∧ r = Kind.bool.ofJson L P source (doc.get key) := by
  unfold jBool at h
  cases hv : doc.get key with
  | null =>
    rw [hv] at h
    exact ⟨.inl rfl, (Except.ok.inj h).symm⟩
  | bool b =>
    rw [hv] at h
    exact ⟨.inr ⟨b, rfl⟩, (Except.ok.inj h).symm⟩
  | _ =>
    rw [hv] at h
    cases h

theorem jI64_ok {key : String} {r : Option Int} (h : jI64 doc key source = .ok r) :
    doc.get key = .null ∧ r = none ∨ ∃ n, doc.get key = .integer n ∧ r = some n := by
  unfold jI64 at h
  cases hv : doc.get key with
  | null =>
    rw [hv] at h
    exact .inl ⟨rfl, (Except.ok.inj h).symm⟩
  | integer n =>
    rw [hv] at h
    exact .inr ⟨n, rfl, (Except.ok.inj h).symm⟩
  | _ =>
    rw [hv] at h
    cases h

theorem jUInt_ok {bits : Nat} {key : String} {r : Option Nat} (h : jUInt bits doc key source = .ok r) :
    (Kind.uint bits).Admits L P source (doc.get key) ∧ r = (Kind.uint bits).ofJson L P source (doc.get key) := by
  obtain ⟨n, hn, h⟩ := bind_ok.1 h
  rcases jI64_ok hn with ⟨hv, rfl⟩ | ⟨n, hv, rfl⟩
  · rw [hv]
    exact ⟨.inl rfl, (Except.ok.inj h).symm⟩
  · cases hm : tryFrom bits n with
    | none => simp [hm, fail] at h
    | some m =>
      simp only [hm] at h
      rw [hv, ← Except.ok.inj h]
      exact ⟨.inr ⟨n, rfl, Option.isSome_of_eq_some hm⟩, hm.symm⟩

theorem jQos_ok {r : Option QoS} (h : jQos doc source = .ok r) :
    Kind.qos.Admits L P source (doc.get "maximum_qos") ∧ r = Kind.qos.ofJson L P source (doc.get "maximum_qos") := by
  obtain ⟨n, hn, h⟩ := bind_ok.1 h
  rcases jI64_ok hn with ⟨hv, rfl⟩ | ⟨n, hv, rfl⟩
  · rw [hv]
    exact ⟨.inl rfl, (Except.ok.inj h).symm⟩
  · cases hq : (tryFrom 8 n).bind qosOfNat with
    | none => simp [hq, fail] at h
    | some q =>
      simp only [hq] at h
      rw [hv, ← Except.ok.inj h]
      exact ⟨.inr ⟨n, rfl, Option.isSome_of_eq_some hq⟩, hq.symm⟩

theorem jAddr_ok {key : String} {r : Option SocketAddr} (h : jAddr L doc key source = .ok r) :
    Kind.addr.Admits L P source (doc.get key) ∧ r = Kind.addr.ofJson L P source (doc.get key) := by
  obtain ⟨s, hs, h⟩ := bind_ok.1 h
  obtain ⟨hadmits, hs⟩ := jStr_ok (L := L) (P := P) hs
  have hvalue : Kind.addr.ofJson L P source (doc.get key) = s.bind L.addr := by rw [hs]; rfl
  have hread : (∀ a, s = some a → (L.addr a).isSome) ∧ r = s.bind L.addr := by
    cases s with
    | none => exact ⟨by simp, (Except.ok.inj h).symm⟩
    | some s =>
      obtain ⟨a, ha, h⟩ := bind_ok.1 h
      unfold parseAddr at ha
      cases hs : L.addr s with
      | none => simp [hs, fail] at ha
      | some b =>
        simp only [hs] at ha
        obtain rfl := Except.ok.inj ha
        exact ⟨by simp [hs], by simpa [hs] using (Except.ok.inj h).symm⟩
  refine ⟨?_, hread.2.trans hvalue.symm⟩
  rcases hadmits with hv | ⟨s', hv⟩
  · exact .inl hv
  · refine .inr ⟨s', hv, fun a ha => hread.1 a ?_⟩
    rw [hs, hv, ofJson_text, ha]

theorem jHeaders_ok {r : Option OtlpHeaders} (h : jHeaders doc source = .ok r) :
    Kind.headers.Admits L P source (doc.get "otlp_headers") ∧
      r = Kind.headers.ofJson L P source (doc.get "otlp_headers") := by
  unfold jHeaders at h
  cases hv : doc.get "otlp_headers" with
  | null =>
    rw [hv] at h
    exact ⟨.inl rfl, (Except.ok.inj h).symm⟩
  | object map =>
    rw [hv] at h
    obtain ⟨pairs, hpairs, h⟩ := bind_ok.1 h
    refine ⟨.inr ⟨map, rfl, pairs, hpairs⟩, ?_⟩
    cases hp : parsePairs pairs with
    | error e => simp [hp, fail] at h
    | ok headers =>
      simp only [hp] at h
      rw [← Except.ok.inj h]
      simp [Kind.ofJson, Json.asObject, hpairs, hp, Except.toOption]
  | _ =>
    rw [hv] at h
    cases h

theorem parseBridges_ok {bs : List BridgeConfig} (h : parseBridges P doc source = .ok bs) :
    Kind.bridges.Admits L P source (doc.get "bridges") ∧
      Kind.bridges.ofJson L P source (doc.get "bridges") = if bs.isEmpty then none else some bs := by
  unfold parseBridges at h
  cases hv : doc.get "bridges" with
  | null =>
    rw [hv] at h
    obtain rfl := Except.ok.inj h
    exact ⟨.inl rfl, rfl⟩
  | array list =>
    rw [hv] at h
    have hlist : parseBridgeList P source 0 list = .ok bs := h
    refine ⟨.inr ⟨list, bs, rfl, hlist⟩, ?_⟩
    simp only [Kind.ofJson, Json.asArray, Option.bind_some, hlist, Except.toOption]
    cases bs <;> rfl
  | _ =>
    rw [hv] at h
    cases h

/-! ## The blocks -/

def addrFields : List Field := [.listenAddr, .adminAddr, .wsListenAddr, .tlsListenAddr, .wsTlsListenAddr]

theorem applyAddrs_ok (h : applyAddrs L doc source cfg = .ok cfg') : Applies L P source addrFields doc cfg cfg' := by
  simp only [applyAddrs, bind_ok] at h
  obtain ⟨a, ha, b, hb, c, hc, d, hd, e, he, h⟩ := h
  obtain rfl := Except.ok.inj h
  obtain ⟨ha', rfl⟩ := jAddr_ok (P := P) ha
  obtain ⟨hb', rfl⟩ := jAddr_ok (P := P) hb
  obtain ⟨hc', rfl⟩ := jAddr_ok (P := P) hc
  obtain ⟨hd', rfl⟩ := jAddr_ok (P := P) hd
  obtain ⟨he', rfl⟩ := jAddr_ok (P := P) he
  refine ⟨?_, ?_⟩
  · simpa [addrFields] using ⟨ha', hb', hc', hd', he'⟩
  · funext f
    cases f <;> simp [Config.get, overlay, restrict, settings, addrFields]

def stringFields : List Field :=
  [.adminToken, .tlsCert, .tlsKey, .tlsClientCa, .wsTlsCert, .wsTlsKey, .wsTlsClientCa, .adminTlsCert, .adminTlsKey,
    .adminTlsClientCa, .aclPath, .passwordFile, .allowAnonymous, .dbPath]

theorem applyStrings_ok (h : applyStrings doc source cfg = .ok cfg') : Applies L P source stringFields doc cfg cfg' := by
  simp only [applyStrings, bind_ok] at h
  obtain ⟨a, ha, b, hb, c, hc, d, hd, e, he, f, hf, g, hg, h, hh, i, hi, j, hj, k, hk, l, hl, m, hm, n, hn, h⟩ := h
  obtain rfl := Except.ok.inj h
  obtain ⟨ha', rfl⟩ := jStr_ok (L := L) (P := P) ha
  obtain ⟨hb', rfl⟩ := jStr_ok (L := L) (P := P) hb
  obtain ⟨hc', rfl⟩ := jStr_ok (L := L) (P := P) hc
  obtain ⟨hd', rfl⟩ := jStr_ok (L := L) (P := P) hd
  obtain ⟨he', rfl⟩ := jStr_ok (L := L) (P := P) he
  obtain ⟨hf', rfl⟩ := jStr_ok (L := L) (P := P) hf
  obtain ⟨hg', rfl⟩ := jStr_ok (L := L) (P := P) hg
  obtain ⟨hh', rfl⟩ := jStr_ok (L := L) (P := P) hh
  obtain ⟨hi', rfl⟩ := jStr_ok (L := L) (P := P) hi
  obtain ⟨hj', rfl⟩ := jStr_ok (L := L) (P := P) hj
  obtain ⟨hk', rfl⟩ := jStr_ok (L := L) (P := P) hk
  obtain ⟨hl', rfl⟩ := jStr_ok (L := L) (P := P) hl
  obtain ⟨hm', rfl⟩ := jBool_ok (L := L) (P := P) hm
  obtain ⟨hn', rfl⟩ := jStr_ok (L := L) (P := P) hn
  refine ⟨?_, ?_⟩
  · simpa [stringFields] using ⟨ha', hb', hc', hd', he', hf', hg', hh', hi', hj', hk', hl', hm', hn'⟩
  · funext f
    cases f <;> simp [Config.get, overlay, restrict, settings, stringFields]

def integerFields : List Field :=
  [.maxPacketSize, .maxSessionExpiry, .maxQueuedMessages, .maxConnectionsPerIp, .connectionRateWindowSecs,
    .sysInterval, .receiveMaximum, .topicAliasMaximum, .serverKeepAlive, .maximumQos, .retainAvailable]

theorem applyIntegers_ok (h : applyIntegers doc source cfg = .ok cfg') : Applies L P source integerFields doc cfg cfg' := by
  simp only [applyIntegers, bind_ok] at h
  obtain ⟨a, ha, b, hb, c, hc, d, hd, e, he, f, hf, g, hg, h, hh, i, hi, j, hj, k, hk, h⟩ := h
  obtain rfl := Except.ok.inj h
  obtain ⟨ha', rfl⟩ := jUInt_ok (L := L) (P := P) ha
  obtain ⟨hb', rfl⟩ := jUInt_ok (L := L) (P := P) hb
  obtain ⟨hc', rfl⟩ := jUInt_ok (L := L) (P := P) hc
  obtain ⟨hd', rfl⟩ := jUInt_ok (L := L) (P := P) hd
  obtain ⟨he', rfl⟩ := jUInt_ok (L := L) (P := P) he
  obtain ⟨hf', rfl⟩ := jUInt_ok (L := L) (P := P) hf
  obtain ⟨hg', rfl⟩ := jUInt_ok (L := L) (P := P) hg
  obtain ⟨hh', rfl⟩ := jUInt_ok (L := L) (P := P) hh
  obtain ⟨hi', rfl⟩ := jUInt_ok (L := L) (P := P) hi
  obtain ⟨hj', rfl⟩ := jQos_ok (L := L) (P := P) hj
  obtain ⟨hk', rfl⟩ := jBool_ok (L := L) (P := P) hk
  refine ⟨?_, ?_⟩
  · simpa [integerFields] using ⟨ha', hb', hc', hd', he', hf', hg', hh', hi', hj', hk'⟩
  · funext f
    cases f <;> simp [Config.get, overlay, restrict, settings, integerFields]

def telemetryFields : List Field :=
  [.otlpEndpoint, .otlpProtocol, .serviceName, .haDiscovery, .haDiscoveryPrefix, .otlpInterval, .otlpMetrics,
    .otlpLogs, .otlpHeaders]

theorem applyTelemetry_ok (h : applyTelemetry doc source cfg = .ok cfg') : Applies L P source telemetryFields doc cfg cfg' := by
  simp only [applyTelemetry, bind_ok] at h
  obtain ⟨a, ha, b, hb, c, hc, d, hd, e, he, f, hf, g, hg, h, hh, i, hi, h⟩ := h
  obtain rfl := Except.ok.inj h
  obtain ⟨ha', rfl⟩ := jStr_ok (L := L) (P := P) ha
  obtain ⟨hb', rfl⟩ := jStr_ok (L := L) (P := P) hb
  obtain ⟨hc', rfl⟩ := jStr_ok (L := L) (P := P) hc
  obtain ⟨hd', rfl⟩ := jBool_ok (L := L) (P := P) hd
  obtain ⟨he', rfl⟩ := jStr_ok (L := L) (P := P) he
  obtain ⟨hf', rfl⟩ := jUInt_ok (L := L) (P := P) hf
  obtain ⟨hg', rfl⟩ := jBool_ok (L := L) (P := P) hg
  obtain ⟨hh', rfl⟩ := jBool_ok (L := L) (P := P) hh
  obtain ⟨hi', rfl⟩ := jHeaders_ok (L := L) (P := P) hi
  refine ⟨?_, ?_⟩
  · simpa [telemetryFields] using ⟨ha', hb', hc', hd', he', hf', hg', hh', hi'⟩
  · funext f
    cases f <;> simp [Config.get, overlay, restrict, settings, telemetryFields]

theorem applyBridges_ok (h : applyBridges P doc source cfg = .ok cfg') : Applies L P source [.bridges] doc cfg cfg' := by
  simp only [applyBridges, bind_ok] at h
  obtain ⟨bs, hbs, h⟩ := h
  obtain rfl := Except.ok.inj h
  obtain ⟨hadmits, hvalue⟩ := parseBridges_ok (L := L) hbs
  refine ⟨by simpa using hadmits, funext fun f => ?_⟩
  cases f with
  | bridges => cases bs <;> simp_all [Config.get, overlay, restrict, settings]
  | _ => cases bs <;> simp [Config.get, overlay, restrict]

def fileFields : List Field := addrFields ++ stringFields ++ integerFields ++ telemetryFields ++ [.bridges]

theorem applyOptions_ok (h : applyOptions L P doc source cfg = .ok cfg') : Applies L P source fileFields doc cfg cfg' := by
  simp only [applyOptions, bind_ok] at h
  obtain ⟨cfg₁, h₁, cfg₂, h₂, cfg₃, h₃, cfg₄, h₄, h⟩ := h
  exact ((((applyAddrs_ok h₁).trans (applyStrings_ok h₂)).trans (applyIntegers_ok h₃)).trans (applyTelemetry_ok h₄)).trans
    (applyBridges_ok h)

theorem settings_eq_of_not_mem {value : String → Json} {f : Field} (h : f ∉ fileFields) : settings L P source value f = none := by
  cases f with
  | configFile => rfl
  | _ => exact absurd (by decide) h

/-- The value of an option, bare or in a section; `null` where it is not set. -/
def setting (map : List (String × Json)) (key : String) : Json := (get key (options map)).getD .null

/-- What holds of a document that is accepted. -/
structure Accepted (L : Parsers) (P : Protocol) (source : String) (map : List (String × Json)) : Prop where
  tables : SectionsAreTables map
  once : EachOnce map
  known : ∀ e ∈ options map, e.1 ∈ knownKeys
  admits : ∀ (f : Field) key, f.wiring.key = some key → f.wiring.kind.Admits L P source (setting map key)

theorem get_flat {map : List (String × Json)} (h : EachOnce map) :
    (Json.object (ofList (options map))).get = setting map := by
  funext key
  show (get key (ofList (options map))).getD .null = _
  rw [get_ofList h, setting]

theorem mem_fileFields {f : Field} {key : String} (h : f.wiring.key = some key) : f ∈ fileFields := by
  cases f with
  | configFile => cases h
  | _ => decide

/-- **The file**: an accepted document has its options put over the configuration. -/
theorem applyDoc_ok {doc : List (String × Toml)} (h : applyDoc L P doc source cfg = .ok cfg') :
    Accepted L P source (pivot doc) ∧ cfg'.get = overlay (settings L P source (setting (pivot doc))) cfg.get := by
  simp only [applyDoc, bind_ok, toJson_table] at h
  obtain ⟨flat, hflat, h⟩ := h
  obtain ⟨htables, honce, rfl⟩ := flattenSections_ok.1 hflat
  dsimp only [Json.asObject] at h
  cases hunknown : (ofList (options (pivot doc))).find? (fun e => !knownKeys.contains e.1) with
  | some e =>
    rw [hunknown] at h
    cases h
  | none =>
    rw [hunknown] at h
    have happlies := applyOptions_ok h
    have hadmits := happlies.admits
    rw [get_flat honce] at hadmits
    refine ⟨⟨htables, honce, ?_, fun f key hkey => hadmits f (mem_fileFields hkey) key hkey⟩, ?_⟩
    · rintro ⟨key, v⟩ he
      have hin : (key, v) ∈ ofList (options (pivot doc)) := by
        rw [← get_eq_some_iff (sorted_ofList _).nodup, get_ofList honce, get_eq_some_iff honce]
        exact he
      simpa using List.find?_eq_none.1 hunknown _ hin
    · rw [happlies.get, get_flat honce]
      funext f
      by_cases hf : f ∈ fileFields
      · simp [overlay, restrict, hf]
      · simp [overlay, restrict, hf, settings_eq_of_not_mem hf]

end

/-! ## All layers -/

section
variable (L : Parsers) (P : Protocol) (host : Host) (cli : Cli)

/-- The document that a text is read as, if it can be read. -/
def documentOf (text : String) : Option (List (String × Toml)) := if trim text = "" then some [] else L.toml text

/-- The file supplies its own path, and the options it has. -/
def fileLayer : Layer Field.Value := fun f =>
  (configPath host cli).bind fun path =>
    match f with
    | .configFile => some path
    | f => ((host.readToString path).bind (documentOf L)).bind fun doc => settings L P path (setting (pivot doc)) f

theorem settings_empty (source : String) (f : Field) : settings L P source (setting (pivot [])) f = none := by
  cases f <;> rfl

theorem applyTomlStr_get {text source : String} {cfg cfg' : Config} (h : applyTomlStr L P text source cfg = .ok cfg') :
    ∃ doc, documentOf L text = some doc ∧ cfg'.get = overlay (settings L P source (setting (pivot doc))) cfg.get := by
  unfold applyTomlStr at h
  unfold documentOf
  split at h
  · rename_i hblank
    obtain rfl := Except.ok.inj h
    refine ⟨[], if_pos hblank, funext fun f => ?_⟩
    rw [overlay_eq_of_none (settings_empty L P source f)]
  · rename_i hblank
    rw [if_neg hblank]
    cases htoml : L.toml text with
    | none =>
      rw [htoml] at h
      cases h
    | some doc =>
      rw [htoml] at h
      exact ⟨doc, rfl, (applyDoc_ok h).2⟩

variable {L P host cli}

theorem fileLayer_eq {path : String} {doc : List (String × Toml)} (hpath : configPath host cli = some path)
    (hdoc : (host.readToString path).bind (documentOf L) = some doc) {f : Field} (hf : f ≠ .configFile) :
    fileLayer L P host cli f = settings L P path (setting (pivot doc)) f := by
  cases f with
  | configFile => exact absurd rfl hf
  | _ => simp only [fileLayer, hpath, Option.bind_some, hdoc]

theorem fromFile_get {cfg : Config} (h : fromFile L P host cli = .ok cfg) :
    cfg.get = overlay (fileLayer L P host cli) ({} : Config).get := by
  unfold fromFile at h
  cases hpath : configPath host cli with
  | none =>
    rw [hpath] at h
    obtain rfl := Except.ok.inj h
    funext f
    have hnone : fileLayer L P host cli f = none := by rw [fileLayer, hpath]; rfl
    rw [overlay_eq_of_none hnone]
  | some path =>
    rw [hpath] at h
    dsimp only [applyTomlFile] at h
    cases htext : host.readToString path with
    | none =>
      rw [htext] at h
      cases h
    | some text =>
      rw [htext] at h
      obtain ⟨cfg', h', h⟩ := bind_ok.1 h
      obtain rfl := Except.ok.inj h
      obtain ⟨doc, hdoc, hget⟩ := applyTomlStr_get L P h'
      have hread : (host.readToString path).bind (documentOf L) = some doc := by
        rw [htext, Option.bind_some, hdoc]
      funext f
      have hf := congrFun hget f
      by_cases hconfig : f = .configFile
      · subst hconfig
        simp [Config.get, overlay, fileLayer, hpath]
      · have hsame : ({ cfg' with configFile := some path } : Config).get f = cfg'.get f := by
          cases f with
          | configFile => exact absurd rfl hconfig
          | _ => rfl
        rw [hsame, hf, overlay, overlay, fileLayer_eq hpath hread hconfig]

variable (L P host cli) in
/-- The topmost first. -/
def layers : List (Layer Field.Value) := [cliLayer cli, envLayer L host.env, fileLayer L P host cli]

theorem layered_get {cfg : Config} (h : layered L P host cli = .ok cfg) :
    cfg.get = overlay (stack (layers L P host cli)) ({} : Config).get := by
  obtain ⟨c, hc, h⟩ := bind_ok.1 h
  obtain rfl := Except.ok.inj h
  rw [cli_overlays cli, applyEnv_overlays L host.env, fromFile_get hc, layers, overlay_stack_cons, overlay_stack_cons,
    overlay_stack_cons, overlay_stack_nil]

/-- **Precedence**: an option has the value of the topmost layer that supplies one, else the default, and a layer changes
nothing that it does not supply. -/
theorem layered_precedence {cfg : Config} (h : layered L P host cli = .ok cfg) :
    (∀ f v above l below, layers L P host cli = above ++ l :: below → (∀ m ∈ above, m f = none) → l f = some v →
        cfg.get f = some v) ∧
      (∀ f, (∀ l ∈ layers L P host cli, l f = none) → cfg.get f = ({} : Config).get f) ∧
      (∀ c f, cliLayer cli f = none → (cli.apply c).get f = c.get f) ∧
      (∀ c f, envLayer L host.env f = none → (applyEnv L host.env c).get f = c.get f) ∧
      ∀ c f, fromFile L P host cli = .ok c → fileLayer L P host cli f = none → c.get f = ({} : Config).get f := by
  refine ⟨?_, fun f hf => ?_, fun c f => (cli_overlays cli).frame c, fun c f => (applyEnv_overlays L host.env).frame c,
    fun c f hc hf => ?_⟩
  · intro f v above l below hlayers habove hl
    have hv : stack (layers L P host cli) f = some v := stack_eq_some_iff.2 ⟨above, l, below, hlayers, habove, hl⟩
    rw [layered_get h, overlay, hv, Option.some_or]
  · rw [layered_get h, overlay_eq_of_none (stack_eq_none_iff.2 hf)]
  · rw [fromFile_get hc, overlay_eq_of_none hf]

/-! ### A file with headers -/

/-- What is in the file of the examples. -/
def otlpText : String := "otlp_headers.A = \"B\""

/-- `toml::from_str` and `SocketAddr::from_str`, as far as the examples go. -/
def exampleParsers : Parsers where
  toml text := if text = otlpText then some [("otlp_headers", .table [("A", .string "B")])] else none
  addr text := if text = "0.0.0.0:8883" then some ⟨[0, 0, 0, 0], 8883⟩ else none

/-- The file has a header; the variable has the value `headers`. -/
def headersHost (headers : String) : Host where
  env name := if name = "MQTT_OTLP_HEADERS" then some headers else none
  isFile name := name == "wispmq.toml"
  readToString name := if name = "wispmq.toml" then some otlpText else none

/-- Headers of the environment stand in the place of those of the file, as a whole. -/
theorem precedence_headers :
    layered exampleParsers Protocol.reference (headersHost "C=D") {} =
        .ok { otlpHeaders := [("C", "D")], configFile := some "wispmq.toml" } ∧
      (∀ f v above l below, layers exampleParsers Protocol.reference (headersHost "C=D") {} = above ++ l :: below →
        (∀ m ∈ above, m f = none) → l f = some v →
          ({ otlpHeaders := [("C", "D")], configFile := some "wispmq.toml" } : Config).get f = some v) :=
  ⟨rfl, (layered_precedence rfl).1⟩

/-- A variable that is set, not blank and can be read supplies nothing if no pair is in it. -/
theorem precedence_noPairs : ¬∀ (L : Parsers) (P : Protocol) (host : Host) (cli : Cli) (cfg : Config) (v : String)
    (headers : OtlpHeaders), layered L P host cli = .ok cfg → cli.otlpHeader = [] →
    nonEmptyEnv host.env "MQTT_OTLP_HEADERS" = some v → parsePairs (splitOn ',' v) = .ok headers →
    cfg.otlpHeaders = headers := fun h => by
  have hcomma := h exampleParsers Protocol.reference (headersHost ",") {}
    { otlpHeaders := [("A", "B")], configFile := some "wispmq.toml" } "," [] rfl rfl rfl rfl
  cases hcomma

end

end WispMQ.Configuration
