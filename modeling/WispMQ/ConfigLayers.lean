import WispMQ.ConfigFile
/-!
# The layers of the configuration: `config.rs`, `cli.rs`

| here | there |
| --- | --- |
| `applyEnv`     | `Config::apply_env` (config.rs:395) |
| `Cli`          | the parsed flags (cli.rs:40) |
| `Cli.apply`    | `Cli::apply` (cli.rs:331) |
| `layered`      | `Config::from_cli` up to the command line (config.rs:588-606) |
| `normalize`, `validate` | the same (config.rs:828, 854) |
| `fromCli`      | `Config::from_cli` (config.rs:580) |
| `Host`         | the file system and `std::env::var` |

A value of the environment that cannot be read leaves the layer below as it is, and so do headers without a single pair.
-/

namespace WispMQ.Configuration

/-! ## Environment -/

/-- `std::env::var`, where what is not Unicode counts as not set. -/
abbrev Env := String → Option String

def nonEmptyEnv (env : Env) (name : String) : Option String := ((env name).map trim).filter (· ≠ "")

def parseQosValue (v : String) : Option QoS := (parseUInt 8 (trim v)).bind qosOfNat

def parseBoolValue (v : String) : Option Bool :=
  let v := toAsciiLowercase (trim v)
  if ["true", "1", "yes", "on"].contains v then some true
  else if ["false", "0", "no", "off"].contains v then some false
  else none

def envAddr (L : Parsers) (env : Env) (name : String) : Option SocketAddr := (nonEmptyEnv env name).bind L.addr

def envUInt (bits : Nat) (env : Env) (name : String) : Option Nat := (nonEmptyEnv env name).bind (parseUInt bits)

def envU32 (env : Env) (name : String) : Option Nat := envUInt 32 env name

def envU16 (env : Env) (name : String) : Option Nat := envUInt 16 env name

def envBool (env : Env) (name : String) : Option Bool := (nonEmptyEnv env name).bind parseBoolValue

def envQos (env : Env) (name : String) : Option QoS := (nonEmptyEnv env name).bind parseQosValue

/-- Pairs separated by commas. A malformed pair is reported and the layer below kept, as it is if there is no pair at all. -/
def envHeaders (env : Env) (name : String) : Option OtlpHeaders :=
  match nonEmptyEnv env name with
  | none => none
  | some v =>
    match parsePairs (splitOn ',' v) with
    | .ok h => if h.isEmpty then none else some h
    | .error _ => none

def applyEnv (L : Parsers) (env : Env) (cfg : Config) : Config :=
  { cfg with
    listenAddr := (envAddr L env "MQTT_LISTEN_ADDR").or cfg.listenAddr
    adminAddr := (envAddr L env "MQTT_ADMIN_ADDR").getD cfg.adminAddr
    adminToken := (nonEmptyEnv env "MQTT_ADMIN_TOKEN").or cfg.adminToken
    tlsListenAddr := (envAddr L env "MQTT_TLS_LISTEN_ADDR").or cfg.tlsListenAddr
    tlsCert := (nonEmptyEnv env "MQTT_TLS_CERT").or cfg.tlsCert
    tlsKey := (nonEmptyEnv env "MQTT_TLS_KEY").or cfg.tlsKey
    tlsClientCa := (nonEmptyEnv env "MQTT_TLS_CLIENT_CA").or cfg.tlsClientCa
    wsListenAddr := (envAddr L env "MQTT_WS_LISTEN_ADDR").or cfg.wsListenAddr
    wsTlsListenAddr := (envAddr L env "MQTT_WS_TLS_LISTEN_ADDR").or cfg.wsTlsListenAddr
    wsTlsCert := (nonEmptyEnv env "MQTT_WS_TLS_CERT").or cfg.wsTlsCert
    wsTlsKey := (nonEmptyEnv env "MQTT_WS_TLS_KEY").or cfg.wsTlsKey
    wsTlsClientCa := (nonEmptyEnv env "MQTT_WS_TLS_CLIENT_CA").or cfg.wsTlsClientCa
    adminTlsCert := (nonEmptyEnv env "MQTT_ADMIN_TLS_CERT").or cfg.adminTlsCert
    adminTlsKey := (nonEmptyEnv env "MQTT_ADMIN_TLS_KEY").or cfg.adminTlsKey
    adminTlsClientCa := (nonEmptyEnv env "MQTT_ADMIN_TLS_CLIENT_CA").or cfg.adminTlsClientCa
    aclPath := (nonEmptyEnv env "MQTT_ACL_FILE").or cfg.aclPath
    passwordFile := (nonEmptyEnv env "MQTT_PASSWORD_FILE").or cfg.passwordFile
    allowAnonymous := (envBool env "MQTT_ALLOW_ANONYMOUS").getD cfg.allowAnonymous
    dbPath := (nonEmptyEnv env "MQTT_DB_PATH").getD cfg.dbPath
    maxPacketSize := (envU32 env "MQTT_MAX_PACKET_SIZE").getD cfg.maxPacketSize
    receiveMaximum := (envU16 env "MQTT_RECEIVE_MAXIMUM").getD cfg.receiveMaximum
    maxSessionExpiry := (envU32 env "MQTT_MAX_SESSION_EXPIRY").getD cfg.maxSessionExpiry
    maxQueuedMessages := (envU32 env "MQTT_MAX_QUEUED_MESSAGES").getD cfg.maxQueuedMessages
    maxConnectionsPerIp := (envU32 env "MQTT_MAX_CONNECTIONS_PER_IP").getD cfg.maxConnectionsPerIp
    connectionRateWindowSecs := (envU32 env "MQTT_CONNECTION_RATE_WINDOW_SECS").getD cfg.connectionRateWindowSecs
    sysInterval := (envU32 env "MQTT_SYS_INTERVAL").getD cfg.sysInterval
    maximumQos := (envQos env "MQTT_MAXIMUM_QOS").getD cfg.maximumQos
    retainAvailable := (envBool env "MQTT_RETAIN_AVAILABLE").getD cfg.retainAvailable
    topicAliasMaximum := (envU16 env "MQTT_TOPIC_ALIAS_MAXIMUM").getD cfg.topicAliasMaximum
    serverKeepAlive := (envU16 env "MQTT_SERVER_KEEP_ALIVE").or cfg.serverKeepAlive
    otlpEndpoint := (nonEmptyEnv env "MQTT_OTLP_ENDPOINT").or cfg.otlpEndpoint
    otlpProtocol := (nonEmptyEnv env "MQTT_OTLP_PROTOCOL").getD cfg.otlpProtocol
    otlpHeaders := (envHeaders env "MQTT_OTLP_HEADERS").getD cfg.otlpHeaders
    otlpInterval := (envU32 env "MQTT_OTLP_INTERVAL").getD cfg.otlpInterval
    otlpMetrics := (envBool env "MQTT_OTLP_METRICS").getD cfg.otlpMetrics
    otlpLogs := (envBool env "MQTT_OTLP_LOGS").getD cfg.otlpLogs
    serviceName := (nonEmptyEnv env "MQTT_SERVICE_NAME").getD cfg.serviceName
    haDiscovery := (envBool env "MQTT_HA_DISCOVERY").getD cfg.haDiscovery
    haDiscoveryPrefix := (nonEmptyEnv env "MQTT_HA_DISCOVERY_PREFIX").getD cfg.haDiscoveryPrefix }

/-! ## Command line -/

/-- The flags that were passed; `otlpHeader` has one pair for each time its flag was. -/
structure Cli where
  config : Option String := none
  listenAddr : Option SocketAddr := none
  adminAddr : Option SocketAddr := none
  maxConnectionsPerIp : Option Nat := none
  connectionRateWindowSecs : Option Nat := none
  tlsListenAddr : Option SocketAddr := none
  tlsCert : Option String := none
  tlsKey : Option String := none
  tlsClientCa : Option String := none
  wsListenAddr : Option SocketAddr := none
  wsTlsListenAddr : Option SocketAddr := none
  wsTlsCert : Option String := none
  wsTlsKey : Option String := none
  wsTlsClientCa : Option String := none
  adminTlsCert : Option String := none
  adminTlsKey : Option String := none
  adminTlsClientCa : Option String := none
  adminToken : Option String := none
  passwordFile : Option String := none
  allowAnonymous : Option Bool := none
  aclFile : Option String := none
  hashPassword : Option (Option String) := none
  dbPath : Option String := none
  maxPacketSize : Option Nat := none
  receiveMaximum : Option Nat := none
  maxSessionExpiry : Option Nat := none
  maxQueuedMessages : Option Nat := none
  sysInterval : Option Nat := none
  maximumQos : Option QoS := none
  retainAvailable : Option Bool := none
  topicAliasMaximum : Option Nat := none
  serverKeepAlive : Option Nat := none
  otlpEndpoint : Option String := none
  otlpProtocol : Option String := none
  otlpHeader : List (String × String) := []
  otlpInterval : Option Nat := none
  otlpMetrics : Option Bool := none
  otlpLogs : Option Bool := none
  serviceName : Option String := none
  haDiscovery : Option Bool := none
  haDiscoveryPrefix : Option String := none

def Cli.apply (cli : Cli) (cfg : Config) : Config :=
  { cfg with
    listenAddr := cli.listenAddr.or cfg.listenAddr
    adminAddr := cli.adminAddr.getD cfg.adminAddr
    adminToken := cli.adminToken.or cfg.adminToken
    tlsListenAddr := cli.tlsListenAddr.or cfg.tlsListenAddr
    tlsCert := cli.tlsCert.or cfg.tlsCert
    tlsKey := cli.tlsKey.or cfg.tlsKey
    tlsClientCa := cli.tlsClientCa.or cfg.tlsClientCa
    wsListenAddr := cli.wsListenAddr.or cfg.wsListenAddr
    wsTlsListenAddr := cli.wsTlsListenAddr.or cfg.wsTlsListenAddr
    wsTlsCert := cli.wsTlsCert.or cfg.wsTlsCert
    wsTlsKey := cli.wsTlsKey.or cfg.wsTlsKey
    wsTlsClientCa := cli.wsTlsClientCa.or cfg.wsTlsClientCa
    adminTlsCert := cli.adminTlsCert.or cfg.adminTlsCert
    adminTlsKey := cli.adminTlsKey.or cfg.adminTlsKey
    adminTlsClientCa := cli.adminTlsClientCa.or cfg.adminTlsClientCa
    aclPath := cli.aclFile.or cfg.aclPath
    passwordFile := cli.passwordFile.or cfg.passwordFile
    allowAnonymous := cli.allowAnonymous.getD cfg.allowAnonymous
    dbPath := cli.dbPath.getD cfg.dbPath
    maxPacketSize := cli.maxPacketSize.getD cfg.maxPacketSize
    receiveMaximum := cli.receiveMaximum.getD cfg.receiveMaximum
    maxSessionExpiry := cli.maxSessionExpiry.getD cfg.maxSessionExpiry
    maxQueuedMessages := cli.maxQueuedMessages.getD cfg.maxQueuedMessages
    maxConnectionsPerIp := cli.maxConnectionsPerIp.getD cfg.maxConnectionsPerIp
    connectionRateWindowSecs := cli.connectionRateWindowSecs.getD cfg.connectionRateWindowSecs
    sysInterval := cli.sysInterval.getD cfg.sysInterval
    maximumQos := cli.maximumQos.getD cfg.maximumQos
    retainAvailable := cli.retainAvailable.getD cfg.retainAvailable
    topicAliasMaximum := cli.topicAliasMaximum.getD cfg.topicAliasMaximum
    serverKeepAlive := cli.serverKeepAlive.or cfg.serverKeepAlive
    otlpEndpoint := cli.otlpEndpoint.or cfg.otlpEndpoint
    otlpProtocol := cli.otlpProtocol.getD cfg.otlpProtocol
    otlpHeaders := if cli.otlpHeader.isEmpty then cfg.otlpHeaders else cli.otlpHeader
    otlpInterval := cli.otlpInterval.getD cfg.otlpInterval
    otlpMetrics := cli.otlpMetrics.getD cfg.otlpMetrics
    otlpLogs := cli.otlpLogs.getD cfg.otlpLogs
    serviceName := cli.serviceName.getD cfg.serviceName
    haDiscovery := cli.haDiscovery.getD cfg.haDiscovery
    haDiscoveryPrefix := cli.haDiscoveryPrefix.getD cfg.haDiscoveryPrefix }

/-! ## The pipeline -/

/-- What the process finds where it runs. -/
structure Host where
  env : Env
  isFile : String → Bool
  readToString : String → Option String

/-- `DEFAULT_CONFIG_FILES` (config.rs:90). -/
def defaultConfigFiles : List String := ["wispmq.toml"]

def defaultConfigFile (host : Host) : Option String := defaultConfigFiles.find? host.isFile

/-- The config file that is read, if any: an explicit path, or the default. -/
def configPath (host : Host) (cli : Cli) : Option String :=
  (cli.config.or (nonEmptyEnv host.env "MQTT_CONFIG_FILE")).or (defaultConfigFile host)

def applyTomlFile (L : Parsers) (P : Protocol) (host : Host) (path : String) (cfg : Config) : Reads Config :=
  match host.readToString path with
  | none => fail (.readFile path)
  | some text => return { ← applyTomlStr L P text path cfg with configFile := some path }

/-- The defaults under the file. -/
def fromFile (L : Parsers) (P : Protocol) (host : Host) (cli : Cli) : Reads Config :=
  match configPath host cli with
  | some path => applyTomlFile L P host path {}
  | none => .ok {}

/-- The defaults under the file, the environment and the command line. -/
def layered (L : Parsers) (P : Protocol) (host : Host) (cli : Cli) : Reads Config := do
  let cfg ← fromFile L P host cli
  return cli.apply (applyEnv L host.env cfg)

/-- A listener at port 0 is off. -/
def normalizeAddr (addr : Option SocketAddr) : Option SocketAddr := addr.filter (·.port ≠ 0)

def normalize (cfg : Config) : Config :=
  { cfg with
    listenAddr := normalizeAddr cfg.listenAddr
    tlsListenAddr := normalizeAddr cfg.tlsListenAddr
    wsListenAddr := normalizeAddr cfg.wsListenAddr
    wsTlsListenAddr := normalizeAddr cfg.wsTlsListenAddr }

/-- The two checks of a TLS listener: it needs both halves of a certificate, and either half needs it. -/
def validateTls (listener : String) (addr : Option SocketAddr) (cert key : Option String) : Reads Unit :=
  if addr.isSome && (cert.isNone || key.isNone) then fail (.missingCertificate listener)
  else if (cert.isSome || key.isSome) && addr.isNone then fail (.unusedCertificate listener)
  else .ok ()

def validate (cfg : Config) : Reads Unit := do
  validateTls "tls_listen_addr" cfg.tlsListenAddr cfg.tlsCert cfg.tlsKey
  validateTls "ws_tls_listen_addr" cfg.wsTlsListenAddr cfg.wsTlsCert cfg.wsTlsKey

inductive Startup where
  | run (cfg : Config)
  | hashPassword (user : Option String)
deriving DecidableEq

def fromCli (L : Parsers) (P : Protocol) (host : Host) (cli : Cli) : Reads Startup :=
  -- answered before the config file is read, which may be broken
  match cli.hashPassword with
  | some user => .ok (.hashPassword user)
  | none => do
    let cfg ← layered L P host cli
    let cfg := normalize cfg
    validate cfg
    return .run cfg

end WispMQ.Configuration
