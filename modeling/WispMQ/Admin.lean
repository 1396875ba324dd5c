import WispMQ.AdminRequest
import WispMQ.Statistics
/-!
# The admin surface: `admin.rs`

| here | there |
| --- | --- |
| `tokensMatch`    | `tokens_match` (admin.rs:137) |
| `authorized`     | `authorized` (admin.rs:151) |
| `route`          | `route` (admin.rs:163) |
| `serveConn`      | `serve_conn` (admin.rs:96) |
| `handleMcpHttp`, `handleRpc` | `handle_mcp_http`, `handle_rpc` (admin.rs:302, :331) |
| `toolDefinitions`, `callTool` | `tool_definitions`, `call_tool` (admin.rs:372, :394) |
| `Serde`          | `serde_json`, which is not part of the repository |

The guard and the dispatch of `route` are two matches on method and path. What the guard lets through without a token is
answered from the request alone (`route_of_open`), and the rest only with it, so a response to anyone else is the same in
every state (`route_blind`).

Each item of a batch takes the lock and reads the clock for itself, and the other connections go on in between: a `Turn`.
-/

namespace WispMQ.Admin
open WispMQ.Configuration

/-! ## The token -/

/-- Every byte of the secret is compared, past the end of the candidate with 0. -/
def tokensMatch (a b : String) : Bool :=
  let a := a.toUTF8.toList
  let b := b.toUTF8.toList
  let diff : UInt8 := if a.length ≠ b.length then 1 else 0
  b.zipIdx.foldl (fun diff y => diff ||| (a.getD y.2 0 ^^^ y.1)) diff == 0

def authorized (st : State) (req : Request) : Bool :=
  match st.config.adminToken with
  | none => true
  | some expected => req.bearer.any fun got => tokensMatch got expected

/-! ## JSON-RPC -/

/-- What the handlers use of `serde_json`. -/
structure Serde where
  fromSlice : Bytes → Except String Json
  toVec : Json → Option Bytes
  toStringPretty : Json → Option String
  toString : Json → String

/-- `value.get(key)`. -/
def member (v : Json) (key : String) : Option Json := v.asObject.bind (SortedMap.get key)

/-- `json!` of an object. -/
def obj (entries : List (String × Json)) : Json := .object (SortedMap.ofList entries)

def count (n : Nat) : Json := .integer n

/-- `MCP_PROTOCOL_VERSION` (admin.rs:24). -/
def mcpProtocolVersion : String := "2024-11-05"

def serverName : String := "mqtt-broker"

def brokerStats (s : Snapshot) : Json :=
  obj
    [ ("connections_total", count s.connectionsTotal),
      ("packets_received", count s.packetsReceived),
      ("packets_sent", count s.packetsSent),
      ("bytes_received", count s.bytesReceived),
      ("bytes_sent", count s.bytesSent),
      ("publish_received", count s.publishReceived),
      ("publish_delivered", count s.publishDelivered),
      ("publish_dropped", count s.publishDropped),
      ("bridge_forwarded_out", count s.bridgeForwardedOut),
      ("bridge_forwarded_in", count s.bridgeForwardedIn),
      ("clients_connected", count s.clientsConnected),
      ("sessions_total", count s.sessionsTotal),
      ("retained_messages", count s.retainedMessages),
      ("subscriptions_total", count s.subscriptionsTotal),
      ("bridges_connected", count s.bridgesConnected),
      ("publish_bytes_received", count s.publishBytesReceived),
      ("publish_bytes_sent", count s.publishBytesSent),
      ("socket_connections", count s.socketConnections),
      ("clients_disconnected", count s.clientsDisconnected),
      ("clients_total", count s.clientsTotal),
      ("clients_maximum", count s.clientsMaximum),
      ("clients_expired", count s.clientsExpired),
      ("retained_bytes", count s.retainedBytes),
      ("shared_subscriptions_count", count s.sharedSubscriptionsCount),
      ("store_messages_count", count s.storeMessagesCount),
      ("store_messages_bytes", count s.storeMessagesBytes),
      ("packet_out_count", count s.packetOutCount),
      ("packet_out_bytes", count s.packetOutBytes),
      ("uptime_seconds", count s.uptimeSeconds),
      ("version", .string s.version) ]

def clientEntry (c : ClientInfo) : Json :=
  obj
    [ ("client_id", .string c.clientId),
      ("online", .bool c.online),
      ("subscriptions", count c.subscriptions),
      ("inflight", count c.inflight),
      ("queued", count c.queued),
      ("session_expiry", count c.sessionExpiry),
      ("persistent", .bool c.persistent) ]

def retainedEntry (r : RetainedInfo) : Json :=
  obj [("topic", .string r.topic), ("payload_size", count r.payloadSize), ("qos", count r.qos)]

def emptySchema : Json :=
  obj [("type", .string "object"), ("properties", obj []), ("additionalProperties", .bool false)]

def toolDefinition (name description : String) : Json :=
  obj [("name", .string name), ("description", .string description), ("inputSchema", emptySchema)]

def toolDefinitions : Json :=
  .array
    [ toolDefinition "broker_stats"
        ("Return broker counters and gauges (connections, packets, bytes, publishes, current " ++
          "clients/sessions/retained/subscriptions)."),
      toolDefinition "list_clients"
        "List all sessions with online status, subscription/inflight/queued counts and session expiry.",
      toolDefinition "list_retained" "List retained messages with their topic, payload size in bytes and QoS." ]

/-- A JSON-RPC error: its code and its message. -/
abbrev RpcError := Int × String

/-- What a tool reports, and the state after it. -/
def toolPayload (c : Circumstances) (name : String) (st : State) : Except RpcError (Json × State) :=
  match name with
  | "broker_stats" =>
    let (s, st) := st.snapshot c
    .ok (brokerStats s, st)
  | "list_clients" =>
    let clients := (st.clients c).map clientEntry
    .ok (obj [("clients", .array clients), ("count", count clients.length)], st)
  | "list_retained" =>
    let retained := (st.retainedInfos c).map retainedEntry
    .ok (obj [("retained", .array retained), ("count", count retained.length)], st)
  | other => .error (-32602, s!"unknown tool: {other}")

def callTool (S : Serde) (c : Circumstances) (params : Option Json) (st : State) : Except RpcError Json × State :=
  match (params.bind (member · "name")).bind Json.asStr with
  | none => (.error (-32602, "missing tool name"), st)
  | some name =>
    match toolPayload c name st with
    | .error e => (.error e, st)
    | .ok (payload, st) =>
      let text := (S.toStringPretty payload).getD (S.toString payload)
      let content := obj [("type", .string "text"), ("text", .string text)]
      (.ok (obj [("content", .array [content]), ("isError", .bool false)]), st)

/-- The result of `initialize`: the version the client asks for, if it asks for one. -/
def initializeResult (req : Json) : Json :=
  let version := (((member req "params").bind (member · "protocolVersion")).bind Json.asStr).getD mcpProtocolVersion
  obj
    [ ("protocolVersion", .string version),
      ("capabilities", obj [("tools", obj [("listChanged", .bool false)])]),
      ("serverInfo", obj [("name", .string serverName), ("version", .string Admin.version)]) ]

/-- What a method returns, and the state after it. -/
def rpcResult (S : Serde) (c : Circumstances) (req : Json) (st : State) : Except RpcError Json × State :=
  match ((member req "method").bind Json.asStr).getD "" with
  | "initialize" => (.ok (initializeResult req), st)
  | "ping" => (.ok (obj []), st)
  | "tools/list" => (.ok (obj [("tools", toolDefinitions)]), st)
  | "tools/call" => callTool S c (member req "params") st
  | other => (.error (-32601, s!"method not found: {other}"), st)

def rpcResponse (id : Json) : Except RpcError Json → Json
  | .ok value => obj [("jsonrpc", .string "2.0"), ("id", id), ("result", value)]
  | .error (code, message) =>
    obj [("jsonrpc", .string "2.0"), ("id", id), ("error", obj [("code", .integer code), ("message", .string message)])]

/-- A request without an `id` is a notification: it is acknowledged and not looked at. -/
def handleRpc (S : Serde) (c : Circumstances) (req : Json) (st : State) : Option Json × State :=
  match member req "id" with
  | none => (none, st)
  | some id =>
    let (result, st) := rpcResult S c req st
    (some (rpcResponse id result), st)

/-- What lies before a request takes the lock: the others' doings, with the broker and with the counters, and the
circumstances it then meets. -/
structure Turn where
  circumstances : Circumstances
  broker : Broker → Broker := id
  counters : Counters → Counters := id

def State.turn (st : State) (t : Turn) : State :=
  { st with broker := t.broker st.broker, counters := t.counters st.counters }

/-- Nobody else does anything, and no time passes. -/
def calm (c : Circumstances) : Nat → Turn := fun _ => { circumstances := c }

/-- The responses to a batch, in its order. -/
def handleBatch (S : Serde) : (Nat → Turn) → List Json → State → List Json × State
  | _, [], st => ([], st)
  | turns, item :: items, st =>
    let (response, st) := handleRpc S (turns 0).circumstances item (st.turn (turns 0))
    let (responses, st) := handleBatch S (fun i => turns (i + 1)) items st
    (response.toList ++ responses, st)

def handleMcpHttp (S : Serde) (turns : Nat → Turn) (body : Bytes) (st : State) : Option Json × State :=
  match S.fromSlice body with
  | .error e => (some (rpcResponse .null (.error (-32700, s!"parse error: {e}"))), st)
  | .ok (.array items) =>
    let (responses, st) := handleBatch S turns items st
    (if responses.isEmpty then none else some (.array responses), st)
  | .ok other => handleRpc S (turns 0).circumstances other (st.turn (turns 0))

/-! ## HTTP -/

/-- The status line, the content type and the body. -/
structure Response where
  status : String
  contentType : String
  body : Bytes
deriving DecidableEq

/-- The bytes of a text. -/
def utf8 (s : String) : Bytes := s.toUTF8.toList

def unauthorized : Response where
  status := "401 Unauthorized"
  contentType := "application/json"
  body := utf8 "\x7b\"error\":\"missing or invalid bearer token\"\x7d"

/-- Everything but CORS preflight, the liveness probes and the index (admin.rs:166-169). -/
def isProtected (req : Request) : Bool :=
  match req.method, req.path with
  | "OPTIONS", _ => false
  | "GET", "/health" | "GET", "/healthz" | "GET", "/" => false
  | _, _ => true

def route (S : Serde) (turns : Nat → Turn) (req : Request) (st : State) : Response × State :=
  if isProtected req && !authorized st req then (unauthorized, st)
  else
    match req.method, req.path with
    | "OPTIONS", _ => (⟨"204 No Content", "text/plain", []⟩, st)
    | "GET", "/health" | "GET", "/healthz" =>
      (⟨"200 OK", "application/json", utf8 "\x7b\"status\":\"ok\"\x7d"⟩, st)
    | "GET", "/metrics" =>
      let (s, st) := (st.turn (turns 0)).snapshot (turns 0).circumstances
      (⟨"200 OK", "text/plain; version=0.0.4", utf8 s.toPrometheus⟩, st)
    | "POST", "/mcp" =>
      match handleMcpHttp S turns req.body st with
      | (some v, st) => (⟨"200 OK", "application/json", (S.toVec v).getD []⟩, st)
      | (none, st) => (⟨"202 Accepted", "application/json", []⟩, st)
    | "GET", "/mcp" =>
      (⟨"405 Method Not Allowed", "application/json",
        utf8 "\x7b\"error\":\"use POST for JSON-RPC; SSE streaming is not supported\"\x7d"⟩, st)
    | "GET", "/" =>
      (⟨"200 OK", "text/plain", utf8 "mqtt-broker admin: GET /health, GET /metrics, POST /mcp\n"⟩, st)
    | _, _ => (⟨"404 Not Found", "application/json", utf8 "\x7b\"error\":\"not found\"\x7d"⟩, st)

/-- The response on the wire (admin.rs:109-132), with the challenge where the token is missing. -/
def Response.respond (r : Response) : Bytes :=
  let extra := if startsWith r.status "401" then "WWW-Authenticate: Bearer\r\n" else ""
  utf8 (s!"HTTP/1.1 {r.status}\r\nContent-Type: {r.contentType}\r\nContent-Length: {r.body.length}\r\n" ++
    "Access-Control-Allow-Origin: *\r\nAccess-Control-Allow-Methods: GET, POST, OPTIONS\r\n" ++
    "Access-Control-Allow-Headers: Authorization, Content-Type\r\n" ++ s!"{extra}Connection: close\r\n\r\n") ++ r.body

/-- What is written on a connection; `inTime`, whether the request was read before the timeout. -/
def serveConn (S : Serde) (turns : Nat → Turn) (inTime : Bool) (chunks : List Bytes) (st : State) : Bytes × State :=
  match inTime, (readRequest chunks).result with
  | true, .ok (some req) =>
    let (r, st) := route S turns req st
    (r.respond, st)
  | _, _ => ([], st)

/-! ## Comparing tokens -/

theorem or_eq_zero_iff (a b : UInt8) : a ||| b = 0 ↔ a = 0 ∧ b = 0 := by
  simp [← UInt8.toBitVec_inj]

/-- The accumulator stays 0 as long as the bytes agree. -/
theorem foldl_diff_eq_zero (a : Bytes) : ∀ (l : List (UInt8 × Nat)) (diff : UInt8),
    l.foldl (fun diff y => diff ||| (a.getD y.2 0 ^^^ y.1)) diff = 0 ↔ diff = 0 ∧ ∀ y ∈ l, a.getD y.2 0 = y.1
  | [], diff => by simp
  | y :: l, diff => by
    rw [List.foldl_cons, foldl_diff_eq_zero a l, or_eq_zero_iff, UInt8.xor_eq_zero_iff, List.forall_mem_cons, and_assoc]

theorem getD_zipIdx_iff {a b : Bytes} (hlen : a.length = b.length) :
    (∀ y ∈ b.zipIdx, a.getD y.2 0 = y.1) ↔ a = b := by
  constructor
  · intro h
    refine List.ext_getElem hlen fun i ha hb => ?_
    have hi : a.getD i 0 = b[i] := h (b[i], i) (List.mem_zipIdx_iff_getElem?.2 (List.getElem?_eq_getElem hb))
    rwa [List.getD_eq_getElem?_getD, List.getElem?_eq_getElem ha, Option.getD_some] at hi
  · rintro rfl y hy
    rw [List.getD_eq_getElem?_getD, List.mem_zipIdx_iff_getElem?.1 hy, Option.getD_some]

theorem toUTF8_toList_inj {a b : String} : a.toUTF8.toList = b.toUTF8.toList ↔ a = b := by
  rw [byteArray_toList, byteArray_toList, Array.toList_inj, ← ByteArray.ext_iff, String.toUTF8_eq_toByteArray,
    String.toUTF8_eq_toByteArray, String.toByteArray_inj]

theorem tokensMatch_iff {a b : String} : tokensMatch a b = true ↔ a = b := by
  rw [tokensMatch, beq_iff_eq, foldl_diff_eq_zero, ← toUTF8_toList_inj]
  by_cases hlen : a.toUTF8.toList.length = b.toUTF8.toList.length
  · simp only [hlen, ne_eq, not_true_eq_false, if_false, true_and, getD_zipIdx_iff hlen]
  · -- the accumulator starts at 1
    simp only [ne_eq, hlen, not_false_eq_true, if_true]
    exact iff_of_false (fun h => absurd h.1 (by decide)) fun h => hlen (congrArg _ h)

theorem authorized_iff {st : State} {req : Request} {t : String} (ht : st.config.adminToken = some t) :
    authorized st req = true ↔ req.bearer = some t := by
  simp only [authorized, ht, Option.any_eq_true, tokensMatch_iff, exists_eq_right]

theorem not_authorized {st : State} {req : Request} {t : String} (ht : st.config.adminToken = some t)
    (h : req.bearer ≠ some t) : authorized st req = false :=
  Bool.eq_false_iff.2 fun ha => h ((authorized_iff ht).1 ha)

/-! ## The guard and the dispatch -/

section Route
variable {S : Serde} {turns turns' : Nat → Turn} {req : Request} {st st' : State}

theorem route_of_not_authorized (hp : isProtected req = true) (h : authorized st req = false) :
    route S turns req st = (unauthorized, st) := by
  simp [route, hp, h]

theorem open_cases (hp : isProtected req = false) :
    req.method = "OPTIONS" ∨ req.method = "GET" ∧ (req.path = "/health" ∨ req.path = "/healthz" ∨ req.path = "/") := by
  unfold isProtected at hp
  split at hp
  · exact .inl ‹_›
  · exact .inr ⟨‹_›, .inl ‹_›⟩
  · exact .inr ⟨‹_›, .inr (.inl ‹_›)⟩
  · exact .inr ⟨‹_›, .inr (.inr ‹_›)⟩
  · cases hp

/-- What the guard lets through is answered from the request alone. -/
theorem route_of_open (hp : isProtected req = false) : route S turns req st = ((route S turns' req st').1, st) := by
  rcases open_cases hp with hm | ⟨hm, hpath | hpath | hpath⟩
  · simp [route, hp, hm]
  · simp [route, hp, hm, hpath]
  · simp [route, hp, hm, hpath]
  · simp [route, hp, hm, hpath]

/-- Two states that refuse the token answer alike. -/
theorem route_blind (h : authorized st req = false) (h' : authorized st' req = false) :
    (route S turns req st).1 = (route S turns' req st').1 := by
  cases hp : isProtected req with
  | false => rw [route_of_open hp]
  | true => rw [route_of_not_authorized hp h, route_of_not_authorized hp h']

/-- The status lines of the dispatch. -/
def statuses : List String := ["204 No Content", "200 OK", "202 Accepted", "405 Method Not Allowed", "404 Not Found"]

theorem route_status_mem (h : authorized st req = true) : (route S turns req st).1.status ∈ statuses := by
  simp only [route, h, Bool.not_true, Bool.and_false, Bool.false_eq_true, if_false]
  split
  · simp [statuses]
  · simp [statuses]
  · simp [statuses]
  · simp [statuses]
  · split
    · simp [statuses]
    · simp [statuses]
  · simp [statuses]
  · simp [statuses]
  · simp [statuses]

theorem statuses_ne_401 : ∀ s ∈ statuses, startsWith s "401" = false := by decide

end Route

/-! ## What a request changes -/

section Handlers
variable {S : Serde} {c : Circumstances} {st : State}

/-- The state, or what is left of it without the retained messages that have expired. -/
def Reads (c : Circumstances) (st st' : State) : Prop := st' = st ∨ st' = st.purge c.now

theorem Reads.refl : Reads c st st := .inl rfl

theorem toolPayload_reads {name : String} {payload : Json} {st' : State}
    (h : toolPayload c name st = .ok (payload, st')) : Reads c st st' := by
  unfold toolPayload at h
  split at h
  · obtain ⟨-, rfl⟩ := Prod.mk.inj (Except.ok.inj h)
    exact .inr rfl
  · obtain ⟨-, rfl⟩ := Prod.mk.inj (Except.ok.inj h)
    exact .refl
  · obtain ⟨-, rfl⟩ := Prod.mk.inj (Except.ok.inj h)
    exact .refl
  · cases h

theorem callTool_reads (params : Option Json) : Reads c st (callTool S c params st).2 := by
  unfold callTool
  split
  · exact .refl
  · split
    · exact .refl
    · rename_i h
      exact toolPayload_reads h

theorem rpcResult_reads (req : Json) : Reads c st (rpcResult S c req st).2 := by
  unfold rpcResult
  split
  · exact .refl
  · exact .refl
  · exact .refl
  · exact callTool_reads _
  · exact .refl

theorem handleRpc_reads (req : Json) : Reads c st (handleRpc S c req st).2 := by
  unfold handleRpc
  split
  · exact .refl
  · exact rpcResult_reads req

/-! ## Responses and tools -/

theorem member_obj {entries : List (String × Json)} (h : (entries.map Prod.fst).Nodup) (key : String) :
    member (obj entries) key = SortedMap.get key entries :=
  SortedMap.get_ofList h

theorem member_rpcResponse (id : Json) (result : Except RpcError Json) :
    member (rpcResponse id result) "id" = some id := by
  cases result with
  | ok value =>
    rw [rpcResponse, member_obj (by simp)]
    simp [SortedMap.get]
  | error e =>
    rw [rpcResponse, member_obj (by simp)]
    simp [SortedMap.get]

/-- The names in the catalogue. -/
def toolNames : List String :=
  (toolDefinitions.asArray.getD []).filterMap fun tool => (member tool "name").bind Json.asStr

theorem toolPayload_ok_iff {name : String} : (∃ r, toolPayload c name st = .ok r) ↔ name ∈ toolNames := by
  have hnames : toolNames = ["broker_stats", "list_clients", "list_retained"] := by decide +kernel
  rw [hnames]
  unfold toolPayload
  split
  · simp
  · simp
  · simp
  · rename_i h1 h2 h3
    simpa using ⟨h1, h2, h3⟩

theorem bind_asStr_eq_some {a : Option Json} {s : String} : a.bind Json.asStr = some s ↔ a = some (.string s) := by
  constructor
  · intro h
    obtain ⟨v, rfl, hv⟩ := Option.bind_eq_some_iff.1 h
    cases v with
    | string s' => exact congrArg (some ∘ Json.string) (Option.some.inj hv)
    | _ => cases hv
  · rintro rfl
    rfl

/-- The tools that can be called are those that are advertised. -/
theorem callTool_ok_iff {params : Option Json} :
    (∃ r, (callTool S c params st).1 = .ok r) ↔
      ∃ name ∈ toolNames, params.bind (member · "name") = some (.string name) := by
  simp only [← bind_asStr_eq_some, ← @toolPayload_ok_iff c st]
  unfold callTool
  split
  · rename_i h
    simp [h]
  · rename_i name h
    split
    · rename_i e he
      simp [h, he]
    · rename_i payload st' he
      simp [h, he]

end Handlers

/-! ## Without the token -/

/-- A connection on which the token is not sent gets the same bytes from any two brokers that ask for it. -/
theorem serveConn_blind {S : Serde} {turns turns' : Nat → Turn} {inTime : Bool} {chunks : List Bytes} {st st' : State}
    {t : String} (h : ∀ req, (readRequest chunks).result = .ok (some req) → req.bearer ≠ some t)
    (ht : st.config.adminToken = some t) (ht' : st'.config.adminToken = some t) :
    (serveConn S turns inTime chunks st).1 = (serveConn S turns' inTime chunks st').1 := by
  unfold serveConn
  split
  · rename_i req hread
    have hne := h req hread
    exact congrArg Response.respond (route_blind (not_authorized ht hne) (not_authorized ht' hne))
  · rfl

/-- Without the token the response depends neither on the state nor on what the others do meanwhile, and with it the
response is not a refusal. -/
theorem route_discloses_nothing (S : Serde) (t : String) (req : Request) :
    (req.bearer.map String.toUTF8 ≠ some t.toUTF8 → ∀ (turns turns' : Nat → Turn) (st st' : State),
      st.config.adminToken = some t → st'.config.adminToken = some t →
        (route S turns req st).1 = (route S turns' req st').1) ∧
    (req.bearer = some t → ∀ (turns : Nat → Turn) (st : State), st.config.adminToken = some t →
      startsWith (route S turns req st).1.status "401" = false) ∧
    ∀ a b : String, tokensMatch a b = true ↔ a = b := by
  refine ⟨?_, ?_, fun a b => tokensMatch_iff⟩
  · intro hbytes turns turns' st st' ht ht'
    have hne : req.bearer ≠ some t := fun h => hbytes (by rw [h, Option.map_some])
    exact route_blind (not_authorized ht hne) (not_authorized ht' hne)
  · intro hbearer turns st ht
    exact statuses_ne_401 _ (route_status_mem ((authorized_iff ht).2 hbearer))

/-- `serde_json` as it treats an empty batch. -/
def emptyBatch : Serde where
  fromSlice bytes := if bytes = utf8 "[]" then .ok (.array []) else .error "EOF while parsing a value at line 1 column 0"
  toVec _ := some (utf8 "[]")
  toStringPretty _ := some "[]"
  toString _ := "[]"

/-- A broker that has accepted `n` connections. -/
def accepted (n : Nat) : State :=
  { config := { adminToken := some "s3cr3t" }, broker := { metrics := { connectionsTotal := n } } }

/-- A batch posted with a bearer token, or without. -/
def postBatch (bearer : Option String) : Request := { method := "POST", path := "/mcp", body := utf8 "[]", bearer }

theorem route_discloses_nothing_postBatch :
    (route emptyBatch (calm ⟨0, 0, {}⟩) (postBatch none) (accepted 0)).1 =
        (route emptyBatch (calm ⟨5, 5, {}⟩) (postBatch none) (accepted 7)).1 ∧
      startsWith (route emptyBatch (calm ⟨0, 0, {}⟩) (postBatch (some "s3cr3t")) (accepted 7)).1.status "401" = false := by
  obtain ⟨hblind, -, -⟩ := route_discloses_nothing emptyBatch "s3cr3t" (postBatch none)
  obtain ⟨-, haccepted, -⟩ := route_discloses_nothing emptyBatch "s3cr3t" (postBatch (some "s3cr3t"))
  exact ⟨hblind (by simp [postBatch]) _ _ _ _ rfl rfl, haccepted rfl _ _ rfl⟩

end WispMQ.Admin
