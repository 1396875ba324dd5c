import WispMQ.Admin
import WispMQ.Restart
/-!
# What the tools answer

| here | there |
| --- | --- |
| `Served`   | the methods of `handle_rpc` and the tools of `call_tool` (admin.rs:331, :394) |
| `Answers`  | a response of JSON-RPC 2.0 to a request |
| `Answered` | the items of a batch, one after the other (admin.rs:317) |
| `Conforms` | what `handle_mcp_http` makes of a body (admin.rs:302) |

A body is answered as JSON-RPC asks for: one response for each request, in their order, and none for a notification. What a
request of a batch reports is about the state that it finds when its turn comes (`rpc_conforms`).

`broker_stats`, `list_clients` and `list_retained` go over the sessions and the retained messages each in its own way
(stats.rs:19, :114, :134), and still give one picture (`Pictures`).
-/

namespace WispMQ.Admin
open KeyMap WispMQ.Configuration

/-- The method of a request. -/
def methodOf (req : Json) : String := ((member req "method").bind Json.asStr).getD ""

/-- The tool a request calls. -/
def toolOf (req : Json) : Option String := ((member req "params").bind (member · "name")).bind Json.asStr

/-- There is such a method, and such a tool. -/
def Served (req : Json) : Prop :=
  methodOf req ∈ ["initialize", "ping", "tools/list"] ∨ methodOf req = "tools/call" ∧ ∃ name ∈ toolNames, toolOf req = some name

def errorCode (req : Json) : Int := if methodOf req = "tools/call" then -32602 else -32601

/-- The text of a tool's result. -/
def reportOf (resp : Json) : Option Json :=
  (((member resp "result").bind (member · "content")).bind Json.asArray).bind fun content =>
    content.head?.bind (member · "text")

/-- The response to a request, in the state `st`. -/
structure Answers (S : Serde) (c : Circumstances) (st : State) (req resp : Json) : Prop where
  version : member resp "jsonrpc" = some (.string "2.0")
  id : member resp "id" = member req "id"
  /-- There is a result or an error, and not both. -/
  either : (member resp "result").isSome = (member resp "error").isNone
  served : (member resp "result").isSome ↔ Served req
  code : ¬Served req → (member resp "error").bind (member · "code") = some (.integer (errorCode req))
  report : ∀ name payload st', methodOf req = "tools/call" → toolOf req = some name →
    toolPayload c name st = .ok (payload, st') →
    reportOf resp = some (.string ((S.toStringPretty payload).getD (S.toString payload)))

/-- Items are answered in their order, the notifications not at all. Each finds what the others have made of the state by
then, and leaves it as it is but for what has expired. -/
inductive Answered (S : Serde) : (Nat → Turn) → State → List Json → List Json → State → Prop where
  | done {turns : Nat → Turn} {st : State} : Answered S turns st [] [] st
  | request {turns : Nat → Turn} {st after final : State} {req resp : Json} {items resps : List Json}
      (answers : Answers S (turns 0).circumstances (st.turn (turns 0)) req resp) (id : (member req "id").isSome)
      (reads : Reads (turns 0).circumstances (st.turn (turns 0)) after)
      (rest : Answered S (fun i => turns (i + 1)) after items resps final) :
      Answered S turns st (req :: items) (resp :: resps) final
  | notification {turns : Nat → Turn} {st final : State} {item : Json} {items resps : List Json}
      (id : member item "id" = none) (rest : Answered S (fun i => turns (i + 1)) (st.turn (turns 0)) items resps final) :
      Answered S turns st (item :: items) resps final

/-- What a body is answered with, nothing, a response or a list of responses, and what becomes of the state. -/
def Conforms (S : Serde) (turns : Nat → Turn) (st : State) (body : Bytes) (answer : Option Json) (final : State) : Prop :=
  match S.fromSlice body with
  | .error _ => final = st ∧ ∃ resp, answer = some resp ∧ member resp "jsonrpc" = some (.string "2.0") ∧
      member resp "id" = some .null ∧ member resp "result" = none ∧
      (member resp "error").bind (member · "code") = some (.integer (-32700))
  | .ok (.array items) =>
    ∃ resps, Answered S turns st items resps final ∧ answer = if resps = [] then none else some (.array resps)
  | .ok req => ∃ resps, Answered S turns st [req] resps final ∧ answer = resps.head?

section Responses
variable {S : Serde} {c : Circumstances} {st st' : State} {req : Json}

theorem member_ok (id value : Json) : member (rpcResponse id (.ok value)) "jsonrpc" = some (.string "2.0") ∧
    member (rpcResponse id (.ok value)) "result" = some value ∧ member (rpcResponse id (.ok value)) "error" = none := by
  rw [rpcResponse]
  refine ⟨?_, ?_, ?_⟩ <;> rw [member_obj (by simp)] <;> simp [SortedMap.get]

theorem member_error (id : Json) (code : Int) (message : String) :
    member (rpcResponse id (.error (code, message))) "jsonrpc" = some (.string "2.0") ∧
    member (rpcResponse id (.error (code, message))) "result" = none ∧
    (member (rpcResponse id (.error (code, message))) "error").bind (member · "code") = some (.integer code) := by
  have herror : member (obj [("code", .integer code), ("message", .string message)]) "code" = some (.integer code) := by
    rw [member_obj (by simp)]
    simp [SortedMap.get]
  rw [rpcResponse]
  refine ⟨?_, ?_, ?_⟩
  · rw [member_obj (by simp)]
    simp [SortedMap.get]
  · rw [member_obj (by simp)]
    simp [SortedMap.get]
  · rw [member_obj (by simp)]
    simpa [SortedMap.get] using herror

/-! ## Methods and tools -/

theorem callTool_error {params : Option Json} {e : RpcError} (h : (callTool S c params st).1 = .error e) : e.1 = -32602 := by
  unfold callTool at h
  split at h
  · cases h
    rfl
  · rename_i name hname
    split at h
    · rename_i e' he
      cases h
      unfold toolPayload at he
      split at he
      · cases he
      · cases he
      · cases he
      · cases he
        rfl
    · cases h

/-- What is served has a result, and the rest an error with its code. -/
theorem rpcResult_served : (∃ value, (rpcResult S c req st).1 = .ok value) ↔ Served req := by
  have htool := @callTool_ok_iff S c st (member req "params")
  simp only [← bind_asStr_eq_some] at htool
  unfold rpcResult Served methodOf
  split
  · rename_i hmethod
    simp [hmethod]
  · rename_i hmethod
    simp [hmethod]
  · rename_i hmethod
    simp [hmethod]
  · rename_i hmethod
    rw [htool]
    simp [hmethod, toolOf]
  · rename_i h1 h2 h3 h4
    refine iff_of_false (by simp) ?_
    rintro (hmem | ⟨hcall, -⟩)
    · simp only [List.mem_cons, List.not_mem_nil, or_false] at hmem
      exact hmem.elim h1 fun h => h.elim h2 h3
    · exact h4 hcall

theorem rpcResult_code {e : RpcError} (h : (rpcResult S c req st).1 = .error e) : e.1 = errorCode req := by
  unfold rpcResult at h
  unfold errorCode methodOf
  split at h
  · cases h
  · cases h
  · cases h
  · rename_i hmethod
    rw [if_pos hmethod]
    exact callTool_error h
  · rename_i h4
    rw [if_neg h4]
    cases h
    rfl

/-- The text of a call is the report of the tool. -/
theorem report_callTool {name : String} {payload : Json} {params : Option Json} (id : Json)
    (hname : (params.bind (member · "name")).bind Json.asStr = some name) (h : toolPayload c name st = .ok (payload, st')) :
    reportOf (rpcResponse id (callTool S c params st).1) = some (.string ((S.toStringPretty payload).getD (S.toString payload))) := by
  have hcontent : ∀ text : String, (member (obj [("content", .array [obj [("type", .string "text"), ("text", .string text)]]),
      ("isError", .bool false)]) "content") = some (.array [obj [("type", .string "text"), ("text", .string text)]]) := by
    intro text
    rw [member_obj (by simp)]
    simp [SortedMap.get]
  have htext : ∀ text : String, member (obj [("type", .string "text"), ("text", .string text)]) "text" = some (.string text) := by
    intro text
    rw [member_obj (by simp)]
    simp [SortedMap.get]
  simp only [callTool, hname, h]
  rw [reportOf, (member_ok id _).2.1, Option.bind_some, hcontent, Option.bind_some]
  simp only [Json.asArray, Option.bind_some, List.head?_cons, htext]

theorem handleRpc_answers (hid : (member req "id").isSome) :
    ∃ resp, (handleRpc S c req st).1 = some resp ∧ Answers S c st req resp := by
  obtain ⟨id, hid⟩ := Option.isSome_iff_exists.1 hid
  refine ⟨rpcResponse id (rpcResult S c req st).1, by simp [handleRpc, hid], ?_⟩
  have hserved := @rpcResult_served S c st req
  have hmember := member_rpcResponse id (rpcResult S c req st).1
  have hreport : ∀ name payload st', methodOf req = "tools/call" → toolOf req = some name →
      toolPayload c name st = .ok (payload, st') → reportOf (rpcResponse id (rpcResult S c req st).1) =
        some (.string ((S.toStringPretty payload).getD (S.toString payload))) := by
    intro name payload st' hmethod htool hpayload
    rw [rpcResult, show ((member req "method").bind Json.asStr).getD "" = "tools/call" from hmethod]
    exact report_callTool id htool hpayload
  cases hresult : (rpcResult S c req st).1 with
  | ok value =>
    rw [hresult] at hserved hmember hreport
    obtain ⟨hversion, hvalue, herror⟩ := member_ok id value
    have hyes : Served req := hserved.1 ⟨value, rfl⟩
    exact ⟨hversion, hmember.trans hid.symm, by simp [hvalue, herror], iff_of_true (by simp [hvalue]) hyes,
      fun hno => absurd hyes hno, hreport⟩
  | error e =>
    rw [hresult] at hserved hmember hreport
    obtain ⟨hversion, hvalue, herror⟩ := member_error id e.1 e.2
    have hno : ¬Served req := fun h => by obtain ⟨value, hvalue⟩ := hserved.2 h; cases hvalue
    have hsome : (member (rpcResponse id (.error (e.1, e.2))) "error").isSome := by
      cases hnone : member (rpcResponse id (.error (e.1, e.2))) "error" with
      | none => rw [hnone] at herror; cases herror
      | some => rfl
    refine ⟨hversion, hmember.trans hid.symm, by simp [hvalue, hsome], iff_of_false (by simp [hvalue]) hno, fun _ => ?_,
      hreport⟩
    rw [← rpcResult_code hresult]
    exact herror

/-- One item, in front of what the others have been answered with. -/
theorem Answered.item {turns : Nat → Turn} {final : State} {item : Json} {items resps : List Json}
    (rest : Answered S (fun i => turns (i + 1)) (handleRpc S (turns 0).circumstances item (st.turn (turns 0))).2 items resps
      final) :
    Answered S turns st (item :: items)
      ((handleRpc S (turns 0).circumstances item (st.turn (turns 0))).1.toList ++ resps) final := by
  cases hid : member item "id" with
  | none =>
    simp only [handleRpc, hid, Option.toList_none, List.nil_append] at rest ⊢
    exact .notification hid rest
  | some id =>
    have hsome : (member item "id").isSome := by rw [hid]; rfl
    obtain ⟨resp, hresp, hanswers⟩ := @handleRpc_answers S (turns 0).circumstances (st.turn (turns 0)) item hsome
    rw [hresp]
    exact .request hanswers hsome (handleRpc_reads item) rest

/-- By induction on the items, each with the turns that are left. -/
theorem handleBatch_answered : ∀ (items : List Json) (turns : Nat → Turn) (st : State),
    Answered S turns st items (handleBatch S turns items st).1 (handleBatch S turns items st).2
  | [], _, _ => .done
  | _ :: items, _, _ => .item (handleBatch_answered items _ _)

end Responses

/-- **JSON-RPC**: whatever the body is, and whatever the other connections do meanwhile, it is answered as JSON-RPC 2.0 asks
for, and of itself it changes nothing but for what has expired. -/
theorem rpc_conforms (S : Serde) (turns : Nat → Turn) (body : Bytes) (st : State) :
    Conforms S turns st body (handleMcpHttp S turns body st).1 (handleMcpHttp S turns body st).2 := by
  unfold Conforms handleMcpHttp
  cases S.fromSlice body with
  | error e =>
    obtain ⟨hversion, hresult, hcode⟩ := member_error .null (-32700) s!"parse error: {e}"
    exact ⟨rfl, _, rfl, hversion, member_rpcResponse .null _, hresult, hcode⟩
  | ok v =>
    have hsingle : ∃ resps, Answered S turns st [v] resps (handleRpc S (turns 0).circumstances v (st.turn (turns 0))).2 ∧
        (handleRpc S (turns 0).circumstances v (st.turn (turns 0))).1 = resps.head? := by
      refine ⟨_, .item .done, ?_⟩
      cases (handleRpc S (turns 0).circumstances v (st.turn (turns 0))).1 with
      | none => rfl
      | some resp => rfl
    cases v with
    | array items =>
      refine ⟨(handleBatch S turns items st).1, handleBatch_answered items turns st, ?_⟩
      simp only [List.isEmpty_iff]
    | _ => exact hsingle

/-! ## One picture -/

/-- The gauges are the sums over the listings. -/
structure Pictures (s : Snapshot) (clients : List ClientInfo) (retained : List RetainedInfo) : Prop where
  total : s.clientsTotal = clients.length ∧ s.sessionsTotal = clients.length
  online : s.clientsConnected = clients.countP (·.online) ∧ s.clientsDisconnected = clients.countP (!·.online)
  subscriptions : s.subscriptionsTotal = (clients.map (·.subscriptions)).sum
  packetOut : s.packetOutCount = (clients.map fun i => i.queued + i.inflight).sum
  store : s.storeMessagesCount = retained.length + (clients.map fun i => i.queued + i.inflight).sum
  retained : s.retainedMessages = retained.length ∧ s.retainedBytes = (retained.map (·.payloadSize)).sum

section Listings
variable (st : State) (c : Circumstances)

theorem clients_perm : (st.clients c).Perm ((values st.broker.sessions).map ClientInfo.ofSession) :=
  (sortBy_perm _ _).trans ((reorder_perm _ _).map _)

/-- Whatever the listing adds up, the snapshot adds up as well. -/
theorem clients_sum (f : ClientInfo → Nat) :
    ((st.clients c).map f).sum = ((values st.broker.sessions).map fun s => f (.ofSession s)).sum := by
  rw [((clients_perm st c).map f).sum_eq, List.map_map]
  rfl

theorem clients_countP (p : ClientInfo → Bool) :
    (st.clients c).countP p = (values st.broker.sessions).countP fun s => p (.ofSession s) := by
  rw [(clients_perm st c).countP_eq, List.countP_map]
  rfl

theorem snapshot_pictures : Pictures (st.snapshot c).1 (st.clients c) (st.retainedInfos c) where
  total := ⟨st.snapshot_clientsTotal c, st.snapshot_clientsTotal c⟩
  online := by
    rw [clients_countP, clients_countP]
    exact ⟨rfl, rfl⟩
  subscriptions := by
    rw [clients_sum]
    rfl
  packetOut := by
    rw [clients_sum]
    rfl
  store := by
    rw [clients_sum, ← st.snapshot_retained c]
    rfl
  retained := ⟨st.snapshot_retained c, st.snapshot_retainedBytes c⟩

/-- A listing in order that has no key twice. -/
theorem sortBy_ascending {α : Type} {key : α → String} {l : List α} (h : (l.map key).Nodup) :
    ((sortBy key l).map key).Pairwise (· < ·) := by
  have hnodup : ((sortBy key l).map key).Nodup := ((sortBy_perm key l).map key).nodup_iff.2 h
  have hle : ((sortBy key l).map key).Pairwise (· ≤ ·) := List.pairwise_map.2 (sortBy_pairwise key l)
  exact (hle.and hnodup).imp fun hab => lt_of_le_of_ne hab.1 hab.2

/-- The sessions are under their client ids. -/
theorem clientIds_nodup (h : ∀ cid s, st.broker.sessions.lookup cid = some s → s.clientId = cid) :
    ((values st.broker.sessions).map (·.clientId)).Nodup := by
  have hkeys : (values st.broker.sessions).map (·.clientId) = st.broker.sessions.entries.map (·.1) := by
    rw [values, List.map_map]
    exact List.map_congr_left fun e he => h e.1 e.2 (mem_entries_iff.1 he)
  rw [hkeys]
  exact st.broker.sessions.nodupKeys

end Listings

/-- **The gauges and the listings give one picture**: whatever the order of the maps, the snapshot has what the listings add
up to, also when it is taken first and has dropped what has expired. In every state of a run the clients and the retained
messages are listed in order, and none of them twice. -/
theorem listings_agree (P : Protocol) (hP : P.ParseSpec) (now : Nat) (cfg : WispMQ.Config) (db : Db) (acl : Acl)
    (auth : Option Credentials) (ls : List Label) (st : State) (c c' : Circumstances) (hnow : c.now = c'.now)
    (hst : st.broker = (World.run P (World.boot P now cfg db acl auth) ls).1.broker) :
    Pictures (st.snapshot c).1 (st.clients c') (st.retainedInfos c') ∧
    ((st.snapshot c).2.clients c' = st.clients c' ∧ (st.snapshot c).2.retainedInfos c' = st.retainedInfos c') ∧
    ((st.clients c').map (·.clientId)).Pairwise (· < ·) ∧ ((st.retainedInfos c').map (·.topic)).Pairwise (· < ·) := by
  have hids := clientIds_nodup st fun cid s hs => ((World.run_tidy hP now cfg db acl auth ls).sessions cid s (hst ▸ hs)).clientId
  have hclients : st.clients c' = st.clients c := by
    refine sortBy_eq_of_perm (((reorder_perm _ _).trans (reorder_perm _ _).symm).map _) ?_
    rw [List.map_map]
    exact ((reorder_perm _ _).map _).nodup_iff.2 hids
  refine ⟨?_, ⟨rfl, ?_⟩, ?_, ?_⟩
  · rw [hclients, ← st.retainedInfos_orders hnow]
    exact snapshot_pictures st c
  · exact st.retainedInfos_purge c' hnow.le
  · refine sortBy_ascending ?_
    rw [List.map_map]
    exact ((reorder_perm _ _).map _).nodup_iff.2 hids
  · rw [State.retainedInfos_eq]
    refine sortBy_ascending ?_
    rw [List.map_map]
    exact st.broker.retained.nodupKeys.sublist List.filter_sublist

/-- A broker with one client, and a note it has left. -/
def noted : State :=
  { broker := (World.run .reference World.empty (World.connecting { clientId := "c", cleanStart := true } ++
      World.sending "c" 1 (.publish ⟨false, .atMostOnce, true, "t", none, {}, [1]⟩))).1.broker }

theorem listings_agree_noted :
    Pictures (noted.snapshot ⟨0, 0, {}⟩).1 (noted.clients ⟨0, 5, {}⟩) (noted.retainedInfos ⟨0, 5, {}⟩) ∧
      (noted.snapshot ⟨0, 0, {}⟩).1.clientsConnected = 1 ∧ (noted.snapshot ⟨0, 0, {}⟩).1.retainedBytes = 1 :=
  ⟨(listings_agree .reference parseSpec_reference 0 {} {} .permitAll none _ noted ⟨0, 0, {}⟩ ⟨0, 5, {}⟩ rfl rfl).1,
    by decide +kernel, by decide +kernel⟩

end WispMQ.Admin
