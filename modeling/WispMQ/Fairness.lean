import WispMQ.Fanout
import WispMQ.Frame
import Mathlib.Data.Int.CardIntervalMod
/-!
# The turns of a shared group

`route` gives every shared group a cursor, takes the member it points to and moves it on (routing.rs:98-108). The cursors are
kept apart from the sessions, and the members are collected anew for every message, in the order of the pass.

| here | there |
| --- | --- |
| `RouteCall`       | a call of `Broker::route` (routing.rs:16), with the state it is made in |
| `World.calls`     | the calls of one step: `handle_publish` (publish.rs:138-185), `schedule_will` (lifecycle.rs:172), `inject_publish` and `publish_sys` (bridges.rs:66, :97) |
| `RouteCall.members` | the candidates of a group (routing.rs:54-70) |
| `RouteCall.pick`  | `*cursor % candidates.len()` (routing.rs:105) |

`Follows` says that nothing but `route` moves a cursor. In a run that routes fewer than 2^64 messages to a group its cursor
counts them (`cursors_count`), so as long as its members stay the same they take turns (`shared_fair`).
-/

namespace WispMQ
open KeyMap

/-- A call of `route`. -/
structure RouteCall where
  broker : Broker
  now : Nat
  ord : Orders
  publisher : Option String
  message : Message

/-- The cursor of a group, 0 before its first message. -/
def Broker.cursor (b : Broker) (group : String × String) : Nat := (b.sharedRr.lookup group).getD 0

namespace RouteCall
variable (P : Protocol) (r : RouteCall) (group : String × String)

def result : Broker × Bool := route P r.now r.ord r.broker r.publisher r.message

/-- The sessions in the order the pass meets them. -/
def visited : List (Σ _ : String, Session) := reorder r.ord.sessions r.broker.sessions.entries

/-- The eligible members of the group, in the order of the pass; an expired message has none. -/
def members : List (String × Subscription) :=
  if r.message.isExpired r.now then []
  else r.visited.flatMap fun e => (Broker.inGroup P r.publisher r.message group e.1 e.2.subscriptions).map (e.1, ·)

/-- The message is routed to the group. -/
def serves : Bool := !(r.members P group).isEmpty

/-- The position of the member whose turn it is. -/
def pick : Nat := r.broker.cursor group % (r.members P group).length

end RouteCall

/-! ## The calls of a step -/

namespace Broker
variable (P : Protocol)

/-- The call of `routePublish`. -/
def routePublishCalls (now : Nat) (ord : Orders) (b : Broker) (cid : String) (s : Session) (publish : Publish)
    (message : Message) : List RouteCall :=
  match publish.qos with
  | .atMostOnce | .atLeastOnce => [⟨b, now, ord, some cid, message⟩]
  | .exactlyOnce =>
    if publish.packetId.getD 0 ∈ s.inboundQos2 then []
    else [⟨b.setSession cid { s with inboundQos2 := insert (publish.packetId.getD 0) s.inboundQos2 }, now, ord, some cid,
      message⟩]

/-- The call of `acceptPublish`. -/
def acceptPublishCalls (now : Nat) (ord : Orders) (b : Broker) (cid : String) (epoch : Nat) (s : Session)
    (publish : Publish) : List RouteCall :=
  if !P.validTopicName publish.topic then []
  else if startsWith publish.topic sysPrefix then []
  else if b.acl.isEnforced && !b.acl.canPublish P (who s.identity) publish.topic then []
  else
    let message := Message.fromPublish now publish
    routePublishCalls now ord (b.storeRetained (.publish cid epoch) message).1 cid s publish message

/-- The call of `handlePublish`. -/
def handlePublishCalls (now : Nat) (ord : Orders) (b : Broker) (cid : String) (epoch : Nat) (publish : Publish) :
    List RouteCall :=
  let b := { b with metrics.publishReceived := b.metrics.publishReceived + 1 }
  if publish.qos.asU8 > b.config.maximumQos.asU8 then []
  else if publish.retain && !b.config.retainAvailable then []
  else
    match b.sessions.lookup cid with
    | none => []
    | some s =>
      if s.epoch = epoch then
        match resolveAlias b.config s publish with
        | .error _ => []
        | .ok (s, publish) => acceptPublishCalls P now ord (b.setSession cid s) cid epoch s publish
      else []

/-- The calls of `publishSys`. -/
def publishSysCalls (now : Nat) (ord : Orders) : List (String × Bytes) → Broker → List RouteCall
  | [], _ => []
  | (topic, payload) :: es, b =>
    let m := sysMessage topic payload
    let b := { b with retained := b.retained.insert topic m }
    ⟨b, now, ord, none, m⟩ :: publishSysCalls now ord es (route P now ord b none m).1

end Broker

namespace World
open Broker
variable (P : Protocol)

/-- The calls of `route` in a step, in order. -/
def calls (w : World) (l : Label) : List RouteCall :=
  match l.input with
  | .call (.publishSys entries) => publishSysCalls P l.now l.ord entries w.broker
  | .call (.injectPublish name m) =>
    [⟨(w.broker.storeRetained (.bridge (bridgeClient name)) m).1, l.now, l.ord, some (bridgeClient name), m⟩]
  | input =>
    match w.selected input with
    | some (.dispatch cid epoch (.publish p)) => handlePublishCalls P l.now l.ord w.broker cid epoch p
    | some (.willPublish cid epoch m) => [⟨(w.broker.storeRetained (.will cid epoch) m).1, l.now, l.ord, none, m⟩]
    | _ => []

/-- The calls of a run. -/
def runCalls : World → List Label → List RouteCall
  | _, [] => []
  | w, l :: ls => calls P w l ++ runCalls (step P w l).1 ls

end World

/-! ## Nothing else moves a cursor -/

/-- The message an effect hands to `route`. -/
def Effect.routedMessage : Effect → Option Message
  | .routed _ m => some m
  | _ => none

/-- Between the calls `rs`, on the way from `b` to `b'`, the cursors stay as they are. -/
def Follows (P : Protocol) : Broker → List RouteCall → Broker → Prop
  | b, [], b' => b'.sharedRr = b.sharedRr
  | b, r :: rs, b' => r.broker.sharedRr = b.sharedRr ∧ Follows P (r.result P).1 rs b'

/-- The outcome of a critical section whose calls of `route` are `rs`. -/
structure Outcome.Calls (P : Protocol) (b : Broker) (rs : List RouteCall) (o : Outcome) : Prop where
  follows : Follows P b rs o.broker
  routed : o.effects.filterMap Effect.routedMessage = rs.map (·.message)

theorem Follows.congr {P : Protocol} {rs : List RouteCall} {b b₁ b' : Broker} (h : Follows P b₁ rs b')
    (hb : b₁.sharedRr = b.sharedRr) : Follows P b rs b' := by
  cases rs with
  | nil => exact Eq.trans h hb
  | cons r rs => exact ⟨h.1.trans hb, h.2⟩

theorem Outcome.Calls.congr {P : Protocol} {rs : List RouteCall} {b b₁ : Broker} {o : Outcome} (h : o.Calls P b₁ rs)
    (hb : b₁.sharedRr = b.sharedRr) : o.Calls P b rs := ⟨h.follows.congr hb, h.routed⟩

theorem Follows.append {P : Protocol} : ∀ {rs rs' : List RouteCall} {b b' b'' : Broker}, Follows P b rs b' →
    Follows P b' rs' b'' → Follows P b (rs ++ rs') b''
  | [], _, _, _, _, h, h' => h'.congr h
  | _ :: _, _, _, _, _, h, h' => ⟨h.1, h.2.append h'⟩

namespace Broker
variable {P : Protocol} {now : Nat} {ord : Orders} {b : Broker} {cid : String} {epoch : Nat}

theorem sharedRr_of_apart {b b' : Broker} (h : b'.apart = b.apart) : b'.sharedRr = b.sharedRr := congrArg Prod.fst h

theorem storeRetained_routed (b : Broker) (origin : Origin) (m : Message) :
    (b.storeRetained origin m).2.filterMap Effect.routedMessage = [] := by
  unfold storeRetained
  split
  · split <;> rfl
  · rfl

theorem publishMessage_calls (b : Broker) (origin : Origin) (publisher : Option String) (m : Message) :
    (publishMessage P now ord b origin publisher m).Calls P b [⟨(b.storeRetained origin m).1, now, ord, publisher, m⟩] where
  follows := ⟨sharedRr_of_apart (storeRetained_apart ..), rfl⟩
  routed := by
    rw [publishMessage, List.filterMap_append, storeRetained_routed]
    rfl

theorem publishSys_calls : ∀ (es : List (String × Bytes)) (b : Broker),
    (publishSys P now ord es b).Calls P b (publishSysCalls P now ord es b)
  | [], _ => ⟨rfl, rfl⟩
  | (topic, payload) :: es, b => by
    obtain ⟨hfollows, hrouted⟩ := publishSys_calls es
      (route P now ord { b with retained := b.retained.insert topic (sysMessage topic payload) } none
        (sysMessage topic payload)).1
    exact ⟨⟨rfl, hfollows⟩, congrArg (sysMessage topic payload :: ·) hrouted⟩

theorem routePublish_calls (s : Session) (publish : Publish) (m : Message) :
    Follows P b (routePublishCalls now ord b cid s publish m) (routePublish P now ord b cid epoch s publish m).1 ∧
      (routePublish P now ord b cid epoch s publish m).2.filterMap Effect.routedMessage =
        (routePublishCalls now ord b cid s publish m).map (·.message) := by
  unfold routePublish routePublishCalls
  cases publish.qos with
  | atMostOnce => exact ⟨⟨rfl, rfl⟩, rfl⟩
  | atLeastOnce => exact ⟨⟨rfl, sharedRr_of_apart (acknowledge_apart ..)⟩, rfl⟩
  | exactlyOnce =>
    simp only
    split
    · exact ⟨sharedRr_of_apart (acknowledge_apart ..), rfl⟩
    · exact ⟨⟨rfl, sharedRr_of_apart (acknowledge_apart ..)⟩, rfl⟩

theorem acceptPublish_calls (s : Session) (publish : Publish) :
    (acceptPublish P now ord b cid epoch s publish).Calls P b (acceptPublishCalls P now ord b cid epoch s publish) := by
  unfold acceptPublish acceptPublishCalls
  split
  · exact ⟨rfl, rfl⟩
  split
  · exact ⟨rfl, rfl⟩
  split
  · exact ⟨sharedRr_of_apart (acknowledge_apart ..), rfl⟩
  · obtain ⟨hfollows, hrouted⟩ := @routePublish_calls P now ord
      (b.storeRetained (.publish cid epoch) (Message.fromPublish now publish)).1 cid epoch s publish
      (Message.fromPublish now publish)
    refine ⟨hfollows.congr (sharedRr_of_apart (storeRetained_apart ..)), ?_⟩
    rw [List.filterMap_append, List.filterMap_append, storeRetained_routed, hrouted]
    exact List.append_nil _

theorem handlePublish_calls (publish : Publish) :
    (handlePublish P now ord b cid epoch publish).Calls P b (handlePublishCalls P now ord b cid epoch publish) := by
  unfold handlePublish handlePublishCalls fenced
  simp only
  split
  · exact ⟨rfl, rfl⟩
  split
  · exact ⟨rfl, rfl⟩
  cases b.sessions.lookup cid with
  | none => exact ⟨rfl, rfl⟩
  | some s =>
    by_cases he : s.epoch = epoch
    · simp only [he, if_true]
      cases resolveAlias b.config s publish with
      | error rc => exact ⟨rfl, rfl⟩
      | ok r => exact (acceptPublish_calls r.1 r.2).congr rfl
    · simp only [he, if_false]
      exact ⟨rfl, rfl⟩

theorem enter_sharedRr {clock : Nat} {c : Call} (hsys : ∀ es, c ≠ .publishSys es)
    (hinject : ∀ name m, c ≠ .injectPublish name m) : (enter P clock now ord b c).broker.sharedRr = b.sharedRr := by
  by_cases hconnect : ∃ connect identity, c = .connect connect identity
  · obtain ⟨connect, identity, rfl⟩ := hconnect
    obtain ⟨n, hn⟩ := startConnect_frame (P := P) now b connect {} identity
    rw [enter, hn]
  · simp only [not_exists] at hconnect
    exact sharedRr_of_apart (enter_apart hconnect hsys hinject)

/-- A section that leaves the cursors and publishes nothing. -/
theorem calls_quiet {o : Outcome} (h : o.broker.sharedRr = b.sharedRr) (he : ∀ e ∈ o.effects, e.isPublishing = false) :
    o.Calls P b [] := by
  refine ⟨h, ?_⟩
  rw [List.map_nil, List.filterMap_eq_nil_iff]
  intro e hmem
  have hquiet := he e hmem
  cases e <;> first | rfl | cases hquiet

end Broker

namespace World
open Broker
variable {P : Protocol} {w : World} {l : Label}

theorem runTask_calls {t : Task} (hsel : w.selected l.input = some t) :
    (runTask P l.now l.ord w.broker t).Calls P w.broker (calls P w l) := by
  have hcalls : calls P w l = match some t with
      | some (.dispatch cid epoch (.publish p)) => handlePublishCalls P l.now l.ord w.broker cid epoch p
      | some (.willPublish cid epoch m) => [⟨(w.broker.storeRetained (.will cid epoch) m).1, l.now, l.ord, none, m⟩]
      | _ => [] := by
    rw [← hsel]
    unfold calls
    split
    · rename_i hin
      rw [hin] at hsel
      cases hsel
    · rename_i hin
      rw [hin] at hsel
      cases hsel
    · rfl
  rw [hcalls]
  cases hp : t.publishes with
  | false =>
    have hapart : (runTask P l.now l.ord w.broker t).broker.apart = w.broker.apart := runTask_apart hp
    have hquiet := calls_quiet (P := P) (sharedRr_of_apart hapart)
      (runTask_quiet l.now l.ord w.broker hp).2
    cases t with
    | dispatch cid epoch packet =>
      cases packet with
      | publish p => cases hp
      | _ => exact hquiet
    | willPublish cid epoch m => cases hp
    | _ => exact hquiet
  | true =>
    cases t with
    | dispatch cid epoch packet =>
      cases packet with
      | publish p => exact handlePublish_calls p
      | _ => cases hp
    | willPublish cid epoch m => exact publishMessage_calls ..
    | _ => cases hp

theorem enter_calls {c : Call} (hin : l.input = .call c) :
    (enter P w.clock l.now l.ord w.broker c).Calls P w.broker (calls P w l) := by
  have hquiet : (∀ es, c ≠ .publishSys es) → (∀ name m, c ≠ .injectPublish name m) →
      (enter P w.clock l.now l.ord w.broker c).Calls P w.broker [] := fun hsys hinject =>
    calls_quiet (enter_sharedRr hsys hinject) (enter_quiet w.clock l.now l.ord w.broker hsys hinject).1
  unfold calls
  rw [hin]
  cases c with
  | publishSys es => exact publishSys_calls es w.broker
  | injectPublish name m => exact publishMessage_calls ..
  | _ => exact hquiet (by simp) (by simp)

/-- **The calls of a step**: they are the messages it routes, and the cursors change by them alone. -/
theorem step_calls (P : Protocol) (w : World) (l : Label) :
    Follows P w.broker (calls P w l) (step P w l).1.broker ∧
      (step P w l).2.filterMap Effect.routedMessage = (calls P w l).map (·.message) := by
  cases hin : l.input with
  | call c =>
    have h := enter_calls (P := P) (w := w) hin
    simp only [step, hin, absorb]
    exact ⟨h.follows, h.routed⟩
  | task i =>
    cases hsel : w.selected (.task i) with
    | none =>
      simp only [step, hin, hsel, calls]
      exact ⟨rfl, rfl⟩
    | some t =>
      have h := runTask_calls (P := P) (l := l) (hin ▸ hsel)
      simp only [step, hin, hsel, absorb]
      exact ⟨h.follows, h.routed⟩
  | sleep secs =>
    simp only [step, hin, calls, selected]
    exact ⟨rfl, rfl⟩
  | recv cid epoch =>
    simp only [step, hin, calls, selected]
    exact ⟨sharedRr_of_apart (modifySession_apart ..), rfl⟩
  | hangup cid epoch =>
    simp only [step, hin, calls, selected]
    exact ⟨sharedRr_of_apart (modifySession_apart ..), rfl⟩

theorem run_follows (P : Protocol) : ∀ (ls : List Label) (w : World), Follows P w.broker (runCalls P w ls) (run P w ls).1.broker
  | [], _ => rfl
  | l :: ls, w => (step_calls P w l).1.append (run_follows P ls (step P w l).1)

theorem runCalls_append (P : Protocol) : ∀ (ls ls' : List Label) (w : World),
    runCalls P w (ls ++ ls') = runCalls P w ls ++ runCalls P (run P w ls).1 ls'
  | [], _, _ => rfl
  | l :: ls, ls', w => by
    rw [List.cons_append, runCalls, runCalls_append P ls ls' (step P w l).1, runCalls, List.append_assoc]
    rfl

end World

/-! ## The member at the cursor -/

namespace RouteCall
open Broker
variable {P : Protocol} {r : RouteCall} {group : String × String}

theorem candidates_eq (hm : r.message.isExpired r.now = false) :
    candidates P r.publisher r.message group (reorder r.ord.sessions r.broker.sessions.entries) =
      (r.members P group).map fun x => candidate r.message x.1 x.2 := by
  simp only [members, hm, Bool.false_eq_true, if_false, candidates, visited, List.map_flatMap, List.map_map]
  rfl

/-- What a call makes of a group: it moves its cursor on and serves the member at it, if it has one. -/
theorem result_group (hm : r.message.isExpired r.now = false) :
    ∃ picks, Fanout P r.now r.broker r.publisher r.message
        (fun cid => ordinary P r.publisher r.message cid (r.broker.subsOf cid)) picks (r.result P) ∧
      (group ∈ picks.map Prod.fst ↔ r.serves P group) ∧
      ∀ c, (group, c) ∈ picks → ((r.members P group)[r.pick P group]?).map (fun x => candidate r.message x.1 x.2) = some c := by
  obtain ⟨picks, hfan, hpick⟩ := @route_fanout P r.publisher r.message r.now hm r.ord r.broker
  have hturn : ∀ c, (group, c) ∈ picks →
      ((r.members P group)[r.pick P group]?).map (fun x => candidate r.message x.1 x.2) = some c := by
    intro c hc
    have h := hpick _ hc
    rw [candidates_eq hm, List.length_map, List.getElem?_map] at h
    exact h
  refine ⟨picks, hfan, ⟨fun h => ?_, fun h => ?_⟩, hturn⟩
  · obtain ⟨⟨g, c⟩, hmem, hg⟩ := List.mem_map.1 h
    have hc : (group, c) ∈ picks := hg ▸ hmem
    cases hnil : r.members P group with
    | nil => simpa [hnil] using hturn c hc
    | cons x xs => simp [serves, hnil]
  · obtain ⟨x, hx⟩ := List.exists_mem_of_ne_nil (r.members P group) (by simpa [serves] using h)
    have hc : candidate r.message x.1 x.2 ∈
        candidates P r.publisher r.message group (reorder r.ord.sessions r.broker.sessions.entries) := by
      rw [candidates_eq hm]
      exact List.mem_map_of_mem hx
    obtain ⟨sub, hsub, -⟩ := mem_candidates.1 hc
    exact hfan.served group _ sub hsub

theorem members_expired (hm : r.message.isExpired r.now = true) : r.members P group = [] := by
  simp [members, hm]

theorem result_cursor (P : Protocol) (r : RouteCall) (group : String × String) : (r.result P).1.cursor group =
    if r.serves P group then (r.broker.cursor group + 1) % 2 ^ 64 else r.broker.cursor group := by
  cases hm : r.message.isExpired r.now with
  | true => simp [serves, members_expired hm, result, route, hm]
  | false =>
    obtain ⟨picks, hfan, hserves, -⟩ := @result_group P r group hm
    rw [cursor, hfan.cursors group]
    by_cases h : r.serves P group
    · rw [if_pos (hserves.2 h), if_pos h]
      rfl
    · rw [if_neg (fun hin => h (hserves.1 hin)), if_neg h]
      rfl

/-- **One member is served**, the one whose turn it is. -/
theorem served (h : r.serves P group) :
    ∃ x, (r.members P group)[r.pick P group]? = some x ∧ ∃ picks,
      Fanout P r.now r.broker r.publisher r.message
          (fun cid => ordinary P r.publisher r.message cid (r.broker.subsOf cid)) picks (r.result P) ∧
        ∀ c, (group, c) ∈ picks ↔ c = candidate r.message x.1 x.2 := by
  have hm : r.message.isExpired r.now = false := by
    by_contra hm
    rw [Bool.not_eq_false] at hm
    simp [serves, members_expired hm] at h
  obtain ⟨picks, hfan, hserves, hturn⟩ := @result_group P r group hm
  obtain ⟨⟨g, c⟩, hmem, hg⟩ := List.mem_map.1 (hserves.2 h)
  have hc : (group, c) ∈ picks := hg ▸ hmem
  obtain ⟨x, hx, rfl⟩ := Option.map_eq_some_iff.1 (hturn c hc)
  refine ⟨x, hx, picks, hfan, fun c' => ⟨fun hc' => ?_, fun hc' => hc' ▸ hc⟩⟩
  have h' := hturn c' hc'
  rw [hx] at h'
  exact (Option.some.inj h').symm

end RouteCall

/-- The cursor counts the messages that are routed to the group. -/
theorem cursors_count {P : Protocol} (group : String × String) : ∀ {rs : List RouteCall} {b b' : Broker}, Follows P b rs b' →
    b.cursor group + rs.countP (·.serves P group) ≤ 2 ^ 64 →
    (rs.filter (·.serves P group)).map (·.broker.cursor group) =
      List.range' (b.cursor group) (rs.countP (·.serves P group))
  | [], _, _, _, _ => rfl
  | r :: rs, b, b', h, hfew => by
    have hcur : r.broker.cursor group = b.cursor group := by rw [Broker.cursor, h.1, Broker.cursor]
    have hnext := RouteCall.result_cursor P r group
    by_cases hs : r.serves P group
    · rw [if_pos hs] at hnext
      have hcount : (r :: rs).countP (·.serves P group) = rs.countP (·.serves P group) + 1 := List.countP_cons_of_pos hs
      have hfilter : (r :: rs).filter (·.serves P group) = r :: rs.filter (·.serves P group) := List.filter_cons_of_pos hs
      rw [hcount] at hfew ⊢
      rw [hfilter, List.map_cons, List.range'_succ, hcur]
      -- the cursor may wrap after the last of them
      cases hrest : rs.countP (·.serves P group) with
      | zero => simpa using hrest
      | succ k =>
        rw [hrest] at hfew
        rw [hcur, Nat.mod_eq_of_lt (by omega)] at hnext
        have ih := cursors_count group h.2 (by rw [hnext, hrest]; omega)
        rw [hnext, hrest] at ih
        rw [ih]
    · rw [if_neg hs, hcur] at hnext
      have hcount : (r :: rs).countP (·.serves P group) = rs.countP (·.serves P group) := List.countP_cons_of_neg hs
      have hfilter : (r :: rs).filter (·.serves P group) = rs.filter (·.serves P group) := List.filter_cons_of_neg hs
      rw [hcount] at hfew ⊢
      rw [hfilter, ← hnext]
      exact cursors_count group h.2 (by rw [hnext]; exact hfew)

/-! ## Taking turns -/

/-- The numbers of a stretch that have a given residue. -/
theorem countP_residue (c k n j : Nat) :
    (List.range' c k).countP (fun i => i % n = j) = Nat.count (fun i => (c + i) % n = j) k := by
  induction k with
  | zero => rfl
  | succ k ih =>
    rw [List.range'_concat, List.countP_append, ih, Nat.count_succ]
    simp [List.countP_cons]

/-- Among `k` numbers in a row, a residue modulo `n` occurs `k / n` times, rounded down or up. -/
theorem countP_turns {n j : Nat} (hj : j < n) (c k : Nat) :
    (List.range' c k).countP (fun i => i % n = j) = k / n ∨
      (List.range' c k).countP (fun i => i % n = j) = (k + n - 1) / n := by
  have hn : 0 < n := Nat.zero_lt_of_lt hj
  have hcount : ∀ b, Nat.count (fun i => i % n = j) b = b / n + if j < b % n then 1 else 0 := by
    intro b
    have h := Nat.count_modEq_card b hn j
    rw [Nat.mod_eq_of_lt hj] at h
    rw [← h]
    congr 1
    funext i
    rw [Nat.ModEq, Nat.mod_eq_of_lt hj]
  have hsplit := Nat.count_add (fun i => i % n = j) c k
  rw [hcount, hcount, ← countP_residue] at hsplit
  have hceil : (k + n - 1) / n = k / n + if k % n = 0 then 0 else 1 := by
    have hpred : (n - 1) / n = 0 := Nat.div_eq_of_lt (by omega)
    have hmod : (n - 1) % n = n - 1 := Nat.mod_eq_of_lt (by omega)
    rw [Nat.add_sub_assoc hn, Nat.add_div hn, hpred, hmod]
    split <;> split <;> omega
  rw [Nat.add_div hn, Nat.add_mod_eq_ite] at hsplit
  have hc := Nat.mod_lt c hn
  have hk := Nat.mod_lt k hn
  rw [hceil]
  split_ifs at hsplit ⊢ <;> omega

/-- While the call is made, the pass meets the clients in the order `order`, their subscriptions are `subs`, and those of them
in the group that are eligible are the ones `elig` says. -/
structure Steady (P : Protocol) (group : String × String) (order : List String) (subs : String → List Subscription)
    (elig : String → Subscription → Bool) (r : RouteCall) : Prop where
  visits : r.visited.map (·.1) = order
  holds : ∀ cid ∈ order, r.broker.subsOf cid = subs cid
  agrees : ∀ cid ∈ order, ∀ sub ∈ subs cid, sub.shareName = some group.1 → sub.filter = group.2 →
    eligible P r.publisher r.message cid sub = elig cid sub

/-- The eligible members of the group, in order. -/
def steadyMembers (group : String × String) (order : List String) (subs : String → List Subscription)
    (elig : String → Subscription → Bool) : List (String × Subscription) :=
  order.flatMap fun cid =>
    ((subs cid).filter fun sub => (sub.shareName = some group.1 && sub.filter = group.2) && elig cid sub).map (cid, ·)

theorem Steady.members {P : Protocol} {group : String × String} {order : List String} {subs : String → List Subscription}
    {elig : String → Subscription → Bool} {r : RouteCall} (h : Steady P group order subs elig r) (hs : r.serves P group) :
    r.members P group = steadyMembers group order subs elig := by
  have hm : r.message.isExpired r.now = false := by
    by_contra hm
    rw [Bool.not_eq_false] at hm
    simp [RouteCall.serves, RouteCall.members_expired hm] at hs
  rw [steadyMembers, ← h.visits, List.flatMap_map]
  simp only [RouteCall.members, hm, Bool.false_eq_true, if_false]
  refine List.flatMap_congr fun e he => ?_
  have hlookup : r.broker.sessions.lookup e.1 = some e.2 := mem_entries_iff.1 (mem_reorder.1 he)
  have hcid : e.1 ∈ order := h.visits ▸ List.mem_map_of_mem he
  have hsubs : e.2.subscriptions = subs e.1 := by
    rw [← h.holds e.1 hcid, Broker.subsOf, hlookup]
    rfl
  rw [Broker.inGroup, hsubs]
  congr 1
  refine List.filter_congr fun sub hsub => ?_
  by_cases hg : sub.shareName = some group.1 ∧ sub.filter = group.2
  · rw [h.agrees e.1 hcid sub hsub hg.1 hg.2]
  · have hfalse : (decide (sub.shareName = some group.1) && decide (sub.filter = group.2)) = false := by
      simpa using hg
    rw [hfalse, Bool.false_and, Bool.false_and]

/-- A stretch of a list whose values are consecutive. -/
theorem map_stretch {α : Type*} {f : α → Nat} {a win c : List α} {s : Nat}
    (h : (a ++ win ++ c).map f = List.range' s (a ++ win ++ c).length) :
    win.map f = List.range' (s + a.length) win.length := by
  rw [List.map_append, List.map_append, List.length_append, List.length_append, ← List.range'_append_1,
    ← List.range'_append_1] at h
  have hleft := (List.append_inj h (by simp)).1
  exact (List.append_inj hleft (by simp)).2

/-- While the group is steady, its members take turns. -/
theorem turns {P : Protocol} {group : String × String} {order : List String} {subs : String → List Subscription}
    {elig : String → Subscription → Bool} {win : List RouteCall} {s : Nat}
    (hcur : win.map (·.broker.cursor group) = List.range' s win.length)
    (hsteady : ∀ r ∈ win, r.serves P group ∧ Steady P group order subs elig r) {j : Nat}
    (hj : j < (steadyMembers group order subs elig).length) :
    win.countP (·.pick P group = j) = win.length / (steadyMembers group order subs elig).length ∨
      win.countP (·.pick P group = j) =
        (win.length + (steadyMembers group order subs elig).length - 1) / (steadyMembers group order subs elig).length := by
  have hcount : win.countP (·.pick P group = j) =
      (List.range' s win.length).countP (fun i => i % (steadyMembers group order subs elig).length = j) := by
    rw [← hcur, List.countP_map]
    refine List.countP_congr fun r hr => ?_
    rw [RouteCall.pick, (hsteady r hr).2.members (hsteady r hr).1]
    rfl
  rw [hcount]
  exact countP_turns hj s win.length

namespace World

/-- **Shared groups are fair**: from the start of the broker on, as long as fewer than 2^64 messages are routed to the group,
and in the part `ls` of the run its members stay the same. Among any messages in a row, each member's turn comes equally often,
rounded down or up, and a message goes to the member whose turn it is and to no other. -/
theorem shared_fair (P : Protocol) (now : Nat) (cfg : Config) (db : Db) (acl : Acl) (auth : Option Credentials)
    (pre ls : List Label) (group : String × String) (order : List String) (subs : String → List Subscription)
    (elig : String → Subscription → Bool)
    (hfew : (runCalls P (boot P now cfg db acl auth) (pre ++ ls)).countP (·.serves P group) < 2 ^ 64)
    (hsteady : ∀ r ∈ runCalls P (run P (boot P now cfg db acl auth) pre).1 ls, r.serves P group →
      Steady P group order subs elig r) :
    (∀ a win c, (runCalls P (run P (boot P now cfg db acl auth) pre).1 ls).filter (·.serves P group) = a ++ win ++ c →
      ∀ j < (steadyMembers group order subs elig).length,
        win.countP (·.pick P group = j) = win.length / (steadyMembers group order subs elig).length ∨
          win.countP (·.pick P group = j) = (win.length + (steadyMembers group order subs elig).length - 1) /
            (steadyMembers group order subs elig).length) ∧
    ∀ r ∈ runCalls P (run P (boot P now cfg db acl auth) pre).1 ls, r.serves P group →
      ∃ x, (steadyMembers group order subs elig)[r.pick P group]? = some x ∧ ∃ picks,
        Broker.Fanout P r.now r.broker r.publisher r.message
            (fun cid => Broker.ordinary P r.publisher r.message cid (r.broker.subsOf cid)) picks (r.result P) ∧
          ∀ c, (group, c) ∈ picks ↔ c = Broker.candidate r.message x.1 x.2 := by
  constructor
  · intro a win c hsplit j hj
    have hall := cursors_count group (run_follows P (pre ++ ls) (boot P now cfg db acl auth)) (by
      change 0 + _ ≤ _
      omega)
    change _ = List.range' 0 _ at hall
    rw [List.countP_eq_length_filter, runCalls_append, List.filter_append, hsplit, ← List.append_assoc,
      ← List.append_assoc] at hall
    refine turns (map_stretch hall) (fun r hr => ?_) hj
    have hmem : r ∈ (runCalls P (run P (boot P now cfg db acl auth) pre).1 ls).filter (·.serves P group) := by
      rw [hsplit]
      simp [hr]
    obtain ⟨hr, hs⟩ := List.mem_filter.1 hmem
    exact ⟨hs, hsteady r hr hs⟩
  · intro r hr hs
    have h := RouteCall.served hs
    rwa [(hsteady r hr hs).members hs] at h

/-- Two stored clients share a subscription to `t`. -/
def sharedDb : Db where
  sessions := ((∅ : KeyMap String SessionRow).insert "a" ⟨60, none⟩).insert "b" ⟨60, none⟩
  subscriptions := ((∅ : KeyMap (String × String) SubRow).insert ("a", "$share/g/t") ⟨1, 0, 0, 0, none⟩).insert
    ("b", "$share/g/t") ⟨1, 0, 0, 0, none⟩

/-- A bridge publishes to `t`; the pass meets the clients in the order `first`. -/
def sharedPublish (first : List Nat) : Label where
  input := .call (.injectPublish "x" ⟨"t", [1], .atLeastOnce, false, none, none, none, none, [], none⟩)
  ord := { sessions := first }

/-- Three messages; the model's map keeps the last client served first. -/
def sharedRun : List Label := [sharedPublish [], sharedPublish [], sharedPublish [1]]

/-- The calls of that run. -/
def sharedCalls : List RouteCall := runCalls .reference (boot .reference 0 {} sharedDb .permitAll none) sharedRun

/-- The subscriptions of the two. -/
def sharedSubs (_ : String) : List Subscription := [⟨"t", some "g", .atLeastOnce, false, false, none⟩]

/-- Of three messages one gets two and the other one. -/
theorem shared_fair_three :
    (sharedCalls.filter (·.serves .reference ("g", "t"))).length = 3 ∧
      ((sharedCalls.filter (·.serves .reference ("g", "t"))).countP (·.pick .reference ("g", "t") = 0) = 3 / 2 ∨
        (sharedCalls.filter (·.serves .reference ("g", "t"))).countP (·.pick .reference ("g", "t") = 0) = (3 + 2 - 1) / 2) := by
  have hall : ∀ r ∈ sharedCalls, r.visited.map (·.1) = ["a", "b"] ∧
      (∀ cid ∈ ["a", "b"], r.broker.subsOf cid = sharedSubs cid) ∧
      ∀ cid ∈ ["a", "b"], ∀ sub ∈ sharedSubs cid, sub.shareName = some "g" → sub.filter = "t" →
        eligible .reference r.publisher r.message cid sub = true := by
    decide +kernel
  have h := shared_fair .reference 0 {} sharedDb .permitAll none [] sharedRun ("g", "t") ["a", "b"] sharedSubs (fun _ _ => true)
    (by decide +kernel) (fun r hr _ => ⟨(hall r hr).1, (hall r hr).2.1, (hall r hr).2.2⟩)
  have hlen : (sharedCalls.filter (·.serves .reference ("g", "t"))).length = 3 := by decide +kernel
  have hturns := h.1 [] (sharedCalls.filter (·.serves .reference ("g", "t"))) [] (List.append_nil _).symm 0 (by decide)
  rw [hlen] at hturns
  exact ⟨hlen, hturns⟩

end World

end WispMQ
