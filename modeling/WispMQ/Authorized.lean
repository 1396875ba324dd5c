import WispMQ.Untouched
/-!
# Online subscriptions and the policy

`reload_acl` swaps the policy and prunes the sessions in two steps, and SUBSCRIBE and CONNECT consult the policy on
their own. Whenever a swap has been followed by its pruning, every online client's subscriptions are granted by the
current policy (`online_authorized`): the pass of the swap is still to come, or all of them are.
-/

namespace WispMQ
open KeyMap

/-! ## The subscriptions of a step -/

namespace Session
variable {P : Protocol} {acl : Acl} {s s' s'' : Session}

/-- The policy grants every subscription of the session to its identity. -/
def Authorized (P : Protocol) (acl : Acl) (s : Session) : Prop :=
  ∀ sub ∈ s.subscriptions, acl.canSubscribe P (who s.identity) sub.filter = true

/-- The identity stays, and every subscription was there before or is granted by `acl`. -/
structure Granted (P : Protocol) (acl : Acl) (s s' : Session) : Prop where
  identity : s'.identity = s.identity
  subscriptions : ∀ sub ∈ s'.subscriptions,
    sub ∈ s.subscriptions ∨ acl.canSubscribe P (who s.identity) sub.filter = true

namespace Granted

theorem of_subset (hid : s'.identity = s.identity) (h : ∀ sub ∈ s'.subscriptions, sub ∈ s.subscriptions) :
    Granted P acl s s' := ⟨hid, fun sub hsub => .inl (h sub hsub)⟩

theorem of_sameRecord (h : s.SameRecord s') : Granted P acl s s' :=
  of_subset h.identity fun _ hsub => h.subscriptions ▸ hsub

theorem refl (s : Session) : Granted P acl s s := .of_sameRecord (.refl s)

theorem trans (h : Granted P acl s s') (h' : Granted P acl s' s'') : Granted P acl s s'' := by
  refine ⟨h'.identity.trans h.identity, fun sub hsub => ?_⟩
  rcases h'.subscriptions sub hsub with hsub | hsub
  · exact h.subscriptions sub hsub
  · rw [h.identity] at hsub
    exact .inr hsub

theorem authorized (h : Granted P acl s s') (ha : s.Authorized P acl) : s'.Authorized P acl := by
  intro sub hsub
  rw [h.identity]
  rcases h.subscriptions sub hsub with hsub | hsub
  · exact ha sub hsub
  · exact hsub

/-- A granted subscription replaces one, or joins. -/
theorem upsert (s : Session) {sub : Subscription} (h : acl.canSubscribe P (who s.identity) sub.filter = true) :
    Granted P acl s (s.upsertSubscription sub).1 := by
  unfold upsertSubscription
  split
  · refine ⟨rfl, fun x hx => ?_⟩
    rcases List.mem_or_eq_of_mem_set hx with hx | rfl
    · exact .inl hx
    · exact .inr h
  · refine ⟨rfl, fun x hx => ?_⟩
    rcases List.mem_append.1 hx with hx | hx
    · exact .inl hx
    · rw [List.mem_singleton.1 hx]
      exact .inr h

theorem unsubscribed (s : Session) (raw : String) : Granted P acl s (s.unsubscribed P raw).1 :=
  .of_subset rfl fun _ hsub => List.mem_of_mem_filter hsub

end Granted

theorem retainAuthorized_authorized (P : Protocol) (acl : Acl) (s : Session) :
    (s.retainAuthorized P acl).Authorized P acl := by
  intro sub hsub
  exact (List.mem_filter.1 hsub).2

theorem authorized_of_not_enforced (P : Protocol) (h : acl.isEnforced = false) (s : Session) :
    s.Authorized P acl := by
  intro sub _
  rw [Acl.isEnforced] at h
  simp [Acl.canSubscribe, h]

/-- Whatever a CONNECT binds is authorized. -/
theorem boundSession_authorized (P : Protocol) (now : Nat) (b : Broker) (req : ConnectRequest) :
    (Broker.boundSession P now b req).Authorized P b.acl := by
  cases he : b.acl.isEnforced with
  | false => exact authorized_of_not_enforced P he _
  | true =>
    cases hp : (b.claimed req).2 with
    | false =>
      rw [Broker.boundSession_absent now hp]
      intro sub hsub
      simp [Broker.freshSession, Session.new, bind, setWill] at hsub
    | true =>
      obtain ⟨s, -, -, hb⟩ := Broker.boundSession_present (P := P) now hp
      have hsame : ((s.takenOver req.identity).bind b.config req b.nextEpoch).retainAuthorized P b.acl =
          Broker.reauthorize P b.acl true ((s.takenOver req.identity).bind b.config req b.nextEpoch) := by
        rw [Broker.reauthorize, he]
        rfl
      rw [hb, resumeBound, ← hsame]
      exact retainAuthorized_authorized P b.acl ((s.takenOver req.identity).bind b.config req b.nextEpoch)

end Session

namespace Broker
variable {P : Protocol} {b : Broker} {cid : String} {s s' : Session}

/-- SUBSCRIBE asks the policy for each filter it adds. -/
theorem subscribeFilter_granted (now : Nat) (ord : Orders) (b : Broker) (cid : String) (subId : Option Nat)
    (acc : SubscribeAcc) (f : TopicFilter) :
    acc.session.Granted P b.acl (subscribeFilter P now ord b cid subId acc f).session := by
  unfold subscribeFilter
  split
  · exact .refl _
  · split
    · exact .refl _
    · split
      · exact .refl _
      · rename_i parsed _ hacl
        refine .upsert acc.session ?_
        cases he : b.acl.enforced with
        | false => simp [Acl.canSubscribe, he]
        | true => simpa [Acl.isEnforced, he] using hacl

theorem subscribeFilters_granted (now : Nat) (ord : Orders) (b : Broker) (cid : String) (subId : Option Nat) :
    ∀ (fs : List TopicFilter) (acc : SubscribeAcc),
      acc.session.Granted P b.acl (fs.foldl (subscribeFilter P now ord b cid subId) acc).session
  | [], _ => .refl _
  | f :: fs, acc =>
    (subscribeFilter_granted now ord b cid subId acc f).trans (subscribeFilters_granted now ord b cid subId fs _)

theorem unsubscribeFilters_granted (acl : Acl) (cid : String) :
    ∀ (fs : List String) (acc : Session × List ReasonCode × List Command),
      acc.1.Granted P acl (fs.foldl (unsubscribeFilter P cid) acc).1
  | [], _ => .refl _
  | f :: fs, acc =>
    (Session.Granted.unsubscribed acc.1 f).trans
      (unsubscribeFilters_granted acl cid fs (unsubscribeFilter P cid acc f))

/-- What a packet adds to its client's subscriptions. -/
theorem dispatch_granted {now : Nat} {ord : Orders} {e : Nat} {packet : Packet} (hs : b.sessions.lookup cid = some s)
    (hs' : (dispatch P now ord b cid e packet).broker.sessions.lookup cid = some s') : s.Granted P b.acl s' := by
  have hquiet : Option.Rel Session.SameRecord (b.sessions.lookup cid)
      ((dispatch P now ord b cid e packet).broker.sessions.lookup cid) → s.Granted P b.acl s' := by
    intro h
    rw [hs, hs'] at h
    cases h with
    | some h => exact .of_sameRecord h
  have hkeep : (dispatch P now ord b cid e packet).broker.sessions.lookup cid = b.sessions.lookup cid →
      s.Granted P b.acl s' := fun h => hquiet (h ▸ sameRecord_refl _)
  have hacked : ∀ {f : Session → Session × Nat} {o : Op}, (∀ s : Session, f s = s.apply P o) → o.isQuiet →
      Option.Rel Session.SameRecord (b.sessions.lookup cid) ((b.acked cid e f).broker.sessions.lookup cid) := by
    intro f o hf ho
    rcases acked_moves b cid e hf with h | ⟨s, -, -, h⟩
    · rw [show (b.acked cid e f).broker.sessions.lookup cid = b.sessions.lookup cid from
        congrFun (congrArg Fleet.session h) cid]
      exact sameRecord_refl _
    · rw [← fleet_session (b.acked cid e f).broker, h]
      exact Fleet.apply_op_sameRecord P b.fleet ho cid cid
  cases packet with
  | publish p =>
    have hmv := (handlePublish_moves (P := P) now ord b cid e p).routing.mono fun mv hmv =>
      show mv.IsOp Op.isQuiet by cases mv <;> first | exact Op.isQuiet_of_isRouting hmv | exact hmv
    exact hquiet (hmv.sameRecord cid)
  | puback a => exact hquiet (hacked (o := .puback now a.packetId) (fun _ => rfl) rfl)
  | pubrec a => exact hquiet (hacked (o := .pubrec a) (fun _ => rfl) rfl)
  | pubrel a => exact hquiet (hacked (o := .pubrel a.packetId) (fun _ => rfl) rfl)
  | pubcomp a => exact hquiet (hacked (o := .pubcomp now a.packetId) (fun _ => rfl) rfl)
  | subscribe sub =>
    by_cases he : s.epoch = e
    · have hsubs := subscribeFilters_granted (P := P) now ord b cid sub.subscriptionIdentifiers.head? sub.filters
        { session := s }
      simp only [dispatch, handleSubscribe, fenced, hs, he, if_true, addDropped, lookup_setSession,
        Option.some.injEq] at hs'
      subst hs'
      exact hsubs.trans (.of_sameRecord ((Session.SameRecord.push _ _).trans (deliverRetained_sameRecord now _ _ (_, 0))))
    · exact hkeep (by simp [dispatch, handleSubscribe, fenced, hs, he, answer])
  | unsubscribe unsub =>
    by_cases he : s.epoch = e
    · have hsubs := unsubscribeFilters_granted (P := P) b.acl cid unsub.filters (s, [], [])
      simp only [dispatch, handleUnsubscribe, fenced, hs, he, if_true, lookup_setSession, Option.some.injEq] at hs'
      subst hs'
      exact hsubs.trans (.of_sameRecord (.push _ _))
    · exact hkeep (by simp [dispatch, handleUnsubscribe, fenced, hs, he, answer])
  | pingreq => exact hquiet (modifySession_sameRecord cid _ (fun s => .push s _) cid)
  | disconnect d => exact hkeep (by rw [dispatch, handleClientDisconnect_broker])
  | _ => exact hkeep rfl

theorem handleConnectionClosed_granted {acl : Acl} {clock e : Nat} {pw : Bool} (hs : b.sessions.lookup cid = some s)
    (hs' : (handleConnectionClosed clock b cid e pw).broker.sessions.lookup cid = some s') : s.Granted P acl s' := by
  unfold handleConnectionClosed at hs'
  rw [hs] at hs'
  dsimp only at hs'
  split at hs'
  · simp only [lookup_setSession, if_true, Option.some.injEq] at hs'
    subst hs'
    exact .of_subset rfl fun _ h => h
  · rw [hs] at hs'
    cases hs'
    exact .refl s

theorem removeIfOffline_granted {acl : Acl} {e : Nat} (hs : b.sessions.lookup cid = some s)
    (hs' : (removeIfOffline b cid e).broker.sessions.lookup cid = some s') : s.Granted P acl s' := by
  unfold removeIfOffline at hs'
  rw [hs] at hs'
  dsimp only at hs'
  split at hs'
  · simp [removeSession] at hs'
  · rw [hs] at hs'
    cases hs'
    exact .refl s

/-- The session of one client after the revocation pass. -/
theorem revokeUnauthorized_lookup (ord : Orders) {acl : Acl} (he : acl.isEnforced) {s : Session}
    (hs : b.sessions.lookup cid = some s) :
    ∃ cmds, (revokeUnauthorized P ord b acl).broker.sessions.lookup cid = some (revokeVisit P acl cid s cmds).1 := by
  simp only [revokeUnauthorized, he, Bool.not_true, Bool.false_eq_true, if_false]
  exact (lookup_iterMut (revokeVisit P acl) ord.sessions b.sessions [] cid).2 s hs

theorem revokeVisit_sameRecord (acl : Acl) (cid : String) (s : Session) (cmds : List Command) :
    (s.retainAuthorized P acl).SameRecord (revokeVisit P acl cid s cmds).1 := by
  simp only [revokeVisit]
  split
  · exact .refl _
  · exact .push _ _

theorem revokeUnauthorized_granted {ord : Orders} {acl acl' : Acl} (hs : b.sessions.lookup cid = some s)
    (hs' : (revokeUnauthorized P ord b acl).broker.sessions.lookup cid = some s') : s.Granted P acl' s' := by
  cases he : acl.isEnforced with
  | false =>
    simp only [revokeUnauthorized, he, Bool.not_false, if_true, hs, Option.some.injEq] at hs'
    exact hs' ▸ .refl s
  | true =>
    obtain ⟨cmds, h⟩ := revokeUnauthorized_lookup (P := P) ord he hs
    rw [h] at hs'
    cases hs'
    have hkeep : s.Granted P acl' (s.retainAuthorized P acl) :=
      .of_subset rfl fun _ hsub => List.mem_of_mem_filter hsub
    exact hkeep.trans (.of_sameRecord (revokeVisit_sameRecord acl cid s cmds))

/-- After the pass, every session is authorized. -/
theorem revokeUnauthorized_authorized (ord : Orders) (b : Broker) (acl : Acl) {cid : String} {s' : Session}
    (hs' : (revokeUnauthorized P ord b acl).broker.sessions.lookup cid = some s') : s'.Authorized P acl := by
  cases he : acl.isEnforced with
  | false => exact Session.authorized_of_not_enforced P he s'
  | true =>
    cases hs : b.sessions.lookup cid with
    | none =>
      have hnone := (lookup_iterMut (revokeVisit P acl) ord.sessions b.sessions [] cid).1 hs
      simp only [revokeUnauthorized, he, Bool.not_true, Bool.false_eq_true, if_false] at hs'
      rw [hnone] at hs'
      cases hs'
    | some s =>
      obtain ⟨cmds, h⟩ := revokeUnauthorized_lookup (P := P) ord he hs
      rw [h] at hs'
      cases hs'
      have hrec : (s.retainAuthorized P acl).Granted P acl _ := .of_sameRecord (revokeVisit_sameRecord acl cid s cmds)
      exact hrec.authorized (Session.retainAuthorized_authorized P acl s)

end Broker

namespace World
open Broker
variable {P : Protocol} {w : World} {l : Label} {cid : String} {s s' : Session}

/-- What a step adds to a client's subscriptions, a CONNECT of the client apart. -/
theorem step_granted (hcid : ∀ name, cid ≠ bridgeClient name)
    (hconn : ∀ req, w.selected l.input = some (.connect req) → cid ≠ req.clientId)
    (hs : w.broker.sessions.lookup cid = some s) (hs' : (step P w l).1.broker.sessions.lookup cid = some s') :
    s.Granted P w.broker.acl s' := by
  by_cases ht : w.Touches l cid
  · cases ht with
    | dispatch hsel => exact dispatch_granted hs ((step_of_selected hsel).1 ▸ hs')
    | disconnect hsel =>
      rw [(step_of_selected hsel).1] at hs'
      simp only [runTask, disconnectExpiry, hs, lookup_setSession, if_true, Option.some.injEq] at hs'
      subst hs'
      exact .of_subset rfl fun _ h => h
    | connect hsel hc => exact absurd hc (hconn _ hsel)
    | closed hin =>
      simp only [step, hin, absorb, enter] at hs'
      exact handleConnectionClosed_granted hs hs'
    | remove hsel => exact removeIfOffline_granted hs ((step_of_selected hsel).1 ▸ hs')
    | expire hsel => exact removeIfOffline_granted hs ((step_of_selected hsel).1 ▸ hs')
    | revoke hsel => exact revokeUnauthorized_granted hs ((step_of_selected hsel).1 ▸ hs')
    | register _ hc => exact absurd hc (hcid _)
    | subscribe _ hc => exact absurd hc (hcid _)
    | deregister _ hc => exact absurd hc (hcid _)
  · have h := step_untouched P ht
    rw [hs, hs'] at h
    cases h with
    | some h => exact .of_sameRecord h.toSameRecord

/-! ## Every run -/

/-- Every subscription of every online client is granted by the policy; bridges are not clients. -/
def OnlineAuthorized (P : Protocol) (w : World) : Prop :=
  ∀ cid s, w.broker.sessions.lookup cid = some s → (∀ name, cid ≠ bridgeClient name) → s.isOnline →
    s.Authorized P w.broker.acl

/-- The revocation pass of the current policy is still to run, or it has left nothing to revoke. -/
def Pruned (P : Protocol) (w : World) : Prop := .revoke w.broker.acl ∈ w.tasks ∨ w.OnlineAuthorized P

/-- The pass makes up for whatever was subscribed before the swap. -/
theorem revoke_authorized (hsel : w.selected l.input = some (.revoke w.broker.acl)) :
    (step P w l).1.OnlineAuthorized P := by
  intro cid s hs _ _
  rw [(step_of_selected hsel).1] at hs ⊢
  rw [runTask_acl]
  exact revokeUnauthorized_authorized l.ord w.broker w.broker.acl hs

/-- A CONNECT re-authorizes what it resumes. -/
theorem connect_authorized {req : ConnectRequest} (hsel : w.selected l.input = some (.connect req))
    (hs' : (step P w l).1.broker.sessions.lookup req.clientId = some s') : s'.Authorized P w.broker.acl := by
  rw [(step_of_selected hsel).1] at hs'
  simp only [runTask, finishConnect, AList.lookup_insert, Option.some.injEq] at hs'
  have hrec : (boundSession P l.now w.broker req).Granted P w.broker.acl s' :=
    .of_sameRecord (hs' ▸ resumed_sameRecord ..)
  exact hrec.authorized (Session.boundSession_authorized P l.now w.broker req)

/-- A client's session is authorized after a step if it was before, or if it did not exist. -/
theorem step_authorized (hcid : ∀ name, cid ≠ bridgeClient name)
    (hs' : (step P w l).1.broker.sessions.lookup cid = some s')
    (h : ∀ s, w.broker.sessions.lookup cid = some s → (s.out = none → s'.out = none) → s.Authorized P w.broker.acl) :
    s'.Authorized P w.broker.acl := by
  by_cases hconn : ∃ req, w.selected l.input = some (.connect req) ∧ cid = req.clientId
  · obtain ⟨req, hsel, rfl⟩ := hconn
    exact connect_authorized hsel hs'
  · rcases (step_change P w l).bound hs' with ⟨s, hs, -, hoff⟩ | ⟨req, hsel, hc, -⟩ | ⟨name, -, hc, -⟩
    · have hgrant : s.Granted P w.broker.acl s' :=
        step_granted hcid (fun req hsel hc => hconn ⟨req, hsel, hc⟩) hs hs'
      exact hgrant.authorized (h s hs hoff)
    · exact absurd ⟨req, hsel, hc⟩ hconn
    · exact absurd hc (hcid name)

/-- Every step but a swap keeps the online subscriptions authorized. -/
theorem step_onlineAuthorized (hacl : (step P w l).1.broker.acl = w.broker.acl) (h : w.OnlineAuthorized P) :
    (step P w l).1.OnlineAuthorized P := by
  intro cid s' hs' hcid hon
  rw [hacl]
  refine step_authorized hcid hs' fun s hs hoff => h cid s hs hcid ?_
  -- a session without a channel would have none after the step
  rw [Session.isOnline, Option.isSome_iff_ne_none] at hon ⊢
  exact fun hout => hon (hoff hout)

theorem step_pruned (l : Label) (h : w.Pruned P) : (step P w l).1.Pruned P := by
  rcases step_acl P w l with hacl | ⟨-, hswap⟩
  · rcases h with hwait | hall
    · by_cases hsel : w.selected l.input = some (.revoke w.broker.acl)
      · exact .inr (revoke_authorized hsel)
      · exact .inl (hacl ▸ mem_step_tasks hwait hsel)
    · exact .inr (step_onlineAuthorized hacl hall)
  · exact .inl hswap

theorem boot_pruned (P : Protocol) (now : Nat) (cfg : Config) (db : Db) (acl : Acl) (auth : Option Credentials) :
    (boot P now cfg db acl auth).Pruned P := by
  refine .inr fun cid s hs _ hon => ?_
  -- a restored session is offline
  rw [boot_lookup] at hs
  split at hs
  · cases hs
  · obtain ⟨row, -, rfl⟩ := Option.map_eq_some_iff.1 hs
    simp [Session.isOnline, restoreSession, Session.new] at hon

/-- **Online subscriptions are authorized**: in every run, in every state in which no reload is between its swap and
its revocation pass, the current policy grants every subscription of every online client. -/
theorem online_authorized (P : Protocol) (now : Nat) (cfg : Config) (db : Db) (acl : Acl) (auth : Option Credentials)
    (ls : List Label) (w : World) (hw : w = (run P (boot P now cfg db acl auth) ls).1)
    (hreload : ∀ acl', .revoke acl' ∉ w.tasks) (cid : String) (s : Session)
    (hs : w.broker.sessions.lookup cid = some s) (hcid : ∀ name, cid ≠ bridgeClient name) (hon : s.isOnline)
    (sub : Subscription) (hsub : sub ∈ s.subscriptions) :
    w.broker.acl.canSubscribe P (who s.identity) sub.filter = true := by
  have h : w.Pruned P := hw ▸ Machine.run_preserves (step P) (Pruned P) (fun _ l h => step_pruned l h)
    (boot_pruned P now cfg db acl auth) ls
  rcases h with hwait | hall
  · exact absurd hwait (hreload _)
  · exact hall cid s hs hcid hon sub hsub

/-- A policy that lets everyone subscribe to the given filters. -/
def subscribeOnly (filters : List String) : Acl := ⟨true, false, [{ identity := anyIdentity, subscribe := filters }]⟩

/-- A client subscribes to two topics, and a reload takes one of them away. -/
def narrowed : List Label :=
  connecting { clientId := "c", cleanStart := true } ++
  sending "c" 1 (.subscribe ⟨1, [{ filter := "a", qos := .atMostOnce }, { filter := "b", qos := .atMostOnce }], []⟩) ++
  [{ input := .call (.reload (some (subscribeOnly ["a"]))) }, { input := .task 0 }]

/-- The client is online with the subscription the new policy grants. -/
theorem online_authorized_narrowed :
    ∃ s, (run .reference (boot .reference 0 { aclPath := some "acl" } {} (subscribeOnly ["a", "b"]) none)
        narrowed).1.broker.sessions.lookup "c" = some s ∧
      s.isOnline ∧ s.subscriptions.map (·.filter) = ["a"] ∧
      ∀ sub ∈ s.subscriptions, (run .reference (boot .reference 0 { aclPath := some "acl" } {} (subscribeOnly ["a", "b"])
        none) narrowed).1.broker.acl.canSubscribe .reference (who s.identity) sub.filter = true := by
  have h : ((run .reference (boot .reference 0 { aclPath := some "acl" } {} (subscribeOnly ["a", "b"]) none)
      narrowed).1.broker.sessions.lookup "c").map (fun s => (s.isOnline, s.subscriptions.map (·.filter))) =
        some (true, ["a"]) := by decide +kernel
  have htasks : (run .reference (boot .reference 0 { aclPath := some "acl" } {} (subscribeOnly ["a", "b"]) none)
      narrowed).1.tasks = [] := by decide +kernel
  obtain ⟨s, hs, h1⟩ := Option.map_eq_some_iff.1 h
  simp only [Prod.mk.injEq] at h1
  refine ⟨s, hs, h1.1, h1.2, ?_⟩
  exact online_authorized .reference 0 { aclPath := some "acl" } {} (subscribeOnly ["a", "b"]) none narrowed _ rfl
    (fun acl' hmem => by simp [htasks] at hmem) "c" s hs (ne_bridgeClient (by decide)) h1.1

end World

end WispMQ
