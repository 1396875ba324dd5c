import WispMQ.ReceiveMaximum
import WispMQ.Routing
import WispMQ.Authorized
/-!
# Bridges and the policy

A bridge is an in-process participant that no policy admits: `register_bridge` and `bridge_add_subscription` ask
nobody. The revocation pass of a reload walks over its session like over any other, under the identity `$bridge`.
`bridge_exempt_iff` says for which policies the bridge comes out of a reload unharmed, and that it then goes on
forwarding.
-/

namespace WispMQ
open KeyMap

/-- Packets and closes come from connections, under the client id their CONNECT was accepted with; that is never a
reserved one (connect.rs:85). -/
def Label.Addressed (l : Label) : Prop :=
  (∀ cid epoch p, l.input = .call (.packet cid epoch p) → reservedClientId cid = false) ∧
  ∀ cid epoch publishWill, l.input = .call (.closed cid epoch publishWill) → reservedClientId cid = false

/-- A subscription as `bridge_add_subscription` makes it. -/
def Subscription.IsBridge (sub : Subscription) : Prop := sub.shareName = none ∧ sub.qos = .atMostOnce

/-- The session of a bridge. -/
structure BridgeOk (s : Session) : Prop where
  identity : s.identity = some "$bridge"
  limit : s.clientMaxPacketSize = none
  online : s.isOnline = true
  subscriptions : ∀ sub ∈ s.subscriptions, sub.IsBridge

/-- The binding and the connection stay; subscriptions may be added. -/
structure Session.Kept (s s' : Session) : Prop extends Session.SameBinding s s' where
  online : s'.isOnline = s.isOnline
  subscriptions : ∃ subs, s'.subscriptions = s.subscriptions ++ subs ∧ ∀ sub ∈ subs, sub.IsBridge

theorem Session.Untouched.kept {s s' : Session} (h : s.Untouched s') : s.Kept s' :=
  ⟨h.toSameBinding, h.online, [], by simp [h.subscriptions], by simp⟩

theorem BridgeOk.kept {s s' : Session} (h : BridgeOk s) (hk : s.Kept s') : BridgeOk s' := by
  refine ⟨hk.identity.trans h.identity, hk.maxPacketSize.trans h.limit, hk.online.trans h.online, fun sub hsub => ?_⟩
  obtain ⟨subs, he, hsubs⟩ := hk.subscriptions
  rw [he] at hsub
  rcases List.mem_append.1 hsub with hsub | hsub
  · exact h.subscriptions sub hsub
  · exact hsubs sub hsub

namespace World
open Broker
variable {P : Protocol} {w : World} {l : Label} {name : String} {s s' : Session}

/-! ## The sessions of bridges -/

structure BridgesOk (w : World) : Prop where
  sessions : ∀ name s, w.broker.sessions.lookup (bridgeClient name) = some s → BridgeOk s
  packets : ∀ cid epoch p, .dispatch cid epoch p ∈ w.tasks → reservedClientId cid = false
  connects : ∀ req, .connect req ∈ w.tasks → reservedClientId req.clientId = false

/-- A reload that prunes it, or the bridge itself, may do more to the session than keep it. -/
inductive Disturbs (w : World) (l : Label) (name : String) : Prop
  | revoke {acl : Acl} (h : w.selected l.input = some (.revoke acl))
  | register (h : l.input = .call (.registerBridge name))
  | deregister {e : Nat} (h : l.input = .call (.deregisterBridge name e))

theorem bridgeClient_injective {name name' : String} (h : bridgeClient name = bridgeClient name') : name = name' := by
  simpa [bridgeClient] using h

/-- What any other step does to the session of a bridge, and where its subscriptions come from. -/
theorem BridgesOk.step_added (h : w.BridgesOk) (hl : l.Addressed) (hd : ¬w.Disturbs l name)
    (hs : w.broker.sessions.lookup (bridgeClient name) = some s) :
    ∃ s', (step P w l).1.broker.sessions.lookup (bridgeClient name) = some s' ∧ s.Kept s' ∧
      ∀ sub ∈ s'.subscriptions, sub ∈ s.subscriptions ∨
        l.input = .call (.bridgeAddSubscription name sub.filter sub.noLocal) := by
  have hres := reserved_bridgeClient name
  have hon := (h.sessions name s hs).online
  have hremove : ∀ e, (removeIfOffline w.broker (bridgeClient name) e).broker = w.broker := by
    intro e
    simp [removeIfOffline, hs, hon]
  have hkeep : (step P w l).1.broker = w.broker →
      ∃ s', (step P w l).1.broker.sessions.lookup (bridgeClient name) = some s' ∧ s.Kept s' ∧
        ∀ sub ∈ s'.subscriptions, sub ∈ s.subscriptions ∨
          l.input = .call (.bridgeAddSubscription name sub.filter sub.noLocal) :=
    fun e => ⟨s, e ▸ hs, (Session.Untouched.refl s).kept, fun _ => .inl⟩
  by_cases ht : w.Touches l (bridgeClient name)
  · cases ht with
    | dispatch hsel =>
      rw [h.packets _ _ _ (selected_mem hsel)] at hres
      cases hres
    | connect hsel hc =>
      rw [hc, h.connects _ (selected_mem hsel)] at hres
      cases hres
    | closed hin =>
      rw [hl.2 _ _ _ hin] at hres
      cases hres
    | disconnect hsel =>
      rw [(step_of_selected hsel).1]
      simp only [runTask, disconnectExpiry, hs, lookup_setSession, if_true]
      exact ⟨_, rfl, ⟨⟨rfl, rfl, rfl, rfl, rfl, rfl⟩, rfl, [], by simp, by simp⟩, fun _ => .inl⟩
    | remove hsel => exact hkeep ((step_of_selected hsel).1.trans (hremove _))
    | expire hsel => exact hkeep ((step_of_selected hsel).1.trans (hremove _))
    | revoke hsel => exact absurd (.revoke hsel) hd
    | register hin hc => exact absurd (.register (bridgeClient_injective hc ▸ hin)) hd
    | subscribe hin hc =>
      rename_i name' filter noLocal
      cases bridgeClient_injective hc
      simp only [step, hin, absorb, enter, bridgeAddSubscription, modifySession, hs, lookup_setSession, if_true]
      refine ⟨_, rfl, ⟨⟨rfl, rfl, rfl, rfl, rfl, rfl⟩, rfl, [⟨filter, none, .atMostOnce, noLocal, true, none⟩], rfl,
        by simp [Subscription.IsBridge]⟩, fun sub hsub => (List.mem_append.1 hsub).imp_right fun hsub => ?_⟩
      rw [List.mem_singleton.1 hsub]
    | deregister hin hc => exact absurd (.deregister (bridgeClient_injective hc ▸ hin)) hd
  · have hu := step_untouched P ht
    rw [hs] at hu
    generalize (step P w l).1.broker.sessions.lookup (bridgeClient name) = b at hu ⊢
    cases hu with
    | some hu => exact ⟨_, rfl, hu.kept, fun sub hsub => .inl (hu.subscriptions ▸ hsub)⟩

theorem BridgesOk.step_kept (h : w.BridgesOk) (hl : l.Addressed) (hd : ¬w.Disturbs l name)
    (hs : w.broker.sessions.lookup (bridgeClient name) = some s) :
    ∃ s', (step P w l).1.broker.sessions.lookup (bridgeClient name) = some s' ∧ s.Kept s' := by
  obtain ⟨s', hs', hk, -⟩ := h.step_added (P := P) hl hd hs
  exact ⟨s', hs', hk⟩

theorem revokeVisit_online (acl : Acl) (cid : String) (s : Session) (cmds : List Command) :
    (revokeVisit P acl cid s cmds).1.isOnline = s.isOnline := by
  simp only [revokeVisit]
  split
  · rfl
  · have hpush : Session.Appends (fun _ => True) (s.retainAuthorized P acl) _ := .push _ (.shutdown .notAuthorized) trivial
    obtain ⟨items, h, -⟩ := hpush
    simp only [Session.isOnline, h, Option.isSome_map]
    rfl

theorem BridgeOk.revoked {acl : Acl} {ord : Orders} (h : BridgeOk s)
    (hs : w.broker.sessions.lookup (bridgeClient name) = some s)
    (hs' : (revokeUnauthorized P ord w.broker acl).broker.sessions.lookup (bridgeClient name) = some s') :
    BridgeOk s' := by
  cases he : acl.isEnforced with
  | false =>
    simp only [revokeUnauthorized, he, Bool.not_false, if_true, hs, Option.some.injEq] at hs'
    exact hs' ▸ h
  | true =>
    obtain ⟨cmds, hr⟩ := revokeUnauthorized_lookup (P := P) ord he hs
    rw [hr] at hs'
    cases hs'
    have hrec := revokeVisit_sameRecord (P := P) acl (bridgeClient name) s cmds
    refine ⟨hrec.identity.trans h.identity, hrec.maxPacketSize.trans h.limit,
      (revokeVisit_online acl _ s cmds).trans h.online, fun sub hsub => ?_⟩
    rw [hrec.subscriptions] at hsub
    exact h.subscriptions sub (List.mem_of_mem_filter hsub)

theorem BridgesOk.step (P : Protocol) (h : w.BridgesOk) (hl : l.Addressed) : (step P w l).1.BridgesOk where
  sessions name s' hs' := by
    cases hs : w.broker.sessions.lookup (bridgeClient name) with
    | none =>
      rcases (step_change P w l).bound hs' with ⟨s, hs₀, -⟩ | ⟨req, hsel, hc, -⟩ | ⟨name', -, -, rfl⟩
      · rw [hs] at hs₀
        cases hs₀
      · have hres := reserved_bridgeClient name
        rw [hc, h.connects req (selected_mem hsel)] at hres
        cases hres
      · exact ⟨rfl, rfl, rfl, by simp [bridgeSession, Session.new]⟩
    | some s =>
      have hok := h.sessions name s hs
      by_cases hd : w.Disturbs l name
      · cases hd with
        | revoke hsel => exact BridgeOk.revoked hok hs ((step_of_selected hsel).1 ▸ hs')
        | register hin =>
          simp only [World.step, hin, absorb, enter, registerBridge, AList.lookup_insert, Option.some.injEq] at hs'
          subst hs'
          exact ⟨rfl, rfl, rfl, by simp [Session.new]⟩
        | deregister hin =>
          simp only [World.step, hin, absorb, enter, deregisterBridge, hs] at hs'
          split at hs'
          · simp [removeSession] at hs'
          · rw [hs] at hs'
            exact Option.some.inj hs' ▸ hok
      · obtain ⟨s₁, hs₁, hk⟩ := h.step_kept (P := P) hl hd hs
        rw [hs'] at hs₁
        cases hs₁
        exact hok.kept hk
  packets cid epoch p ht := by
    rcases step_tasks ht with ht | ht
    · exact h.packets cid epoch p ht
    · exact hl.1 _ _ _ ht.dispatched.1
  connects := step_connectsOk P l h.connects

/-- A bridge subscribes by `bridge_add_subscription` only. -/
theorem BridgesOk.step_subscriptions (P : Protocol) (h : w.BridgesOk) (hl : l.Addressed)
    (hs' : (World.step P w l).1.broker.sessions.lookup (bridgeClient name) = some s') :
    ∀ sub ∈ s'.subscriptions, (∃ s, w.broker.sessions.lookup (bridgeClient name) = some s ∧ sub ∈ s.subscriptions) ∨
      l.input = .call (.bridgeAddSubscription name sub.filter sub.noLocal) := by
  intro sub hsub
  cases hs : w.broker.sessions.lookup (bridgeClient name) with
  | none =>
    rcases (step_change P w l).bound hs' with ⟨s, hs₀, -⟩ | ⟨req, hsel, hc, -⟩ | ⟨name', -, -, rfl⟩
    · rw [hs] at hs₀
      cases hs₀
    · have hres := reserved_bridgeClient name
      rw [hc, h.connects req (selected_mem hsel)] at hres
      cases hres
    · simp [bridgeSession, Session.new] at hsub
  | some s =>
    by_cases hd : w.Disturbs l name
    · refine .inl ⟨s, rfl, ?_⟩
      cases hd with
      | @revoke acl hsel =>
        rw [(step_of_selected hsel).1, runTask] at hs'
        cases he : acl.isEnforced with
        | false =>
          simp only [revokeUnauthorized, he, Bool.not_false, if_true, hs, Option.some.injEq] at hs'
          exact hs' ▸ hsub
        | true =>
          obtain ⟨cmds, hr⟩ := revokeUnauthorized_lookup (P := P) l.ord he hs
          rw [hr] at hs'
          cases hs'
          rw [(revokeVisit_sameRecord acl _ s cmds).subscriptions] at hsub
          exact List.mem_of_mem_filter hsub
      | register hin =>
        simp only [World.step, hin, absorb, enter, registerBridge, AList.lookup_insert, Option.some.injEq] at hs'
        simp [← hs', Session.new] at hsub
      | deregister hin =>
        simp only [World.step, hin, absorb, enter, deregisterBridge, hs] at hs'
        split at hs'
        · simp [removeSession] at hs'
        · rw [hs] at hs'
          exact Option.some.inj hs' ▸ hsub
    · obtain ⟨s₁, hs₁, -, hadded⟩ := h.step_added (P := P) hl hd hs
      rw [hs'] at hs₁
      cases hs₁
      exact (hadded sub hsub).imp_left fun hsub => ⟨s, rfl, hsub⟩

theorem boot_bridgesOk (P : Protocol) (now : Nat) (cfg : Config) (db : Db) (acl : Acl) (auth : Option Credentials) :
    (boot P now cfg db acl auth).BridgesOk where
  sessions name s hs := by
    rw [boot_lookup, reserved_bridgeClient] at hs
    cases hs
  packets cid epoch p ht := by simp [boot] at ht
  connects req ht := by simp [boot] at ht

theorem run_bridgesOk (P : Protocol) {w : World} (h : w.BridgesOk) {ls : List Label} (hls : ∀ l ∈ ls, l.Addressed) :
    (run P w ls).1.BridgesOk :=
  Machine.run_state_invariant (World.step P) BridgesOk (fun _ _ h hl => h.step P hl) h ls (.of_mem _ hls)

/-! ## Routing to a bridge -/

/-- What `route` does to the session of a bridge one of whose patterns matches: the PUBLISH is in the channel, or there
is no room in it. -/
theorem route_bridge {b : Broker} {publisher : Option String} {m : Message} (now : Nat) (ord : Orders) {cid : String}
    (hs : b.sessions.lookup cid = some s) (hok : BridgeOk s) (hm : m.isExpired now = false)
    (hpub : publisher ≠ some cid) (hsub : ∃ sub ∈ s.subscriptions, P.topicMatches sub.filter m.topic) :
    ∃ s', (route P now ord b publisher m).1.sessions.lookup cid = some s' ∧
      ((∃ retain subIds tx, s.out = some tx ∧ s'.out =
        some { tx with sent := tx.sent ++ [.send (m.toPublish now .atMostOnce none retain subIds)] }) ∨
      s.out.any OutTx.hasRoom = false ∧ s' = s) := by
  have hroute := route_lookup (P := P) now ord publisher m hs
  -- no shared subscription, so no shared group
  have hnil : (b.chosen P ord publisher m).filter (·.clientId = cid) = [] := by
    refine List.filter_eq_nil_iff.2 fun c hc => ?_
    obtain ⟨sub, hmem, hshare, -⟩ := chosen_sharedVia ord b c hc
    rw [decide_eq_true_eq]
    rintro rfl
    rw [subsOf, hs] at hmem
    simp [(hok.subscriptions sub hmem).1] at hshare
  have hsome : (ordinary P publisher m cid s.subscriptions).isSome := by
    obtain ⟨sub, hmem, hmatch⟩ := hsub
    refine ordinary_isSome.2 ⟨sub, hmem, (hok.subscriptions sub hmem).1, ?_⟩
    simp [eligible, hmatch, hpub]
  obtain ⟨d, hd⟩ := Option.isSome_iff_exists.1 hsome
  have hq : d.1 = .atMostOnce := by
    simp only [ordinary] at hd
    obtain ⟨q, hbest, rfl⟩ := Option.map_eq_some_iff.1 hd
    refine scan_best_qos0 s.subscriptions (fun sub hsub _ _ => ?_) (by simp) q hbest
    rw [(hok.subscriptions sub hsub).2]
    exact QoS.min_atMostOnce _
  have hsubs : b.subsOf cid = s.subscriptions := by simp [subsOf, hs]
  rw [deliveries, hnil, hsubs, hd] at hroute
  refine ⟨_, hroute, ?_⟩
  simp only [Option.map_some, Option.toList_some, List.map_nil, List.append_nil, Session.applyAll, deliveryOp,
    Session.apply, deliverToSession, hq]
  have hsize : s.oversized P (m.toPublish now .atMostOnce none d.2.1 d.2.2) = false := by
    simp [Session.oversized, hok.limit]
  cases ho : s.out with
  | none =>
    have hon := hok.online
    simp [Session.isOnline, ho] at hon
  | some tx =>
    by_cases hroom : tx.hasRoom
    · refine .inl ⟨d.2.1, d.2.2, tx, rfl, ?_⟩
      simp [deliver, hm, hok.online, hsize, Session.trySend, ho, OutTx.trySend, hroom]
    · refine .inr ⟨by simpa using hroom, ?_⟩
      simp [deliver, hm, hok.online, hsize, Session.trySend, ho, OutTx.trySend, hroom]

theorem appends_of_routing {f f' : Fleet} (h : Fleet.Reaches P (Move.IsOp Op.isRouting) f f') (c : String) :
    Option.Rel (fun s s' => Session.Untouched s s' ∧ Session.Appends (fun _ => True) s s') (f.session c) (f'.session c) :=
  h.session_rel (fun s => ⟨.refl s, .refl s⟩) (fun _ _ _ h h' => ⟨h.1.trans h'.1, h.2.trans h'.2⟩)
    (fun s _ ho =>
      have ha := Session.apply_appends (P := P) s ho
      ⟨.of_appends (Session.apply_quiet P s (Op.isQuiet_of_isRouting ho)) ha, ha⟩) c

/-- **Forwarding, one step**: a message that is routed in the step, matches a pattern of the bridge and does not come
from it is in the bridge's channel afterwards, unless the channel takes nothing more (the hop is QoS 0). -/
theorem step_forwarded {origin : Origin} {m : Message} (hok : w.BridgesOk)
    (hs : w.broker.sessions.lookup (bridgeClient name) = some s) (hr : .routed origin m ∈ (step P w l).2)
    (hpub : origin.publisher ≠ some (bridgeClient name)) (hm : m.isExpired l.now = false)
    (hsub : ∃ sub ∈ s.subscriptions, P.topicMatches sub.filter m.topic) :
    (∃ retain subIds, .send (m.toPublish l.now .atMostOnce none retain subIds) ∈
      w.pushed P l (bridgeClient name) s.epoch) ∨
    ∃ s' tx, (step P w l).1.broker.sessions.lookup (bridgeClient name) = some s' ∧ s'.out = some tx ∧
      tx.hasRoom = false := by
  obtain ⟨b, h1, h2⟩ := step_routed hr
  have hbefore := appends_of_routing h1 (bridgeClient name)
  have hafter := appends_of_routing h2 (bridgeClient name)
  rw [fleet_session, hs, fleet_session] at hbefore
  rw [fleet_session, fleet_session] at hafter
  -- the session as `route` finds it
  generalize hb : b.sessions.lookup (bridgeClient name) = a at hbefore
  cases hbefore with
  | some hbefore =>
    rename_i s₁
    obtain ⟨hu₁, ha₁⟩ := hbefore
    have hok₁ : BridgeOk s₁ := (hok.sessions name s hs).kept hu₁.kept
    obtain ⟨s₂, hs₂, hcase⟩ := route_bridge (P := P) l.now l.ord hb hok₁ hm hpub (hu₁.subscriptions ▸ hsub)
    rw [hs₂] at hafter
    generalize hs' : (step P w l).1.broker.sessions.lookup (bridgeClient name) = a' at hafter
    cases hafter with
    | some hafter =>
      rename_i s'
      obtain ⟨hu₂, ha₂⟩ := hafter
      have hroute := appends_of_routing (route_moves (P := P) l.now l.ord b origin.publisher m).routing (bridgeClient name)
      rw [fleet_session, fleet_session, hb, hs₂] at hroute
      cases hroute with
      | some hroute =>
        have hall : s.Untouched s' := (hu₁.trans hroute.1).trans hu₂
        obtain ⟨tx, htx⟩ := Option.isSome_iff_exists.1 (hok.sessions name s hs).online
        obtain ⟨tx', htx'⟩ := Option.isSome_iff_exists.1 (hall.online.trans (hok.sessions name s hs).online)
        rcases hcase with ⟨retain, subIds, tx₁, htx₁, htx₂⟩ | ⟨hfull, rfl⟩
        · refine .inl ⟨retain, subIds, ?_⟩
          rw [pushed_of_lookup hs htx hs' hall.epoch htx']
          refine ha₂.mem htx₂ htx' ?_
          obtain ⟨items, hitems, -⟩ := ha₁
          rw [htx₁, htx, Option.map_some, Option.some.injEq] at hitems
          simp [hitems]
        · refine .inr ⟨s', tx', rfl, htx', Bool.eq_false_iff.2 fun hroom => ?_⟩
          have := ha₂.room (by simpa [htx'] using hroom)
          rw [hfull] at this
          cases this

/-! ## A reload and a bridge -/

/-- From `w` on, until the next revocation pass and as long as the bridge stays registered: every routed message that
matches one of the patterns and does not come from the bridge reaches its channel, if that has room. -/
def Forwards (P : Protocol) (name : String) (epoch : Nat) (patterns : List String) (w : World) : Prop :=
  ∀ (ls : List Label) (l : Label) (origin : Origin) (m : Message),
    Machine.Along (step P) (fun w l => l.Addressed ∧ ¬w.Disturbs l name) w ls →
    .routed origin m ∈ (step P (run P w ls).1 l).2 → origin.publisher ≠ some (bridgeClient name) →
    m.isExpired l.now = false → (∃ pattern ∈ patterns, P.topicMatches pattern m.topic) →
    (∃ retain subIds, .send (m.toPublish l.now .atMostOnce none retain subIds) ∈
      (run P w ls).1.pushed P l (bridgeClient name) epoch) ∨
    ∃ s' tx, (step P (run P w ls).1 l).1.broker.sessions.lookup (bridgeClient name) = some s' ∧ s'.out = some tx ∧
      tx.hasRoom = false

/-- The bridge holds its patterns. -/
def Holds (name : String) (epoch : Nat) (patterns : List String) (w : World) : Prop :=
  ∃ s, w.broker.sessions.lookup (bridgeClient name) = some s ∧ s.epoch = epoch ∧
    ∀ pattern ∈ patterns, ∃ sub ∈ s.subscriptions, sub.filter = pattern

theorem Holds.forwards {epoch : Nat} {patterns : List String} (h : w.Holds name epoch patterns) (hok : w.BridgesOk) :
    w.Forwards P name epoch patterns := by
  intro ls l origin m ha hr hpub hm hmatch
  have hinv := Machine.run_state_invariant (step P) (fun w => w.BridgesOk ∧ w.Holds name epoch patterns)
    (fun w l h hl => by
      obtain ⟨s, hs, he, hsubs⟩ := h.2
      obtain ⟨s', hs', hk⟩ := h.1.step_kept (P := P) hl.1 hl.2 hs
      refine ⟨h.1.step P hl.1, s', hs', hk.epoch.trans he, fun pattern hp => ?_⟩
      obtain ⟨sub, hsub, hf⟩ := hsubs pattern hp
      obtain ⟨extra, hextra, -⟩ := hk.subscriptions
      exact ⟨sub, hextra ▸ List.mem_append_left _ hsub, hf⟩) ⟨hok, h⟩ ls ha
  obtain ⟨s, hs, rfl, hsubs⟩ := hinv.2
  refine step_forwarded hinv.1 hs hr hpub hm ?_
  obtain ⟨pattern, hp, hmatch⟩ := hmatch
  obtain ⟨sub, hsub, rfl⟩ := hsubs pattern hp
  exact ⟨sub, hsub, hmatch⟩

/-- The step leaves the bridge's subscriptions as they are, pushes no Shutdown into its channel, and the bridge goes on
forwarding what matches them. -/
structure Exempt (P : Protocol) (w : World) (l : Label) (name : String) (s : Session) : Prop where
  subscriptions : ∃ s', (step P w l).1.broker.sessions.lookup (bridgeClient name) = some s' ∧
    s'.subscriptions = s.subscriptions
  shutdown : ∀ rc, .shutdown rc ∉ w.pushed P l (bridgeClient name) s.epoch
  forwards : (step P w l).1.Forwards P name s.epoch (s.subscriptions.map (·.filter))

theorem unauthorized_eq_nil_iff {acl : Acl} : s.unauthorized P acl = [] ↔ s.Authorized P acl := by
  simp [Session.unauthorized, Session.Authorized, List.filter_eq_nil_iff]

/-- **A bridge survives a reload** if and only if the policy grants `$bridge` every filter the bridge subscribed. -/
theorem bridge_exempt_iff (P : Protocol) (now : Nat) (cfg : Config) (db : Db) (acl₀ : Acl) (auth : Option Credentials)
    (ls : List Label) (hls : ∀ l ∈ ls, l.Addressed) (w : World) (hw : w = (run P (boot P now cfg db acl₀ auth) ls).1)
    (l : Label) (acl : Acl) (hsel : w.selected l.input = some (.revoke acl)) (he : acl.isEnforced) (name : String)
    (s : Session) (hs : w.broker.sessions.lookup (bridgeClient name) = some s) :
    w.Exempt P l name s ↔ ∀ sub ∈ s.subscriptions, acl.canSubscribe P "$bridge" sub.filter = true := by
  have hok : w.BridgesOk := hw ▸ run_bridgesOk P (boot_bridgesOk P now cfg db acl₀ auth) hls
  have hid : who s.identity = "$bridge" := by rw [(hok.sessions name s hs).identity]; rfl
  obtain ⟨cmds, hlookup⟩ := revokeUnauthorized_lookup (P := P) l.ord he hs
  have hstep : (step P w l).1.broker.sessions.lookup (bridgeClient name) =
      some (revokeVisit P acl (bridgeClient name) s cmds).1 := (step_of_selected (P := P) hsel).1 ▸ hlookup
  constructor
  · intro h sub hsub
    obtain ⟨s', hs', hsubs⟩ := h.subscriptions
    rw [hstep] at hs'
    cases hs'
    rw [(revokeVisit_sameRecord acl _ s cmds).subscriptions] at hsubs
    rw [← hid]
    exact List.filter_eq_self.1 hsubs sub hsub
  · intro h
    rw [← hid] at h
    -- nothing is revoked: the session stays as it is
    have hsame : (revokeVisit P acl (bridgeClient name) s cmds).1 = s := by
      simp only [revokeVisit, unauthorized_eq_nil_iff.2 h, List.isEmpty_nil, if_true, Session.retainAuthorized,
        List.filter_eq_self.2 h]
    rw [hsame] at hstep
    obtain ⟨tx, htx⟩ := Option.isSome_iff_exists.1 (hok.sessions name s hs).online
    refine ⟨⟨s, hstep, rfl⟩, fun rc hrc => ?_, ?_⟩
    · rw [pushed_of_lookup hs htx hstep rfl htx] at hrc
      simp at hrc
    · refine Holds.forwards ⟨s, hstep, rfl, fun pattern hp => ?_⟩ (hok.step P ?_)
      · obtain ⟨sub, hsub, rfl⟩ := List.mem_map.1 hp
        exact ⟨sub, hsub, rfl⟩
      · constructor
        · intro cid epoch p hin
          rw [hin] at hsel
          cases hsel
        · intro cid epoch pw hin
          rw [hin] at hsel
          cases hsel

/-- A bridge that forwards `sensors/t`, and a reload of the policy that waits for its revocation pass. -/
def bridgeReload (acl : Acl) : List Label :=
  [{ input := .call (.registerBridge "up") }, { input := .call (.bridgeAddSubscription "up" "sensors/t" true) },
    { input := .call (.reload (some acl)) }]

theorem bridgeReload_addressed (acl : Acl) : ∀ l ∈ bridgeReload acl, l.Addressed := by
  intro l hl
  simp only [bridgeReload, List.mem_cons, List.not_mem_nil, or_false] at hl
  rcases hl with rfl | rfl | rfl <;> exact ⟨fun _ _ _ h => (by cases h), fun _ _ _ h => (by cases h)⟩

/-- A policy that grants everyone the bridge's filter leaves the bridge alone. -/
theorem bridge_exempt_granted :
    ∃ s, (run .reference (boot .reference 0 { aclPath := some "acl" } {} .permitAll none)
        (bridgeReload (subscribeOnly ["sensors/t"]))).1.broker.sessions.lookup (bridgeClient "up") = some s ∧
      s.subscriptions.map (·.filter) = ["sensors/t"] ∧
      (run .reference (boot .reference 0 { aclPath := some "acl" } {} .permitAll none)
        (bridgeReload (subscribeOnly ["sensors/t"]))).1.Exempt .reference { input := .task 0 } "up" s := by
  have h : ((run .reference (boot .reference 0 { aclPath := some "acl" } {} .permitAll none)
      (bridgeReload (subscribeOnly ["sensors/t"]))).1.broker.sessions.lookup (bridgeClient "up")).map
        (fun s => s.subscriptions.map (·.filter)) = some ["sensors/t"] := by decide +kernel
  obtain ⟨s, hs, hsubs⟩ := Option.map_eq_some_iff.1 h
  refine ⟨s, hs, hsubs, ?_⟩
  refine (bridge_exempt_iff .reference 0 { aclPath := some "acl" } {} .permitAll none _ (bridgeReload_addressed _) _ rfl
    { input := .task 0 } (subscribeOnly ["sensors/t"]) (by decide +kernel) rfl "up" s hs).2 fun sub hsub => ?_
  have hf : sub.filter = "sensors/t" := by
    have := List.mem_map_of_mem (f := Subscription.filter) hsub
    rw [hsubs] at this
    exact List.mem_singleton.1 this
  rw [hf]
  decide +kernel

/-- A policy that does not mention bridges takes the bridge's subscription away, pushes a Shutdown into its channel, and
a message that matches does not reach it any more. -/
theorem bridge_revoked :
    ((run .reference (boot .reference 0 { aclPath := some "acl" } {} .permitAll none)
      (bridgeReload (subscribeOnly ["t"]) ++ [{ input := .task 0 }])).1.broker.sessions.lookup (bridgeClient "up")).map
        (fun s => (s.subscriptions.map (·.filter), s.out.map (·.sent))) =
      some ([], some [.shutdown .notAuthorized]) ∧
    ((run .reference (boot .reference 0 { aclPath := some "acl" } {} .permitAll none)
      (bridgeReload (subscribeOnly ["t"]) ++ [{ input := .task 0 },
        { input := .call (.injectPublish "down" ⟨"sensors/t", [1], .atMostOnce, false, none, none, none, none, [], none⟩) }])).1.broker.sessions.lookup (bridgeClient "up")).map
        (fun s => s.out.map (·.sent)) = some (some [.shutdown .notAuthorized]) ∧
    ¬∀ s, (run .reference (boot .reference 0 { aclPath := some "acl" } {} .permitAll none)
        (bridgeReload (subscribeOnly ["t"]))).1.broker.sessions.lookup (bridgeClient "up") = some s →
      (run .reference (boot .reference 0 { aclPath := some "acl" } {} .permitAll none)
        (bridgeReload (subscribeOnly ["t"]))).1.Exempt .reference { input := .task 0 } "up" s := by
  refine ⟨by decide +kernel, by decide +kernel, fun hall => ?_⟩
  have h : ((run .reference (boot .reference 0 { aclPath := some "acl" } {} .permitAll none)
      (bridgeReload (subscribeOnly ["t"]))).1.broker.sessions.lookup (bridgeClient "up")).map
        (fun s => s.subscriptions.map (·.filter)) = some ["sensors/t"] := by decide +kernel
  have h' : ((step .reference (run .reference (boot .reference 0 { aclPath := some "acl" } {} .permitAll none)
      (bridgeReload (subscribeOnly ["t"]))).1 { input := .task 0 }).1.broker.sessions.lookup (bridgeClient "up")).map
        (fun s => s.subscriptions.map (·.filter)) = some [] := by decide +kernel
  obtain ⟨s, hs, hsubs⟩ := Option.map_eq_some_iff.1 h
  obtain ⟨s', hs', hkept⟩ := (hall s hs).subscriptions
  rw [hs', Option.map_some, hkept, hsubs] at h'
  cases h'

end World

end WispMQ
