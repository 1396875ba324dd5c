import WispMQ.Federation
import WispMQ.Bridges
import WispMQ.Server
/-!
# What comes back over a bridge

A message is followed by its payload through two brokers that are bridged to each other. `outside` counts how often it is
published by others than the bridges; what the bridges do with it is paid for by that (`Machine.total_le`): a copy that
waits in the local channel of a bridge was routed there, and a PUBLISH that a broker gets from the remote's bridge was
forwarded by it.

The local subscription of a bridge is No Local, and that is all there is against loops: it compares client ids, and the
remote's bridge publishes under the client id of its connection. So the bound holds as long as what comes back matches
none of the patterns (`echoes`), and `echoed` is a run in which it does match.
-/

namespace WispMQ
open KeyMap

/-! ## Invariants of the brokers -/

namespace World
open Broker
variable {P : Protocol} {payload : Bytes} {w : World} {l : Label} {name : String} {s s' : Session}

/-- What the broker of a side keeps up, whatever the bridges do. -/
structure Sound (w : World) : Prop where
  bridges : w.BridgesOk
  epochs : w.EpochsOk
  channels : ∀ req, .connect req ∈ w.tasks → req.out = {}
  packets : ∀ cid epoch p, .dispatch cid epoch p ∈ w.tasks → epoch < w.broker.nextEpoch

theorem Sound.step (P : Protocol) (h : w.Sound) (hl : l.Addressed) : (World.step P w l).1.Sound where
  bridges := h.bridges.step P hl
  epochs := step_epochsOk P l h.epochs
  channels req ht := by
    rcases step_tasks ht with ht | ht
    · exact h.channels req ht
    · obtain ⟨c, hc⟩ := ht.requested
      exact hc.out
  packets cid epoch p ht := by
    refine lt_of_lt_of_le ?_ (step_nextEpoch_le P w l)
    rcases step_tasks ht with ht | ht
    · exact h.packets cid epoch p ht
    · obtain ⟨-, s, hs, rfl⟩ := ht.dispatched
      exact h.epochs cid s hs

theorem boot_sound (P : Protocol) (now : Nat) (cfg : Config) (db : Db) (acl : Acl) (auth : Option Credentials) :
    (boot P now cfg db acl auth).Sound where
  bridges := boot_bridgesOk P now cfg db acl auth
  epochs := boot_epochsOk P now cfg db acl auth
  channels req ht := by simp [boot] at ht
  packets cid epoch p ht := by simp [boot] at ht

/-- The session of a bridge that has the payload in its channel at most, and is not sent what it publishes itself. -/
structure OneWay (payload : Bytes) (s : Session) : Prop where
  lacks : s.Lacks payload
  noLocal : ∀ sub ∈ s.subscriptions, sub.noLocal = true

/-- The bridge subscribes at QoS 0, and no packet is handled for its client id. -/
theorem Sound.step_gains (h : w.Sound) (hs : w.broker.sessions.lookup (bridgeClient name) = some s)
    (hs' : (World.step P w l).1.broker.sessions.lookup (bridgeClient name) = some s') (hl : s.Lacks payload) :
    Turn payload ((World.step P w l).2.countP (·.reaches P payload (bridgeClient name) s.subscriptions)) s s' := by
  refine World.step_gains hs hs' hl (fun origin m _ _ sub hsub _ => ?_) (fun sub hsel => ?_)
    fun req hsel => h.channels req (selected_mem hsel)
  · have hbridge := (h.bridges.sessions name s hs).subscriptions sub hsub
    exact ⟨hbridge.1, by rw [hbridge.2]; exact QoS.min_atMostOnce _⟩
  · have hres := reserved_bridgeClient name
    rw [h.bridges.packets _ _ _ (selected_mem hsel)] at hres
    cases hres

theorem Sound.step_oneWay (P : Protocol) (h : w.Sound) (hl : l.Addressed)
    (hone : ∀ s, w.broker.sessions.lookup (bridgeClient name) = some s → OneWay payload s)
    (hlocal : ∀ filter noLocal, l.input = .call (.bridgeAddSubscription name filter noLocal) → noLocal = true)
    (hs' : (World.step P w l).1.broker.sessions.lookup (bridgeClient name) = some s') : OneWay payload s' where
  lacks := by
    cases hs : w.broker.sessions.lookup (bridgeClient name) with
    | none => exact (step_new hs hs' fun req hsel => h.channels req (selected_mem hsel)).1
    | some s => exact (h.step_gains hs hs' (hone s hs).lacks).lacks
  noLocal sub hsub := by
    rcases h.bridges.step_subscriptions P hl hs' sub hsub with ⟨s, hs, hsub⟩ | hin
    · exact (hone s hs).noLocal sub hsub
    · exact hlocal _ _ hin

end World

theorem Label.addressed_of_selected {w : World} {l : Label} {t : Task} (h : w.selected l.input = some t) : l.Addressed := by
  constructor
  · intro cid epoch p hin
    rw [hin] at h
    cases h
  · intro cid epoch publishWill hin
    rw [hin] at h
    cases h

/-- No packet and no close. -/
theorem Label.addressed_of_ne {l : Label} (hp : ∀ cid epoch p, l.input ≠ .call (.packet cid epoch p))
    (hc : ∀ cid epoch publishWill, l.input ≠ .call (.closed cid epoch publishWill)) : l.Addressed :=
  ⟨fun _ _ _ h => absurd h (hp _ _ _), fun _ _ _ h => absurd h (hc _ _ _)⟩

/-! ## Invariants of the bridges -/

theorem mem_of_nextPacket {link : Link} {wire : List (Link × Packet)} {packet : Packet}
    (h : nextPacket link wire = some packet) : (link, packet) ∈ wire := by
  obtain ⟨t, ht, rfl⟩ := Option.map_eq_some_iff.1 h
  have hlink : t.1 = link := by simpa using List.find?_some ht
  exact hlink ▸ List.mem_of_find?_eq_some ht

theorem mem_of_mem_dropPacket {link : Link} {wire : List (Link × Packet)} {t : Link × Packet}
    (h : t ∈ dropPacket link wire) : t ∈ wire := List.mem_of_mem_eraseP h

/-- What a wire has of some kind, the packet read and those left have. -/
theorem countP_dropPacket {link : Link} {packet : Packet} (q : Link × Packet → Bool) : ∀ {wire : List (Link × Packet)},
    nextPacket link wire = some packet →
    (dropPacket link wire).countP q + (if q (link, packet) then 1 else 0) = wire.countP q
  | [], h => by cases h
  | t :: wire, h => by
    by_cases ht : t.1 = link
    · obtain ⟨link', packet'⟩ := t
      simp only at ht
      subst ht
      simp only [nextPacket, List.find?_cons, decide_true, Option.map_some, Option.some.injEq] at h
      subst h
      simp [dropPacket, List.countP_cons]
    · have hrest : nextPacket link wire = some packet := by simpa [nextPacket, ht] using h
      have hdrop : dropPacket link (t :: wire) = t :: dropPacket link wire := by simp [dropPacket, ht]
      rw [hdrop, List.countP_cons, List.countP_cons, ← countP_dropPacket q hrest]
      omega

namespace Bridge
open Federation
variable {P : Protocol} {own remote : World} {x : Side} {b : Bridge} {plan : Plan} {payload : Bytes}

/-- The bridge uses the connections it was given. -/
structure Ok (b : Bridge) : Prop where
  serving : ∀ link loop, b.phase = .serving link loop → reservedClientId link.1 = false
  up : ∀ t ∈ b.up, reservedClientId t.1.1 = false

theorem Ok.append (h : b.Ok) (link : Link) (hlink : reservedClientId link.1 = false) (ps : List Packet) :
    ∀ t ∈ b.up ++ ps.map (link, ·), reservedClientId t.1.1 = false := by
  intro t ht
  rcases List.mem_append.1 ht with ht | ht
  · exact h.up t ht
  · obtain ⟨p, -, rfl⟩ := List.mem_map.1 ht
    exact hlink

theorem Does.ok (h : b.Does P own remote x plan) (hb : b.Ok) (hremote : remote.Sound) :
    ∃ b', plan.bridge = some b' ∧ b'.cfg = b.cfg ∧ b'.Ok := by
  cases h with
  | register => exact ⟨_, rfl, rfl, (by rintro link loop ⟨⟩), hb.up⟩
  | subscribe => exact ⟨_, rfl, rfl, (by rintro link loop ⟨⟩), hb.up⟩
  | rest => exact ⟨_, rfl, rfl, (by rintro link loop ⟨⟩), hb.up⟩
  | connect => exact ⟨_, rfl, rfl, (by rintro link loop ⟨⟩), hb.up⟩
  | @accept l req hsel =>
    have hlink : reservedClientId req.clientId = false := hremote.bridges.connects req (World.selected_mem hsel)
    refine ⟨_, rfl, rfl, ?_, hb.append (req.clientId, _) hlink _⟩
    rintro link loop ⟨⟩
    exact hlink
  | forward hphase =>
    have hlink := hb.serving _ _ hphase
    refine ⟨_, rfl, rfl, ?_, hb.append _ hlink [_]⟩
    rintro link loop ⟨⟩
    exact hlink
  | discard hphase =>
    refine ⟨_, rfl, rfl, ?_, hb.up⟩
    rcases hphase with rfl | rfl
    · exact hb.serving
    · rintro link loop ⟨⟩
  | ping hphase => exact ⟨_, rfl, rfl, hb.serving, hb.append _ (hb.serving _ _ hphase) [_]⟩
  | arrive => exact ⟨_, rfl, rfl, hb.serving, fun t ht => hb.up t (mem_of_mem_dropPacket ht)⟩
  | emit => exact ⟨_, rfl, rfl, hb.serving, hb.up⟩
  | @receive link loop packet now ord hphase =>
    have hlink := hb.serving _ _ hphase
    refine ⟨_, rfl, rfl, fun link' loop' h => ?_, hb.append link hlink _⟩
    cases hloop : (loop.receive now packet).loop with
    | none =>
      simp only [hloop, Option.map_none, Option.getD_none] at h
      cases h
    | some loop₁ =>
      simp only [hloop, Option.map_some, Option.getD_some] at h
      cases h
      exact hlink
  | cut => exact ⟨_, rfl, rfl, hb.serving, fun t ht => hb.up t (List.mem_of_mem_filter ht)⟩

theorem Does.addressed (h : b.Does P own remote x plan) (hb : b.Ok) {z : Side} {l : Label}
    (hcall : plan.call = some (z, l)) : l.Addressed := by
  cases h with
  | accept hsel =>
    cases hcall
    exact Label.addressed_of_selected hsel
  | arrive hnext =>
    cases hcall
    refine ⟨fun cid epoch p hin => ?_, fun _ _ _ hin => by cases hin⟩
    cases hin
    exact hb.up (_, _) (mem_of_nextPacket hnext)
  | receive =>
    obtain ⟨m, -, hm⟩ := Option.map_eq_some_iff.1 hcall
    cases hm
    exact Label.addressed_of_ne (by simp) (by simp)
  | rest => cases hcall
  | ping => cases hcall
  | cut => cases hcall
  | _ =>
    cases hcall
    exact Label.addressed_of_ne (by simp) (by simp)

end Bridge

namespace Federation
variable {P : Protocol} {payload : Bytes} {f : Federation} {x : Side × Act} {z : Side} {l : Label}

theorem free_addressed (h : f.free z l) : l.Addressed := by
  constructor
  · intro cid epoch p hin
    simp only [free, hin, Bool.and_eq_true, Bool.not_eq_true'] at h
    exact h.1
  · intro cid epoch publishWill hin
    simpa only [free, hin, Bool.not_eq_true'] using h

structure Ok (payload : Bytes) (f : Federation) : Prop where
  world : ∀ z, (f.world z).Sound
  bridge : ∀ z b, f.bridge z = some b → b.Ok
  session : ∀ z b s, f.bridge z = some b → (f.world z).broker.sessions.lookup b.client = some s → World.OneWay payload s

theorem start_ok (P : Protocol) (payload : Bytes) (setup : Side → Setup) : (start P setup).Ok payload where
  world z := World.boot_sound ..
  bridge z b hb := by
    obtain ⟨cfg, -, rfl⟩ := Option.map_eq_some_iff.1 hb
    exact ⟨fun _ _ h => (by cases h), fun t ht => (by cases ht)⟩
  session z b s hb hs := by
    simp only [start, World.boot_lookup, Bridge.client, reserved_bridgeClient, if_true] at hs
    cases hs

theorem Ok.addressed (h : f.Ok payload) (hl : f.labelAt P z x = some l) : l.Addressed := by
  cases labelAt_calls hl with
  | broker _ hfree => exact free_addressed hfree
  | own hb hd hcall => exact hd.addressed (h.bridge _ _ hb) hcall
  | remote hb hd hcall => exact hd.addressed (h.bridge _ _ hb) hcall

/-- A bridge subscribes No Local. -/
theorem labelAt_noLocal {name filter : String} {noLocal : Bool} (hl : f.labelAt P z x = some l)
    (hin : l.input = .call (.bridgeAddSubscription name filter noLocal)) : noLocal = true := by
  have hdoes : ∀ {y : Side} {own remote : World} {b : Bridge} {plan : Plan}, b.Does P own remote y plan →
      plan.call = some (z, l) → noLocal = true := by
    intro y own remote b plan hd hcall
    cases hd with
    | subscribe =>
      cases hcall
      cases hin
      rfl
    | accept hsel =>
      cases hcall
      rw [hin] at hsel
      cases hsel
    | receive =>
      obtain ⟨m, -, hm⟩ := Option.map_eq_some_iff.1 hcall
      cases hm
      cases hin
    | rest => cases hcall
    | ping => cases hcall
    | cut => cases hcall
    | _ =>
      cases hcall
      cases hin
  cases labelAt_calls hl with
  | broker _ hfree => simp [free, hin] at hfree
  | own _ hd hcall => exact hdoes hd hcall
  | remote _ hd hcall => exact hdoes hd hcall

/-- A bridge keeps its configuration. -/
theorem Ok.step_bridge (h : f.Ok payload) {b' : Bridge} (hb' : (step P f x).1.bridge z = some b') :
    ∃ b, f.bridge z = some b ∧ b'.cfg = b.cfg ∧ b'.Ok := by
  cases hplan : f.plan P x.1 x.2 with
  | none =>
    rw [step_of_none hplan] at hb'
    exact ⟨b', hb', rfl, h.bridge z b' hb'⟩
  | some plan =>
    rw [Federation.step_bridge hplan] at hb'
    obtain ⟨b₁, hb₁, rfl⟩ := Option.map_eq_some_iff.1 hb'
    have hkeep : f.bridge z = some b₁ → ∃ b, f.bridge z = some b ∧ b₁.cfg = b.cfg ∧ b₁.Ok :=
      fun hb => ⟨b₁, hb, rfl, h.bridge z b₁ hb⟩
    obtain ⟨b, hb, hcfg, hok⟩ : ∃ b, f.bridge z = some b ∧ b₁.cfg = b.cfg ∧ b₁.Ok := by
      split at hb₁
      · rename_i hz
        subst hz
        rcases plan_cases hplan with ⟨l, -, -, rfl⟩ | ⟨b, hb, hd⟩
        · exact hkeep hb₁
        · obtain ⟨b₂, hb₂, hcfg, hok⟩ := hd.ok (h.bridge _ b hb) (h.world _)
          rw [hb₁] at hb₂
          cases hb₂
          exact ⟨b, hb, hcfg, hok⟩
      · exact hkeep hb₁
    exact ⟨b, hb, hcfg, hok.serving, hok.up⟩

theorem Ok.bridge_none (P : Protocol) (h : f.Ok payload) (x : Side × Act) (hb : f.bridge z = none) :
    (Federation.step P f x).1.bridge z = none := by
  cases hb' : (Federation.step P f x).1.bridge z with
  | none => rfl
  | some b' =>
    obtain ⟨b, hb₀, -⟩ := h.step_bridge hb'
    rw [hb] at hb₀
    cases hb₀

theorem Ok.step (P : Protocol) (h : f.Ok payload) (x : Side × Act) : (step P f x).1.Ok payload where
  world z := by
    rw [step_world]
    cases hl : f.labelAt P z x with
    | none => exact h.world z
    | some l => exact (h.world z).step P (h.addressed hl)
  bridge z b' hb' := by
    obtain ⟨b, -, -, hok⟩ := h.step_bridge hb'
    exact hok
  session z b' s' hb' hs' := by
    obtain ⟨b, hb, hcfg, -⟩ := h.step_bridge hb'
    have hclient : b'.client = bridgeClient b.cfg.name := by rw [Bridge.client, hcfg]
    rw [step_world, hclient] at hs'
    cases hl : f.labelAt P z x with
    | none =>
      rw [hl] at hs'
      exact h.session z b s' hb hs'
    | some l =>
      rw [hl] at hs'
      exact (h.world z).step_oneWay P (h.addressed hl) (fun s hs => h.session z b s hb hs)
        (fun _ _ hin => labelAt_noLocal hl hin) hs'

end Federation

/-! ## Who publishes the message -/

/-- The effect is a call of `route` for a message with the payload that did not come over a connection of the remote's
bridge, nor from a bridge. -/
def Effect.outside (payload : Bytes) (isLink : Link → Bool) : Effect → Bool
  | .routed (.publish c e) m => m.payload = payload && !isLink (c, e)
  | .routed (.bridge _) _ => false
  | .routed _ m => m.payload = payload
  | _ => false

/-- A bridge sends the payload to its remote. -/
def Output.forwards (payload : Bytes) (x : Side) : Output → Bool
  | .forward y p => y = x && p.payload = payload
  | .broker .. => false

namespace Federation
variable {P : Protocol} {payload : Bytes} {f : Federation} {x : Side × Act} {z : Side} {l : Label}

/-- How often the payload is published at `z` in a step, other than by the bridges: by a client, as a Will, under
`$SYS/`. -/
def outside (P : Protocol) (payload : Bytes) (z : Side) (f : Federation) (x : Side × Act) : Nat :=
  ((step P f x).2.filterMap (Output.effectAt z)).countP (·.outside payload (f.isLink z))

/-- How often the bridge of `z` forwards the payload in a step. -/
def forwards (P : Protocol) (payload : Bytes) (z : Side) (f : Federation) (x : Side × Act) : Nat :=
  (step P f x).2.countP (·.forwards payload z)

/-- The connections the bridge of the other side has had with the broker at `z`. -/
def linksAt (f : Federation) (z : Side) : List Link := (f.bridge z.other).elim [] (·.links)

/-- How often the broker at `z` routes the payload for the remote's bridge. -/
def relayed (P : Protocol) (payload : Bytes) (z : Side) (f : Federation) (x : Side × Act) : Nat :=
  (f.effectsAt P z x).countP (·.relays payload (f.linksAt z))

/-- The copies that wait for the bridge of `z`. -/
def waitingAt (payload : Bytes) (z : Side) (f : Federation) : Nat :=
  (f.bridge z).elim 0 fun b => ((f.world z).broker.sessions.lookup b.client).elim 0 (·.waiting payload)

/-- The copies under way to the broker at `z`: on the wire, or read and waiting for the lock. -/
def underway (payload : Bytes) (z : Side) (f : Federation) : Nat :=
  (f.bridge z.other).elim 0 fun b =>
    b.up.countP (·.2.bears payload) + (f.world z).tasks.countP (·.handles payload b.links)

/-- The broker at `z` hands the payload to `route`, and its bridge has a subscription that takes part. -/
def reachesBridge (P : Protocol) (payload : Bytes) (z : Side) (f : Federation) (e : Effect) : Bool :=
  (f.bridge z).any fun b => ((f.world z).broker.sessions.lookup b.client).any fun s =>
    e.reaches P payload b.client s.subscriptions

theorem forwards_eq (P : Protocol) (payload : Bytes) (z : Side) (f : Federation) (x : Side × Act) :
    forwards P payload z f x =
      if x.1 = z then ((f.plan P x.1 x.2).elim [] (·.forwards)).countP (·.payload = payload) else 0 := by
  have hbroker : ∀ (y : Side) (es : List Effect), (es.map (Output.broker y)).countP (·.forwards payload z) = 0 := by
    intro y es
    simp [List.countP_map, Function.comp_def, Output.forwards]
  have hforward : ∀ ps : List Publish, (ps.map (Output.forward x.1)).countP (·.forwards payload z) =
      if x.1 = z then ps.countP (·.payload = payload) else 0 := by
    intro ps
    by_cases hz : x.1 = z <;> simp [List.countP_map, Function.comp_def, Output.forwards, hz]
  unfold forwards step
  cases hplan : f.plan P x.1 x.2 with
  | none => simp
  | some plan =>
    cases hcall : plan.call with
    | none => simp [hcall, hforward]
    | some c => simp [hcall, call, hforward, hbroker]

end Federation

/-! ## What waits for a bridge -/

namespace World
open Broker
variable {P : Protocol} {payload : Bytes} {w : World} {l : Label} {name : String} {s : Session}

/-- A copy comes to the local channel of a bridge by routing. -/
theorem Sound.step_waiting (P : Protocol) (l : Label) (h : w.Sound)
    (hone : ∀ s, w.broker.sessions.lookup (bridgeClient name) = some s → OneWay payload s) :
    ((World.step P w l).1.broker.sessions.lookup (bridgeClient name)).elim 0 (·.waiting payload) ≤
      (w.broker.sessions.lookup (bridgeClient name)).elim 0 (·.waiting payload) +
        (World.step P w l).2.countP fun e => (w.broker.sessions.lookup (bridgeClient name)).any fun s =>
          e.reaches P payload (bridgeClient name) s.subscriptions := by
  cases hs' : (World.step P w l).1.broker.sessions.lookup (bridgeClient name) with
  | none => exact Nat.zero_le _
  | some s' =>
    cases hs : w.broker.sessions.lookup (bridgeClient name) with
    | none =>
      have hnew : s'.Lacks payload ∧ s'.Silent payload :=
        step_new hs hs' fun req hsel => h.channels req (selected_mem hsel)
      simp [hnew.2.waiting]
    | some s =>
      rcases h.step_gains hs hs' (hone s hs).lacks with ⟨-, hgains⟩ | ⟨-, hsilent⟩
      · exact hgains.waiting_le
      · simp [hsilent.waiting]

/-- The bridge takes an item. -/
theorem recv_waiting (P : Protocol) (payload : Bytes) {cid : String} {tx : OutTx} {item : Outgoing} (hin : l.input = .recv cid s.epoch)
    (hs : w.broker.sessions.lookup cid = some s) (htx : s.out = some tx) (hitem : tx.waiting.head? = some item) :
    ((World.step P w l).1.broker.sessions.lookup cid).elim 0 (·.waiting payload) +
      (if item.carries payload then 1 else 0) = s.waiting payload := by
  obtain ⟨rest, hrest⟩ := List.head?_eq_some_iff.1 hitem
  have hlt : tx.received < tx.sent.length := by
    refine Nat.lt_of_not_le fun hle => ?_
    rw [OutTx.waiting, List.drop_eq_nil_of_le hle] at hrest
    cases hrest
  have hrecv : tx.recv.waiting = rest := by
    have htail := congrArg List.tail hrest
    rw [OutTx.waiting, List.tail_drop] at htail
    simp only [OutTx.recv, hlt, if_true, OutTx.waiting]
    exact htail
  simp only [World.step, hin, modifySession, hs, setSession, AList.lookup_insert, Option.elim_some, Session.onChannel, if_true,
    Session.waiting, htx, Option.map_some, hrecv, hrest, List.countP_cons]

end World

namespace Federation
variable {P : Protocol} {payload : Bytes} {f : Federation} {x : Side × Act} {z : Side} {l : Label}

/-- What the bridge forwards has waited for it, and what waits for it was routed to it. -/
theorem Ok.step_waiting (P : Protocol) (h : f.Ok payload) (x : Side × Act) (z : Side) :
    waitingAt payload z (Federation.step P f x).1 + forwards P payload z f x ≤
      waitingAt payload z f + (f.effectsAt P z x).countP (f.reachesBridge P payload z) := by
  cases hb : f.bridge z with
  | none =>
    have hafter := h.bridge_none P x hb
    have hforwards : forwards P payload z f x = 0 := by
      rw [forwards_eq]
      split
      · rename_i hz
        subst hz
        cases hplan : f.plan P x.1 x.2 with
        | none => rfl
        | some plan =>
          rcases plan_cases hplan with ⟨l, -, -, rfl⟩ | ⟨b, hb₀, -⟩
          · rfl
          · rw [hb] at hb₀
            cases hb₀
      · rfl
    simp [waitingAt, hafter, hforwards]
  | some b =>
    -- the session of the bridge after the step
    set after := ((Federation.step P f x).1.world z).broker.sessions.lookup b.client with hafter
    have hle : waitingAt payload z (Federation.step P f x).1 ≤ after.elim 0 (·.waiting payload) := by
      unfold waitingAt
      cases hb' : (Federation.step P f x).1.bridge z with
      | none => exact Nat.zero_le _
      | some b' =>
        obtain ⟨b₀, hb₀, hcfg, -⟩ := h.step_bridge hb'
        rw [hb] at hb₀
        cases hb₀
        rw [hafter, Option.elim_some, Bridge.client, Bridge.client, hcfg]
    have hquiet : forwards P payload z f x = 0 → waitingAt payload z (Federation.step P f x).1 + forwards P payload z f x ≤
        waitingAt payload z f + (f.effectsAt P z x).countP (f.reachesBridge P payload z) := by
      intro hforwards
      have hstep : after.elim 0 (·.waiting payload) ≤
          waitingAt payload z f + (f.effectsAt P z x).countP (f.reachesBridge P payload z) := by
        rw [hafter, step_world, effectsAt]
        cases hl : f.labelAt P z x with
        | none => simp [waitingAt, hb]
        | some l =>
          have hreach : f.reachesBridge P payload z = fun e =>
              ((f.world z).broker.sessions.lookup b.client).any fun s => e.reaches P payload b.client s.subscriptions := by
            funext e
            simp [reachesBridge, hb]
          simp only [waitingAt, hb, hreach, Option.elim_some]
          exact (h.world z).step_waiting P l fun s hs => h.session z b s hb hs
      omega
    by_cases hz : x.1 = z
    · subst hz
      cases hplan : f.plan P x.1 x.2 with
      | none => exact hquiet (by simp [forwards_eq, hplan])
      | some plan =>
        rcases plan_cases hplan with ⟨l, -, -, rfl⟩ | ⟨b₀, hb₀, hd⟩
        · exact hquiet (by simp [forwards_eq, hplan])
        · rw [hb] at hb₀
          cases hb₀
          cases hd with
          | @forward link loop s tx publish hphase hs htx hitem =>
            have hl : f.labelAt P x.1 x = some { input := .recv b.client s.epoch } := by simp [labelAt, hplan]
            have hrecv := World.recv_waiting P payload (l := { input := .recv b.client s.epoch }) rfl hs htx hitem
            have hforwards : forwards P payload x.1 f x = if (Outgoing.send publish).carries payload then 1 else 0 := by
              by_cases hp : publish.payload = payload <;> simp [forwards_eq, hplan, Outgoing.carries, hp]
            have hbefore : waitingAt payload x.1 f = s.waiting payload := by simp [waitingAt, hb, hs]
            rw [hafter, step_world, hl, Option.elim_some] at hle
            omega
          | _ => exact hquiet (by simp [forwards_eq, hplan])
    · exact hquiet (by simp [forwards_eq, hz])

/-! ## What reaches a bridge -/

theorem isLink_eq (f : Federation) (z : Side) (link : Link) : f.isLink z link = decide (link ∈ f.linksAt z) := by
  unfold isLink linksAt
  cases f.bridge z.other with
  | none => simp
  | some b => rfl

/-- What is injected, the bridge of the side has read from its remote. -/
theorem labelAt_inject {name : String} {m : Message} (hl : f.labelAt P z x = some l)
    (hin : l.input = .call (.injectPublish name m)) :
    ∃ b link loop packet, f.bridge z = some b ∧ name = b.cfg.name ∧ b.phase = .serving link loop ∧
      nextPacket link b.down = some packet ∧ (loop.receive l.now packet).inject = some m := by
  have hdoes : ∀ {y : Side} {own remote : World} {b : Bridge} {plan : Plan}, b.Does P own remote y plan →
      plan.call = some (z, l) → y = z ∧ name = b.cfg.name ∧ ∃ link loop packet, b.phase = .serving link loop ∧
        nextPacket link b.down = some packet ∧ (loop.receive l.now packet).inject = some m := by
    intro y own remote b plan hd hcall
    cases hd with
    | accept hsel =>
      cases hcall
      rw [hin] at hsel
      cases hsel
    | receive hphase hnext =>
      obtain ⟨m', hm', he⟩ := Option.map_eq_some_iff.1 hcall
      cases he
      cases hin
      exact ⟨rfl, rfl, _, _, _, hphase, hnext, hm'⟩
    | rest => cases hcall
    | ping => cases hcall
    | cut => cases hcall
    | _ =>
      cases hcall
      cases hin
  cases labelAt_calls hl with
  | broker _ hfree => simp [free, hin] at hfree
  | own hb hd hcall =>
    obtain ⟨-, hname, link, loop, packet, h⟩ := hdoes hd hcall
    exact ⟨_, link, loop, packet, hb, hname, h⟩
  | remote _ hd hcall => exact absurd (hdoes hd hcall).1 (Side.other_ne z)

/-- A packet is handled in a step of the broker alone. -/
theorem labelAt_dispatch {c : String} {e : Nat} {packet : Packet} (hl : f.labelAt P z x = some l)
    (hsel : (f.world z).selected l.input = some (.dispatch c e packet)) : x = (z, .broker l) := by
  have hdoes : ∀ {y : Side} {own remote : World} {b : Bridge} {plan : Plan}, b.Does P own remote y plan →
      remote = f.world z ∨ y = z → plan.call = some (z, l) → x = (z, .broker l) := by
    intro y own remote b plan hd hy hcall
    cases hd with
    | accept hreq =>
      cases hcall
      rcases hy with rfl | hy
      · rw [hsel] at hreq
        cases hreq
      · exact absurd hy.symm (Side.other_ne y)
    | receive =>
      obtain ⟨m', -, he⟩ := Option.map_eq_some_iff.1 hcall
      cases he
      cases hsel
    | rest => cases hcall
    | ping => cases hcall
    | cut => cases hcall
    | _ =>
      cases hcall
      cases hsel
  cases labelAt_calls hl with
  | broker hx => exact hx
  | own _ hd hcall => exact hdoes hd (.inr rfl) hcall
  | remote _ hd hcall => exact hdoes hd (.inl rfl) hcall

/-- A step in which the broker at `z` accepts the payload from the remote's bridge, and its own bridge has a subscription
that matches. -/
def echoes (P : Protocol) (payload : Bytes) (z : Side) (f : Federation) : Side × Act → Bool
  | (y, .broker l) =>
    y = z && match (f.world z).selected l.input with
      | some (.dispatch c e (.publish p)) =>
        p.payload = payload && f.isLink z (c, e) &&
          ((f.world z).broker.accepts P l.now c e p).any fun m =>
            (f.bridge z).any fun b => ((f.world z).broker.sessions.lookup b.client).any fun s =>
              s.subscriptions.any fun sub => P.topicMatches sub.filter m.topic
      | _ => false
  | _ => false

theorem countP_le_add {α : Type} {p q r : α → Bool} : ∀ {l : List α}, (∀ a ∈ l, p a → q a ∨ r a) →
    l.countP p ≤ l.countP q + l.countP r
  | [], _ => Nat.zero_le _
  | a :: l, h => by
    obtain ⟨ha, hl⟩ := List.forall_mem_cons.1 h
    have hrest := countP_le_add hl
    simp only [List.countP_cons]
    by_cases hp : p a
    · rcases ha hp with hq | hr
      · simp only [hp, hq, if_true]
        omega
      · simp only [hp, hr, if_true]
        omega
    · simp only [hp, Bool.false_eq_true, if_false]
      omega

theorem outside_eq (P : Protocol) (payload : Bytes) (z : Side) (f : Federation) (x : Side × Act) :
    outside P payload z f x = (f.effectsAt P z x).countP (·.outside payload (f.isLink z)) := by
  rw [outside, step_effects]

theorem mem_effectsAt {e : Effect} (h : e ∈ f.effectsAt P z x) :
    ∃ l, f.labelAt P z x = some l ∧ e ∈ (World.step P (f.world z) l).2 := by
  unfold effectsAt at h
  cases hl : f.labelAt P z x with
  | none =>
    rw [hl] at h
    cases h
  | some l =>
    rw [hl] at h
    exact ⟨l, rfl, h⟩

/-- What reaches a bridge is published by others, or relayed for the remote's bridge; never by itself. -/
theorem Ok.reaches_cases (h : f.Ok payload) {e : Effect} (he : e ∈ f.effectsAt P z x)
    (hreach : f.reachesBridge P payload z e) :
    e.outside payload (f.isLink z) ∨ e.relays payload (f.linksAt z) ∧ echoes P payload z f x := by
  obtain ⟨l, hl, he⟩ := mem_effectsAt he
  obtain ⟨b, hb, hreach⟩ := (Option.any_eq_true _ _).1 hreach
  obtain ⟨s, hs, hreach⟩ := (Option.any_eq_true _ _).1 hreach
  cases e with
  | routed origin m =>
    simp only [Effect.reaches, WispMQ.reaches, Bool.and_eq_true, decide_eq_true_eq, List.any_eq_true] at hreach
    obtain ⟨hm, sub, hsub, hel⟩ := hreach
    cases origin with
    | publish c e =>
      cases hlink : f.isLink z (c, e) with
      | false => exact .inl (by simp [Effect.outside, hm, hlink])
      | true =>
        refine .inr ⟨by simpa [Effect.relays, hm, isLink_eq] using hlink, ?_⟩
        obtain ⟨p, hsel, hrouted⟩ := World.routed_publish he
        have haccepts := Broker.handlePublish_accepts hrouted
        have hp : p.payload = payload := (Broker.accepts_payload haccepts).symm.trans hm
        have hmatch : P.topicMatches sub.filter m.topic = true := by
          simp only [eligible, Bool.and_eq_true] at hel
          exact hel.1
        have hx := labelAt_dispatch hl hsel
        subst hx
        simp only [echoes, decide_true, hsel, hp, hlink, haccepts, hb, hs, Option.any_some, Bool.true_and, List.any_eq_true]
        exact ⟨sub, hsub, hmatch⟩
    | will => exact .inl (by simp [Effect.outside, hm])
    | sys => exact .inl (by simp [Effect.outside, hm])
    | bridge cid =>
      -- No Local
      obtain ⟨name, hin, rfl⟩ := World.routed_bridge he
      obtain ⟨b₀, -, -, -, hb₀, rfl, -⟩ := labelAt_inject hl hin
      rw [hb] at hb₀
      cases hb₀
      simp [eligible, (h.session z b s hb hs).noLocal sub hsub, Origin.publisher, Bridge.client] at hel
  | _ => cases hreach

theorem Ok.reaches_le (h : f.Ok payload) (x : Side × Act) (z : Side) :
    (f.effectsAt P z x).countP (f.reachesBridge P payload z) ≤ outside P payload z f x + relayed P payload z f x := by
  rw [outside_eq]
  exact countP_le_add fun e he hreach => (h.reaches_cases he hreach).imp_right And.left

/-- Nothing that comes back reaches the bridge. -/
theorem Ok.reaches_outside (h : f.Ok payload) (hecho : echoes P payload z f x = false) :
    (f.effectsAt P z x).countP (f.reachesBridge P payload z) ≤ outside P payload z f x := by
  rw [outside_eq]
  refine List.countP_mono_left fun e he hreach => (h.reaches_cases he hreach).resolve_right fun hback => ?_
  rw [hecho] at hback
  cases hback.2

end Federation

/-! ## What is under way to the remote -/

theorem World.sends_of_selected {w : World} {i : Input} {t : Task} (h : w.selected i = some t) (payload : Bytes)
    (links : List Link) : i.sends payload links = false := by
  cases i with
  | call c => cases h
  | _ => rfl

namespace Bridge
open Federation
variable {P : Protocol} {own remote : World} {x : Side} {b : Bridge} {plan : Plan}

/-- The links of a bridge grow when a connection is accepted. -/
inductive Linked (remote : World) (x : Side) (b b' : Bridge) (plan : Plan) : Prop
  | same (h : b'.links = b.links)
  | accepted {l : Label} {req : ConnectRequest} (hcall : plan.call = some (x.other, l))
      (hsel : remote.selected l.input = some (.connect req)) (hreq : req.connect = b.cfg.buildConnect)
      (h : b'.links = (req.clientId, remote.broker.nextEpoch) :: b.links)

/-- A PUBLISH comes on the wire when it is forwarded, and leaves it when the remote reads it. -/
theorem Does.wires (h : b.Does P own remote x plan) (payload : Bytes) :
    ∃ b', plan.bridge = some b' ∧ Linked remote x b b' plan ∧
      b'.up.countP (·.2.bears payload) +
          (plan.call.elim 0 fun c => if c.2.input.sends payload b.links then 1 else 0) ≤
        b.up.countP (·.2.bears payload) + plan.forwards.countP (·.payload = payload) := by
  -- what is no PUBLISH does not count
  have hother : ∀ (link : Link) (ps : List Packet), (∀ p ∈ ps, ∀ publish, p ≠ .publish publish) →
      (b.up ++ ps.map (link, ·)).countP (·.2.bears payload) = b.up.countP (·.2.bears payload) := by
    intro link ps hps
    have hnone : (ps.map (link, ·)).countP (·.2.bears payload) = 0 := by
      rw [List.countP_map]
      refine List.countP_eq_zero.2 fun p hp => ?_
      have hne := hps p hp
      cases p with
      | publish publish => exact absurd rfl (hne publish)
      | _ => exact Bool.false_ne_true
    rw [List.countP_append, hnone, Nat.add_zero]
  cases h with
  | accept hsel hreq =>
    refine ⟨_, rfl, .accepted rfl hsel hreq rfl, ?_⟩
    rw [Option.elim_some, World.sends_of_selected hsel, hother]
    · exact Nat.le_refl _
    · intro p hp publish
      unfold BridgeConfig.subscribe at hp
      split at hp
      · cases hp
      · rw [Option.toList_some, List.mem_singleton] at hp
        rw [hp]
        exact fun e => by cases e
  | forward =>
    refine ⟨_, rfl, .same rfl, ?_⟩
    simp [List.countP_append, Input.sends, Packet.bears, List.countP_cons]
  | ping =>
    refine ⟨_, rfl, .same rfl, ?_⟩
    simp [List.countP_append, Packet.bears]
  | @arrive link packet hnext =>
    refine ⟨_, rfl, .same rfl, ?_⟩
    have hdrop := countP_dropPacket (fun t => t.2.bears payload) hnext
    have hsends : (Input.call (.packet link.1 link.2 packet)).sends payload b.links = true → packet.bears payload = true := by
      simp [Input.sends]
    simp only [Option.elim_some, List.countP_nil, Nat.add_zero]
    split
    · rename_i h
      rw [if_pos (hsends h)] at hdrop
      exact le_of_eq hdrop
    · omega
  | @receive link loop packet now ord hphase hnext =>
    refine ⟨_, rfl, .same rfl, ?_⟩
    rw [hother link _ fun p hp publish => BridgeLoop.receive_replies hp publish]
    cases (loop.receive now packet).inject <;> exact Nat.le_refl _
  | cut link =>
    refine ⟨_, rfl, .same rfl, ?_⟩
    simpa using (List.filter_sublist (l := b.up) (p := (·.1 ≠ link))).countP_le
  | _ => exact ⟨_, rfl, .same rfl, Nat.le_refl _⟩

end Bridge

namespace Federation
variable {P : Protocol} {payload : Bytes} {f : Federation} {x : Side × Act} {z : Side} {l : Label}

/-- What a broker routes for the remote's bridge has arrived there. -/
theorem step_relayed (P : Protocol) (payload : Bytes) (z : Side) (f : Federation) (x : Side × Act) :
    ((step P f x).1.world z).tasks.countP (·.handles payload (f.linksAt z)) + relayed P payload z f x ≤
      (f.world z).tasks.countP (·.handles payload (f.linksAt z)) +
        (f.labelAt P z x).elim 0 fun l => if l.input.sends payload (f.linksAt z) then 1 else 0 := by
  rw [step_world, relayed, effectsAt]
  cases f.labelAt P z x with
  | none => exact Nat.le_refl _
  | some l => exact World.step_relays P payload (f.linksAt z) (f.world z) l

/-- A new connection has no packet waiting. -/
theorem Ok.handles_accepted (P : Protocol) (h : f.Ok payload) {req : ConnectRequest} (hl : f.labelAt P z x = some l)
    (hsel : (f.world z).selected l.input = some (.connect req)) (links : List Link) :
    ((Federation.step P f x).1.world z).tasks.countP
        (·.handles payload ((req.clientId, (f.world z).broker.nextEpoch) :: links)) =
      ((Federation.step P f x).1.world z).tasks.countP (·.handles payload links) := by
  refine List.countP_congr fun t ht => ?_
  rw [step_world, hl, Option.elim_some] at ht
  cases t with
  | dispatch c e packet =>
    have he : e < (f.world z).broker.nextEpoch := by
      rcases World.step_tasks ht with ht | ht
      · exact (h.world z).packets c e packet ht
      · rw [ht.dispatched.1] at hsel
        cases hsel
    have hne : (c, e) ≠ (req.clientId, (f.world z).broker.nextEpoch) := fun heq => by
      cases heq
      exact absurd he (Nat.lt_irrefl _)
    simp [Task.handles, hne]
  | _ => exact Iff.rfl

/-- A broker is sent packets of the remote's bridge by that bridge. -/
theorem labelAt_sends (hl : f.labelAt P z x = some l) (hx : x.1 = z) : l.input.sends payload (f.linksAt z) = false := by
  obtain ⟨plan, hplan, hcall⟩ := labelAt_some hl
  rcases plan_cases hplan with ⟨l', -, hfree, rfl⟩ | ⟨b, -, hd⟩
  · cases hcall
    unfold free at hfree
    unfold Input.sends
    split
    · rename_i hin
      rw [hin, Bool.and_eq_true, Bool.not_eq_true', Bool.not_eq_true', isLink_eq] at hfree
      rw [hfree.2, Bool.false_and]
    · rfl
  · cases hd with
    | arrive =>
      cases hcall
      exact absurd hx.symm (Side.other_ne x.1)
    | accept hsel =>
      cases hcall
      exact absurd hx.symm (Side.other_ne x.1)
    | receive =>
      obtain ⟨m, -, hm⟩ := Option.map_eq_some_iff.1 hcall
      cases hm
      rfl
    | rest => cases hcall
    | ping => cases hcall
    | cut => cases hcall
    | _ =>
      cases hcall
      rfl

/-- The bridge of the other side, after a step. -/
theorem Ok.step_wires (P : Protocol) (h : f.Ok payload) (x : Side × Act) {b : Bridge} (hb : f.bridge z.other = some b) :
    ∃ b', (Federation.step P f x).1.bridge z.other = some b' ∧
      ((Federation.step P f x).1.world z).tasks.countP (·.handles payload b'.links) =
        ((Federation.step P f x).1.world z).tasks.countP (·.handles payload b.links) ∧
      b'.up.countP (·.2.bears payload) +
          ((f.labelAt P z x).elim 0 fun l => if l.input.sends payload b.links then 1 else 0) ≤
        b.up.countP (·.2.bears payload) + forwards P payload z.other f x := by
  have hlinks : f.linksAt z = b.links := by simp [linksAt, hb]
  cases hplan : f.plan P x.1 x.2 with
  | none =>
    rw [step_of_none hplan]
    refine ⟨b, hb, rfl, ?_⟩
    simp [labelAt, hplan]
  | some plan =>
    rw [Federation.step_bridge hplan]
    by_cases hz : x.1 = z.other
    · rw [if_pos hz.symm]
      have hforwards : forwards P payload z.other f x = plan.forwards.countP (·.payload = payload) := by
        rw [forwards_eq, if_pos hz, hplan, Option.elim_some]
      rcases plan_cases hplan with ⟨l, -, -, rfl⟩ | ⟨b₀, hb₀, hd⟩
      · refine ⟨{ b with down := b.down ++ b.leftovers (f.effectsAt P z.other.other x) }, ?_, rfl, ?_⟩
        · simp only [hz, hb, Option.map_some]
        · have hne : x.1 ≠ z := hz ▸ Side.other_ne z
          have hnone : f.labelAt P z x = none := by simp [labelAt, hplan, hne]
          simp [hnone]
      · rw [hz, hb] at hb₀
        cases hb₀
        obtain ⟨b₁, hb₁, hlinked, hup⟩ := hd.wires payload
        refine ⟨_, by rw [hb₁, Option.map_some], ?_, ?_⟩
        · cases hlinked with
          | same he => simp only [he]
          | accepted hcall hsel _ he =>
            rw [hz, Side.other_other] at hcall hsel
            simp only [he]
            rw [hz, Side.other_other]
            refine h.handles_accepted P ?_ hsel b.links
            simp [labelAt, hplan, hcall]
        · rw [hforwards]
          refine Nat.le_trans (Nat.add_le_add_left ?_ _) hup
          cases hl : f.labelAt P z x with
          | none => exact Nat.zero_le _
          | some l =>
            obtain ⟨plan₀, hplan₀, hcall⟩ := labelAt_some hl
            rw [hplan] at hplan₀
            cases hplan₀
            rw [hcall]
            exact Nat.le_refl _
    · rw [if_neg (Ne.symm hz), hb]
      refine ⟨_, rfl, rfl, ?_⟩
      have hx : x.1 = z := by simpa using Side.eq_other_of_ne hz
      cases hl : f.labelAt P z x with
      | none => simp
      | some l => simp [← hlinks, labelAt_sends hl hx]

/-- What a broker routes for the remote's bridge, that bridge has forwarded. -/
theorem Ok.step_underway (P : Protocol) (h : f.Ok payload) (x : Side × Act) (z : Side) :
    underway payload z (Federation.step P f x).1 + relayed P payload z f x ≤
      underway payload z f + forwards P payload z.other f x := by
  have hrelayed := step_relayed P payload z f x
  cases hb : f.bridge z.other with
  | none =>
    have hafter := h.bridge_none P x hb
    have hzero : relayed P payload z f x = 0 := by
      refine List.countP_eq_zero.2 fun e _ => ?_
      simp only [linksAt, hb, Option.elim_none]
      unfold Effect.relays
      split <;> simp
    simp [underway, hafter, hzero]
  | some b =>
    have hlinks : f.linksAt z = b.links := by simp [linksAt, hb]
    obtain ⟨b', hb', htasks, hup⟩ := h.step_wires P x hb
    rw [hlinks] at hrelayed
    simp only [underway, hb, hb', Option.elim_some, htasks]
    omega

/-! ## The bound -/

/-- **No echo**: if a message is published once at one side and nowhere else, and what comes back there matches no pattern
of its bridge, each of the two bridges forwards it at most once. -/
theorem forwards_at_most_once (P : Protocol) (setup : Side → Setup) (payload : Bytes) (z : Side) (xs : List (Side × Act))
    (honce : Machine.total (step P) (outside P payload z) (start P setup) xs ≤ 1)
    (hnone : Machine.total (step P) (outside P payload z.other) (start P setup) xs = 0)
    (hecho : Machine.Along (step P) (fun f x => echoes P payload z f x = false) (start P setup) xs) (y : Side) :
    (run P (start P setup) xs).2.countP (·.forwards payload y) ≤ 1 := by
  have hok := start_ok P payload setup
  have hwaiting : ∀ y, waitingAt payload y (start P setup) = 0 := by
    intro y
    unfold waitingAt
    cases hb : (start P setup).bridge y with
    | none => rfl
    | some b => simp [start, World.boot_lookup, Bridge.client, reserved_bridgeClient]
  have hunderway : underway payload z.other (start P setup) = 0 := by
    unfold underway
    cases hb : (start P setup).bridge z.other.other with
    | none => rfl
    | some b =>
      obtain ⟨cfg, -, rfl⟩ := Option.map_eq_some_iff.1 hb
      simp [start, World.boot]
  -- at `z`, what is forwarded was published there by others
  have hhere := Machine.total_le (step P) (Ok payload) (waitingAt payload z) (forwards P payload z) (outside P payload z)
    (fun f x h _ => h.step P x)
    (fun f x h he => Nat.le_trans (h.step_waiting P x z) (Nat.add_le_add_left (h.reaches_outside he) _)) hok hecho
  -- at the other side, by the bridge of `z`
  have hthere := Machine.total_le (step P) (Ok payload)
    (fun f => waitingAt payload z.other f + underway payload z.other f) (forwards P payload z.other)
    (fun f x => outside P payload z.other f x + forwards P payload z f x) (fun f x h _ => h.step P x)
    (fun f x h _ => by
      have hw := h.step_waiting P x z.other
      have hr := h.reaches_le (P := P) x z.other
      have hu := h.step_underway P x z.other
      rw [Side.other_other] at hu
      omega) hok hecho
  rw [Machine.total_add] at hthere
  have hcount : ∀ y, Machine.total (step P) (forwards P payload y) (start P setup) xs =
      (run P (start P setup) xs).2.countP (·.forwards payload y) := fun y => Machine.total_countP (step P) _ xs _
  have := hwaiting z
  have := hwaiting z.other
  by_cases hy : y = z
  · subst hy
    have := hcount y
    omega
  · have := Side.eq_other_of_ne hy
    subst this
    have := hcount z
    have := hcount z.other
    omega

/-! ### Two brokers that forward the same topic to each other -/

/-- Both sides forward `t` out. -/
def eachOther : Side → Setup
  | .a => { bridge := some { name := "up", clientId := "bridge-a", topics := [⟨"t", .out, .atMostOnce⟩] } }
  | .b => { bridge := some { name := "up", clientId := "bridge-b", topics := [⟨"t", .out, .atMostOnce⟩] } }

/-- The same, but `a` has a policy, under which nobody with a certificate may publish. -/
def guarded : Side → Setup
  | .a => { eachOther .a with acl := ⟨true, false, [{ identity := "anonymous", publish := ["t"] }]⟩ }
  | .b => eachOther .b

/-- The bridge of a side comes up, undisturbed. -/
def starting (x : Side) (identity : Option String) : List (Side × Act) :=
  [(x, .register), (x, .subscribe), (x, .subscribe), (x, .connect identity 0), (x, .accept { input := .task 0 })]

/-- The client `c` connects to a side and publishes. -/
def publishing (x : Side) (epoch : Nat) (p : Publish) : List (Side × Act) :=
  (World.connecting { clientId := "c", cleanStart := true } ++ World.sending "c" epoch (.publish p)).map (x, .broker ·)

/-- The bridge of a side forwards, and the remote reads the packet. -/
def hop (x : Side) (link : Link) : List (Side × Act) := [(x, .forward), (x, .arrive link)]

/-- The broker of a side handles what it has read. -/
def handling (x : Side) : List (Side × Act) := [(x, .broker { input := .task 0 })]

/-- `c` publishes `t` at `a`, it goes to `b` and from there back to `a`. -/
def roundTrip (identity : Option String) : List (Side × Act) :=
  starting .a none ++ starting .b identity ++ publishing .a 3 ⟨false, .atMostOnce, false, "t", none, {}, [7]⟩ ++
    hop .a ("bridge-a", 1) ++ handling .b ++ hop .b ("bridge-b", 2)

/-- The policy of `a` refuses what comes back, and each bridge has forwarded once. -/
theorem forwards_at_most_once_roundTrip :
    let xs := roundTrip (some "b") ++ handling .a ++ [(.a, .forward)]
    ((run .reference (start .reference guarded) xs).1.world .a).tasks = [] ∧
      (run .reference (start .reference guarded) xs).2.countP (·.forwards [7] .b) = 1 ∧
      (run .reference (start .reference guarded) xs).2.countP (·.forwards [7] .a) ≤ 1 :=
  ⟨by decide +kernel, by decide +kernel, forwards_at_most_once .reference guarded [7] .a _ (by decide +kernel)
    (by decide +kernel) (by decide +kernel) .a⟩

/-- Without the policy the bridge of `a` forwards the message again. -/
theorem echoed :
    Machine.total (step .reference) (outside .reference [7] .a) (start .reference eachOther)
        (roundTrip none ++ handling .a ++ [(.a, .forward)]) = 1 ∧
      Machine.total (step .reference) (outside .reference [7] .b) (start .reference eachOther)
        (roundTrip none ++ handling .a ++ [(.a, .forward)]) = 0 ∧
      (run .reference (start .reference eachOther) (roundTrip none ++ handling .a ++ [(.a, .forward)])).2.countP
        (·.forwards [7] .a) = 2 := by
  decide +kernel

end Federation

end WispMQ
