import WispMQ.Forwarding
import WispMQ.Copies
import WispMQ.Wills
/-!
# Two brokers and their bridges

The brokers `a` and `b`, each a `World`, and the bridge each may run to the other. A bridge is a task of its own: it
takes from the channel of its local session, writes to and reads from a connection to the remote broker, and calls
`inject_publish`. On the other side that connection is one like any other, so what the bridge wrote arrives as a call of
`handle_packet`, and what the remote pushed into the channel of the connection comes back.

One step is one `Act` of one side, and makes at most one step of one of the brokers (`Plan`). A packet stays on its wire,
in order, until it is read; the packets of a connection may be lost at any time. The handling of CONNECT and CONNACK is
one step for the bridge, which does nothing else while it waits.

| here | there |
| --- | --- |
| `Phase`             | where `run`, `connect_and_serve` and `serve` are (bridge.rs:219-478) |
| `Act.arrive`, `Act.emit` | `read_packet` and `rx.recv()` of the connection task at the remote (server.rs:318-409) |
| `Federation.free`   | what no bridge is involved in |
-/

namespace WispMQ
open KeyMap

inductive Side where
  | a
  | b
deriving DecidableEq

namespace Side

def other : Side → Side
  | a => b
  | b => a

@[simp] theorem other_other (x : Side) : x.other.other = x := by cases x <;> rfl

theorem other_ne (x : Side) : x.other ≠ x := by cases x <;> decide

theorem eq_other_of_ne {x y : Side} (h : y ≠ x) : y = x.other := by
  cases x <;> cases y <;> first | rfl | exact absurd rfl h

end Side

/-- A connection of a bridge at the remote broker: the client id and the epoch it has there. -/
abbrev Link := String × Nat

inductive Phase where
  /-- Before `register_bridge`. -/
  | new
  /-- In the loop over the out-mappings. -/
  | subscribing (patterns : List String)
  /-- Between two connections. -/
  | idle
  /-- CONNECT is sent. -/
  | connecting
  | serving (link : Link) (loop : BridgeLoop)
deriving DecidableEq

structure Bridge where
  cfg : BridgeConfig
  phase : Phase := .new
  /-- The connections it has had. -/
  links : List Link := []
  /-- Written by the bridge, not yet read by the remote. -/
  up : List (Link × Packet) := []
  /-- Written by the remote, not yet read by the bridge. -/
  down : List (Link × Packet) := []

namespace Federation

inductive Act where
  /-- A step of the side's broker that no bridge is involved in. -/
  | broker (l : Label)
  | register
  | subscribe
  | connect (identity : Option String) (now : Nat)
  /-- The remote accepts the connection; the bridge sends its SUBSCRIBE. -/
  | accept (l : Label)
  /-- The connection is refused or lost. -/
  | lose
  /-- The bridge takes an item from its local channel. -/
  | forward
  | ping
  /-- The remote reads a packet. -/
  | arrive (link : Link)
  /-- The connection task at the remote takes an item from its channel. -/
  | emit (link : Link)
  /-- The bridge reads a packet. -/
  | receive (now : Nat) (ord : Orders)
  /-- What is on the wires of a connection gets lost. -/
  | cut (link : Link)
deriving DecidableEq

/-- What an act comes to: the bridge's new state, the step of a broker, and the PUBLISH packets sent to the remote. -/
structure Plan where
  bridge : Option Bridge
  call : Option (Side × Label) := none
  forwards : List Publish := []

end Federation

/-- The first packet of a connection on a wire. -/
def nextPacket (link : Link) (wire : List (Link × Packet)) : Option Packet := (wire.find? (·.1 = link)).map (·.2)

def dropPacket (link : Link) (wire : List (Link × Packet)) : List (Link × Packet) := wire.eraseP (·.1 = link)

/-- What the connection task writes for an item (server.rs:322-352); a DISCONNECT only to a client that understands it. -/
def Outgoing.packets (version : ProtocolVersion) : Outgoing → List Packet
  | .send p => [.publish p]
  | .control p => [p]
  | .shutdown rc => if version.isV5 then [.disconnect ⟨rc, none⟩] else []

namespace Bridge
open Federation
variable (P : Protocol)

/-- The client id of the local session. -/
def client (b : Bridge) : String := bridgeClient b.cfg.name

/-- `own` is the broker of the bridge, at `x`, and `remote` the one it connects to. -/
def plan (own remote : World) (x : Side) (b : Bridge) : Federation.Act → Option Plan
  | .broker _ => none
  | .register =>
    if b.phase = .new then
      some { bridge := some { b with phase := .subscribing b.cfg.outPatterns }
             call := some (x, { input := .call (.registerBridge b.cfg.name) }) }
    else none
  | .subscribe =>
    match b.phase with
    | .subscribing (pattern :: patterns) =>
      some { bridge := some { b with phase := .subscribing patterns }
             call := some (x, { input := .call (.bridgeAddSubscription b.cfg.name pattern true) }) }
    | .subscribing [] => some { bridge := some { b with phase := .idle } }
    | _ => none
  | .connect identity now =>
    if b.phase = .idle then
      some { bridge := some { b with phase := .connecting }
             call := some (x.other, { input := .call (.connect b.cfg.buildConnect identity), now }) }
    else none
  | .accept l =>
    match b.phase, remote.selected l.input with
    | .connecting, some (.connect req) =>
      if req.connect = b.cfg.buildConnect then
        let link := (req.clientId, remote.broker.nextEpoch)
        some { bridge := some { b with
                 phase := .serving link {}
                 links := link :: b.links
                 up := b.up ++ b.cfg.subscribe.toList.map (link, ·) }
               call := some (x.other, l) }
      else none
    | _, _ => none
  | .lose =>
    match b.phase with
    | .connecting | .serving .. => some { bridge := some { b with phase := .idle } }
    | _ => none
  | .forward =>
    match b.phase, own.broker.sessions.lookup b.client with
    | .serving link loop, some s =>
      match s.out.bind (·.waiting.head?) with
      | some item =>
        let recv : Side × Label := (x, { input := .recv b.client s.epoch })
        match item with
        | .send publish =>
          let r := loop.forward P b.cfg publish
          some { bridge := some { b with phase := .serving link r.2, up := b.up ++ [(link, .publish r.1)] }
                 call := some recv, forwards := [r.1] }
        | .control _ => some { bridge := some b, call := some recv }
        | .shutdown _ => some { bridge := some { b with phase := .idle }, call := some recv }
      | none => none
    | _, _ => none
  | .ping =>
    match b.phase with
    | .serving link _ =>
      if b.cfg.keepalive > 0 then some { bridge := some { b with up := b.up ++ [(link, .pingreq)] } } else none
    | _ => none
  | .arrive link =>
    match nextPacket link b.up with
    | some packet =>
      some { bridge := some { b with up := dropPacket link b.up }
             call := some (x.other, { input := .call (.packet link.1 link.2 packet) }) }
    | none => none
  | .emit link =>
    match (remote.channel link.1 link.2).bind (·.waiting.head?) with
    | some item =>
      if link ∈ b.links then
        some { bridge := some { b with
                 down := b.down ++ (item.packets b.cfg.protocolVersion).map (link, ·) }
               call := some (x.other, { input := .recv link.1 link.2 }) }
      else none
    | none => none
  | .receive now ord =>
    match b.phase with
    | .serving link loop =>
      match nextPacket link b.down with
      | some packet =>
        let r := loop.receive now packet
        some { bridge := some { b with
                 phase := (r.loop.map (Phase.serving link)).getD .idle
                 up := b.up ++ r.replies.map (link, ·)
                 down := dropPacket link b.down }
               call := r.inject.map fun m => (x, { input := .call (.injectPublish b.cfg.name m), now, ord }) }
      | none => none
    | _ => none
  | .cut link =>
    some { bridge := some { b with
      up := b.up.filter (·.1 ≠ link)
      down := b.down.filter (·.1 ≠ link) } }

/-- What was left in the channels of the bridge's connections that a step of the remote let go of; their tasks write it
out. -/
def leftovers (b : Bridge) (es : List Effect) : List (Link × Packet) :=
  es.flatMap fun
    | .detached c e tx =>
      if (c, e) ∈ b.links then (tx.waiting.flatMap (·.packets b.cfg.protocolVersion)).map ((c, e), ·) else []
    | _ => []

end Bridge

/-- What a step of the two brokers and their bridges lets the outside see. -/
inductive Output where
  | broker (side : Side) (effect : Effect)
  /-- The bridge of the side sends a PUBLISH to its remote. -/
  | forward (side : Side) (publish : Publish)
deriving DecidableEq

structure Federation where
  world : Side → World
  bridge : Side → Option Bridge

namespace Federation
variable (P : Protocol)

/-- A connection to the broker of `x` that the bridge of the other side has had. -/
def isLink (f : Federation) (x : Side) (link : Link) : Bool := (f.bridge x.other).any (link ∈ ·.links)

/-- No bridge has part in the step: it is neither its own call, nor about its session or one of its connections. Client
ids of connections are never reserved (connect.rs:85). -/
def free (f : Federation) (x : Side) (l : Label) : Bool :=
  match l.input with
  | .call (.packet cid epoch _) | .recv cid epoch => !reservedClientId cid && !f.isLink x (cid, epoch)
  | .call (.closed cid _ _) | .hangup cid _ => !reservedClientId cid
  | .call (.registerBridge _) | .call (.bridgeAddSubscription ..) | .call (.injectPublish ..)
  | .call (.deregisterBridge ..) => false
  | _ => true

def plan (f : Federation) (x : Side) : Act → Option Plan
  | .broker l => if f.free x l then some { bridge := f.bridge x, call := some (x, l) } else none
  | act => (f.bridge x).bind fun b => b.plan P (f.world x) (f.world x.other) x act

/-- A step of the broker at `z`; the bridge of the other side has its connections there. -/
def call (f : Federation) (z : Side) (l : Label) : Federation × List Output :=
  let r := World.step P (f.world z) l
  ({ world := Function.update f.world z r.1
     bridge := Function.update f.bridge z.other
      ((f.bridge z.other).map fun b => { b with down := b.down ++ b.leftovers r.2 }) },
    r.2.map (.broker z))

def step (f : Federation) (x : Side × Act) : Federation × List Output :=
  match f.plan P x.1 x.2 with
  | none => (f, [])
  | some plan =>
    let f' := { f with bridge := Function.update f.bridge x.1 plan.bridge }
    let r := plan.call.elim (f', []) fun c => call P f' c.1 c.2
    (r.1, r.2 ++ plan.forwards.map (.forward x.1))

/-- The state and the outputs of a run. -/
def run (f : Federation) (xs : List (Side × Act)) : Federation × List Output := Machine.run (step P) f xs

/-- What each side is started with. -/
structure Setup where
  now : Nat := 0
  cfg : Config := {}
  db : Db := {}
  acl : Acl := .permitAll
  auth : Option Credentials := none
  bridge : Option BridgeConfig := none

/-- Both brokers as `main` starts them, with their bridges. -/
def start (setup : Side → Setup) : Federation where
  world x := World.boot P (setup x).now (setup x).cfg (setup x).db (setup x).acl (setup x).auth
  bridge x := (setup x).bridge.map fun cfg => { cfg }

end Federation

/-! ## What an act comes to -/

namespace Bridge
open Federation
variable {P : Protocol} {own remote : World} {x : Side} {b : Bridge}

/-- The plans of a bridge. -/
inductive Does (P : Protocol) (own remote : World) (x : Side) (b : Bridge) : Plan → Prop
  | register (hphase : b.phase = .new) :
      Does P own remote x b
        { bridge := some { b with phase := .subscribing b.cfg.outPatterns }
          call := some (x, { input := .call (.registerBridge b.cfg.name) }) }
  | subscribe {pattern : String} {patterns : List String} (hphase : b.phase = .subscribing (pattern :: patterns)) :
      Does P own remote x b
        { bridge := some { b with phase := .subscribing patterns }
          call := some (x, { input := .call (.bridgeAddSubscription b.cfg.name pattern true) }) }
  /-- All patterns are subscribed, or the connection is gone. -/
  | rest : Does P own remote x b { bridge := some { b with phase := .idle } }
  | connect {identity : Option String} {now : Nat} :
      Does P own remote x b
        { bridge := some { b with phase := .connecting }
          call := some (x.other, { input := .call (.connect b.cfg.buildConnect identity), now }) }
  | accept {l : Label} {req : ConnectRequest} (hsel : remote.selected l.input = some (.connect req))
      (hreq : req.connect = b.cfg.buildConnect) :
      Does P own remote x b
        { bridge := some { b with
            phase := .serving (req.clientId, remote.broker.nextEpoch) {}
            links := (req.clientId, remote.broker.nextEpoch) :: b.links
            up := b.up ++ b.cfg.subscribe.toList.map ((req.clientId, remote.broker.nextEpoch), ·) }
          call := some (x.other, l) }
  | forward {link : Link} {loop : BridgeLoop} {s : Session} {tx : OutTx} {publish : Publish}
      (hphase : b.phase = .serving link loop) (hs : own.broker.sessions.lookup b.client = some s)
      (htx : s.out = some tx) (hitem : tx.waiting.head? = some (.send publish)) :
      Does P own remote x b
        { bridge := some { b with
            phase := .serving link (loop.forward P b.cfg publish).2
            up := b.up ++ [(link, .publish (loop.forward P b.cfg publish).1)] }
          call := some (x, { input := .recv b.client s.epoch })
          forwards := [(loop.forward P b.cfg publish).1] }
  /-- Anything else from the local channel. -/
  | discard {phase : Phase} {s : Session} (hphase : phase = b.phase ∨ phase = .idle)
      (hs : own.broker.sessions.lookup b.client = some s) :
      Does P own remote x b
        { bridge := some { b with phase }, call := some (x, { input := .recv b.client s.epoch }) }
  | ping {link : Link} {loop : BridgeLoop} (hphase : b.phase = .serving link loop) :
      Does P own remote x b { bridge := some { b with up := b.up ++ [(link, .pingreq)] } }
  | arrive {link : Link} {packet : Packet} (hnext : nextPacket link b.up = some packet) :
      Does P own remote x b
        { bridge := some { b with up := dropPacket link b.up }
          call := some (x.other, { input := .call (.packet link.1 link.2 packet) }) }
  | emit {link : Link} {tx : OutTx} {item : Outgoing} (htx : remote.channel link.1 link.2 = some tx)
      (hitem : tx.waiting.head? = some item) (hlink : link ∈ b.links) :
      Does P own remote x b
        { bridge := some { b with down := b.down ++ (item.packets b.cfg.protocolVersion).map (link, ·) }
          call := some (x.other, { input := .recv link.1 link.2 }) }
  | receive {link : Link} {loop : BridgeLoop} {packet : Packet} {now : Nat} {ord : Orders}
      (hphase : b.phase = .serving link loop) (hnext : nextPacket link b.down = some packet) :
      Does P own remote x b
        { bridge := some { b with
            phase := ((loop.receive now packet).loop.map (Phase.serving link)).getD .idle
            up := b.up ++ (loop.receive now packet).replies.map (link, ·)
            down := dropPacket link b.down }
          call := (loop.receive now packet).inject.map fun m =>
            (x, { input := .call (.injectPublish b.cfg.name m), now, ord }) }
  | cut (link : Link) :
      Does P own remote x b
        { bridge := some { b with up := b.up.filter (·.1 ≠ link), down := b.down.filter (·.1 ≠ link) } }

/-- **Inversion**: what a bridge does in one act. -/
theorem plan_does {act : Federation.Act} {plan : Plan} (h : b.plan P own remote x act = some plan) : b.Does P own remote x plan := by
  unfold Bridge.plan at h
  cases act with
  | broker l => cases h
  | register =>
    simp only at h
    split at h
    · rename_i hphase
      cases h
      exact .register hphase
    · cases h
  | subscribe =>
    simp only at h
    split at h
    · rename_i hphase
      cases h
      exact .subscribe hphase
    · cases h
      exact .rest
    · cases h
  | connect identity now =>
    simp only at h
    split at h
    · cases h
      exact .connect
    · cases h
  | accept l =>
    simp only at h
    split at h
    · rename_i hsel
      split at h
      · rename_i hreq
        cases h
        exact .accept hsel hreq
      · cases h
    · cases h
  | lose =>
    simp only at h
    split at h
    · cases h
      exact .rest
    · cases h
      exact .rest
    · cases h
  | forward =>
    simp only at h
    split at h
    · rename_i hphase hs
      split at h
      · rename_i item hitem
        obtain ⟨tx, htx, hitem⟩ := Option.bind_eq_some_iff.1 hitem
        cases item with
        | send publish =>
          cases h
          exact .forward hphase hs htx hitem
        | control p =>
          cases h
          exact .discard (.inl rfl : b.phase = b.phase ∨ b.phase = .idle) hs
        | shutdown rc =>
          cases h
          exact .discard (.inr rfl) hs
      · cases h
    · cases h
  | ping =>
    simp only at h
    split at h
    · rename_i hphase
      split at h
      · cases h
        exact .ping hphase
      · cases h
    · cases h
  | arrive link =>
    simp only at h
    split at h
    · rename_i hnext
      cases h
      exact .arrive hnext
    · cases h
  | emit link =>
    simp only at h
    split at h
    · rename_i hitem
      obtain ⟨tx, htx, hitem⟩ := Option.bind_eq_some_iff.1 hitem
      split at h
      · rename_i hlink
        cases h
        exact .emit htx hitem hlink
      · cases h
    · cases h
  | receive now ord =>
    simp only at h
    split at h
    · rename_i hphase
      split at h
      · rename_i hnext
        cases h
        exact .receive hphase hnext
      · cases h
    · cases h
  | cut link =>
    cases h
    exact .cut link

end Bridge

/-- What the broker of one side emits. -/
def Output.effectAt (z : Side) : Output → Option Effect
  | .broker y e => if y = z then some e else none
  | .forward .. => none

namespace Federation
variable {P : Protocol} {f : Federation} {x : Side × Act} {z : Side} {l : Label}

/-- The step of the broker at `z` that is part of a step. -/
def labelAt (P : Protocol) (f : Federation) (z : Side) (x : Side × Act) : Option Label :=
  (f.plan P x.1 x.2).bind fun plan => plan.call.bind fun c => if c.1 = z then some c.2 else none

/-- The effects it has. -/
def effectsAt (P : Protocol) (f : Federation) (z : Side) (x : Side × Act) : List Effect :=
  (f.labelAt P z x).elim [] fun l => (World.step P (f.world z) l).2

theorem step_world (P : Protocol) (f : Federation) (x : Side × Act) (z : Side) :
    (step P f x).1.world z = (f.labelAt P z x).elim (f.world z) fun l => (World.step P (f.world z) l).1 := by
  unfold step labelAt
  cases hplan : f.plan P x.1 x.2 with
  | none => rfl
  | some plan =>
    cases hcall : plan.call with
    | none => simp [hcall]
    | some c =>
      by_cases hz : c.1 = z
      · subst hz
        simp [hcall, call]
      · simp [hcall, call, hz, Function.update_of_ne (Ne.symm hz)]

theorem step_effects (P : Protocol) (f : Federation) (x : Side × Act) (z : Side) :
    (step P f x).2.filterMap (Output.effectAt z) = f.effectsAt P z x := by
  have hforward : ∀ ps : List Publish, (ps.map (Output.forward x.1)).filterMap (Output.effectAt z) = [] := fun ps =>
    List.filterMap_eq_nil_iff.2 fun o ho => by
      obtain ⟨p, -, rfl⟩ := List.mem_map.1 ho
      rfl
  unfold step effectsAt labelAt
  cases hplan : f.plan P x.1 x.2 with
  | none => rfl
  | some plan =>
    cases hcall : plan.call with
    | none => simp [hcall, hforward]
    | some c =>
      by_cases hz : c.1 = z
      · subst hz
        simp [hcall, call, hforward, List.filterMap_map, Function.comp_def, Output.effectAt]
      · simp [hcall, call, hforward, hz, List.filterMap_map, Function.comp_def, Output.effectAt]

/-- The bridges after a step: the plan's, and the remote of each may have let go of connections. -/
theorem step_bridge {plan : Plan} (h : f.plan P x.1 x.2 = some plan) (z : Side) :
    (step P f x).1.bridge z = (if z = x.1 then plan.bridge else f.bridge z).map fun b =>
      { b with down := b.down ++ b.leftovers (f.effectsAt P z.other x) } := by
  have hupdate : Function.update f.bridge x.1 plan.bridge z = if z = x.1 then plan.bridge else f.bridge z :=
    Function.update_apply ..
  unfold step effectsAt labelAt
  cases hcall : plan.call with
  | none => simp [h, hcall, hupdate, Bridge.leftovers]
  | some c =>
    by_cases hz : z = c.1.other
    · subst hz
      simp [h, hcall, call, hupdate]
    · have hne : c.1 ≠ z.other := fun e => hz (by rw [e, Side.other_other])
      simp [h, hcall, call, hupdate, Function.update_of_ne hz, hne, Bridge.leftovers]

theorem step_of_none (h : f.plan P x.1 x.2 = none) : step P f x = (f, []) := by
  simp [step, h]

/-- Where a step of a broker comes from. -/
inductive Calls (P : Protocol) (f : Federation) (z : Side) (x : Side × Act) (l : Label) : Prop
  | broker (hx : x = (z, .broker l)) (hfree : f.free z l)
  /-- The bridge that runs beside it. -/
  | own {b : Bridge} {plan : Plan} (hb : f.bridge z = some b) (h : b.Does P (f.world z) (f.world z.other) z plan)
      (hcall : plan.call = some (z, l))
  /-- The bridge that has its connections there. -/
  | remote {b : Bridge} {plan : Plan} (hb : f.bridge z.other = some b)
      (h : b.Does P (f.world z.other) (f.world z) z.other plan) (hcall : plan.call = some (z, l))

theorem plan_cases {plan : Plan} (h : f.plan P x.1 x.2 = some plan) :
    (∃ l, x.2 = .broker l ∧ f.free x.1 l ∧ plan = { bridge := f.bridge x.1, call := some (x.1, l) }) ∨
      ∃ b, f.bridge x.1 = some b ∧ b.Does P (f.world x.1) (f.world x.1.other) x.1 plan := by
  unfold Federation.plan at h
  split at h
  · split at h
    · rename_i l hx hfree
      cases h
      exact .inl ⟨l, hx, hfree, rfl⟩
    · cases h
  · obtain ⟨b, hb, hplan⟩ := Option.bind_eq_some_iff.1 h
    exact .inr ⟨b, hb, Bridge.plan_does hplan⟩

theorem labelAt_some (h : f.labelAt P z x = some l) : ∃ plan, f.plan P x.1 x.2 = some plan ∧ plan.call = some (z, l) := by
  obtain ⟨plan, hplan, h⟩ := Option.bind_eq_some_iff.1 h
  obtain ⟨⟨y, l'⟩, hcall, h⟩ := Option.bind_eq_some_iff.1 h
  split at h
  · rename_i hy
    cases h
    exact ⟨plan, hplan, hcall.trans (by rw [show y = z from hy])⟩
  · cases h

theorem labelAt_calls (h : f.labelAt P z x = some l) : Calls P f z x l := by
  obtain ⟨plan, hplan, hcall⟩ := labelAt_some h
  rcases plan_cases hplan with ⟨l', hx, hfree, rfl⟩ | ⟨b, hb, hd⟩
  · cases hcall
    exact .broker (Prod.ext rfl hx) hfree
  · by_cases hz : x.1 = z
    · subst hz
      exact .own hb hd hcall
    · obtain hz : x.1 = z.other := Side.eq_other_of_ne hz
      rw [hz] at hb hd
      rw [Side.other_other] at hd
      exact .remote hb hd hcall

end Federation

end WispMQ
