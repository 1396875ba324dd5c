import WispMQ.Echo
/-!
# A bridge in both directions

With a mapping in both directions the bridge subscribes at the remote what it forwards to it, and without No Local
(bridge.rs:446-466): the remote sends the message back over the same connection, the bridge injects it, and the local
sessions get it a second time (`looped`).

`Clean` is what holds as long as the remote does not do so: the payload is nowhere on the way back. Then every copy a
local session gets is one the publisher sent (`pushed_at_most_once`).
-/

namespace WispMQ
open KeyMap

/-! ## What a session is pushed -/

namespace World
open Broker Session
variable {P : Protocol} {payload : Bytes} {w : World} {l : Label} {cid : String} {epoch n : Nat} {s s' : Session}

/-- What a step pushes into the channels of a session, whichever connection it has. -/
def arrivals (P : Protocol) (w : World) (l : Label) (cid : String) : List Outgoing :=
  (((w.broker.sessions.lookup cid).toList ++ ((step P w l).1.broker.sessions.lookup cid).toList).map
    (·.epoch)).dedup.flatMap (w.pushed P l cid)

/-- A channel that is let go gets a Shutdown at most. -/
theorem pushed_of_letGo (h : (step P w l).1.channel cid epoch = none) :
    (w.pushed P l cid epoch).countP (·.carries payload) = 0 := by
  simp only [pushed, h, Option.none_or]
  split
  · rename_i tx hd
    obtain ⟨s, tx₀, hs, he, ho, hsent⟩ := step_letGo (detachedIn_some hd)
    rw [channel_of_lookup hs he, ho]
    rcases hsent with h | ⟨rc, h⟩ <;> simp [h, Outgoing.carries]
  · rfl

/-- A channel without copies was pushed none. -/
theorem pushed_of_silent (hs' : (step P w l).1.broker.sessions.lookup cid = some s') (hsilent : s'.Silent payload) :
    (w.pushed P l cid s'.epoch).countP (·.carries payload) = 0 := by
  cases htx : s'.out with
  | none => exact pushed_of_letGo (by rw [channel_of_lookup hs' rfl, htx])
  | some tx =>
    simp only [pushed, channel_of_lookup hs' rfl, htx, Option.some_or]
    exact Nat.le_zero.1 ((List.drop_sublist _ _).countP_le.trans (le_of_eq (hsilent tx htx)))

theorem pushed_of_gains (hs : w.broker.sessions.lookup cid = some s)
    (hs' : (step P w l).1.broker.sessions.lookup cid = some s') (he : s'.epoch = s.epoch) (hg : s.Gains payload n s') :
    (w.pushed P l cid s.epoch).countP (·.carries payload) ≤ n := by
  cases htx' : s'.out with
  | none => exact le_of_eq_of_le (pushed_of_letGo (by rw [channel_of_lookup hs' he, htx'])) (Nat.zero_le _)
  | some tx' =>
    obtain ⟨tx, items, htx, hsent, -, hcount⟩ := hg.channel tx' htx'
    rw [pushed_of_lookup hs htx hs' he htx', hsent, List.drop_left]
    exact hcount

theorem arrivals_new (hs : w.broker.sessions.lookup cid = none)
    (hnew : ∀ s', (step P w l).1.broker.sessions.lookup cid = some s' → s'.Silent payload) :
    (w.arrivals P l cid).countP (·.carries payload) = 0 := by
  unfold arrivals
  cases hs' : (step P w l).1.broker.sessions.lookup cid with
  | none => simp [hs]
  | some s' => simp [hs, pushed_of_silent hs' (hnew s' hs')]

theorem arrivals_le (hs : w.broker.sessions.lookup cid = some s)
    (hturn : ∀ s', (step P w l).1.broker.sessions.lookup cid = some s' → Turn payload n s s') :
    (w.arrivals P l cid).countP (·.carries payload) ≤ n := by
  unfold arrivals
  cases hs' : (step P w l).1.broker.sessions.lookup cid with
  | none =>
    have hgone : (step P w l).1.channel cid s.epoch = none := by simp [channel, hs']
    simp [hs, pushed_of_letGo hgone]
  | some s' =>
    by_cases he : s'.epoch = s.epoch
    · have hdedup : ([s.epoch, s'.epoch] : List Nat).dedup = [s.epoch] := by simp [he]
      simp only [hs, Option.toList_some, List.singleton_append, List.map_cons, List.map_nil, hdedup, List.flatMap_cons,
        List.flatMap_nil, List.append_nil]
      rcases hturn s' hs' with ⟨-, hg⟩ | ⟨-, hsilent⟩
      · exact pushed_of_gains hs hs' he hg
      · exact le_of_eq_of_le (he ▸ pushed_of_silent hs' hsilent) (Nat.zero_le _)
    · have hsilent : s'.Silent payload := (hturn s' hs').elim (fun h => absurd h.1 he) And.right
      have hdedup : ([s.epoch, s'.epoch] : List Nat).dedup = [s.epoch, s'.epoch] := by simp [Ne.symm he]
      have hgone : (step P w l).1.channel cid s.epoch = none := by simp [channel, hs', he]
      simp only [hs, Option.toList_some, List.singleton_append, List.map_cons, List.map_nil, hdedup, List.flatMap_cons,
        List.flatMap_nil, List.append_nil, List.countP_append, pushed_of_letGo hgone, pushed_of_silent hs' hsilent]
      exact Nat.zero_le _

/-- A SUBSCRIBE of the connection picks the payload up from the retained messages. -/
def picksUp (P : Protocol) (payload : Bytes) (w : World) (l : Label) (cid : String) (epoch : Nat) : Bool :=
  match w.selected l.input, w.broker.sessions.lookup cid with
  | some (.dispatch c e (.subscribe sub)), some s =>
    c = cid && e = epoch && s.epoch = epoch && (w.broker.pickedUp P l.now l.ord cid s sub).any (·.payload = payload)
  | _, _ => false

theorem not_pickedUp (hs : w.broker.sessions.lookup cid = some s) (h : w.picksUp P payload l cid s.epoch = false)
    {sub : Subscribe} (hsel : w.selected l.input = some (.dispatch cid s.epoch (.subscribe sub))) :
    ∀ m ∈ w.broker.pickedUp P l.now l.ord cid s sub, m.payload ≠ payload := by
  intro m hm he
  simp only [picksUp, hsel, hs, decide_true, Bool.true_and] at h
  exact List.any_eq_false.1 h m hm (decide_eq_true he)

end World

/-- A message with the payload is routed at QoS 0, and no shared subscription among `subs` matches it. -/
def Effect.plain (P : Protocol) (payload : Bytes) (subs : List Subscription) : Effect → Bool
  | .routed _ m => m.payload ≠ payload ||
      (m.qos = .atMostOnce && subs.all fun sub => !P.topicMatches sub.filter m.topic || sub.shareName = none)
  | _ => true

namespace Federation
variable {P : Protocol} {payload : Bytes} {f : Federation} {x : Side × Act} {z : Side} {l : Label} {cid : String}

/-- What a step pushes into the channels of a session at `z`. -/
def arrivals (P : Protocol) (z : Side) (cid : String) (f : Federation) (x : Side × Act) : List Outgoing :=
  (f.labelAt P z x).elim [] fun l => (f.world z).arrivals P l cid

/-- The message is published at QoS 0, and the session at `z` has only ordinary subscriptions that match it. -/
def plain (P : Protocol) (payload : Bytes) (z : Side) (cid : String) (f : Federation) (x : Side × Act) : Bool :=
  ((step P f x).2.filterMap (Output.effectAt z)).all (·.plain P payload ((f.world z).broker.subsOf cid))

/-- A step in which the broker at `z` accepts the payload from the remote's bridge, and a session of one of the
bridge's connections has a subscription that takes part. -/
def sendsBack (P : Protocol) (payload : Bytes) (z : Side) (f : Federation) : Side × Act → Bool
  | (y, .broker l) =>
    y = z && match (f.world z).selected l.input with
      | some (.dispatch c e (.publish p)) =>
        p.payload = payload && f.isLink z (c, e) &&
          ((f.world z).broker.accepts P l.now c e p).any fun m =>
            (f.linksAt z).any fun link => ((f.world z).broker.sessions.lookup link.1).any fun s =>
              s.epoch = link.2 && s.subscriptions.any (eligible P (some c) m link.1)
      | _ => false
  | _ => false

/-- The message comes back to the bridge of `z`, or the session `cid` or one of the bridge's connections picks it up from
the retained messages. -/
def comesBack (P : Protocol) (payload : Bytes) (z : Side) (cid : String) (f : Federation) (x : Side × Act) : Bool :=
  sendsBack P payload z.other f x ||
    ((f.labelAt P z.other x).any fun l =>
      (f.linksAt z.other).any fun link => (f.world z.other).picksUp P payload l link.1 link.2) ||
    ((f.labelAt P z x).any fun l => ((f.world z).broker.sessions.lookup cid).any fun s =>
      (f.world z).picksUp P payload l cid s.epoch)

/-- The payload is nowhere on the way back to `z`. -/
structure Clean (payload : Bytes) (z : Side) (cid : String) (f : Federation) : Prop where
  ok : f.Ok payload
  /-- The remote has no bridge. -/
  alone : f.bridge z.other = none
  here : ∀ s, (f.world z).broker.sessions.lookup cid = some s → s.Lacks payload
  links : ∀ link ∈ f.linksAt z.other, link.2 < (f.world z.other).broker.nextEpoch
  there : ∀ link ∈ f.linksAt z.other, ∀ s, (f.world z.other).broker.sessions.lookup link.1 = some s → s.epoch = link.2 →
    s.Lacks payload ∧ s.Silent payload
  down : ∀ b, f.bridge z = some b → ∀ t ∈ b.down, t.2.bears payload = false

theorem linksAt_other (f : Federation) (z : Side) : f.linksAt z.other = (f.bridge z).elim [] (·.links) := by
  rw [linksAt, Side.other_other]

/-- What the remote routes does not reach the bridge's connections. -/
theorem Clean.unreached (h : f.Clean payload z cid) (hout : outside P payload z.other f x = 0)
    (hback : sendsBack P payload z.other f x = false) {e : Effect} (he : e ∈ f.effectsAt P z.other x) {link : Link}
    (hlink : link ∈ f.linksAt z.other) {s : Session} (hs : (f.world z.other).broker.sessions.lookup link.1 = some s)
    (hepoch : s.epoch = link.2) : e.reaches P payload link.1 s.subscriptions = false := by
  rw [outside_eq] at hout
  have hnot := List.countP_eq_zero.1 hout e he
  obtain ⟨l, hl, he⟩ := mem_effectsAt he
  refine Bool.eq_false_iff.2 fun hreach => ?_
  cases e with
  | routed origin m =>
    have hr := hreach
    simp only [Effect.reaches, WispMQ.reaches, Bool.and_eq_true, decide_eq_true_eq] at hr
    obtain ⟨hm, hel⟩ := hr
    cases origin with
    | publish c e =>
      cases hc : f.isLink z.other (c, e) with
      | false => exact hnot (by simp [Effect.outside, hm, hc])
      | true =>
        obtain ⟨p, hsel, hrouted⟩ := World.routed_publish he
        have haccepts := Broker.handlePublish_accepts hrouted
        have hp : p.payload = payload := (Broker.accepts_payload haccepts).symm.trans hm
        have hx := labelAt_dispatch hl hsel
        subst hx
        refine Bool.eq_false_iff.1 hback ?_
        simp only [sendsBack, decide_true, hsel, hp, hc, haccepts, Option.any_some, Bool.true_and, List.any_eq_true]
        exact ⟨link, hlink, by simpa [hs, hepoch, Origin.publisher] using hel⟩
    | will => exact hnot (by simp [Effect.outside, hm])
    | sys => exact hnot (by simp [Effect.outside, hm])
    | bridge c =>
      obtain ⟨name, hin, -⟩ := World.routed_bridge he
      obtain ⟨b, -, -, -, hb, -⟩ := labelAt_inject hl hin
      rw [h.alone] at hb
      cases hb
  | _ => cases hreach

end Federation

/-! ## The way back -/

theorem Outgoing.packets_bears {payload : Bytes} {item : Outgoing} (h : item.carries payload = false)
    (version : ProtocolVersion) : ∀ p ∈ item.packets version, p.bears payload = false := by
  intro p hp
  cases item with
  | send publish =>
    rw [List.mem_singleton.1 hp]
    exact h
  | control packet =>
    rw [List.mem_singleton.1 hp]
    exact h
  | shutdown rc =>
    simp only [Outgoing.packets] at hp
    split at hp
    · rw [List.mem_singleton.1 hp]
      rfl
    · cases hp

theorem Session.Silent.not_carries {payload : Bytes} {s : Session} {tx : OutTx} (h : s.Silent payload)
    (htx : s.out = some tx) {item : Outgoing} (hitem : item ∈ tx.sent) : item.carries payload = false := by
  rw [← Bool.not_eq_true]
  exact List.countP_eq_zero.1 (h tx htx) item hitem

namespace Bridge
open Federation
variable {P : Protocol} {own remote : World} {x : Side} {b : Bridge} {plan : Plan}

/-- What comes on the wire back was in the channel of a connection. -/
theorem Does.returning (h : b.Does P own remote x plan) :
    ∃ b', plan.bridge = some b' ∧ ∀ t ∈ b'.down, t ∈ b.down ∨
      ∃ tx item, t.1 ∈ b.links ∧ remote.channel t.1.1 t.1.2 = some tx ∧ item ∈ tx.waiting ∧
        t.2 ∈ item.packets b.cfg.protocolVersion := by
  cases h with
  | emit htx hitem hlink =>
    refine ⟨_, rfl, fun t ht => (List.mem_append.1 ht).imp_right fun ht => ?_⟩
    obtain ⟨p, hp, rfl⟩ := List.mem_map.1 ht
    exact ⟨_, _, hlink, htx, List.mem_of_mem_head? hitem, hp⟩
  | receive => exact ⟨_, rfl, fun t ht => .inl (mem_of_mem_dropPacket ht)⟩
  | cut => exact ⟨_, rfl, fun t ht => .inl (List.mem_of_mem_filter ht)⟩
  | _ => exact ⟨_, rfl, fun t ht => .inl ht⟩

theorem mem_leftovers {es : List Effect} {t : Link × Packet} (h : t ∈ b.leftovers es) :
    ∃ tx item, .detached t.1.1 t.1.2 tx ∈ es ∧ t.1 ∈ b.links ∧ item ∈ tx.waiting ∧
      t.2 ∈ item.packets b.cfg.protocolVersion := by
  obtain ⟨e, he, ht⟩ := List.mem_flatMap.1 h
  split at ht
  · split at ht
    · rename_i hlink
      obtain ⟨p, hp, rfl⟩ := List.mem_map.1 ht
      obtain ⟨item, hitem, hp⟩ := List.mem_flatMap.1 hp
      exact ⟨_, item, he, hlink, hitem, hp⟩
    · cases ht
  · cases ht

end Bridge

namespace Federation
variable {P : Protocol} {payload : Bytes} {f : Federation} {x : Side × Act} {z : Side} {l : Label} {cid : String}

/-- The links after a step are those of before, and the one accepted in it. -/
theorem step_linksAt {link : Link} (h : link ∈ (step P f x).1.linksAt z.other) :
    link ∈ f.linksAt z.other ∨ ∃ l req, f.labelAt P z.other x = some l ∧
      (f.world z.other).selected l.input = some (.connect req) ∧ req.connect.cleanStart = true ∧
      link = (req.clientId, (f.world z.other).broker.nextEpoch) := by
  cases hplan : f.plan P x.1 x.2 with
  | none =>
    rw [step_of_none hplan] at h
    exact .inl h
  | some plan =>
    rw [linksAt_other, step_bridge hplan] at h
    rw [linksAt_other]
    split at h
    · rename_i hz
      subst hz
      rcases plan_cases hplan with ⟨l, -, -, rfl⟩ | ⟨b, hb, hd⟩
      · cases hb : f.bridge x.1 with
        | none => simp [hb] at h
        | some b => exact .inl (by simpa [hb] using h)
      · obtain ⟨b', hb', hlinked, -⟩ := hd.wires []
        rw [hb'] at h
        simp only [Option.map_some, Option.elim_some] at h
        rw [hb]
        cases hlinked with
        | same he => exact .inl (by rw [Option.elim_some, ← he]; exact h)
        | @accepted l req hcall hsel hreq he =>
          rw [he, List.mem_cons] at h
          refine h.symm.imp_right fun hlink => ⟨l, req, by simp [labelAt, hplan, hcall], hsel, ?_, hlink⟩
          rw [hreq]
          rfl
    · cases hb : f.bridge z with
      | none => simp [hb] at h
      | some b => exact .inl (by simpa [hb] using h)

/-- The sessions of the bridge's connections stay without the payload. -/
theorem Clean.step_there (h : f.Clean payload z cid) (hout : outside P payload z.other f x = 0)
    (hback : comesBack P payload z cid f x = false) {link : Link} (hlink : link ∈ (step P f x).1.linksAt z.other)
    {s' : Session} (hs' : ((step P f x).1.world z.other).broker.sessions.lookup link.1 = some s')
    (hepoch : s'.epoch = link.2) : s'.Lacks payload ∧ s'.Silent payload := by
  simp only [comesBack, Bool.or_eq_false_iff] at hback
  obtain ⟨⟨hsend, hpick⟩, -⟩ := hback
  have hchannels : ∀ {l : Label} req, (f.world z.other).selected l.input = some (.connect req) → req.out = {} :=
    fun req hsel => (h.ok.world z.other).channels req (World.selected_mem hsel)
  rw [step_world] at hs'
  rcases step_linksAt hlink with hlink | ⟨l, req, hl, hsel, hclean, rfl⟩
  · cases hl : f.labelAt P z.other x with
    | none =>
      rw [hl] at hs'
      exact h.there link hlink s' hs' hepoch
    | some l =>
      rw [hl, Option.elim_some] at hs'
      rw [hl, Option.any_some] at hpick
      rcases (World.step_change P (f.world z.other) l).epochs.2 link.1 s' hs' with ⟨s, hs, hsame, -⟩ | ⟨hnew, -⟩
      · have he : s.epoch = link.2 := hsame.epoch.symm.trans hepoch
        obtain ⟨hlacks, hsilent⟩ := h.there link hlink s hs he
        have hunreached : ∀ e ∈ (World.step P (f.world z.other) l).2, e.reaches P payload link.1 s.subscriptions = false :=
          fun e hmem => h.unreached hout hsend (by rw [effectsAt, hl]; exact hmem) hlink hs he
        have hturn := World.step_gains hs hs' hlacks
          (fun origin m hr hm sub hsub hel => by
            have hnot := hunreached _ hr
            simp only [Effect.reaches, reaches, hm, decide_true, Bool.true_and] at hnot
            exact absurd hel (List.any_eq_false.1 hnot sub hsub))
          (fun sub hsel => World.not_pickedUp hs (by
            rw [he]
            exact Bool.eq_false_iff.2 (List.any_eq_false.1 hpick link hlink)) hsel) hchannels
        rw [List.countP_eq_zero.2 fun e he => by rw [hunreached e he]; exact Bool.false_ne_true] at hturn
        rcases hturn with ⟨-, hgains⟩ | hfresh
        · exact ⟨hgains.lacks, hgains.silent hsilent⟩
        · exact hfresh
      · have := h.links link hlink
        omega
  · rw [hl, Option.elim_some, (World.step_of_selected hsel).1, Broker.runTask,
      World.finishConnect_fresh l.now l.ord (.inl hclean)] at hs'
    cases hs'
    exact World.freshSession_silent l.now _ (hchannels req hsel)

theorem Clean.step_links (h : f.Clean payload z cid) {link : Link} (hlink : link ∈ (step P f x).1.linksAt z.other) :
    link.2 < ((step P f x).1.world z.other).broker.nextEpoch := by
  rw [step_world]
  rcases step_linksAt hlink with hlink | ⟨l, req, hl, hsel, -, rfl⟩
  · cases hl : f.labelAt P z.other x with
    | none => exact h.links link hlink
    | some l => exact lt_of_lt_of_le (h.links link hlink) (World.step_nextEpoch_le P _ l)
  · rw [hl, Option.elim_some, (World.step_of_selected hsel).1, Broker.runTask]
    exact Nat.lt_succ_self _

/-- Nothing with the payload comes on the wire back. -/
theorem Clean.step_down (h : f.Clean payload z cid) {b' : Bridge} (hb' : (step P f x).1.bridge z = some b') :
    ∀ t ∈ b'.down, t.2.bears payload = false := by
  intro t ht
  cases hplan : f.plan P x.1 x.2 with
  | none =>
    rw [step_of_none hplan] at hb'
    exact h.down b' hb' t ht
  | some plan =>
    have hlinks : ∀ link ∈ b'.links, link ∈ (step P f x).1.linksAt z.other := fun link hl => by
      rw [linksAt_other, hb']
      exact hl
    rw [step_bridge hplan] at hb'
    obtain ⟨b₁, hb₁, rfl⟩ := Option.map_eq_some_iff.1 hb'
    rcases List.mem_append.1 ht with hwire | hleft
    · -- on the wire before, or just taken from a channel
      split at hb₁
      · rename_i hz
        subst hz
        rcases plan_cases hplan with ⟨l, -, -, rfl⟩ | ⟨b, hb, hd⟩
        · exact h.down b₁ hb₁ t hwire
        · obtain ⟨b₂, hb₂, hdown⟩ := hd.returning
          rw [hb₁] at hb₂
          cases hb₂
          rcases hdown t hwire with hwire | ⟨tx, item, hlink, htx, hitem, hp⟩
          · exact h.down b hb t hwire
          · obtain ⟨s, hs, hepoch, hout⟩ := World.channel_some htx
            have hin : t.1 ∈ f.linksAt x.1.other := by rw [linksAt_other, hb]; exact hlink
            have hnot := (h.there t.1 hin s hs hepoch).2.not_carries hout (List.mem_of_mem_drop hitem)
            exact Outgoing.packets_bears hnot _ _ hp
      · exact h.down b₁ hb₁ t hwire
    · obtain ⟨tx, item, hdet, hlink, hitem, hp⟩ := Bridge.mem_leftovers hleft
      obtain ⟨l, hl, hdet⟩ := mem_effectsAt hdet
      obtain ⟨s, tx₀, hs, hepoch, hout, hsent⟩ := World.step_letGo hdet
      -- an accepted connection is not let go of in the same step
      have hold : t.1 ∈ f.linksAt z.other := by
        refine (step_linksAt (hlinks t.1 hlink)).resolve_right ?_
        rintro ⟨l', req, -, -, -, he⟩
        have := (h.ok.world z.other).epochs t.1.1 s hs
        rw [hepoch, he] at this
        exact Nat.lt_irrefl _ this
      have hsilent := (h.there t.1 hold s hs hepoch).2
      refine Outgoing.packets_bears ?_ _ _ hp
      have hmem := List.mem_of_mem_drop hitem
      rcases hsent with hsent | ⟨rc, hsent⟩
      · exact hsilent.not_carries hout (hsent ▸ hmem)
      · rw [hsent, List.mem_append, List.mem_singleton] at hmem
        rcases hmem with hmem | rfl
        · exact hsilent.not_carries hout hmem
        · rfl

/-! ## The sessions at home -/

/-- What reaches a session was published by others than the bridge. -/
theorem Clean.reaches_outside (h : f.Clean payload z cid) {e : Effect} (he : e ∈ f.effectsAt P z x)
    {subs : List Subscription} (hreach : e.reaches P payload cid subs) : e.outside payload (f.isLink z) := by
  obtain ⟨l, hl, he⟩ := mem_effectsAt he
  cases e with
  | routed origin m =>
    simp only [Effect.reaches, WispMQ.reaches, Bool.and_eq_true, decide_eq_true_eq] at hreach
    have hm := hreach.1
    cases origin with
    | publish c e => simp [Effect.outside, hm, isLink, h.alone]
    | will => simp [Effect.outside, hm]
    | sys => simp [Effect.outside, hm]
    | bridge c =>
      obtain ⟨name, hin, -⟩ := World.routed_bridge he
      obtain ⟨b, link, loop, packet, hb, -, -, hnext, hinject⟩ := labelAt_inject hl hin
      obtain ⟨p, rfl, hp⟩ := BridgeLoop.receive_inject hinject
      have hnot := h.down b hb _ (mem_of_nextPacket hnext)
      simp [Packet.bears, ← hp, hm] at hnot
  | _ => cases hreach

/-- The operations of a step on a session at `z`, seen by the payload. -/
theorem Clean.step_turn (h : f.Clean payload z cid) (hl : f.labelAt P z x = some l)
    (hplain : plain P payload z cid f x) (hback : comesBack P payload z cid f x = false) {s s' : Session}
    (hs : (f.world z).broker.sessions.lookup cid = some s)
    (hs' : (World.step P (f.world z) l).1.broker.sessions.lookup cid = some s') :
    World.Turn payload ((World.step P (f.world z) l).2.countP (·.reaches P payload cid s.subscriptions)) s s' := by
  simp only [comesBack, Bool.or_eq_false_iff, hl, hs, Option.any_some] at hback
  refine World.step_gains hs hs' (h.here s hs) (fun origin m hr hm sub hsub hel => ?_)
    (fun sub hsel => World.not_pickedUp hs hback.2 hsel) fun req hsel => (h.ok.world z).channels req (World.selected_mem hsel)
  rw [plain, step_effects, effectsAt, hl, Option.elim_some] at hplain
  have hone := List.all_eq_true.1 hplain _ hr
  have hsubs : (f.world z).broker.subsOf cid = s.subscriptions := by simp [Broker.subsOf, hs]
  simp only [Effect.plain, hm, ne_eq, not_true_eq_false, decide_false, Bool.false_or, Bool.and_eq_true, decide_eq_true_eq,
    hsubs] at hone
  have hmatch : P.topicMatches sub.filter m.topic = true := by
    simp only [eligible, Bool.and_eq_true] at hel
    exact hel.1
  have hshare := List.all_eq_true.1 hone.2 sub hsub
  simp only [hmatch, Bool.not_true, Bool.false_or, decide_eq_true_eq] at hshare
  exact ⟨hshare, by rw [hone.1]; exact QoS.atMostOnce_min _⟩

/-- A session at `z` is pushed no more copies than are published. -/
theorem Clean.arrivals_le (h : f.Clean payload z cid) (hplain : plain P payload z cid f x)
    (hback : comesBack P payload z cid f x = false) :
    (arrivals P z cid f x).countP (·.carries payload) ≤ outside P payload z f x := by
  rw [outside_eq, arrivals]
  cases hl : f.labelAt P z x with
  | none => exact Nat.zero_le _
  | some l =>
    rw [Option.elim_some]
    cases hs : (f.world z).broker.sessions.lookup cid with
    | none =>
      rw [World.arrivals_new hs fun s' hs' =>
        (World.step_new hs hs' fun req hsel => (h.ok.world z).channels req (World.selected_mem hsel)).2]
      exact Nat.zero_le _
    | some s =>
      refine (World.arrivals_le hs fun s' hs' => h.step_turn hl hplain hback hs hs').trans ?_
      have heffects : f.effectsAt P z x = (World.step P (f.world z) l).2 := by rw [effectsAt, hl, Option.elim_some]
      rw [heffects]
      exact List.countP_mono_left fun e he hreach => h.reaches_outside (heffects ▸ he) hreach

theorem Clean.step (P : Protocol) (h : f.Clean payload z cid) (hout : outside P payload z.other f x = 0)
    (hplain : plain P payload z cid f x) (hback : comesBack P payload z cid f x = false) :
    (step P f x).1.Clean payload z cid where
  ok := h.ok.step P x
  alone := h.ok.bridge_none P x h.alone
  here s' hs' := by
    rw [step_world] at hs'
    cases hl : f.labelAt P z x with
    | none =>
      rw [hl] at hs'
      exact h.here s' hs'
    | some l =>
      rw [hl, Option.elim_some] at hs'
      cases hs : (f.world z).broker.sessions.lookup cid with
      | none => exact (World.step_new hs hs' fun req hsel => (h.ok.world z).channels req (World.selected_mem hsel)).1
      | some s => exact (h.step_turn hl hplain hback hs hs').lacks
  links link hlink := h.step_links hlink
  there link hlink s' hs' hepoch := h.step_there hout hback hlink hs' hepoch
  down b' hb' := h.step_down hb'

theorem start_clean (P : Protocol) (setup : Side → Setup) (payload : Bytes) (z : Side) (cid : String)
    (hbridge : (setup z.other).bridge = none) : (start P setup).Clean payload z cid where
  ok := start_ok P payload setup
  alone := by simp [start, hbridge]
  here s hs := by
    simp only [start, World.boot_lookup] at hs
    split at hs
    · cases hs
    · obtain ⟨row, -, rfl⟩ := Option.map_eq_some_iff.1 hs
      exact World.lacks_of_empty rfl rfl rfl
  links link hlink := by
    rw [linksAt_other] at hlink
    cases hb : (setup z).bridge <;> simp [start, hb] at hlink
  there link hlink := by
    rw [linksAt_other] at hlink
    cases hb : (setup z).bridge <;> simp [start, hb] at hlink
  down b hb t ht := by
    obtain ⟨cfg, -, rfl⟩ := Option.map_eq_some_iff.1 hb
    cases ht

/-- **No second copy**: a QoS 0 message that is published once at `z`, whose bridge has a remote without a bridge, is
pushed at most once into the channels of a session that has only ordinary subscriptions that match it, as long as
nothing sends it back over the bridge. -/
theorem pushed_at_most_once (P : Protocol) (setup : Side → Setup) (payload : Bytes) (z : Side) (cid : String)
    (hbridge : (setup z.other).bridge = none) (xs : List (Side × Act))
    (honce : Machine.total (step P) (outside P payload z) (start P setup) xs ≤ 1)
    (hnone : Machine.total (step P) (outside P payload z.other) (start P setup) xs = 0)
    (hplain : Machine.Along (step P) (fun f x => plain P payload z cid f x = true) (start P setup) xs)
    (hback : Machine.Along (step P) (fun f x => comesBack P payload z cid f x = false) (start P setup) xs) :
    Machine.total (step P) (fun f x => (arrivals P z cid f x).countP (·.carries payload)) (start P setup) xs ≤ 1 := by
  have hall := (((Machine.total_eq_zero (step P)).1 hnone).and (step P) hplain).and (step P) hback
  have hle := Machine.total_le (step P) (Clean payload z cid) (fun _ => 0)
    (fun f x => (arrivals P z cid f x).countP (·.carries payload)) (outside P payload z)
    (fun f x h hok => h.step P hok.1.1 hok.1.2 hok.2)
    (fun f x h hok => Nat.add_le_add_left (h.arrivals_le hok.1.2 hok.2) _) (start_clean P setup payload z cid hbridge) hall
  omega

/-! ### A bridge in both directions -/

/-- `a` has a bridge that forwards `t` both ways; `b` has none. -/
def bothWays : Side → Setup
  | .a => { bridge := some { name := "up", clientId := "bridge-a", topics := [⟨"t", .both, .atMostOnce⟩] } }
  | .b => {}

/-- The same, but `b` has a policy, under which nobody may subscribe. -/
def oneWay : Side → Setup
  | .a => bothWays .a
  | .b => { acl := ⟨true, false, [{ identity := anyIdentity, publish := ["t"] }]⟩ }

/-- The bridge has subscribed at `b`, `d` subscribes `t` at `a`, `c` publishes it there, and the bridge forwards it. -/
def forwarded : List (Side × Act) :=
  starting .a none ++ [(.a, .arrive ("bridge-a", 1))] ++ handling .b ++
    (World.connecting { clientId := "d", cleanStart := true } ++
      World.sending "d" 2 (.subscribe { packetId := 1, filters := [{ filter := "t", qos := .atMostOnce }] })).map
        (.a, .broker ·) ++
    publishing .a 3 ⟨false, .atMostOnce, false, "t", none, {}, [7]⟩ ++ hop .a ("bridge-a", 1)

/-- `b` handles it, sends it back behind the SUBACK, and the bridge injects it. -/
def sentBack : List (Side × Act) :=
  handling .b ++ [(.a, .emit ("bridge-a", 1)), (.a, .emit ("bridge-a", 1)), (.a, .receive 0 {}), (.a, .receive 0 {})]

/-- The policy of `b` has refused the bridge's SUBSCRIBE: `b` routes the message, and `d` has one copy. -/
theorem pushed_at_most_once_forwarded :
    ((run .reference (start .reference oneWay) (forwarded ++ sentBack)).1.world .b).tasks = [] ∧
      Machine.total (step .reference) (fun f x => (arrivals .reference .a "d" f x).countP (·.carries [7]))
        (start .reference oneWay) (forwarded ++ sentBack) ≠ 0 ∧
      Machine.total (step .reference) (fun f x => (arrivals .reference .a "d" f x).countP (·.carries [7]))
        (start .reference oneWay) (forwarded ++ sentBack) ≤ 1 :=
  ⟨by decide +kernel, by decide +kernel, pushed_at_most_once .reference oneWay [7] .a "d" rfl (forwarded ++ sentBack)
    (by decide +kernel) (by decide +kernel) (by decide +kernel) (by decide +kernel)⟩

/-- Without the policy `d` gets a second one. -/
theorem looped :
    Machine.total (step .reference) (outside .reference [7] .a) (start .reference bothWays) (forwarded ++ sentBack) = 1 ∧
      Machine.total (step .reference) (outside .reference [7] .b) (start .reference bothWays) (forwarded ++ sentBack) = 0 ∧
      Machine.Along (step .reference) (fun f x => plain .reference [7] .a "d" f x = true) (start .reference bothWays)
        (forwarded ++ sentBack) ∧
      Machine.total (step .reference) (fun f x => (arrivals .reference .a "d" f x).countP (·.carries [7]))
        (start .reference bothWays) (forwarded ++ sentBack) = 2 := by
  decide +kernel

end Federation

end WispMQ
