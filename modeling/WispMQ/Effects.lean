import WispMQ.Sections
/-!
# What a step emits

`step_emits` says where each effect of a step comes from: the CONNECT that is accepted, the channel that is let go, and for
a message that is retained or routed the PUBLISH, Will, `$SYS` update or bridge behind it (`Issues`). `step_tasks` does the
same for the continuations a step leaves behind (`Spawned`).

`Effect.Publishes` are the effects of publishing a message: nothing a routed message does reaches the tables of
sessions and subscriptions or drops a channel.
-/

namespace WispMQ
open KeyMap

/-- The effects of publishing `m` for `origin`. -/
inductive Effect.Publishes (origin : Origin) (m : Message) : Effect → Prop
  | retain (h : m.retain) : Publishes origin m (.retain origin m)
  | routed : Publishes origin m (.routed origin m)
  | stored : Publishes origin m (.store (.upsertRetained m.topic m))
  | erased : Publishes origin m (.store (.deleteRetained m.topic))

/-- The effects of publishing, and the results of handlers. -/
def Effect.isRouting : Effect → Bool
  | .retain .. | .routed .. | .result .. | .store (.upsertRetained ..) | .store (.deleteRetained _) => true
  | _ => false

theorem Effect.Publishes.isRouting {origin : Origin} {m : Message} {e : Effect} (h : e.Publishes origin m) :
    e.isRouting := by
  cases h <;> rfl

namespace Broker
variable {P : Protocol}

theorem storeRetained_publishes (b : Broker) (origin : Origin) (m : Message) :
    ∀ e ∈ (b.storeRetained origin m).2, e.Publishes origin m := by
  intro e he
  unfold storeRetained at he
  split at he
  · rename_i hflag
    split at he
    · rw [List.mem_singleton.1 he]
      exact .erased
    · simp only [List.mem_cons, List.not_mem_nil, or_false] at he
      rcases he with rfl | rfl
      · exact .retain hflag
      · exact .stored
  · cases he

theorem publishMessage_publishes (now : Nat) (ord : Orders) (b : Broker) (origin : Origin)
    (publisher : Option String) (m : Message) :
    ∀ e ∈ (publishMessage P now ord b origin publisher m).effects, e.Publishes origin m := by
  intro e he
  simp only [publishMessage, List.mem_append, List.mem_singleton] at he
  rcases he with he | rfl
  · exact storeRetained_publishes b origin m e he
  · exact .routed

/-- `publish_sys` stores nothing. -/
theorem publishSys_effects (now : Nat) (ord : Orders) : ∀ (es : List (String × Bytes)) (b : Broker),
    ∀ e ∈ (publishSys P now ord es b).effects, ∃ m : Message, m.retain ∧ (e = .retain .sys m ∨ e = .routed .sys m)
  | [], _ => by simp [publishSys]
  | (topic, payload) :: es, b => by
    simp only [publishSys, List.mem_cons]
    rintro e (rfl | rfl | he)
    · exact ⟨_, rfl, .inl rfl⟩
    · exact ⟨_, rfl, .inr rfl⟩
    · exact publishSys_effects now ord es _ e he

theorem routePublish_publishes (now : Nat) (ord : Orders) (b : Broker) (cid : String) (epoch : Nat) (s : Session)
    (publish : Publish) (m : Message) :
    ∀ e ∈ (routePublish P now ord b cid epoch s publish m).2, e.Publishes (.publish cid epoch) m := by
  intro e he
  simp only [routePublish] at he
  split at he
  · rw [List.mem_singleton.1 he]
    exact .routed
  · rw [List.mem_singleton.1 he]
    exact .routed
  · split at he
    · cases he
    · rw [List.mem_singleton.1 he]
      exact .routed

theorem answer_effects {b : Broker} {cid : String} {epoch : Nat} {action : Action} {e : Effect}
    (h : e ∈ (b.answer cid epoch action).effects) : ∃ action, e = .result cid epoch action :=
  ⟨action, List.mem_singleton.1 h⟩

/-- What a fenced handler emits: what its body emits on the current session, or a result. -/
theorem fenced_effects {b : Broker} {cid : String} {epoch : Nat} {body : Session → Outcome} {e : Effect}
    (h : e ∈ (b.fenced cid epoch body).effects) :
    (∃ s, b.sessions.lookup cid = some s ∧ s.epoch = epoch ∧ e ∈ (body s).effects) ∨
      ∃ action, e = .result cid epoch action := by
  unfold fenced at h
  split at h
  · rename_i s hs
    split at h
    · rename_i he; exact .inl ⟨s, hs, he, h⟩
    · exact .inr (answer_effects h)
  · exact .inr (answer_effects h)

/-- The checks `handle_publish` makes before it looks at the session (publish.rs:24-30). -/
def supported (cfg : Config) (p : Publish) : Bool :=
  !(p.qos.asU8 > cfg.maximumQos.asU8) && !(p.retain && !cfg.retainAvailable)

/-- The answer to a PUBLISH that fails them. -/
def unsupportedAnswer (cfg : Config) (p : Publish) : ReasonCode :=
  if p.qos.asU8 > cfg.maximumQos.asU8 then .qosNotSupported else .retainNotSupported

/-- It is answered whoever sends it, and whatever else is wrong with it. -/
theorem handlePublish_unsupported (P : Protocol) (now : Nat) (ord : Orders) (b : Broker) (cid : String) (epoch : Nat)
    {p : Publish} (hsup : supported b.config p = false) :
    handlePublish P now ord b cid epoch p =
      { b with metrics.publishReceived := b.metrics.publishReceived + 1 }.answer cid epoch
        (.serverDisconnect (unsupportedAnswer b.config p)) := by
  by_cases hqos : p.qos.asU8 > b.config.maximumQos.asU8
  · simp [handlePublish, unsupportedAnswer, hqos]
  · have hretain : (p.retain && !b.config.retainAvailable) = true := by simpa [supported, hqos] using hsup
    simp [handlePublish, unsupportedAnswer, hqos, hretain]

/-- The message `m` that comes of a PUBLISH: what the configuration supports, under a topic that is not under `$SYS/`. -/
structure Admitted (cfg : Config) (p : Publish) (m : Message) : Prop where
  supported : supported cfg p
  qos : m.qos = p.qos
  retain : m.retain = p.retain
  topic : startsWith m.topic sysPrefix = false

/-- An accepted PUBLISH publishes under its resolved topic, which is not under `$SYS/`. -/
theorem acceptPublish_effects {now : Nat} {ord : Orders} {b : Broker} {cid : String} {epoch : Nat} {s : Session}
    {publish : Publish} {e : Effect} (he : e ∈ (acceptPublish P now ord b cid epoch s publish).effects) :
    (∃ action, e = .result cid epoch action) ∨
      ∃ m, (m.qos = publish.qos ∧ m.retain = publish.retain ∧ startsWith m.topic sysPrefix = false) ∧
        e.Publishes (.publish cid epoch) m := by
  unfold acceptPublish at he
  split at he
  · exact .inl (answer_effects he)
  split at he
  · exact .inl (answer_effects he)
  split at he
  · exact .inl (answer_effects he)
  · rename_i hsys _
    have hm : startsWith (Message.fromPublish now publish).topic sysPrefix = false := Bool.not_eq_true _ ▸ hsys
    simp only [List.mem_append, List.mem_singleton] at he
    rcases he with (he | he) | rfl
    · exact .inr ⟨_, ⟨rfl, rfl, hm⟩, storeRetained_publishes _ _ _ e he⟩
    · exact .inr ⟨_, ⟨rfl, rfl, hm⟩, routePublish_publishes _ _ _ _ _ _ _ _ e he⟩
    · exact .inl ⟨_, rfl⟩

theorem handlePublish_effects {now : Nat} {ord : Orders} {b : Broker} {cid : String} {epoch : Nat}
    {publish : Publish} {e : Effect} (he : e ∈ (handlePublish P now ord b cid epoch publish).effects) :
    (∃ action, e = .result cid epoch action) ∨ ∃ m, Admitted b.config publish m ∧ e.Publishes (.publish cid epoch) m := by
  simp only [handlePublish] at he
  split at he
  · exact .inl (answer_effects he)
  split at he
  · exact .inl (answer_effects he)
  rename_i hqos hretain
  have hsup : supported b.config publish := by simp [supported, hqos, hretain]
  rcases fenced_effects he with ⟨s, -, -, he⟩ | he
  · split at he
    · exact .inl (answer_effects he)
    · rename_i s' publish' hr
      obtain ⟨topic, rfl⟩ := resolveAlias_publish hr
      rcases acceptPublish_effects he with he | ⟨m, ⟨hmq, hmr, hm⟩, he⟩
      · exact .inl he
      · exact .inr ⟨m, ⟨hsup, hmq, hmr, hm⟩, he⟩
  · exact .inl he

theorem publishMessage_routing (now : Nat) (ord : Orders) (b : Broker) (origin : Origin)
    (publisher : Option String) (m : Message) :
    ∀ e ∈ (publishMessage P now ord b origin publisher m).effects, e.isRouting :=
  fun e he => (publishMessage_publishes now ord b origin publisher m e he).isRouting

theorem publishSys_routing (now : Nat) (ord : Orders) (es : List (String × Bytes)) (b : Broker) :
    ∀ e ∈ (publishSys P now ord es b).effects, e.isRouting := by
  intro e he
  obtain ⟨m, -, rfl | rfl⟩ := publishSys_effects now ord es b e he <;> rfl

theorem handlePublish_routing (now : Nat) (ord : Orders) (b : Broker) (cid : String) (epoch : Nat)
    (publish : Publish) : ∀ e ∈ (handlePublish P now ord b cid epoch publish).effects, e.isRouting := by
  intro e he
  rcases handlePublish_effects he with ⟨action, rfl⟩ | ⟨m, -, h⟩
  · rfl
  · exact h.isRouting

theorem acked_effects (b : Broker) (cid : String) (epoch : Nat) (f : Session → Session × Nat) :
    ∃ action, (b.acked cid epoch f).effects = [.result cid epoch action] := by
  unfold acked
  split
  · exact ⟨_, rfl⟩
  · split <;> exact ⟨_, rfl⟩

end Broker

/-! ## Channels let go -/

/-- The channel of a superseded or closed connection: as it was, or with a last Shutdown. -/
def World.LetGo (w : World) (cid : String) (epoch : Nat) (tx : OutTx) : Prop :=
  ∃ s tx₀, w.broker.sessions.lookup cid = some s ∧ s.epoch = epoch ∧ s.out = some tx₀ ∧
    (tx.sent = tx₀.sent ∨ ∃ rc, tx.sent = tx₀.sent ++ [.shutdown rc])

namespace World
open Broker
variable {P : Protocol} {w : World} {l : Label} {cid : String} {epoch : Nat} {tx : OutTx}

theorem dropped_letGo {c : String} {x : Effect} (h : x ∈ w.broker.dropped c) :
    ∃ cid epoch tx, x = .detached cid epoch tx ∧ w.LetGo cid epoch tx := by
  unfold dropped at h
  split at h
  · rename_i s hs
    obtain ⟨tx, ho, rfl⟩ := Option.map_eq_some_iff.1 (Option.mem_toList.1 h)
    exact ⟨c, s.epoch, tx, rfl, s, tx, hs, rfl, ho, .inl rfl⟩
  · cases h

theorem takeover_letGo {c : String} {s : Session} {x : Effect} (hs : w.broker.sessions.lookup c = some s)
    (h : x ∈ takeover c s) : ∃ cid epoch tx, x = .detached cid epoch tx ∧ w.LetGo cid epoch tx := by
  unfold takeover at h
  split at h
  · rename_i tx₀ ho
    refine ⟨c, s.epoch, _, List.mem_singleton.1 h, s, tx₀, hs, rfl, ho, ?_⟩
    unfold shutdownTx OutTx.trySend
    split
    · exact .inr ⟨_, rfl⟩
    · exact .inl rfl
  · cases h

/-! ## What a step emits -/

/-- The step publishes `m` for `origin`. -/
inductive Issues (w : World) (l : Label) : Origin → Message → Prop
  | publish {c : String} {e : Nat} {p : Publish} {m : Message} (hsel : w.selected l.input = some (.dispatch c e (.publish p)))
      (h : Admitted w.broker.config p m) : Issues w l (.publish c e) m
  | will {c : String} {e : Nat} {m : Message} (hsel : w.selected l.input = some (.willPublish c e m)) :
      Issues w l (.will c e) m
  | sys {entries : List (String × Bytes)} {m : Message} (hin : l.input = .call (.publishSys entries)) : Issues w l .sys m
  | bridge {name : String} {m : Message} (hin : l.input = .call (.injectPublish name m)) :
      Issues w l (.bridge (bridgeClient name)) m

/-- The effects a step can have. -/
inductive Emits (w : World) (l : Label) : Effect → Prop
  | store (cmd : Command) : Emits w l (.store cmd)
  | result (c : String) (e : Nat) (action : Action) : Emits w l (.result c e action)
  | refused {connect : Connect} {identity : Option String} (hin : l.input = .call (.connect connect identity)) (c : Connack) :
      Emits w l (.refused c)
  | accepted {req : ConnectRequest} (hsel : w.selected l.input = some (.connect req)) :
      Emits w l (.accepted ⟨req.clientId, w.broker.nextEpoch, effectiveKeepAlive w.broker.config req, req.identity,
        connack w.broker.config req (w.broker.claimed req).2⟩)
  | detached {c : String} {e : Nat} {tx : OutTx} (h : w.LetGo c e tx) : Emits w l (.detached c e tx)
  | retain {origin : Origin} {m : Message} (h : Issues w l origin m) (hflag : m.retain) : Emits w l (.retain origin m)
  | routed {origin : Origin} {m : Message} (h : Issues w l origin m) : Emits w l (.routed origin m)

theorem Emits.publishes {origin : Origin} {m : Message} {x : Effect} (h : Issues w l origin m) (hx : x.Publishes origin m) :
    Emits w l x := by
  cases hx with
  | retain hflag => exact .retain h hflag
  | routed => exact .routed h
  | stored => exact .store _
  | erased => exact .store _

theorem Emits.letGo {x : Effect} (h : ∃ c e tx, x = .detached c e tx ∧ w.LetGo c e tx) : Emits w l x := by
  obtain ⟨c, e, tx, rfl, hl⟩ := h
  exact .detached hl

theorem dispatch_emits {c : String} {e : Nat} {packet : Packet} {x : Effect}
    (hsel : w.selected l.input = some (.dispatch c e packet))
    (h : x ∈ (dispatch P l.now l.ord w.broker c e packet).effects) : Emits w l x := by
  have hacked : ∀ f : Session → Session × Nat, x ∈ (w.broker.acked c e f).effects → Emits w l x := by
    intro f hx
    obtain ⟨_, he⟩ := acked_effects w.broker c e f
    rw [he, List.mem_singleton] at hx
    exact hx ▸ .result ..
  cases packet with
  | publish p =>
    rcases handlePublish_effects h with ⟨_, rfl⟩ | ⟨m, hm, hx⟩
    · exact .result ..
    · exact .publishes (.publish hsel hm) hx
  | subscribe s =>
    rcases fenced_effects h with ⟨s, -, -, h⟩ | ⟨_, rfl⟩
    · simp only [List.mem_append, List.mem_map, List.mem_singleton] at h
      rcases h with ⟨cmd, -, rfl⟩ | rfl
      · exact .store cmd
      · exact .result ..
    · exact .result ..
  | unsubscribe u =>
    rcases fenced_effects h with ⟨s, -, -, h⟩ | ⟨_, rfl⟩
    · simp only [List.mem_append, List.mem_map, List.mem_singleton] at h
      rcases h with ⟨cmd, -, rfl⟩ | rfl
      · exact .store cmd
      · exact .result ..
    · exact .result ..
  | disconnect d =>
    rcases fenced_effects h with ⟨s, -, -, h⟩ | ⟨_, rfl⟩
    · dsimp only at h
      split at h
      · cases h
      · exact List.mem_singleton.1 h ▸ .result ..
    · exact .result ..
  | puback a => exact hacked _ h
  | pubrec a => exact hacked _ h
  | pubrel a => exact hacked _ h
  | pubcomp a => exact hacked _ h
  | _ => exact List.mem_singleton.1 h ▸ .result ..

theorem removeIfOffline_effects {b : Broker} {c : String} {e : Nat} {x : Effect}
    (h : x ∈ (removeIfOffline b c e).effects) : x = .store (.deleteSession c) := by
  unfold removeIfOffline at h
  split at h
  · cases h
  · split at h
    · exact List.mem_singleton.1 h
    · cases h

theorem finishConnect_emits {req : ConnectRequest} {x : Effect} (hsel : w.selected l.input = some (.connect req))
    (h : x ∈ (finishConnect P l.now l.ord w.broker req).effects) : Emits w l x := by
  simp only [finishConnect, List.mem_append, List.mem_map, List.mem_singleton] at h
  rcases h with (h | ⟨cmd, -, rfl⟩) | rfl
  · split at h
    · rename_i s hs
      exact .letGo (takeover_letGo hs h)
    · cases h
  · exact .store cmd
  · exact .accepted hsel

theorem runTask_emits {t : Task} {x : Effect} (hsel : w.selected l.input = some t)
    (h : x ∈ (runTask P l.now l.ord w.broker t).effects) : Emits w l x := by
  cases t with
  | dispatch c e packet => exact dispatch_emits hsel h
  | disconnectExpiry c e n pw =>
    simp only [runTask, disconnectExpiry] at h
    split at h
    · exact List.mem_singleton.1 h ▸ .result ..
    · simp only [List.mem_append, List.mem_singleton] at h
      rcases h with h | rfl
      · split at h
        · exact List.mem_singleton.1 h ▸ .store _
        · cases h
      · exact .result ..
  | connect req => exact finishConnect_emits hsel h
  | closeRemove c e => exact removeIfOffline_effects h ▸ .store _
  | willSleep c e m owner due =>
    simp only [runTask, willWake] at h
    split at h
    · split at h <;> cases h
    · cases h
  | willAuthorize c e m owner =>
    simp only [runTask, willAuthorize] at h
    split at h <;> cases h
  | willPublish c e m => exact .publishes (.will hsel) (publishMessage_publishes _ _ _ _ _ _ x h)
  | expiry c e due => exact removeIfOffline_effects h ▸ .store _
  | revoke acl =>
    simp only [runTask, revokeUnauthorized] at h
    split at h
    · cases h
    · obtain ⟨cmd, -, rfl⟩ := List.mem_map.1 h
      exact .store cmd

theorem enter_emits {c : Call} {x : Effect} (hin : l.input = .call c)
    (h : x ∈ (enter P w.clock l.now l.ord w.broker c).effects) : Emits w l x := by
  cases c with
  | connect c identity =>
    simp only [enter, startConnect, refuse] at h
    repeat' split at h
    all_goals first | exact List.mem_singleton.1 h ▸ .refused hin _ | cases h
  | packet c e packet =>
    simp only [enter, handlePacket] at h
    split at h
    · split at h
      · exact List.mem_singleton.1 h ▸ .result ..
      · cases h
    · exact List.mem_singleton.1 h ▸ .result ..
  | closed c e pw =>
    simp only [enter, handleConnectionClosed] at h
    split at h
    · cases h
    · rename_i s hs
      split at h
      · rename_i he
        obtain ⟨tx, ho, rfl⟩ := Option.map_eq_some_iff.1 (Option.mem_toList.1 h)
        exact .detached ⟨s, tx, hs, he, ho, .inl rfl⟩
      · cases h
  | reload fresh =>
    simp only [enter, reloadAcl] at h
    split at h <;> cases h
  | snapshot => cases h
  | publishSys entries =>
    obtain ⟨m, hflag, rfl | rfl⟩ := publishSys_effects _ _ _ _ x h
    · exact .retain (.sys hin) hflag
    · exact .routed (.sys hin)
  | registerBridge name => exact .letGo (dropped_letGo h)
  | bridgeAddSubscription name filter noLocal => cases h
  | injectPublish name m => exact .publishes (.bridge hin) (publishMessage_publishes _ _ _ _ _ _ x h)
  | deregisterBridge name e =>
    simp only [enter, deregisterBridge] at h
    split at h
    · split at h
      · exact .letGo (dropped_letGo h)
      · cases h
    · cases h

/-- **Inversion**: where an effect of a step comes from. -/
theorem step_emits {x : Effect} (h : x ∈ (step P w l).2) : Emits w l x := by
  cases hin : l.input with
  | call c =>
    simp only [step, hin, absorb] at h
    exact enter_emits hin h
  | task i =>
    cases hsel : w.selected (.task i) with
    | none => simp [step, hin, hsel] at h
    | some t =>
      simp only [step, hin, hsel, absorb] at h
      exact runTask_emits (hin ▸ hsel) h
  | sleep secs => simp [step, hin] at h
  | recv c e => simp [step, hin] at h
  | hangup c e => simp [step, hin] at h

theorem step_letGo (h : .detached cid epoch tx ∈ (step P w l).2) : w.LetGo cid epoch tx := by
  cases step_emits h with
  | detached h => exact h

/-- An accepted CONNECT and what it is told. -/
theorem step_accepted {a : Accepted} (h : .accepted a ∈ (step P w l).2) :
    ∃ req, w.selected l.input = some (.connect req) ∧
      a = ⟨req.clientId, w.broker.nextEpoch, effectiveKeepAlive w.broker.config req, req.identity,
        connack w.broker.config req (w.broker.claimed req).2⟩ := by
  cases step_emits h with
  | accepted hsel => exact ⟨_, hsel, rfl⟩

/-! ## Tasks -/

theorem autoId_not_reserved (s : String) : reservedClientId ("auto-" ++ s) = false := by
  simp [reservedClientId, startsWith, sysPrefix, List.isPrefixOf]

/-- The request a CONNECT leaves behind. -/
structure Requested (P : Protocol) (b : Broker) (c : Connect) (out : OutTx) (req : ConnectRequest) : Prop where
  connect : req.connect = c
  out : req.out = out
  will : b.willAuthorized P c req.identity
  clientId : reservedClientId req.clientId = false

theorem startConnect_task {now : Nat} {b : Broker} {c : Connect} {out : OutTx} {identity : Option String}
    {t : Task} (h : t ∈ (startConnect P now b c out identity).tasks) :
    ∃ req, t = .connect req ∧ Requested P b c out req := by
  rcases startConnect_cases (P := P) now b c out identity with ⟨rc, he⟩ | ⟨_, _, -, -, hw, ⟨-, he⟩ | ⟨-, hr, he⟩⟩
  · rw [he] at h
    cases h
  · rw [he] at h
    refine ⟨_, List.mem_singleton.1 h, rfl, rfl, hw, ?_⟩
    rw [String.append_assoc, String.append_assoc]
    exact autoId_not_reserved _
  · rw [he] at h
    exact ⟨_, List.mem_singleton.1 h, rfl, rfl, hw, hr⟩

/-- The tasks a step can spawn. -/
inductive Spawned (P : Protocol) (w : World) (l : Label) : Task → Prop
  | connect {c : Connect} {identity : Option String} {req : ConnectRequest}
      (hin : l.input = .call (.connect c identity)) (h : Requested P w.broker c {} req) :
      Spawned P w l (.connect req)
  | dispatch {cid : String} {epoch : Nat} {packet : Packet} {s : Session}
      (hin : l.input = .call (.packet cid epoch packet)) (hs : w.broker.sessions.lookup cid = some s)
      (he : s.epoch = epoch) : Spawned P w l (.dispatch cid epoch packet)
  | will {cid : String} {epoch : Nat} {s : Session} {will : Message × Nat}
      (hin : l.input = .call (.closed cid epoch true)) (hs : w.broker.sessions.lookup cid = some s)
      (he : s.epoch = epoch) (hw : s.will = some will) :
      Spawned P w l (scheduleWill w.clock cid epoch will (who s.identity))
  | expiry {cid : String} {epoch : Nat} {publishWill : Bool} {s : Session}
      (hin : l.input = .call (.closed cid epoch publishWill)) (hs : w.broker.sessions.lookup cid = some s)
      (he : s.epoch = epoch) : Spawned P w l (scheduleExpiry w.clock cid epoch s.sessionExpiryInterval)
  | revoke {acl : Acl} (hin : l.input = .call (.reload (some acl))) : Spawned P w l (.revoke acl)
  | disconnect {cid : String} {epoch newExpiry : Nat} {publishWill : Bool} {d : Disconnect} {s : Session}
      (hsel : w.selected l.input = some (.dispatch cid epoch (.disconnect d)))
      (hs : w.broker.sessions.lookup cid = some s) (he : s.epoch = epoch) :
      Spawned P w l (.disconnectExpiry cid epoch newExpiry publishWill)
  | wake {cid : String} {epoch : Nat} {message : Message} {owner : String} {due : Nat}
      (hsel : w.selected l.input = some (.willSleep cid epoch message owner due))
      (h : ∀ s, w.broker.sessions.lookup cid = some s → s.epoch = epoch ∧ s.isOnline = false) :
      Spawned P w l (.willAuthorize cid epoch message owner)
  | authorize {cid : String} {epoch : Nat} {message : Message} {owner : String}
      (hsel : w.selected l.input = some (.willAuthorize cid epoch message owner))
      (h : w.broker.acl.canPublish P owner message.topic) : Spawned P w l (.willPublish cid epoch message)

/-- A spawned CONNECT is one that was asked for. -/
theorem Spawned.called {req : ConnectRequest} (h : Spawned P w l (.connect req)) :
    ∃ c identity, l.input = .call (.connect c identity) ∧ Requested P w.broker c {} req := by
  generalize ht : Task.connect req = t at h
  cases h with
  | connect hin h => cases ht; exact ⟨_, _, hin, h⟩
  | will => unfold scheduleWill at ht; split at ht <;> cases ht
  | expiry => unfold scheduleExpiry at ht; split at ht <;> cases ht
  | _ => cases ht

/-- A spawned dispatch handles the packet that came in, on the current connection. -/
theorem Spawned.dispatched {packet : Packet} (h : Spawned P w l (.dispatch cid epoch packet)) :
    l.input = .call (.packet cid epoch packet) ∧ ∃ s, w.broker.sessions.lookup cid = some s ∧ s.epoch = epoch := by
  generalize ht : Task.dispatch cid epoch packet = t at h
  cases h with
  | dispatch hin hs he => cases ht; exact ⟨hin, _, hs, he⟩
  | will => unfold scheduleWill at ht; split at ht <;> cases ht
  | expiry => unfold scheduleExpiry at ht; split at ht <;> cases ht
  | _ => cases ht

theorem Spawned.requested {req : ConnectRequest} (h : Spawned P w l (.connect req)) :
    ∃ c, Requested P w.broker c {} req := by
  obtain ⟨c, -, -, hc⟩ := h.called
  exact ⟨c, hc⟩

theorem closed_spawned {c : String} {e : Nat} {pw : Bool} {t : Task} (hin : l.input = .call (.closed c e pw))
    (h : t ∈ (handleConnectionClosed w.clock w.broker c e pw).tasks) : Spawned P w l t := by
  unfold handleConnectionClosed at h
  split at h
  · cases h
  · rename_i s hs
    split at h
    · rename_i he
      rcases List.mem_append.1 h with hwill | hexp
      · split at hwill
        · rename_i hpw
          subst hpw
          cases hw : s.will with
          | none => simp [hw] at hwill
          | some will =>
            simp only [hw, Option.map_some, Option.toList_some, List.mem_singleton] at hwill
            exact hwill ▸ .will hin hs he hw
        · cases hwill
      · exact List.mem_singleton.1 hexp ▸ .expiry hin hs he
    · cases h

theorem enter_spawned {c : Call} {t : Task} (hin : l.input = .call c)
    (h : t ∈ (enter P w.clock l.now l.ord w.broker c).tasks) : Spawned P w l t := by
  cases c with
  | connect c identity =>
    obtain ⟨req, rfl, hr⟩ := startConnect_task h
    exact .connect hin hr
  | packet c e packet =>
    simp only [enter, handlePacket, answer] at h
    split at h
    · rename_i s hs
      split at h
      · cases h
      · rename_i he
        exact List.mem_singleton.1 h ▸ .dispatch hin hs (not_not.1 he)
    · cases h
  | closed c e pw => exact closed_spawned hin h
  | reload fresh =>
    simp only [enter, reloadAcl] at h
    split at h
    · exact List.mem_singleton.1 h ▸ .revoke hin
    · cases h
  | publishSys entries => cases entries <;> cases h
  | deregisterBridge name e =>
    simp only [enter, deregisterBridge] at h
    split at h
    · split at h <;> cases h
    · cases h
  | snapshot => cases h
  | registerBridge name => cases h
  | bridgeAddSubscription name filter noLocal => cases h
  | injectPublish name m => cases h

/-- What a fenced handler leaves behind. -/
theorem fenced_tasks {b : Broker} {c : String} {e : Nat} {body : Session → Outcome} {t : Task}
    (h : t ∈ (b.fenced c e body).tasks) :
    ∃ s, b.sessions.lookup c = some s ∧ s.epoch = e ∧ t ∈ (body s).tasks := by
  unfold fenced at h
  split at h
  · rename_i s hs
    split at h
    · rename_i he; exact ⟨s, hs, he, h⟩
    · cases h
  · cases h

theorem acked_tasks (b : Broker) (c : String) (e : Nat) (f : Session → Session × Nat) :
    (b.acked c e f).tasks = [] := by
  unfold acked
  split
  · rfl
  · split <;> rfl

theorem handlePublish_tasks (now : Nat) (ord : Orders) (b : Broker) (c : String) (e : Nat) (p : Publish) :
    (handlePublish P now ord b c e p).tasks = [] := by
  simp only [handlePublish, fenced, acceptPublish]
  repeat' split
  all_goals rfl

theorem dispatch_spawned {c : String} {e : Nat} {packet : Packet} {t : Task}
    (hsel : w.selected l.input = some (.dispatch c e packet))
    (h : t ∈ (dispatch P l.now l.ord w.broker c e packet).tasks) : Spawned P w l t := by
  cases packet with
  | publish p => rw [dispatch, handlePublish_tasks] at h; cases h
  | puback a => rw [dispatch, handlePuback, acked_tasks] at h; cases h
  | pubrec a => rw [dispatch, handlePubrec, acked_tasks] at h; cases h
  | pubrel a => rw [dispatch, handlePubrel, acked_tasks] at h; cases h
  | pubcomp a => rw [dispatch, handlePubcomp, acked_tasks] at h; cases h
  | subscribe s => obtain ⟨_, -, -, h⟩ := fenced_tasks h; cases h
  | unsubscribe u => obtain ⟨_, -, -, h⟩ := fenced_tasks h; cases h
  | disconnect d =>
    obtain ⟨s, hs, he, h⟩ := fenced_tasks h
    dsimp only at h
    split at h
    · exact List.mem_singleton.1 h ▸ .disconnect hsel hs he
    · cases h
  | _ => cases h

theorem runTask_spawned {t₀ t : Task} (hsel : w.selected l.input = some t₀)
    (h : t ∈ (runTask P l.now l.ord w.broker t₀).tasks) : Spawned P w l t := by
  cases t₀ with
  | dispatch c e packet => exact dispatch_spawned hsel h
  | disconnectExpiry c e n pw =>
    simp only [runTask, disconnectExpiry, answer] at h
    split at h <;> cases h
  | connect req => cases h
  | closeRemove c e =>
    simp only [runTask, removeIfOffline] at h
    split at h
    · cases h
    · split at h <;> cases h
  | willSleep c e m owner due =>
    simp only [runTask, willWake] at h
    split at h
    · rename_i s hs
      split at h
      · cases h
      · rename_i hgone
        refine List.mem_singleton.1 h ▸ .wake hsel fun s' hs' => ?_
        rw [hs] at hs'
        cases hs'
        simpa using hgone
    · rename_i hnone
      refine List.mem_singleton.1 h ▸ .wake hsel fun s hs => ?_
      rw [hnone] at hs
      cases hs
  | willAuthorize c e m owner =>
    simp only [runTask, willAuthorize] at h
    split at h
    · rename_i ha; exact List.mem_singleton.1 h ▸ .authorize hsel ha
    · cases h
  | willPublish c e m => cases h
  | expiry c e due =>
    simp only [runTask, removeIfOffline] at h
    split at h
    · cases h
    · split at h <;> cases h
  | revoke acl =>
    simp only [runTask, revokeUnauthorized] at h
    split at h <;> cases h

/-- A task after a step was waiting before, or the step spawned it. -/
theorem step_tasks {t : Task} (h : t ∈ (step P w l).1.tasks) : t ∈ w.tasks ∨ Spawned P w l t := by
  cases hin : l.input with
  | call c =>
    simp only [step, hin, absorb, List.mem_append] at h
    exact h.imp_right (enter_spawned hin)
  | task i =>
    simp only [step, hin] at h
    split at h
    · rename_i t₀ hsel
      simp only [absorb, List.mem_append] at h
      exact h.imp List.mem_of_mem_eraseIdx (runTask_spawned (hin ▸ hsel))
    · exact .inl h
  | sleep secs => simp only [step, hin] at h; exact .inl h
  | recv c e => simp only [step, hin] at h; exact .inl h
  | hangup c e => simp only [step, hin] at h; exact .inl h

/-- Waiting CONNECTs are those of clients. -/
def ConnectsOk (w : World) : Prop := ∀ req, .connect req ∈ w.tasks → reservedClientId req.clientId = false

theorem step_connectsOk (P : Protocol) (l : Label) (h : w.ConnectsOk) : (step P w l).1.ConnectsOk := by
  intro req hmem
  rcases step_tasks hmem with hmem | hspawn
  · exact h req hmem
  · obtain ⟨c, hreq⟩ := hspawn.requested
    exact hreq.clientId

theorem selected_mem {t : Task} {i : Input} (h : w.selected i = some t) : t ∈ w.tasks := by
  cases i with
  | task i =>
    simp only [selected, Option.filter_eq_some_iff] at h
    exact List.mem_of_getElem? h.1
  | _ => cases h

/-- What every spawned task satisfies, every waiting task of a run does. -/
theorem run_tasks {Q : Task → Prop} (hQ : ∀ w l t, Spawned P w l t → Q t) {w : World} (h : ∀ t ∈ w.tasks, Q t)
    (ls : List Label) : ∀ t ∈ (run P w ls).1.tasks, Q t :=
  Machine.run_preserves (step P) (fun w => ∀ t ∈ w.tasks, Q t)
    (fun w l h t ht => (step_tasks ht).elim (h t) (hQ w l t)) h ls

/-- A waiting CONNECT brings a new channel, and no reserved client id. -/
theorem run_connect {now : Nat} {cfg : Config} {db : Db} {acl : Acl} {auth : Option Credentials}
    {ls : List Label} {i : Input} {req : ConnectRequest}
    (h : (run P (boot P now cfg db acl auth) ls).1.selected i = some (.connect req)) :
    req.out = {} ∧ reservedClientId req.clientId = false := by
  have hQ : ∀ t ∈ (run P (boot P now cfg db acl auth) ls).1.tasks, ∀ req, t = .connect req →
      req.out = {} ∧ reservedClientId req.clientId = false := by
    refine run_tasks (fun w l t ht req e => ?_) (fun t ht => absurd ht (by simp [boot])) ls
    subst e
    obtain ⟨c, h⟩ := ht.requested
    exact ⟨h.out, h.clientId⟩
  exact hQ _ (selected_mem h) req rfl

theorem step_of_selected {t : Task} (h : w.selected l.input = some t) :
    (step P w l).1.broker = (runTask P l.now l.ord w.broker t).broker ∧
      (step P w l).2 = (runTask P l.now l.ord w.broker t).effects := by
  cases hin : l.input with
  | task i => rw [hin] at h; simp only [step, hin, h, absorb, and_self]
  | _ => rw [hin] at h; cases h

/-- A CONNECT that has come to its main section is accepted. -/
theorem accepts_of_connect {req : ConnectRequest} (h : w.selected l.input = some (.connect req)) :
    .accepted ⟨req.clientId, w.broker.nextEpoch, effectiveKeepAlive w.broker.config req, req.identity,
      connack w.broker.config req (w.broker.claimed req).2⟩ ∈ (step P w l).2 := by
  rw [(step_of_selected h).2]
  simp [runTask, finishConnect]

end World

end WispMQ
