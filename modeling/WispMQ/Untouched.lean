import WispMQ.Records
import WispMQ.Pushes
/-!
# What a step leaves alone

Nothing changes the configuration (`step_config`), and only a reload the policy; it leaves its revocation pass behind
(`step_acl`). What is retained was retained before, or by the step (`step_retained`). A client's record (what it was bound with, and its subscriptions) changes, and it goes online or offline,
only in a step that is about its session (`Touches`, `step_untouched`).
-/

namespace WispMQ
open KeyMap

/-! ## The policy of a step -/

namespace Broker
variable {P : Protocol}

/-- What is set at the start, and by a reload. -/
def settings (b : Broker) : Config × Acl := (b.config, b.acl)

/-- The settings and the retained messages: what the handlers leave alone that publish nothing. -/
def kept (b : Broker) : (Config × Acl) × KeyMap String Message := (b.settings, b.retained)

@[simp] theorem setSession_kept (b : Broker) (cid : String) (s : Session) : (b.setSession cid s).kept = b.kept := rfl

@[simp] theorem answer_kept (b : Broker) (cid : String) (epoch : Nat) (action : Action) :
    (b.answer cid epoch action).broker.kept = b.kept := rfl

@[simp] theorem modifySession_kept (b : Broker) (cid : String) (g : Session → Session) :
    (b.modifySession cid g).kept = b.kept := by
  unfold modifySession
  split <;> rfl

@[simp] theorem acknowledge_kept (b : Broker) (cid : String) (qos : QoS) (ack : PubAck) :
    (b.acknowledge cid qos ack).kept = b.kept := by
  unfold acknowledge
  split
  · exact modifySession_kept ..
  · rfl

@[simp] theorem route_kept (now : Nat) (ord : Orders) (b : Broker) (publisher : Option String) (m : Message) :
    (route P now ord b publisher m).1.kept = b.kept := by
  unfold route
  split <;> rfl

theorem fenced_kept {b : Broker} {cid : String} {epoch : Nat} {body : Session → Outcome}
    (h : ∀ s, (body s).broker.kept = b.kept) : (b.fenced cid epoch body).broker.kept = b.kept := by
  unfold fenced
  split
  · split
    · exact h _
    · rfl
  · rfl

theorem acked_kept (b : Broker) (cid : String) (epoch : Nat) (f : Session → Session × Nat) :
    (b.acked cid epoch f).broker.kept = b.kept := by
  unfold acked
  split
  · rfl
  · split <;> rfl

theorem routePublish_kept (now : Nat) (ord : Orders) (b : Broker) (cid : String) (epoch : Nat) (s : Session)
    (publish : Publish) (m : Message) : (routePublish P now ord b cid epoch s publish m).1.kept = b.kept := by
  simp only [routePublish]
  split
  · exact route_kept ..
  · rw [acknowledge_kept, route_kept]
  · split
    · exact acknowledge_kept ..
    · rw [acknowledge_kept, route_kept, setSession_kept]

theorem removeIfOffline_kept (b : Broker) (cid : String) (epoch : Nat) : (removeIfOffline b cid epoch).broker.kept = b.kept := by
  unfold removeIfOffline
  split
  · rfl
  · split <;> rfl

end Broker

/-! ### Handlers that publish nothing -/

/-- The effect is part of publishing a message. -/
def Effect.isPublishing : Effect → Bool
  | .retain .. | .routed .. | .store (.upsertRetained ..) | .store (.deleteRetained _) => true
  | _ => false

/-- The task publishes a message. -/
def Task.publishes : Task → Bool
  | .dispatch _ _ (.publish _) | .willPublish .. => true
  | _ => false

/-- A command for a client is no part of publishing. -/
theorem Effect.isPublishing_store {c : Command} {cid : String} (h : c.client = some cid) :
    (Effect.store c).isPublishing = false := by
  cases c <;> simp_all [Command.client, Effect.isPublishing]

theorem Effect.isPublishing_stores {cs : List Command} {cid : String} (h : ∀ c ∈ cs, c.client = some cid) :
    ∀ e ∈ cs.map Effect.store, e.isPublishing = false := by
  intro e he
  obtain ⟨c, hc, rfl⟩ := List.mem_map.1 he
  exact Effect.isPublishing_store (h c hc)

namespace Broker
variable {P : Protocol}

theorem dispatch_quiet (now : Nat) (ord : Orders) (b : Broker) (cid : String) (epoch : Nat) {packet : Packet}
    (h : ∀ p, packet ≠ .publish p) :
    (dispatch P now ord b cid epoch packet).broker.kept = b.kept ∧
      ∀ e ∈ (dispatch P now ord b cid epoch packet).effects, e.isPublishing = false := by
  have hacked : ∀ f : Session → Session × Nat,
      (b.acked cid epoch f).broker.kept = b.kept ∧ ∀ e ∈ (b.acked cid epoch f).effects, e.isPublishing = false := by
    refine fun f => ⟨acked_kept .., fun e he => ?_⟩
    obtain ⟨action, h⟩ := acked_effects b cid epoch f
    rw [h, List.mem_singleton] at he
    rw [he]
    rfl
  cases packet with
  | publish p => exact absurd rfl (h p)
  | puback a => exact hacked _
  | pubrec a => exact hacked _
  | pubrel a => exact hacked _
  | pubcomp a => exact hacked _
  | subscribe sub =>
    refine ⟨fenced_kept fun _ => rfl, fun e he => ?_⟩
    rcases fenced_effects he with ⟨s, -, -, he⟩ | ⟨action, rfl⟩
    · obtain ⟨cs, h1, h2, -⟩ := subscribeFilters_recorded (P := P) (R := fun _ _ => True) now ord b cid
        sub.subscriptionIdentifiers.head? sub.filters { session := s }
      simp only [List.nil_append] at h1
      simp only [h1, List.mem_append, List.mem_singleton] at he
      rcases he with he | rfl
      · exact Effect.isPublishing_stores h2 e he
      · rfl
    · rfl
  | unsubscribe unsub =>
    refine ⟨fenced_kept fun _ => rfl, fun e he => ?_⟩
    rcases fenced_effects he with ⟨s, -, -, he⟩ | ⟨action, rfl⟩
    · obtain ⟨cs, h1, h2, -⟩ := unsubscribeFilters_recorded (P := P) (R := fun _ _ => True) cid unsub.filters (s, [], [])
      simp only [List.nil_append] at h1
      simp only [h1, List.mem_append, List.mem_singleton] at he
      rcases he with he | rfl
      · exact Effect.isPublishing_stores h2 e he
      · rfl
    · rfl
  | pingreq => exact ⟨modifySession_kept .., by simp [dispatch, answer, Effect.isPublishing]⟩
  | disconnect d =>
    refine ⟨by rw [dispatch, handleClientDisconnect_broker], fun e he => ?_⟩
    rcases fenced_effects he with ⟨s, -, -, he⟩ | ⟨action, rfl⟩
    · split at he
      · cases he
      · obtain ⟨_, rfl⟩ := answer_effects he
        rfl
    · rfl
  | _ => exact ⟨rfl, by simp [dispatch, answer, Effect.isPublishing]⟩

theorem finishConnect_quiet (now : Nat) (ord : Orders) (b : Broker) (req : ConnectRequest) :
    ∀ e ∈ (finishConnect P now ord b req).effects, e.isPublishing = false := by
  intro e he
  cases e with
  | store c => exact Effect.isPublishing_store (finishConnect_client now ord b req c (mem_commands.2 he))
  | detached | result | accepted | refused => rfl
  | retain | routed =>
    exfalso
    simp only [finishConnect, List.mem_append, List.mem_map, reduceCtorEq, and_false, exists_false, or_false,
      List.mem_singleton] at he
    split at he
    · unfold takeover at he
      split at he <;> simp at he
    · cases he

theorem removeIfOffline_quiet (b : Broker) (cid : String) (epoch : Nat) :
    ∀ e ∈ (removeIfOffline b cid epoch).effects, e.isPublishing = false := by
  unfold removeIfOffline
  split
  · simp
  · split <;> simp [Effect.isPublishing]

theorem revokeUnauthorized_quiet (ord : Orders) (b : Broker) (acl : Acl) :
    ∀ e ∈ (revokeUnauthorized P ord b acl).effects, e.isPublishing = false := by
  unfold revokeUnauthorized
  split
  · simp
  · intro e he
    obtain ⟨c, hc, rfl⟩ := List.mem_map.1 he
    have hall := iterMut_acc (revokeVisit P acl) (fun cmds => ∀ c ∈ cmds, (Effect.store c).isPublishing = false)
      ord.sessions b.sessions [] (by simp) (fun cid s cmds _ hI => ?_)
    · exact hall c hc
    · obtain ⟨cs, h1, h2, -⟩ := revokeVisit_recorded (P := P) (R := fun _ _ => True) acl cid s cmds
      rw [h1]
      intro c hc
      rcases List.mem_append.1 hc with hc | hc
      · exact hI c hc
      · exact Effect.isPublishing_store (h2 c hc)

theorem dropped_quiet (b : Broker) (cid : String) : ∀ e ∈ b.dropped cid, e.isPublishing = false := by
  unfold dropped
  split
  · rename_i s _
    cases s.out <;> simp [Effect.isPublishing]
  · simp

/-- **Inversion**: a task that is no PUBLISH and no Will publishes nothing, and leaves what is retained. -/
theorem runTask_quiet (now : Nat) (ord : Orders) (b : Broker) {t : Task} (h : t.publishes = false) :
    (runTask P now ord b t).broker.kept = b.kept ∧ ∀ e ∈ (runTask P now ord b t).effects, e.isPublishing = false := by
  cases t with
  | dispatch cid epoch packet =>
    refine dispatch_quiet now ord b cid epoch fun p hp => ?_
    rw [hp] at h
    cases h
  | disconnectExpiry cid epoch newExpiry publishWill =>
    simp only [runTask, disconnectExpiry, answer]
    split
    · exact ⟨rfl, by simp [Effect.isPublishing]⟩
    · refine ⟨rfl, ?_⟩
      simp only [List.mem_append, List.mem_singleton]
      rintro e (he | rfl)
      · split at he
        · rw [List.mem_singleton.1 he]; rfl
        · cases he
      · rfl
  | connect req => exact ⟨rfl, finishConnect_quiet now ord b req⟩
  | closeRemove cid epoch => exact ⟨removeIfOffline_kept .., removeIfOffline_quiet b cid epoch⟩
  | willSleep cid epoch m owner due =>
    simp only [runTask, willWake]
    split
    · split <;> exact ⟨rfl, by simp⟩
    · exact ⟨rfl, by simp⟩
  | willAuthorize cid epoch m owner =>
    simp only [runTask, willAuthorize]
    split <;> exact ⟨rfl, by simp⟩
  | willPublish cid epoch m => cases h
  | expiry cid epoch due => exact ⟨removeIfOffline_kept .., removeIfOffline_quiet b cid epoch⟩
  | revoke acl =>
    refine ⟨?_, revokeUnauthorized_quiet ord b acl⟩
    simp only [runTask, revokeUnauthorized]
    split <;> rfl

/-- The entry points but those that publish: a reload changes the policy, a snapshot drops what has expired. -/
theorem enter_quiet (clock now : Nat) (ord : Orders) (b : Broker) {c : Call} (hsys : ∀ entries, c ≠ .publishSys entries)
    (hinject : ∀ name m, c ≠ .injectPublish name m) :
    (∀ e ∈ (enter P clock now ord b c).effects, e.isPublishing = false) ∧
      ((enter P clock now ord b c).broker.kept = b.kept ∨
        (∃ fresh, c = .reload (some fresh)) ∧ (enter P clock now ord b c).broker.retained = b.retained ∨
        c = .snapshot ∧ (enter P clock now ord b c).broker = (purgeRetained now b).broker) := by
  cases c with
  | reload fresh =>
    simp only [enter, reloadAcl]
    split
    · exact ⟨by simp, .inr (.inl ⟨⟨_, rfl⟩, rfl⟩)⟩
    · exact ⟨by simp, .inl rfl⟩
  | connect c identity =>
    simp only [enter, startConnect, refuse]
    repeat' split
    all_goals exact ⟨by simp [Effect.isPublishing], .inl rfl⟩
  | packet cid epoch packet =>
    simp only [enter, handlePacket, answer]
    split
    · split <;> exact ⟨by simp [Effect.isPublishing], .inl rfl⟩
    · exact ⟨by simp [Effect.isPublishing], .inl rfl⟩
  | closed cid epoch publishWill =>
    simp only [enter, handleConnectionClosed]
    split
    · exact ⟨by simp, .inl rfl⟩
    · rename_i s _
      split
      · exact ⟨by cases s.out <;> simp [Effect.isPublishing], .inl rfl⟩
      · exact ⟨by simp, .inl rfl⟩
  | snapshot => exact ⟨by simp [enter, purgeRetained], .inr (.inr ⟨rfl, rfl⟩)⟩
  | publishSys entries => exact absurd rfl (hsys entries)
  | registerBridge name => exact ⟨dropped_quiet b _, .inl rfl⟩
  | bridgeAddSubscription name filter noLocal =>
    exact ⟨by simp [enter, bridgeAddSubscription], .inl (modifySession_kept ..)⟩
  | injectPublish name m => exact absurd rfl (hinject name m)
  | deregisterBridge name epoch =>
    simp only [enter, deregisterBridge]
    split
    · split
      · exact ⟨dropped_quiet b _, .inl rfl⟩
      · exact ⟨by simp, .inl rfl⟩
    · exact ⟨by simp, .inl rfl⟩

end Broker

/-! ### The retained messages -/

/-- The settings stay, and a retained message is one of before or one that the outcome tells of. -/
structure Outcome.Retains (b : Broker) (o : Outcome) : Prop where
  settings : o.broker.settings = b.settings
  retained : ∀ topic m, o.broker.retained.lookup topic = some m →
    b.retained.lookup topic = some m ∨ m.topic = topic ∧ ∃ origin, .retain origin m ∈ o.effects

namespace Broker
variable {P : Protocol}

theorem retained_of_kept {b b' : Broker} (h : b'.kept = b.kept) : b'.retained = b.retained := congrArg Prod.snd h

theorem settings_of_kept {b b' : Broker} (h : b'.kept = b.kept) : b'.settings = b.settings := congrArg Prod.fst h

theorem retains_of_kept {b : Broker} {o : Outcome} (h : o.broker.kept = b.kept) : o.Retains b :=
  ⟨settings_of_kept h, fun _ _ hm => .inl (retained_of_kept h ▸ hm)⟩

/-- What `storeRetained` leaves, with whatever follows that publishes nothing more. -/
theorem retains_storeRetained {b b₀ : Broker} {o : Outcome} {origin : Origin} {m : Message} (hb : b₀.kept = b.kept)
    (h : o.broker.kept = (b₀.storeRetained origin m).1.kept) (he : (b₀.storeRetained origin m).2 ⊆ o.effects) :
    o.Retains b := by
  have hset : (b₀.storeRetained origin m).1.settings = b₀.settings := by
    unfold storeRetained
    split
    · split <;> rfl
    · rfl
  refine ⟨(settings_of_kept h).trans (hset.trans (settings_of_kept hb)), fun topic m' hm => ?_⟩
  rw [retained_of_kept h] at hm
  rw [← retained_of_kept hb]
  unfold storeRetained at hm he
  split at hm
  · rename_i hflag
    rw [if_pos hflag] at he
    split at hm
    · simp only at hm
      rw [lookup_erase_if] at hm
      split at hm
      · cases hm
      · exact .inl hm
    · rename_i hfull
      rw [if_neg hfull] at he
      simp only at hm
      rw [lookup_insert_if] at hm
      split at hm
      · rename_i htopic
        cases hm
        exact .inr ⟨htopic.symm, origin, he (List.mem_cons_self ..)⟩
      · exact .inl hm
  · exact .inl hm

theorem publishMessage_retains (now : Nat) (ord : Orders) (b : Broker) (origin : Origin) (publisher : Option String)
    (m : Message) : (publishMessage P now ord b origin publisher m).Retains b :=
  retains_storeRetained rfl (route_kept ..) (List.subset_append_left _ _)

theorem publishSys_retains (now : Nat) (ord : Orders) : ∀ (es : List (String × Bytes)) (b : Broker),
    (publishSys P now ord es b).Retains b
  | [], _ => retains_of_kept rfl
  | (topic, payload) :: es, b => by
    set b₀ : Broker := { b with retained := b.retained.insert topic (sysMessage topic payload) } with hb₀
    have hkept := route_kept (P := P) now ord b₀ none (sysMessage topic payload)
    have h := publishSys_retains now ord es (route P now ord b₀ none (sysMessage topic payload)).1
    have hset : b₀.settings = b.settings := rfl
    refine ⟨h.settings.trans ((settings_of_kept hkept).trans hset), fun topic' m hm => ?_⟩
    rcases h.retained topic' m hm with hm | ⟨ht, origin, hmem⟩
    · rw [retained_of_kept hkept, lookup_insert_if] at hm
      split at hm
      · rename_i htopic
        cases hm
        exact .inr ⟨htopic.symm, .sys, List.mem_cons_self ..⟩
      · exact .inl hm
    · exact .inr ⟨ht, origin, List.mem_cons_of_mem _ (List.mem_cons_of_mem _ hmem)⟩

theorem handlePublish_retains (now : Nat) (ord : Orders) (b : Broker) (cid : String) (epoch : Nat) (publish : Publish) :
    (handlePublish P now ord b cid epoch publish).Retains b := by
  rcases handlePublish_cases P now ord b cid epoch publish with ⟨rc, he⟩ | ⟨s, s', publish', hs, -, hr, he⟩
  · exact he ▸ retains_of_kept rfl
  · rw [he]
    unfold acceptPublish
    split
    · exact retains_of_kept rfl
    split
    · exact retains_of_kept rfl
    split
    · exact retains_of_kept (by rw [answer_kept, acknowledge_kept]; rfl)
    · set b₀ := { b with metrics.publishReceived := b.metrics.publishReceived + 1 }.setSession cid s'
      have hkept : b₀.kept = b.kept := rfl
      exact retains_storeRetained hkept (routePublish_kept ..)
        fun x hx => List.mem_append_left _ (List.mem_append_left _ hx)

theorem runTask_retains (now : Nat) (ord : Orders) (b : Broker) (t : Task) : (runTask P now ord b t).Retains b := by
  by_cases h : t.publishes = true
  · unfold Task.publishes at h
    split at h
    · exact handlePublish_retains ..
    · exact publishMessage_retains ..
    · cases h
  · exact retains_of_kept (runTask_quiet now ord b (by simpa using h)).1

@[simp] theorem setSession_acl (b : Broker) (cid : String) (s : Session) : (b.setSession cid s).acl = b.acl := rfl

theorem runTask_settings (now : Nat) (ord : Orders) (b : Broker) (t : Task) :
    (runTask P now ord b t).broker.settings = b.settings := (runTask_retains now ord b t).settings

theorem runTask_acl (now : Nat) (ord : Orders) (b : Broker) (t : Task) :
    (runTask P now ord b t).broker.acl = b.acl := congrArg Prod.snd (runTask_settings now ord b t)

/-- An entry point keeps the settings, or it is a reload and keeps the retained messages. -/
theorem enter_retains (clock now : Nat) (ord : Orders) (b : Broker) (c : Call) :
    (enter P clock now ord b c).Retains b ∨
      (enter P clock now ord b c).broker.retained = b.retained ∧ ∃ fresh, c = .reload (some fresh) := by
  by_cases hsys : ∃ entries, c = .publishSys entries
  · obtain ⟨entries, rfl⟩ := hsys
    exact .inl (publishSys_retains ..)
  by_cases hinject : ∃ name m, c = .injectPublish name m
  · obtain ⟨name, m, rfl⟩ := hinject
    exact .inl (publishMessage_retains ..)
  simp only [not_exists] at hsys hinject
  rcases (enter_quiet (P := P) clock now ord b hsys hinject).2 with h | ⟨hreload, h⟩ | ⟨rfl, -⟩
  · exact .inl (retains_of_kept h)
  · exact .inr ⟨h, hreload⟩
  · refine .inl ⟨rfl, fun topic m hm => .inl ?_⟩
    simp only [enter, purgeRetained, lookup_filterEntries, Option.filter_eq_some_iff] at hm
    exact hm.1

/-- Only a reload changes the policy, and leaves the pruning behind. -/
theorem enter_settings (clock now : Nat) (ord : Orders) (b : Broker) (c : Call) :
    (enter P clock now ord b c).broker.settings = b.settings ∨
      (enter P clock now ord b c).broker.config = b.config ∧ (∃ fresh, c = .reload (some fresh)) ∧
        .revoke (enter P clock now ord b c).broker.acl ∈ (enter P clock now ord b c).tasks := by
  rcases enter_retains (P := P) clock now ord b c with h | ⟨-, fresh, rfl⟩
  · exact .inl h.settings
  · simp only [enter, reloadAcl]
    split
    · exact .inr ⟨rfl, ⟨_, rfl⟩, by simp⟩
    · exact .inl rfl

end Broker

namespace World
open Broker
variable {P : Protocol} {w : World} {l : Label}

theorem step_settings (P : Protocol) (w : World) (l : Label) :
    (step P w l).1.broker.settings = w.broker.settings ∨
      (step P w l).1.broker.config = w.broker.config ∧ (∃ fresh, l.input = .call (.reload (some fresh))) ∧
        .revoke (step P w l).1.broker.acl ∈ (step P w l).1.tasks := by
  cases hin : l.input with
  | call c =>
    simp only [step, hin, absorb]
    rcases enter_settings (P := P) w.clock l.now l.ord w.broker c with h | ⟨hcfg, ⟨fresh, rfl⟩, h⟩
    · exact .inl h
    · exact .inr ⟨hcfg, ⟨fresh, rfl⟩, List.mem_append_right _ h⟩
  | task i =>
    refine .inl ?_
    simp only [step, hin]
    split
    · exact runTask_settings ..
    · rfl
  | sleep secs => exact .inl (by simp only [step, hin])
  | recv cid epoch =>
    simp only [step, hin]
    exact .inl (settings_of_kept (modifySession_kept ..))
  | hangup cid epoch =>
    simp only [step, hin]
    exact .inl (settings_of_kept (modifySession_kept ..))

theorem step_acl (P : Protocol) (w : World) (l : Label) :
    (step P w l).1.broker.acl = w.broker.acl ∨ (∃ fresh, l.input = .call (.reload (some fresh))) ∧
      .revoke (step P w l).1.broker.acl ∈ (step P w l).1.tasks :=
  (step_settings P w l).imp (congrArg Prod.snd) And.right

theorem step_config (P : Protocol) (w : World) (l : Label) : (step P w l).1.broker.config = w.broker.config :=
  (step_settings P w l).elim (congrArg Prod.fst) And.left

theorem run_config (P : Protocol) (w : World) (ls : List Label) : (run P w ls).1.broker.config = w.broker.config :=
  Machine.run_preserves (step P) (fun w' => w'.broker.config = w.broker.config) (fun w l h => (step_config P w l).trans h)
    rfl ls

/-- **A retained message** after a step was retained before, or the step retains it. -/
theorem step_retained {topic : String} {m : Message} (h : (step P w l).1.broker.retained.lookup topic = some m) :
    w.broker.retained.lookup topic = some m ∨ m.topic = topic ∧ ∃ origin, .retain origin m ∈ (step P w l).2 := by
  cases hin : l.input with
  | call c =>
    simp only [step, hin, absorb] at h ⊢
    rcases enter_retains (P := P) w.clock l.now l.ord w.broker c with hr | ⟨hr, -⟩
    · exact hr.retained topic m h
    · exact .inl (hr ▸ h)
  | task i =>
    cases hsel : w.selected (.task i) with
    | none =>
      simp only [step, hin, hsel] at h
      exact .inl h
    | some t =>
      simp only [step, hin, hsel, absorb] at h ⊢
      exact (runTask_retains ..).retained topic m h
  | sleep secs =>
    simp only [step, hin] at h
    exact .inl h
  | recv cid epoch =>
    simp only [step, hin] at h
    exact .inl (retained_of_kept (modifySession_kept ..) ▸ h)
  | hangup cid epoch =>
    simp only [step, hin] at h
    exact .inl (retained_of_kept (modifySession_kept ..) ▸ h)

/-- A task waits until it is run. -/
theorem mem_step_tasks {t : Task} (h : t ∈ w.tasks) (hsel : w.selected l.input ≠ some t) : t ∈ (step P w l).1.tasks := by
  cases hin : l.input with
  | call c => simpa only [step, hin, absorb] using List.mem_append_left _ h
  | task i =>
    simp only [step, hin]
    split
    · rename_i t' ht'
      refine List.mem_append_left _ ?_
      have hi : w.tasks[i]? = some t' := by
        simp only [selected, Option.filter_eq_some_iff] at ht'
        exact ht'.1
      obtain ⟨j, hj⟩ := List.getElem?_of_mem h
      refine List.mem_eraseIdx_iff_getElem?.2 ⟨j, fun hij => hsel ?_, hj⟩
      rw [hin, ht', ← hi, ← hij, hj]
    · exact h
  | sleep secs => simpa only [step, hin] using h
  | recv cid epoch => simpa only [step, hin] using h
  | hangup cid epoch => simpa only [step, hin] using h

end World

/-! ## Which steps are about a client -/

/-- The record and the connection are the same. -/
structure Session.Untouched (s s' : Session) : Prop extends Session.SameRecord s s' where
  online : s'.isOnline = s.isOnline

namespace Session.Untouched
variable {s s' s'' : Session}

theorem refl (s : Session) : Untouched s s := ⟨.refl s, rfl⟩

theorem trans (h : Untouched s s') (h' : Untouched s' s'') : Untouched s s'' :=
  ⟨h.toSameRecord.trans h'.toSameRecord, h'.online.trans h.online⟩

theorem of_appends {Q : Outgoing → Prop} (h : s.SameRecord s') (ha : Appends Q s s') : Untouched s s' := by
  obtain ⟨items, ha, -⟩ := ha
  exact ⟨h, by simp [isOnline, ha]⟩

end Session.Untouched

theorem Fleet.Reaches.untouched {P : Protocol} {f f' : Fleet} (h : Fleet.Reaches P (Move.IsOp Op.isRouting) f f')
    (c : String) : Option.Rel Session.Untouched (f.session c) (f'.session c) :=
  h.session_rel Session.Untouched.refl (fun _ _ _ => .trans)
    (fun s _ ho => .of_appends (Session.apply_quiet P s (Op.isQuiet_of_isRouting ho)) (Session.apply_appends s ho)) c

namespace World
open Broker
variable {P : Protocol} {w : World} {l : Label} {cid : String}

/-- The step is about the client's session: one of its packets, the rest of its DISCONNECT, its CONNECT, its close or
removal, a revocation pass, or its bridge's doing. -/
inductive Touches (w : World) (l : Label) (cid : String) : Prop
  | dispatch {e : Nat} {p : Packet} (h : w.selected l.input = some (.dispatch cid e p))
  | disconnect {e n : Nat} {pw : Bool} (h : w.selected l.input = some (.disconnectExpiry cid e n pw))
  | connect {req : ConnectRequest} (h : w.selected l.input = some (.connect req)) (hc : cid = req.clientId)
  | closed {e : Nat} {pw : Bool} (h : l.input = .call (.closed cid e pw))
  | remove {e : Nat} (h : w.selected l.input = some (.closeRemove cid e))
  | expire {e due : Nat} (h : w.selected l.input = some (.expiry cid e due))
  | revoke {acl : Acl} (h : w.selected l.input = some (.revoke acl))
  | register {name : String} (h : l.input = .call (.registerBridge name)) (hc : cid = bridgeClient name)
  | subscribe {name filter : String} {noLocal : Bool} (h : l.input = .call (.bridgeAddSubscription name filter noLocal))
      (hc : cid = bridgeClient name)
  | deregister {name : String} {e : Nat} (h : l.input = .call (.deregisterBridge name e)) (hc : cid = bridgeClient name)

theorem untouched_of_lookup {a b : Option Session} (h : b = a) : Option.Rel Session.Untouched a b := by
  subst h
  cases b with
  | none => exact .none
  | some s => exact .some (.refl s)

/-- A fenced handler that rewrites its own session leaves the others. -/
theorem fenced_lookup_ne {b : Broker} {c : String} {e : Nat} {body : Session → Outcome}
    (h : ∀ s, (body s).broker.sessions.lookup cid = b.sessions.lookup cid) :
    (b.fenced c e body).broker.sessions.lookup cid = b.sessions.lookup cid := by
  unfold fenced
  split
  · split
    · exact h _
    · rfl
  · rfl

theorem acked_lookup_ne (b : Broker) {c : String} (e : Nat) (f : Session → Session × Nat) (hc : cid ≠ c) :
    (b.acked c e f).broker.sessions.lookup cid = b.sessions.lookup cid := by
  unfold Broker.acked
  split
  · rfl
  · split
    · exact lookup_setSession_ne b _ hc
    · rfl

theorem removeIfOffline_lookup_ne (b : Broker) {c : String} (e : Nat) (hc : cid ≠ c) :
    (removeIfOffline b c e).broker.sessions.lookup cid = b.sessions.lookup cid := by
  unfold removeIfOffline
  split
  · rfl
  · split
    · exact AList.lookup_erase_ne hc
    · rfl

/-- The packets of a client route to the others, and no more. -/
theorem dispatch_untouched (now : Nat) (ord : Orders) (b : Broker) {c : String} (e : Nat) (packet : Packet)
    (hc : cid ≠ c) :
    Option.Rel Session.Untouched (b.sessions.lookup cid)
      ((dispatch P now ord b c e packet).broker.sessions.lookup cid) := by
  cases packet with
  | publish p => exact (handlePublish_moves now ord b c e p).routing.untouched cid
  | puback a => exact untouched_of_lookup (acked_lookup_ne b e _ hc)
  | pubrec a => exact untouched_of_lookup (acked_lookup_ne b e _ hc)
  | pubrel a => exact untouched_of_lookup (acked_lookup_ne b e _ hc)
  | pubcomp a => exact untouched_of_lookup (acked_lookup_ne b e _ hc)
  | subscribe sub => exact untouched_of_lookup (fenced_lookup_ne fun _ => lookup_setSession_ne b _ hc)
  | unsubscribe unsub => exact untouched_of_lookup (fenced_lookup_ne fun _ => lookup_setSession_ne b _ hc)
  | pingreq => exact untouched_of_lookup (modifySession_lookup_ne b _ hc)
  | disconnect d => exact untouched_of_lookup (by rw [dispatch, handleClientDisconnect_broker])
  | _ => exact untouched_of_lookup rfl

theorem runTask_untouched {t : Task} (hsel : w.selected l.input = some t) (h : ¬w.Touches l cid) :
    Option.Rel Session.Untouched (w.broker.sessions.lookup cid)
      ((runTask P l.now l.ord w.broker t).broker.sessions.lookup cid) := by
  cases t with
  | dispatch c e packet =>
    refine dispatch_untouched l.now l.ord w.broker e packet ?_
    rintro rfl
    exact h (.dispatch hsel)
  | disconnectExpiry c e n pw =>
    refine untouched_of_lookup ?_
    simp only [runTask, disconnectExpiry]
    split
    · rfl
    · refine lookup_setSession_ne w.broker _ ?_
      rintro rfl
      exact h (.disconnect hsel)
  | connect req =>
    refine untouched_of_lookup ?_
    simp only [runTask, finishConnect]
    exact AList.lookup_insert_ne fun hc => h (.connect hsel hc)
  | closeRemove c e =>
    refine untouched_of_lookup (removeIfOffline_lookup_ne w.broker e ?_)
    rintro rfl
    exact h (.remove hsel)
  | willSleep c e m owner due =>
    refine untouched_of_lookup ?_
    simp only [runTask, willWake]
    split
    · split <;> rfl
    · rfl
  | willAuthorize c e m owner =>
    refine untouched_of_lookup ?_
    simp only [runTask, willAuthorize]
    split <;> rfl
  | willPublish c e m => exact (publishMessage_moves l.now l.ord w.broker (.will c e) none m).routing.untouched cid
  | expiry c e due =>
    refine untouched_of_lookup (removeIfOffline_lookup_ne w.broker e ?_)
    rintro rfl
    exact h (.expire hsel)
  | revoke acl => exact absurd (.revoke hsel) h

theorem enter_untouched {c : Call} (hin : l.input = .call c) (h : ¬w.Touches l cid) :
    Option.Rel Session.Untouched (w.broker.sessions.lookup cid)
      ((enter P w.clock l.now l.ord w.broker c).broker.sessions.lookup cid) := by
  cases c with
  | connect c identity =>
    exact untouched_of_lookup (congrFun (congrArg Fleet.session (startConnect_fleet ..)) cid)
  | packet c e packet =>
    refine untouched_of_lookup ?_
    simp only [enter, handlePacket]
    split
    · split <;> rfl
    · rfl
  | closed c e pw =>
    refine untouched_of_lookup ?_
    simp only [enter, handleConnectionClosed]
    split
    · rfl
    · split
      · refine lookup_setSession_ne w.broker _ ?_
        rintro rfl
        exact h (.closed hin)
      · rfl
  | reload fresh =>
    refine untouched_of_lookup ?_
    simp only [enter, reloadAcl]
    split <;> rfl
  | snapshot => exact untouched_of_lookup rfl
  | publishSys entries => exact (publishSys_moves l.now l.ord entries w.broker).routing.untouched cid
  | registerBridge name => exact untouched_of_lookup (AList.lookup_insert_ne fun hc => h (.register hin hc))
  | bridgeAddSubscription name filter noLocal =>
    exact untouched_of_lookup (modifySession_lookup_ne w.broker _ fun hc => h (.subscribe hin hc))
  | injectPublish name m =>
    exact (publishMessage_moves l.now l.ord w.broker (.bridge (bridgeClient name))
      (some (bridgeClient name)) m).routing.untouched cid
  | deregisterBridge name e =>
    refine untouched_of_lookup ?_
    simp only [enter, deregisterBridge]
    split
    · split
      · exact AList.lookup_erase_ne fun hc => h (.deregister hin hc)
      · rfl
    · rfl

theorem onChannel_untouched (c : String) (e : Nat) (g : OutTx → OutTx) :
    Option.Rel Session.Untouched (w.broker.sessions.lookup cid)
      ((w.broker.modifySession c (·.onChannel e g)).sessions.lookup cid) := by
  by_cases hc : cid = c
  · subst hc
    cases hs : w.broker.sessions.lookup cid with
    | none => simp only [modifySession, hs]; exact .none
    | some s =>
      simp only [modifySession, hs, lookup_setSession, if_true, Session.onChannel]
      refine .some ?_
      split
      · exact ⟨⟨⟨rfl, rfl, rfl, rfl, rfl, rfl⟩, rfl, rfl⟩, by simp [Session.isOnline]⟩
      · exact .refl s
  · exact untouched_of_lookup (modifySession_lookup_ne w.broker _ hc)

/-- **Inversion**: a step that is not about the client's session leaves its record and its connection. -/
theorem step_untouched (P : Protocol) (h : ¬w.Touches l cid) :
    Option.Rel Session.Untouched (w.broker.sessions.lookup cid) ((step P w l).1.broker.sessions.lookup cid) := by
  cases hin : l.input with
  | call c =>
    simp only [step, hin, absorb]
    exact enter_untouched hin h
  | task i =>
    cases hsel : w.selected (.task i) with
    | none =>
      simp only [step, hin, hsel]
      exact untouched_of_lookup rfl
    | some t =>
      simp only [step, hin, hsel, absorb]
      exact runTask_untouched (hin ▸ hsel) h
  | sleep secs =>
    simp only [step, hin]
    exact untouched_of_lookup rfl
  | recv c e =>
    simp only [step, hin]
    exact onChannel_untouched c e _
  | hangup c e =>
    simp only [step, hin]
    exact onChannel_untouched c e _

end World

end WispMQ
