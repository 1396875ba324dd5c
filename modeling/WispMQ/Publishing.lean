import WispMQ.WillDelay
/-!
# Publishing

What a client makes the broker publish, a PUBLISH or a Will, passes `can_publish` under the identity its connection was
accepted with: a PUBLISH in the section that retains and routes it, after its alias is resolved (publish.rs:69-101), a Will
in its task, when it fires (lifecycle.rs:149-156). `publish_authorized` says so of every run.

`handle_publish` maintains the retained message before it looks for a duplicate (publish.rs:122-165). A duplicate is
harmless if it does not carry RETAIN, and only then (`duplicate_inert_iff`).
-/

namespace WispMQ
open KeyMap

/-- The identity a Will waits under, and the connection it belongs to. -/
def Task.owner : Task → Option (String × Nat × String)
  | .willSleep cid e _ owner _ | .willAuthorize cid e _ owner => some (cid, e, owner)
  | _ => none

/-- What an effect puts in the retained map or hands to `route`, and for whom. -/
def Effect.published : Effect → Option (Origin × Message)
  | .retain origin m | .routed origin m => some (origin, m)
  | _ => none

theorem Acl.canPublish_of_not_enforced (P : Protocol) {acl : Acl} (h : acl.isEnforced = false) (identity topic : String) :
    acl.canPublish P identity topic := by
  have h : acl.enforced = false := h
  simp [Acl.canPublish, h]

namespace Broker
variable {P : Protocol} {b : Broker} {cid : String} {epoch now : Nat} {ord : Orders} {s s' : Session} {p p' : Publish}

/-! ## What passes the check of a PUBLISH -/

theorem resolveAlias_identity {cfg : Config} (h : resolveAlias cfg s p = .ok (s', p')) : s'.identity = s.identity := by
  rcases resolveAlias_ok (P := .reference) h with rfl | ⟨a, rfl⟩ <;> rfl

/-- What an accepted PUBLISH publishes, its session may publish. -/
theorem acceptPublish_allowed {x : Effect} (hx : x ∈ (acceptPublish P now ord b cid epoch s p).effects) :
    (∃ action, x = .result cid epoch action) ∨
      b.acl.canPublish P (who s.identity) p.topic ∧ x.Publishes (.publish cid epoch) (Message.fromPublish now p) := by
  unfold acceptPublish at hx
  split at hx
  · exact .inl (answer_effects hx)
  split at hx
  · exact .inl (answer_effects hx)
  split at hx
  · exact .inl (answer_effects hx)
  · rename_i hacl
    have hallowed : b.acl.canPublish P (who s.identity) p.topic := by
      cases henf : b.acl.isEnforced with
      | false => exact Acl.canPublish_of_not_enforced P henf _ _
      | true => simpa [henf] using hacl
    simp only [List.mem_append, List.mem_singleton] at hx
    rcases hx with (hx | hx) | rfl
    · exact .inr ⟨hallowed, storeRetained_publishes _ _ _ x hx⟩
    · exact .inr ⟨hallowed, routePublish_publishes _ _ _ _ _ _ _ _ x hx⟩
    · exact .inl ⟨_, rfl⟩

/-- The PUBLISH `p` of connection `epoch` of `cid` stands for `p'` in session `s`, its alias resolved. -/
def Resolves (b : Broker) (cid : String) (epoch : Nat) (p : Publish) (s : Session) (p' : Publish) : Prop :=
  b.sessions.lookup cid = some s ∧ s.epoch = epoch ∧ ∃ s', resolveAlias b.config s p = .ok (s', p')

theorem handlePublish_allowed {x : Effect} (hx : x ∈ (handlePublish P now ord b cid epoch p).effects) :
    (∃ action, x = .result cid epoch action) ∨
      ∃ s p', b.Resolves cid epoch p s p' ∧ b.acl.canPublish P (who s.identity) p'.topic ∧
        x.Publishes (.publish cid epoch) (Message.fromPublish now p') := by
  rcases handlePublish_cases P now ord b cid epoch p with ⟨rc, he⟩ | ⟨s, s', p', hs, hepoch, hr, he⟩
  · rw [he] at hx
    exact .inl (answer_effects hx)
  · rw [he] at hx
    rcases acceptPublish_allowed hx with hx | ⟨hallowed, hx⟩
    · exact .inl hx
    · rw [resolveAlias_identity hr] at hallowed
      exact .inr ⟨s, p', ⟨hs, hepoch, s', hr⟩, hallowed, hx⟩

/-! ## What a refused PUBLISH leaves alone -/

@[simp] theorem acknowledge_retained (b : Broker) (cid : String) (qos : QoS) (ack : PubAck) :
    (b.acknowledge cid qos ack).retained = b.retained := retained_of_kept (acknowledge_kept ..)

/-- The policy in force denies the PUBLISH to its session. -/
def Unauthorized (P : Protocol) (b : Broker) (cid : String) (epoch : Nat) (p : Publish) : Prop :=
  ∀ s p', b.Resolves cid epoch p s p' → b.acl.canPublish P (who s.identity) p'.topic = false

/-- A section that leaves `b'` and emits `es` keeps the stores as they are, the sessions other than `cid`'s, and what that
one knows of QoS 2. -/
structure Refuses (b : Broker) (cid : String) (b' : Broker) (es : List Effect) : Prop where
  retained : b'.retained = b.retained
  commands : commands es = []
  others : ∀ c, c ≠ cid → b'.sessions.lookup c = b.sessions.lookup c
  inboundQos2 : ∀ s, b.sessions.lookup cid = some s →
    ∃ s', b'.sessions.lookup cid = some s' ∧ s'.inboundQos2 = s.inboundQos2

/-- An unauthorized PUBLISH, of any QoS. -/
theorem handlePublish_unauthorized (now : Nat) (ord : Orders) (h : b.Unauthorized P cid epoch p) :
    Refuses b cid (handlePublish P now ord b cid epoch p).broker (handlePublish P now ord b cid epoch p).effects := by
  rcases handlePublish_cases P now ord b cid epoch p with ⟨rc, he⟩ | ⟨s, s', p', hs, hepoch, hr, he⟩
  · rw [he]
    exact ⟨rfl, rfl, fun _ _ => rfl, fun s hs => ⟨s, hs, rfl⟩⟩
  · have hdeny : b.acl.canPublish P (who s'.identity) p'.topic = false := by
      rw [resolveAlias_identity hr]
      exact h s p' ⟨hs, hepoch, s', hr⟩
    have henf : b.acl.isEnforced = true := by
      by_contra hnot
      rw [Acl.canPublish_of_not_enforced P (Bool.eq_false_iff.2 hnot)] at hdeny
      cases hdeny
    have hqos2 : s'.inboundQos2 = s.inboundQos2 := by
      rcases resolveAlias_ok (P := P) hr with rfl | ⟨a, rfl⟩ <;> rfl
    have hothers : ∀ c, c ≠ cid → ({ b with metrics.publishReceived := b.metrics.publishReceived + 1 }.setSession cid
        s').sessions.lookup c = b.sessions.lookup c := fun c hc => AList.lookup_insert_ne hc
    -- the session with its alias remembered
    have hself : ∀ s₀, b.sessions.lookup cid = some s₀ → ∃ s₁, ({ b with
        metrics.publishReceived := b.metrics.publishReceived + 1 }.setSession cid s').sessions.lookup cid = some s₁ ∧
          s₁.inboundQos2 = s₀.inboundQos2 := by
      intro s₀ hs₀
      rw [hs] at hs₀
      cases hs₀
      exact ⟨s', by simp [setSession], hqos2⟩
    rw [he]
    unfold acceptPublish
    split
    · exact ⟨rfl, rfl, hothers, hself⟩
    split
    · exact ⟨rfl, rfl, hothers, hself⟩
    · rw [if_pos (by simp [setSession, henf, hdeny])]
      refine ⟨acknowledge_retained .., rfl, fun c hc => ?_, fun s₀ hs₀ => ?_⟩
      · exact (acknowledge_lookup_ne _ _ hc).trans (hothers c hc)
      · obtain ⟨s₁, hs₁, heq⟩ := hself s₀ hs₀
        refine ⟨_, acknowledge_lookup_self _ _ hs₁, ?_⟩
        cases publishAck p'.qos ⟨p'.packetId.getD 0, .notAuthorized⟩ with
        | none => exact heq
        | some q =>
          rw [Option.map_some, Option.getD_some, Session.push_eq]
          exact heq

end Broker

namespace World
open Broker
variable {P : Protocol} {w : World} {l : Label} {cid : String} {e : Nat} {m : Message} {s : Session} {t : Task}

/-! ## Who a connection is -/

/-- The epoch of an accepted connection is that of its client's session only, and as long as it is, the session has the
identity the connection was accepted with. -/
structure IdentityOk (w : World) (es : List Effect) : Prop where
  epochs : w.EpochsOk
  given : ∀ a, .accepted a ∈ es → a.epoch < w.broker.nextEpoch
  kept : ∀ a, .accepted a ∈ es → ∀ cid s, w.broker.sessions.lookup cid = some s → s.epoch = a.epoch →
    cid = a.clientId ∧ s.identity = a.identity

theorem boundSession_identity (now : Nat) (b : Broker) (req : ConnectRequest) :
    (boundSession P now b req).identity = req.identity := by
  simp only [boundSession, reauthorize]
  split <;> rfl

theorem IdentityOk.step {es : List Effect} (P : Protocol) (l : Label) (h : w.IdentityOk es) :
    (World.step P w l).1.IdentityOk (es ++ (World.step P w l).2) where
  epochs := step_epochsOk P l h.epochs
  given a ha := by
    rcases List.mem_append.1 ha with ha | ha
    · exact lt_of_lt_of_le (h.given a ha) (step_nextEpoch_le P w l)
    · obtain ⟨req, hsel, rfl⟩ := step_accepted ha
      exact (connect_atLeast hsel).1
  kept a ha cid s' hs' he := by
    rcases (step_change P w l).bound hs' with ⟨s, hs, hb, -⟩ | ⟨req, hsel, hcid, hb⟩ | ⟨name, hin, hcid, rfl⟩
    · rcases List.mem_append.1 ha with ha | ha
      · rw [hb.identity]
        exact h.kept a ha cid s hs (hb.epoch.symm.trans he)
      · -- a session that was there before has an earlier epoch
        obtain ⟨req, -, rfl⟩ := step_accepted ha
        have hlt := h.epochs _ s hs
        rw [← hb.epoch, he] at hlt
        exact absurd hlt (lt_irrefl _)
    · have hnew : w.broker.nextEpoch = a.epoch := (boundSession_epoch l.now w.broker req).symm.trans (hb.epoch.symm.trans he)
      rcases List.mem_append.1 ha with ha | ha
      · exact absurd (h.given a ha) (hnew ▸ lt_irrefl _)
      · obtain ⟨req', hsel', rfl⟩ := step_accepted ha
        rw [hsel] at hsel'
        cases hsel'
        exact ⟨hcid, hb.identity.trans (boundSession_identity l.now w.broker req)⟩
    · rcases List.mem_append.1 ha with ha | ha
      · exact absurd (h.given a ha) (he ▸ lt_irrefl _)
      · obtain ⟨req, hsel, -⟩ := step_accepted ha
        rw [hin] at hsel
        cases hsel

section Run
variable {now : Nat} {cfg : Config} {db : Db} {acl : Acl} {auth : Option Credentials} {ls : List Label}

theorem run_identityOk (P : Protocol) (now : Nat) (cfg : Config) (db : Db) (acl : Acl) (auth : Option Credentials)
    (ls : List Label) :
    (run P (boot P now cfg db acl auth) ls).1.IdentityOk (run P (boot P now cfg db acl auth) ls).2 :=
  Machine.run_invariant (step P) IdentityOk ⟨boot_epochsOk P now cfg db acl auth, by simp, by simp⟩
    (fun _ _ l h (_ : True) => h.step P l) ls (.of_forall _ (fun _ _ => trivial) _ _)

/-! ## Who a Will belongs to -/

/-- A Will reaches its task with the identity of its session, or from the task before. -/
theorem Spawned.owned (h : Spawned P w l t) {owner : String} (ht : t.owner = some (cid, e, owner)) :
    (∃ s will, w.broker.sessions.lookup cid = some s ∧ s.epoch = e ∧ s.will = some will ∧ owner = who s.identity) ∨
      ∃ t₀, w.selected l.input = some t₀ ∧ t₀.owner = some (cid, e, owner) := by
  cases h with
  | @will c e' s will hin hs he hw =>
    have howner : c = cid ∧ e' = e ∧ who s.identity = owner := by
      unfold scheduleWill at ht
      split at ht <;> simpa [Task.owner] using ht
    obtain ⟨rfl, rfl, rfl⟩ := howner
    exact .inl ⟨s, will, hs, he, hw, rfl⟩
  | expiry =>
    unfold scheduleExpiry at ht
    split at ht <;> cases ht
  | wake hsel => exact .inr ⟨_, hsel, ht⟩
  | _ => cases ht

/-- The connection whose CONNECT brought a Will was accepted. -/
theorem accepted_of_will {will : Message × Nat}
    (hs : (run P (boot P now cfg db acl auth) ls).1.broker.sessions.lookup cid = some s) (hw : s.will = some will) :
    ∃ a, .accepted a ∈ (run P (boot P now cfg db acl auth) ls).2 ∧ a.clientId = cid ∧ a.epoch = s.epoch ∧
      a.identity = s.identity := by
  obtain ⟨pre, l, post, rfl, req, -, hsel, hcid, he, -⟩ := exists_stores hs rfl hw
  have ha := Machine.emitted_of_step (step P) (s := boot P now cfg db acl auth) (accepts_of_connect (P := P) hsel) post
  refine ⟨_, ha, hcid, he, ?_⟩
  exact ((run_identityOk P now cfg db acl auth _).kept _ ha cid s hs he.symm).2.symm

/-- A Will that waits does so under the identity its connection was accepted with. -/
theorem exists_owner {owner : String} (ht : t ∈ (run P (boot P now cfg db acl auth) ls).1.tasks)
    (ho : t.owner = some (cid, e, owner)) :
    ∃ a, .accepted a ∈ (run P (boot P now cfg db acl auth) ls).2 ∧ a.clientId = cid ∧ a.epoch = e ∧ owner = who a.identity := by
  induction ls using List.reverseRecOn generalizing t with
  | nil => cases ht
  | append_singleton ls l ih =>
    have hbefore : (∃ a, .accepted a ∈ (run P (boot P now cfg db acl auth) ls).2 ∧ a.clientId = cid ∧ a.epoch = e ∧
        owner = who a.identity) → ∃ a, .accepted a ∈ (run P (boot P now cfg db acl auth) (ls ++ [l])).2 ∧
          a.clientId = cid ∧ a.epoch = e ∧ owner = who a.identity := by
      rintro ⟨a, ha, h⟩
      rw [run_concat]
      exact ⟨a, List.mem_append_left _ ha, h⟩
    rw [run_append] at ht
    rcases step_tasks ht with ht | hspawn
    · exact hbefore (ih ht ho)
    · rcases hspawn.owned ho with ⟨s, will, hs, rfl, hw, rfl⟩ | ⟨t₀, hsel, ho₀⟩
      · obtain ⟨a, ha, hcid, he, hid⟩ := accepted_of_will hs hw
        exact hbefore ⟨a, ha, hcid, he, hid ▸ rfl⟩
      · exact hbefore (ih (selected_mem hsel) ho₀)

/-! ## Publish authorization -/

/-- The step `l` after the run `ls` from `w` publishes for clients what they may publish. -/
structure PublishesAllowed (P : Protocol) (w : World) (ls : List Label) (l : Label) : Prop where
  /-- A PUBLISH is checked in the step, against the identity its connection was accepted with and the topic its alias
  stands for. -/
  publish : ∀ x ∈ (step P (run P w ls).1 l).2, ∀ cid e m, x.published = some (.publish cid e, m) →
    ∃ p s p', (run P w ls).1.selected l.input = some (.dispatch cid e (.publish p)) ∧
      (run P w ls).1.broker.Resolves cid e p s p' ∧ m = Message.fromPublish l.now p' ∧
      (run P w ls).1.broker.acl.canPublish P (who s.identity) m.topic ∧
      ∀ a, .accepted a ∈ (run P w ls).2 → a.clientId = cid → a.epoch = e → s.identity = a.identity
  /-- A Will is checked by the task that publishes it, when it fires. -/
  will : ∀ x ∈ (step P (run P w ls).1 l).2, ∀ cid e m, x.published = some (.will cid e, m) →
    ∃ pre check post a, ls = pre ++ check :: post ∧ .accepted a ∈ (run P w pre).2 ∧ a.clientId = cid ∧ a.epoch = e ∧
      (run P w pre).1.selected check.input = some (.willAuthorize cid e m (who a.identity)) ∧
      (run P w pre).1.broker.acl.canPublish P (who a.identity) m.topic
  refused : ∀ cid e p, (run P w ls).1.selected l.input = some (.dispatch cid e (.publish p)) →
    (run P w ls).1.broker.Unauthorized P cid e p →
    Refuses (run P w ls).1.broker cid (step P (run P w ls).1 l).1.broker (step P (run P w ls).1 l).2

theorem step_published {x : Effect} (hx : x ∈ (step P w l).2) (hp : x.published = some (.publish cid e, m)) :
    ∃ p s p', w.selected l.input = some (.dispatch cid e (.publish p)) ∧ w.broker.Resolves cid e p s p' ∧
      m = Message.fromPublish l.now p' ∧ w.broker.acl.canPublish P (who s.identity) m.topic := by
  have hissues : Issues w l (.publish cid e) m := by
    cases step_emits hx with
    | retain h => cases hp; exact h
    | routed h => cases hp; exact h
    | _ => cases hp
  cases hissues with
  | @publish _ _ p _ hsel =>
    rw [(step_of_selected hsel).2] at hx
    rcases handlePublish_allowed hx with ⟨action, rfl⟩ | ⟨s, p', hres, hallowed, hpub⟩
    · cases hp
    · have hm : m = Message.fromPublish l.now p' := by
        cases hpub <;> cases hp <;> rfl
      exact ⟨p, s, p', hsel, hres, hm, hm ▸ hallowed⟩

/-- **Publish authorization**: in every run, whatever policies are loaded on the way, what a client's PUBLISH or Will puts
in the retained map or hands to `route` passed `can_publish` for its connection, and an unauthorized PUBLISH changes
nothing but its own session's aliases and channel. -/
theorem publish_authorized (P : Protocol) (now : Nat) (cfg : Config) (db : Db) (acl : Acl) (auth : Option Credentials)
    (ls : List Label) (l : Label) : PublishesAllowed P (boot P now cfg db acl auth) ls l where
  publish x hx cid e m hp := by
    obtain ⟨p, s, p', hsel, hres, hm, hallowed⟩ := step_published hx hp
    refine ⟨p, s, p', hsel, hres, hm, hallowed, fun a ha hcid he => ?_⟩
    exact ((run_identityOk P now cfg db acl auth ls).kept a ha cid s hres.1 (hres.2.1.trans he.symm)).2
  will x hx cid e m hp := by
    have hwill : x.will = some (cid, e, m) := by
      unfold Effect.published at hp
      split at hp
      · cases hp; rfl
      · cases hp; rfl
      · cases hp
    obtain ⟨pre, check, post, rfl, hspawn, -⟩ := exists_spawned (selected_mem (willPublish_of_effect hx hwill))
    obtain ⟨owner, hsel, hallowed⟩ := hspawn.permitted
    obtain ⟨a, ha, hcid, he, rfl⟩ := exists_owner (selected_mem hsel) rfl
    exact ⟨pre, check, post, a, rfl, ha, hcid, he, hsel, hallowed⟩
  refused cid e p hsel hun := by
    rw [(step_of_selected hsel).1, (step_of_selected hsel).2]
    exact handlePublish_unauthorized l.now l.ord hun

end Run
end World

/-! ## Duplicates -/

namespace Broker
variable {P : Protocol} {b : Broker} {cid : String} {epoch now : Nat} {ord : Orders} {s s' : Session} {p p' : Publish}

/-- `handle_publish` ends the connection before it touches the retained message: the configuration does not support the
PUBLISH, or its resolved topic is not for clients (publish.rs:24-30, :69-85). -/
def bars (P : Protocol) (cfg : Config) (p' : Publish) : Bool :=
  !supported cfg p' || !P.validTopicName p'.topic || startsWith p'.topic sysPrefix

/-- The PUBLISH of session `s` changes nothing but the session's aliases, and is answered with `reply`. -/
structure Inert (b : Broker) (cid : String) (s : Session) (reply : Option Packet) (o : Outcome) : Prop where
  retained : o.broker.retained = b.retained
  commands : commands o.effects = []
  others : ∀ c, c ≠ cid → o.broker.sessions.lookup c = b.sessions.lookup c
  sender : ∃ aliases, o.broker.sessions.lookup cid =
    some { (reply.map fun q => s.push (.control q)).getD s with inboundAliases := aliases }

/-- A supported PUBLISH of the current connection whose alias is resolved. -/
theorem handlePublish_resolved (hs : b.sessions.lookup cid = some s) (he : s.epoch = epoch)
    (hr : resolveAlias b.config s p = .ok (s', p')) (hsup : supported b.config p' = true) :
    handlePublish P now ord b cid epoch p = acceptPublish P now ord
      ({ b with metrics.publishReceived := b.metrics.publishReceived + 1 }.setSession cid s') cid epoch s' p' := by
  obtain ⟨topic, rfl⟩ := resolveAlias_publish hr
  have hqos : ¬p.qos.asU8 > b.config.maximumQos.asU8 := by
    intro h
    simp [supported, h] at hsup
  have hretain : (p.retain && !b.config.retainAvailable) = false := by
    by_contra h
    simp only [Bool.not_eq_false] at h
    simp [supported, h] at hsup
  simp [handlePublish, hqos, hretain, fenced, hs, he, hr]

/-- A PUBLISH to a topic that is not for clients. -/
theorem acceptPublish_barred (h : (!P.validTopicName p.topic || startsWith p.topic sysPrefix) = true) :
    ∃ rc, acceptPublish P now ord b cid epoch s p = b.answer cid epoch (.serverDisconnect rc) := by
  unfold acceptPublish
  split
  · exact ⟨_, rfl⟩
  · rename_i hvalid
    rw [if_pos (by simpa [hvalid] using h)]
    exact ⟨_, rfl⟩

/-- A duplicate that passes the checks. -/
theorem acceptPublish_duplicate (h : (!P.validTopicName p.topic || startsWith p.topic sysPrefix) = false)
    (hallowed : b.acl.canPublish P (who s.identity) p.topic) (hqos : p.qos = .exactlyOnce)
    (hdup : p.packetId.getD 0 ∈ s.inboundQos2) :
    acceptPublish P now ord b cid epoch s p =
      { broker := (b.storeRetained (.publish cid epoch) (Message.fromPublish now p)).1.acknowledge cid .exactlyOnce
          ⟨p.packetId.getD 0, .success⟩
        effects := (b.storeRetained (.publish cid epoch) (Message.fromPublish now p)).2 ++ [] ++
          [.result cid epoch .continue] } := by
  obtain ⟨hvalid, hsys⟩ := Bool.or_eq_false_iff.1 h
  simp only [acceptPublish, hvalid, hsys, hallowed, Bool.not_true, Bool.and_false, Bool.false_eq_true, if_false,
    routePublish, hqos, if_pos hdup]

theorem push_aliases (s : Session) (aliases : KeyMap Nat String) (item : Outgoing) :
    { s with inboundAliases := aliases }.push item = { s.push item with inboundAliases := aliases } := by
  cases hout : s.out with
  | none => simp [Session.push, Session.trySend, hout]
  | some tx => cases htx : tx.trySend item <;> simp [Session.push, Session.trySend, hout, htx]

theorem resolveAlias_aliases {cfg : Config} (h : resolveAlias cfg s p = .ok (s', p')) :
    ∃ aliases, s' = { s with inboundAliases := aliases } := by
  rcases resolveAlias_ok (P := .reference) h with rfl | ⟨a, rfl⟩
  · exact ⟨s'.inboundAliases, rfl⟩
  · exact ⟨_, rfl⟩

/-- The retained message of an accepted PUBLISH is maintained, and a command says so. -/
theorem storeRetained_commands {b : Broker} {origin : Origin} {m : Message} (h : m.retain = true) :
    commands (b.storeRetained origin m).2 ≠ [] := by
  unfold storeRetained
  rw [if_pos h]
  split <;> simp [commands]

/-- The part of a duplicate after its alias is resolved, on the broker `b₁` that has remembered the alias. -/
theorem acceptPublish_inert_iff {b₁ : Broker} {aliases : KeyMap Nat String} (hret : b₁.retained = b.retained)
    (hothers : ∀ c, c ≠ cid → b₁.sessions.lookup c = b.sessions.lookup c)
    (hself : b₁.sessions.lookup cid = some { s with inboundAliases := aliases })
    (hallowed : b₁.acl.canPublish P (who s.identity) p.topic) (hqos : p.qos = .exactlyOnce)
    (hdup : p.packetId.getD 0 ∈ s.inboundQos2) :
    Inert b cid s (if !P.validTopicName p.topic || startsWith p.topic sysPrefix then none
          else some (.pubrec ⟨p.packetId.getD 0, .success⟩))
        (acceptPublish P now ord b₁ cid epoch { s with inboundAliases := aliases } p) ↔
      p.retain = false ∨ (!P.validTopicName p.topic || startsWith p.topic sysPrefix) = true := by
  cases hbar : !P.validTopicName p.topic || startsWith p.topic sysPrefix with
  | true =>
    obtain ⟨rc, h⟩ := acceptPublish_barred (b := b₁) (s := { s with inboundAliases := aliases }) (P := P) hbar
    rw [h]
    exact iff_of_true ⟨hret, rfl, hothers, aliases, hself⟩ (.inr rfl)
  | false =>
    rw [acceptPublish_duplicate (s := { s with inboundAliases := aliases }) hbar hallowed hqos hdup]
    cases hretain : p.retain with
    | true =>
      -- the retained message is replaced or erased, and a command is sent
      refine iff_of_false (fun h => ?_) (by simp)
      have hnone := h.commands
      simp only [List.append_nil, commands_append, List.append_eq_nil_iff] at hnone
      exact storeRetained_commands (m := Message.fromPublish now p) hretain hnone.1
    | false =>
      have hstore : b₁.storeRetained (.publish cid epoch) (Message.fromPublish now p) = (b₁, []) := by
        rw [storeRetained, if_neg (by simp [Message.fromPublish, hretain])]
      rw [hstore]
      refine iff_of_true ⟨(acknowledge_retained ..).trans hret, rfl, fun c hc => ?_, aliases, ?_⟩ (.inl rfl)
      · exact (acknowledge_lookup_ne _ _ hc).trans (hothers c hc)
      · rw [acknowledge_lookup_self _ _ hself]
        exact congrArg some (push_aliases ..)

/-- **Duplicates**: an authorized QoS 2 PUBLISH of the current connection whose packet id is known already changes nothing,
and is answered with a PUBREC unless it ends the connection, if and only if it does not carry RETAIN or ends the
connection. -/
theorem duplicate_inert_iff (P : Protocol) (now : Nat) (ord : Orders) (b : Broker) (cid : String) (epoch : Nat) (s : Session)
    (p p' : Publish) (hres : b.Resolves cid epoch p s p') (hqos : p.qos = .exactlyOnce)
    (hallowed : b.acl.canPublish P (who s.identity) p'.topic) (hdup : p.packetId.getD 0 ∈ s.inboundQos2) :
    Inert b cid s (if bars P b.config p' then none else some (.pubrec ⟨p.packetId.getD 0, .success⟩))
        (handlePublish P now ord b cid epoch p) ↔
      p.retain = false ∨ bars P b.config p' = true := by
  obtain ⟨hs, he, s', hr⟩ := hres
  obtain ⟨aliases, rfl⟩ := resolveAlias_aliases hr
  obtain ⟨topic, rfl⟩ := resolveAlias_publish hr
  have hsame : supported b.config { p with topic := topic } = supported b.config p := rfl
  unfold bars
  rw [hsame]
  cases hsup : supported b.config p with
  | false =>
    rw [handlePublish_unsupported P now ord b cid epoch hsup]
    exact iff_of_true ⟨rfl, rfl, fun _ _ => rfl, s.inboundAliases, hs⟩ (.inr rfl)
  | true =>
    rw [handlePublish_resolved hs he hr hsup]
    simp only [Bool.not_true, Bool.false_or]
    refine acceptPublish_inert_iff (p := { p with topic := topic }) rfl ?_ ?_ hallowed hqos hdup
    · exact fun c hc => AList.lookup_insert_ne hc
    · simp [setSession]

/-! ### Two clients and one topic -/

/-- A PUBLISH to `t`. -/
def note (qos : QoS) (retain dup : Bool) (id : Option Nat) (payload : Bytes) : Publish := ⟨dup, qos, retain, "t", id, {}, payload⟩

/-- The broker after the PUBLISH `p` of client `c` and a retained one of client `d`. -/
def noted (p : Publish) : Broker :=
  (World.run .reference World.empty
    (World.connecting { clientId := "c", cleanStart := true } ++ World.connecting { clientId := "d", cleanStart := true } ++
      World.sending "c" 1 (.publish p) ++ World.sending "d" 2 (.publish (note .atMostOnce true false none [2])))).1.broker

/-- The packet id of the PUBLISH is known. -/
theorem noted_resolves {p : Publish} (hqos : p = note .exactlyOnce p.retain false (some 5) [1])
    (h : ((noted p).sessions.lookup "c").any fun s => s.epoch = 1 && 5 ∈ s.inboundQos2) :
    ∃ s, (noted p).Resolves "c" 1 { p with dup := true } s { p with dup := true } ∧ 5 ∈ s.inboundQos2 := by
  obtain ⟨s, hs, hok⟩ := (Option.any_eq_true _ _).1 h
  simp only [Bool.and_eq_true, decide_eq_true_eq] at hok
  refine ⟨s, ⟨hs, hok.1, s, ?_⟩, hok.2⟩
  rw [hqos]
  rfl

/-- A copy without RETAIN is harmless. -/
theorem duplicate_inert_plain :
    ∃ s, Inert (noted (note .exactlyOnce false false (some 5) [1])) "c" s (some (.pubrec ⟨5, .success⟩))
      (handlePublish .reference 0 {} (noted (note .exactlyOnce false false (some 5) [1])) "c" 1
        (note .exactlyOnce false true (some 5) [1])) := by
  obtain ⟨s, hres, hdup⟩ := noted_resolves (p := note .exactlyOnce false false (some 5) [1]) rfl (by decide +kernel)
  have hacl : (noted (note .exactlyOnce false false (some 5) [1])).acl.isEnforced = false := by decide +kernel
  have hbars : bars .reference (noted (note .exactlyOnce false false (some 5) [1])).config
      (note .exactlyOnce false true (some 5) [1]) = false := by decide +kernel
  have h := (duplicate_inert_iff .reference 0 {} _ "c" 1 s _ _ hres rfl (Acl.canPublish_of_not_enforced _ hacl _ _) hdup).2
    (.inl rfl)
  rw [show bars .reference (noted (note .exactlyOnce false false (some 5) [1])).config
    { note .exactlyOnce false false (some 5) [1] with dup := true } = false from hbars] at h
  exact ⟨s, h⟩

/-- A copy with RETAIN puts its message back over the one another client has retained since. -/
theorem duplicate_overwrites :
    ∃ s, (noted (note .exactlyOnce true false (some 5) [1])).Resolves "c" 1 (note .exactlyOnce true true (some 5) [1]) s
        (note .exactlyOnce true true (some 5) [1]) ∧ 5 ∈ s.inboundQos2 ∧
      (noted (note .exactlyOnce true false (some 5) [1])).acl.canPublish .reference (who s.identity) "t" ∧
      ((noted (note .exactlyOnce true false (some 5) [1])).retained.lookup "t").map (·.payload) = some [2] ∧
      ((handlePublish .reference 0 {} (noted (note .exactlyOnce true false (some 5) [1])) "c" 1
        (note .exactlyOnce true true (some 5) [1])).broker.retained.lookup "t").map (·.payload) = some [1] ∧
      ∀ reply, ¬Inert (noted (note .exactlyOnce true false (some 5) [1])) "c" s reply
        (handlePublish .reference 0 {} (noted (note .exactlyOnce true false (some 5) [1])) "c" 1
          (note .exactlyOnce true true (some 5) [1])) := by
  obtain ⟨s, hres, hdup⟩ := noted_resolves (p := note .exactlyOnce true false (some 5) [1]) rfl (by decide +kernel)
  have hacl : (noted (note .exactlyOnce true false (some 5) [1])).acl.isEnforced = false := by decide +kernel
  have hbefore : ((noted (note .exactlyOnce true false (some 5) [1])).retained.lookup "t").map (·.payload) = some [2] := by
    decide +kernel
  have hafter : ((handlePublish .reference 0 {} (noted (note .exactlyOnce true false (some 5) [1])) "c" 1
      (note .exactlyOnce true true (some 5) [1])).broker.retained.lookup "t").map (·.payload) = some [1] := by
    decide +kernel
  refine ⟨s, hres, hdup, Acl.canPublish_of_not_enforced _ hacl _ _, hbefore, hafter, fun reply h => ?_⟩
  rw [h.retained, hbefore] at hafter
  cases hafter

end Broker

end WispMQ
