import WispMQ.Untouched
/-!
# Who publishes under `$SYS/`

`handle_publish` refuses the prefix after it has resolved a topic alias (publish.rs:77-84). A Will does not
pass there: `handle_connect` asks the policy only (connect.rs:58-67), and the task that publishes the Will
asks it again (lifecycle.rs:149). A Will lives in the CONNECT, then in the session, then in the spawned task,
so the invariant `NoSysWill` follows it from one to the next.
-/

namespace WispMQ
open KeyMap

/-- The topic is under `$SYS/`. -/
def isSysTopic (topic : String) : Bool := startsWith topic sysPrefix

/-- The effect does not publish under `$SYS/`, unless for `publish_sys`. -/
def Effect.SysOnly : Effect → Prop
  | .retain origin m | .routed origin m => isSysTopic m.topic = true → origin = .sys
  | .store (.upsertRetained topic _) => isSysTopic topic = false
  | _ => True

/-! ## The effects of a step -/

theorem Effect.sysOnly_of_quiet {e : Effect} (h : e.isPublishing = false) : e.SysOnly := by
  cases e with
  | store c => cases c <;> trivial
  | retain | routed => cases h
  | _ => trivial

theorem Effect.Publishes.sysOnly {origin : Origin} {m : Message} {e : Effect} (h : e.Publishes origin m)
    (hm : isSysTopic m.topic = false) : e.SysOnly := by
  cases h <;> simp [Effect.SysOnly, hm]

/-! ## Wills -/

/-- The session's Will is not under `$SYS/`. -/
def Session.NoSysWill (s : Session) : Prop := ∀ will, s.will = some will → isSysTopic will.1.topic = false

/-- The Will a task carries is not under `$SYS/`. -/
def Task.NoSysWill : Task → Prop
  | .willSleep _ _ m _ _ | .willAuthorize _ _ m _ | .willPublish _ _ m => isSysTopic m.topic = false
  | _ => True

namespace Session

theorem push_will (s : Session) (item : Outgoing) : (s.push item).will = s.will := by rw [push_eq]

theorem retransmit_will (ord : Orders) (s : Session) : (s.retransmit ord).will = s.will :=
  retransmit_rule (fun s' => s'.will = s.will) (fun _ _ h => (push_will _ _).trans h)
    (fun _ _ h => (push_will _ _).trans h) ord rfl

theorem launched_will {now id : Nat} {s s' : Session} {p : Pending} (h : Launched now s p id s') :
    s'.will = s.will := by
  obtain ⟨tx, -, -, rfl⟩ := h.sent
  unfold record
  split <;> rfl

theorem flushQueue_will (P : Protocol) (now : Nat) (s : Session) : (flushQueue P now s).1.will = s.will := by
  obtain ⟨q, s', he, hs'⟩ := flushLoop_rule P now (fun _ s' _ => s'.will = s.will) (fun _ _ _ h => h)
    (fun _ _ _ _ _ h => h) (fun _ _ _ _ _ h => h) (fun _ _ _ _ _ _ _ hl h => (launched_will hl).trans h) s.queue s [] rfl
  rw [flushQueue, he]
  exact hs'

theorem delivered_will {P : Protocol} {now : Nat} {s s' : Session} {m : Message} {qos : QoS} {retain : Bool}
    {subIds : List Nat} {maxQueued : Nat} {fate : Fate} (h : Delivered P now s m qos retain subIds maxQueued s' fate) :
    s'.will = s.will := by
  cases h with
  | pushed _ hs => obtain ⟨tx, -, -, rfl⟩ := trySend_some hs; rfl
  | launched _ _ _ hl => exact launched_will hl
  | queued _ _ hs =>
    rcases hs with rfl | rfl <;> simp only [enqueue] <;> split <;> rfl
  | _ => rfl

/-- Only a CONNECT gives a session a Will. -/
theorem apply_will (P : Protocol) (s : Session) {o : Op} (h : o.isResume = false) :
    (s.apply P o).1.will = s.will ∨ (s.apply P o).1.will = none := by
  cases o with
  | deliver now m qos retain subIds maxQueued =>
    exact .inl (delivered_will (deliver_delivered P now s m qos retain subIds maxQueued))
  | control p => exact .inl (push_will s _)
  | shutdown rc => exact .inl (push_will s _)
  | puback now id => exact .inl (flushQueue_will P now _)
  | pubcomp now id => exact .inl (flushQueue_will P now _)
  | pubrec ack =>
    refine .inl ?_
    simp only [apply, pubrec]
    split
    · rfl
    · split
      · exact push_will _ _
      · split
        · rfl
        · exact push_will _ _
  | pubrel id => exact .inl (push_will _ _)
  | subscribe sub =>
    refine .inl ?_
    simp only [apply, upsertSubscription]
    split <;> rfl
  | close => exact .inr rfl
  | resume => simp [Op.isResume] at h
  | _ => exact .inl rfl

theorem NoSysWill.apply (P : Protocol) {s : Session} (hs : s.NoSysWill) {o : Op} (h : o.isResume = false) :
    (s.apply P o).1.NoSysWill := by
  intro will hw
  rcases apply_will P s h with he | he
  · exact hs will (he ▸ hw)
  · rw [he] at hw; cases hw

end Session

namespace Fleet

/-- No session has a Will under `$SYS/`. -/
def NoSysWill (f : Fleet) : Prop := ∀ cid s, f.session cid = some s → s.NoSysWill

theorem NoSysWill.set {f : Fleet} (h : f.NoSysWill) (cid : String) {a : Option Session}
    (ha : ∀ s, a = some s → s.NoSysWill) : (f.set cid a).NoSysWill := by
  intro c s hs
  simp only [Fleet.set, Function.update_apply] at hs
  split at hs
  · exact ha s hs
  · exact h c s hs

theorem NoSysWill.op {P : Protocol} {f : Fleet} (h : f.NoSysWill) (cid : String) {o : Op} (ho : o.isResume = false) :
    ((Move.op cid o).apply P f).NoSysWill := by
  cases hf : f.session cid with
  | none => simpa only [Move.apply, hf] using h
  | some s =>
    rw [apply_op hf]
    exact h.set cid (fun s' hs' => by cases hs'; exact (h cid s hf).apply P ho)

end Fleet

namespace World
open Broker
variable {P : Protocol} {w : World} {l : Label}

/-- A CONNECT with a Will under `$SYS/` is accepted. -/
def acceptsSysWill (w : World) (l : Label) : Bool :=
  match w.selected l.input with
  | some (.connect req) => req.connect.will.any fun will => isSysTopic will.topic
  | _ => false

theorem setWill_noSysWill {req : ConnectRequest} (h : (req.connect.will.any fun will => isSysTopic will.topic) = false)
    (now : Nat) (s : Session) : (s.setWill now req.connect).NoSysWill := by
  intro will hw
  simp only [Session.setWill, Option.map_eq_some_iff] at hw
  obtain ⟨v, hv, rfl⟩ := hw
  simpa [hv, Message.fromWill] using h

theorem Change.noSysWill {f : Fleet} (hc : Change P w l f) (h : w.broker.fleet.NoSysWill)
    (hl : w.acceptsSysWill l = false) : f.NoSysWill := by
  cases hc with
  | routine hr =>
    refine hr.invariant Fleet.NoSysWill ?_ h
    rintro g (⟨cid, o⟩ | _ | _) hmv hg
    · exact hg.op cid (Op.isResume_of_isRoutine hmv)
    · cases hmv
    · cases hmv
  | ack hsel ho hs he => exact h.op _ (isResume_ackOp ho)
  | connect hsel =>
    rename_i req
    have hw : (req.connect.will.any fun will => isSysTopic will.topic) = false := by
      simpa [acceptsSysWill, hsel] using hl
    show ((connectMove l.now l.ord w.broker req).apply P w.broker.fleet).NoSysWill
    simp only [connectMove]
    split
    · rename_i hp
      obtain ⟨-, s, hs, -⟩ := claimed_present hp
      rw [Fleet.apply_op (f := w.broker.fleet) hs]
      refine h.set req.clientId fun s' hs' => ?_
      cases hs'
      simp only [Session.apply, resumeDelivery]
      split
      · intro will hwill
        rw [Session.flushQueue_will, Session.retransmit_will] at hwill
        exact setWill_noSysWill hw _ _ will hwill
      · exact setWill_noSysWill hw _ _
    · exact h.set req.clientId fun s' hs' => by cases hs'; exact setWill_noSysWill hw _ _
  | bridge hin =>
    refine h.set _ fun s' hs' => ?_
    cases hs'
    intro will hwill
    cases hwill
  | removed hs hout => exact h.set _ fun s' hs' => by cases hs'

/-- No Will under `$SYS/` is in a session or in a waiting task. -/
structure NoSysWill (w : World) : Prop where
  sessions : w.broker.fleet.NoSysWill
  tasks : ∀ t ∈ w.tasks, t.NoSysWill

theorem NoSysWill.spawned (h : w.NoSysWill) {t : Task} (ht : Spawned P w l t) : t.NoSysWill := by
  cases ht with
  | will _ hs _ hw =>
    have := h.sessions _ _ hs _ hw
    unfold scheduleWill
    split <;> exact this
  | expiry => simp only [scheduleExpiry]; split <;> trivial
  | wake hsel => exact (h.tasks _ (selected_mem hsel) :)
  | authorize hsel => exact (h.tasks _ (selected_mem hsel) :)
  | _ => trivial

theorem NoSysWill.step (h : w.NoSysWill) (hl : w.acceptsSysWill l = false) : (step P w l).1.NoSysWill where
  sessions := (step_change P w l).noSysWill h.sessions hl
  tasks _ ht := (step_tasks ht).elim (h.tasks _) h.spawned

theorem boot_noSysWill (P : Protocol) (now : Nat) (cfg : Config) (db : Db) (acl : Acl) (auth : Option Credentials) :
    (boot P now cfg db acl auth).NoSysWill where
  sessions cid s hs will hw := by
    have hs : (boot P now cfg db acl auth).broker.sessions.lookup cid = some s := hs
    rw [boot_lookup] at hs
    split at hs
    · cases hs
    · obtain ⟨row, -, rfl⟩ := Option.map_eq_some_iff.1 hs
      cases hw
  tasks _ ht := by simp [boot] at ht

/-! ## The run -/

theorem runTask_sysOnly {t : Task} (ht : t.NoSysWill) (now : Nat) (ord : Orders) (b : Broker) :
    ∀ e ∈ (runTask P now ord b t).effects, e.SysOnly := by
  intro e he
  by_cases h : t.publishes = true
  · unfold Task.publishes at h
    split at h
    · rcases handlePublish_effects he with ⟨action, rfl⟩ | ⟨m, hm, hpub⟩
      · trivial
      · exact hpub.sysOnly hm.topic
    · exact (publishMessage_publishes now ord b _ _ _ e he).sysOnly ht
    · cases h
  · exact Effect.sysOnly_of_quiet ((runTask_quiet now ord b (by simpa using h)).2 e he)

theorem enter_sysOnly {c : Call} (hc : ∀ name m, c ≠ .injectPublish name m) (clock now : Nat) (ord : Orders)
    (b : Broker) : ∀ e ∈ (enter P clock now ord b c).effects, e.SysOnly := by
  intro e he
  by_cases hsys : ∃ entries, c = .publishSys entries
  · obtain ⟨entries, rfl⟩ := hsys
    obtain ⟨m, -, rfl | rfl⟩ := publishSys_effects now ord entries b e he
    · exact fun _ => rfl
    · exact fun _ => rfl
  · simp only [not_exists] at hsys
    exact Effect.sysOnly_of_quiet ((enter_quiet clock now ord b hsys hc).1 e he)

/-- A bridge publishes what its peer sent. -/
def injects (l : Label) : Bool :=
  match l.input with
  | .call (.injectPublish ..) => true
  | _ => false

theorem step_sysOnly (h : w.NoSysWill) (hl : injects l = false) : ∀ e ∈ (step P w l).2, e.SysOnly := by
  unfold step
  split
  · rename_i c hin
    exact enter_sysOnly (fun name m hc => by simp [injects, hin, hc] at hl) _ _ _ _
  · split
    · rename_i hsel
      exact runTask_sysOnly (h.tasks _ (selected_mem hsel)) _ _ _
    · simp
  all_goals simp

end World

/-- **Only the broker writes under `$SYS/`**: in every run without bridge traffic in which no CONNECT with a Will
under `$SYS/` is accepted, whatever is retained, stored or routed under `$SYS/` comes from `publish_sys`. -/
theorem run_sysOnly (P : Protocol) (now : Nat) (cfg : Config) (db : Db) (acl : Acl) (auth : Option Credentials)
    (ls : List Label) (hb : ∀ l ∈ ls, World.injects l = false)
    (h : Machine.Along (World.step P) (fun w l => w.acceptsSysWill l = false) (World.boot P now cfg db acl auth) ls) :
    ∀ e ∈ (World.run P (World.boot P now cfg db acl auth) ls).2, e.SysOnly := by
  refine (Machine.run_invariant (World.step P) (fun w es => w.NoSysWill ∧ ∀ e ∈ es, e.SysOnly)
    ⟨World.boot_noSysWill P now cfg db acl auth, fun _ he => absurd he List.not_mem_nil⟩ ?_ ls
    (Machine.Along.and_forall _ h hb)).2
  rintro w es l ⟨hw, hes⟩ ⟨hwill, hl⟩
  refine ⟨hw.step hwill, fun e he => ?_⟩
  rcases List.mem_append.1 he with he | he
  · exact hes e he
  · exact World.step_sysOnly hw hl e he

namespace World

/-- A CONNECT with a Will on `topic`. -/
def willing (topic : String) : Connect where
  clientId := "c"
  cleanStart := true
  will := some { topic, payload := [0], qos := .atMostOnce, retain := true }

/-- The client connects with it and is lost, and the broker publishes its uptime. -/
def lastWords (topic : String) : List Label :=
  connecting (willing topic) ++
  [{ input := .call (.closed "c" 1 true) }, { input := .task 0 }, { input := .task 1 },
   { input := .call (.publishSys [("$SYS/broker/uptime", [])]) }]

/-- The message of that Will. -/
def lastWord (topic : String) : Message := { topic, payload := [0], qos := .atMostOnce, retain := true }

def lastWordsEffects (topic : String) : List Effect :=
  (run .reference (boot .reference 0 {} {} .permitAll none) (lastWords topic)).2

end World

theorem run_sysOnly_lastWords :
    .routed (.will "c" 1) (World.lastWord "t") ∈ World.lastWordsEffects "t" ∧
    ∀ e ∈ World.lastWordsEffects "t", e.SysOnly :=
  ⟨by decide +kernel, run_sysOnly .reference 0 {} {} .permitAll none (World.lastWords "t") (by decide +kernel)
    (by decide +kernel)⟩

/-- The broker retains, stores and routes a client's message under `$SYS/`. -/
theorem lastWords_underSys :
    (∀ l ∈ World.lastWords "$SYS/x", World.injects l = false) ∧
    .retain (.will "c" 1) (World.lastWord "$SYS/x") ∈ World.lastWordsEffects "$SYS/x" ∧
    .store (.upsertRetained "$SYS/x" (World.lastWord "$SYS/x")) ∈ World.lastWordsEffects "$SYS/x" ∧
    .routed (.will "c" 1) (World.lastWord "$SYS/x") ∈ World.lastWordsEffects "$SYS/x" ∧
    ¬∀ e ∈ World.lastWordsEffects "$SYS/x", e.SysOnly := by
  have hretain : .retain (.will "c" 1) (World.lastWord "$SYS/x") ∈ World.lastWordsEffects "$SYS/x" := by
    decide +kernel
  refine ⟨by decide +kernel, hretain, by decide +kernel, by decide +kernel, fun hall => ?_⟩
  have horigin : Origin.will "c" 1 = .sys := hall _ hretain (by decide +kernel)
  cases horigin

end WispMQ
