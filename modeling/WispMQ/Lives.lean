import WispMQ.ForeignKey
import WispMQ.Retained
import WispMQ.Lib.WriteBehind
/-!
# One life after the other

`Storage::send` hands a command to the writer thread and returns (storage.rs:141). The writer runs the statements of one
command after the other, each in a transaction of its own. `main` does not wait for it at the end (main.rs:264), so every
stop is a crash: what is still in the channel is lost, also the second half of a command.

| here | there |
| --- | --- |
| `Command.statements` | the `execute` calls of `apply` (storage.rs:352) |
| `Process`            | the broker, the database and the channel between the two (storage.rs:95, :344) |
| `Input.lost`         | the writer thread is gone: `send` fails from then on, and says so once (storage.rs:148) |
| `Input.restart`      | the process ends, and `main` opens the database again (storage.rs:105) |

What the broker retains after a restart is what it retained at one moment of the life before, for all topics at once
(`retained_snapshot`). The foreign key survives every stop, also one in the middle of a command (`foreignKey_lives`), and no
life makes up a row or an owner (`rows_accounted`).
-/

namespace WispMQ
open KeyMap
open WriteBehind (Host Spec)

/-- The statements of a command. The `sessions` row takes the subscriptions with it (`ON DELETE CASCADE`), so after the first
statement of a `DeleteSession` the second is what `Db.apply` does. -/
def Command.statements : Command → List Command
  | .deleteSession cid => [.clearSubscriptions cid, .deleteSession cid]
  | c => [c]

def statements (cmds : List Command) : List Command := cmds.flatMap Command.statements

@[simp] theorem statements_append (cmds cmds' : List Command) :
    statements (cmds ++ cmds') = statements cmds ++ statements cmds' := List.flatMap_append

theorem filterEntries_filterEntries {m : KeyMap (String × String) SubRow} (p : String × String → SubRow → Bool) :
    filterEntries (filterEntries m p) p = filterEntries m p := by
  refine AList.ext ?_
  simp [filterEntries, List.filter_filter]

theorem Db.applyAll_statements (P : Protocol) : ∀ (cmds : List Command) (db : Db),
    db.applyAll P (statements cmds) = db.applyAll P cmds
  | [], _ => rfl
  | c :: cmds, db => by
    have hone : db.applyAll P c.statements = db.apply P c := by
      cases c with
      | deleteSession cid => simp [Command.statements, applyAll, apply, filterEntries_filterEntries]
      | _ => rfl
    have hrest := Db.applyAll_statements P cmds (db.apply P c)
    rw [← hone] at hrest
    rw [show statements (c :: cmds) = c.statements ++ statements cmds from rfl, applyAll, List.foldl_append]
    refine hrest.trans ?_
    rw [hone]
    rfl

/-- The statements about retained messages are the commands about them. -/
theorem statements_retained (p : Command → Bool) (hp : ∀ c, c.topic = none → p c = false) : ∀ cmds : List Command,
    (statements cmds).filter p = cmds.filter p
  | [] => rfl
  | c :: cmds => by
    have hone : c.statements.filter p = [c].filter p := by
      cases c with
      | deleteSession cid => simp [Command.statements, hp (.clearSubscriptions cid) rfl]
      | _ => rfl
    rw [show statements (c :: cmds) = c.statements ++ statements cmds from rfl, List.filter_append, hone,
      statements_retained p hp cmds, ← List.filter_append, List.singleton_append]

/-! ## The process -/

/-- What `main` starts the broker with, and when. -/
structure Start where
  now : Nat := 0
  cfg : Config := {}
  acl : Acl := .permitAll
  auth : Option Credentials := none

abbrev Process := Host World Db Command

/-- What can happen to a process. -/
abbrev Happening := WriteBehind.Input Label Start

namespace Process
variable (P : Protocol)

def parts : Spec World Label Effect Db Command Start where
  step := World.step P
  ops es := statements (commands es)
  perform := Db.apply P
  start st db := World.boot P st.now st.cfg db st.acl st.auth

/-- The first start, on the tables `db`. -/
def first (st : Start) (db : Db) : Process := { state := World.boot P st.now st.cfg db st.acl st.auth, store := db }

def run (st : Start) (db : Db) (is : List Happening) : Process := (WriteBehind.run (parts P) (first P st db) is).1

variable {P}

theorem ops_append (es es' : List Effect) : (parts P).ops (es ++ es') = (parts P).ops es ++ (parts P).ops es' := by
  simp [parts]

theorem first_fresh (st : Start) (db : Db) : WriteBehind.Fresh (parts P) st (first P st db) := ⟨rfl, rfl, rfl⟩

end Process

/-- The reading of the clock, if there is one. -/
def Happening.now : Happening → Option Nat
  | .step l => some l.now
  | .restart st => some st.now
  | _ => none

/-- The clock does not go back, from the first start to `later`. -/
def Process.Forward (st : Start) (is : List Happening) (later : Nat) : Prop :=
  (st.now :: (is.filterMap Happening.now ++ [later])).Pairwise (· ≤ ·)

/-! ## The retained messages -/

/-- The commands about retained messages. -/
def retainedCommands (es : List Effect) : List Command := (commands es).filter (·.topic.isSome)

theorem retainedCommands_quiet {es : List Effect} (h : ∀ e ∈ es, e.isPublishing = false) : retainedCommands es = [] := by
  refine List.filter_eq_nil_iff.2 fun c hc => ?_
  have := h _ (mem_commands.1 hc)
  cases c <;> simp_all [Command.topic, Effect.isPublishing]

theorem retainedCommands_unstored {es : List Effect} (h : ∀ e ∈ es, ∀ c, e ≠ .store c) : retainedCommands es = [] := by
  refine List.filter_eq_nil_iff.2 fun c hc => ?_
  exact absurd rfl (h _ (mem_commands.1 hc) c)

theorem retainedCommands_append (es es' : List Effect) :
    retainedCommands (es ++ es') = retainedCommands es ++ retainedCommands es' := by
  rw [retainedCommands, commands_append, List.filter_append, retainedCommands, retainedCommands]

namespace Broker
variable {P : Protocol}

/-- Retained-message maintenance, with effects that store nothing around it. -/
theorem storeRetained_one (b : Broker) (origin : Origin) (m : Message) {es : List Effect} (hes : retainedCommands es = []) :
    (retainedCommands ((b.storeRetained origin m).2 ++ es)).length ≤ 1 := by
  rw [retainedCommands_append, hes, List.append_nil]
  unfold storeRetained
  split
  · split <;> simp [retainedCommands, commands, Command.topic]
  · simp [retainedCommands, commands]

theorem publishMessage_one (now : Nat) (ord : Orders) (b : Broker) (origin : Origin) (publisher : Option String) (m : Message) :
    (retainedCommands (publishMessage P now ord b origin publisher m).effects).length ≤ 1 :=
  storeRetained_one b origin m (retainedCommands_unstored (by simp))

theorem handlePublish_one (now : Nat) (ord : Orders) (b : Broker) (cid : String) (epoch : Nat) (publish : Publish) :
    (retainedCommands (handlePublish P now ord b cid epoch publish).effects).length ≤ 1 := by
  have hanswer : ∀ (b' : Broker) (action : Action), (retainedCommands (b'.answer cid epoch action).effects).length ≤ 1 := by
    intro b' action
    rw [retainedCommands_unstored (by simp [answer])]
    simp
  rcases handlePublish_cases P now ord b cid epoch publish with ⟨rc, he⟩ | ⟨s, s', publish', -, -, -, he⟩
  · rw [he]
    exact hanswer ..
  · rw [he]
    unfold acceptPublish
    split
    · exact hanswer ..
    split
    · exact hanswer ..
    split
    · exact hanswer ..
    · simp only
      rw [List.append_assoc]
      refine storeRetained_one _ _ _ (retainedCommands_unstored fun e he c hc => ?_)
      subst hc
      rw [List.mem_append, List.mem_singleton, or_iff_left (by simp)] at he
      simp only [routePublish] at he
      split at he
      · simp at he
      · simp at he
      · split at he <;> simp at he

end Broker

open Broker in
/-- A step writes or deletes one retained message at most. -/
theorem World.step_one (P : Protocol) (w : World) (l : Label) : (retainedCommands (step P w l).2).length ≤ 1 := by
  have hnone : ∀ {es : List Effect}, retainedCommands es = [] → (retainedCommands es).length ≤ 1 := by
    intro es h
    rw [h]
    simp
  cases hin : l.input with
  | call c =>
    simp only [step, hin, absorb]
    by_cases hsys : ∃ entries, c = .publishSys entries
    · obtain ⟨entries, rfl⟩ := hsys
      refine hnone (retainedCommands_unstored fun e he c hc => ?_)
      obtain ⟨m, -, rfl | rfl⟩ := publishSys_effects l.now l.ord entries w.broker e he <;> cases hc
    by_cases hinject : ∃ name m, c = .injectPublish name m
    · obtain ⟨name, m, rfl⟩ := hinject
      exact publishMessage_one l.now l.ord w.broker _ _ m
    simp only [not_exists] at hsys hinject
    exact hnone (retainedCommands_quiet (enter_quiet (P := P) w.clock l.now l.ord w.broker hsys hinject).1)
  | task i =>
    cases hsel : w.selected (.task i) with
    | none =>
      simp only [step, hin, hsel]
      exact hnone rfl
    | some t =>
      simp only [step, hin, hsel, absorb]
      by_cases h : t.publishes = true
      · unfold Task.publishes at h
        split at h
        · exact handlePublish_one ..
        · exact publishMessage_one l.now l.ord w.broker _ _ _
        · cases h
      · exact hnone (retainedCommands_quiet (runTask_quiet (P := P) l.now l.ord w.broker (t := t) (by simpa using h)).2)
  | sleep secs | recv cid epoch | hangup cid epoch =>
    simp only [step, hin]
    exact hnone rfl

namespace Process
variable {P : Protocol}

theorem filterMap_now : ∀ {is : List Happening}, (∀ i ∈ is, i.isRestart = false) →
    is.filterMap Happening.now = (WriteBehind.steps is).map (·.now)
  | [], _ => rfl
  | i :: is, h => by
    have hrest := filterMap_now fun j hj => h j (List.mem_cons_of_mem _ hj)
    cases i with
    | step l => rw [List.filterMap_cons, hrest]; rfl
    | write => rw [List.filterMap_cons, hrest]; rfl
    | lost => rw [List.filterMap_cons, hrest]; rfl
    | restart c => cases h (.restart c) (by simp)

/-- In the life that began with `c`. -/
theorem Forward.life {st c : Start} {a b₁ b₂ : List Happening} {later : Nat} (h : Forward st (a ++ (b₁ ++ b₂)) later)
    (hb : ∀ i ∈ b₁, i.isRestart = false) (ha : (a = [] ∧ c = st) ∨ ∃ a', a = a' ++ [.restart c]) :
    World.Forward c.now (WriteBehind.steps b₁) later := by
  rw [World.Forward, ← filterMap_now hb]
  rw [Forward, List.filterMap_append, List.filterMap_append] at h
  rcases ha with ⟨rfl, rfl⟩ | ⟨a', rfl⟩
  · refine h.sublist (.cons_cons _ (.append ?_ (.refl _)))
    simp
  · refine h.sublist (.cons _ ?_)
    rw [List.filterMap_append, List.append_assoc, List.append_assoc, List.append_assoc]
    refine (List.Sublist.trans ?_ (List.sublist_append_right _ _))
    rw [show [WriteBehind.Input.restart c].filterMap Happening.now = [c.now] from rfl, List.singleton_append]
    exact .cons_cons _ (.append (.refl _) (List.sublist_append_right _ _))

/-- The tables hold for a topic what the commands of the first steps made of them. -/
theorem store_topic {d : Db} {es : List Effect} {done gone : List Command} {p : Process} {all : List Command}
    (hw : WriteBehind.Within (parts P) d all done gone p)
    (hcut : done.filter (·.topic.isSome) = (statements (commands es)).filter (·.topic.isSome)) (topic : String) :
    p.store.retained.lookup topic = (d.applyAll P (commands es)).retained.lookup topic := by
  have hsome : ∀ cmds : List Command, cmds.filter (·.topic = some topic) =
      (cmds.filter (·.topic.isSome)).filter (·.topic = some topic) := by
    intro cmds
    rw [List.filter_filter]
    refine List.filter_congr fun c _ => ?_
    cases c.topic <;> simp
  rw [hw.store, show List.foldl (parts P).perform d done = d.applyAll P done from rfl, Db.retained_applyAll, hsome, hcut,
    ← hsome, statements_retained _ (fun c hc => by simp [hc]), ← Db.retained_applyAll]

/-- **Retained messages are restored to a moment**: whenever the process stops, what the broker retains when it is started
again is what it retained at one moment of the life that ended, for every topic that `publish_sys` has not written, up to
what has expired; and if nothing was left to write, at the end of it. -/
theorem retained_snapshot (P : Protocol) (hP : P.CodecSpec) (st : Start) (db : Db) (is : List Happening) (next : Start)
    (hclock : Forward st is next.now) (hwire : ∀ l ∈ WriteBehind.steps is, Short l.userProperties) :
    ∃ is₁ is₂, is = is₁ ++ is₂ ∧ (∀ i ∈ is₂, i.isRestart = false) ∧
      ((run P st db is).alive = true → (run P st db is).queue = [] → (run P st db is₁).state = (run P st db is).state) ∧
      ∀ topic, (∀ l ∈ WriteBehind.steps is, l.publishesSys topic = false) →
        (run P st db (is ++ [.restart next])).state.broker.retained.lookup topic =
          ((run P st db is₁).state.broker.retained.lookup topic).filter fun m => !m.isExpired next.now := by
  obtain ⟨c, a, b, rfl, hfresh, hb, ha⟩ := WriteBehind.exists_life (first_fresh (P := P) st db) is
  obtain ⟨hstate, done, gone, hw⟩ := WriteBehind.run_of_fresh ops_append hfresh hb
  have hcut : ∃ ls₁ ls₂, WriteBehind.steps b = ls₁ ++ ls₂ ∧
      ((run P st db (a ++ b)).alive = true → (run P st db (a ++ b)).queue = [] → ls₂ = []) ∧
      done.filter (·.topic.isSome) =
        ((parts P).ops (Machine.run (parts P).step (run P st db a).state ls₁).2).filter (·.topic.isSome) := by
    by_cases hidle : (run P st db (a ++ b)).alive = true ∧ (run P st db (a ++ b)).queue = []
    · refine ⟨WriteBehind.steps b, [], (List.append_nil _).symm, fun _ _ => rfl, ?_⟩
      rw [run, WriteBehind.run_append] at hidle
      have hall := hw.split
      rw [hidle.2, hw.alive hidle.1, List.append_nil, List.append_nil] at hall
      rw [← hall]
      rfl
    · have hprefix := hw.split
      rw [List.append_assoc] at hprefix
      have hone : ∀ w l, (((parts P).ops ((parts P).step w l).2).filter (·.topic.isSome)).length ≤ 1 := by
        intro w l
        have hone := World.step_one P w l
        rw [retainedCommands, ← statements_retained _ (fun c hc => by simp [hc])] at hone
        exact hone
      obtain ⟨ls₁, ls₂, hls, hcut⟩ := WriteBehind.exists_cut _ ops_append hone hprefix
      exact ⟨ls₁, ls₂, hls, fun h h' => absurd ⟨h, h'⟩ hidle, hcut⟩
  obtain ⟨ls₁, ls₂, hls, hidle, hcut⟩ := hcut
  obtain ⟨b₁, b₂, rfl, hsteps, hmoment⟩ := WriteBehind.exists_moment ops_append hfresh hb hls
  refine ⟨a ++ b₁, b₂, (List.append_assoc ..).symm, fun i hi => hb i (List.mem_append_right _ hi), fun halive hqueue => ?_,
    fun topic hsys => ?_⟩
  · rw [run, run, WriteBehind.run_append, WriteBehind.run_append, hmoment, hstate, hls, hidle halive hqueue, List.append_nil]
  · have hb₁ : ∀ i ∈ b₁, i.isRestart = false := fun i hi => hb i (List.mem_append_left _ hi)
    have hmem : ∀ l ∈ ls₁, l ∈ WriteBehind.steps (a ++ (b₁ ++ b₂)) := by
      intro l hl
      rw [WriteBehind.steps_append, hls]
      exact List.mem_append_right _ (List.mem_append_left _ hl)
    have hagrees := @World.run_agrees P hP c.now c.cfg (run P st db a).store c.acl c.auth topic _ _
      (hsteps ▸ hclock.life hb₁ ha) (fun l hl => hwire l (hmem l hl)) (fun l hl => hsys l (hmem l hl))
    have hboot : (run P st db a).state = World.boot P c.now c.cfg (run P st db a).store c.acl c.auth := hfresh.state
    have hthen : (run P st db (a ++ b₁)).state = (World.run P (run P st db a).state ls₁).1 := by
      rw [run, WriteBehind.run_append]
      exact hmoment
    have hrow := store_topic hw hcut topic
    rw [hthen, hboot]
    rw [run, WriteBehind.run_append, WriteBehind.run_append]
    refine (World.boot_retained next.now next.cfg _ next.acl next.auth topic).trans ?_
    rw [show (WriteBehind.run (parts P) (WriteBehind.run (parts P) (first P st db) a).1 (b₁ ++ b₂)).1.store.retained.lookup
      topic = _ from hrow]
    rw [Agrees, ← hboot] at hagrees
    rw [← hboot]
    exact hagrees

/-- The second of two retained messages is still in the channel when the process stops. -/
def interrupted : List Happening :=
  (World.connecting { clientId := "c", cleanStart := true } ++
    World.sending "c" 1 (.publish ⟨false, .atMostOnce, true, "t", none, {}, [1]⟩)).map .step ++ [.write, .write, .write] ++
  (World.sending "c" 1 (.publish ⟨false, .atMostOnce, true, "t", none, {}, [2]⟩)).map .step

theorem retained_snapshot_interrupted :
    (∃ is₁ is₂, interrupted = is₁ ++ is₂ ∧ (∀ i ∈ is₂, i.isRestart = false) ∧
      ((run .reference {} {} interrupted).alive = true → (run .reference {} {} interrupted).queue = [] →
        (run .reference {} {} is₁).state = (run .reference {} {} interrupted).state) ∧
      ∀ topic, (∀ l ∈ WriteBehind.steps interrupted, l.publishesSys topic = false) →
        (run .reference {} {} (interrupted ++ [.restart {}])).state.broker.retained.lookup topic =
          ((run .reference {} {} is₁).state.broker.retained.lookup topic).filter fun m => !m.isExpired 0) ∧
    (run .reference {} {} (interrupted ++ [.restart {}])).state.broker.retained.lookup "t" =
      some { topic := "t", payload := [1], qos := .atMostOnce, retain := true } :=
  ⟨retained_snapshot .reference codecSpec_reference {} {} interrupted {} (by unfold Forward; decide) (by decide),
    by decide +kernel⟩

/-! ## The foreign key -/

/-- A statement that is a command is reached where the command is. -/
theorem statements_split {c : Command} (hc : c.isSession = false) (hclear : ∀ cid, c ≠ .clearSubscriptions cid) :
    ∀ {cmds done rest : List Command}, statements cmds = done ++ c :: rest →
      ∃ pre post, cmds = pre ++ c :: post ∧ statements pre = done
  | [], _, _, h => by simp [statements] at h
  | c₀ :: cmds, done, rest, h => by
    rw [show statements (c₀ :: cmds) = c₀.statements ++ statements cmds from rfl] at h
    rcases List.append_eq_append_iff.1 h with ⟨as, rfl, has⟩ | ⟨bs, hbs, hrest⟩
    · obtain ⟨pre, post, rfl, hpre⟩ := statements_split hc hclear has
      exact ⟨c₀ :: pre, post, rfl, by rw [← hpre]; rfl⟩
    · cases bs with
      | nil =>
        obtain ⟨pre, post, rfl, hpre⟩ := statements_split hc hclear (show statements cmds = [] ++ _ from hrest.symm)
        rw [List.append_nil] at hbs
        exact ⟨c₀ :: pre, post, rfl, by rw [← hbs, ← List.append_nil c₀.statements, ← hpre]; rfl⟩
      | cons b bs =>
        obtain ⟨rfl, -⟩ := List.cons.inj hrest
        have hmem : c ∈ c₀.statements := by rw [hbs]; simp
        have hself : c₀.statements = [c₀] := by
          cases c₀ with
          | deleteSession cid =>
            simp only [Command.statements, List.mem_cons, List.not_mem_nil, or_false] at hmem
            rcases hmem with rfl | rfl
            · exact absurd rfl (hclear cid)
            · cases hc
          | _ => rfl
        rw [hself] at hbs hmem
        rw [List.mem_singleton.1 hmem] at hbs ⊢
        cases done with
        | nil => exact ⟨[], cmds, rfl, rfl⟩
        | cons d done => simp at hbs

/-- **No write is rejected**, and no subscription loses its session: in every life, at every stop, and after every statement. -/
theorem foreignKey_lives (P : Protocol) (st : Start) (db : Db) (is : List Happening) :
    (db.NoOrphan → (run P st db is).store.NoOrphan) ∧
      ∀ cid sub queue, (run P st db is).queue = .upsertSubscription cid sub :: queue →
        cid ∈ (run P st db is).store.sessions := by
  refine ⟨fun hdb => WriteBehind.run_store (fun d c h => Db.noOrphan_iff.2 fun cid => ?_) is hdb, fun cid sub queue hq => ?_⟩
  · rw [show (parts P).perform d c = d.apply P c from rfl, Db.rows_apply]
    split
    · exact (Db.noOrphan_iff.1 h cid).apply c
    · exact Db.noOrphan_iff.1 h cid
  · obtain ⟨c, a, b, rfl, hfresh, hb, -⟩ := WriteBehind.exists_life (first_fresh (P := P) st db) is
    obtain ⟨-, done, gone, hw⟩ := WriteBehind.run_of_fresh ops_append hfresh hb
    rw [run, WriteBehind.run_append] at hq ⊢
    have hsplit := hw.split
    rw [hq, List.append_assoc, List.cons_append] at hsplit
    obtain ⟨pre, post, hcmds, rfl⟩ := statements_split rfl (by simp) hsplit
    have htakes := (World.run_referenced P c.now c.cfg (run P st db a).store c.acl c.auth (WriteBehind.steps b)).takes cid
    have hboot : (run P st db a).state = World.boot P c.now c.cfg (run P st db a).store c.acl c.auth := hfresh.state
    rw [← hboot, show (World.run P (run P st db a).state (WriteBehind.steps b)) =
      Machine.run (parts P).step (run P st db a).state (WriteBehind.steps b) from rfl] at htakes
    rw [show Machine.run (parts P).step (run P st db a).state (WriteBehind.steps b) = Machine.run (parts P).step
      (WriteBehind.run (parts P) (first P st db) a).1.state (WriteBehind.steps b) from rfl, hcmds, commandsFor_append,
      Rows.takes_append, ← Db.rows_applyAll P] at htakes
    have hfor : commandsFor cid (.upsertSubscription cid sub :: post) = .upsertSubscription cid sub :: commandsFor cid post := by
      simp [commandsFor, Command.client]
    rw [hfor] at htakes
    have hmem := AList.lookup_isSome.1 (htakes.2.1 cid sub rfl)
    rw [hw.store, show List.foldl (parts P).perform _ (statements pre) = Db.applyAll P _ (statements pre) from rfl,
      Db.applyAll_statements]
    exact hmem

end Process

/-! ## Where rows come from -/

/-- The record of a granted filter (subscribe.rs:86-98). -/
def Broker.recordOf (b : Broker) (sub : Subscribe) (f : TopicFilter) : SubRecord where
  filter := f.filter
  qos := f.qos.min b.config.maximumQos
  noLocal := f.noLocal
  retainAsPublished := f.retainAsPublished
  retainHandling := f.retainHandling
  subscriptionIdentifier := sub.subscriptionIdentifiers.head?

/-- The step handles a SUBSCRIBE of the client's current connection with the filter `f`, which is granted, and writes `rec`. -/
def World.Subscribes (P : Protocol) (w : World) (l : Label) (cid : String) (rec : SubRecord) : Prop :=
  ∃ s sub f, w.broker.sessions.lookup cid = some s ∧ w.selected l.input = some (.dispatch cid s.epoch (.subscribe sub)) ∧
    f ∈ sub.filters ∧ P.validTopicFilter (stripShareForValidation f.filter) = true ∧
    (∃ parsed, P.parseFilter f.filter = some parsed ∧
      (w.broker.acl.isEnforced = true → w.broker.acl.canSubscribe P (who s.identity) parsed.filter = true)) ∧
    rec = w.broker.recordOf sub f

/-- The step accepts a CONNECT with the client id under the identity. -/
def World.Accepts (w : World) (l : Label) (cid : String) (owner : Option String) : Prop :=
  ∃ req, w.selected l.input = some (.connect req) ∧ req.clientId = cid ∧ req.identity = owner

/-- What stands behind a command that writes a row for a client. -/
inductive World.Writes (P : Protocol) (w : World) (l : Label) : Command → Prop
  | subscription {cid : String} {rec : SubRecord} (h : w.Subscribes P l cid rec) : Writes P w l (.upsertSubscription cid rec)
  | accepted {cid : String} {n : Nat} {owner : Option String} (h : w.Accepts l cid owner) :
      Writes P w l (.upsertSession cid n owner)
  | owned {cid : String} {n : Nat} {s : Session} (h : w.broker.sessions.lookup cid = some s) (hp : s.persistent = true) :
      Writes P w l (.upsertSession cid n s.identity)
  | other {c : Command} (hsub : ∀ cid rec, c ≠ .upsertSubscription cid rec)
      (hsession : ∀ cid n owner, c ≠ .upsertSession cid n owner) : Writes P w l c

namespace World
open Broker
variable {P : Protocol} {w : World} {l : Label}

theorem Writes.routing {e : Effect} {c : Command} (h : e.isRouting) (he : e = .store c) : Writes P w l c := by
  subst he
  cases c with
  | upsertRetained | deleteRetained => exact .other (by simp) (by simp)
  | _ => cases h

/-- The commands of the SUBSCRIBE loop. -/
theorem subscribeFilters_commands (now : Nat) (ord : Orders) (b : Broker) (cid : String) (sub : Subscribe) :
    ∀ (fs : List TopicFilter) (acc : SubscribeAcc),
      ∀ c ∈ (fs.foldl (subscribeFilter P now ord b cid sub.subscriptionIdentifiers.head?) acc).commands,
        c ∈ acc.commands ∨ ∃ f ∈ fs, P.validTopicFilter (stripShareForValidation f.filter) = true ∧
          (∃ parsed, P.parseFilter f.filter = some parsed ∧
            (b.acl.isEnforced = true → b.acl.canSubscribe P (who acc.session.identity) parsed.filter = true)) ∧
          c = .upsertSubscription cid (b.recordOf sub f)
  | [], _, c, hc => .inl hc
  | f :: fs, acc, c, hc => by
    have hidentity : (subscribeFilter P now ord b cid sub.subscriptionIdentifiers.head? acc f).session.identity =
        acc.session.identity := by
      unfold subscribeFilter
      split
      · rfl
      · split
        · rfl
        · split
          · rfl
          · simp only [Session.upsertSubscription]
            split <;> rfl
    rcases subscribeFilters_commands now ord b cid sub fs _ c hc with hc | ⟨f', hf', hvalid, hparsed, rfl⟩
    · unfold subscribeFilter at hc
      split at hc
      · exact .inl hc
      · rename_i hvalid
        split at hc
        · exact .inl hc
        · rename_i parsed hparse
          split at hc
          · exact .inl hc
          · rename_i hallowed
            rcases List.mem_append.1 hc with hc | hc
            · exact .inl hc
            · split at hc
              · rw [List.mem_singleton.1 hc]
                refine .inr ⟨f, List.mem_cons_self .., by simpa using hvalid, ⟨parsed, hparse, fun henf => ?_⟩, rfl⟩
                simpa [henf] using hallowed
              · cases hc
    · rw [hidentity] at hparsed
      exact .inr ⟨f', List.mem_cons_of_mem _ hf', hvalid, hparsed, rfl⟩

theorem dispatch_writes {cid : String} {epoch : Nat} {packet : Packet}
    (hsel : w.selected l.input = some (.dispatch cid epoch packet)) {c : Command}
    (hc : .store c ∈ (dispatch P l.now l.ord w.broker cid epoch packet).effects) : Writes P w l c := by
  have hacked : ∀ f : Session → Session × Nat, .store c ∈ (w.broker.acked cid epoch f).effects → Writes P w l c := by
    intro f h
    obtain ⟨action, he⟩ := acked_effects w.broker cid epoch f
    rw [he] at h
    simp at h
  cases packet with
  | publish p => exact .routing (handlePublish_routing _ _ _ _ _ _ _ hc) rfl
  | puback | pubrec | pubrel | pubcomp => exact hacked _ hc
  | subscribe sub =>
    rcases fenced_effects hc with ⟨s, hs, rfl, hc⟩ | ⟨_, hc⟩
    · simp only [List.mem_append, List.mem_map, Effect.store.injEq, exists_eq_right, List.mem_singleton, reduceCtorEq,
        or_false] at hc
      rcases subscribeFilters_commands l.now l.ord w.broker cid sub sub.filters _ c hc with hc | ⟨f, hf, hvalid, hparsed, rfl⟩
      · cases hc
      · exact .subscription ⟨s, sub, f, hs, hsel, hf, hvalid, hparsed, rfl⟩
    · cases hc
  | unsubscribe unsub =>
    rcases fenced_effects hc with ⟨s, -, -, hc⟩ | ⟨_, hc⟩
    · have hdeletes : ∀ (fs : List String) (acc : Session × List ReasonCode × List Command),
          c ∈ (fs.foldl (unsubscribeFilter P cid) acc).2.2 → c ∈ acc.2.2 ∨ ∃ key, c = .deleteSubscription cid key := by
        intro fs
        induction fs with
        | nil => exact fun _ => .inl
        | cons f fs ih =>
          intro acc h
          rcases ih _ h with h | h
          · rcases List.mem_append.1 h with h | h
            · exact .inl h
            · split at h
              · exact .inr ⟨f, List.mem_singleton.1 h⟩
              · cases h
          · exact .inr h
      simp only [List.mem_append, List.mem_map, Effect.store.injEq, exists_eq_right, List.mem_singleton, reduceCtorEq,
        or_false] at hc
      rcases hdeletes _ _ hc with hc | ⟨key, rfl⟩
      · cases hc
      · exact .other (by simp) (by simp)
    · cases hc
  | disconnect d =>
    rcases fenced_effects hc with ⟨s, -, -, hc⟩ | ⟨_, hc⟩
    · split at hc
      · cases hc
      · obtain ⟨_, hc⟩ := answer_effects hc
        cases hc
    · cases hc
  | _ => simp [dispatch, answer] at hc

theorem finishConnect_writes {req : ConnectRequest} (hsel : w.selected l.input = some (.connect req)) {c : Command}
    (hc : c ∈ commands (finishConnect P l.now l.ord w.broker req).effects) : Writes P w l c := by
  rw [finishConnect_commands] at hc
  simp only [List.mem_append] at hc
  rcases hc with (hc | hc) | hc
  · unfold claimCommands at hc
    split at hc
    · rw [List.mem_singleton.1 hc]
      exact .other (by simp) (by simp)
    · split at hc
      · split at hc
        · rw [List.mem_singleton.1 hc]
          exact .other (by simp) (by simp)
        · cases hc
      · cases hc
  · unfold reauthorizeCommands at hc
    split at hc
    · obtain ⟨_, -, rfl⟩ := List.mem_map.1 hc
      exact .other (by simp) (by simp)
    · cases hc
  · unfold persistCommands at hc
    split at hc
    · rw [List.mem_singleton.1 hc]
      exact .accepted ⟨req, hsel, rfl, rfl⟩
    · cases hc

theorem dropped_stores {b : Broker} {cid : String} {c : Command} : .store c ∉ b.dropped cid := by
  intro hc
  have := mem_commands.2 hc
  rw [dropped_commands] at this
  cases this

theorem runTask_writes {t : Task} (hsel : w.selected l.input = some t) {c : Command}
    (hc : .store c ∈ (runTask P l.now l.ord w.broker t).effects) : Writes P w l c := by
  have hremove : ∀ cid epoch, .store c ∈ (removeIfOffline w.broker cid epoch).effects → Writes P w l c := by
    intro cid epoch h
    unfold removeIfOffline at h
    split at h
    · simp at h
    · split at h
      · simp only [List.mem_singleton, Effect.store.injEq] at h
        subst h
        exact .other (by simp) (by simp)
      · simp at h
  cases t with
  | dispatch cid epoch packet => exact dispatch_writes hsel hc
  | disconnectExpiry cid epoch newExpiry publishWill =>
    simp only [runTask, disconnectExpiry] at hc
    split at hc
    · simp [answer] at hc
    · rename_i s hs
      simp only [List.mem_append, List.mem_ite_nil_right, List.mem_singleton, Effect.store.injEq, reduceCtorEq, or_false] at hc
      rw [hc.2]
      exact .owned hs hc.1
  | connect req => exact finishConnect_writes hsel (mem_commands.2 hc)
  | closeRemove cid epoch => exact hremove cid epoch hc
  | willSleep cid epoch m owner due =>
    simp only [runTask, willWake] at hc
    split at hc
    · split at hc <;> simp at hc
    · simp at hc
  | willAuthorize cid epoch m owner =>
    simp only [runTask, willAuthorize] at hc
    split at hc <;> simp at hc
  | willPublish cid epoch m => exact .routing (publishMessage_routing _ _ _ _ _ _ _ hc) rfl
  | expiry cid epoch due => exact hremove cid epoch hc
  | revoke acl =>
    simp only [runTask, revokeUnauthorized] at hc
    split at hc
    · simp at hc
    · have hall := iterMut_acc (revokeVisit P acl) (fun cmds => ∀ c ∈ cmds, ∃ cid key, c = .deleteSubscription cid key)
        l.ord.sessions w.broker.sessions [] (by simp) (fun cid s cmds _ hI => ?_)
      · simp only [List.mem_map, Effect.store.injEq, exists_eq_right] at hc
        obtain ⟨_, _, rfl⟩ := hall c hc
        exact .other (by simp) (by simp)
      · intro c hc
        simp only [revokeVisit] at hc
        split at hc
        · exact hI c hc
        · rcases List.mem_append.1 hc with hc | hc
          · exact hI c hc
          · split at hc
            · obtain ⟨_, -, rfl⟩ := List.mem_map.1 hc
              exact ⟨_, _, rfl⟩
            · cases hc

/-- **Inversion**: a step writes the row of a subscription for a SUBSCRIBE that is granted, and the row of a session for a
CONNECT that is accepted or under the owner the session has. -/
theorem step_writes {c : Command} (hc : c ∈ commands (step P w l).2) : Writes P w l c := by
  replace hc := mem_commands.1 hc
  cases hin : l.input with
  | call call =>
    simp only [step, hin, absorb] at hc
    cases call with
    | connect connect identity =>
      rcases startConnect_cases (P := P) l.now w.broker connect {} identity with ⟨rc, h⟩ | ⟨_, _, -, -, -, ⟨-, h⟩ | ⟨-, -, h⟩⟩
      all_goals simp [enter, h, refuse] at hc
    | packet cid epoch packet =>
      simp only [enter, handlePacket] at hc
      split at hc
      · split at hc <;> simp [answer] at hc
      · simp [answer] at hc
    | closed cid epoch publishWill =>
      simp only [enter, handleConnectionClosed] at hc
      split at hc
      · simp at hc
      · split at hc
        · simp at hc
        · simp at hc
    | reload fresh =>
      simp only [enter, reloadAcl] at hc
      split at hc <;> simp at hc
    | snapshot => simp [enter, purgeRetained] at hc
    | publishSys entries => exact .routing (publishSys_routing _ _ _ _ _ hc) rfl
    | registerBridge name => exact absurd hc dropped_stores
    | bridgeAddSubscription name filter noLocal => simp [enter, bridgeAddSubscription] at hc
    | injectPublish name m => exact .routing (publishMessage_routing _ _ _ _ _ _ _ hc) rfl
    | deregisterBridge name epoch =>
      simp only [enter, deregisterBridge] at hc
      split at hc
      · split at hc
        · exact absurd hc dropped_stores
        · simp at hc
      · simp at hc
  | task i =>
    cases hsel : w.selected (.task i) with
    | none => simp [step, hin, hsel] at hc
    | some t =>
      simp only [step, hin, hsel, absorb] at hc
      exact runTask_writes (hin ▸ hsel) hc
  | sleep secs => simp [step, hin] at hc
  | recv cid epoch => simp [step, hin] at hc
  | hangup cid epoch => simp [step, hin] at hc

end World

namespace Process
variable {P : Protocol} {st : Start} {db : Db} {is : List Happening} {cid : String}

/-- A step of the run has granted the subscription. -/
def Granted (P : Protocol) (st : Start) (db : Db) (is : List Happening) (cid : String) (rec : SubRecord) : Prop :=
  ∃ is₁ l is₂, is = is₁ ++ .step l :: is₂ ∧ (run P st db is₁).state.Subscribes P l cid rec

/-- The first tables name the owner of the session, or a step of the run has accepted a CONNECT under the identity. -/
def Owner (P : Protocol) (st : Start) (db : Db) (is : List Happening) (cid : String) (owner : Option String) : Prop :=
  (∃ row, db.sessions.lookup cid = some row ∧ row.ownerIdentity = owner) ∨
    ∃ is₁ l is₂, is = is₁ ++ .step l :: is₂ ∧ (run P st db is₁).state.Accepts l cid owner

theorem Granted.concat {rec : SubRecord} (i : Happening) (h : Granted P st db is cid rec) :
    Granted P st db (is ++ [i]) cid rec := by
  obtain ⟨is₁, l, is₂, rfl, hl⟩ := h
  exact ⟨is₁, l, is₂ ++ [i], by simp, hl⟩

theorem Owner.concat {owner : Option String} (i : Happening) (h : Owner P st db is cid owner) :
    Owner P st db (is ++ [i]) cid owner := by
  rcases h with h | ⟨is₁, l, is₂, rfl, hl⟩
  · exact .inl h
  · exact .inr ⟨is₁, l, is₂ ++ [i], by simp, hl⟩

/-- The row a command writes is accounted for. -/
def Accounts (P : Protocol) (st : Start) (db : Db) (is : List Happening) : Command → Prop
  | .upsertSubscription cid rec => Granted P st db is cid rec
  | .upsertSession cid _ owner => Owner P st db is cid owner
  | _ => True

theorem Accounts.concat {c : Command} (i : Happening) (h : Accounts P st db is c) : Accounts P st db (is ++ [i]) c := by
  cases c with
  | upsertSubscription cid rec => exact Granted.concat i h
  | upsertSession cid n owner => exact Owner.concat i h
  | _ => trivial

/-- Everything that names a client is accounted for: in the memory, in the channel, and in the tables. -/
structure Accounted (P : Protocol) (st : Start) (db : Db) (is : List Happening) (p : Process) : Prop where
  sessions : ∀ cid s, p.state.broker.sessions.lookup cid = some s → s.persistent = true → Owner P st db is cid s.identity
  queue : ∀ c ∈ p.queue, Accounts P st db is c
  rows : ∀ cid row, p.store.sessions.lookup cid = some row → Owner P st db is cid row.ownerIdentity
  subscriptions : ∀ cid key row, p.store.subscriptions.lookup (cid, key) = some row →
    db.subscriptions.lookup (cid, key) = some row ∨ ∃ rec, Granted P st db is cid rec ∧ rec.filter = key ∧ rec.toRow = row

theorem Accounted.concat {p : Process} (i : Happening) (h : Accounted P st db is p) : Accounted P st db (is ++ [i]) p where
  sessions cid s hs hp := (h.sessions cid s hs hp).concat i
  queue c hc := (h.queue c hc).concat i
  rows cid row hr := (h.rows cid row hr).concat i
  subscriptions cid key row hr := (h.subscriptions cid key row hr).imp_right fun ⟨rec, hg, hrest⟩ => ⟨rec, hg.concat i, hrest⟩

/-- A statement that is accounted for is performed. -/
theorem Accounted.perform {p : Process} {c : Command} (h : Accounted P st db is p) (hc : Accounts P st db is c) :
    (∀ cid row, (p.store.apply P c).sessions.lookup cid = some row → Owner P st db is cid row.ownerIdentity) ∧
      ∀ cid key row, (p.store.apply P c).subscriptions.lookup (cid, key) = some row →
        db.subscriptions.lookup (cid, key) = some row ∨
          ∃ rec, Granted P st db is cid rec ∧ rec.filter = key ∧ rec.toRow = row := by
  have hrows : ∀ cid, (p.store.apply P c).rows cid = _ := fun cid => Db.rows_apply P p.store c cid
  refine ⟨fun cid row hr => ?_, fun cid key row hr => ?_⟩
  · have hsession : ((p.store.apply P c).rows cid).session = some row := hr
    rw [hrows cid] at hsession
    split at hsession
    · rename_i hclient
      cases c with
      | upsertSession cid' n owner =>
        cases hclient
        cases hsession
        exact hc
      | deleteSession cid' => cases hsession
      | upsertSubscription cid' rec =>
        simp only [Rows.apply] at hsession
        split at hsession <;> exact h.rows cid row hsession
      | _ => exact h.rows cid row hsession
    · exact h.rows cid row hsession
  · have hsub : ((p.store.apply P c).rows cid).subscription key = some row := hr
    rw [hrows cid] at hsub
    split at hsub
    · rename_i hclient
      cases c with
      | upsertSubscription cid' rec =>
        cases hclient
        simp only [Rows.apply] at hsub
        split at hsub
        · simp only [Function.update_apply] at hsub
          split at hsub
          · rename_i hkey
            cases hsub
            exact .inr ⟨rec, hc, hkey.symm, rfl⟩
          · exact h.subscriptions cid key row hsub
        · exact h.subscriptions cid key row hsub
      | deleteSubscription cid' filter =>
        simp only [Rows.apply, Function.update_apply] at hsub
        split at hsub
        · cases hsub
        · exact h.subscriptions cid key row hsub
      | deleteSession | clearSubscriptions => cases hsub
      | _ => exact h.subscriptions cid key row hsub
    · exact h.subscriptions cid key row hsub

/-- A loaded session belongs to whom its row names. -/
theorem Accounted.boot {p : Process} (h : Accounted P st db is p) (c : Start) {s : Session}
    (hs : (World.boot P c.now c.cfg p.store c.acl c.auth).broker.sessions.lookup cid = some s) :
    Owner P st db is cid s.identity := by
  obtain ⟨-, row, hrow, rfl⟩ := World.boot_session hs
  exact h.rows cid row hrow

/-- **Nothing is made up**: in every life, and after every stop, a subscription row was granted to a SUBSCRIBE of its client,
and a session, in the memory or in the tables, belongs to an identity that was accepted under its client id, if they were not
in the tables of the first start. -/
theorem rows_accounted (P : Protocol) (st : Start) (db : Db) (is : List Happening) :
    Accounted P st db is (run P st db is) := by
  induction is using List.reverseRecOn with
  | nil =>
    refine ⟨fun cid s hs _ => ?_, by simp [run, WriteBehind.run, Machine.run, first], fun cid row hr => .inl ⟨row, hr, rfl⟩,
      fun _ _ _ hr => .inl hr⟩
    obtain ⟨-, row, hrow, rfl⟩ := World.boot_session (show (World.boot P st.now st.cfg db st.acl st.auth).broker.sessions.lookup
      cid = some s from hs)
    exact .inl ⟨row, hrow, rfl⟩
  | append_singleton is i ih =>
    have hnext : run P st db (is ++ [i]) = (WriteBehind.step (parts P) (run P st db is) i).1 := by
      rw [run, WriteBehind.run_append]
      rfl
    have hkept := ih.concat i
    rw [hnext]
    cases i with
    | step l =>
      have hcmd : ∀ c ∈ commands (World.step P (run P st db is).state l).2, Accounts P st db (is ++ [.step l]) c := by
        intro c hc
        cases World.step_writes hc with
        | subscription h => exact ⟨is, l, [], rfl, h⟩
        | accepted h => exact .inr ⟨is, l, [], rfl, h⟩
        | owned hs hp => exact hkept.sessions _ _ hs hp
        | other hsub hsession =>
          cases c with
          | upsertSubscription => exact absurd rfl (hsub _ _)
          | upsertSession => exact absurd rfl (hsession _ _ _)
          | _ => trivial
      have hstatements : ∀ c ∈ statements (commands (World.step P (run P st db is).state l).2),
          Accounts P st db (is ++ [.step l]) c := by
        intro c hc
        obtain ⟨c₀, hc₀, hc⟩ := List.mem_flatMap.1 hc
        cases c₀ with
        | deleteSession cid =>
          simp only [Command.statements, List.mem_cons, List.not_mem_nil, or_false] at hc
          rcases hc with rfl | rfl <;> trivial
        | _ =>
          rw [List.mem_singleton.1 hc]
          exact hcmd _ hc₀
      refine ⟨fun cid s' hs' hp' => ?_, fun c hc => ?_, hkept.rows, hkept.subscriptions⟩
      · rcases (World.step_change P (run P st db is).state l).bound hs' with
          ⟨s, hs, hb, -⟩ | ⟨req, hsel, rfl, hb⟩ | ⟨name, -, -, rfl⟩
        · rw [hb.identity]
          exact hkept.sessions cid s hs (hb.persistent ▸ hp')
        · refine .inr ⟨is, l, [], rfl, req, hsel, rfl, ?_⟩
          rw [hb.identity]
          simp only [Broker.boundSession, Broker.reauthorize]
          split <;> rfl
        · cases hp'
      · simp only [WriteBehind.step] at hc
        split at hc
        · rcases List.mem_append.1 hc with hc | hc
          · exact hkept.queue c hc
          · exact hstatements c hc
        · exact hkept.queue c hc
    | write =>
      simp only [WriteBehind.step]
      split
      · exact hkept
      · rename_i c queue hq
        have hrows := hkept.perform (hkept.queue c (by rw [hq]; simp))
        exact ⟨hkept.sessions, fun c' hc' => hkept.queue c' (by rw [hq]; exact List.mem_cons_of_mem _ hc'), hrows.1, hrows.2⟩
    | lost => exact ⟨hkept.sessions, by simp [WriteBehind.step], hkept.rows, hkept.subscriptions⟩
    | restart c =>
      exact ⟨fun cid s hs _ => hkept.boot c hs, by simp [WriteBehind.step], hkept.rows, hkept.subscriptions⟩

end Process

end WispMQ
