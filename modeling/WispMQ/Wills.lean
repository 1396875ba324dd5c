import WispMQ.Expiry
/-!
# Wills

The Will is stored in the session record that successive connections share. A close that still finds its own epoch takes
it out and hands it to a task (lifecycle.rs:64-99), and that task publishes it (lifecycle.rs:121-174). So the Will of a
connection is spent once (`Spent`), and from then on it is in one task or it has been routed (`WillsOk`): it is routed at
most once, for a close with `publish_will` that found its connection in place, and is the Will of that connection's own
CONNECT (`will_once`).
-/

namespace WispMQ
open KeyMap

/-- The Will in a task of `schedule_will`, and the connection it belongs to. -/
def Task.will : Task → Option (String × Nat × Message)
  | .willSleep cid e m _ _ | .willAuthorize cid e m _ | .willPublish cid e m => some (cid, e, m)
  | _ => none

/-- The Will that is retained or routed. -/
def Effect.will : Effect → Option (String × Nat × Message)
  | .retain (.will cid e) m | .routed (.will cid e) m => some (cid, e, m)
  | _ => none

/-- The Will of connection `e` of `cid`. -/
def isWillOf (cid : String) (e : Nat) (will : Option (String × Nat × Message)) : Bool :=
  will.any fun x => x.1 = cid && x.2.1 = e

/-- The Will of connection `e` of `cid` is routed. -/
def Effect.routesWill (cid : String) (e : Nat) : Effect → Bool
  | .routed (.will c e') _ => c = cid && e' = e
  | _ => false

theorem isWillOf_iff {cid : String} {e : Nat} {will : Option (String × Nat × Message)} :
    isWillOf cid e will ↔ ∃ m, will = some (cid, e, m) := by
  constructor
  · intro h
    obtain ⟨⟨c, e', m⟩, rfl, hce⟩ := (Option.any_eq_true _ _).1 h
    obtain ⟨rfl, rfl⟩ : c = cid ∧ e' = e := by simpa using hce
    exact ⟨m, rfl⟩
  · rintro ⟨m, rfl⟩
    simp [isWillOf]

theorem Effect.routesWill_iff {cid : String} {e : Nat} {x : Effect} :
    x.routesWill cid e ↔ ∃ m, x = .routed (.will cid e) m := by
  constructor
  · intro h
    unfold routesWill at h
    split at h
    · rename_i c e' m
      obtain ⟨rfl, rfl⟩ : c = cid ∧ e' = e := by simpa using h
      exact ⟨m, rfl⟩
    · cases h
  · rintro ⟨m, rfl⟩
    simp [routesWill]

theorem Effect.of_will {cid : String} {e : Nat} {m : Message} {x : Effect} (h : x.will = some (cid, e, m)) :
    x = .retain (.will cid e) m ∨ x = .routed (.will cid e) m := by
  unfold Effect.will at h
  split at h
  · cases h
    exact .inl rfl
  · cases h
    exact .inr rfl
  · cases h

/-- The end of a connection that its Will is not for: a Shutdown, or a DISCONNECT that does not ask for it. -/
def Event.endsQuietly : Event → Prop
  | .outgoing (.shutdown _) _ => True
  | .packet (.disconnect d) _ _ => d.reasonCode ≠ .disconnectWithWillMessage
  | _ => False

namespace World
open Broker
variable {P : Protocol} {w : World} {l : Label} {cid : String} {e : Nat} {m : Message} {s : Session} {t : Task}

/-! ## What a step does with Wills -/

/-- The close takes the Will out of the session. -/
def Fires (w : World) (l : Label) (cid : String) (e : Nat) (m : Message) (delay : Nat) : Prop :=
  l.input = .call (.closed cid e true) ∧
    ∃ s, w.broker.sessions.lookup cid = some s ∧ s.epoch = e ∧ s.will = some (m, delay)

/-- **Inversion**: a Will reaches a task from the session, or from the task before. -/
theorem Spawned.will_cases (h : Spawned P w l t) (ht : t.will = some (cid, e, m)) :
    (∃ delay owner, w.Fires l cid e m delay ∧ t = scheduleWill w.clock cid e (m, delay) owner) ∨
      ∃ t₀, w.selected l.input = some t₀ ∧ t₀.will = some (cid, e, m) := by
  cases h with
  | @will c e' s will hin hs he hw =>
    have hce : c = cid ∧ e' = e ∧ will.1 = m := by
      unfold scheduleWill at ht
      split at ht <;> simpa [Task.will] using ht
    obtain ⟨rfl, rfl, rfl⟩ := hce
    exact .inl ⟨will.2, _, ⟨hin, s, hs, he, hw⟩, rfl⟩
  | expiry =>
    unfold scheduleExpiry at ht
    split at ht <;> cases ht
  | wake hsel => exact .inr ⟨_, hsel, ht⟩
  | authorize hsel => exact .inr ⟨_, hsel, ht⟩
  | _ => cases ht

/-- A Will is published by its task. -/
theorem willPublish_of_effect {x : Effect} (h : x ∈ (step P w l).2) (hx : x.will = some (cid, e, m)) :
    w.selected l.input = some (.willPublish cid e m) := by
  have hissues : Issues w l (.will cid e) m → w.selected l.input = some (.willPublish cid e m) := by
    rintro ⟨hsel⟩
    assumption
  rcases Effect.of_will hx with rfl | rfl
  · cases step_emits h with
    | retain hi => exact hissues hi
  · cases step_emits h with
    | routed hi => exact hissues hi

theorem selected_due {i : Input} (h : w.selected i = some t) : t.due ≤ w.clock := by
  cases i with
  | task i =>
    simp only [selected, Option.filter_eq_some_iff] at h
    simpa using h.2
  | _ => cases h

/-! ### How many -/

/-- The tasks a step leaves behind. -/
def newTasks (P : Protocol) (w : World) (l : Label) : List Task :=
  match l.input with
  | .call c => (enter P w.clock l.now l.ord w.broker c).tasks
  | .task i => ((w.selected (.task i)).map fun t => (runTask P l.now l.ord w.broker t).tasks).getD []
  | _ => []

theorem newTasks_of_selected {t : Task} (h : w.selected l.input = some t) :
    newTasks P w l = (runTask P l.now l.ord w.broker t).tasks := by
  cases hin : l.input with
  | task i =>
    rw [hin] at h
    simp [newTasks, hin, h]
  | _ =>
    rw [hin] at h
    cases h

theorem newTasks_spawned (h : t ∈ newTasks P w l) : Spawned P w l t := by
  unfold newTasks at h
  split at h
  · rename_i hin
    exact enter_spawned hin h
  · rename_i i hin
    cases hsel : w.selected (.task i) with
    | none => simp [hsel] at h
    | some t₀ =>
      simp only [hsel, Option.map_some, Option.getD_some] at h
      exact runTask_spawned (hin ▸ hsel) h
  · cases h

/-- The tasks are those of before, without the one that ran, and the new ones. -/
theorem step_countP (P : Protocol) (w : World) (l : Label) (p : Task → Bool) :
    (step P w l).1.tasks.countP p + (w.selected l.input).toList.countP p =
      w.tasks.countP p + (newTasks P w l).countP p := by
  cases hin : l.input with
  | call c => simp [step, hin, absorb, selected, newTasks]
  | task i =>
    cases hsel : w.selected (.task i) with
    | none => simp [step, hin, hsel, newTasks]
    | some t =>
      have hi : w.tasks[i]? = some t := by
        simp only [selected, Option.filter_eq_some_iff] at hsel
        exact hsel.1
      obtain ⟨hlt, rfl⟩ := List.getElem?_eq_some_iff.1 hi
      have hperm := (List.getElem_cons_eraseIdx_perm hlt).countP_eq p
      simp only [step, hin, hsel, absorb, List.countP_append, newTasks, Option.map_some, Option.getD_some,
        Option.toList_some, List.countP_cons, List.countP_nil] at hperm ⊢
      omega
  | sleep secs => simp [step, hin, selected, newTasks]
  | recv c e => simp [step, hin, selected, newTasks]
  | hangup c e => simp [step, hin, selected, newTasks]

/-- A close hands over one Will at most. -/
theorem closed_countP_le {pw : Bool} (hin : l.input = .call (.closed cid e pw)) :
    (newTasks P w l).countP (isWillOf cid e ·.will) ≤ 1 := by
  simp only [newTasks, hin, enter, handleConnectionClosed]
  split
  · simp
  · split
    · rename_i s hs he
      have hexp : isWillOf cid e (scheduleExpiry w.clock cid e s.sessionExpiryInterval).will = false := by
        unfold scheduleExpiry
        split <;> rfl
      simp only [List.countP_append, List.countP_cons, List.countP_nil, hexp]
      refine le_trans (Nat.add_le_add_right List.countP_le_length _) ?_
      split
      · cases s.will <;> simp
      · simp
    · simp

/-- A task of a Will goes on with it, or has routed it. -/
theorem runTask_will_le (ht : t.will = some (cid, e, m)) (now : Nat) (ord : Orders) (b : Broker) :
    (runTask P now ord b t).tasks.length + (runTask P now ord b t).effects.countP (Effect.routesWill cid e) ≤ 1 := by
  cases t with
  | willSleep c e' m' owner due =>
    simp only [runTask, willWake]
    split
    · split <;> simp
    · simp
  | willAuthorize c e' m' owner =>
    simp only [runTask, willAuthorize]
    split <;> simp
  | willPublish c e' m' =>
    have hstore : (b.storeRetained (.will c e') m').2.countP (Effect.routesWill cid e) = 0 := by
      refine List.countP_eq_zero.2 fun x hx => ?_
      cases storeRetained_publishes b _ _ x hx with
      | routed =>
        unfold storeRetained at hx
        split at hx
        · split at hx <;> simp at hx
        · cases hx
      | _ => simp [Effect.routesWill]
    simp only [runTask, willPublish, publishMessage, List.countP_append, hstore, List.length_nil, Nat.zero_add]
    exact List.countP_le_length
  | _ => cases ht

/-- No step but a close adds to the Wills under way. -/
theorem newWills_le (hno : ∀ m delay, ¬w.Fires l cid e m delay) :
    (newTasks P w l).countP (isWillOf cid e ·.will) + (step P w l).2.countP (Effect.routesWill cid e) ≤
      (w.selected l.input).toList.countP (isWillOf cid e ·.will) := by
  by_cases hsel : ∃ t m, w.selected l.input = some t ∧ t.will = some (cid, e, m)
  · obtain ⟨t, m, hsel, ht⟩ := hsel
    have hone := runTask_will_le (P := P) ht l.now l.ord w.broker
    have hle := List.countP_le_length (p := (isWillOf cid e ·.will)) (l := (runTask P l.now l.ord w.broker t).tasks)
    have hrun : [t].countP (isWillOf cid e ·.will) = 1 := by simp [isWillOf_iff.2 ⟨m, ht⟩]
    rw [newTasks_of_selected hsel, (step_of_selected hsel).2, hsel, Option.toList_some, hrun]
    omega
  · have hnew : (newTasks P w l).countP (isWillOf cid e ·.will) = 0 := by
      refine List.countP_eq_zero.2 fun t ht hw => ?_
      obtain ⟨m, hm⟩ := isWillOf_iff.1 hw
      rcases (newTasks_spawned ht).will_cases hm with ⟨delay, -, hf, -⟩ | ⟨t₀, hsel₀, ht₀⟩
      · exact hno m delay hf
      · exact hsel ⟨t₀, m, hsel₀, ht₀⟩
    have hfired : (step P w l).2.countP (Effect.routesWill cid e) = 0 := by
      refine List.countP_eq_zero.2 fun x hx hw => ?_
      obtain ⟨m, rfl⟩ := Effect.routesWill_iff.1 hw
      exact hsel ⟨_, m, willPublish_of_effect hx rfl, rfl⟩
    omega

/-! ## A Will is spent once -/

/-- The connection `e` of `cid` is over, and what is left of its session holds no Will. -/
def Spent (cid : String) (e : Nat) (w : World) : Prop :=
  e < w.broker.nextEpoch ∧ ∀ s, w.broker.sessions.lookup cid = some s → s.epoch = e → s.isOnline = false ∧ s.will = none

theorem step_spent (P : Protocol) (l : Label) (h : w.Spent cid e) : (step P w l).1.Spent cid e := by
  refine ⟨lt_of_lt_of_le h.1 (step_nextEpoch_le P w l), fun s' hs' he => ?_⟩
  -- a connection that is put in place has a later epoch
  have hnew : ¬w.broker.nextEpoch = e := h.1.ne'
  cases step_stems P w l hs' with
  | same hs hc =>
    obtain ⟨hoff, hwill⟩ := h.2 _ hs (hc.epoch ▸ he)
    exact ⟨hc.online.trans hoff, hc.will.trans hwill⟩
  | publish hs hsel hc =>
    obtain ⟨hoff, hwill⟩ := h.2 _ hs (hc.epoch ▸ he)
    exact ⟨hc.online.trans hoff, hc.will.trans hwill⟩
  | closed hs hin hc => exact hc ▸ ⟨rfl, rfl⟩
  | resumed hs hsel hc hclean hres => exact absurd (hres.epoch.symm.trans he) hnew
  | fresh hsel hc hfresh hs =>
    rw [hs] at he
    exact absurd he hnew
  | bridge hin hc hs =>
    rw [hs] at he
    exact absurd he hnew

theorem run_spent (P : Protocol) (h : w.Spent cid e) (ls : List Label) : (run P w ls).1.Spent cid e :=
  Machine.run_preserves (step P) (Spent cid e) (fun _ l h => step_spent P l h) h ls

theorem Fires.spent {delay : Nat} (h : w.Fires l cid e m delay) (hok : w.EpochsOk) : (step P w l).1.Spent cid e := by
  obtain ⟨hin, s, hs, he, -⟩ := h
  have hover : (step P w l).1.Over cid e := closed_over hin (he ▸ hok cid s hs)
  refine ⟨hover.1, fun s' hs' he' => ?_⟩
  simp only [step, hin, absorb, enter, handleConnectionClosed, hs, he, if_true, setSession, AList.lookup_insert,
    Option.some.injEq] at hs'
  exact hs' ▸ ⟨rfl, rfl⟩

theorem Fires.not_spent {delay : Nat} (h : w.Fires l cid e m delay) : ¬w.Spent cid e := by
  obtain ⟨-, s, hs, he, hw⟩ := h
  intro hspent
  have := (hspent.2 s hs he).2
  rw [hw] at this
  cases this

/-- The Will of connection `e` of `cid`, after the effects `es`: once it has left the session, it is in one task or it has
been routed, and not both. -/
structure WillsOk (cid : String) (e : Nat) (w : World) (es : List Effect) : Prop where
  epochs : w.EpochsOk
  once : w.tasks.countP (isWillOf cid e ·.will) + es.countP (Effect.routesWill cid e) ≤ 1
  waiting : ∀ t ∈ w.tasks, isWillOf cid e t.will → w.Spent cid e
  published : ∀ x ∈ es, isWillOf cid e x.will → w.Spent cid e

/-- Of a Will that has not left the session there is no trace. -/
theorem WillsOk.none_of_not_spent {es : List Effect} (h : w.WillsOk cid e es) (hns : ¬w.Spent cid e) :
    w.tasks.countP (isWillOf cid e ·.will) = 0 ∧ es.countP (Effect.routesWill cid e) = 0 := by
  refine ⟨List.countP_eq_zero.2 fun t ht hw => hns (h.waiting t ht hw), List.countP_eq_zero.2 fun x hx hw => ?_⟩
  obtain ⟨m, rfl⟩ := Effect.routesWill_iff.1 hw
  exact hns (h.published _ hx (by simp [isWillOf, Effect.will]))

theorem WillsOk.step {es : List Effect} (P : Protocol) (l : Label) (h : w.WillsOk cid e es) :
    (World.step P w l).1.WillsOk cid e (es ++ (World.step P w l).2) := by
  have hrunning : ∀ {t : Task}, w.selected l.input = some t → isWillOf cid e t.will → (World.step P w l).1.Spent cid e :=
    fun hsel hw => step_spent P l (h.waiting _ (selected_mem hsel) hw)
  refine ⟨step_epochsOk P l h.epochs, ?_, fun t ht hw => ?_, fun x hx hw => ?_⟩
  · have hcount := step_countP P w l (isWillOf cid e ·.will)
    have honce := h.once
    rw [List.countP_append]
    by_cases hf : ∃ m delay, w.Fires l cid e m delay
    · obtain ⟨m, delay, hf⟩ := hf
      obtain ⟨htasks, hes⟩ := h.none_of_not_spent hf.not_spent
      have hnew := closed_countP_le (P := P) (w := w) hf.1
      have hfired : (World.step P w l).2.countP (Effect.routesWill cid e) = 0 := by
        refine List.countP_eq_zero.2 fun x hx hw => ?_
        obtain ⟨m', rfl⟩ := Effect.routesWill_iff.1 hw
        have hsel := willPublish_of_effect hx rfl
        rw [hf.1] at hsel
        cases hsel
      omega
    · rw [not_exists] at hf
      have hnew := newWills_le (P := P) fun m delay hfire => hf m ⟨delay, hfire⟩
      omega
  · rcases step_tasks ht with ht | hspawn
    · exact step_spent P l (h.waiting t ht hw)
    · obtain ⟨m, hm⟩ := isWillOf_iff.1 hw
      rcases hspawn.will_cases hm with ⟨delay, -, hf, -⟩ | ⟨t₀, hsel, ht₀⟩
      · exact hf.spent h.epochs
      · exact hrunning hsel (isWillOf_iff.2 ⟨m, ht₀⟩)
  · rcases List.mem_append.1 hx with hx | hx
    · exact step_spent P l (h.published x hx hw)
    · obtain ⟨m, hm⟩ := isWillOf_iff.1 hw
      exact hrunning (willPublish_of_effect hx hm) (isWillOf_iff.2 ⟨m, rfl⟩)

theorem run_willsOk (P : Protocol) (now : Nat) (cfg : Config) (db : Db) (acl : Acl) (auth : Option Credentials)
    (ls : List Label) (cid : String) (e : Nat) :
    (run P (boot P now cfg db acl auth) ls).1.WillsOk cid e (run P (boot P now cfg db acl auth) ls).2 :=
  Machine.run_invariant (step P) (WillsOk cid e)
    ⟨boot_epochsOk P now cfg db acl auth, by simp [boot], by simp [boot], by simp⟩
    (fun w es l h (_ : True) => h.step P l) ls (.of_forall _ (fun _ _ => trivial) _ _)

/-! ## Where a Will comes from -/

/-- The step accepts the connection `e` of `cid`, whose CONNECT brings the Will `m`. -/
def Stores (w : World) (l : Label) (cid : String) (e : Nat) (m : Message) (delay : Nat) : Prop :=
  ∃ req will, w.selected l.input = some (.connect req) ∧ req.clientId = cid ∧ w.broker.nextEpoch = e ∧
    req.connect.will = some will ∧ m = Message.fromWill l.now will ∧ delay = will.willDelayInterval.getD 0

/-- The Will of a session is the one of the CONNECT that put its connection in place. -/
theorem step_stores {delay : Nat} (hs : (step P w l).1.broker.sessions.lookup cid = some s) (he : s.epoch = e)
    (hw : s.will = some (m, delay)) :
    w.Stores l cid e m delay ∨ ∃ s₀, w.broker.sessions.lookup cid = some s₀ ∧ s₀.epoch = e ∧ s₀.will = some (m, delay) := by
  have hbrings : ∀ {req : ConnectRequest}, w.selected l.input = some (.connect req) → cid = req.clientId →
      w.broker.nextEpoch = e →
      (req.connect.will.map fun x => (Message.fromWill l.now x, x.willDelayInterval.getD 0)) = some (m, delay) →
      w.Stores l cid e m delay := by
    intro req hsel hc hn hwill
    obtain ⟨will, hreq, hm⟩ := Option.map_eq_some_iff.1 hwill
    obtain ⟨rfl, rfl⟩ := Prod.mk.injEq .. ▸ hm
    exact ⟨req, will, hsel, hc.symm, hn, hreq, rfl, rfl⟩
  cases step_stems P w l hs with
  | same hs₀ hc => exact .inr ⟨_, hs₀, hc.epoch ▸ he, hc.will ▸ hw⟩
  | publish hs₀ hsel hc => exact .inr ⟨_, hs₀, hc.epoch ▸ he, hc.will ▸ hw⟩
  | closed hs₀ hin hc =>
    rw [hc] at hw
    cases hw
  | resumed hs₀ hsel hc hclean hres => exact .inl (hbrings hsel hc (hres.epoch.symm.trans he) (hres.will.symm.trans hw))
  | fresh hsel hc hfresh hses =>
    rw [hses] at he hw
    exact .inl (hbrings hsel hc he hw)
  | bridge hin hc hses =>
    rw [hses] at hw
    cases hw

section Run
variable {now : Nat} {cfg : Config} {db : Db} {acl : Acl} {auth : Option Credentials} {ls : List Label}

theorem exists_stores {delay : Nat} (hs : (run P (boot P now cfg db acl auth) ls).1.broker.sessions.lookup cid = some s)
    (he : s.epoch = e) (hw : s.will = some (m, delay)) :
    ∃ pre l post, ls = pre ++ l :: post ∧ (run P (boot P now cfg db acl auth) pre).1.Stores l cid e m delay := by
  induction ls using List.reverseRecOn generalizing s with
  | nil =>
    change (boot P now cfg db acl auth).broker.sessions.lookup cid = some s at hs
    rw [boot_lookup] at hs
    split at hs
    · cases hs
    · obtain ⟨row, -, rfl⟩ := Option.map_eq_some_iff.1 hs
      cases hw
  | append_singleton ls l ih =>
    rw [run_append] at hs
    rcases step_stores hs he hw with hst | ⟨s₀, hs₀, he₀, hw₀⟩
    · exact ⟨ls, l, [], rfl, hst⟩
    · obtain ⟨pre, l', post, rfl, hst⟩ := ih hs₀ he₀ hw₀
      exact ⟨pre, l', post ++ [l], by simp, hst⟩

/-- A waiting Will was taken out of its session by a close. -/
theorem exists_fires (ht : t ∈ (run P (boot P now cfg db acl auth) ls).1.tasks) (hm : t.will = some (cid, e, m)) :
    ∃ pre l post delay, ls = pre ++ l :: post ∧ (run P (boot P now cfg db acl auth) pre).1.Fires l cid e m delay := by
  induction ls using List.reverseRecOn generalizing t with
  | nil => cases ht
  | append_singleton ls l ih =>
    rw [run_append] at ht
    -- the task waited before this step, or another one did
    have hbefore : ∀ {t₀ : Task}, t₀ ∈ (run P (boot P now cfg db acl auth) ls).1.tasks → t₀.will = some (cid, e, m) →
        ∃ pre l' post delay, ls ++ [l] = pre ++ l' :: post ∧
          (run P (boot P now cfg db acl auth) pre).1.Fires l' cid e m delay := by
      intro t₀ ht₀ hm₀
      obtain ⟨pre, l', post, delay, rfl, hf⟩ := ih ht₀ hm₀
      exact ⟨pre, l', post ++ [l], delay, by simp, hf⟩
    rcases step_tasks ht with ht | hspawn
    · exact hbefore ht hm
    · rcases hspawn.will_cases hm with ⟨delay, -, hf, -⟩ | ⟨t₀, hsel, ht₀⟩
      · exact ⟨ls, l, [], delay, rfl, hf⟩
      · exact hbefore (selected_mem hsel) ht₀

/-- **Where a published Will comes from**: the CONNECT of the connection stored it, and a close of the connection with
`publish_will` took it out of the session before. -/
theorem published_will {x : Effect} (hx : x ∈ (run P (boot P now cfg db acl auth) ls).2) (hm : x.will = some (cid, e, m)) :
    ∃ pre conn mid close post l rest delay, ls = pre ++ conn :: (mid ++ close :: (post ++ l :: rest)) ∧
      (run P (boot P now cfg db acl auth) pre).1.Stores conn cid e m delay ∧
      (run P (boot P now cfg db acl auth) (pre ++ conn :: mid)).1.Fires close cid e m delay ∧
      x ∈ (step P (run P (boot P now cfg db acl auth) (pre ++ conn :: (mid ++ close :: post))).1 l).2 := by
  obtain ⟨before, l, rest, rfl, hl⟩ := Machine.exists_emitted (step P) hx
  have hsel := willPublish_of_effect hl hm
  obtain ⟨upto, close, post, delay, rfl, hf⟩ := exists_fires (selected_mem hsel) rfl
  obtain ⟨-, s, hs, he, hw⟩ := id hf
  obtain ⟨pre, conn, mid, rfl, hst⟩ := exists_stores hs he hw
  simp only [List.append_assoc, List.cons_append] at hl ⊢
  exact ⟨pre, conn, mid, close, post, l, rest, delay, rfl, hst, hf, hl⟩

/-- The Will of a connection is spent after the close that took it out. -/
theorem spent_of_fires {pre post : List Label} {delay : Nat}
    (h : (run P (boot P now cfg db acl auth) pre).1.Fires l cid e m delay) :
    (run P (boot P now cfg db acl auth) (pre ++ l :: post)).1.Spent cid e := by
  rw [run_append]
  exact run_spent P (h.spent (run_epochsOk P (boot_epochsOk P now cfg db acl auth) pre)) post

/-- A CONNECT that takes over a live connection leaves its Will unpublished. -/
theorem takenOver_unpublished {pre post : List Label} {a : Accepted} (hls : ls = pre ++ l :: post)
    (ha : .accepted a ∈ (step P (run P (boot P now cfg db acl auth) pre).1 l).2) (hc : a.clientId = cid)
    (hs : (run P (boot P now cfg db acl auth) pre).1.broker.sessions.lookup cid = some s) (he : s.epoch = e)
    (hon : s.isOnline) : ∀ x ∈ (run P (boot P now cfg db acl auth) ls).2, ¬isWillOf cid e x.will := by
  intro x hx hw
  obtain ⟨m, hm⟩ := isWillOf_iff.1 hw
  obtain ⟨pre', conn, mid, close, post', l', rest, delay, hls', -, hf, -⟩ := published_will hx hm
  have hsplit : (pre' ++ conn :: mid) ++ close :: (post' ++ l' :: rest) = pre ++ l :: post := by
    rw [← hls, hls']
    simp
  rcases Machine.compare_splits hsplit with ⟨q, hq⟩ | ⟨hq, rfl⟩ | ⟨q, hq⟩
  · -- the close came first: the session would be offline
    have hspent : (run P (boot P now cfg db acl auth) pre).1.Spent cid e := hq ▸ spent_of_fires hf
    have hoff := (hspent.2 s hs he).1
    rw [hon] at hoff
    cases hoff
  · obtain ⟨req, hsel, -⟩ := step_accepted ha
    rw [hf.1] at hsel
    cases hsel
  · -- it came later: the session is bound to another connection
    have hlt : e < (run P (boot P now cfg db acl auth) pre).1.broker.nextEpoch :=
      he ▸ run_epochsOk P (boot_epochsOk P now cfg db acl auth) pre cid s hs
    have hleft := run_left P (hc ▸ accepted_left ha hlt) q
    obtain ⟨-, s', hs', he', -⟩ := hf
    rw [hq, run_append] at hs'
    exact hleft.2 s' hs' he'

end Run

/-! ## The connection task -/

/-- In the run `ls` from `w`, `handle_packet` returned `action` for the packet `p` of connection `e`, which had been
accepted by then. -/
inductive Answered (P : Protocol) (w : World) (ls : List Label) (cid : String) (e : Nat) (p : Packet) (action : Action) : Prop
  | stale {pre post : List Label} {l : Label} (hls : ls = pre ++ l :: post) (he : e < (run P w pre).1.broker.nextEpoch)
      (hin : l.input = .call (.packet cid e p)) (h : .result cid e action ∈ (step P (run P w pre).1 l).2)
  | handled {pre post : List Label} {l : Label} (hls : ls = pre ++ l :: post) (he : e < (run P w pre).1.broker.nextEpoch)
      (hsel : (run P w pre).1.selected l.input = some (.dispatch cid e p))
      (h : .result cid e action ∈ (step P (run P w pre).1 l).2)
  | expiry {pre post : List Label} {l : Label} {d : Disconnect} {newExpiry : Nat} (hls : ls = pre ++ l :: post)
      (hp : p = .disconnect d) (hd : d.sessionExpiryInterval = some newExpiry)
      (hsel : (run P w pre).1.selected l.input =
        some (.disconnectExpiry cid e newExpiry (d.reasonCode = .disconnectWithWillMessage)))
      (h : .result cid e action ∈ (step P (run P w pre).1 l).2)

/-- The task that serves the connection of `a` has seen the events `es`, and the broker has made the steps `ls`: closes of
the connection are reported by the task, after all its packets have been answered. -/
structure Serves (P : Protocol) (w : World) (ls : List Label) (identity : Option String) (version : ProtocolVersion)
    (a : Accepted) (es : List Event) : Prop where
  waits : Machine.Along (Conn.handle identity version) Conn.Waits .opening es
  accepted : ∃ ok, .accepted a ok ∈ es
  closes : ∀ pre l post publishWill, ls = pre ++ l :: post → l.input = .call (.closed a.clientId a.epoch publishWill) →
    publishWill ∈ closes a.clientId a.epoch (Conn.handleConnection identity version es).2 ∧
      ∀ p action ok, .packet p action ok ∈ es → Answered P w pre a.clientId a.epoch p action

/-- A DISCONNECT is answered with what its reason code says about the Will, or the session has another connection. -/
theorem Answered.disconnect {w : World} {ls : List Label} {d : Disconnect} {action : Action}
    (h : Answered P w ls cid e (.disconnect d) action) :
    action = .clientDisconnect (d.reasonCode = .disconnectWithWillMessage) ∨ (run P w ls).1.Left cid e := by
  cases h with
  | @stale pre post l hls he hin h =>
    refine .inr ?_
    rw [hls, run_append]
    refine run_left P (step_left P l ⟨he, fun s hs hse => ?_⟩) post
    simp [step, hin, absorb, enter, handlePacket, hs, hse] at h
  | @handled pre post l hls he hsel h =>
    rw [(step_of_selected hsel).2, runTask, dispatch, handleClientDisconnect, fenced] at h
    have hother : (∀ s, (run P w pre).1.broker.sessions.lookup cid = some s → s.epoch ≠ e) → (run P w ls).1.Left cid e := by
      intro hne
      rw [hls, run_append]
      exact run_left P (step_left P l ⟨he, hne⟩) post
    split at h
    · rename_i s hs
      split at h
      · split at h
        · simp at h
        · exact .inl (by simpa [answer] using h)
      · rename_i hne
        refine .inr (hother fun s' hs' => ?_)
        rw [hs] at hs'
        cases hs'
        exact hne
    · rename_i hnone
      refine .inr (hother fun s hs => ?_)
      rw [hnone] at hs
      cases hs
  | @expiry pre post l d' n hls hp hd hsel h =>
    cases hp
    rw [(step_of_selected hsel).2, runTask, disconnectExpiry] at h
    split at h
    · exact .inl (by simpa [answer] using h)
    · simp only [List.mem_append, List.mem_singleton, Effect.result.injEq, true_and] at h
      refine .inl (h.resolve_left fun h => ?_)
      split at h <;> simp at h

/-- A task whose connection ends so reports no close with `publish_will` that finds the connection in place. -/
theorem Serves.quiet {w : World} {ls pre post : List Label} {identity : Option String} {version : ProtocolVersion}
    {a : Accepted} {es : List Event} {x : Event} (h : Serves P w ls identity version a es) (hx : x ∈ es)
    (hq : x.endsQuietly) (hls : ls = pre ++ l :: post) (hin : l.input = .call (.closed a.clientId a.epoch true)) :
    (run P w pre).1.Left a.clientId a.epoch := by
  obtain ⟨ok, ha⟩ := h.accepted
  obtain ⟨hclose, hanswers⟩ := h.closes pre l post true hls hin
  have htold : ∀ {r : Bool}, Conn.Waits (.running a.clientId a.epoch) x →
      (Conn.handle identity version (.running a.clientId a.epoch) x).1 = .returned r →
      true ∈ WispMQ.closes a.clientId a.epoch (Conn.handle identity version (.running a.clientId a.epoch) x).2 := by
    intro r hw hr
    rwa [← Conn.handleConnection_closes_of_mem h.waits ha hx hw hr]
  have hleave : ∀ {pw : Bool} {before : List Io}, WispMQ.closes a.clientId a.epoch before = [] →
      true ∈ WispMQ.closes a.clientId a.epoch (Conn.leave a.clientId a.epoch pw before).2 → pw = true := by
    intro pw before hb hmem
    rw [(Conn.leave_closes _ _ _ hb).2] at hmem
    exact (List.mem_singleton.1 hmem).symm
  unfold Event.endsQuietly at hq
  split at hq
  · cases hleave (Conn.closes_sayGoodbye _ _) (htold trivial rfl)
  · rename_i d action wok
    rcases (hanswers _ _ _ hx).disconnect with rfl | hleft
    · have hpw := hleave rfl (htold trivial rfl)
      exact absurd (of_decide_eq_true hpw) hq
    · exact hleft
  · exact hq.elim

/-! ## At most once, and for an abnormal end -/

/-- The Will of connection `e` of `cid` in the run `ls`. -/
structure WillOnce (P : Protocol) (w : World) (ls : List Label) (cid : String) (e : Nat) : Prop where
  once : (run P w ls).2.countP (Effect.routesWill cid e) ≤ 1
  /-- It is the one of the connection's CONNECT, and is published after a close with `publish_will` that found the
  connection in place. -/
  closed : ∀ x ∈ (run P w ls).2, ∀ m, x.will = some (cid, e, m) →
    ∃ pre conn mid close post l rest delay, ls = pre ++ conn :: (mid ++ close :: (post ++ l :: rest)) ∧
      (run P w pre).1.Stores conn cid e m delay ∧ (run P w (pre ++ conn :: mid)).1.Fires close cid e m delay ∧
      x ∈ (step P (run P w (pre ++ conn :: (mid ++ close :: post))).1 l).2
  /-- It is not published if another CONNECT takes the live connection over. -/
  takenOver : ∀ pre l post a s, ls = pre ++ l :: post → .accepted a ∈ (step P (run P w pre).1 l).2 → a.clientId = cid →
    (run P w pre).1.broker.sessions.lookup cid = some s → s.epoch = e → s.isOnline →
    ∀ x ∈ (run P w ls).2, ¬isWillOf cid e x.will
  /-- Nor if the task of the connection has received a Shutdown, or a DISCONNECT that does not ask for it. -/
  quiet : ∀ identity version a es x, a.clientId = cid → a.epoch = e → Serves P w ls identity version a es → x ∈ es →
    x.endsQuietly → ∀ y ∈ (run P w ls).2, ¬isWillOf cid e y.will

/-- **A Will fires at most once, and only for an abnormal end** of its own connection. -/
theorem will_once (P : Protocol) (now : Nat) (cfg : Config) (db : Db) (acl : Acl) (auth : Option Credentials)
    (ls : List Label) (cid : String) (e : Nat) : WillOnce P (boot P now cfg db acl auth) ls cid e where
  once := by
    have h := (run_willsOk P now cfg db acl auth ls cid e).once
    omega
  closed := fun x hx m hm => published_will hx hm
  takenOver := fun pre l post a s hls ha hc hs he hon => takenOver_unpublished hls ha hc hs he hon
  quiet := by
    rintro identity version a es x rfl rfl hserves hx hq y hy hw
    obtain ⟨m, hm⟩ := isWillOf_iff.1 hw
    obtain ⟨pre, conn, mid, close, post, l, rest, delay, hls, -, ⟨hin, s, hs, he, -⟩, -⟩ := published_will hy hm
    have hsplit : ls = (pre ++ conn :: mid) ++ close :: (post ++ l :: rest) := by
      rw [hls]
      simp
    exact (hserves.quiet hx hq hsplit hin).2 s hs he

def farewell : Message := { topic := "t", payload := [1], qos := .atMostOnce, retain := false }

/-- A client whose Will is for the topic `t`. -/
def withWill (delay expiry : Nat) (cleanStart : Bool := true) : Connect :=
  { clientId := "c", cleanStart := cleanStart, sessionExpiryInterval := some expiry,
    will := some { topic := "t", payload := [1], qos := .atMostOnce, retain := false, willDelayInterval := some delay } }

/-- The client says goodbye, and the task of its connection reports the close. -/
def departing : List Label :=
  connecting (withWill 0 60) ++ sending "c" 1 (.disconnect { reasonCode := .success }) ++
    [{ input := .call (.closed "c" 1 false) }]

/-- The CONNACK of connection `e` of `cid`. -/
def welcomes (cid : String) (e : Nat) : Effect → Bool
  | .accepted a => a.clientId = cid && a.epoch = e
  | _ => false

theorem closes_departing (i : Fin departing.length) (publishWill : Bool)
    (hin : departing[i].input = .call (.closed "c" 1 publishWill)) : i.val = 4 ∧ publishWill = false := by
  revert i publishWill
  decide

/-- The task of its connection has seen the CONNECT, the CONNACK written and the DISCONNECT. -/
theorem serves_departing : ∃ a, .accepted a ∈ (run .reference empty departing).2 ∧
    Serves .reference empty departing none .v5 a
      [.first (.connect (withWill 0 60)), .accepted a true,
        .packet (.disconnect { reasonCode := .success }) (.clientDisconnect false) true] := by
  have haccepted : (run .reference empty departing).2.any (welcomes "c" 1) = true := by decide +kernel
  obtain ⟨x, hx, hid⟩ := List.any_eq_true.1 haccepted
  cases x with
  | accepted a =>
    simp only [welcomes, Bool.and_eq_true, decide_eq_true_eq] at hid
    refine ⟨a, hx, ⟨trivial, trivial, trivial, trivial⟩, ⟨true, by simp⟩, fun pre l post publishWill hls hin => ?_⟩
    rw [hid.1, hid.2] at hin ⊢
    have hlt : pre.length < departing.length := by
      rw [hls]
      simp
    have hget : departing[pre.length] = l := by simp [hls]
    obtain ⟨hfour, rfl⟩ := closes_departing ⟨pre.length, hlt⟩ publishWill (by simpa [hget] using hin)
    have hpre : pre = departing.take 4 := by
      have htake : departing.take pre.length = pre := by rw [hls, List.take_left]
      rw [← htake, show pre.length = 4 from hfour]
    constructor
    · simp [Conn.handleConnection, Machine.run, Conn.handle, Conn.sendOrReturn, Conn.leave, WispMQ.closes, hid]
    · intro p action ok hp
      simp only [List.mem_cons, List.not_mem_nil, or_false, reduceCtorEq, false_or, Event.packet.injEq] at hp
      obtain ⟨rfl, rfl, -⟩ := hp
      rw [hpre]
      exact .handled (show departing.take 4 = departing.take 3 ++ { input := .task 0 } :: [] from rfl) (by decide +kernel)
        (by decide +kernel) (by decide +kernel)
  | _ => cases hid

/-- Its connection is lost, and the Will is routed. -/
example : (run .reference empty (connecting (withWill 0 60) ++
    [{ input := .call (.closed "c" 1 true) }, { input := .task 0 }, { input := .task 1 }])).2.countP
      (Effect.routesWill "c" 1) = 1 := by
  decide +kernel

end World

end WispMQ
