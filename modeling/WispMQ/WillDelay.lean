import WispMQ.Wills
/-!
# Delayed Wills

A Will with a delay sleeps in its task, and looks at the session once, when the delay ends (lifecycle.rs:131-140). A
session of a later connection cancels it then (`resumed_unpublished`); if the later connection has come and gone by then,
its session included, nothing tells of it (`resumed_published`).

The task of the Will and the removal of the session do not know of each other (lifecycle.rs:96-118). The Will is published
before its session goes if its delay is shorter than the session's expiry and the timers run in their order
(`will_inTime`); otherwise it can still be asleep when the session is gone (`will_outlives`).
-/

namespace WispMQ
open KeyMap

namespace World
open Broker
variable {P : Protocol} {w : World} {l : Label} {cid : String} {e : Nat} {m : Message} {s : Session} {t : Task}

/-! ## A resume cancels a delayed Will -/

/-- The delay of the Will of connection `e` of `cid` ends, and no session of the client is there to tell of a
reconnection. -/
def wakesAlone (w : World) (l : Label) (cid : String) (e : Nat) : Bool :=
  (w.selected l.input).any (fun
    | .willSleep c e' _ _ _ => c = cid && e' = e
    | _ => false) && (w.broker.sessions.lookup cid).isNone

section Delay
variable {now : Nat} {cfg : Config} {db : Db} {acl : Acl} {auth : Option Credentials} {ls : List Label}

theorem run_clock_le (P : Protocol) : ∀ (ls : List Label) (w : World), w.clock ≤ (run P w ls).1.clock
  | [], _ => le_rfl
  | l :: ls, w => le_trans (step_clock_le P w l) (run_clock_le P ls (step P w l).1)

/-- A Will is taken out of its session once. -/
theorem fires_unique {pre pre' post post' : List Label} {l' : Label} {m' : Message} {delay delay' : Nat}
    (h : pre ++ l :: post = pre' ++ l' :: post')
    (hf : (run P (boot P now cfg db acl auth) pre).1.Fires l cid e m delay)
    (hf' : (run P (boot P now cfg db acl auth) pre').1.Fires l' cid e m' delay') : pre = pre' := by
  rcases Machine.compare_splits h with ⟨q, hq⟩ | ⟨hq, -⟩ | ⟨q, hq⟩
  · exact absurd (hq ▸ spent_of_fires hf) hf'.not_spent
  · exact hq
  · exact absurd (hq ▸ spent_of_fires hf') hf.not_spent

/-- A task that sleeps on a Will does so since the close, for as long as the Will asks. -/
theorem exists_asleep {owner : String} {due : Nat}
    (ht : .willSleep cid e m owner due ∈ (run P (boot P now cfg db acl auth) ls).1.tasks) :
    ∃ pre l post delay, ls = pre ++ l :: post ∧ (run P (boot P now cfg db acl auth) pre).1.Fires l cid e m delay ∧
      due = (run P (boot P now cfg db acl auth) pre).1.clock + delay := by
  obtain ⟨pre, l, post, rfl, hspawn, -⟩ := exists_spawned ht
  rcases hspawn.will_cases rfl with ⟨delay, owner', hf, heq⟩ | ⟨t₀, hsel, ht₀⟩
  · refine ⟨pre, l, post, delay, rfl, hf, ?_⟩
    unfold scheduleWill at heq
    split at heq
    · cases heq
      rfl
    · cases heq
  · -- no task of a Will goes back to sleep
    generalize hsleep : Task.willSleep cid e m owner due = t at hspawn
    cases hspawn with
    | will hin =>
      rw [hin] at hsel
      cases hsel
    | expiry =>
      unfold scheduleExpiry at hsleep
      split at hsleep <;> cases hsleep
    | _ => cases hsleep

/-- A Will that is past its delay had none, or a step ended it that found no reconnection. -/
theorem exists_woken {owner : String}
    (ht : .willAuthorize cid e m owner ∈ (run P (boot P now cfg db acl auth) ls).1.tasks) :
    ∃ pre l post, ls = pre ++ l :: post ∧
      ((run P (boot P now cfg db acl auth) pre).1.Fires l cid e m 0 ∨
        ∃ due, (run P (boot P now cfg db acl auth) pre).1.selected l.input = some (.willSleep cid e m owner due) ∧
          ∀ s, (run P (boot P now cfg db acl auth) pre).1.broker.sessions.lookup cid = some s → s.epoch = e) := by
  obtain ⟨pre, l, post, rfl, hspawn, -⟩ := exists_spawned ht
  refine ⟨pre, l, post, rfl, ?_⟩
  rcases hspawn.will_cases rfl with ⟨delay, owner', hf, heq⟩ | ⟨t₀, hsel, ht₀⟩
  · unfold scheduleWill at heq
    split at heq
    · cases heq
    · rename_i hzero
      obtain rfl : delay = 0 := by simpa using hzero
      exact .inl hf
  · generalize hauth : Task.willAuthorize cid e m owner = t at hspawn
    cases hspawn with
    | wake hsel hgone =>
      cases hauth
      exact .inr ⟨_, hsel, fun s hs => (hgone s hs).1⟩
    | will hin =>
      rw [hin] at hsel
      cases hsel
    | expiry =>
      unfold scheduleExpiry at hauth
      split at hauth <;> cases hauth
    | _ => cases hauth

/-- The policy allows a Will in the section before it is published. -/
theorem Spawned.permitted (h : Spawned P w l (.willPublish cid e m)) :
    ∃ owner, w.selected l.input = some (.willAuthorize cid e m owner) ∧ w.broker.acl.canPublish P owner m.topic := by
  generalize ht : Task.willPublish cid e m = t at h
  cases h with
  | authorize hsel hallowed =>
    cases ht
    exact ⟨_, hsel, hallowed⟩
  | will =>
    unfold scheduleWill at ht
    split at ht <;> cases ht
  | expiry =>
    unfold scheduleExpiry at ht
    split at ht <;> cases ht
  | _ => cases ht

/-- A published Will is past its delay. -/
theorem published_woken {x : Effect} (hx : x ∈ (run P (boot P now cfg db acl auth) ls).2) (hm : x.will = some (cid, e, m)) :
    ∃ pre l post, ls = pre ++ l :: post ∧
      ((run P (boot P now cfg db acl auth) pre).1.Fires l cid e m 0 ∨
        ∃ owner due, (run P (boot P now cfg db acl auth) pre).1.selected l.input = some (.willSleep cid e m owner due) ∧
          ∀ s, (run P (boot P now cfg db acl auth) pre).1.broker.sessions.lookup cid = some s → s.epoch = e) := by
  obtain ⟨before, l, rest, rfl, hl⟩ := Machine.exists_emitted (step P) hx
  have hmem := selected_mem (willPublish_of_effect hl hm)
  obtain ⟨upto, l', rest', rfl, hspawn, -⟩ := exists_spawned hmem
  obtain ⟨owner, hauth, -⟩ := hspawn.permitted
  obtain ⟨pre, l₀, post, rfl, h⟩ := exists_woken (selected_mem hauth)
  refine ⟨pre, l₀, post ++ l' :: (rest' ++ l :: rest), by simp, h.imp_right ?_⟩
  rintro ⟨due, hsel, hgone⟩
  exact ⟨owner, due, hsel, hgone⟩

/-- **A CONNECT cancels a delayed Will**, in every run in which a session of the client is there when the delay ends. -/
theorem resumed_unpublished (P : Protocol) (now : Nat) (cfg : Config) (db : Db) (acl : Acl) (auth : Option Credentials)
    (ls : List Label) (cid : String) (e : Nat)
    (hls : Machine.Along (step P) (fun w l => w.wakesAlone l cid e = false) (boot P now cfg db acl auth) ls)
    (pre : List Label) (close : Label) (mid : List Label) (resume : Label) (post : List Label)
    (hsplit : ls = pre ++ close :: (mid ++ resume :: post)) (m : Message) (delay : Nat) (hdelay : 0 < delay)
    (hclose : (run P (boot P now cfg db acl auth) pre).1.Fires close cid e m delay) (a : Accepted)
    (hresume : .accepted a ∈ (step P (run P (boot P now cfg db acl auth) (pre ++ close :: mid)).1 resume).2)
    (hcid : a.clientId = cid)
    (hearly : (run P (boot P now cfg db acl auth) (pre ++ close :: mid)).1.clock <
      (run P (boot P now cfg db acl auth) pre).1.clock + delay) :
    ∀ x ∈ (run P (boot P now cfg db acl auth) ls).2, ¬isWillOf cid e x.will := by
  intro x hx hw
  obtain ⟨m', hm⟩ := isWillOf_iff.1 hw
  have hsame : ∀ {q r : List Label} {l : Label} {delay' : Nat}, ls = q ++ l :: r →
      (run P (boot P now cfg db acl auth) q).1.Fires l cid e m' delay' → q = pre ∧ delay' = delay := by
    intro q r l delay' hq hf
    obtain rfl := fires_unique (hq.symm.trans hsplit) hf hclose
    obtain ⟨-, s, hs, -, hwill⟩ := hf
    obtain ⟨-, s', hs', -, hwill'⟩ := hclose
    rw [hs] at hs'
    cases hs'
    rw [hwill] at hwill'
    cases hwill'
    exact ⟨rfl, rfl⟩
  obtain ⟨before, l, rest, hbefore, hf | ⟨owner, due, hsel, hgone⟩⟩ := published_woken hx hm
  · obtain ⟨-, rfl⟩ := hsame hbefore hf
    exact absurd hdelay (lt_irrefl 0)
  -- the task has slept since the close, so it wakes after the CONNECT
  obtain ⟨q, l', r, delay', rfl, hf, rfl⟩ := exists_asleep (selected_mem hsel)
  have hasleep : ls = q ++ l' :: (r ++ l :: rest) := by
    rw [hbefore]
    simp
  obtain ⟨rfl, rfl⟩ := hsame hasleep hf
  have hdue := selected_due hsel
  have hpoints : (q ++ l' :: r) ++ l :: rest = (q ++ close :: mid) ++ resume :: post := by
    rw [← hbefore, hsplit]
    simp
  rcases Machine.compare_splits hpoints with ⟨n, hn⟩ | ⟨hn, -⟩ | ⟨n, hn⟩
  · have hle := run_clock_le P (l :: n) (run P (boot P now cfg db acl auth) (q ++ l' :: r)).1
    rw [← run_append, ← hn] at hle
    simp only [Task.due] at hdue
    omega
  · rw [hn] at hdue
    simp only [Task.due] at hdue
    omega
  · -- the session that is there by then is bound to a later connection
    have hlt : e < (run P (boot P now cfg db acl auth) (q ++ close :: mid)).1.broker.nextEpoch := (spent_of_fires hclose).1
    have hleft := run_left P (hcid ▸ accepted_left hresume hlt) n
    have hthere : (run P (boot P now cfg db acl auth) (q ++ l' :: r)).1.wakesAlone l cid e = false :=
      (hbefore ▸ hls).at_split (step P)
    simp only [wakesAlone, hsel, Option.any_some, decide_true, Bool.and_self, Bool.true_and, Option.isNone_eq_false_iff] at hthere
    obtain ⟨s, hs⟩ := Option.isSome_iff_exists.1 hthere
    have he := hgone s hs
    rw [hn, run_append] at hs
    exact hleft.2 s hs he

/-- The connection with a Will is lost. -/
def lost : Label := { input := .call (.closed "c" 1 true) }

/-- The client is back within a second. -/
def backSoon (expiry : Nat) : List Label :=
  [{ input := .sleep 1 }, { input := .call (.connect (withWill 0 expiry false) none) }]

theorem lost_fires : (run .reference empty (connecting (withWill 5 60))).1.Fires lost "c" 1 farewell 5 := by
  have h : ((run .reference empty (connecting (withWill 5 60))).1.broker.sessions.lookup "c").any
      (fun s => s.epoch = 1 && s.will = some (farewell, 5)) := by decide +kernel
  obtain ⟨s, hs, h⟩ := (Option.any_eq_true _ _).1 h
  simp only [Bool.and_eq_true, decide_eq_true_eq] at h
  exact ⟨rfl, s, hs, h.1, h.2⟩

/-- It is told that its session is present. -/
def tellsPresent : Effect → Bool
  | .accepted a => a.clientId = "c" && a.connack.sessionPresent
  | _ => false

theorem exists_tellsPresent {es : List Effect} (h : es.any tellsPresent) :
    ∃ a, .accepted a ∈ es ∧ a.clientId = "c" ∧ a.connack.sessionPresent := by
  obtain ⟨x, hx, h⟩ := List.any_eq_true.1 h
  cases x with
  | accepted a =>
    simp only [tellsPresent, Bool.and_eq_true, decide_eq_true_eq] at h
    exact ⟨a, hx, h.1, h.2⟩
  | _ => cases h

/-- It stays, and when the delay has passed its Will is dropped. -/
theorem resumed_unpublished_stays :
    (run .reference empty (connecting (withWill 5 60))).1.Fires lost "c" 1 farewell 5 ∧
    ∀ x ∈ (run .reference empty (connecting (withWill 5 60) ++ lost ::
      (backSoon 60 ++ { input := .task 2 } :: [{ input := .sleep 5 }, { input := .task 0 }]))).2, ¬isWillOf "c" 1 x.will := by
  have hback : (step .reference (run .reference empty (connecting (withWill 5 60) ++ lost :: backSoon 60)).1
      { input := .task 2 }).2.any tellsPresent := by decide +kernel
  obtain ⟨a, ha, hc, -⟩ := exists_tellsPresent hback
  exact ⟨lost_fires, resumed_unpublished .reference 0 {} {} .permitAll none _ "c" 1 (by decide +kernel)
    (connecting (withWill 5 60)) lost (backSoon 60) { input := .task 2 } _ rfl farewell 5 (by decide) lost_fires a ha hc
    (by decide +kernel)⟩

/-- It leaves again, its session ends with its connection, and the delay passes. -/
def leavesAgain : List Label :=
  [{ input := .call (.closed "c" 2 false) }, { input := .task 2 }, { input := .sleep 5 }, { input := .task 0 },
    { input := .task 1 }, { input := .task 1 }]

/-- The client has resumed its session in time, and its Will is routed all the same. -/
theorem resumed_published :
    (run .reference empty (connecting (withWill 5 60))).1.Fires lost "c" 1 farewell 5 ∧
    (∃ a, .accepted a ∈ (step .reference (run .reference empty (connecting (withWill 5 60) ++ lost :: backSoon 0)).1
      { input := .task 2 }).2 ∧ a.clientId = "c" ∧ a.connack.sessionPresent) ∧
    (run .reference empty (connecting (withWill 5 60) ++ lost :: backSoon 0)).1.clock <
      (run .reference empty (connecting (withWill 5 60))).1.clock + 5 ∧
    .routed (.will "c" 1) farewell ∈ (run .reference empty (connecting (withWill 5 60) ++ lost ::
      (backSoon 0 ++ { input := .task 2 } :: leavesAgain))).2 :=
  ⟨lost_fires, exists_tellsPresent (by decide +kernel), by decide +kernel, by decide +kernel⟩

end Delay

/-! ## A Will and the end of its session -/

/-- A step that leaves a Will the time to be published before its session goes. A close reports a connection that is in
place, and a Will whose delay is shorter than the session's expiry; of one connection, the timer that is due later runs
later; and a session whose Will waits is not dropped for a clean start. -/
def timely (w : World) (l : Label) : Bool :=
  match l.input with
  | .call (.closed cid e publishWill) => (w.broker.sessions.lookup cid).all fun s =>
      s.epoch ≠ e || (s.isOnline && (!publishWill || s.will.all fun will => will.2 < s.sessionExpiryInterval))
  | i =>
    match w.selected i with
    | some (.expiry cid e due) => w.tasks.all fun t => !isWillOf cid e t.will || due ≤ t.due
    | some (.connect req) =>
      !req.connect.cleanStart || (w.broker.sessions.lookup req.clientId).all fun s =>
        w.tasks.all fun t => !isWillOf req.clientId s.epoch t.will
    | _ => true

theorem timely_closed {pw : Bool} (h : w.timely l) (hin : l.input = .call (.closed cid e pw))
    (hs : w.broker.sessions.lookup cid = some s) (he : s.epoch = e) :
    s.isOnline ∧ (pw → ∀ will, s.will = some will → will.2 < s.sessionExpiryInterval) := by
  simp only [timely, hin, hs, Option.all_some, he, ne_eq, not_true, decide_false, Bool.false_or, Bool.and_eq_true,
    Bool.or_eq_true, Bool.not_eq_true'] at h
  refine ⟨h.1, fun hpw will hw => ?_⟩
  have := h.2.resolve_left (by simp [hpw])
  simpa [hw] using this

theorem timely_expiry {due : Nat} (h : w.timely l) (hsel : w.selected l.input = some (.expiry cid e due)) (ht : t ∈ w.tasks)
    (hw : isWillOf cid e t.will) : due ≤ t.due := by
  unfold timely at h
  split at h
  · rename_i hin
    rw [hin] at hsel
    cases hsel
  · simp only [hsel, List.all_eq_true] at h
    simpa [hw] using h t ht

theorem timely_connect {req : ConnectRequest} (h : w.timely l) (hsel : w.selected l.input = some (.connect req))
    (hclean : req.connect.cleanStart = true) (hs : w.broker.sessions.lookup req.clientId = some s) (ht : t ∈ w.tasks) :
    ¬isWillOf req.clientId s.epoch t.will := by
  unfold timely at h
  split at h
  · rename_i hin
    rw [hin] at hsel
    cases hsel
  · simp only [hsel, hclean, Bool.not_true, Bool.false_or, hs, Option.all_some, List.all_eq_true] at h
    simpa using h t ht

/-- A later CONNECT of the client has resumed its session. -/
def Resumed (cid : String) (e : Nat) (es : List Effect) : Prop :=
  ∃ a, .accepted a ∈ es ∧ a.clientId = cid ∧ e < a.epoch ∧ a.connack.sessionPresent

theorem Resumed.append {es es' : List Effect} (h : Resumed cid e es) : Resumed cid e (es ++ es') := by
  obtain ⟨a, ha, h⟩ := h
  exact ⟨a, List.mem_append_left _ ha, h⟩

/-- The session of `cid` goes, or is dropped for a clean start. -/
def Removes (P : Protocol) (w : World) (l : Label) (cid : String) : Prop :=
  (step P w l).1.broker.sessions.lookup cid = none ∨
    ∃ req, w.selected l.input = some (.connect req) ∧ req.clientId = cid ∧ req.connect.cleanStart = true

/-- A takeover of the session tells that it was present. -/
theorem resumed_of_selected {req : ConnectRequest} {s : Session} (hsel : w.selected l.input = some (.connect req))
    (hclean : req.connect.cleanStart = false) (hs : w.broker.sessions.lookup req.clientId = some s)
    (he : e < w.broker.nextEpoch) : Resumed req.clientId e (step P w l).2 := by
  refine ⟨_, accepts_of_connect hsel, rfl, he, ?_⟩
  simp [connack, claimed, hclean, hs]

/-- While the Will of connection `e` of `cid` waits, its session is there or has been resumed, and the session's removal
is a timer that is due after the Will. -/
structure WillsKept (cid : String) (e : Nat) (w : World) (es : List Effect) : Prop where
  ok : w.WillsOk cid e es
  ended : ∀ t ∈ w.tasks, Task.removes cid e t → w.Over cid e
  there : ∀ t ∈ w.tasks, isWillOf cid e t.will →
    (∃ s, w.broker.sessions.lookup cid = some s ∧ s.epoch = e) ∨ Resumed cid e es
  later : ∀ t ∈ w.tasks, isWillOf cid e t.will → ∀ t' ∈ w.tasks, Task.removes cid e t' →
    ∃ due, t' = .expiry cid e due ∧ t.due < due

/-- A session whose Will waits is not removed. -/
theorem WillsKept.not_removes {es : List Effect} (h : w.WillsKept cid e es) (hcid : reservedClientId cid = false)
    (ht : t ∈ w.tasks) (hw : isWillOf cid e t.will) (hs : w.broker.sessions.lookup cid = some s) (he : s.epoch = e)
    (hl : w.timely l) : ¬Removes P w l cid := by
  rintro (hgone | ⟨req, hsel, rfl, hclean⟩)
  · rw [← fleet_session] at hgone
    rcases (step_change P w l).gone hs hgone with ⟨t', hsel, hrem⟩ | hres
    · rw [he] at hrem
      obtain ⟨due, rfl, hlt⟩ := h.later t ht hw t' (selected_mem hsel) hrem
      have := timely_expiry hl hsel ht hw
      omega
    · rw [hcid] at hres
      cases hres
  · exact timely_connect hl hsel hclean hs ht (he ▸ hw)

/-- The removal tasks of a connection come from its close, and while its Will waits there is no further one. -/
theorem WillsKept.step_removes {es : List Effect} {t' : Task} (h : w.WillsKept cid e es) (ht : t ∈ w.tasks)
    (hw : isWillOf cid e t.will) (hl : w.timely l) (ht' : t' ∈ (step P w l).1.tasks) (hrem : Task.removes cid e t') :
    t' ∈ w.tasks := by
  refine (step_tasks ht').resolve_right fun hspawn => ?_
  obtain ⟨s, pw, hin, hs, he, -⟩ := hspawn.removes hrem
  have hon := (timely_closed hl hin hs he).1
  rw [((h.ok.waiting t ht hw).2 s hs he).1] at hon
  cases hon

/-- The close that hands the Will over: it is the first to leave anything behind. -/
theorem WillsKept.fires {es : List Effect} {delay : Nat} (h : w.WillsKept cid e es) (hf : w.Fires l cid e m delay)
    (hl : w.timely l) :
    (∃ s, (step P w l).1.broker.sessions.lookup cid = some s ∧ s.epoch = e) ∧
      ∀ t ∈ (step P w l).1.tasks, isWillOf cid e t.will → ∀ t' ∈ (step P w l).1.tasks, Task.removes cid e t' →
        ∃ due, t' = .expiry cid e due ∧ t.due < due := by
  obtain ⟨hin, s, hs, he, hwill⟩ := id hf
  obtain ⟨hon, hshort⟩ := timely_closed hl hin hs he
  have hshort : delay < s.sessionExpiryInterval := hshort rfl (m, delay) hwill
  refine ⟨⟨closedSession s, by simp [step, hin, absorb, enter, handleConnectionClosed, hs, he, setSession], he⟩, ?_⟩
  intro t ht hw t' ht' hrem
  have hnot : t' ∉ w.tasks := fun hmem => by
    have hout := (h.ended t' hmem hrem).2 s hs he
    simp [Session.isOnline, hout] at hon
  obtain ⟨s', pw, -, hs', -, rfl⟩ := ((step_tasks ht').resolve_left hnot).removes hrem
  rw [hs] at hs'
  cases hs'
  have hwaits : t ∉ w.tasks := fun hmem => hf.not_spent (h.ok.waiting t hmem hw)
  obtain ⟨m', hm'⟩ := isWillOf_iff.1 hw
  rcases ((step_tasks ht).resolve_left hwaits).will_cases hm' with ⟨delay', owner, ⟨-, s', hs', -, hwill'⟩, rfl⟩ | ⟨t₀, hsel, -⟩
  · rw [hs] at hs'
    cases hs'
    rw [hwill] at hwill'
    cases hwill'
    refine ⟨w.clock + s.sessionExpiryInterval, ?_, ?_⟩
    · rw [scheduleExpiry, if_neg (by omega)]
    · unfold scheduleWill
      split
      · simp only [Task.due]
        omega
      · simp only [Task.due]
        omega
  · rw [hin] at hsel
    cases hsel

/-- A Will that waits after a step that hands none over waited before, in a task that was due no earlier. -/
theorem waited_before (hf : ¬∃ m delay, w.Fires l cid e m delay) (ht : t ∈ (step P w l).1.tasks)
    (hw : isWillOf cid e t.will) : ∃ t₀ ∈ w.tasks, isWillOf cid e t₀.will ∧ t.due ≤ t₀.due := by
  obtain ⟨m, hm⟩ := isWillOf_iff.1 hw
  rcases step_tasks ht with ht | hspawn
  · exact ⟨t, ht, hw, le_rfl⟩
  · rcases hspawn.will_cases hm with ⟨delay, -, hfire, -⟩ | ⟨t₀, hsel, ht₀⟩
    · exact absurd ⟨m, delay, hfire⟩ hf
    · refine ⟨t₀, selected_mem hsel, isWillOf_iff.2 ⟨m, ht₀⟩, ?_⟩
      have hdue : t.due = 0 := by
        cases hspawn with
        | will hin =>
          rw [hin] at hsel
          cases hsel
        | expiry hin =>
          rw [hin] at hsel
          cases hsel
        | _ => rfl
      omega

/-- While a Will waits its session stays, under its epoch, until a CONNECT resumes it. -/
theorem WillsKept.stays {es : List Effect} (h : w.WillsKept cid e es) (hres : reservedClientId cid = false) (ht : t ∈ w.tasks)
    (hw : isWillOf cid e t.will) (hs : w.broker.sessions.lookup cid = some s) (he : s.epoch = e) (hl : w.timely l) :
    (∃ s', (World.step P w l).1.broker.sessions.lookup cid = some s' ∧ s'.epoch = e) ∨
      Resumed cid e (World.step P w l).2 := by
  have hkept := h.not_removes (P := P) hres ht hw hs he hl
  cases hs' : (World.step P w l).1.broker.sessions.lookup cid with
  | none => exact absurd (.inl hs') hkept
  | some s' =>
    cases step_stems P w l hs' with
    | same hs₀ hc =>
      rw [hs] at hs₀
      cases hs₀
      exact .inl ⟨s', rfl, hc.epoch.trans he⟩
    | publish hs₀ hsel hc =>
      rw [hs] at hs₀
      cases hs₀
      exact .inl ⟨s', rfl, hc.epoch.trans he⟩
    | closed hs₀ hin hc =>
      rw [hs] at hs₀
      cases hs₀
      exact .inl ⟨s', rfl, hc ▸ he⟩
    | resumed hs₀ hsel hc hclean =>
      subst hc
      exact .inr (resumed_of_selected hsel hclean hs₀ (h.ok.waiting t ht hw).1)
    | fresh hsel hc hnew =>
      rcases hnew with hclean | hnone
      · exact absurd (.inr ⟨_, hsel, hc.symm, hclean⟩) hkept
      · rw [hs] at hnone
        cases hnone
    | bridge hin hc => exact absurd hc (ne_bridgeClient hres _)

theorem WillsKept.step {es : List Effect} (P : Protocol) (h : w.WillsKept cid e es)
    (hcid : ∀ t ∈ w.tasks, isWillOf cid e t.will → reservedClientId cid = false) (hl : w.timely l) :
    (World.step P w l).1.WillsKept cid e (es ++ (World.step P w l).2) := by
  have hover : ∀ t ∈ (World.step P w l).1.tasks, Task.removes cid e t → (World.step P w l).1.Over cid e := by
    intro t ht hrem
    rcases step_tasks ht with ht | hspawn
    · exact step_over P l (h.ended t ht hrem)
    · obtain ⟨s, pw, hin, hs, he, -⟩ := hspawn.removes hrem
      exact closed_over hin (he ▸ h.ok.epochs cid s hs)
  by_cases hf : ∃ m delay, w.Fires l cid e m delay
  · obtain ⟨m, delay, hf⟩ := hf
    obtain ⟨hthere, hlater⟩ := h.fires (P := P) hf hl
    exact ⟨h.ok.step P l, hover, fun _ _ _ => .inl hthere, hlater⟩
  refine ⟨h.ok.step P l, hover, fun t ht hw => ?_, fun t ht hw t' ht' hrem => ?_⟩
  · obtain ⟨t₀, ht₀, hw₀, -⟩ := waited_before hf ht hw
    rcases h.there t₀ ht₀ hw₀ with ⟨s, hs, he⟩ | hresumed
    · rcases h.stays (P := P) (hcid t₀ ht₀ hw₀) ht₀ hw₀ hs he hl with hstays | ⟨a, ha, hresumes⟩
      · exact .inl hstays
      · exact .inr ⟨a, List.mem_append_right _ ha, hresumes⟩
    · exact .inr hresumed.append
  · obtain ⟨t₀, ht₀, hw₀, hle⟩ := waited_before hf ht hw
    obtain ⟨due, rfl, hlt⟩ := h.later t₀ ht₀ hw₀ t' (h.step_removes ht₀ hw₀ hl ht' hrem) hrem
    exact ⟨due, rfl, by omega⟩

theorem run_concat (P : Protocol) (w : World) (ls : List Label) (l : Label) :
    run P w (ls ++ [l]) = ((step P (run P w ls).1 l).1, (run P w ls).2 ++ (step P (run P w ls).1 l).2) := by
  rw [run, Machine.run_append]
  simp [Machine.run, run]

section Timely
variable {now : Nat} {cfg : Config} {db : Db} {acl : Acl} {auth : Option Credentials} {ls : List Label}

/-- Wills are those of clients. -/
theorem will_client (ht : t ∈ (run P (boot P now cfg db acl auth) ls).1.tasks) (hw : isWillOf cid e t.will) :
    reservedClientId cid = false := by
  obtain ⟨m, hm⟩ := isWillOf_iff.1 hw
  obtain ⟨pre, l, post, delay, -, -, s, hs, he, hwill⟩ := exists_fires ht hm
  obtain ⟨pre, l, post, -, req, will, hsel, rfl, -⟩ := exists_stores hs he hwill
  exact (run_connect hsel).2

theorem run_willsKept (hls : Machine.Along (step P) (fun w l => w.timely l = true) (boot P now cfg db acl auth) ls)
    (cid : String) (e : Nat) :
    (run P (boot P now cfg db acl auth) ls).1.WillsKept cid e (run P (boot P now cfg db acl auth) ls).2 := by
  induction ls using List.reverseRecOn with
  | nil =>
    have hnone : ∀ t, t ∉ (run P (boot P now cfg db acl auth) []).1.tasks := fun _ => List.not_mem_nil
    exact ⟨run_willsOk P now cfg db acl auth [] cid e, fun t ht => absurd ht (hnone t), fun t ht => absurd ht (hnone t),
      fun t ht => absurd ht (hnone t)⟩
  | append_singleton ls l ih =>
    rw [run_concat]
    exact (ih (hls.of_append (step P))).step P (fun t ht => will_client ht) (hls.at_split (step P))

/-- The Will was dropped because its owner may not publish it any more. -/
def Refused (P : Protocol) (w : World) (ls : List Label) (cid : String) (e : Nat) (m : Message) : Prop :=
  ∃ pre l post owner, ls = pre ++ l :: post ∧
    (run P w pre).1.selected l.input = some (.willAuthorize cid e m owner) ∧
    (run P w pre).1.broker.acl.canPublish P owner m.topic = false

theorem mem_step_of_runTask {t' : Task} (hsel : w.selected l.input = some t)
    (ht' : t' ∈ (runTask P l.now l.ord w.broker t).tasks) : t' ∈ (step P w l).1.tasks := by
  cases hin : l.input with
  | task i =>
    rw [hin] at hsel
    simp only [step, hin, hsel, absorb]
    exact List.mem_append_right _ ht'
  | _ =>
    rw [hin] at hsel
    cases hsel

/-- What comes of a Will that was handed over. -/
def Accounted (P : Protocol) (w : World) (ls : List Label) (cid : String) (e : Nat) (m : Message) : Prop :=
  (∃ t ∈ (run P w ls).1.tasks, t.will = some (cid, e, m)) ∨ .routed (.will cid e) m ∈ (run P w ls).2 ∨
    Refused P w ls cid e m ∨ Resumed cid e (run P w ls).2

/-- The task of the Will runs. -/
theorem accounted_of_selected (hls : Machine.Along (step P) (fun w l => w.timely l = true) (boot P now cfg db acl auth) ls)
    (hsel : (run P (boot P now cfg db acl auth) ls).1.selected l.input = some t) (hm : t.will = some (cid, e, m)) :
    Accounted P (boot P now cfg db acl auth) (ls ++ [l]) cid e m := by
  have hkept := run_willsKept hls cid e
  have hwait := isWillOf_iff.2 ⟨m, hm⟩
  rw [Accounted, run_concat]
  have hnext : ∀ t' : Task, t' ∈ (runTask P l.now l.ord (run P (boot P now cfg db acl auth) ls).1.broker t).tasks →
      t'.will = some (cid, e, m) →
      ∃ t ∈ (step P (run P (boot P now cfg db acl auth) ls).1 l).1.tasks, t.will = some (cid, e, m) :=
    fun _ ht' hm' => ⟨_, mem_step_of_runTask hsel ht', hm'⟩
  cases t with
  | willSleep c e' m' owner due =>
    cases hm
    cases hs : (run P (boot P now cfg db acl auth) ls).1.broker.sessions.lookup cid with
    | none => exact .inl (hnext (.willAuthorize cid e m owner) (by simp [runTask, willWake, hs]) rfl)
    | some s =>
      by_cases hback : s.epoch ≠ e ∨ s.isOnline
      · -- the session has another connection: it was resumed
        rcases hkept.there _ (selected_mem hsel) hwait with ⟨s', hs', he⟩ | hresumed
        · rw [hs] at hs'
          cases hs'
          have hoff := ((hkept.ok.waiting _ (selected_mem hsel) hwait).2 s hs he).1
          rcases hback with hne | hon
          · exact absurd he hne
          · rw [hon] at hoff
            cases hoff
        · exact .inr (.inr (.inr hresumed.append))
      · rw [not_or, not_not, Bool.not_eq_true] at hback
        exact .inl (hnext (.willAuthorize cid e m owner) (by simp [runTask, willWake, hs, hback]) rfl)
  | willAuthorize c e' m' owner =>
    cases hm
    cases hcan : (run P (boot P now cfg db acl auth) ls).1.broker.acl.canPublish P owner m.topic with
    | false => exact .inr (.inr (.inl ⟨ls, l, [], owner, rfl, hsel, hcan⟩))
    | true => exact .inl (hnext (.willPublish cid e m) (by simp [runTask, willAuthorize, hcan]) rfl)
  | willPublish c e' m' =>
    cases hm
    refine .inr (.inl (List.mem_append_right _ ?_))
    rw [(step_of_selected hsel).2]
    exact List.mem_append_right _ (List.mem_singleton_self _)
  | _ => cases hm

theorem accounted_of_fires {pre post : List Label} {delay : Nat}
    (hls : Machine.Along (step P) (fun w l => w.timely l = true) (boot P now cfg db acl auth) (pre ++ l :: post))
    (hf : (run P (boot P now cfg db acl auth) pre).1.Fires l cid e m delay) :
    Accounted P (boot P now cfg db acl auth) (pre ++ l :: post) cid e m := by
  induction post using List.reverseRecOn with
  | nil =>
    obtain ⟨hin, s, hs, he, hwill⟩ := hf
    refine .inl ⟨scheduleWill (run P (boot P now cfg db acl auth) pre).1.clock cid e (m, delay) (who s.identity), ?_, ?_⟩
    · rw [run_concat]
      simp [step, hin, absorb, enter, handleConnectionClosed, hs, he, hwill]
    · unfold scheduleWill
      split <;> rfl
  | append_singleton post l' ih =>
    have hsplit : pre ++ l :: (post ++ [l']) = (pre ++ l :: post) ++ [l'] := by simp
    rw [hsplit] at hls ⊢
    have hup := hls.of_append (step P)
    rcases ih hup with ⟨t, ht, hm⟩ | hrouted | ⟨p, x, q, owner, hp, href⟩ | hresumed
    · by_cases hsel : (run P (boot P now cfg db acl auth) (pre ++ l :: post)).1.selected l'.input = some t
      · exact accounted_of_selected hup hsel hm
      · rw [Accounted, run_concat]
        exact .inl ⟨t, mem_step_tasks ht hsel, hm⟩
    · rw [Accounted, run_concat]
      exact .inr (.inl (List.mem_append_left _ hrouted))
    · exact .inr (.inr (.inl ⟨p, x, q ++ [l'], owner, by simp [hp], href⟩))
    · rw [Accounted, run_concat]
      exact .inr (.inr (.inr hresumed.append))

/-- After a resume the session has another connection. -/
theorem Resumed.left (h : Resumed cid e (run P (boot P now cfg db acl auth) ls).2) :
    (run P (boot P now cfg db acl auth) ls).1.Left cid e := by
  obtain ⟨a, ha, hc, he, -⟩ := h
  obtain ⟨pre, l, post, rfl, hl⟩ := Machine.exists_emitted (step P) ha
  obtain ⟨req, hsel, rfl⟩ := step_accepted hl
  rw [run_append]
  exact run_left P (hc ▸ accepted_left hl he) post

end Timely

/-- The Will of connection `e` of `cid` and its session, in the run `ls`. -/
structure WillInTime (P : Protocol) (w : World) (ls : List Label) (cid : String) (e : Nat) : Prop where
  /-- While it waits, the session is there, or has been resumed. -/
  there : ∀ t ∈ (run P w ls).1.tasks, isWillOf cid e t.will →
    (∃ s, (run P w ls).1.broker.sessions.lookup cid = some s ∧ s.epoch = e) ∨ Resumed cid e (run P w ls).2
  /-- When the session is removed, it has been published, unless its owner has lost the right to. -/
  published : ∀ pre close mid l post m delay s, ls = pre ++ close :: (mid ++ l :: post) →
    (run P w pre).1.Fires close cid e m delay →
    (run P w (pre ++ close :: mid)).1.broker.sessions.lookup cid = some s → s.epoch = e →
    Removes P (run P w (pre ++ close :: mid)).1 l cid →
    .routed (.will cid e) m ∈ (run P w (pre ++ close :: mid)).2 ∨ Refused P w (pre ++ close :: mid) cid e m

/-- **A Will does not outlive its session**, in every run whose steps are timely. -/
theorem will_inTime (P : Protocol) (now : Nat) (cfg : Config) (db : Db) (acl : Acl) (auth : Option Credentials)
    (ls : List Label) (hls : Machine.Along (step P) (fun w l => w.timely l = true) (boot P now cfg db acl auth) ls)
    (cid : String) (e : Nat) : WillInTime P (boot P now cfg db acl auth) ls cid e where
  there := (run_willsKept hls cid e).there
  published := by
    intro pre close mid l post m delay s hsplit hf hs he hrem
    have hsplit' : ls = (pre ++ close :: mid) ++ l :: post := by
      rw [hsplit]
      simp
    have hup : Machine.Along (step P) (fun w l => w.timely l = true) (boot P now cfg db acl auth) (pre ++ close :: mid) :=
      (hsplit' ▸ hls).of_append (step P)
    rcases accounted_of_fires hup hf with ⟨t, ht, hm⟩ | hrouted | href | hresumed
    · have hw := isWillOf_iff.2 ⟨m, hm⟩
      exact absurd hrem ((run_willsKept hup cid e).not_removes (will_client ht hw) ht hw hs he
        ((hsplit' ▸ hls).at_split (step P)))
    · exact .inl hrouted
    · exact .inr href
    · exact absurd he (hresumed.left.2 s hs)

/-- The Will is published after five seconds, and the session ends after a minute. -/
theorem will_inTime_minute :
    WillInTime .reference empty (connecting (withWill 5 60) ++ lost ::
      [{ input := .sleep 5 }, { input := .task 0 }, { input := .task 1 }, { input := .task 1 }, { input := .sleep 55 },
        { input := .task 0 }]) "c" 1 :=
  will_inTime .reference 0 {} {} .permitAll none _ (by decide +kernel) "c" 1

/-- The session ends with the connection, and its Will still sleeps. -/
theorem will_outlives :
    let r := run .reference empty (connecting (withWill 5 0) ++ [lost, { input := .task 1 }])
    r.1.broker.sessions.lookup "c" = none ∧ r.1.tasks.any (isWillOf "c" 1 ·.will) ∧
      r.2.countP (fun | .accepted _ => true | _ => false) = 1 := by
  decide +kernel

end World

end WispMQ
