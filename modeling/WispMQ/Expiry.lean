import WispMQ.Server
import WispMQ.Fence
import WispMQ.Untouched
import WispMQ.Connection
/-!
# Session expiry

`handle_connection_closed` ends with the removal of the session, at once or by a timer (lifecycle.rs:102-118). Both look
at the epoch again before they remove, and epochs are never reused: a session that is removed by one of them has been
offline since the close that led to it (`removed_offline_since`).

Every offline session that a client has connected to has its timer (`offline_expires`). The sessions `Broker::new` loads
are offline too, and have none (`loaded_never_expires`).
-/

namespace WispMQ
open KeyMap

namespace World
open Broker
variable {P : Protocol} {w : World} {l : Label} {cid : String} {e : Nat} {s s' : Session} {t : Task}

/-! ## Tasks along a run -/

theorem step_clock_le (P : Protocol) (w : World) (l : Label) : w.clock ≤ (step P w l).1.clock := by
  cases hin : l.input with
  | sleep secs => simp [step, hin]
  | task i =>
    simp only [step, hin]
    split <;> exact le_rfl
  | _ => simp [step, hin, absorb]

/-- A waiting task was spawned by some step and has waited since. -/
theorem exists_spawned {now : Nat} {cfg : Config} {db : Db} {acl : Acl} {auth : Option Credentials} {ls : List Label}
    (h : t ∈ (run P (boot P now cfg db acl auth) ls).1.tasks) :
    ∃ pre l post, ls = pre ++ l :: post ∧ Spawned P (run P (boot P now cfg db acl auth) pre).1 l t ∧
      ∀ q r, post = q ++ r → t ∈ (run P (step P (run P (boot P now cfg db acl auth) pre).1 l).1 q).1.tasks := by
  rcases Machine.exists_onset (step P) (fun w => t ∈ w.tasks) ls _ h with hall | ⟨pre, l, post, rfl, hnot, hall⟩
  · exact absurd (hall [] ls rfl) (by simp [Machine.run, boot])
  · refine ⟨pre, l, post, rfl, ?_, hall⟩
    exact (step_tasks (hall [] post rfl)).resolve_left hnot

/-! ## Epochs along a run -/

/-- The connection `e` of `cid` was accepted, and the client's session is not bound to it any more. -/
def Left (cid : String) (e : Nat) (w : World) : Prop :=
  e < w.broker.nextEpoch ∧ ∀ s, w.broker.sessions.lookup cid = some s → s.epoch ≠ e

theorem step_left (P : Protocol) (l : Label) (h : w.Left cid e) : (step P w l).1.Left cid e := by
  obtain ⟨hle, hb⟩ := (step_change P w l).epochs
  refine ⟨lt_of_lt_of_le h.1 hle, fun s' hs => ?_⟩
  rcases hb cid s' hs with ⟨s, hs0, hsame, -⟩ | ⟨he, -⟩
  · rw [hsame.epoch]
    exact h.2 s hs0
  · rw [he]
    exact h.1.ne'

theorem run_left (P : Protocol) (h : w.Left cid e) (ls : List Label) : (run P w ls).1.Left cid e :=
  Machine.run_preserves (step P) (Left cid e) (fun _ l h => step_left P l h) h ls

theorem run_overs (P : Protocol) (h : w.Over cid e) (ls : List Label) : (run P w ls).1.Over cid e :=
  Machine.run_preserves (step P) (Over cid e) (fun _ l h => step_over P l h) h ls

/-- After an accepted CONNECT the client's session is bound to no earlier connection. -/
theorem accepted_left {a : Accepted} (h : .accepted a ∈ (step P w l).2) (he : e < w.broker.nextEpoch) :
    (step P w l).1.Left a.clientId e := by
  obtain ⟨req, hsel, rfl⟩ := step_accepted h
  refine ⟨lt_of_lt_of_le he (step_nextEpoch_le P w l), fun s hs => ?_⟩
  obtain ⟨-, hb⟩ := connect_atLeast (P := P) hsel
  exact ((lt_of_lt_of_le he (hb s hs))).ne'

/-- A session that is bound to a connection that is over has been bound to it, and offline, all along. -/
theorem run_bound_since (P : Protocol) (h : w.Over cid e) {ls : List Label}
    (hs : (run P w ls).1.broker.sessions.lookup cid = some s) (he : s.epoch = e) :
    (∀ q r, ls = q ++ r → ∃ s', (run P w q).1.broker.sessions.lookup cid = some s' ∧ s'.epoch = e ∧ s'.isOnline = false) ∧
      ∀ a, .accepted a ∈ (run P w ls).2 → a.clientId ≠ cid := by
  have hnever : ∀ q r, ls = q ++ r → ¬(run P w q).1.Left cid e := by
    rintro q r rfl hleft
    rw [run_append] at hs
    exact (run_left P hleft r).2 s hs he
  refine ⟨fun q r hqr => ?_, fun a ha hc => ?_⟩
  · have hover := run_overs P h q
    by_contra hnone
    refine hnever q r hqr ⟨hover.1, fun s' hs' he' => hnone ⟨s', hs', he', ?_⟩⟩
    simp [Session.isOnline, hover.2 s' hs' he']
  · obtain ⟨pre, l, post, rfl, hl⟩ := Machine.exists_emitted (step P) ha
    have hleft := accepted_left hl (run_overs P h pre).1
    rw [hc] at hleft
    refine hnever (pre ++ [l]) post (by simp) ?_
    rw [run_append]
    exact hleft

/-! ## What the timers remove -/

theorem runTask_removes (now : Nat) (ord : Orders) {b : Broker} {t : Task} {cid : String} {e : Nat} (h : Task.removes cid e t) :
    runTask P now ord b t = removeIfOffline b cid e := by
  cases t with
  | expiry c e' due =>
    obtain ⟨rfl, rfl⟩ := h
    rfl
  | closeRemove c e' =>
    obtain ⟨rfl, rfl⟩ := h
    rfl
  | _ => exact h.elim

/-- A session that goes is the one of the connection, and offline. -/
theorem removeIfOffline_gone {b : Broker} {c : String} (hs : b.sessions.lookup cid = some s)
    (h : (removeIfOffline b c e).broker.sessions.lookup cid = none) : c = cid ∧ s.epoch = e ∧ s.isOnline = false := by
  unfold removeIfOffline at h
  split at h
  · rw [hs] at h
    cases h
  · rename_i s₀ hs₀
    split at h
    · rename_i hold
      by_cases hc : cid = c
      · subst hc
        rw [hs] at hs₀
        cases hs₀
        simpa using hold
      · simp only [removeSession] at h
        rw [AList.lookup_erase_ne hc, hs] at h
        cases h
    · rw [hs] at h
      cases h

/-- A task that removes sessions comes from the close of the connection. -/
theorem Spawned.removes (h : Spawned P w l t) (ht : Task.removes cid e t) :
    ∃ s publishWill, l.input = .call (.closed cid e publishWill) ∧ w.broker.sessions.lookup cid = some s ∧ s.epoch = e ∧
      t = scheduleExpiry w.clock cid e s.sessionExpiryInterval := by
  cases h with
  | @expiry c e' pw s hin hs he =>
    have hce : c = cid ∧ e' = e := by
      unfold scheduleExpiry at ht
      split at ht <;> exact ht
    obtain ⟨rfl, rfl⟩ := hce
    exact ⟨s, pw, hin, hs, he, rfl⟩
  | @will c e' s will hin hs he hw =>
    unfold scheduleWill at ht
    split at ht <;> exact ht.elim
  | _ => exact ht.elim

/-- **A stale timer removes nothing**: a session that an expiry timer, or the end of a close, removes is offline, and has
been since the close that led to the removal; no CONNECT for the client was accepted in between. -/
theorem removed_offline_since (P : Protocol) (now : Nat) (cfg : Config) (db : Db) (acl : Acl) (auth : Option Credentials)
    (ls : List Label) (w : World) (hw : w = (run P (boot P now cfg db acl auth) ls).1) (l : Label) (t : Task)
    (hsel : w.selected l.input = some t) (c : String) (e : Nat) (ht : Task.removes c e t) (cid : String) (s : Session)
    (hs : w.broker.sessions.lookup cid = some s) (hgone : (step P w l).1.broker.sessions.lookup cid = none) :
    c = cid ∧ e = s.epoch ∧ s.isOnline = false ∧
      ∃ pre close post publishWill, ls = pre ++ close :: post ∧ close.input = .call (.closed cid e publishWill) ∧
        Spawned P (run P (boot P now cfg db acl auth) pre).1 close t ∧
        (∀ q r, post = q ++ r → ∃ s', (run P (boot P now cfg db acl auth) (pre ++ close :: q)).1.broker.sessions.lookup cid =
          some s' ∧ s'.epoch = e ∧ s'.isOnline = false) ∧
        ∀ a, .accepted a ∈ (run P (run P (boot P now cfg db acl auth) (pre ++ [close])).1 post).2 → a.clientId ≠ cid := by
  have hrun := (step_of_selected (P := P) hsel).1
  rw [runTask_removes l.now l.ord ht] at hrun
  rw [hrun] at hgone
  obtain ⟨rfl, rfl, hoff⟩ := removeIfOffline_gone hs hgone
  have hmem : t ∈ (run P (boot P now cfg db acl auth) ls).1.tasks := hw ▸ selected_mem hsel
  obtain ⟨pre, close, post, rfl, hspawn, -⟩ := exists_spawned hmem
  obtain ⟨s₀, pw, hin, hs₀, he₀, -⟩ := hspawn.removes ht
  -- the close takes the session offline, and it is still bound to the closed connection
  have hepoch : s.epoch < (run P (boot P now cfg db acl auth) pre).1.broker.nextEpoch :=
    he₀ ▸ run_epochsOk P (boot_epochsOk P now cfg db acl auth) pre c s₀ hs₀
  have hover := closed_over (P := P) hin hepoch
  have hend : (run P (step P (run P (boot P now cfg db acl auth) pre).1 close).1 post).1.broker.sessions.lookup c = some s := by
    rw [hw, run_append] at hs
    exact hs
  obtain ⟨hall, hnone⟩ := run_bound_since P hover hend rfl
  refine ⟨rfl, rfl, hoff, pre, close, post, pw, rfl, hin, hspawn, fun q r hqr => ?_, fun a ha => ?_⟩
  · rw [run_append]
    exact hall q r hqr
  · rw [run_append] at ha
    exact hnone a ha

/-- A client connects for a minute, and its connection is lost. -/
def lostConnection : List Label :=
  connecting { clientId := "c", cleanStart := true, sessionExpiryInterval := some 60 } ++
  [{ input := .call (.closed "c" 1 true) }]

/-- The session is removed after that minute, offline all the while. -/
theorem removed_offline_since_minute :
    ∃ s, (run .reference empty (lostConnection ++ [{ input := .sleep 60 }])).1.broker.sessions.lookup "c" = some s ∧
      s.isOnline = false ∧
      ∃ pre close post publishWill, lostConnection ++ [{ input := .sleep 60 }] = pre ++ close :: post ∧
        close.input = .call (.closed "c" 1 publishWill) := by
  set ls := lostConnection ++ [{ input := .sleep 60 }] with hls
  have hsel : (run .reference empty ls).1.selected (.task 0) = some (.expiry "c" 1 60) := by decide +kernel
  have hsome : ((run .reference empty ls).1.broker.sessions.lookup "c").isSome := by decide +kernel
  have hgone : (step .reference (run .reference empty ls).1 { input := .task 0 }).1.broker.sessions.lookup "c" = none := by
    decide +kernel
  obtain ⟨s, hs⟩ := Option.isSome_iff_exists.1 hsome
  generalize hw : (run .reference empty ls).1 = w at hsel hs hgone
  obtain ⟨-, -, hoff, pre, close, post, pw, hpre, hin, -⟩ := removed_offline_since .reference 0 {} {} .permitAll none ls w
    hw.symm { input := .task 0 } (.expiry "c" 1 60) hsel "c" 1 ⟨rfl, rfl⟩ "c" s hs hgone
  exact ⟨s, hs, hoff, pre, close, post, pw, hpre, hin⟩

/-! ## Every offline session has a timer -/

theorem requestedExpiry_le (cfg : Config) (req : ConnectRequest) : requestedExpiry cfg req ≤ cfg.maxSessionExpiry := by
  unfold requestedExpiry
  split
  · exact min_le_right _ _
  · split <;> omega

theorem apply_expiry (s : Session) {o : Op} (hset : ∀ secs, o ≠ .setExpiry secs) (hres : o.isResume = false) :
    (s.apply P o).1.sessionExpiryInterval = s.sessionExpiryInterval := by
  by_cases hq : o.isQuiet
  · exact (Session.apply_quiet P s hq).expiry
  · cases o with
    | subscribe sub =>
      simp only [Session.apply, Session.upsertSubscription]
      split <;> rfl
    | setExpiry secs => exact absurd rfl (hset secs)
    | resume => cases hres
    | _ => first | rfl | simp [Op.isQuiet] at hq

theorem applyAll_expiry : ∀ {os : List Op} (s : Session), (∀ o ∈ os, (∀ secs, o ≠ .setExpiry secs) ∧ o.isResume = false) →
    (s.applyAll P os).1.sessionExpiryInterval = s.sessionExpiryInterval
  | [], _, _ => rfl
  | o :: os, s, h => by
    obtain ⟨ho, hos⟩ := List.forall_mem_cons.1 h
    exact (applyAll_expiry _ hos).trans (apply_expiry s ho.1 ho.2)

/-- What clients ask for is clamped. The sessions of the database are as they were stored. -/
def ExpiryClamped (w : World) : Prop :=
  ∀ cid s, w.broker.sessions.lookup cid = some s → s.epoch ≠ 0 → s.sessionExpiryInterval ≤ w.broker.config.maxSessionExpiry

theorem bound_expiry_le {req : ConnectRequest} (h : (boundSession P l.now w.broker req).SameRecord s') :
    s'.sessionExpiryInterval ≤ w.broker.config.maxSessionExpiry := by
  have hbound : (boundSession P l.now w.broker req).sessionExpiryInterval = requestedExpiry w.broker.config req := by
    simp only [boundSession, reauthorize]
    split <;> rfl
  rw [h.expiry, hbound]
  exact requestedExpiry_le ..

/-- The second section of a DISCONNECT. -/
theorem disconnectExpiry_le {n : Nat} {pw : Bool} (hsel : w.selected l.input = some (.disconnectExpiry cid e n pw))
    (hs' : (step P w l).1.broker.sessions.lookup cid = some s') :
    s'.sessionExpiryInterval ≤ w.broker.config.maxSessionExpiry := by
  rw [(step_of_selected hsel).1] at hs'
  simp only [runTask, disconnectExpiry] at hs'
  split at hs'
  · rename_i hnone
    simp only [answer] at hs'
    rw [hnone] at hs'
    cases hs'
  · simp only [setSession, AList.lookup_insert, Option.some.injEq] at hs'
    rw [← hs']
    exact min_le_right _ _

theorem step_expiryClamped (P : Protocol) (l : Label) (h : w.ExpiryClamped) : (step P w l).1.ExpiryClamped := by
  intro cid s' hs' he
  rw [step_config]
  by_cases hexp : ∃ e n pw, w.selected l.input = some (.disconnectExpiry cid e n pw)
  · obtain ⟨e, n, pw, hsel⟩ := hexp
    exact disconnectExpiry_le hsel hs'
  by_cases hconn : ∃ req, w.selected l.input = some (.connect req) ∧ cid = req.clientId
  · obtain ⟨req, hsel, rfl⟩ := hconn
    rw [(step_of_selected hsel).1] at hs'
    simp only [runTask, finishConnect, AList.lookup_insert, Option.some.injEq] at hs'
    exact bound_expiry_le (hs' ▸ resumed_sameRecord ..)
  rcases (step_change P w l).bound hs' with ⟨s, hs, hb, -⟩ | ⟨req, hsel, hc, -⟩ | ⟨name, hin, -, hb⟩
  · cases step_becomes P w l hs hs' with
    | @sees v hv hse =>
      rw [hse, applyAll_expiry]
      · exact h cid s hs (hb.epoch ▸ he)
      · intro o ho
        obtain ⟨x, hx, rfl⟩ := List.mem_map.1 ho
        have hcause := hv.causes x hx
        generalize x.1 = o at hcause
        cases o with
        | setExpiry secs => exact absurd hcause hexp
        | resume => exact absurd hcause hconn
        | _ => exact ⟨by simp, rfl⟩
    | fresh hsel hc => exact absurd ⟨_, hsel, hc⟩ hconn
    | bridge _ _ hse => simp [hse, bridgeSession, Session.new]
  · exact absurd ⟨req, hsel, hc⟩ hconn
  · simp [hb, bridgeSession, Session.new]

/-- The removal of the offline session `s` is on its way: its connection is being closed, or its timer runs. -/
def Due (w : World) (cid : String) (s : Session) : Prop :=
  .closeRemove cid s.epoch ∈ w.tasks ∨
    ∃ due, .expiry cid s.epoch due ∈ w.tasks ∧ due ≤ w.clock + w.broker.config.maxSessionExpiry

/-- Clamped, and every offline session that was ever connected to is due. -/
structure TimersOk (w : World) : Prop where
  clamped : w.ExpiryClamped
  due : ∀ cid s, w.broker.sessions.lookup cid = some s → s.epoch ≠ 0 → s.isOnline = false → w.Due cid s

/-- The session that is due stays due, as the removal does not run. -/
theorem Due.after (P : Protocol) (h : w.Due cid s) (hs : w.broker.sessions.lookup cid = some s) (hoff : s.isOnline = false)
    (hs' : (step P w l).1.broker.sessions.lookup cid = some s') (he : s'.epoch = s.epoch) :
    (step P w l).1.Due cid s' := by
  have hwaits : ∀ {t : Task}, Task.removes cid s.epoch t → t ∈ w.tasks → t ∈ (step P w l).1.tasks := by
    intro t ht hmem
    refine mem_step_tasks hmem fun hsel => ?_
    rw [(step_of_selected hsel).1, runTask_removes l.now l.ord ht] at hs'
    simp [removeIfOffline, hs, hoff, removeSession] at hs'
  have hclock := step_clock_le P w l
  rw [Due, step_config, he]
  rcases h with h | ⟨due, h, hle⟩
  · exact .inl (hwaits ⟨rfl, rfl⟩ h)
  · exact .inr ⟨due, hwaits ⟨rfl, rfl⟩ h, by omega⟩

theorem TimersOk.step (P : Protocol) (l : Label) (h : w.TimersOk) : (step P w l).1.TimersOk := by
  refine ⟨step_expiryClamped P l h.clamped, fun cid s' hs' he hoff => ?_⟩
  cases step_stems P w l hs' with
  | @same s hs hsame =>
    have hoff₀ : s.isOnline = false := hsame.online ▸ hoff
    exact (h.due cid s hs (hsame.epoch ▸ he) hoff₀).after P hs hoff₀ hs' hsame.epoch
  | @publish s p hs hsel hsame =>
    have hoff₀ : s.isOnline = false := hsame.online ▸ hoff
    exact (h.due cid s hs (hsame.epoch ▸ he) hoff₀).after P hs hoff₀ hs' hsame.epoch
  | @closed s pw hs hin hse =>
    have hmem : scheduleExpiry w.clock cid s.epoch s.sessionExpiryInterval ∈ (World.step P w l).1.tasks := by
      simp [World.step, hin, absorb, enter, handleConnectionClosed, hs]
    have hle := h.clamped cid s hs (by rw [hse] at he; exact he)
    have hclock := step_clock_le P w l
    rw [hse, Due, step_config]
    unfold scheduleExpiry at hmem
    split at hmem
    · exact .inl hmem
    · exact .inr ⟨_, hmem, by omega⟩
  | resumed _ _ _ _ hsame =>
    rw [hsame.online] at hoff
    cases hoff
  | fresh _ _ _ hse =>
    rw [hse] at hoff
    cases hoff
  | bridge _ _ hse =>
    rw [hse] at hoff
    cases hoff

theorem boot_timersOk (P : Protocol) (now : Nat) (cfg : Config) (db : Db) (acl : Acl) (auth : Option Credentials) :
    (boot P now cfg db acl auth).TimersOk := by
  have hzero : ∀ cid s, (boot P now cfg db acl auth).broker.sessions.lookup cid = some s → s.epoch = 0 := by
    intro cid s hs
    rw [boot_lookup] at hs
    split at hs
    · cases hs
    · obtain ⟨row, -, rfl⟩ := Option.map_eq_some_iff.1 hs
      rfl
  exact ⟨fun cid s hs he => absurd (hzero cid s hs) he, fun cid s hs he => absurd (hzero cid s hs) he⟩

/-- A session without an epoch was loaded, and no CONNECT for it has been accepted. -/
structure LoadedOk (db : Db) (w : World) (es : List Effect) : Prop where
  next : 0 < w.broker.nextEpoch
  loaded : ∀ cid s, w.broker.sessions.lookup cid = some s → s.epoch = 0 →
    db.sessions.lookup cid ≠ none ∧ ∀ a, .accepted a ∈ es → a.clientId ≠ cid

theorem LoadedOk.step {db : Db} {es : List Effect} (P : Protocol) (l : Label) (h : LoadedOk db w es) :
    LoadedOk db (World.step P w l).1 (es ++ (World.step P w l).2) := by
  refine ⟨lt_of_lt_of_le h.next (step_nextEpoch_le P w l), fun cid s' hs' he => ?_⟩
  rcases (step_change P w l).epochs.2 cid s' hs' with ⟨s, hs, hb, -⟩ | ⟨hnew, -⟩
  · obtain ⟨hdb, hnone⟩ := h.loaded cid s hs (hb.epoch ▸ he)
    refine ⟨hdb, fun a ha hc => ?_⟩
    rcases List.mem_append.1 ha with ha | ha
    · exact hnone a ha hc
    · exact (accepted_left ha h.next).2 s' (hc ▸ hs') he
  · exact absurd (hnew.symm.trans he) h.next.ne'

theorem boot_loadedOk (P : Protocol) (now : Nat) (cfg : Config) (db : Db) (acl : Acl) (auth : Option Credentials) :
    LoadedOk db (boot P now cfg db acl auth) [] := by
  refine ⟨Nat.zero_lt_one, fun cid s hs _ => ⟨?_, by simp⟩⟩
  rw [boot_lookup] at hs
  split at hs
  · cases hs
  · obtain ⟨row, hrow, -⟩ := Option.map_eq_some_iff.1 hs
    simp [hrow]

/-- **An offline session is due to expire**, in every state of every run, unless it was loaded at start-up and no client
has connected to it since: its timer is pending, ends within the configured maximum, and removes it from memory and
from disk. -/
theorem offline_expires (P : Protocol) (now : Nat) (cfg : Config) (db : Db) (acl : Acl) (auth : Option Credentials)
    (ls : List Label) (w : World) (hw : w = (run P (boot P now cfg db acl auth) ls).1) (cid : String) (s : Session)
    (hs : w.broker.sessions.lookup cid = some s) (hoff : s.isOnline = false) (hclosing : .closeRemove cid s.epoch ∉ w.tasks)
    (hknown : db.sessions.lookup cid = none ∨
      ∃ a, .accepted a ∈ (run P (boot P now cfg db acl auth) ls).2 ∧ a.clientId = cid) :
    ∃ due, .expiry cid s.epoch due ∈ w.tasks ∧ due ≤ w.clock + w.broker.config.maxSessionExpiry ∧
      ∀ l, w.selected l.input = some (.expiry cid s.epoch due) →
        (step P w l).1.broker.sessions.lookup cid = none ∧ .store (.deleteSession cid) ∈ (step P w l).2 := by
  have hloaded := Machine.run_invariant (step P) (LoadedOk db) (boot_loadedOk P now cfg db acl auth)
    (fun w es l h (_ : True) => h.step P l) ls (.of_forall _ (fun _ _ => trivial) _ _)
  have htimers := Machine.run_preserves (step P) TimersOk (fun w l h => h.step P l) (boot_timersOk P now cfg db acl auth) ls
  have hepoch : s.epoch ≠ 0 := by
    intro hzero
    obtain ⟨hdb, hnone⟩ := hloaded.loaded cid s (hw ▸ hs) hzero
    rcases hknown with hk | ⟨a, ha, hc⟩
    · exact hdb hk
    · exact hnone a ha hc
  obtain ⟨due, hmem, hle⟩ := ((hw ▸ htimers).due cid s hs hepoch hoff).resolve_left hclosing
  refine ⟨due, hmem, hle, fun l hsel => ?_⟩
  rw [(step_of_selected hsel).1, (step_of_selected hsel).2]
  simp [runTask, removeIfOffline, hs, hoff, removeSession]

/-- The connection of a client is lost, and its session will be removed. -/
theorem offline_expires_minute :
    ∃ s, (run .reference empty lostConnection).1.broker.sessions.lookup "c" = some s ∧
      ∃ due, .expiry "c" s.epoch due ∈ (run .reference empty lostConnection).1.tasks := by
  have hsome : ((run .reference empty lostConnection).1.broker.sessions.lookup "c").any
      (fun s => !s.isOnline && s.epoch = 1) = true := by decide +kernel
  have hclosing : .closeRemove "c" 1 ∉ (run .reference empty lostConnection).1.tasks := by decide +kernel
  obtain ⟨s, hs, h⟩ := (Option.any_eq_true _ _).1 hsome
  simp only [Bool.and_eq_true, Bool.not_eq_true', decide_eq_true_eq] at h
  obtain ⟨due, hmem, -⟩ := offline_expires .reference 0 {} {} .permitAll none lostConnection _ rfl "c" s hs h.1
    (h.2 ▸ hclosing) (.inl rfl)
  exact ⟨s, hs, due, hmem⟩

/-- A database with the session of a client that was gone when the broker stopped. -/
def storedSession : Db := { sessions := AList.singleton "c" ⟨60, none⟩ }

/-- The broker is started on it: the session is there, its time is long over, and nothing waits to remove it. -/
theorem loaded_never_expires :
    let w := (run .reference (boot .reference 0 {} storedSession .permitAll none) [{ input := .sleep 1000000 }]).1
    (w.broker.sessions.lookup "c").any (fun s => !s.isOnline && s.sessionExpiryInterval = 60) ∧ w.tasks = [] := by
  decide +kernel

end World

end WispMQ
