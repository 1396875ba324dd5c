import WispMQ.Publishing
import WispMQ.ForeignKey
/-!
# Reserved client ids

Sessions enter the map at start-up, with a CONNECT and with `register_bridge`. The first two leave the client ids under
`$bridge/` and `$SYS/` out (mod.rs:160, connect.rs:85), and the ids the broker assigns start with `auto-`. So a session under
`$bridge/` is one that a bridge registered and no connection has been bound to since, whatever the database holds and
whatever client ids the CONNECTs bring (`reserved_to_broker`).
-/

namespace WispMQ
open KeyMap

/-- The name of a bridge does not make it a client of `$SYS/`. -/
theorem bridgeClient_not_sys (name : String) : startsWith (bridgeClient name) sysPrefix = false := by
  simp [startsWith, bridgeClient, sysPrefix, List.isPrefixOf]

namespace World
open Broker
variable {P : Protocol} {w : World} {l : Label} {cid : String} {s : Session}

section Run
variable {now : Nat} {cfg : Config} {db : Db} {acl : Acl} {auth : Option Credentials} {ls : List Label}

theorem run_connectsOk (P : Protocol) (now : Nat) (cfg : Config) (db : Db) (acl : Acl) (auth : Option Credentials)
    (ls : List Label) : (run P (boot P now cfg db acl auth) ls).1.ConnectsOk :=
  Machine.run_preserves (step P) ConnectsOk (fun _ l h => step_connectsOk P l h) (by simp [ConnectsOk, boot]) ls

/-- The run `ls` from `w` registers the bridge of session `s` of `cid`, with the session's epoch, and the session is bound to
no other connection from then on. -/
def RegisteredIn (P : Protocol) (w : World) (ls : List Label) (cid : String) (s : Session) : Prop :=
  ∃ pre l post name, ls = pre ++ l :: post ∧ l.input = .call (.registerBridge name) ∧ cid = bridgeClient name ∧
    (run P w pre).1.broker.nextEpoch = s.epoch ∧
    ∀ q r, post = q ++ r → ∃ s', (run P w (pre ++ l :: q)).1.broker.sessions.lookup cid = some s' ∧ s'.epoch = s.epoch

/-- A session under a reserved client id is a registered bridge's. -/
theorem reserved_registered (hs : (run P (boot P now cfg db acl auth) ls).1.broker.sessions.lookup cid = some s)
    (hcid : reservedClientId cid = true) : RegisteredIn P (boot P now cfg db acl auth) ls cid s := by
  rcases Machine.exists_onset (step P)
      (fun w => ∃ s', w.broker.sessions.lookup cid = some s' ∧ s'.epoch = s.epoch) ls _ ⟨s, hs, rfl⟩ with
    hall | ⟨pre, l, post, rfl, hnot, hall⟩
  · -- no such session is loaded
    obtain ⟨s₀, hs₀, -⟩ := hall [] ls rfl
    have hres := (boot_session (P := P) hs₀).1
    rw [hcid] at hres
    cases hres
  · obtain ⟨s', hs', he'⟩ := hall [] post rfl
    rcases (step_change P _ l).bound hs' with ⟨s₀, hs₀, hb, -⟩ | ⟨req, hsel, rfl, -⟩ | ⟨name, hin, hname, rfl⟩
    · exact absurd ⟨s₀, hs₀, hb.epoch.symm.trans he'⟩ hnot
    · have hres := run_connectsOk P now cfg db acl auth pre req (selected_mem hsel)
      rw [hcid] at hres
      cases hres
    · refine ⟨pre, l, post, name, rfl, hin, hname, he', fun q r hqr => ?_⟩
      rw [run_append]
      exact hall q r hqr

/-- What the reserved client ids stand for after the run `ls` from `w`. -/
structure ReservedOk (P : Protocol) (w : World) (ls : List Label) : Prop where
  bridges : ∀ cid s, (run P w ls).1.broker.sessions.lookup cid = some s → startsWith cid "$bridge/" = true →
    RegisteredIn P w ls cid s
  sys : ∀ cid s, (run P w ls).1.broker.sessions.lookup cid = some s → startsWith cid sysPrefix = false
  /-- The step that accepts a connection, and puts its channel in place, leaves the sessions under reserved ids alone. -/
  channel : ∀ pre l post a, ls = pre ++ l :: post → .accepted a ∈ (step P (run P w pre).1 l).2 →
    ∀ cid, reservedClientId cid = true →
      (step P (run P w pre).1 l).1.broker.sessions.lookup cid = (run P w pre).1.broker.sessions.lookup cid
  /-- Connections are accepted under other client ids, and no session under a reserved one has their epoch. -/
  network : ∀ a, .accepted a ∈ (run P w ls).2 → reservedClientId a.clientId = false ∧
    ∀ cid s, (run P w ls).1.broker.sessions.lookup cid = some s → reservedClientId cid = true → s.epoch ≠ a.epoch

/-- **Reserved client ids belong to the broker**, in every run from any database. -/
theorem reserved_to_broker (P : Protocol) (now : Nat) (cfg : Config) (db : Db) (acl : Acl) (auth : Option Credentials)
    (ls : List Label) : ReservedOk P (boot P now cfg db acl auth) ls where
  bridges cid s hs hcid := reserved_registered hs (by rw [reservedClientId, hcid, Bool.true_or])
  sys cid s hs := by
    by_contra h
    rw [Bool.not_eq_false] at h
    obtain ⟨-, -, -, name, -, -, rfl, -⟩ := reserved_registered hs (by rw [reservedClientId, h, Bool.or_true])
    rw [bridgeClient_not_sys] at h
    cases h
  channel pre l post a _ ha cid hcid := by
    obtain ⟨req, hsel, rfl⟩ := step_accepted ha
    have hne : cid ≠ req.clientId := by
      rintro rfl
      rw [run_connectsOk P now cfg db acl auth pre req (selected_mem hsel)] at hcid
      cases hcid
    rw [(step_of_selected hsel).1]
    exact AList.lookup_insert_ne hne
  network a ha := by
    have hclient : reservedClientId a.clientId = false := by
      obtain ⟨pre, l, post, rfl, hstep⟩ := Machine.exists_emitted (step P) ha
      obtain ⟨req, hsel, rfl⟩ := step_accepted hstep
      exact run_connectsOk P now cfg db acl auth pre req (selected_mem hsel)
    refine ⟨hclient, fun cid s hs hcid he => ?_⟩
    obtain ⟨rfl, -⟩ := (run_identityOk P now cfg db acl auth ls).kept a ha cid s hs he
    rw [hcid] at hclient
    cases hclient

end Run

end World

end WispMQ
