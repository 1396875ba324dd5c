import WispMQ.Frame
import WispMQ.Publishing
/-!
# Who is let in: `handle_connect` and `auth.rs`

| here | there |
| --- | --- |
| `PasswordFile.verify`    | `Credentials::verify` (auth.rs:78), over `pbkdf2::verify` |
| `Broker.RefusesConnect`  | the checks of `handle_connect` before its main section (connect.rs:24-88) |
| `World.LetIn`            | what stands behind an accepted connection when credentials are asked for |

Everything that can fail comes before anything is done: a refused CONNECT leaves the broker as it was, and its CONNACK is all
there is of it (`step_refused`). Behind the checks nothing fails any more (`accepts_of_connect`), and a connection that gets
there has the identity its password was verified for (`run_verified`).
-/

namespace WispMQ
open KeyMap

/-! ## Passwords -/

/-- The hash of a password, as the password file has it (auth.rs:33). -/
structure PasswordFile.Stored where
  iterations : Nat
  salt : Bytes
  hash : Bytes
deriving DecidableEq, Repr

/-- What is verified against when the user is unknown (auth.rs:107). -/
def PasswordFile.decoy : Stored := ⟨200000, List.replicate 16 0, List.replicate 32 0⟩

/-- The users of a password file. -/
structure PasswordFile where
  users : KeyMap String PasswordFile.Stored

namespace PasswordFile
variable (pbkdf2 : Nat → Bytes → Bytes → Bytes → Bool)

/-- `pbkdf2` verifies a password against iterations, salt and hash. -/
def verify (file : PasswordFile) (username : String) (password : Bytes) : Bool :=
  let (stored, known) :=
    match file.users.lookup username with
    | some s => (s, true)
    | none => (decoy, false)
  let matched := pbkdf2 stored.iterations stored.salt password stored.hash
  matched && known

def credentials (file : PasswordFile) : Credentials := ⟨file.verify pbkdf2⟩

/-- A password that happens to match the decoy does not help an unknown user. -/
theorem verify_iff (file : PasswordFile) (username : String) (password : Bytes) :
    file.verify pbkdf2 username password = true ↔
      ∃ s, file.users.lookup username = some s ∧ pbkdf2 s.iterations s.salt password s.hash = true := by
  unfold verify
  cases file.users.lookup username with
  | none => simp
  | some s => simp

end PasswordFile

namespace Broker
variable {P : Protocol} {b : Broker} {connect : Connect} {identity identity' : Option String}

/-- What a CONNECT is refused for, and with which reason code. -/
inductive RefusesConnect (P : Protocol) (b : Broker) (connect : Connect) (identity : Option String) : ReasonCode → Prop
  | protocol {rc : ReasonCode} (h : P.validateProtocol connect = .error rc) : RefusesConnect P b connect identity rc
  | credentials {version : ProtocolVersion} {rc : ReasonCode} (hv : P.validateProtocol connect = .ok version)
      (h : b.authenticate connect identity = .error rc) : RefusesConnect P b connect identity rc
  | will {version : ProtocolVersion} {who : Option String} (hv : P.validateProtocol connect = .ok version)
      (ha : b.authenticate connect identity = .ok who) (h : b.willAuthorized P connect who = false) :
      RefusesConnect P b connect identity .notAuthorized
  | reserved {version : ProtocolVersion} {who : Option String} (hv : P.validateProtocol connect = .ok version)
      (ha : b.authenticate connect identity = .ok who) (hw : b.willAuthorized P connect who = true)
      (h : reservedClientId connect.clientId = true) : RefusesConnect P b connect identity .clientIdentifierNotValid

/-- A CONNECT is refused for one of these reasons, and for each of them. -/
theorem startConnect_refuses_iff (now : Nat) (out : OutTx) (rc : ReasonCode) :
    .refused { sessionPresent := false, reasonCode := rc } ∈ (startConnect P now b connect out identity).effects ↔
      RefusesConnect P b connect identity rc := by
  unfold startConnect
  constructor
  · intro h
    cases hv : P.validateProtocol connect with
    | error rc' =>
      simp only [hv, refuse, List.mem_singleton, Effect.refused.injEq, Connack.mk.injEq, true_and, and_true] at h
      exact .protocol (h ▸ hv)
    | ok version =>
      cases ha : b.authenticate connect identity with
      | error rc' =>
        simp only [hv, ha, refuse, List.mem_singleton, Effect.refused.injEq, Connack.mk.injEq, true_and, and_true] at h
        exact .credentials hv (h ▸ ha)
      | ok who =>
        cases hw : b.willAuthorized P connect who with
        | false =>
          simp only [hv, ha, hw, Bool.not_false, if_true, refuse, List.mem_singleton, Effect.refused.injEq,
            Connack.mk.injEq, true_and, and_true] at h
          exact h ▸ .will hv ha hw
        | true =>
          simp only [hv, ha, hw, Bool.not_true, Bool.false_eq_true, if_false] at h
          split at h
          · cases h
          · split at h
            · rename_i hres
              simp only [refuse, List.mem_singleton, Effect.refused.injEq, Connack.mk.injEq, true_and, and_true] at h
              exact h ▸ .reserved hv ha hw hres
            · cases h
  · intro h
    cases h with
    | protocol h => simp [h, refuse]
    | credentials hv h => simp [hv, h, refuse]
    | will hv ha h => simp [hv, ha, h, refuse]
    | reserved hv ha hw h =>
      have hne : connect.clientId ≠ "" := by
        intro he
        rw [he] at h
        revert h
        decide
      simp [hv, ha, hw, h, hne, refuse]

/-- With credentials and without anonymous access, only a verified password passes, and it names the identity. -/
theorem authenticate_verified {creds : Credentials} (hauth : b.auth = some creds) (hanon : b.config.allowAnonymous = false)
    (h : b.authenticate connect identity = .ok identity') :
    ∃ user pass, connect.username = some user ∧ connect.password = some pass ∧ creds.verify user pass = true ∧
      identity' = some user := by
  simp only [authenticate, hauth, hanon] at h
  cases hu : connect.username with
  | none => simp [hu] at h
  | some user =>
    cases hp : connect.password with
    | none => simp [hu, hp] at h
    | some pass =>
      simp only [hu, hp] at h
      split at h
      · rename_i hverify
        cases h
        exact ⟨user, pass, rfl, rfl, hverify, rfl⟩
      · cases h

end Broker

namespace World
open Broker
variable {P : Protocol} {w : World} {l : Label}

/-- **A refused CONNECT changes nothing**: no task is left behind, nothing is stored and no channel is let go. -/
theorem step_refused {k : Connack} (h : .refused k ∈ (step P w l).2) :
    (step P w l).1 = w ∧ (step P w l).2 = [.refused k] ∧
      ∃ connect identity rc, l.input = .call (.connect connect identity) ∧
        RefusesConnect P w.broker connect identity rc ∧ k = { sessionPresent := false, reasonCode := rc } := by
  cases step_emits h with
  | @refused connect identity hin =>
    simp only [step, hin, absorb, enter] at h ⊢
    rcases startConnect_cases (P := P) l.now w.broker connect {} identity with
      ⟨rc, he⟩ | ⟨_, _, -, -, -, ⟨-, he⟩ | ⟨-, -, he⟩⟩ <;> rw [he] at h ⊢
    · cases List.mem_singleton.1 h
      refine ⟨by simp [refuse], rfl, connect, identity, rc, rfl, ?_, rfl⟩
      exact (startConnect_refuses_iff l.now {} rc).1 (by rw [he]; exact List.mem_singleton_self _)
    · cases h
    · cases h

section Boot
variable {now : Nat} {cfg : Config} {db : Db} {acl : Acl} {auth : Option Credentials} {ls : List Label}

/-- A CONNECT that waits for the main section came in earlier, and passed the first stage then. -/
theorem exists_startConnect {req : ConnectRequest}
    (h : .connect req ∈ (run P (boot P now cfg db acl auth) ls).1.tasks) :
    ∃ pre l post connect identity, ls = pre ++ l :: post ∧ l.input = .call (.connect connect identity) ∧
      .connect req ∈ (startConnect P l.now (run P (boot P now cfg db acl auth) pre).1.broker connect {} identity).tasks := by
  rcases Machine.exists_onset (step P) (fun w => .connect req ∈ w.tasks) ls _ h with hall | ⟨pre, l, post, rfl, hnot, hall⟩
  · exact absurd (hall [] ls rfl) (by simp [Machine.run, boot])
  · have hmem := hall [] post rfl
    obtain ⟨connect, identity, hin, -⟩ := ((step_tasks hmem).resolve_left hnot).called
    refine ⟨pre, l, post, connect, identity, rfl, hin, ?_⟩
    simp only [Machine.run, step, hin, absorb, enter, List.mem_append] at hmem
    exact hmem.resolve_left hnot

/-- Behind the connection `a` that the step `l` after `pre` accepts is a CONNECT that came in before, with a user name and a
password that `creds` verifies; the user is the identity of the session it is bound to. -/
structure LetIn (P : Protocol) (creds : Credentials) (w₀ : World) (pre : List Label) (l : Label) (a : Accepted) : Prop where
  verified : ∃ l₀ ∈ pre, ∃ connect identity user pass, l₀.input = .call (.connect connect identity) ∧
    (∃ req, (run P w₀ pre).1.selected l.input = some (.connect req) ∧ req.connect = connect) ∧
    connect.username = some user ∧ connect.password = some pass ∧ creds.verify user pass = true ∧ a.identity = some user
  bound : ∃ s, (step P (run P w₀ pre).1 l).1.broker.sessions.lookup a.clientId = some s ∧ s.epoch = a.epoch ∧
    s.identity = a.identity

/-- What stands behind an accepted connection when a password is asked for. -/
theorem run_verified {creds : Credentials} (hauth : auth = some creds) (hanon : cfg.allowAnonymous = false) {l : Label}
    {a : Accepted} (ha : .accepted a ∈ (step P (run P (boot P now cfg db acl auth) ls).1 l).2) :
    LetIn P creds (boot P now cfg db acl auth) ls l a := by
  obtain ⟨req, hsel, rfl⟩ := step_accepted ha
  constructor
  · obtain ⟨pre, l₀, post, connect, identity, rfl, hin, ht⟩ := exists_startConnect (selected_mem hsel)
    have hcreds : (run P (boot P now cfg db acl auth) pre).1.broker.auth = some creds := (run_auth P _ pre).trans hauth
    have hcfg : (run P (boot P now cfg db acl auth) pre).1.broker.config.allowAnonymous = false := by
      rw [run_config]
      exact hanon
    refine ⟨l₀, by simp, ?_⟩
    rcases startConnect_cases (P := P) l₀.now (run P (boot P now cfg db acl auth) pre).1.broker connect {} identity with
      ⟨rc, he⟩ | ⟨version, identity', -, hok, -, ⟨-, he⟩ | ⟨-, -, he⟩⟩ <;> rw [he] at ht
    · cases ht
    all_goals
      cases List.mem_singleton.1 ht
      obtain ⟨user, pass, hu, hp, hverify, rfl⟩ := authenticate_verified hcreds hcfg hok
      exact ⟨connect, identity, user, pass, hin, ⟨_, hsel, rfl⟩, hu, hp, hverify, rfl⟩
  · set w := (run P (boot P now cfg db acl auth) ls).1
    refine ⟨(resumed P l.now l.ord (w.broker.claimed req).2 (boundSession P l.now w.broker req)).1, ?_, ?_, ?_⟩
    · rw [(step_of_selected hsel).1]
      exact AList.lookup_insert _
    · exact (resumed_sameRecord ..).epoch.trans (boundSession_epoch ..)
    · exact (resumed_sameRecord ..).identity.trans (boundSession_identity ..)

/-- What holds of the connections that come in during the run `ls` from `w`. -/
structure AdmitsProperly (P : Protocol) (w : World) (ls : List Label) : Prop where
  /-- A refused CONNECT changes nothing, and its CONNACK is all there is of it. -/
  refused : ∀ pre l post k, ls = pre ++ l :: post → .refused k ∈ (step P (run P w pre).1 l).2 →
    (step P (run P w pre).1 l).1 = (run P w pre).1 ∧ (step P (run P w pre).1 l).2 = [.refused k]
  /-- With credentials and without anonymous access, an accepted one has a verified password. -/
  accepted : ∀ creds, w.broker.auth = some creds → w.broker.config.allowAnonymous = false →
    ∀ pre l post a, ls = pre ++ l :: post → .accepted a ∈ (step P (run P w pre).1 l).2 → LetIn P creds w pre l a

/-- **Refusal and admission**, in every run. -/
theorem admits_properly (P : Protocol) (now : Nat) (cfg : Config) (db : Db) (acl : Acl) (auth : Option Credentials)
    (ls : List Label) : AdmitsProperly P (boot P now cfg db acl auth) ls where
  refused pre l _ k _ h := by
    obtain ⟨hw, he, -⟩ := step_refused h
    exact ⟨hw, he⟩
  accepted creds hauth hanon pre l _ a _ h := run_verified hauth hanon h

end Boot

/-- An accepted connection of a user whose password is in the file. -/
theorem LetIn.stored {pbkdf2 : Nat → Bytes → Bytes → Bytes → Bool} {file : PasswordFile} {pre : List Label} {a : Accepted}
    {w₀ : World} (h : LetIn P (file.credentials pbkdf2) w₀ pre l a) :
    ∃ user s, a.identity = some user ∧ file.users.lookup user = some s := by
  obtain ⟨-, -, -, -, user, pass, -, -, -, -, hverify, hid⟩ := h.verified
  obtain ⟨s, hs, -⟩ := (file.verify_iff pbkdf2 user pass).1 hverify
  exact ⟨user, s, hid, hs⟩

end World

end WispMQ
