import WispMQ.RateLimit
import WispMQ.Listeners
/-!
# The accept loops: `server.rs:42-232`

Each listener has its own loop, and all of them ask one limiter. What is let in gets a task, which goes through the
handshakes of its listener before `handle_connection` sees it.

| here | there |
| --- | --- |
| `Listener`          | the four calls of `serve_mqtt` (server.rs:50) and `serve_ws` (server.rs:135) |
| `Front.accept`      | one round of the loop, up to `tokio::spawn` (server.rs:60-67, :146-153) |
| `Socket.tls`, `Socket.upgrade` | the handshakes of the task, and their failures (server.rs:75-90, :160-186) |
| `Deed.handle`       | the call of `handle_connection`, with the identity of the client certificate |

However the loops interleave, what the task of a socket does follows from its listener and from how its own handshakes end
(`identityOf`, `front_door`), and what the limiter is asked is one sequence of checks, so an IP is held to one limit over all
listeners together (`admitted_le`).
-/

namespace WispMQ.Accepting
open WispMQ.Configuration

/-- How far the task of a socket is. -/
inductive Stage where
  | tls
  | upgrading (identity : Option String)
  | handling (identity : Option String)
  | closed
deriving DecidableEq

structure Socket (Ip : Type) where
  listener : Listener
  ip : Ip
  /-- When the limiter was asked. -/
  accepted : Nat
  stage : Stage
deriving DecidableEq

/-- The stage after what a listener begins with. -/
def firstStage : Listener → Stage
  | .plain => .handling none
  | .ws => .upgrading none
  | .tls | .wsTls => .tls

def usesTls : Listener → Bool
  | .tls | .wsTls => true
  | .plain | .ws => false

/-- How a handshake of a socket ends: it fails, or a TLS handshake gives the common name of the client certificate if
there is one. -/
inductive Handshake where
  | tls (outcome : Option (Option String))
  | upgrade (ok : Bool)
deriving DecidableEq

/-- `handle_connection` for the socket of this number. -/
inductive Deed where
  | handle (socket : Nat) (identity : Option String)
deriving DecidableEq

def Deed.socket : Deed → Nat
  | handle socket _ => socket

namespace Socket
variable {Ip : Type}

/-- What `handle_connection` was called with. -/
def handled (s : Socket Ip) : Option (Option String) :=
  match s.stage with
  | .handling identity => some identity
  | _ => none

/-- The TLS handshake. -/
def tls (s : Socket Ip) (outcome : Option (Option String)) : Socket Ip :=
  match s.stage, outcome with
  | .tls, none => { s with stage := .closed }
  | .tls, some identity =>
    if s.listener = .wsTls then { s with stage := .upgrading identity } else { s with stage := .handling identity }
  | _, _ => s

/-- The WebSocket handshake. -/
def upgrade (s : Socket Ip) (ok : Bool) : Socket Ip :=
  match s.stage with
  | .upgrading identity => if ok then { s with stage := .handling identity } else { s with stage := .closed }
  | _ => s

def handshake (s : Socket Ip) : Handshake → Socket Ip
  | .tls outcome => s.tls outcome
  | .upgrade ok => s.upgrade ok

end Socket

inductive Arrival (Ip : Type) where
  | accept (listener : Listener) (ip : Ip) (now : Nat)
  | sweep (now : Nat)
  | tls (socket : Nat) (outcome : Option (Option String))
  | upgrade (socket : Nat) (ok : Bool)
deriving DecidableEq

/-- What an arrival asks of the limiter. -/
def Arrival.call {Ip : Type} : Arrival Ip → Option (RateLimiter.Call Ip)
  | accept _ ip now => some (.check ip now)
  | sweep now => some (.sweep now)
  | tls .. | upgrade .. => none

/-- What an arrival tells the task of socket `k`. -/
def Arrival.handshake {Ip : Type} (k : Nat) : Arrival Ip → Option Handshake
  | tls socket outcome => if socket = k then some (.tls outcome) else none
  | upgrade socket ok => if socket = k then some (.upgrade ok) else none
  | accept .. | sweep _ => none

/-- What the socket's task does that was not done before. -/
def news {Ip : Type} (k : Nat) (before after : Option (Socket Ip)) : List Deed :=
  match before.bind Socket.handled, after.bind Socket.handled with
  | none, some identity => [.handle k identity]
  | _, _ => []

structure Front (Ip : Type) [DecidableEq Ip] where
  limiter : RateLimiter Ip
  socketConnections : Nat := 0
  connectionsRateLimited : Nat := 0
  sockets : List (Socket Ip) := []

namespace Front
variable {Ip : Type} [DecidableEq Ip]

def accept (f : Front Ip) (listener : Listener) (ip : Ip) (now : Nat) : Front Ip × List Deed :=
  let f := { f with socketConnections := f.socketConnections + 1 }
  let r := f.limiter.check ip now
  if r.2 then
    let socket := ⟨listener, ip, now, firstStage listener⟩
    ({ f with limiter := r.1, sockets := f.sockets ++ [socket] }, news f.sockets.length none (some socket))
  else ({ f with limiter := r.1, connectionsRateLimited := f.connectionsRateLimited + 1 }, [])

/-- A socket's task goes on. -/
def goOn (f : Front Ip) (k : Nat) (act : Socket Ip → Socket Ip) : Front Ip × List Deed :=
  ({ f with sockets := f.sockets.modify k act }, news k f.sockets[k]? (f.sockets[k]?.map act))

def step (f : Front Ip) : Arrival Ip → Front Ip × List Deed
  | .accept listener ip now => f.accept listener ip now
  | .sweep now => ({ f with limiter := f.limiter.sweep now }, [])
  | .tls k outcome => f.goOn k (·.tls outcome)
  | .upgrade k ok => f.goOn k (·.upgrade ok)

end Front

/-! ## What the task of a socket is to do -/

/-- The first TLS handshake that ends, and what comes after it. -/
def firstTls : List Handshake → Option (Option (Option String) × List Handshake)
  | [] => none
  | .tls outcome :: hs => some (outcome, hs)
  | .upgrade _ :: hs => firstTls hs

/-- The first WebSocket handshake that ends has succeeded. -/
def upgraded : List Handshake → Bool
  | [] => false
  | .upgrade ok :: _ => ok
  | .tls _ :: hs => upgraded hs

/-- The identity to call `handle_connection` with, once the handshakes that the listener asks for have all succeeded. -/
def identityOf : Listener → List Handshake → Option (Option String)
  | .plain, _ => some none
  | .tls, hs => (firstTls hs).bind fun r => r.1
  | .ws, hs => if upgraded hs then some none else none
  | .wsTls, hs => (firstTls hs).bind fun r => r.1.filter fun _ => upgraded r.2

/-- An identity comes out of a TLS handshake only. -/
theorem usesTls_of_identityOf {listener : Listener} {hs : List Handshake} {identity : String}
    (h : identityOf listener hs = some (some identity)) : usesTls listener = true := by
  cases listener with
  | plain => cases h
  | tls => rfl
  | ws =>
    rw [identityOf] at h
    split at h
    · cases h
    · cases h
  | wsTls => rfl

/-! ## One socket -/

namespace Socket
variable {Ip : Type} {s : Socket Ip}

theorem tls_cases (s : Socket Ip) (outcome : Option (Option String)) :
    s.tls outcome = s ∨ (s.stage = .tls ∧ ∃ stage, s.tls outcome = { s with stage := stage }) := by
  unfold tls
  split
  · exact .inr ⟨‹_›, _, rfl⟩
  · split
    · exact .inr ⟨‹_›, _, rfl⟩
    · exact .inr ⟨‹_›, _, rfl⟩
  · exact .inl rfl

theorem upgrade_cases (s : Socket Ip) (ok : Bool) :
    s.upgrade ok = s ∨ ∃ identity, s.stage = .upgrading identity ∧
      (s.upgrade ok = { s with stage := .handling identity } ∨ s.upgrade ok = { s with stage := .closed }) := by
  unfold upgrade
  split
  · rename_i identity hstage
    split
    · exact .inr ⟨identity, hstage, .inl rfl⟩
    · exact .inr ⟨identity, hstage, .inr rfl⟩
  · exact .inl rfl

/-- What a handshake leaves alone. -/
structure Keeps (act : Socket Ip → Socket Ip) : Prop where
  admission : ∀ s, (act s).ip = s.ip ∧ (act s).accepted = s.accepted ∧ (act s).listener = s.listener
  handled : ∀ s identity, s.handled = some identity → (act s).handled = some identity

theorem keeps_tls (outcome : Option (Option String)) : Keeps fun s : Socket Ip => s.tls outcome := by
  refine ⟨fun s => ?_, fun s identity h => ?_⟩
  · rcases s.tls_cases outcome with heq | ⟨-, stage, heq⟩ <;> rw [heq] <;> exact ⟨rfl, rfl, rfl⟩
  · rcases s.tls_cases outcome with heq | ⟨htls, -⟩
    · simp only [heq, h]
    · simp [handled, htls] at h

theorem keeps_upgrade (ok : Bool) : Keeps fun s : Socket Ip => s.upgrade ok := by
  refine ⟨fun s => ?_, fun s identity h => ?_⟩
  · rcases s.upgrade_cases ok with heq | ⟨_, -, heq | heq⟩ <;> rw [heq] <;> exact ⟨rfl, rfl, rfl⟩
  · rcases s.upgrade_cases ok with heq | ⟨_, hstage, -⟩
    · simp only [heq, h]
    · simp [handled, hstage] at h

/-- Nothing is waited for any more. -/
theorem foldl_settled (h : s.stage = .closed ∨ ∃ identity, s.stage = .handling identity) :
    ∀ hs : List Handshake, hs.foldl handshake s = s
  | [] => rfl
  | .tls outcome :: hs => by
    have hstay : s.tls outcome = s := by
      rcases h with h | ⟨identity, h⟩ <;> simp [tls, h]
    rw [List.foldl_cons, handshake, hstay, foldl_settled h hs]
  | .upgrade ok :: hs => by
    have hstay : s.upgrade ok = s := by
      rcases h with h | ⟨identity, h⟩ <;> simp [upgrade, h]
    rw [List.foldl_cons, handshake, hstay, foldl_settled h hs]

theorem handled_upgrading {identity : Option String} (h : s.stage = .upgrading identity) :
    ∀ hs : List Handshake, (hs.foldl handshake s).handled = if upgraded hs then some identity else none
  | [] => by simp [handled, h, upgraded]
  | .tls outcome :: hs => by
    have hstay : s.tls outcome = s := by simp [tls, h]
    rw [List.foldl_cons, handshake, hstay, handled_upgrading h hs, upgraded]
  | .upgrade true :: hs => by
    rw [List.foldl_cons, foldl_settled (.inr ⟨identity, by simp [handshake, upgrade, h]⟩)]
    simp [handshake, upgrade, h, handled, upgraded]
  | .upgrade false :: hs => by
    rw [List.foldl_cons, foldl_settled (.inl (by simp [handshake, upgrade, h]))]
    simp [handshake, upgrade, h, handled, upgraded]

theorem handled_tls (h : s.stage = .tls) : ∀ hs : List Handshake, (hs.foldl handshake s).handled =
    (firstTls hs).bind fun r => if s.listener = .wsTls then r.1.filter fun _ => upgraded r.2 else r.1
  | [] => by simp [handled, h, firstTls]
  | .upgrade ok :: hs => by
    have hstay : s.upgrade ok = s := by simp [upgrade, h]
    rw [List.foldl_cons, handshake, hstay, handled_tls h hs, firstTls]
  | .tls none :: hs => by
    rw [List.foldl_cons, foldl_settled (.inl (by simp [handshake, tls, h]))]
    simp [handshake, tls, h, handled, firstTls]
  | .tls (some identity) :: hs => by
    by_cases hws : s.listener = .wsTls
    · have hstage : (s.tls (some identity)).stage = .upgrading identity := by simp [tls, h, hws]
      rw [List.foldl_cons, handshake, handled_upgrading hstage]
      simp [firstTls, hws, Option.filter]
    · rw [List.foldl_cons, foldl_settled (.inr ⟨identity, by simp [handshake, tls, h, hws]⟩)]
      simp [handshake, tls, h, hws, handled, firstTls]

/-- A task that has just begun ends up where its listener and its handshakes take it. -/
theorem handled_handshakes (listener : Listener) (ip : Ip) (now : Nat) (hs : List Handshake) :
    (hs.foldl handshake ⟨listener, ip, now, firstStage listener⟩).handled = identityOf listener hs := by
  cases listener with
  | plain => rw [foldl_settled (.inr ⟨none, rfl⟩), handled, firstStage, identityOf]
  | tls => rw [handled_tls rfl, identityOf]; rfl
  | ws => rw [handled_upgrading rfl, identityOf]
  | wsTls => rw [handled_tls rfl, identityOf]; rfl

end Socket

section
variable {Ip : Type}

theorem news_filter (k k' : Nat) (before after : Option (Socket Ip)) :
    (news k before after).filter (·.socket = k') = if k = k' then news k before after else [] := by
  unfold news
  split
  · by_cases h : k = k' <;> simp [Deed.socket, h]
  · simp

/-- What was called and what is called now are what is to be called after it. -/
theorem news_append (k : Nat) (before after : Option (Socket Ip))
    (h : ∀ identity, before.bind Socket.handled = some identity → after.bind Socket.handled = some identity) :
    ((before.bind Socket.handled).map (Deed.handle k)).toList ++ news k before after =
      ((after.bind Socket.handled).map (Deed.handle k)).toList := by
  unfold news
  cases hbefore : before.bind Socket.handled with
  | none =>
    cases after.bind Socket.handled with
    | none => rfl
    | some identity => rfl
  | some identity =>
    rw [h identity hbefore]
    rfl

end

/-! ## All sockets -/

namespace Front
variable {Ip : Type} [DecidableEq Ip]

/-- `handle_connection` has been called for the sockets that are at that stage, once for each and with what its task had. -/
def Called (f : Front Ip) (ds : List Deed) : Prop :=
  ∀ k, ds.filter (·.socket = k) = ((f.sockets[k]?.bind Socket.handled).map (Deed.handle k)).toList

theorem Called.goOn {f : Front Ip} {ds : List Deed} (h : f.Called ds) {act : Socket Ip → Socket Ip} (hact : Socket.Keeps act)
    (k : Nat) : (f.goOn k act).1.Called (ds ++ (f.goOn k act).2) := by
  intro k'
  simp only [Front.goOn, List.filter_append, h k', news_filter, List.getElem?_modify]
  by_cases hk : k = k'
  · subst hk
    simp only [if_true]
    have happend := news_append k f.sockets[k]? (f.sockets[k]?.map act) fun identity hidentity => by
      obtain ⟨s, hs, hhandled⟩ := Option.bind_eq_some_iff.1 hidentity
      rw [hs]
      exact hact.handled s identity hhandled
    exact happend
  · simp [hk]

theorem Called.accept {f : Front Ip} {ds : List Deed} (h : f.Called ds) (listener : Listener) (ip : Ip) (now : Nat) :
    (f.accept listener ip now).1.Called (ds ++ (f.accept listener ip now).2) := by
  unfold Front.accept
  simp only
  split
  · intro k
    simp only [List.filter_append, h k, news_filter, List.getElem?_append, List.getElem?_singleton]
    by_cases hk : f.sockets.length = k
    · subst hk
      have happend := news_append f.sockets.length none (some (⟨listener, ip, now, firstStage listener⟩ : Socket Ip))
        fun identity hidentity => by cases hidentity
      simpa using happend
    · by_cases hlt : k < f.sockets.length
      · simp [hk, hlt]
      · have hout : ¬k - f.sockets.length = 0 := by omega
        simp [hk, hlt, hout]
  · rw [List.append_nil]
    exact h

theorem Called.step {f : Front Ip} {ds : List Deed} (h : f.Called ds) (a : Arrival Ip) :
    (f.step a).1.Called (ds ++ (f.step a).2) := by
  cases a with
  | accept listener ip now => exact h.accept listener ip now
  | sweep now =>
    rw [Front.step, List.append_nil]
    exact h
  | tls k outcome => exact h.goOn (Socket.keeps_tls outcome) k
  | upgrade k ok => exact h.goOn (Socket.keeps_upgrade ok) k

/-- A socket goes on with its own handshakes only. -/
theorem step_socket {f : Front Ip} {k : Nat} {s : Socket Ip} (h : f.sockets[k]? = some s) (a : Arrival Ip) :
    (f.step a).1.sockets[k]? = some ((a.handshake k).toList.foldl Socket.handshake s) := by
  have hgoOn : ∀ (k' : Nat) (act : Socket Ip → Socket Ip),
      (f.goOn k' act).1.sockets[k]? = some (if k' = k then act s else s) := by
    intro k' act
    rw [Front.goOn, List.getElem?_modify, h]
    rfl
  cases a with
  | accept listener ip now =>
    have hlt := (List.getElem?_eq_some_iff.1 h).1
    simp only [Front.step, Front.accept, Arrival.handshake, Option.toList_none, List.foldl_nil]
    split
    · rw [List.getElem?_append_left hlt, h]
    · exact h
  | sweep now => exact h
  | tls k' outcome =>
    rw [Front.step, hgoOn, Arrival.handshake]
    by_cases hk : k' = k
    · simp [hk, Socket.handshake]
    · simp [hk]
  | upgrade k' ok =>
    rw [Front.step, hgoOn, Arrival.handshake]
    by_cases hk : k' = k
    · simp [hk, Socket.handshake]
    · simp [hk]

theorem run_socket {k : Nat} : ∀ (as : List (Arrival Ip)) {f : Front Ip} {s : Socket Ip}, f.sockets[k]? = some s →
    (Machine.run step f as).1.sockets[k]? = some ((as.filterMap (·.handshake k)).foldl Socket.handshake s)
  | [], _, _, h => h
  | a :: as, f, s, h => by
    rw [Machine.run, run_socket as (step_socket h a), List.filterMap_eq_flatMap_toList, List.filterMap_eq_flatMap_toList,
      List.flatMap_cons, List.foldl_append]

/-! ## The limiter of all listeners -/

/-- Which IP has been let in, and when. -/
def admissions (f : Front Ip) : List (Ip × Nat) := f.sockets.map fun s => (s.ip, s.accepted)

/-- A step asks the limiter what the arrival says, lets in what it answers with yes, and counts. -/
theorem step_limiter (f : Front Ip) (a : Arrival Ip) :
    (f.step a).1.limiter = (RateLimiter.run f.limiter a.call.toList).1 ∧
      (f.step a).1.admissions = f.admissions ++
        ((RateLimiter.run f.limiter a.call.toList).2.filter (·.ok)).map (fun x => (x.ip, x.now)) ∧
      (f.step a).1.connectionsRateLimited =
        f.connectionsRateLimited + (RateLimiter.run f.limiter a.call.toList).2.countP (fun x => !x.ok) ∧
      (f.step a).1.socketConnections = f.socketConnections + (RateLimiter.run f.limiter a.call.toList).2.length := by
  have hgoOn : ∀ (k : Nat) (act : Socket Ip → Socket Ip), Socket.Keeps act → (f.goOn k act).1.admissions = f.admissions := by
    intro k act hact
    refine List.ext_getElem (by simp [admissions, Front.goOn]) fun i h h' => ?_
    simp only [admissions, Front.goOn, List.getElem_map, List.getElem_modify]
    split
    · rw [(hact.admission _).1, (hact.admission _).2.1]
    · rfl
  cases a with
  | accept listener ip now =>
    simp only [Front.step, Front.accept, Arrival.call, Option.toList_some, RateLimiter.run, Machine.run, RateLimiter.step]
    split
    · rename_i hok
      simp [admissions, hok]
    · rename_i hok
      simp [admissions, hok]
  | sweep now => exact ⟨rfl, (List.append_nil _).symm, rfl, rfl⟩
  | tls k outcome => exact ⟨rfl, (hgoOn k _ (Socket.keeps_tls outcome)).trans (List.append_nil _).symm, rfl, rfl⟩
  | upgrade k ok => exact ⟨rfl, (hgoOn k _ (Socket.keeps_upgrade ok)).trans (List.append_nil _).symm, rfl, rfl⟩

theorem run_limiter : ∀ (as : List (Arrival Ip)) (f : Front Ip),
    (Machine.run step f as).1.limiter = (RateLimiter.run f.limiter (as.filterMap Arrival.call)).1 ∧
      (Machine.run step f as).1.admissions = f.admissions ++
        ((RateLimiter.run f.limiter (as.filterMap Arrival.call)).2.filter (·.ok)).map (fun x => (x.ip, x.now)) ∧
      (Machine.run step f as).1.connectionsRateLimited =
        f.connectionsRateLimited + (RateLimiter.run f.limiter (as.filterMap Arrival.call)).2.countP (fun x => !x.ok) ∧
      (Machine.run step f as).1.socketConnections =
        f.socketConnections + (RateLimiter.run f.limiter (as.filterMap Arrival.call)).2.length
  | [], f => ⟨rfl, (List.append_nil _).symm, rfl, rfl⟩
  | a :: as, f => by
    obtain ⟨hl, ha, hr, hc⟩ := f.step_limiter a
    obtain ⟨hls, has, hrs, hcs⟩ := run_limiter as (f.step a).1
    have hcalls : (a :: as).filterMap Arrival.call = a.call.toList ++ as.filterMap Arrival.call := by
      rw [List.filterMap_eq_flatMap_toList, List.filterMap_eq_flatMap_toList, List.flatMap_cons]
    rw [hl] at hls has hrs hcs
    rw [Machine.run, hls, has, hrs, hcs, ha, hr, hc, hcalls, RateLimiter.run, RateLimiter.run, RateLimiter.run,
      Machine.run_append, List.filter_append, List.map_append, List.append_assoc, List.countP_append, List.length_append,
      Nat.add_assoc, Nat.add_assoc]
    exact ⟨rfl, rfl, rfl, rfl⟩

/-- The start of a server with this limit. -/
def start (limit window : Nat) : Front Ip := { limiter := .withWindow limit window }

/-- What the limiter has answered to the accepts. -/
def asked (limit window : Nat) (as : List (Arrival Ip)) : List (RateLimiter.Answer Ip) :=
  (RateLimiter.run (.withWindow limit window) (as.filterMap Arrival.call)).2

/-- Socket `k` comes in at this listener, and `post` after it: the limiter, asked by then as the arrivals before say, lets it
in as it has let in `k` others. -/
def AcceptedAs (limit window : Nat) (as : List (Arrival Ip)) (k : Nat) (listener : Listener) (post : List (Arrival Ip)) :
    Prop :=
  ∃ pre ip now, as = pre ++ .accept listener ip now :: post ∧
    ((RateLimiter.run (.withWindow limit window) (pre.filterMap Arrival.call)).1.check ip now).2 = true ∧
    (asked limit window pre).countP (·.ok) = k

section Run
variable {limit window : Nat} {as : List (Arrival Ip)}

theorem called_run (limit window : Nat) (as : List (Arrival Ip)) :
    (Machine.run step (start limit window) as).1.Called (Machine.run step (start limit window) as).2 := by
  have hstart : (start limit window : Front Ip).Called [] := fun k => by simp [start]
  exact Machine.run_invariant step Called hstart (fun f ds a h _ => h.step a) as
    (Machine.Along.of_forall step (fun _ _ => trivial) _ as)

theorem sockets_length (limit window : Nat) (as : List (Arrival Ip)) :
    (Machine.run step (start limit window) as).1.sockets.length = (asked limit window as).countP (·.ok) := by
  have hadm := (run_limiter as (start limit window)).2.1
  have hlen := congrArg List.length hadm
  simpa [admissions, start, asked, List.countP_eq_length_filter] using hlen

/-- A socket that has been accepted is where its handshakes since then take it. -/
theorem AcceptedAs.socket {k : Nat} {listener : Listener} {post : List (Arrival Ip)}
    (h : AcceptedAs limit window as k listener post) :
    ((Machine.run step (start limit window) as).1.sockets[k]?).bind Socket.handled =
      identityOf listener (post.filterMap (·.handshake k)) := by
  obtain ⟨pre, ip, now, rfl, hok, hk⟩ := h
  have hok : ((Machine.run step (start limit window) pre).1.limiter.check ip now).2 = true := by
    rw [(run_limiter pre (start limit window)).1]
    exact hok
  have hlen := sockets_length limit window pre
  have hsocket : ((Machine.run step (start limit window) pre).1.step (.accept listener ip now)).1.sockets[k]? =
      some ⟨listener, ip, now, firstStage listener⟩ := by
    simp only [Front.step, Front.accept]
    rw [if_pos hok]
    simp [hlen, hk]
  rw [Machine.run_append, Machine.run, run_socket post hsocket, Option.bind_some, Socket.handled_handshakes]

/-- Every socket has been accepted. -/
theorem exists_acceptedAs {k : Nat} (hk : k < (Machine.run step (start limit window) as).1.sockets.length) :
    ∃ listener post, AcceptedAs limit window as k listener post := by
  induction as using List.reverseRecOn with
  | nil => cases hk
  | append_singleton as a ih =>
    by_cases hlt : k < (Machine.run step (start limit window) as).1.sockets.length
    · obtain ⟨listener, post, pre, ip, now, rfl, h⟩ := ih hlt
      exact ⟨listener, post ++ [a], pre, ip, now, by simp, h⟩
    · rw [Machine.run_append] at hk
      have hlimiter := (run_limiter as (start limit window)).1
      have hlen := sockets_length limit window as
      cases a with
      | accept listener ip now =>
        simp only [Machine.run, Front.step, Front.accept, hlimiter] at hk
        split at hk
        · rename_i hok
          rw [List.length_append, List.length_singleton] at hk
          exact ⟨listener, [], as, ip, now, rfl, hok, by omega⟩
        · exact absurd hk hlt
      | sweep now => exact absurd hk hlt
      | tls k' outcome => exact absurd hk (by simpa [Machine.run, Front.step, Front.goOn] using hlt)
      | upgrade k' ok => exact absurd hk (by simpa [Machine.run, Front.step, Front.goOn] using hlt)

end Run

/-- **The front door**: however the accept loops of all listeners, the sweeps and the handshakes interleave, the socket that
is let in as the `k`-th is handed to `handle_connection` once, when the handshakes that its listener asks for have succeeded,
and with the identity that they gave, else not at all; nothing else is handed to it, an identity comes from a TLS listener
only, and the two counters tell how many were let in. -/
theorem front_door (limit window : Nat) (as : List (Arrival Ip)) :
    (∀ k listener post, AcceptedAs limit window as k listener post →
      (Machine.run step (start limit window) as).2.filter (·.socket = k) =
        ((identityOf listener (post.filterMap (·.handshake k))).map (Deed.handle k)).toList) ∧
    (∀ k identity, .handle k identity ∈ (Machine.run step (start limit window) as).2 → ∃ listener post,
      AcceptedAs limit window as k listener post ∧ (identity.isSome → usesTls listener = true)) ∧
    (Machine.run step (start limit window) as).1.sockets.length = (asked limit window as).countP (·.ok) ∧
    (Machine.run step (start limit window) as).1.connectionsRateLimited = (asked limit window as).countP (fun x => !x.ok) ∧
    (Machine.run step (start limit window) as).1.connectionsRateLimited +
        (Machine.run step (start limit window) as).1.sockets.length =
      (Machine.run step (start limit window) as).1.socketConnections := by
  have hcalled := called_run limit window as
  have hlen := sockets_length limit window as
  obtain ⟨-, -, hlimited, hconnections⟩ := run_limiter as (start limit window)
  have hdeeds : ∀ k listener post, AcceptedAs limit window as k listener post →
      (Machine.run step (start limit window) as).2.filter (·.socket = k) =
        ((identityOf listener (post.filterMap (·.handshake k))).map (Deed.handle k)).toList := by
    intro k listener post h
    rw [hcalled k, h.socket]
  refine ⟨hdeeds, fun k identity hmem => ?_, hlen, ?_, ?_⟩
  · have hfilter : .handle k identity ∈ (Machine.run step (start limit window) as).2.filter (·.socket = k) :=
      List.mem_filter.2 ⟨hmem, by simp [Deed.socket]⟩
    have hk : k < (Machine.run step (start limit window) as).1.sockets.length := by
      by_contra hout
      rw [hcalled k, List.getElem?_eq_none (Nat.le_of_not_lt hout)] at hfilter
      cases hfilter
    obtain ⟨listener, post, h⟩ := exists_acceptedAs hk
    refine ⟨listener, post, h, fun hsome => ?_⟩
    obtain ⟨name, rfl⟩ := Option.isSome_iff_exists.1 hsome
    rw [hdeeds k listener post h] at hfilter
    obtain ⟨i, hi, heq⟩ := Option.map_eq_some_iff.1 (Option.mem_toList.1 hfilter)
    obtain ⟨-, rfl⟩ := Deed.handle.inj heq
    exact usesTls_of_identityOf hi
  · rw [hlimited]
    exact Nat.zero_add _
  · have hsplit : (asked limit window as).length =
        (asked limit window as).countP (·.ok) + (asked limit window as).countP (fun x => !x.ok) := by
      rw [List.length_eq_countP_add_countP (·.ok)]
      simp
    rw [hlimited, hconnections, hlen]
    simp only [start, asked] at hsplit ⊢
    omega

/-- Who has been let in is who the limiter has said yes to. -/
theorem countP_sockets (limit window : Nat) (as : List (Arrival Ip)) (ip : Ip) (lo : Nat) :
    ((Machine.run step (start limit window) as).1.sockets.countP fun s =>
        s.ip = ip && lo ≤ s.accepted && s.accepted < lo + window) =
      (RateLimiter.answers limit window ip (as.filterMap Arrival.call)).countP fun a =>
        lo ≤ a.now && a.now < lo + window && a.ok := by
  have hadm := (run_limiter as (start limit window)).2.1
  simp only [start, admissions, List.map_nil, List.nil_append] at hadm
  calc _ = (((Machine.run step (start limit window) as).1.sockets.map fun s => (s.ip, s.accepted)).countP fun x =>
        x.1 = ip && lo ≤ x.2 && x.2 < lo + window) := by rw [List.countP_map]; rfl
    _ = _ := by
      rw [start, hadm, List.countP_map, List.countP_filter, RateLimiter.answers, List.countP_filter]
      refine List.countP_congr fun a _ => ?_
      simp only [Function.comp_apply, Bool.and_eq_true, decide_eq_true_eq]
      tauto

/-- **One limit for all listeners**: whichever of the listeners an IP comes to, and however its handshakes go on, at most
`2 * limit` of its sockets are let in within any interval of the length of a window, as long as none of its windows gets
`2^32` sockets. -/
theorem admitted_le (limit window : Nat) (hl : 0 < limit) (hl32 : limit < 2 ^ 32) (hw : 0 < window) (as : List (Arrival Ip))
    (ho : RateLimiter.Ordered (as.filterMap Arrival.call)) (ip : Ip)
    (hround : ∀ e ∈ Windows.windows window (RateLimiter.instants ip (as.filterMap Arrival.call)), e.length < 2 ^ 32)
    (lo : Nat) :
    ((Machine.run step (start limit window) as).1.sockets.countP fun s =>
      s.ip = ip && lo ≤ s.accepted && s.accepted < lo + window) ≤ 2 * limit := by
  rw [countP_sockets]
  exact RateLimiter.countP_interval_le hl hw ho ip lo fun e he =>
    (RateLimiter.windowAnswers_countP_le_iff ip hl32 e).2 (hround e he)

/-- Four sockets of one IP, over all listeners, and the handshakes of two of them. -/
def rush : List (Arrival Nat) :=
  [.accept .plain 7 0, .accept .wsTls 7 1, .tls 1 (some (some "meter")), .accept .tls 7 2, .sweep 5, .upgrade 1 true,
    .accept .ws 7 6]

theorem admitted_le_rush : (Machine.run step (start 2 60) rush).1.sockets.length = 2 ∧
    ((Machine.run step (start 2 60) rush).1.sockets.countP fun s =>
      s.ip = 7 && 0 ≤ s.accepted && s.accepted < 0 + 60) ≤ 2 * 2 := by
  refine ⟨by decide, admitted_le 2 60 (by decide) (by decide) (by decide) rush (by decide) 7 (fun e he => ?_) 0⟩
  calc e.length ≤ (RateLimiter.instants 7 (rush.filterMap Arrival.call)).length := Windows.length_le_of_mem_windows 60 he
    _ ≤ (rush.filterMap Arrival.call).length := List.length_filterMap_le ..
    _ < 2 ^ 32 := by decide

example : (Machine.run step (start 2 60) rush).2 = [.handle 0 none, .handle 1 (some "meter")] := by decide

end Front

end WispMQ.Accepting
