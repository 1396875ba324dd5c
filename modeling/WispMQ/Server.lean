import WispMQ.Effects
import WispMQ.Epochs
/-!
# The connection task: `handle_connection` (server.rs:234-415)

| here | there |
| --- | --- |
| `Event`             | what the task waits for, and the outcome of the socket write that follows |
| `Conn.opening`      | up to the first packet (server.rs:247-271) |
| `Conn.connecting`   | `handle_connect` and the CONNACK (server.rs:280-304) |
| `Conn.running`      | the `select!` loop (server.rs:318-409) |
| `leave`             | after the loop (server.rs:411-414) |

A `send(..).await?` returns from the task, a `let _ = send(..).await` does not. The first kind writes the
CONNACK and everything the broker pushes, and skips `handle_connection_closed` when it fails.
-/

namespace WispMQ
open KeyMap

/-- What the task sees; `writeOk` is the outcome of the write the event leads to. -/
inductive Event where
  /-- The first packet. -/
  | first (p : Packet)
  /-- No first packet: EOF, which is no error, or a read error or the timeout. -/
  | noFirst (eof : Bool)
  | refused (connack : Connack) (writeOk : Bool)
  | accepted (a : Accepted) (writeOk : Bool)
  /-- `rx.recv()`; the channel is closed once the sender is dropped and it is empty. -/
  | outgoing (item : Outgoing) (writeOk : Bool)
  | channelClosed
  /-- A packet was read, and `handle_packet` returned `action`. -/
  | packet (p : Packet) (action : Action) (writeOk : Bool)
  | eof
  /-- A packet that cannot be decoded. -/
  | malformed (rc : ReasonCode) (writeOk : Bool)
  | timeout (writeOk : Bool)
deriving DecidableEq

inductive Conn where
  | opening
  | connecting
  | running (clientId : String) (epoch : Nat)
  | returned (ok : Bool)
deriving DecidableEq

/-- What the task does. -/
inductive Io where
  | write (p : Packet) (ok : Bool)
  | shutdown
  | call (c : Call)
deriving DecidableEq

namespace Conn
variable (identity : Option String) (version : ProtocolVersion)

/-- `send(&mut wr, p, ..).await?`, and then `next`. -/
def sendOrReturn (p : Packet) (ok : Bool) (next : Conn) : Conn × List Io :=
  (if ok then next else .returned false, [.write p ok])

/-- A DISCONNECT if the client understands it; the outcome is ignored. -/
def sayGoodbye (rc : ReasonCode) (ok : Bool) : List Io :=
  if version.isV5 then [.write (.disconnect ⟨rc, none⟩) ok] else []

/-- Out of the loop. -/
def leave (cid : String) (epoch : Nat) (publishWill : Bool) (before : List Io) : Conn × List Io :=
  (.returned true, before ++ [.shutdown, .call (.closed cid epoch publishWill)])

/-- The event is one the task waits for here. -/
def Waits : Conn → Event → Prop
  | opening, .first _ | opening, .noFirst _ => True
  | connecting, .refused .. | connecting, .accepted .. => True
  | running .., .outgoing .. | running .., .channelClosed | running .., .packet .. | running .., .eof
  | running .., .malformed .. | running .., .timeout _ => True
  | _, _ => False

def handle : Conn → Event → Conn × List Io
  | opening, .first (.connect c) => (.connecting, [.call (.connect c identity)])
  | opening, .first _ => (.returned false, [])
  | opening, .noFirst eof => (.returned eof, [])
  | connecting, .refused connack ok => sendOrReturn (.connack connack) ok (.returned true)
  | connecting, .accepted a ok => sendOrReturn (.connack a.connack) ok (.running a.clientId a.epoch)
  | running cid epoch, .outgoing (.send p) ok => sendOrReturn (.publish p) ok (.running cid epoch)
  | running cid epoch, .outgoing (.control p) ok => sendOrReturn p ok (.running cid epoch)
  | running cid epoch, .outgoing (.shutdown rc) ok => leave cid epoch false (sayGoodbye version rc ok)
  | running cid epoch, .channelClosed => leave cid epoch true []
  | running cid epoch, .packet p .continue _ => (.running cid epoch, [.call (.packet cid epoch p)])
  | running cid epoch, .packet p (.serverDisconnect rc) ok =>
    leave cid epoch true (.call (.packet cid epoch p) :: sayGoodbye version rc ok)
  | running cid epoch, .packet p (.clientDisconnect publishWill) _ =>
    leave cid epoch publishWill [.call (.packet cid epoch p)]
  | running cid epoch, .eof => leave cid epoch true []
  | running cid epoch, .malformed rc ok => leave cid epoch true (sayGoodbye version rc ok)
  | running cid epoch, .timeout ok => leave cid epoch true (sayGoodbye version .keepAliveTimeout ok)
  | c, _ => (c, [])

/-- The state after the events, and what was done on the way. -/
def handleConnection (es : List Event) : Conn × List Io := Machine.run (handle identity version) .opening es

end Conn

/-- The write that follows the event fails, and the task returns on it. -/
def Event.LosesConnection : Event → Prop
  | .accepted _ ok | .outgoing (.send _) ok | .outgoing (.control _) ok => ok = false
  | _ => False

/-- The calls of `handle_connection_closed` for a connection. -/
def closes (cid : String) (epoch : Nat) (ios : List Io) : List Bool :=
  ios.filterMap fun
    | .call (.closed c e publishWill) => if c = cid ∧ e = epoch then some publishWill else none
    | _ => none

@[simp] theorem closes_append (cid : String) (epoch : Nat) (ios ios' : List Io) :
    closes cid epoch (ios ++ ios') = closes cid epoch ios ++ closes cid epoch ios' := List.filterMap_append

namespace Conn
variable {identity : Option String} {version : ProtocolVersion} {cid : String} {epoch : Nat}

theorem closes_sayGoodbye (rc : ReasonCode) (ok : Bool) : closes cid epoch (sayGoodbye version rc ok) = [] := by
  unfold sayGoodbye
  split <;> rfl

theorem leave_closes (cid : String) (epoch : Nat) (publishWill : Bool) {before : List Io} (h : closes cid epoch before = []) :
    (leave cid epoch publishWill before).1 = .returned true ∧
      closes cid epoch (leave cid epoch publishWill before).2 = [publishWill] := by
  refine ⟨rfl, ?_⟩
  simp only [leave, closes_append, h]
  simp [closes]

/-- One event in the loop: the task goes on, or loses the connection, or leaves with one close. -/
theorem handle_running (identity : Option String) (version : ProtocolVersion) {e : Event}
    (hw : Waits (.running cid epoch) e) :
    ((handle identity version (.running cid epoch) e).1 = .running cid epoch ∧ ¬e.LosesConnection ∧
      closes cid epoch (handle identity version (.running cid epoch) e).2 = []) ∨
    (∃ r, (handle identity version (.running cid epoch) e).1 = .returned r) ∧
      ((closes cid epoch (handle identity version (.running cid epoch) e).2).length = 1 ↔ ¬e.LosesConnection) := by
  have hleave : ∀ {publishWill : Bool} {before : List Io}, ¬e.LosesConnection → closes cid epoch before = [] →
      (∃ r, (leave cid epoch publishWill before).1 = .returned r) ∧
        ((closes cid epoch (leave cid epoch publishWill before).2).length = 1 ↔ ¬e.LosesConnection) := by
    intro publishWill before hl hb
    obtain ⟨h1, h2⟩ := leave_closes cid epoch publishWill hb
    exact ⟨⟨_, h1⟩, by simp [h2, hl]⟩
  cases e with
  | outgoing item ok =>
    cases item with
    | shutdown rc => exact .inr (hleave id (closes_sayGoodbye _ _))
    | _ =>
      cases ok
      · refine .inr ⟨⟨_, rfl⟩, ?_⟩
        simp [handle, sendOrReturn, closes, Event.LosesConnection]
      · exact .inl ⟨rfl, by simp [Event.LosesConnection], rfl⟩
  | channelClosed => exact .inr (hleave id rfl)
  | packet p action ok =>
    cases action with
    | «continue» => exact .inl ⟨rfl, id, rfl⟩
    | serverDisconnect rc => exact .inr (hleave id (closes_sayGoodbye _ _))
    | clientDisconnect publishWill => exact .inr (hleave id rfl)
  | eof => exact .inr (hleave id rfl)
  | malformed rc ok => exact .inr (hleave id (closes_sayGoodbye _ _))
  | timeout ok => exact .inr (hleave id (closes_sayGoodbye _ _))
  | _ => exact hw.elim

/-- Nothing is waited for once the task has returned. -/
theorem along_returned {r : Bool} {es : List Event}
    (h : Machine.Along (handle identity version) Waits (.returned r) es) : es = [] := by
  cases es with
  | nil => rfl
  | cons e es => exact h.1.elim

/-- The loop closes the connection once, unless it loses it. -/
theorem running_closes_iff : ∀ {es : List Event},
    Machine.Along (handle identity version) Waits (.running cid epoch) es →
    (∃ r, (Machine.run (handle identity version) (.running cid epoch) es).1 = .returned r) →
    ((closes cid epoch (Machine.run (handle identity version) (.running cid epoch) es).2).length = 1 ↔
      ∀ e ∈ es, ¬e.LosesConnection)
  | [], _, hret => by obtain ⟨r, h⟩ := hret; cases h
  | e :: es, hseen, hret => by
    simp only [Machine.run, closes_append, List.length_append, List.forall_mem_cons] at hret ⊢
    rcases handle_running identity version hseen.1 with ⟨hc, hl, hn⟩ | ⟨⟨r, hc⟩, hl⟩
    · have hseen' := hseen.2
      rw [hc] at hseen' hret ⊢
      rw [hn, List.length_nil, Nat.zero_add, running_closes_iff hseen' hret]
      simp [hl]
    · have hes : es = [] := along_returned (hc ▸ hseen.2)
      subst hes
      simpa [Machine.run, closes] using hl

/-- No second CONNECT is waited for in the loop. -/
theorem accepted_not_mem_running {a : Accepted} {ok : Bool} : ∀ {es : List Event},
    Machine.Along (handle identity version) Waits (.running cid epoch) es → .accepted a ok ∉ es
  | [], _ => List.not_mem_nil
  | e :: es, hseen => by
    rw [List.mem_cons, not_or]
    refine ⟨fun h => (h ▸ hseen.1).elim, ?_⟩
    rcases handle_running identity version hseen.1 with ⟨hc, -⟩ | ⟨⟨r, hc⟩, -⟩
    · exact accepted_not_mem_running (hc ▸ hseen.2)
    · have hes : es = [] := along_returned (hc ▸ hseen.2)
      simp [hes]

theorem accepted_not_mem_returned {a : Accepted} {ok r : Bool} {es : List Event}
    (h : Machine.Along (handle identity version) Waits (.returned r) es) : .accepted a ok ∉ es := by
  simp [along_returned h]

theorem along_connecting {es : List Event} {a : Accepted} {ok : Bool}
    (hseen : Machine.Along (handle identity version) Waits .connecting es) (ha : .accepted a ok ∈ es) :
    ∃ rest, es = .accepted a ok :: rest := by
  cases es with
  | nil => cases ha
  | cons e es =>
    rcases List.mem_cons.1 ha with rfl | hmem
    · exact ⟨es, rfl⟩
    cases e with
    | refused connack wok => cases wok <;> exact absurd hmem (accepted_not_mem_returned hseen.2)
    | accepted a' wok =>
      cases wok
      · exact absurd hmem (accepted_not_mem_returned hseen.2)
      · exact absurd hmem (accepted_not_mem_running hseen.2)
    | _ => exact hseen.1.elim

/-- The task reads a CONNECT first, and what it handles then is the answer to it. -/
theorem along_opening {es : List Event} {a : Accepted} {ok : Bool}
    (hseen : Machine.Along (handle identity version) Waits .opening es) (ha : .accepted a ok ∈ es) :
    ∃ c rest, es = .first (.connect c) :: .accepted a ok :: rest := by
  cases es with
  | nil => cases ha
  | cons e es =>
    rcases List.mem_cons.1 ha with rfl | hmem
    · exact hseen.1.elim
    cases e with
    | first p =>
      cases p with
      | connect c =>
        obtain ⟨rest, rfl⟩ := along_connecting hseen.2 hmem
        exact ⟨c, rest, rfl⟩
      | _ => exact absurd hmem (accepted_not_mem_returned hseen.2)
    | noFirst eof => exact absurd hmem (accepted_not_mem_returned hseen.2)
    | _ => exact hseen.1.elim

/-- The loop reports what the event that ends it says. -/
theorem running_closes_of_mem {x : Event} {r : Bool} (hx : (handle identity version (.running cid epoch) x).1 = .returned r) :
    ∀ {es : List Event}, Machine.Along (handle identity version) Waits (.running cid epoch) es → x ∈ es →
      closes cid epoch (Machine.run (handle identity version) (.running cid epoch) es).2 =
        closes cid epoch (handle identity version (.running cid epoch) x).2
  | [], _, hmem => by cases hmem
  | e :: es, hseen, hmem => by
    simp only [Machine.run, closes_append]
    rcases handle_running identity version hseen.1 with ⟨hc, -, hn⟩ | ⟨⟨r', hc⟩, -⟩
    · have hes : x ∈ es := by
        refine (List.mem_cons.1 hmem).resolve_left ?_
        rintro rfl
        rw [hc] at hx
        cases hx
      rw [hc, hn, List.nil_append]
      exact running_closes_of_mem hx (hc ▸ hseen.2) hes
    · have hes : es = [] := along_returned (hc ▸ hseen.2)
      subst hes
      rw [List.mem_singleton] at hmem
      subst hmem
      simp [Machine.run, closes]

/-- What the task reports is decided by the event that ends its loop. -/
theorem handleConnection_closes_of_mem {es : List Event} {a : Accepted} {ok r : Bool} {x : Event}
    (hseen : Machine.Along (handle identity version) Waits .opening es) (ha : .accepted a ok ∈ es) (hmem : x ∈ es)
    (hw : Waits (.running a.clientId a.epoch) x)
    (hx : (handle identity version (.running a.clientId a.epoch) x).1 = .returned r) :
    closes a.clientId a.epoch (handleConnection identity version es).2 =
      closes a.clientId a.epoch (handle identity version (.running a.clientId a.epoch) x).2 := by
  obtain ⟨c, rest, rfl⟩ := along_opening hseen ha
  obtain ⟨-, -, hrest⟩ := hseen
  have hin : x ∈ rest := by
    simp only [List.mem_cons] at hmem
    rcases hmem with rfl | rfl | h
    · exact hw.elim
    · exact hw.elim
    · exact h
  cases ok with
  | false =>
    have h : rest = [] := along_returned hrest
    subst h
    cases hin
  | true =>
    have h := running_closes_of_mem hx hrest hin
    simpa [handleConnection, Machine.run, handle, sendOrReturn, closes] using h

/-- The task calls `handle_connection_closed` once for its connection, exactly if no write it returns on fails. -/
theorem handleConnection_closes_iff {es : List Event} {a : Accepted} {ok : Bool}
    (hseen : Machine.Along (handle identity version) Waits .opening es) (ha : .accepted a ok ∈ es)
    (hret : ∃ r, (handleConnection identity version es).1 = .returned r) :
    (closes a.clientId a.epoch (handleConnection identity version es).2).length = 1 ↔
      ∀ e ∈ es, ¬e.LosesConnection := by
  obtain ⟨c, rest, rfl⟩ := along_opening hseen ha
  obtain ⟨-, -, hrest⟩ := hseen
  cases ok with
  | false =>
    have h : rest = [] := along_returned hrest
    subst h
    simp [handleConnection, Machine.run, handle, sendOrReturn, closes, Event.LosesConnection]
  | true =>
    have h := running_closes_iff hrest hret
    simpa [handleConnection, Machine.run, handle, sendOrReturn, closes, Event.LosesConnection] using h

end Conn

/-! ## The session behind the connection -/

namespace World
open Broker
variable {P : Protocol} {w : World} {cid : String} {e : Nat}

/-- The connection `e` of `cid` is over: no session is online under it. -/
def Over (cid : String) (e : Nat) (w : World) : Prop :=
  e < w.broker.nextEpoch ∧ ∀ s, w.broker.sessions.lookup cid = some s → s.epoch = e → s.out = none

theorem step_over (P : Protocol) (l : Label) (h : w.Over cid e) : (step P w l).1.Over cid e := by
  obtain ⟨hle, hb⟩ := (step_change P w l).epochs
  refine ⟨lt_of_lt_of_le h.1 hle, fun s' hs he => ?_⟩
  rcases hb cid s' hs with ⟨s, hs0, hsame, hout⟩ | ⟨hnew, -⟩
  · exact hout (h.2 s hs0 (hsame.epoch ▸ he))
  · have := h.1
    omega

theorem step_nextEpoch_le (P : Protocol) (w : World) (l : Label) :
    w.broker.nextEpoch ≤ (step P w l).1.broker.nextEpoch := (step_change P w l).epochs.1

/-- A close ends the connection it is reported for. -/
theorem closed_over {l : Label} {publishWill : Bool} (hin : l.input = .call (.closed cid e publishWill))
    (he : e < w.broker.nextEpoch) : (step P w l).1.Over cid e := by
  refine ⟨lt_of_lt_of_le he (step_nextEpoch_le P w l), fun s hs hse => ?_⟩
  simp only [step, hin, absorb, enter, handleConnectionClosed] at hs
  split at hs
  · rename_i hnone; rw [hnone] at hs; cases hs
  · rename_i s₀ hs₀
    split at hs
    · simp only [setSession, AList.lookup_insert, Option.some.injEq] at hs
      rw [← hs]
      rfl
    · rename_i hne
      rw [hs₀] at hs
      cases hs
      exact absurd hse hne

/-- After the broker has handled the close, the connection stays over. -/
theorem run_over {publishWill : Bool} : ∀ {ls : List Label} {w : World}, e < w.broker.nextEpoch →
    (∃ l ∈ ls, l.input = .call (.closed cid e publishWill)) → (run P w ls).1.Over cid e
  | [], _, _, h => by simp at h
  | l :: ls, w, he, h => by
    by_cases hin : l.input = .call (.closed cid e publishWill)
    · exact Machine.run_preserves (step P) (Over cid e) (fun _ l h => step_over P l h) (closed_over hin he) ls
    · obtain ⟨l', hl', hin'⟩ := h
      have hmem := (List.mem_cons.1 hl').resolve_left fun h => hin (h ▸ hin')
      show (run P (step P w l).1 ls).1.Over cid e
      exact run_over (lt_of_lt_of_le he (step_nextEpoch_le P w l)) ⟨l', hmem, hin'⟩

/-- The epoch of an accepted CONNECT is the one given out in its step. -/
theorem accepted_epoch {l : Label} {req : ConnectRequest} {a : Accepted}
    (hsel : w.selected l.input = some (.connect req)) (ha : .accepted a ∈ (step P w l).2) :
    a.epoch < (step P w l).1.broker.nextEpoch := by
  rw [(step_of_selected hsel).1]
  rw [(step_of_selected hsel).2] at ha
  simp only [runTask, finishConnect, List.mem_append, List.mem_singleton, Effect.accepted.injEq] at ha
  rcases ha with (ha | ha) | rfl
  · split at ha
    · unfold takeover at ha
      split at ha <;> simp at ha
    · cases ha
  · simp at ha
  · exact Nat.lt_succ_self _

end World

/-- The connection of `a` was torn down: its close was reported once, and in no state the broker reaches from
`w` by a run in which it handles that report is the session online under this connection. -/
structure TornDown (P : Protocol) (w : World) (a : Accepted) (ios : List Io) : Prop where
  once : (closes a.clientId a.epoch ios).length = 1
  offline : ∀ ls : List Label,
    (∀ publishWill ∈ closes a.clientId a.epoch ios,
      ∃ l ∈ ls, l.input = .call (.closed a.clientId a.epoch publishWill)) →
    ∀ s, (w.run P ls).1.broker.sessions.lookup a.clientId = some s → s.epoch = a.epoch → s.isOnline = false

/-- **Teardown**: an accepted connection whose task has returned was torn down, exactly if neither the write of
the CONNACK nor one of a packet the broker pushed has failed. -/
theorem tornDown_iff (P : Protocol) (w : World) (l : Label) (req : ConnectRequest)
    (hsel : w.selected l.input = some (.connect req)) (a : Accepted) (hacc : .accepted a ∈ (World.step P w l).2)
    (identity : Option String) (version : ProtocolVersion) (es : List Event) (ok : Bool)
    (hseen : Machine.Along (Conn.handle identity version) Conn.Waits .opening es) (ha : .accepted a ok ∈ es)
    (hret : ∃ r, (Conn.handleConnection identity version es).1 = .returned r) :
    TornDown P (World.step P w l).1 a (Conn.handleConnection identity version es).2 ↔
      ∀ e ∈ es, ¬e.LosesConnection := by
  have hiff := Conn.handleConnection_closes_iff hseen ha hret
  refine ⟨fun h => hiff.1 h.once, fun h => ⟨hiff.2 h, fun ls hls s hs he => ?_⟩⟩
  obtain ⟨publishWill, hpw⟩ := List.length_eq_one_iff.1 (hiff.2 h)
  have hover := World.run_over (P := P) (World.accepted_epoch hsel hacc) (hls publishWill (by simp [hpw]))
  simp [Session.isOnline, hover.2 s hs he]

namespace Conn

/-- A broker in which the CONNECT of `"c"` waits. -/
def arriving : World :=
  (World.run .reference (World.boot .reference 0 {} {} .permitAll none)
    [{ input := .call (.connect { clientId := "c", cleanStart := true } none) }]).1

def arrived : ConnectRequest := ⟨{ clientId := "c", cleanStart := true }, .v5, none, "c", false, {}⟩

def welcome : Accepted := ⟨"c", 1, 0, none, Broker.connack {} arrived false⟩

/-- The connection is accepted, answers a PINGREQ and ends. -/
def pingAndLeave : List Event :=
  [.first (.connect arrived.connect), .accepted welcome true, .packet .pingreq .continue true,
    .outgoing (.control .pingresp) true, .eof]

/-- The CONNACK cannot be written. -/
def lostWelcome : List Event := [.first (.connect arrived.connect), .accepted welcome false]

end Conn

theorem tornDown_iff_pingAndLeave :
    TornDown .reference (World.step .reference Conn.arriving { input := .task 0 }).1 Conn.welcome
      (Conn.handleConnection none .v5 Conn.pingAndLeave).2 :=
  (tornDown_iff .reference Conn.arriving { input := .task 0 } Conn.arrived (by decide) Conn.welcome (by decide +kernel)
    none .v5 Conn.pingAndLeave true ⟨trivial, trivial, trivial, trivial, trivial, trivial⟩ (by decide)
    ⟨true, rfl⟩).2 (by simp [Conn.pingAndLeave, Event.LosesConnection])

/-- The task has returned, nobody has reported the close, and the session is online. -/
theorem lostWelcome_notTornDown :
    (Effect.accepted Conn.welcome ∈ (World.step .reference Conn.arriving { input := .task 0 }).2) ∧
    (Conn.handleConnection none .v5 Conn.lostWelcome).1 = .returned false ∧
    closes "c" 1 (Conn.handleConnection none .v5 Conn.lostWelcome).2 = [] ∧
    ((World.step .reference Conn.arriving { input := .task 0 }).1.broker.sessions.lookup "c").any (·.isOnline) ∧
    ¬TornDown .reference (World.step .reference Conn.arriving { input := .task 0 }).1 Conn.welcome
      (Conn.handleConnection none .v5 Conn.lostWelcome).2 := by
  refine ⟨by decide +kernel, rfl, rfl, by decide +kernel, fun h => ?_⟩
  have := h.once
  revert this
  decide

end WispMQ
