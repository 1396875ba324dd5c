import WispMQ.Server
/-!
# Keep Alive: the read timeout of `handle_connection` (server.rs:306-409)

| here | there |
| --- | --- |
| `readTimeout`       | `read_timeout` (server.rs:308-312) |
| `Timed.step`        | one pass of the `select!` loop with the time at which it ends, and the next one begins |
| `Timed.deadline`    | when the `timeout(read_timeout, read_packet(..))` of the pass fires |

`select!` drops the branches it does not take, and the next pass makes a new `timeout` (server.rs:345). So the read timeout
is armed anew by everything that ends a pass, an item that the broker has pushed as well as a packet of the client, and a
client that is sent something often enough does not time out. `keepAlive_iff` says when the deadline is the one that Keep
Alive asks for: if what is written is written no later than the last packet came in.
-/

namespace WispMQ

/-- Seconds on the clock of the task, which counts nanoseconds. -/
def seconds (n : Nat) : Nat := n * 1000000000

def readTimeout (keepAlive : Nat) : Nat :=
  if keepAlive = 0 then seconds (3600 * 24 * 365) else seconds (keepAlive * 3 / 2 + 1)

/-- The Keep Alive in force after the event, if the event sets it. -/
def Event.keepAlive : Event → Option Nat
  | .accepted a _ => some a.keepAlive
  | _ => none

/-- A packet came in, or the CONNACK went out. -/
def Event.isInbound : Event → Bool
  | .packet .. | .accepted .. => true
  | _ => false

/-- The task, and what its clock says. -/
structure Timed where
  conn : Conn := .opening
  keepAlive : Nat := 0
  /-- When the last packet came in, or else the CONNACK was written. -/
  lastInbound : Nat := 0
  /-- When the read timeout of this pass of the loop fires. -/
  deadline : Option Nat := none

namespace Timed
variable (identity : Option String) (version : ProtocolVersion)

/-- The event `x.2` ends the pass at time `x.1`. -/
def step (s : Timed) (x : Nat × Event) : Timed × List Io :=
  let r := s.conn.handle identity version x.2
  let keepAlive := x.2.keepAlive.getD s.keepAlive
  ({ conn := r.1
     keepAlive
     lastInbound := if x.2.isInbound then x.1 else s.lastInbound
     deadline := match r.1 with
      | .running .. => some (x.1 + readTimeout keepAlive)
      | _ => none }, r.2)

def run (s : Timed) (xs : List (Nat × Event)) : Timed × List Io := Machine.run (step identity version) s xs

/-- The task waits for the event. -/
def Waits (s : Timed) (x : Nat × Event) : Prop := s.conn.Waits x.2

/-- The read timeout fires no later than Keep Alive asks for. -/
def InTime (s : Timed) : Prop :=
  ∀ d, s.deadline = some d → 0 < s.keepAlive → d ≤ s.lastInbound + seconds (3 * s.keepAlive / 2 + 1)

/-- So it is in every state the task reaches. -/
def AlwaysInTime (xs : List (Nat × Event)) : Prop := ∀ pre post, xs = pre ++ post → (run identity version {} pre).1.InTime

/-- A packet is written later than the last one came in. -/
def delays (s : Timed) (x : Nat × Event) : Bool :=
  match x.2 with
  | .outgoing (.send _) true | .outgoing (.control _) true => 0 < s.keepAlive && s.lastInbound < x.1
  | _ => false

variable {identity : Option String} {version : ProtocolVersion} {s : Timed} {x : Nat × Event}

/-- A pass that ends with a packet, or the first one, arms the timeout at the time that counts. -/
theorem inTime_inbound (h : x.2.isInbound = true) : (s.step identity version x).1.InTime := by
  intro d hd hpos
  simp only [step] at hd hpos ⊢
  split at hd
  · cases hd
    rw [if_pos h, readTimeout, if_neg (by omega), Nat.mul_comm 3]
  · cases hd

theorem inTime_left (h : ∀ cid epoch, (s.conn.handle identity version x.2).1 ≠ .running cid epoch) :
    (s.step identity version x).1.InTime := by
  intro d hd
  simp only [step] at hd
  cases hd

/-- A pass that ends with a write arms it at the time of the write. -/
theorem inTime_written {cid : String} {epoch : Nat} (hin : x.2.isInbound = false)
    (hrun : (s.conn.handle identity version x.2).1 = .running cid epoch) :
    (s.step identity version x).1.InTime ↔ ¬(0 < s.keepAlive ∧ s.lastInbound < x.1) := by
  have hkeep : x.2.keepAlive.getD s.keepAlive = s.keepAlive := by
    cases hx : x.2 <;> simp_all [Event.keepAlive, Event.isInbound]
  simp only [InTime, step, hrun, hkeep, hin, Bool.false_eq_true, if_false, Option.some.injEq, forall_eq']
  rw [Nat.mul_comm 3, not_and, not_lt]
  refine forall_congr' fun hpos => ?_
  rw [readTimeout, if_neg (by omega)]
  omega

/-- One pass. -/
theorem step_inTime_iff (hw : s.Waits x) : (s.step identity version x).1.InTime ↔ s.delays x = false := by
  obtain ⟨t, e⟩ := x
  have hinbound : e.isInbound = true → ((s.step identity version (t, e)).1.InTime ↔ s.delays (t, e) = false) := by
    intro h
    refine iff_of_true (inTime_inbound h) ?_
    cases e <;> first | rfl | cases h
  have hleft : (∀ cid epoch, (s.conn.handle identity version e).1 ≠ .running cid epoch) → s.delays (t, e) = false →
      ((s.step identity version (t, e)).1.InTime ↔ s.delays (t, e) = false) := fun h hd => iff_of_true (inTime_left h) hd
  cases hc : s.conn with
  | running cid epoch =>
    cases e with
    | packet p action ok => exact hinbound rfl
    | accepted a ok => exact hinbound rfl
    | outgoing item ok =>
      cases ok with
      | false =>
        refine hleft (fun c e => ?_) (by cases item <;> rfl)
        cases item <;> simp [hc, Conn.handle, Conn.sendOrReturn, Conn.leave]
      | true =>
        cases item with
        | shutdown rc =>
          refine hleft (fun c e => ?_) rfl
          simp [hc, Conn.handle, Conn.leave]
        | control p =>
          rw [inTime_written rfl (show _ = Conn.running cid epoch by rw [hc]; rfl)]
          simp [delays]
        | send p =>
          rw [inTime_written rfl (show _ = Conn.running cid epoch by rw [hc]; rfl)]
          simp [delays]
    | channelClosed => exact hleft (by simp [hc, Conn.handle, Conn.leave]) rfl
    | eof => exact hleft (by simp [hc, Conn.handle, Conn.leave]) rfl
    | malformed rc ok => exact hleft (by simp [hc, Conn.handle, Conn.leave]) rfl
    | timeout ok => exact hleft (by simp [hc, Conn.handle, Conn.leave]) rfl
    | _ => simp [Waits, hc, Conn.Waits] at hw
  | opening =>
    cases e with
    | first p =>
      refine hleft (fun c e => ?_) rfl
      cases p <;> simp [hc, Conn.handle]
    | noFirst eof => exact hleft (by simp [hc, Conn.handle]) rfl
    | _ => simp [Waits, hc, Conn.Waits] at hw
  | connecting =>
    cases e with
    | accepted a ok => exact hinbound rfl
    | refused connack ok =>
      refine hleft (fun c e => ?_) rfl
      cases ok <;> simp [hc, Conn.handle, Conn.sendOrReturn]
    | _ => simp [Waits, hc, Conn.Waits] at hw
  | returned ok => cases e <;> simp [Waits, hc, Conn.Waits] at hw

/-- **Keep Alive**: in every state of the task the read timeout fires no later than one and a half intervals and a second
after the last packet came in, if and only if nothing is written in the loop later than that. -/
theorem keepAlive_iff (identity : Option String) (version : ProtocolVersion) (xs : List (Nat × Event))
    (hseen : Machine.Along (step identity version) Waits {} xs) :
    AlwaysInTime identity version xs ↔
      Machine.Along (step identity version) (fun s x => s.delays x = false) {} xs := by
  constructor
  · intro h
    refine Machine.Along.of_splits (step identity version) fun pre x post hxs => ?_
    have hafter := h (pre ++ [x]) post (by simp [hxs])
    rw [run, Machine.run_append] at hafter
    exact (step_inTime_iff (Machine.Along.at_split (step identity version) (hxs ▸ hseen))).1 hafter
  · rintro h pre post rfl
    have hstart : ({} : Timed).InTime := fun d hd => by cases hd
    exact Machine.run_state_invariant (step identity version) InTime (fun s x _ hx => (step_inTime_iff hx.1).2 hx.2) hstart pre
      (hseen.and (step identity version) h).of_append

/-- A client with a Keep Alive of ten seconds. -/
def tenSeconds : Accepted := ⟨"c", 1, 10, none, { sessionPresent := false, reasonCode := .success }⟩

/-- It is accepted, and then `es` happens. -/
def served (es : List (Nat × Event)) : List (Nat × Event) :=
  (0, .first (.connect { clientId := "c", cleanStart := true, keepAlive := 10 })) :: (0, .accepted tenSeconds true) :: es

/-- It sends a PINGREQ after eight seconds, and is answered at once. -/
def pings : List (Nat × Event) :=
  served [(seconds 8, .packet .pingreq .continue true), (seconds 8, .outgoing (.control .pingresp) true)]

theorem keepAlive_iff_pings : AlwaysInTime none .v5 pings :=
  (keepAlive_iff none .v5 pings ⟨trivial, trivial, trivial, trivial, trivial⟩).2 (by decide)

/-- It is silent, and sent a message after fifteen seconds. -/
def sentTo : List (Nat × Event) :=
  served [(seconds 15, .outgoing (.send ⟨false, .atMostOnce, false, "t", none, {}, [1]⟩) true)]

/-- The read timeout of a client from which nothing has come in since the CONNACK then fires after 31 seconds, not 16. -/
theorem keepAlive_stretched :
    (run none .v5 {} sentTo).1.lastInbound = 0 ∧ (run none .v5 {} sentTo).1.deadline = some (seconds 31) ∧
      ¬(run none .v5 {} sentTo).1.InTime := by
  refine ⟨by decide, by decide, fun h => ?_⟩
  have := h (seconds 31) (by decide) (by decide)
  revert this
  decide

end Timed

end WispMQ
