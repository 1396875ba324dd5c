import WispMQ.Forwarding
import WispMQ.Lib.Interleaving
/-!
# The task of a bridge: `bridge.rs:217-570`

A bridge connects to its remote over and over. Between two connections, and while one is made, what the local session gets
waits in its channel.

| here | there |
| --- | --- |
| `BridgeTask`          | the local variables of `run` (bridge.rs:217), and how far it is |
| `BridgeTask.dial`     | `connect_and_serve` up to the CONNECT of `serve` (bridge.rs:350-421) |
| `BridgeTask.answer`   | CONNACK and SUBSCRIBE (bridge.rs:422-469) |
| `BridgeTask.round`    | one round of the `select!` of `run_loop` (bridge.rs:504-572) |
| `BridgeTask.finish`   | what `run` does with the outcome (bridge.rs:255-270) |

Every `send(..).await?` may fail, and that is the end of the connection. `messages_accounted` says what becomes of the
messages for the remote, `backoff_exact` how long the task waits, and `connected_exact` what the gauge of the connected
bridges shows while any number of bridges run.
-/

namespace WispMQ
open Machine

/-- The outcome of `connect_and_serve`: `Ok(true)`, `Ok(false)` or an error. -/
inductive Served where
  | disconnected
  | rejected
  | failed
deriving DecidableEq

/-- The first packet from the remote. -/
inductive FirstRead where
  | packet (p : Packet)
  | eof
  | failed
deriving DecidableEq

inductive BridgePhase where
  | dialing
  | shakingHands
  | serving (loop : BridgeLoop)
  | sleeping
deriving DecidableEq

/-- What the task has to do with next; `writeOk` is the outcome of the write that follows, if any. -/
inductive Signal where
  /-- The broker puts an item on the local channel. -/
  | push (out : Outgoing)
  /-- The broker lets go of the channel. -/
  | release
  /-- TCP, TLS and the WebSocket handshake. -/
  | dialed (ok : Bool) (writeOk : Bool)
  | answered (first : FirstRead) (writeOk : Bool)
  /-- `out_rx.recv()`. -/
  | item (writeOk : Bool)
  /-- A packet of the remote, or the end of the connection. -/
  | read (packet : Option Packet) (now : Nat) (writeOk : Bool)
  | readFailed
  /-- The ping interval; the remote has been silent for too long, or not. -/
  | tick (silent : Bool) (writeOk : Bool)
  | slept
deriving DecidableEq

/-- What the task does. -/
inductive Deed where
  | write (p : Packet) (ok : Bool)
  | inject (m : Message)
  /-- `Metrics::inc`, `Metrics::dec` on `bridges_connected`. -/
  | connected
  | disconnected
  /-- `Metrics::inc` on `bridge_forwarded_out`, `bridge_forwarded_in`. -/
  | forwardedOut
  | forwardedIn
  /-- The outcome as `run` logs it. -/
  | report (o : Served)
  | sleep (seconds : Nat)
deriving DecidableEq

namespace Deed

def publish : Deed → Option (Publish × Bool)
  | .write (.publish p) ok => some (p, ok)
  | _ => none

/-- A deed within a connection, or before one. -/
def quiet : Deed → Bool
  | .connected | .disconnected | .report _ | .sleep _ => false
  | .write _ _ | .inject _ | .forwardedOut | .forwardedIn => true

end Deed

structure BridgeTask where
  phase : BridgePhase := .dialing
  /-- In seconds. -/
  delay : Nat := 1
  /-- The local channel, and whether its sender is gone. -/
  inbox : List Outgoing := []
  closed : Bool := false
deriving DecidableEq

namespace BridgeTask
variable (P : Protocol) (cfg : BridgeConfig)

def nextDelay (delay : Nat) : Served → Nat
  | .disconnected => 1
  | .rejected | .failed => min (delay * 2) 60

def finish (t : BridgeTask) (o : Served) (before : List Deed) : BridgeTask × List Deed :=
  ({ t with phase := .sleeping, delay := nextDelay t.delay o }, before ++ [.report o, .sleep (nextDelay t.delay o)])

/-- `run_loop` has returned. -/
def leave (t : BridgeTask) (o : Served) (before : List Deed) : BridgeTask × List Deed :=
  t.finish o (before ++ [.disconnected])

def dial (t : BridgeTask) (ok writeOk : Bool) : BridgeTask × List Deed :=
  if ok then
    if writeOk then ({ t with phase := .shakingHands }, [.write (.connect cfg.buildConnect) true])
    else t.finish .failed [.write (.connect cfg.buildConnect) false]
  else t.finish .failed []

def answer (t : BridgeTask) (writeOk : Bool) : FirstRead → BridgeTask × List Deed
  | .eof => t.finish .rejected []
  | .failed => t.finish .failed []
  | .packet (.connack c) =>
    if c.reasonCode.isError then t.finish .rejected []
    else match cfg.subscribe with
      | none => ({ t with phase := .serving {} }, [.connected])
      | some sub =>
        if writeOk then ({ t with phase := .serving {} }, [.write sub true, .connected])
        else t.finish .failed [.write sub false]
  | .packet _ => t.finish .failed []

/-- The deeds of an injection. -/
def injected (m : Option Message) : List Deed := m.toList.flatMap fun m => [.inject m, .forwardedIn]

def round (t : BridgeTask) (loop : BridgeLoop) : Signal → BridgeTask × List Deed
  | .item writeOk =>
    match t.inbox with
    | [] => if t.closed then t.leave .disconnected [] else (t, [])
    | .send publish :: inbox =>
      let r := loop.forward P cfg publish
      let t := { t with inbox := inbox }
      if writeOk then ({ t with phase := .serving r.2 }, [.write (.publish r.1) true, .forwardedOut])
      else t.leave .failed [.write (.publish r.1) false]
    | .control _ :: inbox => ({ t with inbox := inbox }, [])
    | .shutdown _ :: inbox => { t with inbox := inbox }.leave .disconnected []
  | .read none _ _ => t.leave .disconnected []
  | .read (some packet) now writeOk =>
    let r := loop.receive now packet
    match r.loop, r.replies with
    | none, _ => t.leave .disconnected (injected r.inject)
    | some loop, [] => ({ t with phase := .serving loop }, injected r.inject)
    | some loop, reply :: _ =>
      if writeOk then ({ t with phase := .serving loop }, injected r.inject ++ [.write reply true])
      else t.leave .failed (injected r.inject ++ [.write reply false])
  | .readFailed => t.leave .failed []
  | .tick silent writeOk =>
    if 0 < cfg.keepalive then
      if silent then t.leave .failed []
      else if writeOk then (t, [.write .pingreq true])
      else t.leave .failed [.write .pingreq false]
    else (t, [])
  | _ => (t, [])

/-- A signal that the task does not wait for leaves it as it is. -/
def step (t : BridgeTask) (s : Signal) : BridgeTask × List Deed :=
  match s, t.phase with
  | .push out, _ => (if t.closed then t else { t with inbox := t.inbox ++ [out] }, [])
  | .release, _ => ({ t with closed := true }, [])
  | .dialed ok writeOk, .dialing => t.dial cfg ok writeOk
  | .answered first writeOk, .shakingHands => t.answer cfg writeOk first
  | .slept, .sleeping => ({ t with phase := .dialing }, [])
  | s, .serving loop => t.round P cfg loop s
  | _, _ => (t, [])

/-! ## What a step accounts for -/

/-- The PUBLISH packets written to the remote, and whether the write succeeded. -/
def published (ds : List Deed) : List (Publish × Bool) := ds.filterMap Deed.publish

/-- The messages among what came over the local channel. -/
def sends (outs : List Outgoing) : List Publish :=
  outs.filterMap fun
    | .send p => some p
    | _ => none

/-- The PUBLISH for the remote is the local one, at the QoS of the mapping and under an id of the connection. -/
def Forwarded (publish : Publish) (w : Publish × Bool) : Prop :=
  w.1 = { publish with dup := false, qos := cfg.outQos P publish.topic, packetId := w.1.packetId }

/-- What was taken off the channel was written, in its order; a failed write ended the connection, and what is counted are
the others. -/
structure Accounts (taken : List Outgoing) (ds : List Deed) : Prop where
  writes : List.Forall₂ (Forwarded P cfg) (sends taken) (published ds)
  failures : (published ds).countP (!·.2) ≤ ds.count (.report .failed)
  counted : ds.count .forwardedOut = (published ds).countP (·.2)

/-- The delay after the deeds, when it was `d` before; `none` if the task slept for another time than that. -/
def pace : Nat → List Deed → Option Nat
  | d, [] => some d
  | _, .report .disconnected :: ds => pace 1 ds
  | d, .report .rejected :: ds | d, .report .failed :: ds => pace (min (d * 2) 60) ds
  | d, .sleep seconds :: ds => if seconds = d then pace d ds else none
  | d, _ :: ds => pace d ds

/-- The connection that the task serves. -/
def connections (t : BridgeTask) : Nat :=
  match t.phase with
  | .serving _ => 1
  | _ => 0

structure Sound (t : BridgeTask) (pushed : List Outgoing) (r : BridgeTask × List Deed) : Prop where
  forwards : ∃ taken, taken ++ r.1.inbox = t.inbox ++ pushed ∧ Accounts P cfg taken r.2
  paces : pace t.delay r.2 = some r.1.delay
  gauge : r.2.count .connected + t.connections = r.2.count .disconnected + r.1.connections

variable {P cfg}

theorem published_append (ds ds' : List Deed) : published (ds ++ ds') = published ds ++ published ds' :=
  List.filterMap_append

theorem sends_append (outs outs' : List Outgoing) : sends (outs ++ outs') = sends outs ++ sends outs' :=
  List.filterMap_append

namespace Accounts

theorem append {taken taken' : List Outgoing} {ds ds' : List Deed} (h : Accounts P cfg taken ds)
    (h' : Accounts P cfg taken' ds') : Accounts P cfg (taken ++ taken') (ds ++ ds') := by
  constructor
  · rw [sends_append, published_append]
    exact List.rel_append h.writes h'.writes
  · rw [published_append, List.countP_append, List.count_append]
    exact Nat.add_le_add h.failures h'.failures
  · rw [published_append, List.countP_append, List.count_append, h.counted, h'.counted]

/-- Nothing for the remote was taken, and nothing written. -/
theorem silent {taken : List Outgoing} {ds : List Deed} (ht : sends taken = []) (hp : published ds = [])
    (hc : ds.count .forwardedOut = 0) : Accounts P cfg taken ds := by
  refine ⟨?_, ?_, ?_⟩
  · rw [ht, hp]
    exact .nil
  · rw [hp]
    exact Nat.zero_le _
  · rw [hp, hc]
    rfl

end Accounts

theorem pace_append : ∀ (ds ds' : List Deed) (d : Nat), pace d (ds ++ ds') = (pace d ds).bind (pace · ds')
  | [], _, _ => rfl
  | .report .disconnected :: ds, ds', _ => pace_append ds ds' 1
  | .report .rejected :: ds, ds', d => pace_append ds ds' _
  | .report .failed :: ds, ds', d => pace_append ds ds' _
  | .sleep seconds :: ds, ds', d => by
    rw [List.cons_append, pace, pace]
    split
    · exact pace_append ds ds' d
    · rfl
  | .write _ _ :: ds, ds', d => pace_append ds ds' d
  | .inject _ :: ds, ds', d => pace_append ds ds' d
  | .connected :: ds, ds', d => pace_append ds ds' d
  | .disconnected :: ds, ds', d => pace_append ds ds' d
  | .forwardedOut :: ds, ds', d => pace_append ds ds' d
  | .forwardedIn :: ds, ds', d => pace_append ds ds' d

theorem pace_quiet : ∀ {ds : List Deed}, (∀ d ∈ ds, d.quiet) → ∀ n, pace n ds = some n
  | [], _, _ => rfl
  | d :: ds, h, n => by
    obtain ⟨hd, hds⟩ := List.forall_mem_cons.1 h
    cases d with
    | write p ok => exact pace_quiet hds n
    | inject m => exact pace_quiet hds n
    | forwardedOut => exact pace_quiet hds n
    | forwardedIn => exact pace_quiet hds n
    | _ => cases hd

theorem count_quiet {ds : List Deed} (h : ∀ d ∈ ds, d.quiet) {x : Deed} (hx : x.quiet = false) : ds.count x = 0 := by
  rw [List.count_eq_zero]
  intro hmem
  rw [h x hmem] at hx
  cases hx

namespace Sound
variable {t t' : BridgeTask} {pushed : List Outgoing} {before ds : List Deed} {o : Served}

/-- The task goes on within a connection, or without one. -/
theorem stays (taken : List Outgoing) (hinbox : taken ++ t'.inbox = t.inbox ++ pushed) (hd : t'.delay = t.delay)
    (hc : t'.connections = t.connections) (hq : ∀ d ∈ ds, d.quiet) (ha : Accounts P cfg taken ds) :
    Sound P cfg t pushed (t', ds) := by
  refine ⟨⟨taken, hinbox, ha⟩, ?_, ?_⟩
  · rw [pace_quiet hq, hd]
  · rw [count_quiet hq rfl, count_quiet hq rfl, hc]

/-- An attempt comes to its end, or a connection: of the writes before it the last may have failed. -/
theorem finish (taken : List Outgoing) (hinbox : taken ++ t'.inbox = t.inbox) (hd : t'.delay = t.delay)
    (hpace : pace t.delay before = some t.delay) (hcon : before.count .connected = 0)
    (hdis : before.count .disconnected = t.connections)
    (hw : List.Forall₂ (Forwarded P cfg) (sends taken) (published before))
    (hfail : (published before).countP (!·.2) ≤ if o = .failed then 1 else 0)
    (hcount : before.count .forwardedOut = (published before).countP (·.2)) :
    Sound P cfg t [] (t'.finish o before) := by
  have hpub : published (t'.finish o before).2 = published before := by
    simp only [BridgeTask.finish, published_append]
    exact List.append_nil _
  have hcounts : ∀ x, (t'.finish o before).2.count x = before.count x + [.report o, .sleep (nextDelay t'.delay o)].count x :=
    fun x => List.count_append ..
  refine ⟨⟨taken, ?_, ?_, ?_, ?_⟩, ?_, ?_⟩
  · rw [List.append_nil]
    exact hinbox
  · rw [hpub]
    exact hw
  · rw [hpub, hcounts]
    refine hfail.trans (le_trans ?_ (Nat.le_add_left _ _))
    cases o <;> simp
  · rw [hpub, hcounts, hcount]
    simp
  · simp only [BridgeTask.finish, pace_append, hpace, Option.bind_some]
    cases o <;> simp [pace, nextDelay, hd]
  · rw [hcounts, hcounts, hcon, hdis]
    simp [connections, BridgeTask.finish]

/-- A connection comes to its end. -/
theorem leave (taken : List Outgoing) (hinbox : taken ++ t'.inbox = t.inbox) (hd : t'.delay = t.delay)
    (hc : t.connections = 1) (hq : ∀ d ∈ before, d.quiet) (hw : List.Forall₂ (Forwarded P cfg) (sends taken) (published before))
    (hfail : (published before).countP (!·.2) ≤ if o = .failed then 1 else 0)
    (hcount : before.count .forwardedOut = (published before).countP (·.2)) :
    Sound P cfg t [] (t'.leave o before) := by
  have hpub : published (before ++ [.disconnected]) = published before := by
    rw [published_append]
    exact List.append_nil _
  refine finish taken hinbox hd ?_ ?_ ?_ ?_ ?_ ?_
  · rw [pace_append, pace_quiet hq]
    rfl
  · rw [List.count_append, count_quiet hq rfl]
    rfl
  · rw [List.count_append, count_quiet hq rfl, hc]
    rfl
  · rw [hpub]
    exact hw
  · rw [hpub]
    exact hfail
  · rw [hpub, List.count_append, hcount]
    rfl

end Sound

variable {t : BridgeTask}

theorem subscribe_publish {sub : Packet} (h : cfg.subscribe = some sub) (ok : Bool) : (Deed.write sub ok).publish = none := by
  unfold BridgeConfig.subscribe at h
  split at h
  · cases h
  · cases h
    rfl

theorem dial_sound (hc : t.connections = 0) (ok writeOk : Bool) : Sound P cfg t [] (t.dial cfg ok writeOk) := by
  unfold dial
  split
  · split
    · exact .stays [] (List.append_nil _).symm rfl hc.symm (by simp [Deed.quiet]) (.silent rfl rfl rfl)
    · exact .finish [] rfl rfl rfl rfl hc.symm .nil (Nat.zero_le _) rfl
  · exact .finish [] rfl rfl rfl rfl hc.symm .nil (Nat.zero_le _) rfl

/-- Connected, behind deeds that nothing else is counted in. -/
theorem connected_sound (hc : t.connections = 0) (before : List Deed) (hq : ∀ d ∈ before, d.quiet)
    (hp : published before = []) (hf : before.count .forwardedOut = 0) :
    Sound P cfg t [] ({ t with phase := .serving {} }, before ++ [.connected]) := by
  refine ⟨⟨[], (List.append_nil _).symm, .silent rfl ?_ ?_⟩, ?_, ?_⟩
  · rw [published_append, hp]
    rfl
  · rw [List.count_append, hf]
    rfl
  · simp only [pace_append, pace_quiet hq]
    rfl
  · have hcon : before.count .connected = 0 := count_quiet hq rfl
    have hdis : before.count .disconnected = 0 := count_quiet hq rfl
    simp only [List.count_append, hcon, hdis, hc]
    rfl

theorem answer_sound (hc : t.connections = 0) (writeOk : Bool) (first : FirstRead) :
    Sound P cfg t [] (t.answer cfg writeOk first) := by
  have hfinish : ∀ o, Sound P cfg t [] (t.finish o []) :=
    fun o => .finish [] rfl rfl rfl rfl hc.symm .nil (Nat.zero_le _) rfl
  unfold answer
  split
  · exact hfinish _
  · exact hfinish _
  · split
    · exact hfinish _
    · split
      · exact connected_sound hc [] (by simp) rfl rfl
      · rename_i sub hsub
        have hpub : ∀ ok, published [.write sub ok] = [] := by
          intro ok
          rw [published, List.filterMap_cons_none (subscribe_publish hsub ok)]
          rfl
        split
        · exact connected_sound hc _ (by simp [Deed.quiet]) (hpub true) rfl
        · refine .finish [] rfl rfl rfl rfl hc.symm ?_ ?_ ?_
          · rw [hpub]
            exact .nil
          · rw [hpub]
            exact Nat.zero_le _
          · rw [hpub]
            rfl
  · exact hfinish _

/-- The acknowledgement of a packet is no PUBLISH. -/
theorem reply_publish {loop : BridgeLoop} {now : Nat} {packet reply : Packet} {rest : List Packet}
    (h : (loop.receive now packet).replies = reply :: rest) (ok : Bool) : (Deed.write reply ok).publish = none := by
  have hreply := BridgeLoop.receive_replies (show reply ∈ (loop.receive now packet).replies by simp [h])
  cases reply with
  | publish p => exact absurd rfl (hreply p)
  | _ => rfl

theorem injected_spec (m : Option Message) :
    published (injected m) = [] ∧ (injected m).count .forwardedOut = 0 ∧ ∀ d ∈ injected m, d.quiet := by
  cases m with
  | none => exact ⟨rfl, rfl, by simp [injected]⟩
  | some m => exact ⟨rfl, rfl, by simp [injected, Deed.quiet]⟩

/-- One write, within a connection, of a packet that is no PUBLISH. -/
theorem written_sound (hc : t.connections = 1) {before : List Deed} {p : Packet} (hbefore : published before = [])
    (hcount : before.count .forwardedOut = 0) (hq : ∀ d ∈ before, d.quiet)
    (hp : ∀ ok, (Deed.write p ok).publish = none) :
    (∀ t', t'.inbox = t.inbox → t'.delay = t.delay → t'.connections = 1 →
      Sound P cfg t [] (t', before ++ [.write p true])) ∧ Sound P cfg t [] (t.leave .failed (before ++ [.write p false])) := by
  have hpub : ∀ ok, published (before ++ [.write p ok]) = [] := by
    intro ok
    rw [published_append, hbefore, published, List.filterMap_cons_none (hp ok)]
    rfl
  have hzero : ∀ ok, (before ++ [Deed.write p ok]).count .forwardedOut = 0 := by
    intro ok
    rw [List.count_append, hcount]
    rfl
  have hquiet : ∀ ok, ∀ d ∈ before ++ [.write p ok], d.quiet := by
    intro ok d hd
    rcases List.mem_append.1 hd with hd | hd
    · exact hq d hd
    · rw [List.mem_singleton.1 hd]
      rfl
  refine ⟨fun t' hinbox hdelay hc' => ?_, ?_⟩
  · exact .stays [] (by rw [hinbox, List.append_nil, List.nil_append]) hdelay (hc'.trans hc.symm) (hquiet true)
      (.silent rfl (hpub true) (hzero true))
  · refine .leave [] rfl rfl hc (hquiet false) ?_ ?_ ?_
    · rw [hpub]
      exact .nil
    · rw [hpub]
      exact Nat.zero_le _
    · rw [hpub, hzero]
      rfl

theorem round_sound (hc : t.connections = 1) (loop : BridgeLoop) (s : Signal) : Sound P cfg t [] (t.round P cfg loop s) := by
  have hidle : Sound P cfg t [] (t, []) :=
    .stays [] (List.append_nil _).symm rfl rfl (by simp) (.silent rfl rfl rfl)
  have hleave : ∀ o, Sound P cfg t [] (t.leave o []) := fun o => .leave [] rfl rfl hc (by simp) .nil (Nat.zero_le _) rfl
  cases s with
  | item writeOk =>
    rw [round]
    cases hinbox : t.inbox with
    | nil =>
      simp only
      split
      · exact hleave _
      · exact hidle
    | cons out inbox =>
      cases out with
      | send publish =>
        simp only
        have hw : List.Forall₂ (Forwarded P cfg) (sends [.send publish])
            (published [.write (.publish (loop.forward P cfg publish).1) writeOk]) := .cons rfl .nil
        split
        · rename_i hok
          rw [hok] at hw
          refine .stays [.send publish] (by rw [hinbox]; simp) rfl hc.symm (by simp [Deed.quiet]) ⟨hw, ?_, rfl⟩
          exact Nat.zero_le _
        · rename_i hok
          rw [Bool.not_eq_true] at hok
          rw [hok] at hw
          exact .leave [.send publish] hinbox.symm rfl hc (by simp [Deed.quiet]) hw (Nat.le_refl _) rfl
      | control p =>
        exact .stays [.control p] (by rw [hinbox]; simp) rfl rfl (by simp) (.silent rfl rfl rfl)
      | shutdown rc => exact .leave [.shutdown rc] hinbox.symm rfl hc (by simp) .nil (Nat.zero_le _) rfl
  | read packet now writeOk =>
    cases packet with
    | none => exact hleave _
    | some packet =>
      rw [round]
      obtain ⟨hpub, hcount, hq⟩ := injected_spec (loop.receive now packet).inject
      split
      · refine .leave [] rfl rfl hc hq ?_ ?_ ?_
        · rw [hpub]
          exact .nil
        · rw [hpub]
          exact Nat.zero_le _
        · rw [hpub, hcount]
          rfl
      · exact .stays [] (List.append_nil _).symm rfl hc.symm hq (.silent rfl hpub hcount)
      · rename_i reply rest hloop hreplies
        obtain ⟨hgoes, hfails⟩ := written_sound (P := P) hc hpub hcount hq (reply_publish hreplies)
        split
        · exact hgoes _ rfl rfl rfl
        · exact hfails
  | readFailed => exact hleave _
  | tick silent writeOk =>
    rw [round]
    have hp : ∀ ok, (Deed.write .pingreq ok).publish = none := fun _ => rfl
    obtain ⟨hgoes, hfails⟩ := written_sound (P := P) hc rfl rfl (by simp : ∀ d ∈ [], Deed.quiet d) hp
    split
    · split
      · exact hleave _
      · split
        · exact hgoes t rfl rfl hc
        · exact hfails
    · exact hidle
  | _ => exact hidle

/-- What the broker puts on the channel. -/
def pushed (t : BridgeTask) : Signal → List Outgoing
  | .push out => if t.closed then [] else [out]
  | _ => []

theorem step_sound (t : BridgeTask) (s : Signal) : Sound P cfg t (t.pushed s) (t.step P cfg s) := by
  have hidle : Sound P cfg t [] (t, []) :=
    .stays [] (List.append_nil _).symm rfl rfl (by simp) (.silent rfl rfl rfl)
  have hround : ∀ {loop}, t.phase = .serving loop → ∀ s, Sound P cfg t [] (t.round P cfg loop s) := by
    intro loop hphase s
    exact round_sound (by rw [connections, hphase]) loop s
  have hnone : (∀ loop, t.phase ≠ .serving loop) → t.connections = 0 := by
    intro h
    rw [connections]
    split
    · rename_i loop hphase
      exact absurd hphase (h loop)
    · rfl
  cases s with
  | push out =>
    simp only [step, pushed]
    split
    · exact hidle
    · exact .stays [] rfl rfl rfl (by simp) (.silent rfl rfl rfl)
  | release => exact .stays [] (List.append_nil _).symm rfl rfl (by simp) (.silent rfl rfl rfl)
  | dialed ok writeOk =>
    cases hphase : t.phase with
    | dialing =>
      simp only [step, hphase]
      exact dial_sound (hnone (by simp [hphase])) ok writeOk
    | serving loop => simpa only [step, hphase, pushed] using hround hphase (.dialed ok writeOk)
    | _ => simpa only [step, hphase, pushed] using hidle
  | answered first writeOk =>
    cases hphase : t.phase with
    | shakingHands =>
      simp only [step, hphase]
      exact answer_sound (hnone (by simp [hphase])) writeOk first
    | serving loop => simpa only [step, hphase, pushed] using hround hphase (.answered first writeOk)
    | _ => simpa only [step, hphase, pushed] using hidle
  | slept =>
    cases hphase : t.phase with
    | sleeping =>
      simp only [step, hphase]
      exact .stays [] (List.append_nil _).symm rfl (hnone (by simp [hphase])).symm (by simp) (.silent rfl rfl rfl)
    | serving loop => simpa only [step, hphase, pushed] using hround hphase .slept
    | _ => simpa only [step, hphase, pushed] using hidle
  | _ =>
    cases hphase : t.phase with
    | serving loop => simpa only [step, hphase, pushed] using hround hphase _
    | _ => simpa only [step, hphase, pushed] using hidle

/-! ## Whole runs -/

variable (P cfg) in
/-- What the broker has put on the channel, from the state `t` on. -/
def delivered : BridgeTask → List Signal → List Outgoing
  | _, [] => []
  | t, s :: ss => t.pushed s ++ delivered (t.step P cfg s).1 ss

theorem run_sound : ∀ (ss : List Signal) (t : BridgeTask),
    (∃ taken, taken ++ (run (step P cfg) t ss).1.inbox = t.inbox ++ delivered P cfg t ss ∧
      Accounts P cfg taken (run (step P cfg) t ss).2) ∧
    pace t.delay (run (step P cfg) t ss).2 = some (run (step P cfg) t ss).1.delay ∧
    (run (step P cfg) t ss).2.count .connected + t.connections =
      (run (step P cfg) t ss).2.count .disconnected + (run (step P cfg) t ss).1.connections
  | [], t => ⟨⟨[], (List.append_nil _).symm, .silent rfl rfl rfl⟩, rfl, rfl⟩
  | s :: ss, t => by
    obtain ⟨⟨taken, htaken, hacc⟩, hpace, hgauge⟩ := @step_sound P cfg t s
    obtain ⟨⟨taken', htaken', hacc'⟩, hpace', hgauge'⟩ := run_sound ss (t.step P cfg s).1
    simp only [run, delivered]
    refine ⟨⟨taken ++ taken', ?_, hacc.append hacc'⟩, ?_, ?_⟩
    · rw [List.append_assoc, htaken', ← List.append_assoc, htaken, List.append_assoc]
    · rw [pace_append, hpace]
      exact hpace'
    · rw [List.count_append, List.count_append]
      omega

/-- **Messages for the remote**: whatever happens, and over all its connections, the bridge takes what the broker puts on its
channel in order, and each message once; what it has not taken waits. Each message taken is written to the remote, in this
order; a write that fails is the end of a connection, so at most one message is lost with it, and the counter of the
forwarded messages is the number of the others. -/
theorem messages_accounted (P : Protocol) (cfg : BridgeConfig) (ss : List Signal) :
    ∃ taken, taken ++ (run (step P cfg) {} ss).1.inbox = delivered P cfg {} ss ∧
      List.Forall₂ (Forwarded P cfg) (sends taken) (published (run (step P cfg) {} ss).2) ∧
      (published (run (step P cfg) {} ss).2).countP (!·.2) ≤ (run (step P cfg) {} ss).2.count (.report .failed) ∧
      (run (step P cfg) {} ss).2.count .forwardedOut = (published (run (step P cfg) {} ss).2).countP (·.2) := by
  obtain ⟨⟨taken, htaken, hacc⟩, -, -⟩ := @run_sound P cfg ss {}
  exact ⟨taken, htaken, hacc.writes, hacc.failures, hacc.counted⟩

/-- The attempts in a row that have come to nothing: since the last connection that ended in order. -/
def failures : Nat → List Deed → Nat
  | k, [] => k
  | _, .report .disconnected :: ds => failures 0 ds
  | k, .report .rejected :: ds | k, .report .failed :: ds => failures (k + 1) ds
  | k, _ :: ds => failures k ds

theorem min_pow_succ (k : Nat) : min (min (2 ^ k) 60 * 2) 60 = min (2 ^ (k + 1)) 60 := by
  rw [pow_succ]
  omega

theorem pace_failures : ∀ (ds : List Deed) (k d : Nat), pace (min (2 ^ k) 60) ds = some d → d = min (2 ^ failures k ds) 60
  | [], _, _, h => (Option.some.inj h).symm
  | .report .disconnected :: ds, _, d, h => pace_failures ds 0 d h
  | .report .rejected :: ds, k, d, h => pace_failures ds (k + 1) d (by rwa [pace, min_pow_succ] at h)
  | .report .failed :: ds, k, d, h => pace_failures ds (k + 1) d (by rwa [pace, min_pow_succ] at h)
  | .sleep seconds :: ds, k, d, h => by
    rw [pace] at h
    split at h
    · exact pace_failures ds k d h
    · cases h
  | .write _ _ :: ds, k, d, h => pace_failures ds k d h
  | .inject _ :: ds, k, d, h => pace_failures ds k d h
  | .connected :: ds, k, d, h => pace_failures ds k d h
  | .disconnected :: ds, k, d, h => pace_failures ds k d h
  | .forwardedOut :: ds, k, d, h => pace_failures ds k d h
  | .forwardedIn :: ds, k, d, h => pace_failures ds k d h

/-- **Backoff**: before an attempt the task sleeps a second, twice as long for each attempt in a row that has come to
nothing, and never more than a minute. -/
theorem backoff_exact (P : Protocol) (cfg : BridgeConfig) (ss : List Signal) (pre post : List Deed) (seconds : Nat)
    (h : (run (step P cfg) {} ss).2 = pre ++ .sleep seconds :: post) : seconds = min (2 ^ failures 0 pre) 60 := by
  obtain ⟨-, hpace, -⟩ := @run_sound P cfg ss {}
  rw [h, pace_append] at hpace
  obtain ⟨d, hd, hsleep⟩ := Option.bind_eq_some_iff.1 hpace
  rw [pace] at hsleep
  split at hsleep
  · rename_i heq
    rw [heq]
    exact pace_failures pre 0 d hd
  · cases hsleep

/-- The remote is not there, and then does not accept the bridge. -/
theorem backoff_exact_refused : 4 = min (2 ^ failures 0 [.report .failed, .sleep 2, .write (.connect (BridgeConfig.buildConnect
    ⟨"b", "b", none, none, 60, .v5, []⟩)) true, .report .rejected]) 60 :=
  backoff_exact .reference ⟨"b", "b", none, none, 60, .v5, []⟩
    [.dialed false true, .slept, .dialed true true, .answered .eof true] _ [] 4 rfl

/-- The gauge `bridges_connected`. -/
def gauge (ds : List Deed) : UInt64 :=
  ds.foldl (fun g d => if d = .connected then g + 1 else if d = .disconnected then g - 1 else g) 0

theorem gauge_append_one (ds : List Deed) (d : Deed) :
    gauge (ds ++ [d]) = if d = .connected then gauge ds + 1 else if d = .disconnected then gauge ds - 1 else gauge ds := by
  rw [gauge, List.foldl_append]
  rfl

theorem gauge_counts (ds : List Deed) :
    gauge ds + UInt64.ofNat (ds.count .disconnected) = UInt64.ofNat (ds.count .connected) := by
  induction ds using List.reverseRecOn with
  | nil => rfl
  | append_singleton ds d ih =>
    rw [gauge_append_one, List.count_append, List.count_append, UInt64.ofNat_add, UInt64.ofNat_add, ← ih]
    split
    · rename_i h
      subst h
      simp only [List.count_singleton]
      grind
    · split
      · rename_i h
        subst h
        simp only [List.count_singleton]
        grind
      · rename_i hc hd
        simp [hc, hd]

/-- **The gauge of the connected bridges**: however the steps of the bridges interleave, it shows how many of them serve a
connection. -/
theorem connected_exact (P : Protocol) (n : Nat) (cfgs : Fin n → BridgeConfig) (ss : List (Fin n × Signal)) :
    gauge ((run (Interleaving.family fun i => step P (cfgs i)) (fun _ => {}) ss).2.map (·.2)) =
      UInt64.ofNat (∑ i, ((run (Interleaving.family fun i => step P (cfgs i)) (fun _ => {}) ss).1 i).connections) := by
  have hcount : ∀ x, ((run (Interleaving.family fun i => step P (cfgs i)) (fun _ => {}) ss).2.map (·.2)).count x =
      ∑ i, (run (step P (cfgs i)) {} (Interleaving.of i ss)).2.count x := by
    intro x
    rw [List.count, List.countP_map]
    refine (Interleaving.countP_eq_sum (· == x) _).trans (Finset.sum_congr rfl fun i _ => ?_)
    rw [Interleaving.run_outputs]
  have hgauge := gauge_counts ((run (Interleaving.family fun i => step P (cfgs i)) (fun _ => {}) ss).2.map (·.2))
  have hsum : ∑ i, (run (step P (cfgs i)) {} (Interleaving.of i ss)).2.count .connected =
      ∑ i, (run (step P (cfgs i)) {} (Interleaving.of i ss)).2.count .disconnected +
        ∑ i, (run (step P (cfgs i)) {} (Interleaving.of i ss)).1.connections := by
    rw [← Finset.sum_add_distrib]
    refine Finset.sum_congr rfl fun i _ => ?_
    exact (@run_sound P (cfgs i) (Interleaving.of i ss) {}).2.2
  rw [hcount, hcount, hsum, UInt64.ofNat_add, UInt64.add_comm] at hgauge
  simp only [Interleaving.run_state]
  exact (UInt64.add_right_inj _).1 hgauge

end BridgeTask

end WispMQ
