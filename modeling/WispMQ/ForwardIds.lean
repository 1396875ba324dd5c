import WispMQ.Forwarding
import WispMQ.Lib.Machine
/-!
# The packet ids of a bridge's forwards

`run_loop` takes its packet ids from a bare counter: 2, 3, …, 65535, 1, 2, … (bridge.rs:512-514), whatever the remote has
acknowledged so far. The broker's own sessions skip the ids that are in use (`Session.nextId`).

| here | there |
| --- | --- |
| `BridgeLoop.round`  | one round of the `select!` of `run_loop` (bridge.rs:504) |
| `Wakeup.completes`  | the packet of the remote that ends the exchange of a forwarded PUBLISH |
| `BridgeLoop.Outstanding` | an id used by a forward, or by the SUBSCRIBE of `serve`, whose exchange has not ended |

The `k`-th forward with an id gets `idAt k` (`run_nextId`), so two share an id exactly if their numbers differ by a multiple
of 65535, and the remote has as many forwards to complete an exchange (`forward_ids_iff`).
-/

namespace WispMQ

/-- What wakes the loop up. -/
inductive Wakeup where
  /-- The local channel has something, or is gone. -/
  | item (out : Option Outgoing)
  /-- A packet of the remote, or the end of the connection. -/
  | read (packet : Option Packet) (now : Nat)
  /-- The ping interval; the remote has been silent for too long, or not. -/
  | tick (silent : Bool)
deriving DecidableEq

/-- The packet ends the exchange of the PUBLISH `p`. -/
def Wakeup.completes (p : Publish) : Wakeup → Bool
  | .read (some (.puback a)) _ => p.qos = .atLeastOnce && p.packetId = some a.packetId
  | .read (some (.pubcomp a)) _ => p.qos = .exactlyOnce && p.packetId = some a.packetId
  -- no PUBCOMP follows an error
  | .read (some (.pubrec a)) _ => p.qos = .exactlyOnce && p.packetId = some a.packetId && a.reasonCode.isError
  | _ => false

/-- The SUBACK for the SUBSCRIBE of `serve`. -/
def Wakeup.subscribed : Wakeup → Bool
  | .read (some (.suback a)) _ => a.packetId = 1
  | _ => false

/-- A PUBLISH with a packet id. -/
def Packet.opens : Packet → Bool
  | .publish p => p.qos ≠ .atMostOnce
  | _ => false

namespace BridgeLoop
variable (P : Protocol) (cfg : BridgeConfig)

/-- The loop, `none` once it has returned, and what it sends to the remote. -/
def round : Option BridgeLoop → Wakeup → Option BridgeLoop × List Packet
  | none, _ => (none, [])
  | some loop, .item (some (.send publish)) =>
    let r := loop.forward P cfg publish
    (some r.2, [.publish r.1])
  | some loop, .item (some (.control _)) => (some loop, [])
  | some _, .item (some (.shutdown _)) => (none, [])
  | some _, .item none => (none, [])
  | some loop, .read (some packet) now =>
    let r := loop.receive now packet
    (r.loop, r.replies)
  | some _, .read none _ => (none, [])
  | some loop, .tick silent =>
    if 0 < cfg.keepalive then if silent then (none, []) else (some loop, [.pingreq])
    else (some loop, [])

/-- The loop and everything it has sent after the rounds `es`. -/
def run (es : List Wakeup) : Option BridgeLoop × List Packet := Machine.run (round P cfg) (some {}) es

/-- The number of forwards with an id. -/
def opened (es : List Wakeup) : Nat := (run P cfg es).2.countP Packet.opens

/-- The round `e` after `pre` forwards `p`, with an id. -/
def Forwards (pre : List Wakeup) (e : Wakeup) (p : Publish) : Prop :=
  .publish p ∈ (round P cfg (run P cfg pre).1 e).2 ∧ p.qos ≠ .atMostOnce

/-- The id of a forward, or of the SUBSCRIBE, whose exchange has not ended after `es`. -/
def Outstanding (es : List Wakeup) (id : Nat) : Prop :=
  (cfg.subscribe.isSome ∧ id = 1 ∧ ∀ e ∈ es, e.subscribed = false) ∨
    ∃ pre e post p, es = pre ++ e :: post ∧ Forwards P cfg pre e p ∧ p.packetId = some id ∧ ∀ e' ∈ post, e'.completes p = false

/-- No forward has the id of an exchange that goes on. -/
def UniqueIds (es : List Wakeup) : Prop :=
  ∀ pre e post p id, es = pre ++ e :: post → Forwards P cfg pre e p → p.packetId = some id → ¬Outstanding P cfg pre id

/-- The remote ends every exchange before the bridge comes to the 65535th forward after it, and that of the SUBSCRIBE
before the 65535th forward at all. -/
structure InTime (es : List Wakeup) : Prop where
  publish : ∀ pre e mid e' post p p', es = pre ++ e :: (mid ++ e' :: post) → Forwards P cfg pre e p →
    Forwards P cfg (pre ++ e :: mid) e' p' → opened P cfg (pre ++ e :: mid) = opened P cfg pre + 65535 →
      ∃ e'' ∈ mid, e''.completes p = true
  subscribe : cfg.subscribe.isSome → ∀ pre e post p, es = pre ++ e :: post → Forwards P cfg pre e p →
    opened P cfg pre = 65534 → ∃ e' ∈ pre, e'.subscribed = true

/-- The id of the forward with number `k`, from 0 on. -/
def idAt (k : Nat) : Nat := (k + 1) % 65535 + 1

variable {P cfg}

/-! ## One round -/

theorem receive_nextId {now : Nat} {loop loop' : BridgeLoop} {packet : Packet} (h : (loop.receive now packet).loop = some loop') :
    loop'.nextId = loop.nextId := by
  cases packet with
  | publish p =>
    obtain rfl := Option.some.inj h
    dsimp only [handleInbound]
    split
    · rfl
    · split <;> rfl
  | disconnect d => cases h
  | _ =>
    obtain rfl := Option.some.inj h
    rfl

/-- What is not an item of the local channel opens no exchange and takes no id. -/
theorem round_other {loop : BridgeLoop} {e : Wakeup} (h : ∀ publish, e ≠ .item (some (.send publish))) :
    (∀ publish, .publish publish ∉ (round P cfg (some loop) e).2) ∧
      ∀ loop', (round P cfg (some loop) e).1 = some loop' → loop'.nextId = loop.nextId := by
  cases e with
  | item out =>
    cases out with
    | none => simp [round]
    | some out =>
      cases out with
      | send publish => exact absurd rfl (h publish)
      | control p => simp [round]
      | shutdown rc => simp [round]
  | read packet now =>
    cases packet with
    | none => simp [round]
    | some packet => exact ⟨fun publish hp => receive_replies hp publish rfl, fun loop' => receive_nextId⟩
  | tick silent =>
    simp only [round]
    split
    · split <;> simp
    · simp

theorem idAt_succ (k : Nat) : idAt (k + 1) = if idAt k = 65535 then 1 else idAt k + 1 := by
  unfold idAt
  split <;> omega

theorem idAt_eq_iff {j k : Nat} (h : j ≤ k) : idAt j = idAt k ↔ ∃ m, k = j + 65535 * m := by
  unfold idAt
  constructor
  · intro he
    exact ⟨(k - j) / 65535, by omega⟩
  · rintro ⟨m, rfl⟩
    omega

/-- A round forwards one PUBLISH with the next id, or none with an id. -/
theorem round_cases (P : Protocol) (cfg : BridgeConfig) (s : Option BridgeLoop) (e : Wakeup) :
    (∃ loop p, s = some loop ∧ (round P cfg s e).2 = [.publish p] ∧ p.qos ≠ .atMostOnce ∧ p.packetId = some loop.nextId ∧
      ∀ loop', (round P cfg s e).1 = some loop' → loop'.nextId = if loop.nextId = 65535 then 1 else loop.nextId + 1) ∨
    ((∀ p, .publish p ∈ (round P cfg s e).2 → p.qos = .atMostOnce) ∧
      ∀ loop', (round P cfg s e).1 = some loop' → ∃ loop, s = some loop ∧ loop'.nextId = loop.nextId) := by
  cases s with
  | none => exact .inr ⟨by simp [round], by simp [round]⟩
  | some loop =>
    by_cases h : ∃ publish, e = .item (some (.send publish))
    · obtain ⟨publish, rfl⟩ := h
      by_cases hq : cfg.outQos P publish.topic = .atMostOnce
      · refine .inr ⟨by simp [round, forward, hq], ?_⟩
        rintro loop' ⟨⟩
        exact ⟨loop, rfl, by simp [forward, hq]⟩
      · refine .inl ⟨loop, _, rfl, rfl, hq, by simp [forward, hq], ?_⟩
        rintro loop' ⟨⟩
        simp [forward, hq]
    · simp only [not_exists] at h
      obtain ⟨hno, hid⟩ := @round_other P cfg loop e h
      exact .inr ⟨fun p hp => absurd hp (hno p), fun loop' hl => ⟨loop, rfl, hid loop' hl⟩⟩

theorem countP_opens_eq_zero {ps : List Packet} (h : ∀ p, .publish p ∈ ps → p.qos = .atMostOnce) :
    ps.countP Packet.opens = 0 := by
  refine List.countP_eq_zero.2 fun q hq => ?_
  cases q with
  | publish p => simp [Packet.opens, h p hq]
  | _ => simp [Packet.opens]

/-! ## Along a connection -/

theorem opened_append (pre : List Wakeup) (e : Wakeup) :
    opened P cfg (pre ++ [e]) = opened P cfg pre + (round P cfg (run P cfg pre).1 e).2.countP Packet.opens := by
  rw [opened, run, Machine.run_append, List.countP_append]
  simp [opened, run, Machine.run]

/-- **The counter** stands at the id of the next forward. -/
theorem run_nextId (es : List Wakeup) : ∀ loop, (run P cfg es).1 = some loop → loop.nextId = idAt (opened P cfg es) := by
  induction es using List.reverseRecOn with
  | nil =>
    rintro loop ⟨⟩
    rfl
  | append_singleton es e ih =>
    intro loop hl
    have hround : (run P cfg (es ++ [e])).1 = (round P cfg (run P cfg es).1 e).1 := by
      rw [run, Machine.run_append]
      rfl
    rw [hround] at hl
    rw [opened_append]
    rcases round_cases P cfg (run P cfg es).1 e with ⟨loop₀, p, hs, hout, hq, -, hnext⟩ | ⟨hno, hnext⟩
    · rw [hnext loop hl, ih loop₀ hs, hout, List.countP_singleton, Packet.opens, decide_eq_true hq, if_pos rfl, idAt_succ]
    · obtain ⟨loop₀, hs, hsame⟩ := hnext loop hl
      rw [hsame, ih loop₀ hs, countP_opens_eq_zero hno, Nat.add_zero]

theorem Forwards.packetId {pre : List Wakeup} {e : Wakeup} {p : Publish} (h : Forwards P cfg pre e p) :
    p.packetId = some (idAt (opened P cfg pre)) ∧ opened P cfg (pre ++ [e]) = opened P cfg pre + 1 := by
  obtain ⟨hp, hq⟩ := h
  rcases round_cases P cfg (run P cfg pre).1 e with ⟨loop, p', hs, hout, -, hid, -⟩ | ⟨hno, -⟩
  · rw [hout] at hp
    cases List.mem_singleton.1 hp
    exact ⟨by rw [hid, run_nextId pre loop hs], by simp [opened_append, hout, Packet.opens, hq]⟩
  · exact absurd (hno p hp) hq

theorem opened_mono (pre mid : List Wakeup) : opened P cfg pre ≤ opened P cfg (pre ++ mid) := by
  rw [opened, opened, run, run, Machine.run_append, List.countP_append]
  exact Nat.le_add_right ..

/-- What is before a round of `pre ++ [e']` is in `pre`. -/
theorem mem_of_split {pre mid₁ mid₂ : List Wakeup} {e e' x : Wakeup} (h : pre ++ [e'] = mid₁ ++ e :: mid₂) (hx : x ∈ mid₁) :
    x ∈ pre := by
  have hpre : mid₁ <+: pre := by
    refine List.prefix_of_prefix_length_le ⟨e :: mid₂, h.symm⟩ (List.prefix_append pre [e']) ?_
    have hlen := congrArg List.length h
    simp only [List.length_append, List.length_cons, List.length_nil] at hlen
    omega
  exact hpre.subset hx

/-- The forward with a given number, among rounds that go past it. -/
theorem exists_forward {n : Nat} {pre : List Wakeup} (h : opened P cfg pre ≤ n) :
    ∀ {mid : List Wakeup}, n < opened P cfg (pre ++ mid) →
      ∃ mid₁ e mid₂ p, mid = mid₁ ++ e :: mid₂ ∧ Forwards P cfg (pre ++ mid₁) e p ∧ opened P cfg (pre ++ mid₁) = n := by
  intro mid
  induction mid using List.reverseRecOn with
  | nil =>
    intro hlt
    rw [List.append_nil] at hlt
    omega
  | append_singleton mid e ih =>
    intro hlt
    rw [← List.append_assoc, opened_append] at hlt
    by_cases hlt' : n < opened P cfg (pre ++ mid)
    · obtain ⟨mid₁, e₁, mid₂, p, rfl, hp, hn⟩ := ih hlt'
      exact ⟨mid₁, e₁, mid₂ ++ [e], p, by simp, hp, hn⟩
    · rcases round_cases P cfg (run P cfg (pre ++ mid)).1 e with ⟨loop, p, -, hout, hq, -⟩ | ⟨hno, -⟩
      · have hone : (round P cfg (run P cfg (pre ++ mid)).1 e).2.countP Packet.opens ≤ 1 := by
          rw [hout]
          exact List.countP_le_length
        exact ⟨mid, e, [], p, rfl, ⟨by rw [hout]; exact List.mem_singleton_self _, hq⟩, by omega⟩
      · rw [countP_opens_eq_zero hno] at hlt
        omega

/-- **Packet ids of forwards**: in every run of the loop, they are unique among the exchanges that go on if and only if the
remote ends each in time. -/
theorem forward_ids_iff (P : Protocol) (cfg : BridgeConfig) (es : List Wakeup) : UniqueIds P cfg es ↔ InTime P cfg es := by
  constructor
  · intro hunique
    constructor
    · intro pre e mid e' post p p' hes hp hp' hn
      by_contra hno
      simp only [not_exists, not_and, Bool.not_eq_true] at hno
      have hid : idAt (opened P cfg pre) = idAt (opened P cfg (pre ++ e :: mid)) :=
        (idAt_eq_iff (opened_mono pre (e :: mid))).2 ⟨1, hn⟩
      refine hunique (pre ++ e :: mid) e' post p' _ (by rw [hes]; simp) hp' hp'.packetId.1 ?_
      exact .inr ⟨pre, e, mid, p, rfl, hp, by rw [hp.packetId.1, hid], hno⟩
    · intro hsub pre e post p hes hp hn
      by_contra hno
      simp only [not_exists, not_and, Bool.not_eq_true] at hno
      refine hunique pre e post p 1 hes hp ?_ (.inl ⟨hsub, rfl, hno⟩)
      rw [hp.packetId.1, hn]
      rfl
  · rintro hin pre' e' post p' id hes hp' hid (⟨hsub, rfl, hno⟩ | ⟨pre, e, mid, p, rfl, hp, hpid, hno⟩)
    · -- the forward with number 65534 is this one or came before it
      have hone : idAt 65534 = idAt (opened P cfg pre') := by
        rw [hp'.packetId.1] at hid
        rw [Option.some.inj hid]
        rfl
      have hle : 65534 ≤ opened P cfg pre' := by
        unfold idAt at hone
        omega
      obtain ⟨mid₁, e₁, mid₂, p₁, hsplit, hp₁, hn₁⟩ : ∃ mid₁ e₁ mid₂ p₁, pre' ++ [e'] = mid₁ ++ e₁ :: mid₂ ∧
          Forwards P cfg mid₁ e₁ p₁ ∧ opened P cfg mid₁ = 65534 := by
        refine @exists_forward P cfg 65534 [] (Nat.zero_le _) (pre' ++ [e']) ?_
        rw [List.nil_append, hp'.packetId.2]
        omega
      obtain ⟨x, hx, hack⟩ := hin.subscribe hsub mid₁ e₁ (mid₂ ++ post) p₁
        (by rw [hes, List.append_cons, hsplit]; simp) hp₁ hn₁
      rw [hno x (mem_of_split hsplit hx)] at hack
      cases hack
    · have hsame : idAt (opened P cfg pre) = idAt (opened P cfg (pre ++ e :: mid)) := by
        rw [hp.packetId.1] at hpid
        rw [hp'.packetId.1, ← hpid] at hid
        exact (Option.some.inj hid).symm
      obtain ⟨m, hm⟩ := (idAt_eq_iff (opened_mono pre (e :: mid))).1 hsame
      have hlater : opened P cfg pre + 1 ≤ opened P cfg (pre ++ e :: mid) := by
        have := @opened_mono P cfg (pre ++ [e]) mid
        rw [hp.packetId.2] at this
        simpa using this
      -- the first forward after it with its id
      obtain ⟨mid₁, e₁, mid₂, p₁, hsplit, hp₁, hn₁⟩ : ∃ mid₁ e₁ mid₂ p₁, mid ++ [e'] = mid₁ ++ e₁ :: mid₂ ∧
          Forwards P cfg (pre ++ [e] ++ mid₁) e₁ p₁ ∧ opened P cfg (pre ++ [e] ++ mid₁) = opened P cfg pre + 65535 := by
        refine @exists_forward P cfg _ (pre ++ [e]) (by rw [hp.packetId.2]; omega) (mid ++ [e']) ?_
        have hall : pre ++ [e] ++ (mid ++ [e']) = pre ++ e :: mid ++ [e'] := by simp
        rw [hall, hp'.packetId.2]
        omega
      have hpre : pre ++ [e] ++ mid₁ = pre ++ e :: mid₁ := by simp
      rw [hpre] at hp₁ hn₁
      obtain ⟨x, hx, hack⟩ := hin.publish pre e mid₁ e₁ (mid₂ ++ post) p p₁
        (by rw [hes, List.append_assoc, List.cons_append, List.append_cons mid, hsplit]; simp) hp hp₁ hn₁
      rw [hno x (mem_of_split hsplit hx)] at hack
      cases hack

/-! ## A remote that does not acknowledge -/

/-- Forwards alone, as many as there are. -/
theorem run_forwards {publish : Publish} (hq : cfg.outQos P publish.topic ≠ .atMostOnce) (n : Nat) :
    opened P cfg (List.replicate n (.item (some (.send publish)))) = n ∧
      ∃ loop, (run P cfg (List.replicate n (.item (some (.send publish))))).1 = some loop ∧
        Forwards P cfg (List.replicate n (.item (some (.send publish)))) (.item (some (.send publish)))
          (loop.forward P cfg publish).1 := by
  have hforwards : ∀ {es : List Wakeup} {loop : BridgeLoop}, (run P cfg es).1 = some loop →
      Forwards P cfg es (.item (some (.send publish))) (loop.forward P cfg publish).1 := by
    intro es loop hl
    refine ⟨?_, hq⟩
    rw [hl]
    exact List.mem_singleton_self _
  induction n with
  | zero => exact ⟨rfl, {}, rfl, hforwards rfl⟩
  | succ n ih =>
    obtain ⟨hn, loop, hl, hfwd⟩ := ih
    rw [List.replicate_succ']
    have hnext : (run P cfg (List.replicate n (.item (some (.send publish))) ++ [.item (some (.send publish))])).1 =
        some (loop.forward P cfg publish).2 := by
      rw [run, Machine.run_append]
      change (round P cfg (run P cfg (List.replicate n (.item (some (.send publish))))).1 _).1 = _
      rw [hl]
      rfl
    exact ⟨by rw [hfwd.packetId.2, hn], _, hnext, hforwards hnext⟩

/-- A bridge that forwards `t` at QoS 1, and a message for it. -/
def outCfg : BridgeConfig := { name := "b", clientId := "b", topics := [⟨"t", .out, .atLeastOnce⟩] }

def outPublish : Publish := ⟨false, .atMostOnce, false, "t", none, {}, [1]⟩

def outItem : Wakeup := .item (some (.send outPublish))

/-- The remote acknowledges none of 65536 forwards: the last has the id of the first. -/
theorem forward_ids_wrap : ¬UniqueIds .reference outCfg (List.replicate 65536 outItem) := by
  intro h
  have hq : outCfg.outQos .reference outPublish.topic ≠ .atMostOnce := by decide +kernel
  obtain ⟨-, loop₀, -, hfirst⟩ := run_forwards hq 0
  obtain ⟨hn, loop, -, hlast⟩ := run_forwards hq 65535
  refine h (List.replicate 65535 outItem) outItem [] _ 2 List.replicate_succ' hlast ?_ ?_
  · rw [hlast.packetId.1, hn]
    rfl
  · refine .inr ⟨[], outItem, List.replicate 65534 outItem, _, List.replicate_succ, hfirst, hfirst.packetId.1, ?_⟩
    intro e he
    rw [List.eq_of_mem_replicate he]
    rfl

end BridgeLoop

end WispMQ
