import WispMQ.Sections
import WispMQ.Untouched
import Mathlib.Data.List.DropRight
/-!
# The offline queue is a window of the most recent messages

| here | there |
| --- | --- |
| `Arrival`            | the arguments of one call of `deliver_to_session` (routing.rs:150) |
| `Session.deliverAll` | the calls, and how many of them return true |

A queue never holds more than `max_queued_messages` entries, whatever else happens to its session: only a delivery makes it
longer, and it evicts the oldest entry of a full queue first (`enqueue_window`). While the session is offline nothing leaves the
queue otherwise, so it is the last entries of all that came in (`deliverAll_window`).
-/

namespace WispMQ

/-- A message as it is delivered to a session. -/
structure Arrival where
  now : Nat
  message : Message
  qos : QoS
  retain : Bool
  subIds : List Nat

/-- The entry it makes in the queue. -/
def Arrival.pending (a : Arrival) : Pending := ⟨a.message, a.qos, a.retain, a.subIds⟩

/-- Neither expired nor oversized, and of QoS 1 or 2. -/
structure Arrival.Queues (P : Protocol) (s : Session) (a : Arrival) : Prop where
  unexpired : a.message.isExpired a.now = false
  qos : a.qos ≠ .atMostOnce
  fits : s.oversized P (a.message.toPublish a.now a.qos (some 0) a.retain a.subIds) = false

namespace Session
variable (P : Protocol) (k : Nat)

/-- Deliver in turn, with the number of messages dropped. -/
def deliverAll : List Arrival → Session → Session × Nat
  | [], s => (s, 0)
  | a :: as, s =>
    let r := deliverToSession P a.now s a.message a.qos a.retain a.subIds k
    ((deliverAll as r.1).1, r.2.toNat + (deliverAll as r.1).2)

variable {P k} {s : Session}

/-! ## One delivery -/

/-- An offline session queues what it gets. -/
theorem deliver_offline (k : Nat) (hs : s.out = none) {a : Arrival} (ha : a.Queues P s) :
    deliver P a.now s a.message a.qos a.retain a.subIds k = s.enqueue a.pending k := by
  have hoff : s.sendNow a.now a.pending = (s, none) := by simp [sendNow, isOnline, hs]
  have hexp := ha.unexpired
  have hfits := ha.fits
  cases hq : a.qos with
  | atMostOnce => exact absurd hq ha.qos
  | atLeastOnce | exactlyOnce =>
    rw [hq] at hfits
    simp only [Arrival.pending, hq] at hoff
    simp [deliver, hexp, hfits, hoff, Arrival.pending, hq]

/-- A bounded queue keeps the last `k` entries, and a full one loses its first. -/
theorem enqueue_window (hk : 0 < k) (hlen : s.queue.length ≤ k) (p : Pending) :
    (s.enqueue p k).1 = { s with queue := (s.queue ++ [p]).rtake k } ∧
      (s.enqueue p k).2.dropped.toNat = s.queue.length + 1 - k := by
  unfold enqueue
  by_cases hfull : k ≤ s.queue.length
  · have hcond : (decide (k > 0) && decide (s.queue.length ≥ k)) = true := by simp [hk, hfull]
    rw [if_pos hcond]
    cases hq : s.queue with
    | nil => simp [hq] at hfull; omega
    | cons x q =>
      rw [hq, List.length_cons] at hlen hfull
      have hdrop : (x :: q ++ [p]).length - k = 1 := by
        simp only [List.length_append, List.length_cons, List.length_nil]
        omega
      refine ⟨?_, ?_⟩
      · simp only [List.rtake, hdrop]
        rfl
      · simp only [List.head?_cons, Fate.dropped, Bool.toNat_true, List.length_cons]
        omega
  · have hcond : ¬(decide (k > 0) && decide (s.queue.length ≥ k)) = true := by simp [hfull]
    rw [if_neg hcond]
    have hdrop : (s.queue ++ [p]).length - k = 0 := by
      simp only [List.length_append, List.length_cons, List.length_nil]
      omega
    refine ⟨?_, ?_⟩
    · simp only [List.rtake, hdrop, List.drop_zero]
    · simp only [Fate.dropped, Bool.toNat_false]
      omega

theorem enqueue_unbounded (s : Session) (p : Pending) : s.enqueue p 0 = ({ s with queue := s.queue ++ [p] }, .queued none) := by
  simp [enqueue]

/-! ## A list of deliveries -/

/-- What has left a window stays out of it. -/
theorem rtake_append_rtake {α : Type} (l₁ l₂ : List α) (k : Nat) : (l₁.rtake k ++ l₂).rtake k = (l₁ ++ l₂).rtake k := by
  have hlen : (l₁.drop (l₁.length - k) ++ l₂).length = l₁.length - (l₁.length - k) + l₂.length := by simp
  rw [List.rtake, List.rtake, List.rtake, hlen, List.length_append]
  by_cases h : l₁.length ≤ k
  · rw [Nat.sub_eq_zero_of_le h, List.drop_zero, Nat.sub_zero]
  · have hsplit : l₁.length + l₂.length - k = (l₁.length - k) + (l₁.length - (l₁.length - k) + l₂.length - k) := by omega
    rw [hsplit, ← List.drop_drop, List.drop_append_of_le_length (Nat.sub_le _ _)]

theorem deliverAll_window (hk : 0 < k) : ∀ (as : List Arrival) (s : Session), s.out = none → s.queue.length ≤ k →
    (∀ a ∈ as, a.Queues P s) →
    s.deliverAll P k as =
      ({ s with queue := (s.queue ++ as.map Arrival.pending).rtake k }, s.queue.length + as.length - k)
  | [], s, _, hlen, _ => by
    simp [deliverAll, List.rtake, Nat.sub_eq_zero_of_le hlen]
  | a :: as, s, hs, hlen, has => by
    obtain ⟨ha, has⟩ := List.forall_mem_cons.1 has
    obtain ⟨hsession, hdropped⟩ := enqueue_window hk hlen a.pending
    have hlen' : ((s.queue ++ [a.pending]).rtake k).length = min (s.queue.length + 1) k := by
      simp only [List.rtake, List.length_drop, List.length_append, List.length_cons, List.length_nil]
      omega
    have ih := deliverAll_window hk as { s with queue := (s.queue ++ [a.pending]).rtake k } hs
      (hlen'.le.trans (Nat.min_le_right _ _)) fun b hb => ⟨(has b hb).unexpired, (has b hb).qos, (has b hb).fits⟩
    simp only [deliverAll, deliverToSession, deliver_offline k hs ha, hsession, hdropped, ih]
    rw [rtake_append_rtake, hlen', List.append_assoc, List.map_cons, List.singleton_append, List.length_cons]
    refine Prod.ext rfl ?_
    simp only
    omega

theorem deliverAll_unbounded : ∀ (as : List Arrival) (s : Session), s.out = none → (∀ a ∈ as, a.Queues P s) →
    s.deliverAll P 0 as = ({ s with queue := s.queue ++ as.map Arrival.pending }, 0)
  | [], s, _, _ => by simp [deliverAll]
  | a :: as, s, hs, has => by
    obtain ⟨ha, has⟩ := List.forall_mem_cons.1 has
    have ih := deliverAll_unbounded as { s with queue := s.queue ++ [a.pending] } hs
      fun b hb => ⟨(has b hb).unexpired, (has b hb).qos, (has b hb).fits⟩
    simp only [deliverAll, deliverToSession, deliver_offline 0 hs ha, enqueue_unbounded, ih]
    simp [Fate.dropped]

/-! ## The bound -/

theorem launched_queue {now id : Nat} {p : Pending} {s' : Session} (h : s.Launched now p id s') : s'.queue = s.queue := by
  obtain ⟨tx, -, -, rfl⟩ := h.sent
  cases p.qos <;> rfl

/-- `flush_queue` leaves an end of the queue. -/
theorem flushQueue_suffix (P : Protocol) (now : Nat) (s : Session) : (flushQueue P now s).1.queue <:+ s.queue := by
  obtain ⟨q, s', he, hq⟩ := flushLoop_rule P now (fun q _ _ => q <:+ s.queue) (fun _ _ _ h => h)
    (fun p q _ _ _ h => (List.suffix_cons p q).trans h) (fun p q _ _ _ h => (List.suffix_cons p q).trans h)
    (fun p q _ _ _ _ _ _ h => (List.suffix_cons p q).trans h) s.queue s [] List.suffix_rfl
  rw [flushQueue, he]
  exact hq

theorem deliver_bounded (hk : 0 < k) (h : s.queue.length ≤ k) (now : Nat) (m : Message) (qos : QoS) (retain : Bool)
    (subIds : List Nat) : (deliver P now s m qos retain subIds k).1.queue.length ≤ k := by
  have hd := deliver_delivered P now s m qos retain subIds k
  generalize (deliver P now s m qos retain subIds k).1 = s', (deliver P now s m qos retain subIds k).2 = fate at hd
  cases hd with
  | expired => exact h
  | offline => exact h
  | discarded => exact h
  | pushed _ hsend =>
    obtain ⟨tx, -, -, rfl⟩ := trySend_some hsend
    exact h
  | launched _ _ _ hl => exact (launched_queue hl).symm ▸ h
  | @queued s₁ _ _ hs =>
    have hq : s₁.queue.length ≤ k := by rcases hs with rfl | rfl <;> exact h
    rw [(enqueue_window hk hq _).1]
    simp only [List.rtake, List.length_drop]
    omega

theorem apply_bounded (hk : 0 < k) (h : s.queue.length ≤ k) {now : Nat} {o : Op} (ho : o.steadyAt now k ∨ o = .close) :
    (s.apply P o).1.queue.length ≤ k := by
  cases o with
  | deliver now' m qos retain subIds maxQueued =>
    obtain ⟨-, hmax⟩ : now' = now ∧ maxQueued = k := by simpa [Op.steadyAt] using ho
    exact hmax ▸ deliver_bounded (hmax ▸ hk) (hmax ▸ h) now' m qos retain subIds
  | puback now id => exact (flushQueue_suffix P now _).length_le.trans h
  | pubcomp now id => exact (flushQueue_suffix P now _).length_le.trans h
  | pubrec ack =>
    simp only [apply, pubrec]
    split
    · exact h
    · split
      · rw [(push_sameOutbound _ _).queue]
        exact h
      · split
        · exact h
        · rw [(push_sameOutbound _ _).queue]
          exact h
  | resume => simp [Op.steadyAt] at ho
  | _ =>
    rw [(apply_inert P s rfl).queue]
    exact h

/-- A takeover queues nothing. -/
theorem resume_bounded (h : s.queue.length ≤ k) (now : Nat) (ord : Orders) (cfg : Config) (acl : Acl) (req : ConnectRequest)
    (epoch : Nat) : (s.apply P (.resume now ord cfg acl req epoch)).1.queue.length ≤ k := by
  have hbound : (s.resumeBound P now cfg acl req epoch).queue.length ≤ k := by
    rw [(resumeBound_outbound P now cfg acl req epoch s).queue]
    split
    · exact Nat.zero_le k
    · exact h
  simp only [apply, resumeDelivery]
  split
  · refine (flushQueue_suffix P now _).length_le.trans ?_
    rw [(retransmit_sameOutbound ord _).queue]
    exact hbound
  · exact hbound

end Session

namespace World
open Broker
variable {P : Protocol}

theorem run_queue_bounded (now : Nat) (cfg : Config) (db : Db) (acl : Acl) (auth : Option Credentials) (ls : List Label)
    (hk : 0 < cfg.maxQueuedMessages) : ∀ cid s, (run P (boot P now cfg db acl auth) ls).1.broker.sessions.lookup cid = some s →
      s.queue.length ≤ cfg.maxQueuedMessages := by
  induction ls using List.reverseRecOn with
  | nil =>
    intro cid s hs
    rw [run, Machine.run, boot_lookup] at hs
    split at hs
    · cases hs
    · obtain ⟨row, -, rfl⟩ := Option.map_eq_some_iff.1 hs
      exact Nat.zero_le _
  | append_singleton ls l ih =>
    rw [run_append]
    have hcfg : (run P (boot P now cfg db acl auth) ls).1.broker.config = cfg := run_config P _ ls
    refine (step_pacedChange P (run P (boot P now cfg db acl auth) ls).1 l).forall_sessions (fun s o ho hs => ?_)
      (fun req s _ hs => Session.resume_bounded hs ..) (fun _ _ => Nat.zero_le _) (fun _ => Nat.zero_le _) ih
    rw [hcfg] at ho
    exact Session.apply_bounded hk hs ho

/-- **The offline queue is a bounded window of the most recent messages.** In every run with a bound every queue keeps it.
Messages delivered to an offline session leave it the last of what it had and what came, and as many are dropped as do not
fit; without a bound all stay. -/
theorem offline_queue_window (P : Protocol) (k : Nat) :
    (∀ now (cfg : Config) db acl auth ls, cfg.maxQueuedMessages = k → 0 < k → ∀ cid s,
      (run P (boot P now cfg db acl auth) ls).1.broker.sessions.lookup cid = some s → s.queue.length ≤ k) ∧
    ∀ (s : Session) (as : List Arrival), s.out = none → (∀ a ∈ as, a.Queues P s) →
      (0 < k → s.queue.length ≤ k → s.deliverAll P k as =
        ({ s with queue := (s.queue ++ as.map Arrival.pending).rtake k }, s.queue.length + as.length - k)) ∧
      (k = 0 → s.deliverAll P k as = ({ s with queue := s.queue ++ as.map Arrival.pending }, 0)) := by
  refine ⟨fun now cfg db acl auth ls hcfg hk => ?_, fun s as hs has => ⟨fun hk hlen => ?_, fun hk => ?_⟩⟩
  · subst hcfg
    exact run_queue_bounded now cfg db acl auth ls hk
  · exact Session.deliverAll_window hk as s hs hlen has
  · subst hk
    exact Session.deliverAll_unbounded as s hs has

/-- Three messages for a session that may hold two. -/
def threeArrivals : List Arrival :=
  [1, 2, 3].map fun n => ⟨0, ⟨"t", [n], .atLeastOnce, false, none, none, none, none, [], none⟩, .atLeastOnce, false, []⟩

/-- The first is dropped. -/
theorem offline_queue_window_three : (Session.new "c" 60).deliverAll .reference 2 threeArrivals =
    ({ Session.new "c" 60 with queue := (threeArrivals.map Arrival.pending).rtake 2 }, 1) :=
  ((offline_queue_window .reference 2).2 (Session.new "c" 60) threeArrivals rfl fun a ha => by
    have hall : ∀ a ∈ threeArrivals, a.message.isExpired a.now = false ∧ a.qos ≠ .atMostOnce ∧
        (Session.new "c" 60).oversized .reference (a.message.toPublish a.now a.qos (some 0) a.retain a.subIds) = false := by
      decide
    exact ⟨(hall a ha).1, (hall a ha).2.1, (hall a ha).2.2⟩).1 (by decide) (by decide)

end World

end WispMQ
