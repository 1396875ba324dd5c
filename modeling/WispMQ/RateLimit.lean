import WispMQ.Lib.KeyMap
import WispMQ.Lib.Machine
import WispMQ.Lib.Windows
import Mathlib.Data.List.SplitBy
/-!
# Connection-rate limiting: `ratelimit.rs`

| here | there |
| --- | --- |
| `RateLimiter`       | `RateLimiter` (ratelimit.rs:21); the state is an IP's window start and its `u32` counter |
| `RateLimiter.check` | `check` (ratelimit.rs:42), with the addition that wraps in the release build |
| `RateLimiter.sweep` | `sweep` (ratelimit.rs:62) |
| `Call`, `step`      | a call under the lock, at the instant it reads there |

An `Answer` also says whether the check opened a window, which the caller of `check` is not told.

A check is answered by its place in its own window (`run_answers`): the sweep forgets only what the next check would reset
anyway (`run_noSweeps`), and the windows of an IP are those of its own instants. In a window the counter is good for
`2^32 - 1` checks. The next one brings it back to 0 and is let in.
-/

namespace WispMQ
open KeyMap Windows

/-- Instants are natural numbers; `duration_since` is subtraction, which stops at 0 as there. -/
structure RateLimiter (Ip : Type) [DecidableEq Ip] where
  limit : Nat
  window : Nat
  state : KeyMap Ip (Nat × Nat) := ∅

namespace RateLimiter

/-- A call of the limiter, with the instant it reads. -/
inductive Call (Ip : Type) where
  | check (ip : Ip) (now : Nat)
  | sweep (now : Nat)
deriving DecidableEq

/-- What became of a check. -/
structure Answer (Ip : Type) where
  ip : Ip
  now : Nat
  /-- The check has opened a window. -/
  reset : Bool
  ok : Bool
deriving DecidableEq

def Call.now {Ip : Type} : Call Ip → Nat
  | check _ now | sweep now => now

def Call.isCheck {Ip : Type} : Call Ip → Bool
  | check .. => true
  | sweep _ => false

variable {Ip : Type} [DecidableEq Ip]

def check (rl : RateLimiter Ip) (ip : Ip) (now : Nat) : RateLimiter Ip × Bool :=
  if rl.limit = 0 then (rl, true)
  else
    let entry := (rl.state.lookup ip).getD (now, 0)
    if rl.window ≤ now - entry.1 then ({ rl with state := rl.state.insert ip (now, 1) }, true)
    else
      let count := (entry.2 + 1) % 2 ^ 32
      ({ rl with state := rl.state.insert ip (entry.1, count) }, count ≤ rl.limit)

def sweep (rl : RateLimiter Ip) (now : Nat) : RateLimiter Ip :=
  { rl with state := filterEntries rl.state fun _ entry => now - entry.1 < rl.window * 2 }

/-- A check of `ip` finds no entry, or one that has aged out. -/
def opens (rl : RateLimiter Ip) (ip : Ip) (now : Nat) : Bool :=
  (rl.state.lookup ip).all fun entry => rl.window ≤ now - entry.1

def step (rl : RateLimiter Ip) : Call Ip → RateLimiter Ip × List (Answer Ip)
  | .check ip now => ((rl.check ip now).1, [⟨ip, now, rl.opens ip now, (rl.check ip now).2⟩])
  | .sweep now => (rl.sweep now, [])

def run (rl : RateLimiter Ip) (calls : List (Call Ip)) : RateLimiter Ip × List (Answer Ip) := Machine.run step rl calls

/-- No check reads an instant before that of an earlier call. The clock is read under the lock. -/
def Ordered (calls : List (Call Ip)) : Prop := calls.Pairwise fun a b => b.isCheck → a.now ≤ b.now

/-- The instant of a check of `ip`. -/
def Call.own (ip : Ip) : Call Ip → Option Nat
  | check ip' now => if ip' = ip then some now else none
  | sweep _ => none

/-- The instants of the checks of `ip`. -/
def instants (ip : Ip) (calls : List (Call Ip)) : List Nat := calls.filterMap (Call.own ip)

instance (calls : List (Call Ip)) : Decidable (Ordered calls) :=
  inferInstanceAs (Decidable (calls.Pairwise fun a b => b.isCheck → a.now ≤ b.now))

theorem Ordered.instants {calls : List (Call Ip)} (h : Ordered calls) (ip : Ip) :
    (instants ip calls).Pairwise (· ≤ ·) := by
  rw [RateLimiter.instants, List.pairwise_filterMap]
  refine List.Pairwise.imp ?_ h
  intro a b hab t ht t' ht'
  cases a with
  | sweep now => simp [Call.own] at ht
  | check ip₁ now =>
    cases b with
    | sweep now' => simp [Call.own] at ht'
    | check ip₂ now' =>
      simp only [Call.own, Option.ite_none_right_eq_some, Option.some.injEq] at ht ht'
      have hle := hab rfl
      simp only [Call.now] at hle
      omega

/-! ## One IP -/

/-- What a check does to the entry of its IP. -/
def hit (limit window : Nat) : Option (Nat × Nat) → Nat → (Nat × Nat) × Bool
  | none, now => ((now, 1), true)
  | some (start, count), now =>
    if window ≤ now - start then ((now, 1), true)
    else ((start, (count + 1) % 2 ^ 32), (count + 1) % 2 ^ 32 ≤ limit)

/-- A window that has aged out is as good as none. -/
theorem hit_aged (limit : Nat) {window now : Nat} {entry : Nat × Nat} (h : window ≤ now - entry.1) :
    hit limit window (some entry) now = hit limit window none now := by
  simp [hit, h]

theorem check_eq {rl : RateLimiter Ip} (hl : 0 < rl.limit) (hw : 0 < rl.window) (ip : Ip) (now : Nat) :
    rl.check ip now =
      ({ rl with state := rl.state.insert ip (hit rl.limit rl.window (rl.state.lookup ip) now).1 },
        (hit rl.limit rl.window (rl.state.lookup ip) now).2) := by
  have hl' : rl.limit ≠ 0 := by omega
  cases he : rl.state.lookup ip with
  | none =>
    have hw' : ¬rl.window ≤ 0 := by omega
    simp [check, hl', he, hit, hw', Nat.one_le_iff_ne_zero]
  | some entry =>
    by_cases hage : rl.window ≤ now - entry.1
    · simp [check, hl', he, hit, hage]
    · simp [check, hl', he, hit, hage]

/-- The answers to the checks of one IP, from its entry on. -/
def ownRun (limit window : Nat) (ip : Ip) : Option (Nat × Nat) → List Nat → List (Answer Ip)
  | _, [] => []
  | entry, t :: ts =>
    ⟨ip, t, entry.all fun e => window ≤ t - e.1, (hit limit window entry t).2⟩ ::
      ownRun limit window ip (some (hit limit window entry t).1) ts

/-! ## The sweep is invisible -/

section
variable {rl rl' : RateLimiter Ip} {calls : List (Call Ip)}

/-- `rl` may lack an entry of `rl'`, if it has aged out for every check that is still to come. -/
structure Lags (calls : List (Call Ip)) (rl rl' : RateLimiter Ip) : Prop where
  limit : rl.limit = rl'.limit
  window : rl.window = rl'.window
  entry : ∀ ip, rl.state.lookup ip = rl'.state.lookup ip ∨
    rl.state.lookup ip = none ∧ ∃ e, rl'.state.lookup ip = some e ∧ ∀ now, .check ip now ∈ calls → rl'.window ≤ now - e.1

theorem Lags.refl (calls : List (Call Ip)) (rl : RateLimiter Ip) : Lags calls rl rl := ⟨rfl, rfl, fun _ => .inl rfl⟩

/-- A check is answered alike, and does not tell the two apart any more. -/
theorem Lags.check {ip : Ip} {now : Nat} (hl : 0 < rl'.limit) (hw : 0 < rl'.window)
    (h : Lags (.check ip now :: calls) rl rl') :
    (rl.step (.check ip now)).2 = (rl'.step (.check ip now)).2 ∧
      Lags calls (rl.step (.check ip now)).1 (rl'.step (.check ip now)).1 := by
  have hhit : hit rl.limit rl.window (rl.state.lookup ip) now = hit rl'.limit rl'.window (rl'.state.lookup ip) now := by
    rw [h.limit, h.window]
    rcases h.entry ip with heq | ⟨hnone, e, he, hage⟩
    · rw [heq]
    · rw [hnone, he, hit_aged _ (hage now (by simp))]
  have hopens : rl.opens ip now = rl'.opens ip now := by
    simp only [opens, h.window]
    rcases h.entry ip with heq | ⟨hnone, e, he, hage⟩
    · rw [heq]
    · rw [hnone, he]
      simp [hage now (by simp)]
  have hc := check_eq (h.limit ▸ hl : 0 < rl.limit) (h.window ▸ hw : 0 < rl.window) ip now
  have hc' := check_eq hl hw ip now
  constructor
  · simp only [step, hc, hc', hhit, hopens]
  · refine ⟨?_, ?_, ?_⟩
    · simp only [step, hc, hc', h.limit]
    · simp only [step, hc, hc', h.window]
    · intro ip'
      simp only [step, hc, hc', hhit]
      by_cases hip : ip' = ip
      · subst hip
        simp
      · rw [AList.lookup_insert_ne hip, AList.lookup_insert_ne hip]
        refine (h.entry ip').imp id ?_
        rintro ⟨hnone, e, he, hage⟩
        exact ⟨hnone, e, he, fun t ht => hage t (List.mem_cons_of_mem _ ht)⟩

theorem Lags.sweep {now : Nat} (h : Lags (.sweep now :: calls) rl rl') (ho : Ordered (.sweep now :: calls)) :
    Lags calls (rl.sweep now) rl' where
  limit := h.limit
  window := h.window
  entry := by
    intro ip
    have hlater : ∀ t, Call.check ip t ∈ calls → now ≤ t := fun t ht => List.rel_of_pairwise_cons ho ht rfl
    have hmono : ∀ {e : Nat × Nat}, (∀ t, Call.check ip t ∈ Call.sweep now :: calls → rl'.window ≤ t - e.1) →
        ∀ t, Call.check ip t ∈ calls → rl'.window ≤ t - e.1 := fun hage t ht => hage t (List.mem_cons_of_mem _ ht)
    rw [RateLimiter.sweep, lookup_filterEntries]
    rcases h.entry ip with heq | ⟨hnone, e, he, hage⟩
    · rw [heq]
      cases he : rl'.state.lookup ip with
      | none => exact .inl rfl
      | some e =>
        by_cases hkeep : now - e.1 < rl.window * 2
        · exact .inl (by simp [hkeep])
        · refine .inr ⟨by simpa using hkeep, e, rfl, fun t ht => ?_⟩
          have := hlater t ht
          rw [← h.window]
          omega
    · exact .inr ⟨by rw [hnone]; rfl, e, he, hmono hage⟩

theorem step_limit (rl : RateLimiter Ip) (c : Call Ip) : (rl.step c).1.limit = rl.limit := by
  cases c with
  | sweep now => rfl
  | check ip now =>
    simp only [step, check]
    split
    · rfl
    · split <;> rfl

theorem step_window (rl : RateLimiter Ip) (c : Call Ip) : (rl.step c).1.window = rl.window := by
  cases c with
  | sweep now => rfl
  | check ip now =>
    simp only [step, check]
    split
    · rfl
    · split <;> rfl

/-- Without its sweeps a run answers the same, call by call. -/
theorem run_noSweeps : ∀ {calls : List (Call Ip)} {rl rl' : RateLimiter Ip}, 0 < rl'.limit → 0 < rl'.window →
    Ordered calls → Lags calls rl rl' → (run rl calls).2 = (run rl' (calls.filter Call.isCheck)).2 := by
  intro calls
  induction calls with
  | nil => intro rl rl' _ _ _ _; rfl
  | cons c calls ih =>
    intro rl rl' hl hw ho h
    cases c with
    | check ip now =>
      obtain ⟨hans, hlags⟩ := h.check hl hw
      have hfilter : (Call.check ip now :: calls).filter Call.isCheck = .check ip now :: calls.filter Call.isCheck := rfl
      rw [hfilter]
      simp only [run, Machine.run] at ih ⊢
      rw [hans, ih (by rw [step_limit]; exact hl) (by rw [step_window]; exact hw) ho.of_cons hlags]
    | sweep now => exact ih hl hw ho.of_cons (h.sweep ho)

/-- The answers an IP gets are those to its own checks. -/
theorem run_own (ip : Ip) : ∀ {calls : List (Call Ip)} {rl : RateLimiter Ip}, 0 < rl.limit → 0 < rl.window →
    (∀ c ∈ calls, c.isCheck) →
    (run rl calls).2.filter (·.ip = ip) = ownRun rl.limit rl.window ip (rl.state.lookup ip) (instants ip calls) := by
  intro calls
  induction calls with
  | nil => intro rl _ _ _; rfl
  | cons c calls ih =>
    intro rl hl hw hcalls
    obtain ⟨hc, hrest⟩ := List.forall_mem_cons.1 hcalls
    cases c with
    | sweep now => simp [Call.isCheck] at hc
    | check ip' now =>
      have hstep : rl.step (.check ip' now) =
          ({ rl with state := rl.state.insert ip' (hit rl.limit rl.window (rl.state.lookup ip') now).1 },
            [⟨ip', now, rl.opens ip' now, (hit rl.limit rl.window (rl.state.lookup ip') now).2⟩]) := by
        simp only [step, check_eq hl hw]
      have hrun := @ih (rl.step (.check ip' now)).1 (by rw [step_limit]; exact hl) (by rw [step_window]; exact hw) hrest
      simp only [run, Machine.run] at hrun ⊢
      rw [hstep] at hrun ⊢
      rw [List.filter_append, hrun]
      by_cases hip : ip' = ip
      · subst hip
        simp [instants, Call.own, ownRun, opens]
      · rw [AList.lookup_insert_ne (Ne.symm hip)]
        simp [instants, Call.own, hip]

end

/-! ## The windows of an IP -/

section
variable {Ip : Type} {limit window : Nat} (ip : Ip)

/-- The answers of a window that is opened by the first of the instants. -/
def windowAnswers (limit : Nat) (ip : Ip) (ts : List Nat) : List (Answer Ip) :=
  ts.mapIdx fun i t => ⟨ip, t, i = 0, (i + 1) % 2 ^ 32 ≤ limit⟩

theorem windowAnswers_concat (limit : Nat) (ip : Ip) (ts : List Nat) (t : Nat) :
    windowAnswers limit ip (ts ++ [t]) =
      windowAnswers limit ip ts ++ [⟨ip, t, ts.length = 0, (ts.length + 1) % 2 ^ 32 ≤ limit⟩] := by
  simp [windowAnswers]

/-- By induction on what is still to come, the window that is open and the entry go together. -/
theorem cut_answers (hl : 0 < limit) : ∀ (ts : List Nat) (start : Nat) (cur : List Nat), cur ≠ [] →
    (cut window start cur ts).flatMap (windowAnswers limit ip) =
      windowAnswers limit ip cur ++ ownRun limit window ip (some (start, cur.length % 2 ^ 32)) ts := by
  intro ts
  induction ts with
  | nil => intro start cur _; simp [cut, ownRun]
  | cons t ts ih =>
    intro start cur hcur
    have hone : windowAnswers limit ip [t] = [⟨ip, t, true, true⟩] := by
      simp [windowAnswers]
      omega
    by_cases h : window ≤ t - start
    · rw [cut, if_pos h, List.flatMap_cons, ih t [t] (by simp), hone]
      simp [ownRun, hit, h]
    · have hlen : cur.length ≠ 0 := by simpa using hcur
      rw [cut, if_neg h, ih start (cur ++ [t]) (by simp), windowAnswers_concat]
      simp [ownRun, hit, h, hlen]

theorem ownRun_windows (hl : 0 < limit) (ts : List Nat) :
    ownRun limit window ip none ts = (windows window ts).flatMap (windowAnswers limit ip) := by
  cases ts with
  | nil => rfl
  | cons t ts =>
    rw [windows, cut_answers ip hl ts t [t] (by simp)]
    simp [ownRun, hit, windowAnswers]
    omega

/-- How many are let in: every place from 1 to the length of the window whose remainder is within the limit. -/
theorem windowAnswers_countP (ts : List Nat) : (windowAnswers limit ip ts).countP (·.ok) =
    (List.range ts.length).countP fun i => (i + 1) % 2 ^ 32 ≤ limit := by
  induction ts using List.reverseRecOn with
  | nil => rfl
  | append_singleton ts t ih =>
    rw [windowAnswers_concat, List.countP_append, ih, List.length_append, List.length_singleton, List.range_succ,
      List.countP_append]
    simp

/-- A window whose counter does not come round lets `limit` in. -/
theorem countP_range_of_lt (limit : Nat) : ∀ {n : Nat}, n < 2 ^ 32 →
    ((List.range n).countP fun i => (i + 1) % 2 ^ 32 ≤ limit) = min n limit := by
  intro n
  induction n with
  | zero => intro _; simp
  | succ n ih =>
    intro hn
    have hmod : (n + 1) % 2 ^ 32 = n + 1 := Nat.mod_eq_of_lt hn
    rw [List.range_succ, List.countP_append, ih (by omega), List.countP_singleton, hmod]
    by_cases h : n + 1 ≤ limit
    · simp only [h, decide_true, if_true]
      omega
    · simp only [h, decide_false, Bool.false_eq_true, if_false]
      omega

/-- The check that brings the counter back to 0 is one too many. -/
theorem lt_countP_range (hl : limit < 2 ^ 32) {n : Nat} (hn : 2 ^ 32 ≤ n) :
    limit < (List.range n).countP fun i => (i + 1) % 2 ^ 32 ≤ limit := by
  have hsub : (List.range (2 ^ 32 - 1 + 1)).Sublist (List.range n) := List.range_sublist.2 (by omega)
  have hround := countP_range_of_lt limit (show 2 ^ 32 - 1 < 2 ^ 32 by omega)
  have hlast : (2 ^ 32 - 1 + 1) % 2 ^ 32 ≤ limit := by omega
  calc limit < min (2 ^ 32 - 1) limit + 1 := by omega
    _ = (List.range (2 ^ 32 - 1 + 1)).countP fun i => (i + 1) % 2 ^ 32 ≤ limit := by
      rw [List.range_succ, List.countP_append, hround, List.countP_singleton]
      simp only [hlast, decide_true, if_true]
    _ ≤ _ := hsub.countP_le

theorem windowAnswers_countP_le_iff (hl : limit < 2 ^ 32) (ts : List Nat) :
    (windowAnswers limit ip ts).countP (·.ok) ≤ limit ↔ ts.length < 2 ^ 32 := by
  rw [windowAnswers_countP]
  constructor
  · intro hle
    by_contra hn
    have := lt_countP_range hl (Nat.le_of_not_lt hn)
    omega
  · intro hn
    rw [countP_range_of_lt limit hn]
    exact Nat.min_le_right ..

theorem windowAnswers_take_ok (hl : limit < 2 ^ 32) (ts : List Nat) :
    ∀ a ∈ (windowAnswers limit ip ts).take limit, a.ok := by
  intro a ha
  obtain ⟨i, hi, rfl⟩ := List.mem_take_iff_getElem.1 ha
  have hmod : (i + 1) % 2 ^ 32 = i + 1 := Nat.mod_eq_of_lt (by omega)
  simp only [windowAnswers, List.getElem_mapIdx, hmod, decide_eq_true_eq]
  omega

/-- The answers from one opening of a window to the next. -/
def betweenResets (answers : List (Answer Ip)) : List (List (Answer Ip)) := answers.splitBy fun _ b => !b.reset

theorem betweenResets_windows (ts : List Nat) :
    betweenResets ((windows window ts).flatMap (windowAnswers limit ip)) =
      (windows window ts).map (windowAnswers limit ip) := by
  have hsplit : ∀ e ∈ windows window ts, ∃ t r, windowAnswers limit ip e =
      ⟨ip, t, true, 1 % 2 ^ 32 ≤ limit⟩ :: r ∧ ∀ a ∈ r, a.reset = false := by
    intro e he
    obtain ⟨t, r, rfl⟩ := List.exists_cons_of_ne_nil (windows_ne_nil window he)
    refine ⟨t, r.mapIdx fun i t => ⟨ip, t, i + 1 = 0, (i + 1 + 1) % 2 ^ 32 ≤ limit⟩, ?_, ?_⟩
    · simp [windowAnswers, List.mapIdx_cons]
    · intro a ha
      obtain ⟨i, hi, rfl⟩ := List.mem_mapIdx.1 ha
      simp
  have hchain : ∀ (r : List (Answer Ip)) (a : Answer Ip), (∀ b ∈ r, b.reset = false) →
      (a :: r).IsChain fun _ b => (!b.reset) = true := by
    intro r
    induction r with
    | nil => intro a _; exact List.isChain_singleton a
    | cons b r ih =>
      intro a hr
      obtain ⟨hb, hr⟩ := List.forall_mem_cons.1 hr
      exact List.isChain_cons_cons.2 ⟨by simp [hb], ih b hr⟩
  rw [betweenResets, List.flatMap_def, List.splitBy_eq_iff]
  refine ⟨rfl, ?_, ?_, ?_⟩
  · rw [List.mem_map]
    rintro ⟨e, he, hnil⟩
    obtain ⟨t, r, heq, -⟩ := hsplit e he
    rw [heq] at hnil
    cases hnil
  · intro m hm
    obtain ⟨e, he, rfl⟩ := List.mem_map.1 hm
    obtain ⟨t, r, heq, hr⟩ := hsplit e he
    rw [heq]
    exact hchain r _ hr
  · -- every window begins with a reset
    refine List.Pairwise.isChain (List.Pairwise.imp_of_mem ?_ (List.pairwise_of_forall fun _ _ => trivial))
    intro m m' hm hm' _
    obtain ⟨e, he, rfl⟩ := List.mem_map.1 hm
    obtain ⟨e', he', rfl⟩ := List.mem_map.1 hm'
    obtain ⟨t, r, heq, -⟩ := hsplit e he
    obtain ⟨t', r', heq', -⟩ := hsplit e' he'
    simp [heq, heq']

end

/-! ## The runs of a limiter -/

/-- `RateLimiter::with_window` (ratelimit.rs:32). -/
def withWindow (limit window : Nat) : RateLimiter Ip := { limit, window }

/-- The answers to the checks of an IP in a run from the start. -/
def answers (limit window : Nat) (ip : Ip) (calls : List (Call Ip)) : List (Answer Ip) :=
  (run (withWindow limit window) calls).2.filter (·.ip = ip)

variable {limit window : Nat} {calls : List (Call Ip)}

theorem instants_filter_isCheck (ip : Ip) (calls : List (Call Ip)) :
    instants ip (calls.filter Call.isCheck) = instants ip calls := by
  induction calls with
  | nil => rfl
  | cons c calls ih =>
    simp only [instants] at ih ⊢
    cases c with
    | check ip' now => rw [List.filter_cons_of_pos rfl, List.filterMap_cons, List.filterMap_cons, ih]
    | sweep now => rw [List.filter_cons_of_neg (by simp [Call.isCheck]), List.filterMap_cons_none rfl, ih]

/-- A check is answered by its place in its window. -/
theorem answers_windows (hl : 0 < limit) (hw : 0 < window) (ho : Ordered calls) (ip : Ip) :
    answers limit window ip calls = (windows window (instants ip calls)).flatMap (windowAnswers limit ip) := by
  have hchecks : ∀ c ∈ calls.filter Call.isCheck, c.isCheck := fun c hc => List.of_mem_filter hc
  rw [answers, run_noSweeps hl hw ho (.refl ..), run_own ip hl hw hchecks, instants_filter_isCheck]
  exact ownRun_windows ip hl _

/-- What is asked of a limiter, in a run from the start. -/
structure Limits (limit window : Nat) (calls : List (Call Ip)) : Prop where
  /-- Of each IP, at most `2 * limit` get in in any interval of the length of a window. -/
  interval : ∀ ip lo,
    ((answers limit window ip calls).countP fun a => lo ≤ a.now && a.now < lo + window && a.ok) ≤ 2 * limit
  /-- From one reset to the next, at most `limit` do. -/
  perWindow : ∀ ip, ∀ seg ∈ betweenResets (answers limit window ip calls), seg.countP (·.ok) ≤ limit
  /-- The first `limit` checks after a reset do. -/
  first : ∀ ip, ∀ seg ∈ betweenResets (answers limit window ip calls), ∀ a ∈ seg.take limit, a.ok
  /-- A check is answered as it would be after the earlier checks of its own IP alone. -/
  own : ∀ pre ip now post, calls = pre ++ .check ip now :: post →
    ((run (withWindow limit window) pre).1.step (.check ip now)).2 =
      ((run (withWindow limit window) (pre.filter fun c => (c.own ip).isSome)).1.step (.check ip now)).2
  /-- The sweeps may be others, or at other places. -/
  sweeps : ∀ calls', Ordered calls' → calls'.filter Call.isCheck = calls.filter Call.isCheck →
    (run (withWindow limit window) calls').2 = (run (withWindow limit window) calls).2

theorem instants_filter_own (ip : Ip) (calls : List (Call Ip)) :
    instants ip (calls.filter fun c => (c.own ip).isSome) = instants ip calls := by
  induction calls with
  | nil => rfl
  | cons c calls ih =>
    simp only [instants] at ih ⊢
    cases h : c.own ip with
    | none => rw [List.filter_cons_of_neg (by simp [h]), List.filterMap_cons_none h, ih]
    | some t => rw [List.filter_cons_of_pos (by simp [h]), List.filterMap_cons_some h, List.filterMap_cons_some h, ih]

/-- The answer to a check, as the last of those to its IP. -/
theorem answers_concat (pre : List (Call Ip)) (ip : Ip) (now : Nat) :
    answers limit window ip (pre ++ [.check ip now]) =
      answers limit window ip pre ++ ((run (withWindow limit window) pre).1.step (.check ip now)).2 := by
  rw [answers, run, Machine.run_append, List.filter_append]
  simp [answers, run, Machine.run, step]

theorem step_own (hl : 0 < limit) (hw : 0 < window) {pre : List (Call Ip)} {ip : Ip} {now : Nat}
    (ho : Ordered (pre ++ [.check ip now])) :
    ((run (withWindow limit window) pre).1.step (.check ip now)).2 =
      ((run (withWindow limit window) (pre.filter fun c => (c.own ip).isSome)).1.step (.check ip now)).2 := by
  have hsub : ((pre.filter fun c => (c.own ip).isSome) ++ [Call.check ip now]).Sublist (pre ++ [.check ip now]) :=
    List.Sublist.append List.filter_sublist (List.Sublist.refl _)
  have ho' : Ordered ((pre.filter fun c => (c.own ip).isSome) ++ [.check ip now]) := List.Pairwise.sublist hsub ho
  have hins : instants ip ((pre.filter fun c => (c.own ip).isSome) ++ [.check ip now]) =
      instants ip (pre ++ [.check ip now]) := by
    rw [instants, List.filterMap_append, ← instants, instants_filter_own, instants, instants, List.filterMap_append]
  have heq : answers limit window ip (pre ++ [.check ip now]) =
      answers limit window ip ((pre.filter fun c => (c.own ip).isSome) ++ [.check ip now]) := by
    rw [answers_windows hl hw ho, answers_windows hl hw ho', hins]
  rw [answers_concat, answers_concat] at heq
  exact (List.append_inj' heq rfl).2

/-- At most two windows meet an interval of their length. -/
theorem countP_interval_le (hl : 0 < limit) (hw : 0 < window) (ho : Ordered calls) (ip : Ip) (lo : Nat)
    (hper : ∀ e ∈ windows window (instants ip calls), (windowAnswers limit ip e).countP (·.ok) ≤ limit) :
    ((answers limit window ip calls).countP fun a => lo ≤ a.now && a.now < lo + window && a.ok) ≤ 2 * limit := by
  rw [answers_windows hl hw ho, List.countP_flatMap]
  refine @sum_le_twice window _ limit lo ?_ _ (fun e he => windows_ne_nil window he) ?_
    (windows_apart window (ho.instants ip)) ?_
  · intro e hout
    simp only [Function.comp_apply, List.countP_eq_zero]
    intro a ha
    obtain ⟨i, hi, rfl⟩ := List.mem_mapIdx.1 ha
    have := hout e[i] (List.getElem_mem hi)
    simp only [Bool.and_eq_true, decide_eq_true_eq]
    omega
  · rw [windows_flatten]
    exact ho.instants ip
  · intro e he
    refine le_trans (List.countP_mono_left ?_) (hper e he)
    intro a _ ha
    simp only [Bool.and_eq_true] at ha
    exact ha.2

theorem betweenResets_answers (hl : 0 < limit) (hw : 0 < window) (ho : Ordered calls) (ip : Ip) :
    betweenResets (answers limit window ip calls) = (windows window (instants ip calls)).map (windowAnswers limit ip) := by
  rw [answers_windows hl hw ho, betweenResets_windows]

/-- A window with a round of the counter lets in one too many. -/
theorem Limits.length_lt (hl : 0 < limit) (hl32 : limit < 2 ^ 32) (hw : 0 < window) (ho : Ordered calls)
    (h : Limits limit window calls) (ip : Ip) : ∀ e ∈ windows window (instants ip calls), e.length < 2 ^ 32 := by
  intro e he
  have hle := h.perWindow ip (windowAnswers limit ip e) (by
    rw [betweenResets_answers hl hw ho]
    exact List.mem_map_of_mem he)
  exact (windowAnswers_countP_le_iff ip hl32 e).1 hle

/-- The limiter does what is asked of it exactly in the runs in which no window of an IP gets `2^32` of its checks. -/
theorem limits_iff (hl : 0 < limit) (hl32 : limit < 2 ^ 32) (hw : 0 < window) (ho : Ordered calls) :
    Limits limit window calls ↔ ∀ ip, ∀ e ∈ windows window (instants ip calls), e.length < 2 ^ 32 := by
  constructor
  · intro h ip
    exact h.length_lt hl hl32 hw ho ip
  · intro h
    have hper : ∀ ip, ∀ e ∈ windows window (instants ip calls), (windowAnswers limit ip e).countP (·.ok) ≤ limit :=
      fun ip e he => (windowAnswers_countP_le_iff ip hl32 e).2 (h ip e he)
    refine ⟨fun ip lo => countP_interval_le hl hw ho ip lo (hper ip), ?_, ?_, ?_, ?_⟩
    · intro ip seg hmem
      rw [betweenResets_answers hl hw ho] at hmem
      obtain ⟨e, he, rfl⟩ := List.mem_map.1 hmem
      exact hper ip e he
    · intro ip seg hmem
      rw [betweenResets_answers hl hw ho] at hmem
      obtain ⟨e, -, rfl⟩ := List.mem_map.1 hmem
      exact windowAnswers_take_ok ip hl32 e
    · rintro pre ip now post rfl
      refine step_own hl hw (List.Pairwise.sublist ?_ ho)
      exact (List.Sublist.refl pre).append (by simp)
    · intro calls' ho' hsame
      rw [run_noSweeps hl hw ho' (.refl ..), run_noSweeps hl hw ho (.refl ..), hsame]

/-- Three checks of one IP and a sweep, within one window. -/
def burst : List (Call Nat) := [.check 7 0, .check 7 1, .sweep 5, .check 7 5]

theorem limits_iff_burst : Limits 2 60 burst := by
  refine (limits_iff (by decide) (by decide) (by decide) (by decide)).2 ?_
  intro ip e he
  calc e.length ≤ (instants ip burst).length := length_le_of_mem_windows 60 he
    _ ≤ burst.length := List.length_filterMap_le ..
    _ < 2 ^ 32 := by decide

/-- `2^32` checks of one IP at one instant: the last of them is let in again. -/
theorem not_limits_round : ¬Limits 1 60 (List.replicate (2 ^ 32) (Call.check 7 0)) := by
  have ho : Ordered (List.replicate (2 ^ 32) (Call.check 7 0)) := List.pairwise_replicate.2 (.inr fun _ => Nat.le_refl _)
  intro h
  have hins : instants 7 (List.replicate (2 ^ 32) (Call.check 7 0)) = List.replicate (2 ^ 32) 0 := by
    have hown : (Call.check 7 0).own 7 = some 0 := by decide
    rw [instants, List.filterMap_replicate_of_some hown]
  have hone : windows 60 (List.replicate (2 ^ 32) 0) = [List.replicate (2 ^ 32) 0] := by
    rw [show List.replicate (2 ^ 32) 0 = 0 :: List.replicate (2 ^ 32 - 1) 0 from rfl]
    rw [windows, cut_of_lt]
    · rfl
    · intro t ht
      rw [List.eq_of_mem_replicate ht]
      omega
  have := h.length_lt (by omega) (by omega) (by omega) ho 7 (List.replicate (2 ^ 32) 0) (by
    rw [hins, hone]
    exact List.mem_singleton_self _)
  rw [List.length_replicate] at this
  omega

end RateLimiter
end WispMQ
