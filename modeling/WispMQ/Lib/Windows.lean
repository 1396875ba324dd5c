import Mathlib.Algebra.Ring.Nat
import Mathlib.Algebra.BigOperators.Group.List.Basic
import Mathlib.Data.List.Flatten
/-!
# Fixed windows

A sequence of instants is cut into windows of the length `W`: the first instant opens a window, which takes what comes
less than `W` later, and the next instant opens another one.

* `windows W ts` — the windows, with `windows_flatten`.
* `Apart` — what comes in a later window is at least `W` after the opening of an earlier one.
* `sum_le_twice` — an interval of the length `W` meets at most two windows, so what is bounded in each window is bounded
  by twice as much in every interval.
-/

namespace Windows
variable (W : Nat)

/-- The windows from `cur` on, which `start` has opened. -/
def cut : Nat → List Nat → List Nat → List (List Nat)
  | _, cur, [] => [cur]
  | start, cur, t :: ts => if W ≤ t - start then cur :: cut t [t] ts else cut start (cur ++ [t]) ts

def windows : List Nat → List (List Nat)
  | [] => []
  | t :: ts => cut W t [t] ts

/-- Everything in `e'` is at least `W` after the opening of `e`. -/
def Apart (e e' : List Nat) : Prop := ∀ s ∈ e.head?, ∀ y ∈ e', s + W ≤ y

theorem cut_flatten : ∀ (ts : List Nat) (start : Nat) (cur : List Nat), (cut W start cur ts).flatten = cur ++ ts := by
  intro ts
  induction ts with
  | nil => intro start cur; simp [cut]
  | cons t ts ih =>
    intro start cur
    by_cases h : W ≤ t - start
    · simp [cut, h, ih]
    · simp [cut, h, ih]

theorem windows_flatten (ts : List Nat) : (windows W ts).flatten = ts := by
  cases ts with
  | nil => rfl
  | cons t ts => rw [windows, cut_flatten, List.singleton_append]

theorem length_le_of_mem_windows {ts e : List Nat} (he : e ∈ windows W ts) : e.length ≤ ts.length := by
  have hsub := List.sublist_flatten_of_mem he
  rw [windows_flatten] at hsub
  exact hsub.length_le

theorem cut_ne_nil : ∀ (ts : List Nat) (start : Nat) {cur : List Nat}, cur ≠ [] → ∀ e ∈ cut W start cur ts, e ≠ [] := by
  intro ts
  induction ts with
  | nil =>
    intro start cur hcur e he
    rw [List.mem_singleton.1 he]
    exact hcur
  | cons t ts ih =>
    intro start cur hcur e he
    by_cases h : W ≤ t - start
    · simp only [cut, h, if_true, List.mem_cons] at he
      rcases he with rfl | he
      · exact hcur
      · exact ih t (by simp) e he
    · simp only [cut, h, if_false] at he
      exact ih start (by simp) e he

theorem windows_ne_nil {ts e : List Nat} (he : e ∈ windows W ts) : e ≠ [] := by
  cases ts with
  | nil => simp [windows] at he
  | cons t ts => exact cut_ne_nil W ts t (by simp) e he

theorem cut_apart : ∀ (ts : List Nat) (start : Nat) (r : List Nat), (start :: r ++ ts).Pairwise (· ≤ ·) →
    (cut W start (start :: r) ts).Pairwise (Apart W) := by
  intro ts
  induction ts with
  | nil => intro start r _; simp [cut]
  | cons t ts ih =>
    intro start r hs
    by_cases h : W ≤ t - start
    · simp only [cut, h, if_true]
      have hts : (t :: ts).Pairwise (· ≤ ·) := (List.pairwise_append.1 hs).2.1
      refine List.pairwise_cons.2 ⟨?_, ih t [] hts⟩
      intro e he s hse y hy
      obtain rfl : start = s := by simpa using hse
      -- whatever is cut later comes after `t`
      have hmem : y ∈ t :: ts := by
        have := List.mem_flatten_of_mem he hy
        rwa [cut_flatten, List.singleton_append] at this
      have hst : start ≤ t := List.rel_of_pairwise_cons hs (by simp)
      rcases List.mem_cons.1 hmem with rfl | hy
      · omega
      · have hty : t ≤ y := List.rel_of_pairwise_cons hts hy
        omega
    · simp only [cut, h, if_false]
      exact ih start (r ++ [t]) (by simpa using hs)

theorem windows_apart {ts : List Nat} (h : ts.Pairwise (· ≤ ·)) : (windows W ts).Pairwise (Apart W) := by
  cases ts with
  | nil => exact List.Pairwise.nil
  | cons t ts => exact cut_apart W ts t [] h

variable {W}

/-- Instants that are all less than `W` after the first are one window. -/
theorem cut_of_lt : ∀ {ts : List Nat} {start : Nat} (cur : List Nat), (∀ t ∈ ts, t - start < W) →
    cut W start cur ts = [cur ++ ts] := by
  intro ts
  induction ts with
  | nil => intro start cur _; simp [cut]
  | cons t ts ih =>
    intro start cur h
    obtain ⟨ht, h⟩ := List.forall_mem_cons.1 h
    rw [cut, if_neg (by omega), ih _ h, List.append_assoc, List.singleton_append]

/-- By induction on the windows: the first that meets the interval is followed by at most one other that does. -/
theorem sum_le_twice {c : List Nat → Nat} {bound lo : Nat} (hc : ∀ e, (∀ x ∈ e, lo ≤ x → lo + W ≤ x) → c e = 0) :
    ∀ {es : List (List Nat)}, (∀ e ∈ es, e ≠ []) → es.flatten.Pairwise (· ≤ ·) → es.Pairwise (Apart W) →
      (∀ e ∈ es, c e ≤ bound) → (es.map c).sum ≤ 2 * bound := by
  intro es
  induction es with
  | nil => intro _ _ _ _; simp
  | cons e es ih =>
    intro hne hs hap hb
    obtain ⟨hbe, hb⟩ := List.forall_mem_cons.1 hb
    obtain ⟨-, hap'⟩ := List.pairwise_cons.1 hap
    rw [List.flatten_cons, List.pairwise_append] at hs
    obtain ⟨-, hs', hle⟩ := hs
    by_cases hmeets : ∀ x ∈ e, lo ≤ x → lo + W ≤ x
    · rw [List.map_cons, List.sum_cons, hc e hmeets, Nat.zero_add]
      exact ih (fun e he => hne e (List.mem_cons_of_mem _ he)) hs' hap' hb
    · simp only [not_forall] at hmeets
      obtain ⟨x, hx, hlo, hhi⟩ := hmeets
      cases es with
      | nil => simp only [List.map_cons, List.map_nil, List.sum_cons, List.sum_nil]; omega
      | cons e₂ es =>
        obtain ⟨hbe₂, -⟩ := List.forall_mem_cons.1 hb
        obtain ⟨hap₂, -⟩ := List.pairwise_cons.1 hap'
        have hrest : (es.map c).sum = 0 := by
          rw [List.sum_eq_zero_iff_forall_eq_nat]
          intro n hn
          obtain ⟨e₃, he₃, rfl⟩ := List.mem_map.1 hn
          refine hc e₃ fun y hy _ => ?_
          obtain ⟨s, r, hs₂⟩ := List.exists_cons_of_ne_nil (hne e₂ (by simp))
          have hxs : x ≤ s := hle x hx s (by simp [hs₂])
          have hsy : s + W ≤ y := hap₂ e₃ he₃ s (by simp [hs₂]) y hy
          omega
        simp only [List.map_cons, List.sum_cons, hrest]
        omega

end Windows
