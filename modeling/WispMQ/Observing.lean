import WispMQ.Lib.Atomic
import WispMQ.Lib.Machine
/-!
# Raising the high-water mark: `observe_clients_connected` (metrics.rs:127)

Every accepted CONNECT raises `clients_maximum`, and each connection has its task. The loop reads the mark, and exchanges it
for its own count as long as that is greater. All of it is relaxed, and `compare_exchange_weak` may fail for no reason.

| here | there |
| --- | --- |
| `Observer`      | a call of `observe_clients_connected`, and how far it is |
| `Observer.test` | the condition of the `while` |
| `Move`          | what the memory does at the call's next access |

In the critical sections of the broker the mark is a number and a CONNECT takes the maximum. `maximum_exact` is why it may.
-/

namespace WispMQ.Observing
open Atomic Machine

/-- `u64`. -/
abbrev U64 := Fin (2 ^ 64)

inductive Progress where
  | entry
  | looping (seen : U64)
  | returned
deriving DecidableEq

/-- A call with the argument `current`; `view` is the position of its last access. -/
structure Observer where
  current : U64
  progress : Progress := .entry
  view : Nat := 0
deriving DecidableEq

inductive Move where
  /-- The load reads the value at `p`. -/
  | load (p : Nat)
  | exchanges
  /-- The exchange fails, and reads the value at `p`; that may be the one it expected. -/
  | fails (p : Nat)
deriving DecidableEq

namespace Observer

/-- `while current > seen`, when `seen` was read at `p`. -/
def test (o : Observer) (p : Nat) (seen : U64) : Observer :=
  if seen < o.current then { o with progress := .looping seen, view := p }
  else { o with progress := .returned, view := p }

/-- The next access; a move that the memory cannot make is none. -/
def step (o : Observer) (mark : Var U64) : Move → Observer × Var U64
  | .load p =>
    match o.progress, mark.read? o.view p with
    | .entry, some seen => (o.test p seen, mark)
    | _, _ => (o, mark)
  | .exchanges =>
    match o.progress with
    | .looping seen =>
      if mark.newest = seen then ({ o with progress := .returned, view := mark.history.length }, mark.write o.current)
      else (o, mark)
    | _ => (o, mark)
  | .fails p =>
    match o.progress, mark.read? o.view p with
    | .looping _, some actual => (o.test p actual, mark)
    | _, _ => (o, mark)

end Observer

/-- The mark and the calls. -/
structure Calls (ι : Type) where
  mark : Var U64
  observers : ι → Observer

variable {ι : Type}

namespace Calls

/-- The calls have been made, and the mark has always been `start`. -/
def init (start : U64) (current : ι → U64) : Calls ι := ⟨.init start, fun i => { current := current i }⟩

def step [DecidableEq ι] (c : Calls ι) (l : ι × Move) : Calls ι × List U64 :=
  let r := (c.observers l.1).step c.mark l.2
  (⟨r.2, Function.update c.observers l.1 r.1⟩, [])

end Calls

/-! ## One access -/

/-- A call is where it may be: it goes on only with a smaller mark, and does not return below its own count. -/
def Observer.Fits (o : Observer) (current : U64) (mark : Var U64) : Prop :=
  o.current = current ∧
    match o.progress with
    | .entry => True
    | .looping seen => seen < current
    | .returned => current ≤ mark.newest

theorem Observer.Fits.mono {o : Observer} {current : U64} {mark mark' : Var U64} (h : o.Fits current mark)
    (hle : mark.newest ≤ mark'.newest) : o.Fits current mark' := by
  refine ⟨h.1, ?_⟩
  have hp := h.2
  cases hprogress : o.progress with
  | entry => trivial
  | looping seen => rwa [hprogress] at hp
  | returned =>
    rw [hprogress] at hp
    exact le_trans hp hle

/-- What an access can make of the call and the mark. -/
inductive Access (o : Observer) (mark : Var U64) : Observer × Var U64 → Prop
  | none : Access o mark (o, mark)
  | read {p : Nat} {seen : U64} (h : mark.read? o.view p = some seen) : Access o mark (o.test p seen, mark)
  | exchanged (h : o.progress = .looping mark.newest) :
      Access o mark ({ o with progress := .returned, view := mark.history.length }, mark.write o.current)

theorem Observer.step_access (o : Observer) (mark : Var U64) (m : Move) : Access o mark (o.step mark m) := by
  cases m with
  | load p =>
    rw [Observer.step]
    split
    · exact .read ‹_›
    · exact .none
  | exchanges =>
    rw [Observer.step]
    split
    · rename_i seen hseen
      split
      · rename_i heq
        exact .exchanged (by rw [hseen, heq])
      · exact .none
    · exact .none
  | fails p =>
    rw [Observer.step]
    split
    · exact .read ‹_›
    · exact .none

namespace Access
variable {o : Observer} {mark : Var U64} {r : Observer × Var U64} {current : U64}

theorem rising (h : Access o mark r) (ho : o.Fits current mark) (hr : Rising mark) : Rising r.2 := by
  cases h with
  | none => exact hr
  | read _ => exact hr
  | exchanged hp =>
    refine hr.write ?_
    have hlt := ho.2
    rw [hp] at hlt
    rwa [ho.1]

/-- The mark does not fall, so a call that has returned keeps its place. -/
theorem newest_le (h : Access o mark r) (ho : o.Fits current mark) : mark.newest ≤ r.2.newest := by
  cases h with
  | none => exact le_refl _
  | read _ => exact le_refl _
  | exchanged hp =>
    have hlt := ho.2
    rw [hp] at hlt
    rw [Var.newest_write, ho.1]
    exact le_of_lt hlt

theorem fits (h : Access o mark r) (ho : o.Fits current mark) (hr : Rising mark) : r.1.Fits current r.2 := by
  cases h with
  | none => exact ho
  | read hread =>
    rename_i p seen
    have hle := hr.le_newest (Var.mem_of_read hread)
    unfold Observer.test
    split
    · rename_i hlt
      refine ⟨ho.1, ?_⟩
      rwa [ho.1] at hlt
    · rename_i hlt
      rw [ho.1] at hlt
      exact ⟨ho.1, le_trans (not_lt.1 hlt) hle⟩
  | exchanged _ =>
    refine ⟨ho.1, ?_⟩
    rw [Var.newest_write, ho.1]

/-- A value of the mark was there before, or is the call's own. -/
theorem history (h : Access o mark r) : ∀ x ∈ r.2.history, x ∈ mark.history ∨ x = o.current := by
  cases h with
  | none => exact fun x hx => .inl hx
  | read _ => exact fun x hx => .inl hx
  | exchanged _ =>
    intro x hx
    rcases List.mem_append.1 hx with hx | hx
    · exact .inl hx
    · exact .inr (List.mem_singleton.1 hx)

theorem kept (h : Access o mark r) : ∀ x ∈ mark.history, x ∈ r.2.history := by
  cases h with
  | none => exact fun x hx => hx
  | read _ => exact fun x hx => hx
  | exchanged _ => exact fun x hx => List.mem_append_left _ hx

end Access

/-! ## All calls -/

/-- What holds while the calls are on their way. -/
structure Sound (start : U64) (current : ι → U64) (c : Calls ι) : Prop where
  rising : Rising c.mark
  from_start : start ∈ c.mark.history
  history : ∀ x ∈ c.mark.history, x = start ∨ ∃ i, x = current i
  fits : ∀ i, (c.observers i).Fits (current i) c.mark

theorem Sound.init (start : U64) (current : ι → U64) : Sound start current (Calls.init start current) :=
  ⟨.init start, List.mem_singleton_self _, fun _ hx => .inl (List.mem_singleton.1 hx), fun _ => ⟨rfl, trivial⟩⟩

variable [DecidableEq ι] {start : U64} {current : ι → U64} {c : Calls ι}

theorem Sound.step (h : Sound start current c) (l : ι × Move) : Sound start current (c.step l).1 := by
  obtain ⟨i, m⟩ := l
  have hacc := (c.observers i).step_access c.mark m
  have hfits := h.fits i
  refine ⟨hacc.rising hfits h.rising, hacc.kept _ h.from_start, fun x hx => ?_, fun j => ?_⟩
  · rcases hacc.history x hx with hx | rfl
    · exact h.history x hx
    · exact .inr ⟨i, hfits.1⟩
  · by_cases hj : j = i
    · subst hj
      simp only [Calls.step, Function.update_self]
      exact hacc.fits hfits h.rising
    · simp only [Calls.step, Function.update_of_ne hj]
      exact (h.fits j).mono (hacc.newest_le hfits)

/-- **The mark is the maximum**: however the accesses of any number of calls interleave, and whatever they read of what
they may, the mark never falls; a call returns only when the mark is at its count or above; and when all have
returned it is the greatest of what it was and all their counts. -/
theorem maximum_exact (start : U64) (current : ι → U64) (ls : List (ι × Move)) :
    (run Calls.step (Calls.init start current) ls).1.mark.history.Pairwise (· < ·) ∧
    (∀ i, ((run Calls.step (Calls.init start current) ls).1.observers i).progress = .returned →
      current i ≤ (run Calls.step (Calls.init start current) ls).1.mark.newest) ∧
    ((∀ i, ((run Calls.step (Calls.init start current) ls).1.observers i).progress = .returned) →
      IsGreatest (insert start (Set.range current)) (run Calls.step (Calls.init start current) ls).1.mark.newest) := by
  have h : Sound start current (run Calls.step (Calls.init start current) ls).1 :=
    run_preserves _ (Sound start current) (fun c l hc => hc.step l) (.init start current) ls
  have hreturned : ∀ i, ((run Calls.step (Calls.init start current) ls).1.observers i).progress = .returned →
      current i ≤ (run Calls.step (Calls.init start current) ls).1.mark.newest := by
    intro i hi
    have hfits := (h.fits i).2
    rwa [hi] at hfits
  refine ⟨h.rising, hreturned, fun hall => ⟨?_, ?_⟩⟩
  · rcases h.history _ (Var.newest_mem _) with hx | ⟨i, hx⟩
    · exact .inl hx
    · exact .inr ⟨i, hx.symm⟩
  · rintro x (rfl | ⟨i, rfl⟩)
    · exact h.rising.le_newest h.from_start
    · exact hreturned i (hall i)

end WispMQ.Observing
