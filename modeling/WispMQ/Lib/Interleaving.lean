import Mathlib.Algebra.BigOperators.Group.Finset.Piecewise
import Mathlib.Data.Fintype.Basic
import WispMQ.Lib.Machine
/-!
# Interleavings

The members of a family are machines that share nothing. An input of the family is an input of one of them, so a run of
the family is any interleaving of runs of its members.

* `family step` — the family as one machine.
* `of i xs` — what is the member `i`'s of the inputs, or of the outputs.
* `run_state`, `run_outputs` — each member runs as it would on its own.
* `countP_eq_sum` — outputs of one kind, counted member by member.
-/

namespace Interleaving
variable {ι S L E X : Type} [DecidableEq ι]

def family (step : ι → S → L → S × List E) (s : ι → S) (l : ι × L) : (ι → S) × List (ι × E) :=
  (Function.update s l.1 (step l.1 (s l.1) l.2).1, (step l.1 (s l.1) l.2).2.map (l.1, ·))

def of (i : ι) (xs : List (ι × X)) : List X := (xs.filter (·.1 = i)).map (·.2)

theorem of_append (i : ι) (xs ys : List (ι × X)) : of i (xs ++ ys) = of i xs ++ of i ys := by
  rw [of, List.filter_append, List.map_append]
  rfl

theorem of_map_same (i : ι) (xs : List X) : of i (xs.map (i, ·)) = xs := by
  have hall : (xs.map (i, ·)).filter (·.1 = i) = xs.map (i, ·) := List.filter_eq_self.2 (by simp)
  rw [of, hall, List.map_map]
  exact List.map_id xs

theorem of_map_other {i j : ι} (h : j ≠ i) (xs : List X) : of i (xs.map (j, ·)) = [] := by
  rw [of, List.map_eq_nil_iff, List.filter_eq_nil_iff]
  simp [h]

variable {step : ι → S → L → S × List E}

theorem run_member (i : ι) : ∀ (ls : List (ι × L)) (s : ι → S),
    ((Machine.run (family step) s ls).1 i, of i (Machine.run (family step) s ls).2) = Machine.run (step i) (s i) (of i ls)
  | [], _ => rfl
  | (j, l) :: ls, s => by
    have ih := run_member i ls (family step s (j, l)).1
    simp only [Prod.ext_iff] at ih ⊢
    simp only [Machine.run, of_append]
    by_cases hj : j = i
    · subst hj
      have hof : of j ((j, l) :: ls) = l :: of j ls := by simp [of]
      have hstate : (family step s (j, l)).1 j = (step j (s j) l).1 := Function.update_self ..
      rw [hof, Machine.run, ← hstate]
      exact ⟨ih.1, by rw [← ih.2, family, of_map_same]⟩
    · have hof : of i ((j, l) :: ls) = of i ls := by simp [of, hj]
      have hstate : (family step s (j, l)).1 i = s i := Function.update_of_ne (fun h => hj h.symm) ..
      rw [hof, ← hstate]
      exact ⟨ih.1, by rw [← ih.2, family, of_map_other hj, List.nil_append]⟩

theorem run_state (i : ι) (ls : List (ι × L)) (s : ι → S) :
    (Machine.run (family step) s ls).1 i = (Machine.run (step i) (s i) (of i ls)).1 := by
  rw [← run_member]

theorem run_outputs (i : ι) (ls : List (ι × L)) (s : ι → S) :
    of i (Machine.run (family step) s ls).2 = (Machine.run (step i) (s i) (of i ls)).2 := by
  rw [← run_member]

theorem countP_eq_sum [Fintype ι] (p : X → Bool) : ∀ (xs : List (ι × X)),
    xs.countP (p ·.2) = ∑ i, (of i xs).countP p
  | [] => by simp [of]
  | (j, x) :: xs => by
    have hof : ∀ i, (of i ((j, x) :: xs)).countP p = (of i xs).countP p + if i = j then (if p x then 1 else 0) else 0 := by
      intro i
      by_cases hi : i = j
      · subst hi
        simp [of, List.countP_cons]
      · simp [of, hi, Ne.symm hi]
    simp only [hof, Finset.sum_add_distrib, ← countP_eq_sum p xs, List.countP_cons, Finset.sum_ite_eq', Finset.mem_univ, if_true]

end Interleaving
