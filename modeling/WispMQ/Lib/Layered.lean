import Mathlib.Logic.Basic
/-!
# Layers over one another

A layer supplies values for some of the fields `F`, each of its own type.

* `overlay l m` — what `l` does not supply shows through from `m`.
* `restrict fs l` — the part of `l` for the fields `fs`; a layer may be put on part by part (`overlay_restrict`).
* `stack ls` — the topmost layer comes first; a field has the value of the first one that supplies it (`stack_eq_some_iff`).
* `Overlays read l step` — a step puts the layer `l` over what a state reads as, and leaves the rest alone (`Overlays.frame`).
-/

namespace Layered
variable {F : Type} {V : F → Type}

abbrev Layer (V : F → Type) := (f : F) → Option (V f)

def overlay (l m : Layer V) : Layer V := fun f => (l f).or (m f)

def stack : List (Layer V) → Layer V
  | [] => fun _ => none
  | l :: ls => overlay l (stack ls)

theorem overlay_assoc (l m n : Layer V) : overlay (overlay l m) n = overlay l (overlay m n) := by
  funext f
  exact Option.or_assoc

theorem overlay_eq_of_none {l m : Layer V} {f : F} (h : l f = none) : overlay l m f = m f := by
  rw [overlay, h, Option.none_or]

theorem overlay_stack_nil (m : Layer V) : overlay (stack []) m = m := by
  funext f
  exact Option.none_or

theorem overlay_stack_cons (l : Layer V) (ls : List (Layer V)) (m : Layer V) :
    overlay (stack (l :: ls)) m = overlay l (overlay (stack ls) m) := overlay_assoc l (stack ls) m

/-- The fields of `fs` only. -/
def restrict [DecidableEq F] (fs : List F) (l : Layer V) : Layer V := fun f => if f ∈ fs then l f else none

/-- A layer put over something in two parts. -/
theorem overlay_restrict [DecidableEq F] (fs gs : List F) (l m : Layer V) :
    overlay (restrict gs l) (overlay (restrict fs l) m) = overlay (restrict (fs ++ gs) l) m := by
  funext f
  simp only [overlay, restrict, List.mem_append]
  by_cases hf : f ∈ fs <;> by_cases hg : f ∈ gs <;> cases l f <;> simp [hf, hg]

theorem stack_eq_none_iff {ls : List (Layer V)} {f : F} : stack ls f = none ↔ ∀ l ∈ ls, l f = none := by
  induction ls with
  | nil => simp [stack]
  | cons l ls ih => simp [stack, overlay, ih]

/-- The value of the first layer that supplies one. -/
theorem stack_eq_some_iff {ls : List (Layer V)} {f : F} {v : V f} :
    stack ls f = some v ↔ ∃ above l below, ls = above ++ l :: below ∧ (∀ m ∈ above, m f = none) ∧ l f = some v := by
  induction ls with
  | nil => simp [stack]
  | cons l ls ih =>
    rw [stack, overlay, Option.or_eq_some_iff, ih]
    constructor
    · rintro (hl | ⟨hl, above, l', below, rfl, habove, hl'⟩)
      · exact ⟨[], l, ls, rfl, by simp, hl⟩
      · exact ⟨l :: above, l', below, rfl, List.forall_mem_cons.2 ⟨hl, habove⟩, hl'⟩
    · rintro ⟨above, l', below, hls, habove, hl'⟩
      cases above with
      | nil =>
        obtain ⟨rfl, -⟩ := List.cons.inj hls
        exact .inl hl'
      | cons m above =>
        obtain ⟨rfl, rfl⟩ := List.cons.inj hls
        exact .inr ⟨habove _ List.mem_cons_self, above, l', below, rfl, fun m hm => habove m (List.mem_cons_of_mem _ hm), hl'⟩

section
variable {S : Type} {read : S → Layer V}

def Overlays (read : S → Layer V) (l : Layer V) (step : S → S) : Prop := ∀ s, read (step s) = overlay l (read s)

/-- A step leaves alone what its layer does not supply. -/
theorem Overlays.frame {l : Layer V} {step : S → S} (h : Overlays read l step) (s : S) {f : F} (hf : l f = none) :
    read (step s) f = read s f := by
  rw [h s, overlay_eq_of_none hf]

end

end Layered
