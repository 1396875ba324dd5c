import Mathlib
/-!
# One atomic variable under relaxed ordering

All threads agree on the order in which a variable took its values, and on no more than that. A read returns a value that
is no older than what the thread has read or written before. A read-modify-write reads the newest value and puts its own
right behind it.

* `Var` — the values in modification order.
* `read?` — what a thread that has come to a position may read at another one.
* `Rising` — every value is greater than those before it. A write above the newest value keeps it (`Rising.write`).
-/

namespace Atomic
variable {α : Type}

/-- The values of the variable, the first one first. -/
structure Var (α : Type) where
  history : List α
  nonempty : history ≠ []

namespace Var

def init (x : α) : Var α := ⟨[x], by simp⟩

def newest (v : Var α) : α := v.history.getLast v.nonempty

def write (v : Var α) (x : α) : Var α := ⟨v.history ++ [x], by simp⟩

/-- The value at `p`, for a thread whose last access was at `view`. -/
def read? (v : Var α) (view p : Nat) : Option α := if view ≤ p then v.history[p]? else none

variable {v : Var α} {x : α} {view p : Nat}

@[simp] theorem newest_init : (init x).newest = x := rfl

@[simp] theorem newest_write : (v.write x).newest = x := List.getLast_append_singleton ..

theorem newest_mem (v : Var α) : v.newest ∈ v.history := List.getLast_mem _

theorem mem_of_read (h : v.read? view p = some x) : x ∈ v.history := by
  unfold read? at h
  split at h
  · exact List.mem_of_getElem? h
  · cases h

end Var

variable [LinearOrder α] {v : Var α} {x : α}

def Rising (v : Var α) : Prop := v.history.Pairwise (· < ·)

namespace Rising

theorem init (x : α) : Rising (Var.init x) := List.pairwise_singleton ..

theorem le_newest (h : Rising v) (hx : x ∈ v.history) : x ≤ v.newest := by
  have hsplit := List.dropLast_append_getLast v.nonempty
  rw [← hsplit, List.mem_append, List.mem_singleton] at hx
  rcases hx with hx | rfl
  · have hrise : (v.history.dropLast ++ [v.newest]).Pairwise (· < ·) := hsplit.symm ▸ h
    exact le_of_lt ((List.pairwise_append.1 hrise).2.2 x hx _ (List.mem_singleton_self _))
  · exact le_refl _

theorem write (h : Rising v) (hx : v.newest < x) : Rising (v.write x) := by
  refine List.pairwise_append.2 ⟨h, List.pairwise_singleton .., fun y hy z hz => ?_⟩
  rw [List.mem_singleton.1 hz]
  exact lt_of_le_of_lt (h.le_newest hy) hx

end Rising

end Atomic
