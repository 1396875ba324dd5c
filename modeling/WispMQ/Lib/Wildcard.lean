import Mathlib.Data.List.Basic
/-!
# Level patterns with a one-level and a rest-of-the-path wildcard

A path is a list of levels over an arbitrary alphabet `α`. In a pattern, the level `plus` stands for any
one level and a *final* `hash` for the remaining levels, including none. The alphabet is the same on
both sides, so a pattern can be matched against another pattern read as a path; this file says what such
a match is worth.

* `levelMatch_trans` — matching a hash-free pattern `g` covers every path `g` matches.
* `levelMatch_hash_iff` — `g/#` is the union of `g`, `g/+`, `g/+/+`, ….
* `levelMatch_instantiate` — a pattern that matches a path with fresh levels in place of `plus`
  matches the pattern itself; fresh paths decide coverage.
-/

namespace Wildcard
variable {α : Type} [DecidableEq α] (plus hash : α)

def levelMatch : List α → List α → Bool
  | [], [] => true
  | [], _ :: _ => false
  | p :: ps, path =>
    if p = hash ∧ ps = [] then true
    else match path with
      | [] => false
      | l :: ls => (p = plus || p = l) && levelMatch ps ls

/-- The pattern starts with a wildcard level. -/
def leads : List α → Bool
  | [] => false
  | p :: _ => p = plus || p = hash

variable {plus hash}

@[simp] theorem levelMatch_nil (path : List α) : levelMatch plus hash [] path = path.isEmpty := by
  cases path <;> rfl

@[simp] theorem levelMatch_hash (path : List α) : levelMatch plus hash [hash] path = true := by
  simp [levelMatch]

theorem levelMatch_cons_nil {p : α} {ps : List α} (h : ¬(p = hash ∧ ps = [])) :
    levelMatch plus hash (p :: ps) [] = false := by
  simp [levelMatch, h]

theorem levelMatch_cons_cons {p l : α} {ps ls : List α} (h : ¬(p = hash ∧ ps = [])) :
    levelMatch plus hash (p :: ps) (l :: ls) = true ↔
      (p = plus ∨ p = l) ∧ levelMatch plus hash ps ls = true := by
  simp [levelMatch, h]

omit [DecidableEq α] in
/-- A hash-free pattern does not start with a final `hash`. -/
theorem not_final_hash {w : α} {ws : List α} (hg : hash ∉ w :: ws) (us : List α) :
    ¬(w = hash ∧ us = []) := by
  rintro ⟨rfl, -⟩
  exact hg List.mem_cons_self

/-- **Coverage by a match.** Matching a pattern without `hash` as if it were a path covers it: every
`plus` of it has met a `plus`, every literal level the same literal or a `plus`. -/
theorem levelMatch_trans : ∀ {p g t : List α}, hash ∉ g → levelMatch plus hash p g = true →
    levelMatch plus hash g t = true → levelMatch plus hash p t = true
  | [], g, t, _, hp, ht => by
    have hg : g = [] := by simpa using hp
    subst hg; exact ht
  | p :: ps, g, t, hg, hp, ht => by
    by_cases hh : p = hash ∧ ps = []
    · obtain ⟨rfl, rfl⟩ := hh; exact levelMatch_hash t
    match g, t with
    | [], _ => rw [levelMatch_cons_nil hh] at hp; cases hp
    | w :: ws, [] =>
      rw [levelMatch_cons_nil (not_final_hash hg _)] at ht; cases ht
    | w :: ws, l :: ls =>
      obtain ⟨h1, hp'⟩ := (levelMatch_cons_cons hh).1 hp
      obtain ⟨h2, ht'⟩ := (levelMatch_cons_cons (not_final_hash hg _)).1 ht
      refine (levelMatch_cons_cons hh).2 ⟨?_, levelMatch_trans (fun h => hg (List.mem_cons_of_mem _ h)) hp' ht'⟩
      rcases h1 with h1 | h1
      · exact Or.inl h1
      · rcases h2 with h2 | h2
        · exact Or.inl (h1.trans h2)
        · exact Or.inr (h1.trans h2)

theorem levelMatch_replicate_plus (hph : plus ≠ hash) : ∀ t : List α,
    levelMatch plus hash (List.replicate t.length plus) t = true
  | [] => rfl
  | l :: ls => by
    rw [List.length_cons, List.replicate_succ]
    exact (levelMatch_cons_cons fun h => hph h.1).2 ⟨Or.inl rfl, levelMatch_replicate_plus hph ls⟩

/-- `g/#` matches what some `g/+/…/+` matches. -/
theorem levelMatch_hash_iff (hph : plus ≠ hash) : ∀ {g t : List α}, hash ∉ g →
    (levelMatch plus hash (g ++ [hash]) t = true ↔
      ∃ d, levelMatch plus hash (g ++ List.replicate d plus) t = true)
  | [], t, _ => by
    simp only [List.nil_append, levelMatch_hash, true_iff]
    exact ⟨t.length, levelMatch_replicate_plus hph t⟩
  | w :: ws, t, hg => by
    have hw := not_final_hash hg
    have hws : hash ∉ ws := fun h => hg (List.mem_cons_of_mem _ h)
    simp only [List.cons_append]
    cases t with
    | nil => simp [levelMatch_cons_nil (hw _)]
    | cons l ls =>
      simp only [levelMatch_cons_cons (hw _), levelMatch_hash_iff hph (t := ls) hws]
      constructor
      · rintro ⟨h, d, hd⟩; exact ⟨d, h, hd⟩
      · rintro ⟨d, h, hd⟩; exact ⟨h, d, hd⟩

/-- Put the level `x` in place of every `plus`. -/
def instantiate (plus x : α) (g : List α) : List α := g.map fun w => if w = plus then x else w

theorem levelMatch_self_instantiate (x : α) : ∀ {g : List α}, hash ∉ g →
    levelMatch plus hash g (instantiate plus x g) = true
  | [], _ => rfl
  | w :: ws, hg => by
    refine (levelMatch_cons_cons (not_final_hash hg _)).2
      ⟨?_, levelMatch_self_instantiate x fun h => hg (List.mem_cons_of_mem _ h)⟩
    by_cases h : w = plus
    · exact Or.inl h
    · simp [h]

/-- **Fresh paths decide.** A pattern that does not mention `x` cannot tell the fresh level `x` from the
level `plus`. -/
theorem levelMatch_instantiate {x : α} : ∀ {p g : List α}, x ∉ p →
    levelMatch plus hash p (instantiate plus x g) = true → levelMatch plus hash p g = true
  | [], g, _, h => by simpa [instantiate] using h
  | p :: ps, g, hx, h => by
    by_cases hh : p = hash ∧ ps = []
    · obtain ⟨rfl, rfl⟩ := hh; exact levelMatch_hash g
    match g with
    | [] => exact h
    | w :: ws =>
      obtain ⟨h1, h'⟩ := (levelMatch_cons_cons hh).1 h
      refine (levelMatch_cons_cons hh).2
        ⟨?_, levelMatch_instantiate (fun hm => hx (List.mem_cons_of_mem _ hm)) h'⟩
      rcases h1 with h1 | h1
      · exact Or.inl h1
      · by_cases hw : w = plus
        · have hpx : p = x := by simpa [hw] using h1
          exact absurd (hpx ▸ List.mem_cons_self) hx
        · exact Or.inr (by simpa [hw] using h1)

theorem leads_of_match {w : α} {ws : List α} (hg : hash ∉ w :: ws) {t : List α}
    (ht : levelMatch plus hash (w :: ws) t = true) : w = plus ∨ t.head? = some w := by
  cases t with
  | nil => rw [levelMatch_cons_nil (not_final_hash hg _)] at ht; cases ht
  | cons l ls =>
    rcases ((levelMatch_cons_cons (not_final_hash hg _)).1 ht).1 with h | h
    · exact Or.inl h
    · exact Or.inr (by simp [h])

end Wildcard
