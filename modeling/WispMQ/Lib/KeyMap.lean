import Mathlib.Data.List.AList
import Mathlib.Data.Finset.Card
/-!
# Keyed maps with an unspecified iteration order

A hash map is an `AList`: an association list without a repeated key. Lookup, insertion and
removal are Mathlib's; this file adds what a program that also *iterates* over a map needs.

* `lookup_insert_if`, `lookup_erase_if` — one rewrite rule per update, for every key.
* `reorder ks l` — the order in which an iteration meets the entries. The code `ks` picks the next
  entry each time, so every permutation arises (`reorder_surjective`) and nothing else does
  (`reorder_perm`).
* `iterMut` — `for (k, v) in map.iter_mut()` with an accumulator: each entry is visited once and
  rewritten in place.
-/

/-- A finite map from `K` to `V`. -/
abbrev KeyMap (K V : Type) := AList (fun _ : K => V)

namespace KeyMap

section Order
variable {α : Type}

/-- The entries in the order an iteration meets them: `k :: ks` takes the `k`-th of what is left. -/
def reorder : List Nat → List α → List α
  | [], l => l
  | _ :: _, [] => []
  | k :: ks, a :: as =>
    have h : k % (a :: as).length < (a :: as).length := Nat.mod_lt _ (by simp)
    (a :: as).get ⟨k % (a :: as).length, h⟩ :: reorder ks ((a :: as).eraseIdx (k % (a :: as).length))

@[simp] theorem reorder_nil (ks : List Nat) : reorder ks ([] : List α) = [] := by cases ks <;> rfl

theorem reorder_perm : ∀ (ks : List Nat) (l : List α), (reorder ks l).Perm l
  | [], _ => .refl _
  | _ :: _, [] => .refl _
  | k :: ks, a :: as => by
    have h : k % (a :: as).length < (a :: as).length := Nat.mod_lt _ (by simp)
    simp only [reorder, List.get_eq_getElem]
    exact ((reorder_perm ks _).cons _).trans (List.getElem_cons_eraseIdx_perm h)

/-- Every order of the entries is some iteration order. -/
theorem reorder_surjective : ∀ (l' l : List α), l'.Perm l → ∃ ks, reorder ks l = l'
  | [], l, h => ⟨[], by simpa [reorder] using h.nil_eq.symm⟩
  | a :: t, l, h => by
    obtain ⟨i, hi, hia⟩ := List.mem_iff_getElem.1 (h.subset (List.mem_cons_self (a := a) (l := t)))
    have ht : t.Perm (l.eraseIdx i) := by
      refine (List.perm_cons a).1 (h.trans ?_)
      rw [← hia]
      exact (List.getElem_cons_eraseIdx_perm hi).symm
    obtain ⟨ks, hks⟩ := reorder_surjective t _ ht
    match l, hi with
    | b :: bs, hi =>
      refine ⟨i :: ks, ?_⟩
      simp only [reorder, Nat.mod_eq_of_lt hi, List.get_eq_getElem, hia, hks]

@[simp] theorem mem_reorder {ks : List Nat} {l : List α} {a : α} : a ∈ reorder ks l ↔ a ∈ l :=
  (reorder_perm ks l).mem_iff

theorem reorder_map {β : Type} (f : α → β) : ∀ (ks : List Nat) (l : List α),
    reorder ks (l.map f) = (reorder ks l).map f
  | [], _ => rfl
  | _ :: _, [] => rfl
  | k :: ks, a :: as => by
    have h : k % ((a :: as).map f).length < ((a :: as).map f).length := Nat.mod_lt _ (by simp)
    have hd : reorder (k :: ks) ((a :: as).map f) = ((a :: as).map f).get ⟨_, h⟩ ::
        reorder ks (((a :: as).map f).eraseIdx (k % ((a :: as).map f).length)) := rfl
    rw [hd, List.eraseIdx_map, reorder_map f ks]
    simp only [List.get_eq_getElem, List.getElem_map, List.length_map]
    rfl

end Order

variable {K V A : Type} [DecidableEq K]

/-! ## Lookup after an update -/

theorem lookup_insert_if (m : KeyMap K V) (k k' : K) (v : V) :
    (m.insert k v).lookup k' = if k' = k then some v else m.lookup k' := by
  by_cases h : k' = k
  · subst h; simp
  · simp [h, AList.lookup_insert_ne h]

theorem lookup_erase_if (m : KeyMap K V) (k k' : K) :
    (m.erase k).lookup k' = if k' = k then none else m.lookup k' := by
  by_cases h : k' = k
  · subst h; simp
  · simp [h, AList.lookup_erase_ne h]

theorem erase_of_notMem {m : KeyMap K V} {k : K} (h : k ∉ m) : m.erase k = m :=
  AList.ext (List.kerase_of_notMem_keys h)

/-! ## Size and key set -/

/-- `HashMap::len`. -/
def size (m : KeyMap K V) : Nat := m.entries.length

/-- `HashMap::values`, in the representation's order. -/
def values (m : KeyMap K V) : List V := m.entries.map (·.2)

/-- The keys as a set. -/
def keySet (m : KeyMap K V) : Finset K := m.keys.toFinset

@[simp] theorem mem_keySet {m : KeyMap K V} {k : K} : k ∈ keySet m ↔ k ∈ m := by
  simp [keySet, AList.mem_keys]

theorem mem_iff_lookup {m : KeyMap K V} {k : K} : k ∈ m ↔ ∃ v, m.lookup k = some v := by
  rw [← AList.lookup_isSome, Option.isSome_iff_exists]

@[simp] theorem card_keySet (m : KeyMap K V) : (keySet m).card = size m := by
  rw [keySet, List.toFinset_card_of_nodup m.keys_nodup]
  simp [AList.keys, List.keys, size]

@[simp] theorem keySet_empty : keySet (∅ : KeyMap K V) = ∅ := rfl

@[simp] theorem keySet_insert (m : KeyMap K V) (k : K) (v : V) :
    keySet (m.insert k v) = insert k (keySet m) := by
  ext x; simp [AList.mem_insert]

@[simp] theorem keySet_erase (m : KeyMap K V) (k : K) : keySet (m.erase k) = (keySet m).erase k := by
  ext x; simp [AList.mem_erase]

theorem mem_entries_iff {m : KeyMap K V} {k : K} {v : V} :
    (⟨k, v⟩ : Σ _ : K, V) ∈ m.entries ↔ m.lookup k = some v :=
  AList.mem_lookup_iff.symm

/-- Counting values, by their keys. -/
theorem countP_values (m : KeyMap K V) (p : V → Bool) :
    (values m).countP p = ((keySet m).filter fun k => (m.lookup k).any p).card := by
  have hnodup : ((m.entries.filter fun e => p e.2).map Sigma.fst).Nodup :=
    m.keys_nodup.sublist (List.filter_sublist.map _)
  have hset : (keySet m).filter (fun k => (m.lookup k).any p) = ((m.entries.filter fun e => p e.2).map Sigma.fst).toFinset := by
    ext k
    simp only [Finset.mem_filter, mem_keySet, mem_iff_lookup, Option.any_eq_true, List.mem_toFinset, List.mem_map,
      List.mem_filter]
    constructor
    · rintro ⟨-, v, hv, hp⟩
      exact ⟨⟨k, v⟩, ⟨mem_entries_iff.2 hv, hp⟩, rfl⟩
    · rintro ⟨⟨k, v⟩, ⟨hv, hp⟩, rfl⟩
      exact ⟨⟨v, mem_entries_iff.1 hv⟩, v, mem_entries_iff.1 hv, hp⟩
  rw [hset, List.toFinset_card_of_nodup hnodup, List.length_map, values, List.countP_map, List.countP_eq_length_filter]
  rfl

/-- Building a map from the entries of another, some keys left out. -/
theorem lookup_foldl_insert {W : Type} (skip : K → Bool) (g : K → V → W) (k : K) :
    ∀ (es : List (Σ _ : K, V)) (m : KeyMap K W), es.NodupKeys →
      (es.foldl (fun m e => if skip e.1 then m else m.insert e.1 (g e.1 e.2)) m).lookup k =
        match es.dlookup k with
        | some v => if skip k then m.lookup k else some (g k v)
        | none => m.lookup k
  | [], _, _ => rfl
  | ⟨k', v⟩ :: es, m, hnd => by
    rw [List.nodupKeys_cons] at hnd
    rw [List.foldl_cons, lookup_foldl_insert skip g k es _ hnd.2]
    by_cases hk : k = k'
    · subst hk
      rw [List.dlookup_eq_none.2 hnd.1]
      cases hs : skip k <;> simp
    · rw [List.dlookup_cons_ne _ _ hk]
      cases hs : skip k' <;> simp [hk]

/-- Inserting pairs one after the other: what is under a key is the last one for it. -/
theorem lookup_foldl_pairs (k : K) : ∀ (l : List (K × V)) (m : KeyMap K V),
    (l.foldl (fun m e => m.insert e.1 e.2) m).lookup k =
      (l.filter fun e => e.1 = k).foldl (fun _ e => some e.2) (m.lookup k)
  | [], _ => rfl
  | e :: l, m => by
    rw [List.foldl_cons, lookup_foldl_pairs k l, lookup_insert_if]
    by_cases he : e.1 = k
    · rw [if_pos he.symm, List.filter_cons_of_pos (by simpa using he), List.foldl_cons]
    · rw [if_neg (Ne.symm he), List.filter_cons_of_neg (by simpa using he)]

theorem filter_nodupKeys (k : K) : ∀ {es : List (Σ _ : K, V)}, es.NodupKeys →
    (es.filter fun e => e.1 = k) = (es.dlookup k).toList.map fun v => ⟨k, v⟩
  | [], _ => rfl
  | ⟨k', v⟩ :: es, hnd => by
    rw [List.nodupKeys_cons] at hnd
    by_cases hk : k' = k
    · subst hk
      have hrest := filter_nodupKeys k' hnd.2
      rw [List.dlookup_eq_none.2 hnd.1] at hrest
      rw [List.filter_cons_of_pos (by simp), hrest, List.dlookup_cons_eq]
      rfl
    · rw [List.filter_cons_of_neg (by simpa using hk), filter_nodupKeys k hnd.2, List.dlookup_cons_ne _ _ (Ne.symm hk)]

/-- The entries under one key. -/
theorem filter_entries (m : KeyMap K V) (k : K) :
    (m.entries.filter fun e => e.1 = k) = (m.lookup k).toList.map fun v => ⟨k, v⟩ := filter_nodupKeys k m.nodupKeys

/-! ## Keeping the entries that satisfy a predicate -/

/-- `HashMap::retain`, or a `DELETE … WHERE` on a table. -/
def filterEntries (m : KeyMap K V) (p : K → V → Bool) : KeyMap K V :=
  ⟨m.entries.filter fun e => p e.1 e.2, m.nodupKeys.sublist List.filter_sublist⟩

theorem lookup_filterEntries (m : KeyMap K V) (p : K → V → Bool) (k : K) :
    (filterEntries m p).lookup k = (m.lookup k).filter (p k) := by
  apply Option.ext
  intro v
  rw [← mem_entries_iff]
  simp only [filterEntries, List.mem_filter, mem_entries_iff, Option.filter_eq_some_iff]

/-! ## `for (k, v) in map.iter_mut()` -/

/-- Visit the listed entries in turn: `f` rewrites the value and the accumulator. -/
def visit (f : K → V → A → V × A) : List (Σ _ : K, V) → KeyMap K V × A → KeyMap K V × A
  | [], acc => acc
  | ⟨k, v⟩ :: es, (m, a) => visit f es (m.insert k (f k v a).1, (f k v a).2)

/-- The loop over all entries, in the order `ks`. -/
def iterMut (f : K → V → A → V × A) (ks : List Nat) (m : KeyMap K V) (a : A) : KeyMap K V × A :=
  visit f (reorder ks m.entries) (m, a)

theorem visit_lookup_notMem (f : K → V → A → V × A) (k : K) :
    ∀ (es : List (Σ _ : K, V)) (m : KeyMap K V) (a : A), (∀ e ∈ es, e.1 ≠ k) →
      (visit f es (m, a)).1.lookup k = m.lookup k
  | [], _, _, _ => rfl
  | ⟨k', v⟩ :: es, m, a, h => by
    have hk : k ≠ k' := fun e => h _ List.mem_cons_self e.symm
    rw [visit, visit_lookup_notMem f k es _ _ fun e he => h e (List.mem_cons_of_mem _ he),
      lookup_insert_if, if_neg hk]

theorem visit_lookup_mem (f : K → V → A → V × A) {k : K} {v : V} :
    ∀ (es : List (Σ _ : K, V)) (m : KeyMap K V) (a : A), es.NodupKeys → ⟨k, v⟩ ∈ es →
      ∃ a', (visit f es (m, a)).1.lookup k = some (f k v a').1
  | ⟨k', v'⟩ :: es, m, a, hnd, hmem => by
    rw [List.nodupKeys_cons] at hnd
    rcases List.mem_cons.1 hmem with he | he
    · cases he
      refine ⟨a, ?_⟩
      rw [visit, visit_lookup_notMem f k es _ _ fun e he' heq =>
        hnd.1 (List.mem_keys.2 ⟨e.2, heq ▸ he'⟩), lookup_insert_if, if_pos rfl]
    · exact visit_lookup_mem f es _ _ hnd.2 he

/-- Every key keeps its entry, rewritten by `f` at some accumulator. -/
theorem lookup_iterMut (f : K → V → A → V × A) (ks : List Nat) (m : KeyMap K V) (a : A) (k : K) :
    (m.lookup k = none → (iterMut f ks m a).1.lookup k = none) ∧
    (∀ v, m.lookup k = some v → ∃ a', (iterMut f ks m a).1.lookup k = some (f k v a').1) := by
  have hnd : (reorder ks m.entries).NodupKeys :=
    (List.perm_nodupKeys (reorder_perm ks _)).2 m.nodupKeys
  refine ⟨fun h => ?_, fun v h => ?_⟩
  · rw [iterMut, visit_lookup_notMem f k _ _ _ fun e he heq => ?_, h]
    have : m.lookup k = some e.2 := mem_entries_iff.1 (heq ▸ mem_reorder.1 he)
    rw [h] at this; cases this
  · exact visit_lookup_mem f _ m a hnd (mem_reorder.2 (mem_entries_iff.2 h))

/-- Step rule: a reflexive, transitive relation that every visit of a present entry satisfies relates
the start of the loop to its end. -/
theorem iterMut_rel (f : K → V → A → V × A) (R : KeyMap K V × A → KeyMap K V × A → Prop)
    (hrefl : ∀ x, R x x) (htrans : ∀ x y z, R x y → R y z → R x z)
    (hstep : ∀ m k v a, m.lookup k = some v → R (m, a) (m.insert k (f k v a).1, (f k v a).2))
    (ks : List Nat) (m : KeyMap K V) (a : A) : R (m, a) (iterMut f ks m a) := by
  have key : ∀ (es : List (Σ _ : K, V)) (m : KeyMap K V) (a : A), es.NodupKeys →
      (∀ e ∈ es, m.lookup e.1 = some e.2) → R (m, a) (visit f es (m, a)) := by
    intro es
    induction es with
    | nil => exact fun m a _ _ => hrefl _
    | cons e es ih =>
      intro m a hnd hes
      obtain ⟨k, v⟩ := e
      rw [List.nodupKeys_cons] at hnd
      refine htrans _ _ _ (hstep m k v a (hes ⟨k, v⟩ List.mem_cons_self)) (ih _ _ hnd.2 fun e he => ?_)
      have hne : e.1 ≠ k := fun heq => hnd.1 (List.mem_keys.2 ⟨e.2, heq ▸ he⟩)
      rw [lookup_insert_if, if_neg hne]
      exact hes e (List.mem_cons_of_mem _ he)
  exact key _ m a ((List.perm_nodupKeys (reorder_perm ks _)).2 m.nodupKeys)
    fun e he => mem_entries_iff.1 (mem_reorder.1 he)

/-- Accumulator rule: what every visit of an entry preserves holds after the loop. -/
theorem iterMut_acc (f : K → V → A → V × A) (I : A → Prop) (ks : List Nat) (m : KeyMap K V) (a : A)
    (h0 : I a) (hstep : ∀ k v a, m.lookup k = some v → I a → I (f k v a).2) :
    I (iterMut f ks m a).2 := by
  have key : ∀ (es : List (Σ _ : K, V)) (m' : KeyMap K V) (a : A), (∀ e ∈ es, m.lookup e.1 = some e.2) →
      I a → I (visit f es (m', a)).2 := by
    intro es
    induction es with
    | nil => intro _ _ _ h; exact h
    | cons e es ih =>
      intro m' a hes ha
      obtain ⟨k, v⟩ := e
      exact ih _ _ (fun e he => hes e (List.mem_cons_of_mem _ he))
        (hstep k v a (hes ⟨k, v⟩ List.mem_cons_self) ha)
  exact key _ m a (fun e he => mem_entries_iff.1 (mem_reorder.1 he)) h0

end KeyMap
