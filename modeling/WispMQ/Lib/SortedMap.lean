import Mathlib.Order.Lattice
import Mathlib.Data.List.Nodup
import Mathlib.Data.List.Perm.Basic
/-!
# Maps kept in key order

A B-tree map is the list of its entries in the order of the keys, which is how an iteration meets them.

* `insert`, `get` — the operations, with `get_insert` for every key.
* `Sorted` — the invariant; a sorted list is determined by what it holds (`Sorted.ext`).
* `ofList es` — the entries inserted one after the other; of two lists without a repeated key the order does not matter
  (`ofList_eq_of_perm`).
* `Adds es m m'` — the entries inserted under new keys, entry by entry (`adds_cons`) or part by part (`adds_append`).
-/

namespace SortedMap
variable {α β : Type} [LinearOrder α]

def insert (k : α) (v : β) : List (α × β) → List (α × β)
  | [] => [(k, v)]
  | (k', v') :: m => if k < k' then (k, v) :: (k', v') :: m else if k = k' then (k, v) :: m else (k', v') :: insert k v m

def get (k : α) : List (α × β) → Option β
  | [] => none
  | (k', v) :: m => if k = k' then some v else get k m

/-- Strictly increasing keys. -/
def Sorted (m : List (α × β)) : Prop := m.Pairwise (·.1 < ·.1)

def ofList (es : List (α × β)) : List (α × β) := es.foldl (fun m e => insert e.1 e.2 m) []

theorem get_insert (x k : α) (v : β) : ∀ m : List (α × β), get x (insert k v m) = if x = k then some v else get x m
  | [] => rfl
  | (k', v') :: m => by
    unfold insert
    split
    · rfl
    · split
      · rename_i hk
        subst hk
        by_cases hx : x = k <;> simp [get, hx]
      · rename_i hne
        simp only [get, get_insert x k v m]
        by_cases hx : x = k'
        · have hxk : x ≠ k := fun h => hne (h.symm.trans hx)
          simp [hx, hx ▸ hxk]
        · simp [hx]

theorem mem_insert {k : α} {v : β} {e : α × β} : ∀ {m : List (α × β)}, e ∈ insert k v m → e = (k, v) ∨ e ∈ m
  | [], h => by simpa [insert] using h
  | (k', v') :: m, h => by
    unfold insert at h
    split at h
    · exact List.mem_cons.1 h
    · split at h
      · exact (List.mem_cons.1 h).imp_right (List.mem_cons_of_mem _)
      · rcases List.mem_cons.1 h with rfl | h
        · exact .inr List.mem_cons_self
        · exact (mem_insert h).imp_right (List.mem_cons_of_mem _)

theorem sorted_insert (k : α) (v : β) : ∀ {m : List (α × β)}, Sorted m → Sorted (insert k v m)
  | [], _ => List.pairwise_singleton ..
  | (k', v') :: m, h => by
    obtain ⟨hlt, hm⟩ := List.pairwise_cons.1 h
    unfold insert
    split
    · rename_i hk
      refine List.pairwise_cons.2 ⟨fun e he => ?_, h⟩
      rcases List.mem_cons.1 he with rfl | he
      · exact hk
      · exact lt_trans hk (hlt e he)
    · split
      · rename_i hk
        subst hk
        exact List.pairwise_cons.2 ⟨hlt, hm⟩
      · rename_i hnlt hne
        refine List.pairwise_cons.2 ⟨fun e he => ?_, sorted_insert k v hm⟩
        rcases mem_insert he with rfl | he
        · exact lt_of_le_of_ne (not_lt.1 hnlt) (Ne.symm hne)
        · exact hlt e he

theorem sorted_foldl (es : List (α × β)) : ∀ {m : List (α × β)}, Sorted m →
    Sorted (es.foldl (fun m e => insert e.1 e.2 m) m) := by
  induction es with
  | nil => exact fun h => h
  | cons e es ih => exact fun h => ih (sorted_insert e.1 e.2 h)

theorem sorted_ofList (es : List (α × β)) : Sorted (ofList es) := sorted_foldl es List.Pairwise.nil

theorem get_eq_none_iff {k : α} : ∀ {m : List (α × β)}, get k m = none ↔ k ∉ m.map Prod.fst
  | [] => by simp [get]
  | (k', v) :: m => by
    unfold get
    split
    · rename_i h
      simp [h]
    · rename_i h
      simp [h, get_eq_none_iff]

theorem mem_of_get {k : α} {v : β} : ∀ {m : List (α × β)}, get k m = some v → (k, v) ∈ m
  | (k', v') :: m, h => by
    unfold get at h
    split at h
    · rename_i hk
      rw [hk, ← Option.some.inj h]
      exact List.mem_cons_self
    · exact List.mem_cons_of_mem _ (mem_of_get h)

/-- Without a repeated key, what is there is found. -/
theorem get_eq_some_iff {k : α} {v : β} : ∀ {m : List (α × β)}, (m.map Prod.fst).Nodup → (get k m = some v ↔ (k, v) ∈ m)
  | [], _ => by simp [get]
  | (k', v') :: m, h => by
    rw [List.map_cons, List.nodup_cons] at h
    unfold get
    split
    · rename_i hk
      subst hk
      have hnot : (k, v) ∉ m := fun hm => h.1 (List.mem_map.2 ⟨_, hm, rfl⟩)
      simp [hnot, eq_comm]
    · rename_i hk
      rw [get_eq_some_iff h.2, List.mem_cons, Prod.mk.injEq]
      simp [hk]

theorem Sorted.nodup {m : List (α × β)} (h : Sorted m) : (m.map Prod.fst).Nodup :=
  List.pairwise_map.2 (h.imp ne_of_lt)

/-- A sorted list is determined by what it holds. -/
theorem Sorted.ext {m m' : List (α × β)} (h : Sorted m) (h' : Sorted m') (hget : ∀ k, get k m = get k m') : m = m' := by
  have hmem : ∀ e, e ∈ m ↔ e ∈ m' := by
    rintro ⟨k, v⟩
    rw [← get_eq_some_iff h.nodup, ← get_eq_some_iff h'.nodup, hget k]
  have hnodup : ∀ {m : List (α × β)}, Sorted m → m.Nodup := fun h => List.Nodup.of_map _ h.nodup
  have hperm : m.Perm m' := (List.perm_ext_iff_of_nodup (hnodup h) (hnodup h')).2 hmem
  exact hperm.eq_of_pairwise (fun a b _ _ hab hba => absurd (lt_trans hab hba) (lt_irrefl _)) h h'

/-- `m'` is `m` with the entries `es`, which have keys of their own. -/
structure Adds (es m m' : List (α × β)) : Prop where
  nodup : (es.map Prod.fst).Nodup
  fresh : ∀ e ∈ es, get e.1 m = none
  eq : m' = es.foldl (fun m e => insert e.1 e.2 m) m

theorem adds_nil {m m' : List (α × β)} : Adds [] m m' ↔ m' = m :=
  ⟨fun h => h.eq, fun h => ⟨List.nodup_nil, by simp, h⟩⟩

theorem adds_cons {k : α} {v : β} {es m m' : List (α × β)} :
    Adds ((k, v) :: es) m m' ↔ get k m = none ∧ Adds es (insert k v m) m' := by
  constructor
  · rintro ⟨hnodup, hfresh, rfl⟩
    rw [List.map_cons, List.nodup_cons] at hnodup
    refine ⟨hfresh _ List.mem_cons_self, hnodup.2, fun e he => ?_, rfl⟩
    rw [get_insert, if_neg, hfresh e (List.mem_cons_of_mem _ he)]
    exact fun hk => hnodup.1 (List.mem_map.2 ⟨e, he, hk⟩)
  · rintro ⟨hk, hnodup, hfresh, rfl⟩
    have hne : ∀ e ∈ es, e.1 ≠ k ∧ get e.1 m = none := by
      intro e he
      have h := hfresh e he
      rw [get_insert] at h
      split at h
      · cases h
      · exact ⟨‹_›, h⟩
    refine ⟨?_, fun e he => ?_, rfl⟩
    · rw [List.map_cons, List.nodup_cons]
      refine ⟨fun hin => ?_, hnodup⟩
      obtain ⟨e, he, rfl⟩ := List.mem_map.1 hin
      exact (hne e he).1 rfl
    · rcases List.mem_cons.1 he with rfl | he
      · exact hk
      · exact (hne e he).2

/-- One part of the entries after the other. -/
theorem adds_append {es es' m m' : List (α × β)} : Adds (es ++ es') m m' ↔ ∃ m₁, Adds es m m₁ ∧ Adds es' m₁ m' := by
  induction es generalizing m with
  | nil => simp [adds_nil]
  | cons e es ih =>
    obtain ⟨k, v⟩ := e
    simp only [List.cons_append, adds_cons, ih, and_assoc, exists_and_left]

theorem Adds.ofList {es m : List (α × β)} (h : Adds es [] m) : m = ofList es := h.eq

theorem get_foldl {k : α} (es : List (α × β)) (m : List (α × β)) (hnew : ∀ e ∈ es, e.1 ∉ m.map Prod.fst)
    (hes : (es.map Prod.fst).Nodup) :
    get k (es.foldl (fun m e => insert e.1 e.2 m) m) = (get k es).or (get k m) := by
  induction es generalizing m with
  | nil => simp [get]
  | cons e es ih =>
    obtain ⟨k', v⟩ := e
    rw [List.map_cons, List.nodup_cons] at hes
    have hnew' : ∀ e ∈ es, e.1 ∉ (insert k' v m).map Prod.fst := by
      intro e he hin
      obtain ⟨x, hx, hxe⟩ := List.mem_map.1 hin
      rcases mem_insert hx with rfl | hx
      · exact hes.1 (List.mem_map.2 ⟨e, he, hxe.symm⟩)
      · exact hnew e (List.mem_cons_of_mem _ he) (hxe ▸ List.mem_map_of_mem (f := Prod.fst) hx)
    rw [List.foldl_cons, ih _ hnew' hes.2, get_insert]
    by_cases hk : k = k'
    · subst hk
      have hnone : get k es = none := get_eq_none_iff.2 hes.1
      simp [get, hnone]
    · simp [get, hk]

theorem get_ofList {k : α} {es : List (α × β)} (hes : (es.map Prod.fst).Nodup) : get k (ofList es) = get k es := by
  rw [ofList, get_foldl es [] (by simp) hes]
  simp [get]

theorem ofList_eq_of_perm {es es' : List (α × β)} (h : es.Perm es') (hes : (es.map Prod.fst).Nodup) :
    ofList es = ofList es' := by
  have hes' : (es'.map Prod.fst).Nodup := (h.map Prod.fst).nodup_iff.1 hes
  refine (sorted_ofList es).ext (sorted_ofList es') fun k => ?_
  rw [get_ofList hes, get_ofList hes']
  ext v
  rw [get_eq_some_iff hes, get_eq_some_iff hes', h.mem_iff]

end SortedMap
