import Mathlib.Data.List.Basic
/-!
# Deterministic machines with inputs and outputs

A machine takes an input, changes its state and emits outputs. All nondeterminism (schedules, clocks,
iteration orders, what the peers do) is in the inputs, so a run is a list of inputs and "every
interleaving" is "every list".

* `run step s ls` — the state reached and everything emitted on the way.
* `Along ok step s ls` — every step of the run meets `ok` in the state it starts from.
* `exists_onset` — where something that holds at the end began.
* `total f s ls` — what `f` charges for the steps of the run, and `total_le`, the rule of potentials for it.
* `run_invariant` — the induction rule: an invariant of (state, outputs so far) that every step
  meeting `ok` preserves holds at the end of every run whose steps all meet `ok`.
-/

namespace Machine
variable {S L E : Type} (step : S → L → S × List E)

def run : S → List L → S × List E
  | s, [] => (s, [])
  | s, l :: ls => ((run (step s l).1 ls).1, (step s l).2 ++ (run (step s l).1 ls).2)

theorem run_append : ∀ (ls ls' : List L) (s : S),
    run step s (ls ++ ls') =
      ((run step (run step s ls).1 ls').1, (run step s ls).2 ++ (run step (run step s ls).1 ls').2)
  | [], _, _ => rfl
  | l :: ls, ls', s => by
    rw [List.cons_append, run, run_append ls ls' (step s l).1, run, List.append_assoc]

/-- Every step of the run meets `ok`, a condition on the state before it and on its input. -/
def Along (ok : S → L → Prop) : S → List L → Prop
  | _, [] => True
  | s, l :: ls => ok s l ∧ Along ok (step s l).1 ls

instance Along.decidable (ok : S → L → Prop) [∀ s l, Decidable (ok s l)] :
    ∀ (s : S) (ls : List L), Decidable (Along step ok s ls)
  | _, [] => .isTrue trivial
  | s, l :: ls => @instDecidableAnd _ _ _ (Along.decidable ok (step s l).1 ls)

theorem Along.mono {ok ok' : S → L → Prop} (h : ∀ s l, ok s l → ok' s l) :
    ∀ {s : S} {ls : List L}, Along step ok s ls → Along step ok' s ls
  | _, [], _ => trivial
  | _, _ :: _, ha => ⟨h _ _ ha.1, Along.mono h ha.2⟩

theorem Along.of_forall {ok : S → L → Prop} (h : ∀ s l, ok s l) :
    ∀ (s : S) (ls : List L), Along step ok s ls
  | _, [] => trivial
  | s, l :: ls => ⟨h s l, Along.of_forall h _ ls⟩

theorem Along.append {ok : S → L → Prop} :
    ∀ {ls ls' : List L} {s : S}, Along step ok s ls → Along step ok (run step s ls).1 ls' → Along step ok s (ls ++ ls')
  | [], _, _, _, h' => h'
  | _ :: _, _, _, h, h' => ⟨h.1, Along.append h.2 h'⟩

theorem Along.of_append {ok : S → L → Prop} :
    ∀ {ls ls' : List L} {s : S}, Along step ok s (ls ++ ls') → Along step ok s ls
  | [], _, _, _ => trivial
  | _ :: _, _, _, h => ⟨h.1, Along.of_append h.2⟩

/-- What every step meets, the one at hand does. -/
theorem Along.at_split {ok : S → L → Prop} :
    ∀ {pre post : List L} {l : L} {s : S}, Along step ok s (pre ++ l :: post) → ok (run step s pre).1 l
  | [], _, _, _, h => h.1
  | l₀ :: pre, _, _, s, h => show ok (run step (step s l₀).1 pre).1 _ from Along.at_split h.2

/-- And conversely. -/
theorem Along.of_splits {ok : S → L → Prop} :
    ∀ {ls : List L} {s : S}, (∀ pre l post, ls = pre ++ l :: post → ok (run step s pre).1 l) → Along step ok s ls
  | [], _, _ => trivial
  | l :: ls, _, h => ⟨h [] l ls rfl, Along.of_splits fun pre l' post hls => h (l :: pre) l' post (by rw [hls]; rfl)⟩

/-- A condition on the inputs alone may be given for the list. -/
theorem Along.and_forall {ok : S → L → Prop} {p : L → Prop} :
    ∀ {s : S} {ls : List L}, Along step ok s ls → (∀ l ∈ ls, p l) → Along step (fun s l => ok s l ∧ p l) s ls
  | _, [], _, _ => trivial
  | _, l :: _, ha, hp =>
    ⟨⟨ha.1, hp l (List.mem_cons_self ..)⟩, Along.and_forall ha.2 fun l hl => hp l (List.mem_cons_of_mem _ hl)⟩

theorem Along.and {ok ok' : S → L → Prop} :
    ∀ {s : S} {ls : List L}, Along step ok s ls → Along step ok' s ls → Along step (fun s l => ok s l ∧ ok' s l) s ls
  | _, [], _, _ => trivial
  | _, _ :: _, h, h' => ⟨⟨h.1, h'.1⟩, Along.and h.2 h'.2⟩

theorem Along.of_mem {p : L → Prop} : ∀ {s : S} {ls : List L}, (∀ l ∈ ls, p l) → Along step (fun _ l => p l) s ls
  | _, [], _ => trivial
  | _, l :: _, hp => ⟨hp l (List.mem_cons_self ..), Along.of_mem fun l hl => hp l (List.mem_cons_of_mem _ hl)⟩

/-- Two steps of one run: the first is before the second, or they are the same, or it is after it. -/
theorem compare_splits {pre pre' post post' : List L} {l l' : L} (h : pre ++ l :: post = pre' ++ l' :: post') :
    (∃ mid, pre' = pre ++ l :: mid) ∨ (pre = pre' ∧ l = l') ∨ ∃ mid, pre = pre' ++ l' :: mid := by
  rcases List.append_eq_append_iff.1 h with ⟨as, rfl, has⟩ | ⟨bs, rfl, hbs⟩
  · cases as with
    | nil => exact .inr (.inl ⟨by simp, (List.cons.inj has).1⟩)
    | cons a as =>
      obtain ⟨rfl, -⟩ := List.cons.inj has
      exact .inl ⟨as, rfl⟩
  · cases bs with
    | nil => exact .inr (.inl ⟨by simp, (List.cons.inj hbs).1.symm⟩)
    | cons b bs =>
      obtain ⟨rfl, -⟩ := List.cons.inj hbs
      exact .inr (.inr ⟨bs, rfl⟩)

/-- What a run emits, some step of it emits. -/
theorem exists_emitted {x : E} : ∀ {ls : List L} {s : S}, x ∈ (run step s ls).2 →
    ∃ pre l post, ls = pre ++ l :: post ∧ x ∈ (step (run step s pre).1 l).2
  | l :: ls, s, h => by
    rcases List.mem_append.1 h with h | h
    · exact ⟨[], l, ls, rfl, h⟩
    · obtain ⟨pre, l', post, rfl, h'⟩ := exists_emitted h
      exact ⟨l :: pre, l', post, rfl, h'⟩

/-- What a step of a run emits, the run does. -/
theorem emitted_of_step {x : E} {s : S} {pre : List L} {l : L} (h : x ∈ (step (run step s pre).1 l).2) (post : List L) :
    x ∈ (run step s (pre ++ l :: post)).2 := by
  rw [run_append]
  exact List.mem_append_right _ (List.mem_append_left _ h)

/-- What holds at the end of a run has held all along, or since some step that brought it about. -/
theorem exists_onset (Q : S → Prop) : ∀ (ls : List L) (s : S), Q (run step s ls).1 →
    (∀ q r, ls = q ++ r → Q (run step s q).1) ∨
      ∃ pre l post, ls = pre ++ l :: post ∧ ¬Q (run step s pre).1 ∧
        ∀ q r, post = q ++ r → Q (run step (step (run step s pre).1 l).1 q).1
  | [], s, h => by
    refine .inl fun q r hqr => ?_
    obtain ⟨rfl, -⟩ := List.append_eq_nil_iff.1 hqr.symm
    exact h
  | l :: ls, s, h => by
    rcases exists_onset Q ls (step s l).1 h with hall | ⟨pre, l', post, rfl, hnot, hall⟩
    · by_cases hs : Q s
      · refine .inl fun q r hqr => ?_
        cases q with
        | nil => exact hs
        | cons l' q =>
          obtain ⟨rfl, rfl⟩ := List.cons.inj hqr
          exact hall q r rfl
      · exact .inr ⟨[], l, ls, rfl, hs, hall⟩
    · exact .inr ⟨l :: pre, l', post, rfl, hnot, hall⟩

/-- The induction rule, from any starting point `(s, es)`. -/
theorem run_invariant_from {ok : S → L → Prop} (I : S → List E → Prop)
    (hstep : ∀ s es l, I s es → ok s l → I (step s l).1 (es ++ (step s l).2)) :
    ∀ (ls : List L) (s : S) (es : List E), I s es → Along step ok s ls →
      I (run step s ls).1 (es ++ (run step s ls).2)
  | [], s, es, h, _ => by simpa [run] using h
  | l :: ls, s, es, h, ha => by
    have := run_invariant_from I hstep ls _ _ (hstep s es l h ha.1) ha.2
    simpa only [run, List.append_assoc] using this

theorem run_invariant {ok : S → L → Prop} (I : S → List E → Prop) {s : S} (h0 : I s [])
    (hstep : ∀ s es l, I s es → ok s l → I (step s l).1 (es ++ (step s l).2))
    (ls : List L) (ha : Along step ok s ls) : I (run step s ls).1 (run step s ls).2 := by
  simpa using run_invariant_from step I hstep ls s [] h0 ha

/-- The rule for invariants of the state alone. -/
theorem run_state_invariant {ok : S → L → Prop} (I : S → Prop)
    (hstep : ∀ s l, I s → ok s l → I (step s l).1) {s : S} (h0 : I s)
    (ls : List L) (ha : Along step ok s ls) : I (run step s ls).1 :=
  run_invariant step (fun s _ => I s) h0 (fun s _ l h ho => hstep s l h ho) ls ha

/-- The rule for invariants that every step preserves. -/
theorem run_preserves (I : S → Prop) (hstep : ∀ s l, I s → I (step s l).1) {s : S} (h0 : I s) (ls : List L) :
    I (run step s ls).1 :=
  run_state_invariant step I (fun s l h (_ : True) => hstep s l h) h0 ls (.of_forall _ (fun _ _ => trivial) _ _)

/-! ## Totals -/

/-- What the steps of a run come to. -/
def total (f : S → L → Nat) : S → List L → Nat
  | _, [] => 0
  | s, l :: ls => f s l + total f (step s l).1 ls

theorem total_add (f g : S → L → Nat) : ∀ (ls : List L) (s : S),
    total step (fun s l => f s l + g s l) s ls = total step f s ls + total step g s ls
  | [], _ => rfl
  | l :: ls, s => by
    simp only [total, total_add f g ls]
    omega

/-- Outputs of one kind, counted step by step. -/
theorem total_countP (p : E → Bool) : ∀ (ls : List L) (s : S),
    total step (fun s l => (step s l).2.countP p) s ls = (run step s ls).2.countP p
  | [], _ => rfl
  | l :: ls, s => by rw [total, run, List.countP_append, total_countP p ls]

/-- A run comes to nothing if every step of it does. -/
theorem total_eq_zero {f : S → L → Nat} : ∀ {s : S} {ls : List L},
    total step f s ls = 0 ↔ Along step (fun s l => f s l = 0) s ls
  | _, [] => iff_of_true rfl trivial
  | _, _ :: _ => Nat.add_eq_zero_iff.trans (and_congr_right' total_eq_zero)

/-- The rule of potentials: if every step that costs is paid for by what it earns or by a loss of potential, so is the
whole run. -/
theorem total_le {ok : S → L → Prop} (I : S → Prop) (Φ : S → Nat) (cost gain : S → L → Nat)
    (hinv : ∀ s l, I s → ok s l → I (step s l).1)
    (hstep : ∀ s l, I s → ok s l → Φ (step s l).1 + cost s l ≤ Φ s + gain s l) :
    ∀ {s : S} {ls : List L}, I s → Along step ok s ls →
      Φ (run step s ls).1 + total step cost s ls ≤ Φ s + total step gain s ls
  | s, [], _, _ => Nat.le_refl _
  | s, l :: ls, h, ha => by
    have hone := hstep s l h ha.1
    have hrest := total_le I Φ cost gain hinv hstep (hinv s l h ha.1) ha.2
    simp only [run, total]
    omega

end Machine
