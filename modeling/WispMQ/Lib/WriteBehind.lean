import Mathlib.Data.List.Induction
import WispMQ.Lib.Machine
/-!
# Write-behind stores

A machine hands what it wants stored to a writer, which performs it later, in order. The machine and the queue between the
two are lost together when the process ends; the store stays, and the next life starts from it.

* `Host` — the machine, the store, and the operations that wait in between.
* `steps is` — the steps of the machine among the inputs.
* `Fresh` — a life has just begun. `run_of_fresh` says where machine and store are later in it: the store is what the first
  of the operations make of the store the life began with.
* `exists_life` — every run is in some life, and `exists_moment`: what the machine was after some of the steps of its life,
  it was at some moment of the run.
-/

namespace WriteBehind
variable {S L E D O C : Type}

structure Host (S D O : Type) where
  state : S
  store : D
  /-- Handed over and not performed yet. -/
  queue : List O := []
  /-- The writer runs. -/
  alive : Bool := true

inductive Input (L C : Type) where
  | step (l : L)
  /-- The writer performs what is first in the queue. -/
  | write
  /-- The writer dies; what was handed to it is gone, and so is what will be. -/
  | lost
  /-- The process ends, and is started again. -/
  | restart (c : C)
deriving DecidableEq

/-- The parts of a host: the machine, what of its output is to be stored, what storing does, and how a life starts. -/
structure Spec (S L E D O C : Type) where
  step : S → L → S × List E
  ops : List E → List O
  perform : D → O → D
  start : C → D → S

namespace Input

def isRestart : Input L C → Bool
  | .restart _ => true
  | _ => false

end Input

/-- The steps of the machine among the inputs. -/
def steps : List (Input L C) → List L
  | [] => []
  | .step l :: is => l :: steps is
  | _ :: is => steps is

@[simp] theorem steps_append : ∀ is is' : List (Input L C), steps (is ++ is') = steps is ++ steps is'
  | [], _ => rfl
  | i :: is, is' => by cases i <;> simp [steps, steps_append is is']

theorem mem_steps {l : L} : ∀ {is : List (Input L C)}, l ∈ steps is ↔ .step l ∈ is
  | [] => by simp [steps]
  | i :: is => by cases i <;> simp [steps, mem_steps]

/-- A part of the steps is made in a part of the inputs. -/
theorem exists_steps : ∀ {is : List (Input L C)} {ls ls' : List L}, steps is = ls ++ ls' →
    ∃ is₁ is₂, is = is₁ ++ is₂ ∧ steps is₁ = ls
  | is, [], _, _ => ⟨[], is, rfl, rfl⟩
  | i :: is, l :: ls, ls', h => by
    cases i with
    | step l₀ =>
      obtain ⟨rfl, hrest⟩ := List.cons.inj h
      obtain ⟨is₁, is₂, rfl, hsteps⟩ := exists_steps hrest
      exact ⟨.step l₀ :: is₁, is₂, rfl, by rw [steps, hsteps]⟩
    | write =>
      obtain ⟨is₁, is₂, rfl, hsteps⟩ := exists_steps (show steps is = _ from h)
      exact ⟨.write :: is₁, is₂, rfl, hsteps⟩
    | lost =>
      obtain ⟨is₁, is₂, rfl, hsteps⟩ := exists_steps (show steps is = _ from h)
      exact ⟨.lost :: is₁, is₂, rfl, hsteps⟩
    | restart c =>
      obtain ⟨is₁, is₂, rfl, hsteps⟩ := exists_steps (show steps is = _ from h)
      exact ⟨.restart c :: is₁, is₂, rfl, hsteps⟩

variable (spec : Spec S L E D O C)

def step (h : Host S D O) : Input L C → Host S D O × List E
  | .step l =>
    ({ h with
        state := (spec.step h.state l).1
        queue := if h.alive then h.queue ++ spec.ops (spec.step h.state l).2 else h.queue }, (spec.step h.state l).2)
  | .write =>
    match h.queue with
    | [] => (h, [])
    | o :: queue => ({ h with store := spec.perform h.store o, queue := queue }, [])
  | .lost => ({ h with queue := [], alive := false }, [])
  | .restart c => ({ state := spec.start c h.store, store := h.store }, [])

def run (h : Host S D O) (is : List (Input L C)) : Host S D O × List E := Machine.run (step spec) h is

theorem run_append (h : Host S D O) (is is' : List (Input L C)) :
    (run spec h (is ++ is')).1 = (run spec (run spec h is).1 is').1 := by
  rw [run, Machine.run_append]
  rfl

/-- What the machine wants stored. -/
def issued (h : Host S D O) : Input L C → List O
  | .step l => spec.ops (spec.step h.state l).2
  | _ => []

/-- A life has just begun. -/
structure Fresh (c : C) (h : Host S D O) : Prop where
  state : h.state = spec.start c h.store
  queue : h.queue = []
  alive : h.alive = true

/-- Where a host is in a life that began with the store `d`: of `all` the operations of its machine, `done` are performed and
`gone` never will be. -/
structure Within (d : D) (all done gone : List O) (h : Host S D O) : Prop where
  split : all = done ++ h.queue ++ gone
  store : h.store = done.foldl spec.perform d
  alive : h.alive = true → gone = []
  dead : h.alive = false → h.queue = []

variable {spec}

/-- One input that is no restart. -/
theorem Within.step {d : D} {all done gone : List O} {h : Host S D O} {i : Input L C} (hw : Within spec d all done gone h)
    (hi : i.isRestart = false) :
    ∃ done' gone', Within spec d (all ++ issued spec h i) (done ++ done') gone' (WriteBehind.step spec h i).1 := by
  cases i with
  | step l =>
    cases ha : h.alive with
    | true =>
      refine ⟨[], [], ?_, by simpa [WriteBehind.step] using hw.store, fun _ => rfl, fun hd => ?_⟩
      · simp [WriteBehind.step, issued, ha, hw.split, hw.alive ha]
      · simp [WriteBehind.step, ha] at hd
    | false =>
      refine ⟨[], gone ++ spec.ops (spec.step h.state l).2, ?_, by simpa [WriteBehind.step] using hw.store, fun hl => ?_,
        fun _ => ?_⟩
      · simp [WriteBehind.step, issued, ha, hw.split]
      · simp [WriteBehind.step, ha] at hl
      · simpa [WriteBehind.step, ha] using hw.dead ha
  | write =>
    cases hq : h.queue with
    | nil =>
      refine ⟨[], gone, ?_, ?_, ?_, ?_⟩
      all_goals simp only [WriteBehind.step, hq, List.append_nil]
      · simpa [issued, hq] using hw.split
      · exact hw.store
      · exact hw.alive
      · exact fun _ => trivial
    | cons o queue =>
      refine ⟨[o], gone, ?_, ?_, ?_, fun hd => ?_⟩
      · simpa [WriteBehind.step, issued, hq] using hw.split
      · simp [WriteBehind.step, hq, hw.store, List.foldl_append]
      · simpa [WriteBehind.step, hq] using hw.alive
      · rw [hw.dead (by simpa [WriteBehind.step, hq] using hd)] at hq
        cases hq
  | lost =>
    refine ⟨[], h.queue ++ gone, ?_, by simpa [WriteBehind.step] using hw.store, fun hl => ?_, fun _ => rfl⟩
    · simpa [WriteBehind.step, issued] using hw.split
    · simp [WriteBehind.step] at hl
  | restart c => cases hi

theorem ops_nil (hops : ∀ es es', spec.ops (es ++ es') = spec.ops es ++ spec.ops es') : spec.ops [] = [] := by
  have hlen : (spec.ops []).length = (spec.ops []).length + (spec.ops []).length := by
    rw [← List.length_append, ← hops, List.append_nil]
  exact List.eq_nil_of_length_eq_zero (by omega)

/-- **Within one life** the store is what the writer has made so far of the store the life began with. -/
theorem run_of_fresh (hops : ∀ es es', spec.ops (es ++ es') = spec.ops es ++ spec.ops es') {c : C} {h : Host S D O}
    (hf : Fresh spec c h) {is : List (Input L C)} (hlive : ∀ i ∈ is, i.isRestart = false) :
    (run spec h is).1.state = (Machine.run spec.step h.state (steps is)).1 ∧
      ∃ done gone, Within spec h.store (spec.ops (Machine.run spec.step h.state (steps is)).2) done gone (run spec h is).1 := by
  have hnil := ops_nil hops
  induction is using List.reverseRecOn with
  | nil =>
    refine ⟨rfl, [], [], ?_, rfl, fun _ => rfl, fun hd => ?_⟩
    · simp [Machine.run, steps, run, hnil, hf.queue]
    · simp [run, Machine.run, hf.alive] at hd
  | append_singleton is i ih =>
    obtain ⟨hstate, done, gone, hw⟩ := ih fun i hi => hlive i (List.mem_append_left _ hi)
    obtain ⟨done', gone', hw'⟩ := hw.step (hlive i (by simp))
    rw [run_append, show (run spec (run spec h is).1 [i]).1 = (WriteBehind.step spec (run spec h is).1 i).1 from rfl,
      steps_append, Machine.run_append]
    have hissued : issued spec (run spec h is).1 i =
        spec.ops (Machine.run spec.step (Machine.run spec.step h.state (steps is)).1 (steps [i])).2 := by
      cases i with
      | step l => simp [issued, steps, Machine.run, hstate]
      | _ => exact hnil.symm
    rw [hissued, ← hops] at hw'
    refine ⟨?_, done ++ done', gone', hw'⟩
    cases i with
    | step l => simp [WriteBehind.step, steps, Machine.run, hstate]
    | write =>
      simp only [WriteBehind.step, steps, Machine.run]
      split <;> exact hstate
    | lost => exact hstate
    | restart c => exact absurd (hlive (.restart c) (by simp)) (by simp [Input.isRestart])

/-- What every operation keeps of the store, every run does. -/
theorem run_store {I : D → Prop} (hperform : ∀ d o, I d → I (spec.perform d o)) : ∀ (is : List (Input L C)) {h : Host S D O},
    I h.store → I (run spec h is).1.store
  | [], _, h0 => h0
  | i :: is, h, h0 => by
    refine run_store hperform is (h := (step spec h i).1) ?_
    cases i with
    | write =>
      simp only [step]
      split
      · exact h0
      · exact hperform _ _ h0
    | _ => exact h0

/-- Every run is in the life it began in, or in one that began with a restart. -/
theorem exists_life {c₀ : C} {h : Host S D O} (hf : Fresh spec c₀ h) (is : List (Input L C)) :
    ∃ c a b, is = a ++ b ∧ Fresh spec c (run spec h a).1 ∧ (∀ i ∈ b, i.isRestart = false) ∧
      ((a = [] ∧ c = c₀) ∨ ∃ a', a = a' ++ [.restart c]) := by
  induction is using List.reverseRecOn with
  | nil => exact ⟨c₀, [], [], rfl, hf, by simp, .inl ⟨rfl, rfl⟩⟩
  | append_singleton is i ih =>
    cases hi : i.isRestart with
    | true =>
      cases i with
      | restart c =>
        refine ⟨c, is ++ [.restart c], [], (List.append_nil _).symm, ?_, by simp, .inr ⟨is, rfl⟩⟩
        rw [run_append]
        exact ⟨rfl, rfl, rfl⟩
      | _ => cases hi
    | false =>
      obtain ⟨c, a, b, rfl, hfresh, hb, ha⟩ := ih
      refine ⟨c, a, b ++ [i], List.append_assoc .., hfresh, fun j hj => ?_, ha⟩
      rcases List.mem_append.1 hj with hj | hj
      · exact hb j hj
      · rwa [List.mem_singleton.1 hj]

/-- The state after some of the steps of a life was the state at some moment of it. -/
theorem exists_moment (hops : ∀ es es', spec.ops (es ++ es') = spec.ops es ++ spec.ops es') {c : C} {h : Host S D O}
    (hf : Fresh spec c h) {is : List (Input L C)} (hlive : ∀ i ∈ is, i.isRestart = false) {ls ls' : List L}
    (hsteps : steps is = ls ++ ls') :
    ∃ is₁ is₂, is = is₁ ++ is₂ ∧ steps is₁ = ls ∧ (run spec h is₁).1.state = (Machine.run spec.step h.state ls).1 := by
  obtain ⟨is₁, is₂, rfl, rfl⟩ := exists_steps hsteps
  exact ⟨is₁, is₂, rfl, rfl, (run_of_fresh hops hf fun i hi => hlive i (List.mem_append_left _ hi)).1⟩

/-! ## Operations of one kind -/

/-- Of at most one operation of a kind a step issues, all or nothing is performed: operations up to some point are, as far
as the kind goes, those of the first steps. -/
theorem exists_cut (p : O → Bool) (hops : ∀ es es', spec.ops (es ++ es') = spec.ops es ++ spec.ops es')
    (hone : ∀ s l, ((spec.ops (spec.step s l).2).filter p).length ≤ 1) : ∀ {ls : List L} {s : S} {done rest : List O},
    spec.ops (Machine.run spec.step s ls).2 = done ++ rest →
    ∃ ls₁ ls₂, ls = ls₁ ++ ls₂ ∧ done.filter p = (spec.ops (Machine.run spec.step s ls₁).2).filter p
  | [], s, done, rest, h => by
    refine ⟨[], [], rfl, ?_⟩
    rw [Machine.run, ops_nil hops] at h ⊢
    rw [(List.append_eq_nil_iff.1 h.symm).1]
  | l :: ls, s, done, rest, h => by
    rw [Machine.run, hops] at h
    rcases List.append_eq_append_iff.1 h with ⟨as, rfl, has⟩ | ⟨bs, hbs, -⟩
    · -- the step is performed as a whole
      obtain ⟨ls₁, ls₂, rfl, hcut⟩ := exists_cut p hops hone has
      exact ⟨l :: ls₁, ls₂, rfl, by rw [List.filter_append, hcut, Machine.run, hops, List.filter_append]⟩
    · have hle := hone s l
      rw [hbs, List.filter_append, List.length_append] at hle
      by_cases hdone : (done.filter p).length = 0
      · refine ⟨[], l :: ls, rfl, ?_⟩
        rw [Machine.run, ops_nil hops]
        exact List.eq_nil_of_length_eq_zero hdone
      · refine ⟨[l], ls, rfl, ?_⟩
        have hbs' : (bs.filter p) = [] := List.eq_nil_of_length_eq_zero (by omega)
        rw [Machine.run, Machine.run, List.append_nil, hbs, List.filter_append, hbs', List.append_nil]

end WriteBehind
