import Mathlib.Data.List.Basic
/-!
# Lines, an empty line and a body

A headed message is a list of lines, each ended by two symbols `cr lf`, an empty line, and a body of any symbols. Lines are
not empty and do not hold `cr`, so that the first empty line ends them, whatever is in the body.

* `write`, `read`, `read_write` — the round trip.
* `write_concat` — the message up to the end of its last line, `cr lf cr lf`, and the body.
-/

namespace Headed
variable {α : Type} (cr lf : α)

def write (lines : List (List α)) (body : List α) : List α := lines.flatMap (· ++ [cr, lf]) ++ [cr, lf] ++ body

/-- The first two line ends in a row are those after the last line. -/
theorem write_concat (lines : List (List α)) (l body : List α) :
    write cr lf (lines ++ [l]) body = lines.flatMap (· ++ [cr, lf]) ++ l ++ [cr, lf, cr, lf] ++ body := by
  simp [write]

variable [DecidableEq α]

/-- The symbols up to the first `cr lf`, and those after it. -/
def readLine : List α → Option (List α × List α)
  | a :: b :: rest => if a = cr ∧ b = lf then some ([], rest) else (readLine (b :: rest)).map fun r => (a :: r.1, r.2)
  | _ => none

/-- Lines up to the first empty one, `fuel` of them at most. -/
def readLines : Nat → List α → Option (List (List α) × List α)
  | 0, _ => none
  | fuel + 1, xs =>
    match readLine cr lf xs with
    | none => none
    | some ([], rest) => some ([], rest)
    | some (l, rest) => (readLines fuel rest).map fun r => (l :: r.1, r.2)

def read (xs : List α) : Option (List (List α) × List α) := readLines cr lf (xs.length + 1) xs

/-- What can be a line. -/
structure Line (l : List α) : Prop where
  nonempty : l ≠ []
  clean : cr ∉ l

variable {cr lf} {lines : List (List α)} {l body : List α}

theorem readLine_append (h : cr ∉ l) (rest : List α) : readLine cr lf (l ++ [cr, lf] ++ rest) = some (l, rest) := by
  induction l with
  | nil => simp [readLine]
  | cons a l ih =>
    obtain ⟨ha, hl⟩ := not_or.1 (fun hc => h (List.mem_cons.2 hc))
    have hnot : ∀ b, ¬(a = cr ∧ b = lf) := fun _ hab => ha hab.1.symm
    have ih := ih hl
    cases l with
    | nil =>
      simp only [List.nil_append, List.cons_append] at ih ⊢
      rw [readLine, if_neg (hnot _), ih]
      rfl
    | cons b l =>
      simp only [List.cons_append] at ih ⊢
      rw [readLine, if_neg (hnot _), ih]
      rfl

theorem readLines_write (h : ∀ l ∈ lines, Line cr l) {fuel : Nat} (hfuel : lines.length < fuel) :
    readLines cr lf fuel (write cr lf lines body) = some (lines, body) := by
  induction lines generalizing fuel with
  | nil =>
    obtain ⟨fuel, rfl⟩ := Nat.exists_eq_add_of_lt hfuel
    have hempty : readLine cr lf ([] ++ [cr, lf] ++ body) = some ([], body) := readLine_append List.not_mem_nil body
    rw [readLines, write, List.flatMap_nil, hempty]
  | cons l lines ih =>
    obtain ⟨hl, hlines⟩ := List.forall_mem_cons.1 h
    cases fuel with
    | zero => cases hfuel
    | succ fuel =>
      have hread : readLine cr lf (l ++ [cr, lf] ++ write cr lf lines body) = some (l, write cr lf lines body) :=
        readLine_append hl.clean _
      have hwrite : write cr lf (l :: lines) body = l ++ [cr, lf] ++ write cr lf lines body := by
        simp only [write, List.flatMap_cons, List.append_assoc]
      rw [readLines, hwrite, hread]
      cases l with
      | nil => exact absurd rfl hl.nonempty
      | cons a l =>
        simp only
        rw [ih hlines (Nat.lt_of_succ_lt_succ hfuel)]
        rfl

/-- Every message is read as it was written. -/
theorem read_write (h : ∀ l ∈ lines, Line cr l) : read cr lf (write cr lf lines body) = some (lines, body) := by
  refine readLines_write h ?_
  have hle : ∀ lines : List (List α), lines.length ≤ (lines.flatMap (· ++ [cr, lf])).length := by
    intro lines
    induction lines with
    | nil => simp
    | cons l lines ih =>
      simp only [List.length_cons, List.flatMap_cons, List.length_append, List.length_nil]
      omega
  have := hle lines
  simp only [write, List.length_append]
  omega

end Headed
