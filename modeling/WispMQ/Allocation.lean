import WispMQ.Outbound
/-!
# Allocating a packet identifier

`next_id` (session.rs:142) walks the 65535 ids as a ring, from the session's counter, and takes the first free
one. `cyclicId` is the ring, `nextId_first` the scan over it, and `scanChecked` the same scan with every
addition checked: `id + 1` never leaves a `u16`, so the release build's wrapping addition is never seen.
-/

namespace WispMQ.Session

/-- The id `k` places after `next` in the ring `1, …, 65535`. -/
def cyclicId (next k : Nat) : Nat := (next - 1 + k) % 65535 + 1

theorem bumpId_iterate_eq_cyclicId {next : Nat} (h : 1 ≤ next ∧ next ≤ 65535) (k : Nat) :
    bumpId^[k] next = cyclicId next k :=
  bumpId_iterate h k

/-! ## The scan -/

/-- What the scan finds is the first free id it comes by. -/
theorem scanIds_some {used : Nat → Bool} {id : Nat} : ∀ {fuel next : Nat}, (scanIds used fuel next).1 = some id →
    ∃ k < fuel, id = bumpId^[k] next ∧ used id = false ∧ ∀ j < k, used (bumpId^[j] next) := by
  intro fuel
  induction fuel with
  | zero => intro next h; simp [scanIds] at h
  | succ fuel ih =>
    intro next h
    by_cases hu : used next
    · simp only [scanIds, hu, if_true] at h
      obtain ⟨k, hk, rfl, hfree, hbefore⟩ := ih h
      refine ⟨k + 1, by omega, rfl, hfree, ?_⟩
      intro j hj
      cases j with
      | zero => exact hu
      | succ j => exact hbefore j (by omega)
    · simp only [scanIds, hu, Bool.false_eq_true, if_false, Option.some.injEq] at h
      subst h
      exact ⟨0, by omega, rfl, by simpa using hu, by omega⟩

/-- `next_id` finds the first unused id of the ring, from the counter on. -/
theorem nextId_first {s : Session} (h : 1 ≤ s.nextPacketId ∧ s.nextPacketId ≤ 65535) {id : Nat}
    (hid : s.nextId.1 = some id) :
    ∃ k < 65535, id = cyclicId s.nextPacketId k ∧ ∀ j < k, s.idInUse (cyclicId s.nextPacketId j) := by
  obtain ⟨k, -, rfl, hfree, hbefore⟩ := scanIds_some hid
  simp only [bumpId_iterate_eq_cyclicId h] at hfree hbefore ⊢
  refine ⟨k, ?_, rfl, hbefore⟩
  -- a full round would have come by the same id before
  by_contra hk
  have hused := hbefore (k - 65535) (by omega)
  have hsame : cyclicId s.nextPacketId (k - 65535) = cyclicId s.nextPacketId k := by
    simp only [cyclicId]
    omega
  rw [hsame, hfree] at hused
  cases hused

theorem nextId_eq_none_iff {s : Session} (h : 1 ≤ s.nextPacketId ∧ s.nextPacketId ≤ 65535) :
    s.nextId.1 = none ↔ ∀ id, 1 ≤ id ∧ id ≤ 65535 → s.idInUse id := by
  constructor
  · intro hid id hr
    exact nextId_none h hid hr
  · intro hall
    cases hid : s.nextId.1 with
    | none => rfl
    | some id =>
      obtain ⟨hfree, hr⟩ := nextId_fresh h hid
      rw [hall id hr] at hfree
      cases hfree

theorem idInUse_eq_false_iff (s : Session) (id : Nat) : s.idInUse id = false ↔
    id ∉ s.awaitingPuback ∧ id ∉ s.awaitingPubrec ∧ id ∉ s.awaitingPubcomp := by
  simp [idInUse, and_assoc]

/-! ## The addition -/

/-- `if id == u16::MAX { 1 } else { id + 1 }` on `u16`; `none` where the addition overflows. -/
def checkedBump (id : Nat) : Option Nat :=
  if id = 65535 then some 1 else if id + 1 < 2 ^ 16 then some (id + 1) else none

theorem checkedBump_eq {id : Nat} (h : 1 ≤ id ∧ id ≤ 65535) : checkedBump id = some (bumpId id) := by
  by_cases hmax : id = 65535
  · simp [checkedBump, bumpId, hmax]
  · have hfits : id + 1 < 2 ^ 16 := by omega
    simp only [checkedBump, bumpId, if_neg hmax, if_pos hfits]

/-- The scan of `next_id` with the addition checked. -/
def scanChecked (used : Nat → Bool) : Nat → Nat → Option (Option Nat × Nat)
  | 0, next => some (none, next)
  | fuel + 1, next => (checkedBump next).bind fun bumped =>
      if used next then scanChecked used fuel bumped else some (some next, bumped)

theorem scanChecked_eq (used : Nat → Bool) : ∀ (fuel next : Nat), 1 ≤ next ∧ next ≤ 65535 →
    scanChecked used fuel next = some (scanIds used fuel next) := by
  intro fuel
  induction fuel with
  | zero => intro next _; rfl
  | succ fuel ih =>
    intro next h
    simp only [scanChecked, scanIds, checkedBump_eq h, Option.bind_some]
    by_cases hu : used next
    · simp only [hu, if_true]
      exact ih _ (bumpId_range h)
    · simp only [hu, Bool.false_eq_true, if_false]

/-- Packet-id allocation is complete: it returns an id of the ring that is in none of the three maps exactly
when there is one, namely the first from the counter on; no addition overflows, the counter stays on the ring and
nothing else changes. -/
theorem nextId_complete (s : Session) (h : 1 ≤ s.nextPacketId ∧ s.nextPacketId ≤ 65535) :
    ((∃ id, (1 ≤ id ∧ id ≤ 65535) ∧ id ∉ s.awaitingPuback ∧ id ∉ s.awaitingPubrec ∧ id ∉ s.awaitingPubcomp) →
      ∃ id, s.nextId.1 = some id) ∧
    ((∀ id, 1 ≤ id ∧ id ≤ 65535 → id ∈ s.awaitingPuback ∨ id ∈ s.awaitingPubrec ∨ id ∈ s.awaitingPubcomp) →
      s.nextId.1 = none) ∧
    (∀ id, s.nextId.1 = some id →
      (1 ≤ id ∧ id ≤ 65535) ∧ id ∉ s.awaitingPuback ∧ id ∉ s.awaitingPubrec ∧ id ∉ s.awaitingPubcomp ∧
      ∃ k < 65535, id = cyclicId s.nextPacketId k ∧ ∀ j < k, s.idInUse (cyclicId s.nextPacketId j)) ∧
    scanChecked s.idInUse 65536 s.nextPacketId = some (s.nextId.1, s.nextId.2.nextPacketId) ∧
    (1 ≤ s.nextId.2.nextPacketId ∧ s.nextId.2.nextPacketId ≤ 65535) ∧
    s.nextId.2 = { s with nextPacketId := s.nextId.2.nextPacketId } := by
  refine ⟨?_, ?_, ?_, scanChecked_eq _ _ _ h, nextId_range h, rfl⟩
  · rintro ⟨id, hr, hfree⟩
    rw [← idInUse_eq_false_iff] at hfree
    cases hid : s.nextId.1 with
    | some found => exact ⟨found, rfl⟩
    | none =>
      rw [nextId_none h hid hr] at hfree
      cases hfree
  · intro hall
    rw [nextId_eq_none_iff h]
    intro id hr
    simpa [idInUse, or_assoc] using hall id hr
  · intro id hid
    obtain ⟨hfree, hr⟩ := nextId_fresh h hid
    rw [idInUse_eq_false_iff] at hfree
    exact ⟨hr, hfree.1, hfree.2.1, hfree.2.2, nextId_first h hid⟩

/-- Two ids are taken, the counter stands at the end of the ring. -/
def wrapping : Session :=
  { Session.new "c" 0 with nextPacketId := 65535, awaitingPubcomp := {65535, 1} }

/-- Behind the two taken ids the scan goes on to a free one. -/
theorem nextId_complete_wrapping : ∃ id, wrapping.nextId.1 = some id ∧ id ≠ 65535 ∧ id ≠ 1 := by
  obtain ⟨hsome, -, hfresh, -⟩ := nextId_complete wrapping (by decide)
  obtain ⟨id, hid⟩ := hsome ⟨2, by decide, by decide, by decide, by decide⟩
  obtain ⟨-, -, -, hcomp, -⟩ := hfresh id hid
  refine ⟨id, hid, ?_, ?_⟩
  · rintro rfl
    exact hcomp (by decide)
  · rintro rfl
    exact hcomp (by decide)

end WispMQ.Session
