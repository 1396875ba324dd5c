import Mathlib.Data.List.Basic
/-!
# Reading frames from a stream

A stream of symbols is cut into frames by a decoder that looks at the symbols since the last frame and says whether they
are a frame, the beginning of one, or neither. A `Reader` is one end of the stream: symbols `arrive` in pieces, a read
in progress takes them over into `held` as it needs them, and dropping the read forgets what it holds.

* `frames decode held xs` — the frames in `xs` for a read that holds `held`; the specification.
* `Encodes` — what an encoder has to provide for its frames to be read back (`frames_encoded`).
* `Reader.poll` — let the read go on as far as it gets.
* `Tracks` — what the reader has returned and what it will still return are the frames of what was sent. Arrivals and
  polls keep it; dropping a read keeps it if the read holds nothing.
-/

namespace Framing
variable {α β ε : Type}

/-- What the symbols since the last frame are. -/
inductive Decoded (β ε : Type) where
  | incomplete
  | frame (b : β)
  | malformed (e : ε)
deriving DecidableEq

variable (decode : List α → Decoded β ε)

/-- The frames of the stream `xs`, up to the first malformed one, when `held` has been read of the first. -/
def frames : List α → List α → List β
  | _, [] => []
  | held, x :: xs =>
    match decode (held ++ [x]) with
    | .incomplete => frames (held ++ [x]) xs
    | .frame b => b :: frames [] xs
    | .malformed _ => []

/-- How far a read gets with the symbols at hand. -/
inductive Read (α β ε : Type) where
  | pending (held : List α)
  | frame (b : β) (rest : List α)
  | malformed (e : ε) (rest : List α)
deriving DecidableEq

/-- Take symbols until they are a frame: no more and, as far as they are there, no fewer. -/
def read : List α → List α → Read α β ε
  | held, [] => .pending held
  | held, x :: xs =>
    match decode (held ++ [x]) with
    | .incomplete => read (held ++ [x]) xs
    | .frame b => .frame b xs
    | .malformed e => .malformed e xs

variable {decode} {held held' xs rest : List α} {b : β} {e : ε}

theorem frames_of_pending (h : read decode held xs = .pending held') (ys : List α) :
    frames decode held (xs ++ ys) = frames decode held' ys := by
  induction xs generalizing held with
  | nil =>
    simp only [read, Read.pending.injEq] at h
    rw [List.nil_append, h]
  | cons x xs ih =>
    rw [List.cons_append, frames]
    rw [read] at h
    cases hd : decode (held ++ [x]) with
    | incomplete =>
      rw [hd] at h
      exact ih h
    | frame b =>
      rw [hd] at h
      cases h
    | malformed e =>
      rw [hd] at h
      cases h

theorem frames_of_frame (h : read decode held xs = .frame b rest) (ys : List α) :
    frames decode held (xs ++ ys) = b :: frames decode [] (rest ++ ys) := by
  induction xs generalizing held with
  | nil => cases h
  | cons x xs ih =>
    rw [List.cons_append, frames]
    rw [read] at h
    cases hd : decode (held ++ [x]) with
    | incomplete =>
      rw [hd] at h
      exact ih h
    | frame b =>
      rw [hd] at h
      cases h
      rfl
    | malformed e =>
      rw [hd] at h
      cases h

/-! ## Encoded frames -/

variable (decode) in
/-- `xs` is an encoding of `b`: no beginning of it is a frame, and all of it is this one. -/
structure Encodes (b : β) (xs : List α) : Prop where
  nonempty : xs ≠ []
  incomplete : ∀ front back, xs = front ++ back → front ≠ [] → back ≠ [] → decode front = .incomplete
  whole : decode xs = .frame b

/-- Behind the beginning of an encoding that has been read, the rest of it is the frame. -/
theorem Encodes.frames_rest {whole : List α} (h : Encodes decode b whole) (ys : List α) :
    ∀ back front, whole = front ++ back → back ≠ [] → frames decode front (back ++ ys) = b :: frames decode [] ys
  | [], _, _, hback => absurd rfl hback
  | [x], front, hsplit, _ => by
    rw [List.cons_append, List.nil_append, frames, ← hsplit, h.whole]
  | x :: y :: back, front, hsplit, _ => by
    have hsplit : whole = (front ++ [x]) ++ (y :: back) := by rw [hsplit, List.append_assoc]; rfl
    rw [List.cons_append, frames, h.incomplete _ _ hsplit (by simp) (by simp)]
    exact h.frames_rest ys (y :: back) (front ++ [x]) hsplit (by simp)

/-- What is encoded frame by frame is read back. -/
theorem frames_encoded {encode : β → List α} : ∀ {bs : List β}, (∀ b ∈ bs, Encodes decode b (encode b)) →
    frames decode [] (bs.map encode).flatten = bs
  | [], _ => rfl
  | b :: bs, h => by
    obtain ⟨hb, hbs⟩ := List.forall_mem_cons.1 h
    rw [List.map_cons, List.flatten_cons, hb.frames_rest _ _ _ rfl hb.nonempty, frames_encoded hbs]

/-! ## A reader -/

/-- Symbols that have arrived and are not taken yet, and those the read in progress has taken. -/
structure Reader (α : Type) where
  arrived : List α := []
  held : List α := []
deriving DecidableEq

namespace Reader

def arrive (r : Reader α) (xs : List α) : Reader α := { r with arrived := r.arrived ++ xs }

/-- The read is dropped, and with it what it has taken. -/
def drop (r : Reader α) : Reader α := { r with held := [] }

variable (decode) in
/-- Let the read go on; after a frame a new read begins. -/
def poll (r : Reader α) : Reader α × Decoded β ε :=
  match read decode r.held r.arrived with
  | .pending held => (⟨[], held⟩, .incomplete)
  | .frame b rest => (⟨rest, []⟩, .frame b)
  | .malformed e rest => (⟨rest, []⟩, .malformed e)

end Reader

variable (decode) in
/-- The frames of `sent`, whatever may follow it, are those returned so far and those the reader will return. -/
def Tracks (sent : List α) (returned : List β) (r : Reader α) : Prop :=
  ∀ ys, frames decode [] (sent ++ ys) = returned ++ frames decode r.held (r.arrived ++ ys)

namespace Tracks
variable {sent : List α} {returned : List β} {r : Reader α}

theorem start : Tracks decode [] [] ({} : Reader α) := fun _ => rfl

theorem arrive (h : Tracks decode sent returned r) (xs : List α) : Tracks decode (sent ++ xs) returned (r.arrive xs) := by
  intro ys
  rw [List.append_assoc, h (xs ++ ys), Reader.arrive, List.append_assoc]

theorem pending (h : Tracks decode sent returned r) (hp : (r.poll decode).2 = .incomplete) :
    Tracks decode sent returned (r.poll decode).1 := by
  intro ys
  rw [h ys]
  unfold Reader.poll at hp ⊢
  cases hr : read decode r.held r.arrived with
  | pending held => rw [frames_of_pending hr]; rfl
  | frame b rest => rw [hr] at hp; cases hp
  | malformed e rest => rw [hr] at hp; cases hp

theorem frame (h : Tracks decode sent returned r) (hp : (r.poll decode).2 = .frame b) :
    Tracks decode sent (returned ++ [b]) (r.poll decode).1 := by
  intro ys
  rw [h ys]
  unfold Reader.poll at hp ⊢
  cases hr : read decode r.held r.arrived with
  | pending held => rw [hr] at hp; cases hp
  | malformed e rest => rw [hr] at hp; cases hp
  | frame b' rest =>
    rw [hr] at hp
    cases hp
    rw [frames_of_frame hr, List.append_assoc]
    rfl

/-- A read that holds nothing may be dropped. -/
theorem drop (h : Tracks decode sent returned r) (hh : r.held = []) : Tracks decode sent returned r.drop := by
  intro ys
  rw [h ys, hh, Reader.drop]

/-- Once everything has been taken over, all frames have been returned. -/
theorem caught_up (h : Tracks decode sent returned r) (ha : r.arrived = []) : frames decode [] sent = returned := by
  have h0 := h []
  rw [List.append_nil, ha, List.append_nil, frames, List.append_nil] at h0
  exact h0

end Tracks

end Framing
