import WispMQ.PacketIds
import WispMQ.Allocation
/-!
# `flush_queue`, exactly

| here | there |
| --- | --- |
| `flushIter`  | one iteration of the `while` loop (routing.rs:253-306): `pop_front`, the two `continue`s, the two `push_front` and `break` |
| `flushWhile` | the loop, with the counter `dropped` |

`flushWhile_eq` is the loop against `flushQueue`; `Flushed` is the invariant of the loop relative to the session on
entry, and `FlushStopped` the reasons for which entries are left.

`flush_queue` runs in the connection task that owns the receiver, so nothing is taken out of the channel
meanwhile.
-/

namespace WispMQ
open KeyMap

variable (P : Protocol) (now : Nat)

/-- An iteration goes on (`inl`) or ends the loop (`inr`). -/
def flushIter (s : Session) (dropped : Nat) : (Session × Nat) ⊕ (Session × Nat) :=
  if s.isOnline && s.windowOpen then
    match s.queue with
    | [] => .inr (s, dropped)
    | pending :: rest =>
      let s := { s with queue := rest }
      if pending.message.isExpired now then .inl (s, dropped)
      else match s.nextId with
        | (none, s) => .inr ({ s with queue := pending :: s.queue }, dropped)
        | (some id, s) =>
          if s.oversized P (pending.render now id) then .inl (s, dropped + 1)
          else match s.trySend (.send (pending.render now id)) with
            | none => .inr ({ s with queue := pending :: s.queue }, dropped)
            | some s => .inl (s.record pending.qos id (pending.render now id), dropped)
  else .inr (s, dropped)

/-- The `while` loop; `none` when `fuel` iterations were not enough. -/
def flushWhile : Nat → Session → Nat → Option (Session × Nat)
  | 0, _, _ => none
  | fuel + 1, s, dropped =>
    match flushIter P now s dropped with
    | .inl (s, dropped) => flushWhile fuel s dropped
    | .inr r => some r

/-! ## The loop ends -/

namespace Session

theorem trySend_setQueue (s : Session) (q : List Pending) (item : Outgoing) :
    ({ s with queue := q } : Session).trySend item = (s.trySend item).map ({ · with queue := q }) := by
  cases ho : s.out with
  | none => simp [trySend, ho]
  | some tx => cases ht : tx.trySend item <;> simp [trySend, ho, ht]

theorem record_setQueue (s : Session) (q : List Pending) (qos : QoS) (id : Nat) (publish : Publish) :
    ({ s with queue := q } : Session).record qos id publish = { s.record qos id publish with queue := q } := by
  cases qos <;> rfl

end Session

/-- The loop on a queue, by induction on it: its iterations are those of `flushLoop`, and the counter is the
number of entries that were too large. -/
theorem flushWhile_eq_flushLoop : ∀ (q : List Pending) (s : Session) (dropped fuel : Nat), q.length < fuel →
    flushWhile P now fuel { s with queue := q } dropped =
      some ((flushLoop P now q s).1, dropped + (flushLoop P now q s).2.countP (·.2 = .oversized)) := by
  intro q
  induction q with
  | nil =>
    intro s dropped fuel hf
    obtain ⟨fuel, rfl⟩ : ∃ n, fuel = n + 1 := ⟨fuel - 1, by simp only [List.length_nil] at hf; omega⟩
    by_cases hopen : s.isOnline && s.windowOpen
    · have hopen' : ({ s with queue := [] } : Session).isOnline && ({ s with queue := [] } : Session).windowOpen := hopen
      simp [flushWhile, flushIter, flushLoop, hopen']
    · have hopen' : ¬(({ s with queue := [] } : Session).isOnline && ({ s with queue := [] } : Session).windowOpen) := hopen
      simp [flushWhile, flushIter, flushLoop, hopen']
  | cons p q ih =>
    intro s dropped fuel hf
    obtain ⟨fuel, rfl⟩ : ∃ n, fuel = n + 1 := ⟨fuel - 1, by simp only [List.length_cons] at hf; omega⟩
    have hf : q.length < fuel := by simpa using hf
    have hopen : (({ s with queue := p :: q } : Session).isOnline && ({ s with queue := p :: q } : Session).windowOpen) =
        (s.isOnline && s.windowOpen) := rfl
    unfold flushWhile flushIter flushLoop
    rw [hopen]
    by_cases ho : s.isOnline && s.windowOpen
    · simp only [ho, if_true]
      by_cases he : p.message.isExpired now
      · simp only [he, if_true]
        rw [ih s dropped fuel hf]
        simp
      · simp only [he, Bool.false_eq_true, if_false]
        have hnext : ({ s with queue := q } : Session).nextId = (s.nextId.1, { s.nextId.2 with queue := q }) := rfl
        rw [hnext]
        obtain ⟨fresh, s1⟩ := s.nextId
        cases fresh with
        | none => rfl
        | some id =>
          have hover : ({ s1 with queue := q } : Session).oversized P (p.render now id) = s1.oversized P (p.render now id) := rfl
          simp only [hover]
          by_cases hsize : s1.oversized P (p.render now id)
          · simp only [hsize, if_true]
            rw [ih s1 (dropped + 1) fuel hf]
            simp; omega
          · simp only [hsize, Bool.false_eq_true, if_false, Session.trySend_setQueue]
            cases s1.trySend (.send (p.render now id)) with
            | none => rfl
            | some s2 =>
              simp only [Option.map_some, Session.record_setQueue]
              rw [ih _ dropped fuel hf]
              simp
    · simp only [ho, Bool.false_eq_true, if_false]
      rfl

/-- `flush_queue` terminates: one iteration more than there are entries is enough. -/
theorem flushWhile_eq (s : Session) {fuel : Nat} (h : s.queue.length < fuel) :
    flushWhile P now fuel s 0 = some (flushQueue P now s) := by
  rw [flushQueue, flushFates]
  simpa using flushWhile_eq_flushLoop P now s.queue s 0 fuel h

/-! ## What an iteration does -/

namespace Session

/-- The in-flight map of a QoS; QoS 0 has none. -/
def inflightOf (s : Session) : QoS → KeyMap Nat Publish
  | .atMostOnce => ∅
  | .atLeastOnce => s.awaitingPuback
  | .exactlyOnce => s.awaitingPubrec

theorem idInUse_iff_inflightOf (s : Session) (id : Nat) :
    s.idInUse id ↔ (∃ qos, id ∈ s.inflightOf qos) ∨ id ∈ s.awaitingPubcomp := by
  have hmem : (∃ qos, id ∈ s.inflightOf qos) ↔ id ∈ s.awaitingPuback ∨ id ∈ s.awaitingPubrec := by
    constructor
    · rintro ⟨qos, h⟩
      cases qos with
      | atMostOnce => exact absurd h (AList.notMem_empty id)
      | atLeastOnce => exact .inl h
      | exactlyOnce => exact .inr h
    · rintro (h | h)
      · exact ⟨.atLeastOnce, h⟩
      · exact ⟨.exactlyOnce, h⟩
  simp [hmem, idInUse, or_assoc]

namespace Launched
variable {now id : Nat} {s s' : Session} {p : Pending}

theorem inflightOf (h : Launched now s p id s') (hp : p.qos ≠ .atMostOnce) (qos : QoS) :
    s'.inflightOf qos = if qos = p.qos then (s.inflightOf qos).insert id (p.render now id) else s.inflightOf qos := by
  obtain ⟨tx, -, -, rfl⟩ := h.sent
  cases hqos : p.qos with
  | atMostOnce => exact absurd hqos hp
  | atLeastOnce => cases qos <;> rfl
  | exactlyOnce => cases qos <;> rfl

theorem rest (h : Launched now s p id s') :
    s' = { s with
      out := s'.out, nextPacketId := s.nextId.2.nextPacketId,
      awaitingPuback := s'.awaitingPuback, awaitingPubrec := s'.awaitingPubrec } := by
  obtain ⟨tx, -, -, rfl⟩ := h.sent
  cases p.qos <;> rfl

end Launched

end Session

/-- The entries that were sent, with their packet ids. -/
def sentOf (fates : List (Pending × FlushFate)) : List (Pending × Nat) :=
  fates.filterMap fun e =>
    match e.2 with
    | .sent id => some (e.1, id)
    | _ => none

@[simp] theorem sentOf_append (fates fates' : List (Pending × FlushFate)) :
    sentOf (fates ++ fates') = sentOf fates ++ sentOf fates' :=
  List.filterMap_append ..

@[simp] theorem sentOf_sent (p : Pending) (id : Nat) : sentOf [(p, .sent id)] = [(p, id)] := rfl
@[simp] theorem sentOf_expired (p : Pending) : sentOf [(p, .expired)] = [] := rfl
@[simp] theorem sentOf_oversized (p : Pending) : sentOf [(p, .oversized)] = [] := rfl

/-- The id is on the ring and no map of `s` holds it. -/
def Session.Unused (s : Session) (id : Nat) : Prop := s.idInUse id = false ∧ 1 ≤ id ∧ id ≤ 65535

/-- The fate of an entry is the one it deserves: it has expired; it is too large, under the unused id it would have been
sent with; or it is neither. -/
def Judged (s : Session) : Pending × FlushFate → Prop
  | (p, .expired) => p.message.isExpired now = true
  | (p, .oversized) => p.message.isExpired now = false ∧ ∃ id, s.Unused id ∧ s.oversized P (p.render now id) = true
  | (p, .sent id) => p.message.isExpired now = false ∧ s.Unused id ∧ s.oversized P (p.render now id) = false

/-- From `s` to `s'`, entries of the queue have met with the given fates. -/
structure Flushed (s : Session) (fates : List (Pending × FlushFate)) (s' : Session) : Prop where
  judged : ∀ e ∈ fates, Judged P now s e
  /-- What was pushed into the channel, in queue order. -/
  pushed : s'.out = s.out.map fun tx =>
    { tx with sent := tx.sent ++ (sentOf fates).map fun e => .send (e.1.render now e.2) }
  distinct : ((sentOf fates).map Prod.snd).Nodup
  recorded : ∀ e ∈ sentOf fates, (s'.inflightOf e.1.qos).lookup e.2 = some (e.1.render now e.2)
  /-- The maps hold nothing else that is new, and have lost nothing. -/
  kept : ∀ qos id, id ∉ (sentOf fates).map Prod.snd → (s'.inflightOf qos).lookup id = (s.inflightOf qos).lookup id
  rest : s' = { s with
    out := s'.out, queue := s'.queue, nextPacketId := s'.nextPacketId,
    awaitingPuback := s'.awaitingPuback, awaitingPubrec := s'.awaitingPubrec }
  next : 1 ≤ s'.nextPacketId ∧ s'.nextPacketId ≤ 65535

namespace Flushed
variable {P now} {s s' s'' : Session} {fates : List (Pending × FlushFate)} {p : Pending} {id : Nat}

theorem refl (h : 1 ≤ s.nextPacketId ∧ s.nextPacketId ≤ 65535) : Flushed P now s [] s where
  judged := by simp
  pushed := by simp [sentOf]
  distinct := by simp [sentOf]
  recorded := by simp [sentOf]
  kept := fun _ _ _ => rfl
  rest := rfl
  next := h

theorem nextId (h : Flushed P now s fates s') : Flushed P now s fates s'.nextId.2 :=
  ⟨h.judged, h.pushed, h.distinct, h.recorded, h.kept, by rw [h.rest]; rfl, Session.nextId_range h.next⟩

theorem setQueue (h : Flushed P now s fates s') (q : List Pending) : Flushed P now s fates { s' with queue := q } :=
  ⟨h.judged, h.pushed, h.distinct, h.recorded, h.kept, by rw [h.rest], h.next⟩

/-- An entry that is not sent changes nothing. -/
theorem skip (h : Flushed P now s fates s') {fate : FlushFate} (hj : Judged P now s (p, fate))
    (hf : sentOf [(p, fate)] = []) : Flushed P now s (fates ++ [(p, fate)]) s' where
  judged := by
    intro e he
    rcases List.mem_append.1 he with he | he
    · exact h.judged e he
    · rw [List.mem_singleton.1 he]
      exact hj
  pushed := by rw [sentOf_append, hf, List.append_nil]; exact h.pushed
  distinct := by rw [sentOf_append, hf, List.append_nil]; exact h.distinct
  recorded := by rw [sentOf_append, hf, List.append_nil]; exact h.recorded
  kept := by rw [sentOf_append, hf, List.append_nil]; exact h.kept
  rest := h.rest
  next := h.next

theorem oversized_eq (h : Flushed P now s fates s') (publish : Publish) :
    s'.oversized P publish = s.oversized P publish := by
  rw [Session.oversized, Session.oversized, h.rest]

/-- An id of an entry that was sent is in use from then on. -/
theorem idInUse_of_sent (h : Flushed P now s fates s') (hid : id ∈ (sentOf fates).map Prod.snd) : s'.idInUse id := by
  obtain ⟨e, he, rfl⟩ := List.mem_map.1 hid
  rw [Session.idInUse_iff_inflightOf]
  exact .inl ⟨e.1.qos, mem_iff_lookup.2 ⟨_, h.recorded e he⟩⟩

theorem unused (h : Flushed P now s fates s') (hid : s'.nextId.1 = some id) :
    s.Unused id ∧ id ∉ (sentOf fates).map Prod.snd := by
  obtain ⟨hfree, hr⟩ := Session.nextId_fresh h.next hid
  have hnew : id ∉ (sentOf fates).map Prod.snd := by
    intro hold
    rw [h.idInUse_of_sent hold] at hfree
    cases hfree
  refine ⟨⟨?_, hr⟩, hnew⟩
  -- whatever holds `id` in `s` still does
  by_contra hused
  rw [Bool.not_eq_false, Session.idInUse_iff_inflightOf] at hused
  have hstill : s'.idInUse id := by
    rw [Session.idInUse_iff_inflightOf]
    refine hused.imp ?_ ?_
    · rintro ⟨qos, hmem⟩
      obtain ⟨v, hv⟩ := mem_iff_lookup.1 hmem
      exact ⟨qos, mem_iff_lookup.2 ⟨v, by rw [h.kept qos id hnew]; exact hv⟩⟩
    · intro hmem
      rw [h.rest]
      exact hmem
  rw [hstill] at hfree
  cases hfree

/-- An entry is sent. -/
theorem launched (h : Flushed P now s fates s') (hl : s'.Launched now p id s'') (hp : p.qos ≠ .atMostOnce)
    (he : p.message.isExpired now = false) (hsize : s'.oversized P (p.render now id) = false) :
    Flushed P now s (fates ++ [(p, .sent id)]) s'' := by
  obtain ⟨hunused, hnew⟩ := h.unused hl.fresh
  exact {
    judged := by
      intro e hmem
      rcases List.mem_append.1 hmem with hmem | hmem
      · exact h.judged e hmem
      · rw [List.mem_singleton.1 hmem]
        exact ⟨he, hunused, by rw [← h.oversized_eq]; exact hsize⟩
    pushed := by
      obtain ⟨tx, htx, -, hout⟩ := hl.out
      rw [h.pushed, Option.map_eq_some_iff] at htx
      obtain ⟨tx₀, htx₀, rfl⟩ := htx
      rw [hout, htx₀]
      simp
    distinct := by
      rw [sentOf_append, sentOf_sent, List.map_append, List.nodup_append]
      refine ⟨h.distinct, by simp, ?_⟩
      intro a ha b hb hab
      rw [List.map_singleton, List.mem_singleton] at hb
      subst hab hb
      exact hnew ha
    recorded := by
      intro e hmem
      rw [hl.inflightOf hp]
      rw [sentOf_append, sentOf_sent, List.mem_append] at hmem
      rcases hmem with hmem | hmem
      · have hne : e.2 ≠ id := by
          rintro rfl
          exact hnew (List.mem_map_of_mem hmem)
        split
        · rw [AList.lookup_insert_ne hne]
          exact h.recorded e hmem
        · exact h.recorded e hmem
      · rw [List.mem_singleton.1 hmem, if_pos rfl, AList.lookup_insert]
    kept := by
      intro qos k hk
      rw [sentOf_append, sentOf_sent, List.map_append, List.mem_append, not_or] at hk
      have hne : k ≠ id := by simpa using hk.2
      rw [hl.inflightOf hp]
      split
      · rw [AList.lookup_insert_ne hne]
        exact h.kept qos k hk.1
      · exact h.kept qos k hk.1
    rest := by
      rw [hl.rest, h.rest]
    next := by
      rw [hl.rest]
      exact Session.nextId_range h.next }

end Flushed

/-! ## Why the loop stops -/

/-- The reasons to leave entries behind. -/
inductive FlushStopped (s : Session) : Prop
  | offline (h : s.isOnline = false)
  | windowClosed (h : s.windowOpen = false)
  | exhausted (h : ∀ id, 1 ≤ id ∧ id ≤ 65535 → s.idInUse id)
  /-- The channel did not take the entry that is now at the front. -/
  | refused {p : Pending} {rest : List Pending} {id : Nat} (hq : s.queue = p :: rest) (hid : s.Unused id)
      (h : s.trySend (.send (p.render now id)) = none)

theorem flushLoop_stopped : ∀ (q : List Pending) (s : Session), 1 ≤ s.nextPacketId ∧ s.nextPacketId ≤ 65535 →
    (flushLoop P now q s).1.queue ≠ [] → FlushStopped now (flushLoop P now q s).1 := by
  intro q
  induction q with
  | nil => intro s _ hne; exact absurd rfl hne
  | cons p q ih =>
    intro s hnext
    unfold flushLoop
    split
    · split
      · exact ih s hnext
      · split
        · rename_i s1 hs1
          intro _
          have hid : s.nextId.1 = none := by rw [hs1]
          have h1 : s.nextId.2 = s1 := by rw [hs1]
          refine .exhausted fun id hr => ?_
          rw [← h1]
          exact Session.nextId_none hnext hid hr
        · rename_i id s1 hs1
          have hid : s.nextId.1 = some id := by rw [hs1]
          have h1 : s.nextId.2 = s1 := by rw [hs1]
          have hnext1 : 1 ≤ s1.nextPacketId ∧ s1.nextPacketId ≤ 65535 := h1 ▸ Session.nextId_range hnext
          split
          · exact ih s1 hnext1
          · split
            · rename_i hfull
              intro _
              have hunused : s1.Unused id := h1 ▸ Session.nextId_fresh hnext hid
              refine .refused rfl hunused ?_
              rw [Session.trySend_setQueue, hfull, Option.map_none]
            · rename_i s2 hs2
              refine ih _ ?_
              obtain ⟨tx, -, -, rfl⟩ := Session.trySend_some hs2
              cases p.qos <;> exact hnext1
    · rename_i hclosed
      intro _
      rw [Bool.and_eq_true, not_and_or, Bool.not_eq_true, Bool.not_eq_true] at hclosed
      rcases hclosed with hoff | hfull
      · exact .offline hoff
      · exact .windowClosed hfull

/-- `flush_queue` is exact: the loop ends; the entries it removes are a prefix of the queue, of which each has met with
its fate; the ones that were sent are in the channel, in order, under distinct ids that were unused, and recorded in the map
of their QoS; the number returned is that of the oversized ones; and entries are left behind for one of four reasons. -/
theorem flushQueue_exact (s : Session) (hq : ∀ p ∈ s.queue, p.qos ≠ .atMostOnce)
    (hnext : 1 ≤ s.nextPacketId ∧ s.nextPacketId ≤ 65535) :
    (∀ fuel, s.queue.length < fuel → flushWhile P now fuel s 0 = some (flushQueue P now s)) ∧
    ∃ fates : List (Pending × FlushFate),
      s.queue = fates.map Prod.fst ++ (flushQueue P now s).1.queue ∧
      Flushed P now s fates (flushQueue P now s).1 ∧
      (flushQueue P now s).2 = fates.countP (·.2 = .oversized) ∧
      ((flushQueue P now s).1.queue ≠ [] → FlushStopped now (flushQueue P now s).1) := by
  obtain ⟨q', s', he, hsplit, hrun⟩ := flushLoop_fates_rule P now
    (fun q s' fates => s.queue = fates.map Prod.fst ++ q ∧ Flushed P now s fates s')
    (by
      rintro q s' fates ⟨hsplit, h⟩
      exact ⟨hsplit, h.nextId⟩)
    (by
      rintro p q s' fates hexp ⟨hsplit, h⟩
      exact ⟨by simpa using hsplit, h.skip hexp rfl⟩)
    (by
      rintro p q s' fates id hexp hid hsize ⟨hsplit, h⟩
      refine ⟨by simpa using hsplit, h.nextId.skip ⟨hexp, id, (h.unused hid).1, ?_⟩ rfl⟩
      rw [← h.oversized_eq]
      exact hsize)
    (by
      rintro p q s' fates id s'' hexp hsize hl ⟨hsplit, h⟩
      refine ⟨by simpa using hsplit, h.launched hl (hq p ?_) hexp hsize⟩
      rw [hsplit]
      simp)
    s.queue s [] ⟨rfl, .refl hnext⟩
  refine ⟨fun fuel hf => flushWhile_eq P now s hf, flushFates P now s, ?_, ?_, rfl, flushLoop_stopped P now _ s hnext⟩
  · rw [flushQueue, he]
    exact hsplit
  · rw [flushQueue, he]
    exact hrun.setQueue q'

/-- An entry that has expired before two that have not, and a channel with room for one. -/
def waiting : Session :=
  let entry (payload : Bytes) (expiresAt : Option Nat) : Pending :=
    ⟨{ topic := "t", payload, qos := .atLeastOnce, retain := false, expiresAt }, .atLeastOnce, false, []⟩
  { Session.new "c" 0 with out := some { capacity := 1 }, queue := [entry [1] (some 3), entry [2] none, entry [3] none] }

theorem flushQueue_exact_waiting : ∃ fates : List (Pending × FlushFate),
    waiting.queue = fates.map Prod.fst ++ (flushQueue Protocol.reference 5 waiting).1.queue ∧
    Flushed Protocol.reference 5 waiting fates (flushQueue Protocol.reference 5 waiting).1 := by
  obtain ⟨-, fates, hsplit, hrun, -⟩ := flushQueue_exact Protocol.reference 5 waiting (by decide) (by decide)
  exact ⟨fates, hsplit, hrun⟩

end WispMQ
