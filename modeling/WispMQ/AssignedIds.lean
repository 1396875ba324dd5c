import WispMQ.Frame
import WispMQ.Epochs
/-!
# Assigned client ids

`handle_connect` gives a CONNECT without a client id the id `auto-<n>-<now>` from a counter and the clock, without a look at
the sessions (connect.rs:70-74).

| here | there |
| --- | --- |
| `autoId`             | the id made of the counter and the clock (connect.rs:74) |
| `World.assignedIds`  | the ids assigned so far: of connections still on their way in, and of accepted ones |
| `World.UsesAssigned` | the step assigns the id, or binds the connection to it |
| `World.Foreign`      | a session under the id that a client asked for by name, or the database held |

No id is assigned twice (`run_issued`), so an assigned id meets a session exactly if that one is foreign (`uses_assigned_iff`).
Nothing keeps a client from naming the id that comes next: the check of the reserved ids leaves `auto-` out (connect.rs:85).
-/

namespace WispMQ
open KeyMap

/-- `format!("auto-{n}-{}", now_unix())`. -/
def autoId (n now : Nat) : String := "auto-" ++ toString n ++ "-" ++ toString now

theorem toList_autoId (n now : Nat) :
    (autoId n now).toList = "auto-".toList ++ (Nat.toDigits 10 n ++ '-' :: Nat.toDigits 10 now) := by
  simp [autoId, Nat.toString_eq_repr]

/-- The counter can be read off the id. -/
theorem autoId_counter {n n' now now' : Nat} (h : autoId n now = autoId n' now') : n = n' := by
  have hdigits : ∀ n now, (Nat.toDigits 10 n ++ '-' :: Nat.toDigits 10 now).takeWhile Char.isDigit = Nat.toDigits 10 n := by
    intro n now
    rw [List.takeWhile_append_of_pos fun _ hc => Nat.isDigit_of_mem_toDigits (by omega) (by omega) hc,
      List.takeWhile_cons_of_neg (by decide), List.append_nil]
  have htail := List.append_cancel_left (by rw [← toList_autoId, ← toList_autoId, h] :
    "auto-".toList ++ (Nat.toDigits 10 n ++ '-' :: Nat.toDigits 10 now) =
      "auto-".toList ++ (Nat.toDigits 10 n' ++ '-' :: Nat.toDigits 10 now'))
  have hsame : Nat.toDigits 10 n = Nat.toDigits 10 n' := by rw [← hdigits n now, htail, hdigits]
  rw [← Nat.ofDigitChars_ten_toDigits (n := n), hsame, Nat.ofDigitChars_ten_toDigits]

/-- A connection on its way in, under an id that was assigned to it. -/
def Task.assignedId : Task → Option String
  | .connect req => if req.assigned then some req.clientId else none
  | _ => none

/-- A connection that was accepted under an id that was assigned to it. -/
def Effect.assignedId : Effect → Option String
  | .accepted a => a.connack.assignedClientIdentifier
  | _ => none

namespace World
open Broker
variable {P : Protocol} {w : World} {l : Label} {cid : String}

/-- The ids assigned so far. -/
def assignedIds (w : World) (es : List Effect) : List String := w.tasks.filterMap Task.assignedId ++ es.filterMap Effect.assignedId

/-! ## One step -/

theorem no_assigned_tasks {ts : List Task} (h : ∀ req, .connect req ∉ ts) : ts.filterMap Task.assignedId = [] := by
  refine List.filterMap_eq_nil_iff.2 fun t ht => ?_
  cases t with
  | connect req => exact absurd ht (h req)
  | _ => rfl

theorem no_assigned_effects {es : List Effect} (h : ∀ a, .accepted a ∉ es) : es.filterMap Effect.assignedId = [] := by
  refine List.filterMap_eq_nil_iff.2 fun e he => ?_
  cases e with
  | accepted a => exact absurd he (h a)
  | _ => rfl

theorem mem_assigned {ts : List Task} {req : ConnectRequest} (h : .connect req ∈ ts) (ha : req.assigned = true) :
    req.clientId ∈ ts.filterMap Task.assignedId :=
  List.mem_filterMap.2 ⟨_, h, by simp [Task.assignedId, ha]⟩

theorem finishConnect_assigned (now : Nat) (ord : Orders) (b : Broker) (req : ConnectRequest) :
    (finishConnect P now ord b req).effects.filterMap Effect.assignedId = (Task.connect req).assignedId.toList := by
  simp only [finishConnect, List.filterMap_append, List.filterMap_cons, List.filterMap_nil]
  rw [no_assigned_effects, @no_assigned_effects (List.map _ _)]
  · cases h : req.assigned <;> simp [Effect.assignedId, Task.assignedId, connack, h]
  · simp
  · unfold takeover
    split
    · split <;> simp
    · simp

/-- What a task leaves behind, and lets the outside see, is the id it held. -/
theorem runTask_assigned {i : Nat} {t : Task} (hsel : w.selected (.task i) = some t) (hin : l.input = .task i) :
    (runTask P l.now l.ord w.broker t).tasks.filterMap Task.assignedId = [] ∧
      (runTask P l.now l.ord w.broker t).effects.filterMap Effect.assignedId = t.assignedId.toList := by
  have hsel' : w.selected l.input = some t := by rw [hin, hsel]
  refine ⟨no_assigned_tasks fun req hreq => ?_, ?_⟩
  · obtain ⟨c, identity, hcall, -⟩ := (runTask_spawned hsel' hreq).called
    rw [hin] at hcall
    cases hcall
  · by_cases ht : ∃ req, t = .connect req
    · obtain ⟨req, rfl⟩ := ht
      exact finishConnect_assigned ..
    · have hnone : t.assignedId = none := by
        cases t with
        | connect req => exact absurd ⟨req, rfl⟩ ht
        | _ => rfl
      rw [hnone, Option.toList_none]
      refine no_assigned_effects fun a ha => ?_
      cases runTask_emits hsel' ha with
      | accepted hreq => exact ht ⟨_, Option.some.inj (hsel'.symm.trans hreq)⟩

theorem call_not_accepted {c : Call} (hin : l.input = .call c) (a : Accepted) : .accepted a ∉ (step P w l).2 := by
  intro ha
  obtain ⟨req, hsel, -⟩ := step_accepted ha
  rw [hin] at hsel
  cases hsel

/-- The id a CONNECT is given, if it gets that far. -/
theorem startConnect_assigned {connect : Connect} {identity : Option String} (now : Nat) (b : Broker) :
    let o := startConnect P now b connect {} identity
    (o.tasks.filterMap Task.assignedId = [] ∧ o.broker.autoIdCounter = b.autoIdCounter) ∨
      (o.tasks.filterMap Task.assignedId = [autoId b.autoIdCounter now] ∧ o.broker.autoIdCounter = b.autoIdCounter + 1) := by
  rcases startConnect_cases (P := P) now b connect {} identity with ⟨rc, h⟩ | ⟨_, _, -, -, -, ⟨-, h⟩ | ⟨-, -, h⟩⟩ <;> rw [h]
  · exact .inl ⟨rfl, rfl⟩
  · exact .inr ⟨rfl, rfl⟩
  · exact .inl ⟨rfl, rfl⟩

/-- A CONNECT without a client id is given one. -/
theorem startConnect_anonymous {connect : Connect} {identity : Option String} {now : Nat} {b : Broker} {req : ConnectRequest}
    (hid : connect.clientId = "") (ht : .connect req ∈ (startConnect P now b connect {} identity).tasks) :
    req.assigned = true ∧ req.clientId = autoId b.autoIdCounter now := by
  rcases startConnect_cases (P := P) now b connect {} identity with
    ⟨rc, h⟩ | ⟨_, _, -, -, -, ⟨-, h⟩ | ⟨hne, -⟩⟩
  · rw [h] at ht
    cases ht
  · rw [h] at ht
    cases List.mem_singleton.1 ht
    exact ⟨rfl, rfl⟩
  · exact absurd hid hne

/-- A step keeps the assigned ids, but for one it may add, and count. -/
theorem step_assignedIds (P : Protocol) (w : World) (l : Label) (es : List Effect) :
    ∃ ids, (assignedIds (step P w l).1 (es ++ (step P w l).2)).Perm (ids ++ assignedIds w es) ∧
      (ids = [] ∧ (step P w l).1.broker.autoIdCounter = w.broker.autoIdCounter ∨
        ids = [autoId w.broker.autoIdCounter l.now] ∧
          (step P w l).1.broker.autoIdCounter = w.broker.autoIdCounter + 1) := by
  have hcounter : (∀ connect identity, l.input ≠ .call (.connect connect identity)) →
      (step P w l).1.broker.autoIdCounter = w.broker.autoIdCounter := fun h => congrArg Prod.fst (step_admission h)
  cases hin : l.input with
  | call c =>
    have hnone := no_assigned_effects fun a => call_not_accepted (P := P) (w := w) hin a
    have htasks : (step P w l).1.tasks = w.tasks ++ (enter P w.clock l.now l.ord w.broker c).tasks := by
      simp only [step, hin, absorb]
    refine ⟨(enter P w.clock l.now l.ord w.broker c).tasks.filterMap Task.assignedId, ?_, ?_⟩
    · simp only [assignedIds, htasks, List.filterMap_append, hnone, List.append_nil]
      exact (List.perm_append_comm.append_right _).trans (by rw [List.append_assoc])
    · by_cases hconnect : ∃ connect identity, c = .connect connect identity
      · obtain ⟨connect, identity, rfl⟩ := hconnect
        simpa only [step, hin, absorb, enter] using @startConnect_assigned P connect identity l.now w.broker
      · simp only [not_exists] at hconnect
        refine .inl ⟨no_assigned_tasks fun req hreq => ?_, hcounter fun connect identity h => ?_⟩
        · obtain ⟨connect, identity, hcall, -⟩ := (enter_spawned hin hreq).called
          rw [hin] at hcall
          exact hconnect connect identity (Input.call.inj hcall)
        · rw [hin] at h
          exact hconnect connect identity (Input.call.inj h)
  | task i =>
    refine ⟨[], ?_, .inl ⟨rfl, hcounter fun connect identity h => by rw [hin] at h; cases h⟩⟩
    cases hsel : w.selected (.task i) with
    | none => simp [step, hin, hsel]
    | some t =>
      obtain ⟨htasks, heffects⟩ := runTask_assigned (P := P) hsel hin
      have hperm : (t :: w.tasks.eraseIdx i).Perm w.tasks := by
        obtain ⟨hi, rfl⟩ := List.getElem?_eq_some_iff.1 (Option.eq_some_of_filter_eq_some hsel)
        exact List.getElem_cons_eraseIdx_perm hi
      have hkeep := (hperm.filterMap Task.assignedId).append_right (es.filterMap Effect.assignedId)
      simp only [assignedIds, step, hin, hsel, absorb, List.filterMap_append, htasks, heffects, List.append_nil,
        List.nil_append]
      refine .trans ?_ hkeep
      cases h : t.assignedId with
      | none => simp [h]
      | some cid =>
        simp only [Option.toList_some, List.filterMap_cons_some h, ← List.append_assoc]
        exact List.perm_append_comm
  | sleep secs =>
    exact ⟨[], by simp [step, hin, assignedIds], .inl ⟨rfl, hcounter fun _ _ h => by rw [hin] at h; cases h⟩⟩
  | recv c e =>
    exact ⟨[], by simp [step, hin, assignedIds], .inl ⟨rfl, hcounter fun _ _ h => by rw [hin] at h; cases h⟩⟩
  | hangup c e =>
    exact ⟨[], by simp [step, hin, assignedIds], .inl ⟨rfl, hcounter fun _ _ h => by rw [hin] at h; cases h⟩⟩

/-! ## Along a run -/

/-- No id is assigned twice, and the counter is past all of them. -/
structure Issued (w : World) (es : List Effect) : Prop where
  nodup : (w.assignedIds es).Nodup
  below : ∀ cid ∈ w.assignedIds es, ∃ n now, cid = autoId n now ∧ n < w.broker.autoIdCounter

theorem Issued.fresh {es : List Effect} (h : w.Issued es) (now : Nat) : autoId w.broker.autoIdCounter now ∉ w.assignedIds es := by
  intro hmem
  obtain ⟨n, now', he, hlt⟩ := h.below _ hmem
  exact absurd (autoId_counter he) (by omega)

theorem step_issued {es : List Effect} (l : Label) (h : w.Issued es) :
    (step P w l).1.Issued (es ++ (step P w l).2) := by
  obtain ⟨ids, hperm, ⟨rfl, hn⟩ | ⟨rfl, hn⟩⟩ := step_assignedIds P w l es
  · exact ⟨hperm.nodup_iff.2 h.nodup, fun cid hcid => hn ▸ h.below cid (hperm.mem_iff.1 hcid)⟩
  · refine ⟨hperm.nodup_iff.2 (List.nodup_cons.2 ⟨h.fresh l.now, h.nodup⟩), fun cid hcid => ?_⟩
    rw [hn]
    rcases List.mem_cons.1 (hperm.mem_iff.1 hcid) with rfl | hcid
    · exact ⟨_, _, rfl, Nat.lt_succ_self _⟩
    · obtain ⟨n, now, he, hlt⟩ := h.below cid hcid
      exact ⟨n, now, he, Nat.lt_succ_of_lt hlt⟩

/-- The step assigns the id to a CONNECT without one, or binds the connection to it. -/
inductive UsesAssigned (P : Protocol) (w : World) (l : Label) : String → Prop
  | assigned {connect : Connect} {identity : Option String} {req : ConnectRequest}
      (hin : l.input = .call (.connect connect identity)) (hid : connect.clientId = "")
      (ht : .connect req ∈ (startConnect P l.now w.broker connect {} identity).tasks) : UsesAssigned P w l req.clientId
  | bound {req : ConnectRequest} (hsel : w.selected l.input = some (.connect req)) (ha : req.assigned = true) :
      UsesAssigned P w l req.clientId

namespace UsesAssigned

/-- No connection was accepted under the id before. -/
theorem unused {es : List Effect} (h : w.Issued es) (hu : UsesAssigned P w l cid) :
    cid ∉ es.filterMap Effect.assignedId := by
  intro hmem
  cases hu with
  | assigned hin hid ht =>
    rw [(startConnect_anonymous hid ht).2] at hmem
    exact h.fresh l.now (List.mem_append_right _ hmem)
  | bound hsel ha => exact List.disjoint_of_nodup_append h.nodup (mem_assigned (selected_mem hsel) ha) hmem

theorem not_reserved (hcon : ∀ req, w.selected l.input = some (.connect req) → reservedClientId req.clientId = false)
    (hu : UsesAssigned P w l cid) : reservedClientId cid = false := by
  cases hu with
  | assigned hin hid ht =>
    obtain ⟨c, -, -, h⟩ := (enter_spawned (w := w) (l := l) hin ht).called
    exact h.clientId
  | bound hsel ha => exact hcon _ hsel

end UsesAssigned

/-- The step finds no session under the id, tells its client so, and leaves every session and connection there is alone. -/
structure TakesNothing (P : Protocol) (w : World) (l : Label) (cid : String) : Prop where
  absent : w.broker.sessions.lookup cid = none
  notPresent : ∀ a, .accepted a ∈ (step P w l).2 → a.connack.sessionPresent = false
  untouched : ∀ c s, w.broker.sessions.lookup c = some s → (step P w l).1.broker.sessions.lookup c = some s
  attached : ∀ c epoch tx, .detached c epoch tx ∉ (step P w l).2

theorem takesNothing_of_absent (hu : UsesAssigned P w l cid) (h : w.broker.sessions.lookup cid = none) :
    TakesNothing P w l cid := by
  cases hu with
  | @assigned connect identity req hin hid ht =>
    refine ⟨h, fun a ha => absurd ha (call_not_accepted hin a), fun c s hs => ?_, fun c epoch tx hd => ?_⟩
    · obtain ⟨n, hn⟩ := startConnect_frame (P := P) l.now w.broker connect {} identity
      simpa only [step, hin, absorb, enter, hn] using hs
    · rcases startConnect_cases (P := P) l.now w.broker connect {} identity with ⟨rc, he⟩ | ⟨_, _, -, -, -, ⟨-, he⟩ | ⟨-, -, he⟩⟩ <;>
        simp [step, hin, absorb, enter, he, refuse] at hd
  | @bound req hsel ha =>
    obtain ⟨hbroker, heffects⟩ := step_of_selected (P := P) hsel
    have hclaimed : (w.broker.claimed req).2 = false := by
      simp only [claimed, h, ite_self]
    refine ⟨h, fun a hacc => ?_, fun c s hs => ?_, fun c epoch tx hd => ?_⟩
    · obtain ⟨req', hsel', rfl⟩ := step_accepted hacc
      cases hsel.symm.trans hsel'
      exact hclaimed
    · have hne : c ≠ req.clientId := by
        rintro rfl
        rw [h] at hs
        cases hs
      rw [hbroker]
      exact (AList.lookup_insert_ne hne).trans hs
    · obtain ⟨s, tx₀, hs, -, ho, -⟩ := step_letGo hd
      rw [heffects] at hd
      simp [runTask, finishConnect, h] at hd

/-- The run `ls` from `w` has a session under the id `cid` that the start-up loaded, or that a CONNECT which named the id
itself began. -/
def Foreign (P : Protocol) (w : World) (ls : List Label) (cid : String) : Prop :=
  (∀ q r, ls = q ++ r → ((run P w q).1.broker.sessions.lookup cid).isSome) ∨
    ∃ pre l post req, ls = pre ++ l :: post ∧ (run P w pre).1.selected l.input = some (.connect req) ∧ req.clientId = cid ∧
      req.assigned = false ∧ (run P w pre).1.broker.sessions.lookup cid = none ∧
      ∀ q r, post = q ++ r → ((run P w (pre ++ l :: q)).1.broker.sessions.lookup cid).isSome

theorem Foreign.present {ls : List Label} (h : Foreign P w ls cid) : ((run P w ls).1.broker.sessions.lookup cid).isSome := by
  rcases h with h | ⟨pre, l, post, -, rfl, -, -, -, -, h⟩
  · exact h ls [] (by simp)
  · exact h post [] (by simp)

/-- An id that is assigned in the run `ls` from `w` is that of no session, from its assignment until a connection is bound
to it. -/
def AssignsFresh (P : Protocol) (w : World) (ls : List Label) : Prop :=
  ∀ pre l post, ls = pre ++ l :: post → ∀ cid, UsesAssigned P (run P w pre).1 l cid → TakesNothing P (run P w pre).1 l cid

/-- No id that is assigned is that of a foreign session when it is used. -/
def NoneForeign (P : Protocol) (w : World) (ls : List Label) : Prop :=
  ∀ pre l post, ls = pre ++ l :: post → ∀ cid, UsesAssigned P (run P w pre).1 l cid → ¬Foreign P w pre cid

section Boot
variable {now : Nat} {cfg : Config} {db : Db} {acl : Acl} {auth : Option Credentials} {ls : List Label}

theorem run_issued (P : Protocol) (now : Nat) (cfg : Config) (db : Db) (acl : Acl) (auth : Option Credentials)
    (ls : List Label) :
    (run P (boot P now cfg db acl auth) ls).1.Issued (run P (boot P now cfg db acl auth) ls).2 :=
  @Machine.run_invariant _ _ _ (step P) (fun _ _ => True) Issued _ ⟨by simp [assignedIds, boot], by simp [assignedIds, boot]⟩
    (fun _ _ l h _ => step_issued l h) ls (.of_forall _ (fun _ _ => trivial) _ _)

/-- A session under an id that was not accepted as an assigned one is foreign. -/
theorem foreign_of_present (hs : ((run P (boot P now cfg db acl auth) ls).1.broker.sessions.lookup cid).isSome)
    (hres : reservedClientId cid = false)
    (hno : cid ∉ (run P (boot P now cfg db acl auth) ls).2.filterMap Effect.assignedId) :
    Foreign P (boot P now cfg db acl auth) ls cid := by
  rcases Machine.exists_onset (step P) (fun w => (w.broker.sessions.lookup cid).isSome) ls _ hs with
    hall | ⟨pre, l, post, rfl, hnot, hall⟩
  · exact .inl hall
  · rw [Bool.not_eq_true, Option.isSome_eq_false_iff, Option.isNone_iff_eq_none] at hnot
    obtain ⟨s', hs'⟩ := Option.isSome_iff_exists.1 (hall [] post rfl)
    rcases (step_change P _ l).bound hs' with ⟨s, hs, -⟩ | ⟨req, hsel, rfl, -⟩ | ⟨name, -, rfl, -⟩
    · rw [hnot] at hs
      cases hs
    · refine .inr ⟨pre, l, post, req, rfl, hsel, rfl, ?_, hnot, fun q r hqr => ?_⟩
      · by_contra ha
        rw [Bool.not_eq_false] at ha
        -- the connection it began with was accepted under the assigned id
        have hacc := Machine.emitted_of_step (step P) (s := boot P now cfg db acl auth) (accepts_of_connect hsel) post
        exact hno (List.mem_filterMap.2 ⟨_, hacc, by simp [Effect.assignedId, connack, ha]⟩)
      · rw [run_append]
        exact hall q r hqr
    · exact absurd rfl (ne_bridgeClient hres name)

/-- **Assigned client ids**: in every run, they are fresh if and only if none is the id of a foreign session when it is
used. -/
theorem assigned_fresh_iff (P : Protocol) (now : Nat) (cfg : Config) (db : Db) (acl : Acl) (auth : Option Credentials)
    (ls : List Label) :
    AssignsFresh P (boot P now cfg db acl auth) ls ↔ NoneForeign P (boot P now cfg db acl auth) ls := by
  constructor
  · intro hfresh pre l post hsplit cid hu hforeign
    have hpresent := hforeign.present
    rw [(hfresh pre l post hsplit cid hu).absent] at hpresent
    cases hpresent
  · intro hnone pre l post hsplit cid hu
    refine takesNothing_of_absent hu ?_
    by_contra hs
    refine hnone pre l post hsplit cid hu (foreign_of_present (Option.isSome_iff_ne_none.2 hs) ?_ ?_)
    · exact hu.not_reserved fun req h => (run_connect h).2
    · exact hu.unused (run_issued P now cfg db acl auth pre)

end Boot

/-- A client names the id that comes next. -/
def namesNext : List Label := connecting { clientId := "auto-1-0", cleanStart := true }

def withoutId : Connect := { clientId := "", cleanStart := true }

/-- A CONNECT without a client id is given that of the client that foresaw it. -/
theorem assigned_foreseen : ¬AssignsFresh .reference empty (namesNext ++ [{ input := .call (.connect withoutId none) }]) := by
  intro h
  have hu : UsesAssigned .reference (run .reference empty namesNext).1 { input := .call (.connect withoutId none) }
      "auto-1-0" := by
    refine @UsesAssigned.assigned _ _ _ withoutId none ⟨withoutId, .v5, none, "auto-1-0", true, {}⟩ rfl rfl ?_
    decide +kernel
  have hthere : ((run .reference empty namesNext).1.broker.sessions.lookup "auto-1-0").isSome = true := by decide +kernel
  rw [(h namesNext _ [] rfl "auto-1-0" hu).absent] at hthere
  cases hthere

end World

end WispMQ
