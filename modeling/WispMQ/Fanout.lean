import WispMQ.Routing
/-!
# What `route` delivers

`route` is one pass over the sessions and one over the shared groups the first has collected (routing.rs:14-125). Its result is
stated here without the passes: `takers` are the subscriptions that entitle a client to a copy of its own, `IsMember` says who
is in a shared group. `Fanout` is what a call of `route` does: every client with a taker gets the copy `IsOrdinary` describes,
and each group has one member served.

The iteration order of the sessions decides which member of a group is served, and nothing else (`route_exact`).
-/

namespace WispMQ
open KeyMap

namespace Broker

/-- QoS, RETAIN and subscription identifiers of a copy. -/
abbrev Copy := QoS × Bool × List Nat

variable (P : Protocol)

/-- The ordinary subscriptions that take part in routing `m`. -/
def takers (publisher : Option String) (m : Message) (cid : String) (subs : List Subscription) : List Subscription :=
  subs.filter fun sub => sub.shareName.isNone && eligible P publisher m cid sub

/-- The copy of `m` for a client with these takers. -/
structure IsOrdinary (m : Message) (takers : List Subscription) (d : Copy) : Prop where
  qos_mem : ∃ sub ∈ takers, d.1 = m.qos.min sub.qos
  qos_max : ∀ sub ∈ takers, (m.qos.min sub.qos).asU8 ≤ d.1.asU8
  retain : d.2.1 = true ↔ m.retain = true ∧ ∃ sub ∈ takers, sub.retainAsPublished = true
  subIds : d.2.2 = takers.filterMap (·.subscriptionIdentifier)

/-- The client's subscription is in the group and takes part in routing `m`. -/
structure IsMember (b : Broker) (publisher : Option String) (m : Message) (group : String × String) (cid : String)
    (sub : Subscription) : Prop where
  held : sub ∈ b.subsOf cid
  share : sub.shareName = some group.1
  filter : sub.filter = group.2
  eligible : eligible P publisher m cid sub = true

/-- What `route` does with `m`: `copy` are the ordinary copies, `picks` the members served, group by group. -/
structure Fanout (now : Nat) (b : Broker) (publisher : Option String) (m : Message) (copy : String → Option Copy)
    (picks : List ((String × String) × Candidate)) (r : Broker × Bool) : Prop where
  once : (picks.map Prod.fst).Nodup
  member : ∀ p ∈ picks, ∃ sub, IsMember P b publisher m p.1 p.2.clientId sub ∧ p.2 = candidate m p.2.clientId sub
  served : ∀ group cid sub, IsMember P b publisher m group cid sub → group ∈ picks.map Prod.fst
  sessions : ∀ cid, r.1.sessions.lookup cid = (b.sessions.lookup cid).map fun s =>
    (s.applyAll P ((copy cid).toList.map (deliveryOp now m b.config.maxQueuedMessages) ++
      (picks.filter fun p => p.2.clientId = cid).map fun p => chosenOp now m b.config.maxQueuedMessages p.2)).1
  cursors : ∀ group, r.1.sharedRr.lookup group =
    if group ∈ picks.map Prod.fst then some (((b.sharedRr.lookup group).getD 0 + 1) % 2 ^ 64) else b.sharedRr.lookup group
  /-- Nothing else changes but two counters. -/
  frame : r.1 = { b with sessions := r.1.sessions, sharedRr := r.1.sharedRr, metrics := r.1.metrics }
  result : r.2 = true ↔ (∃ cid, (copy cid).isSome) ∨ picks ≠ []

variable {P}

/-! ## The ordinary copies -/

section Scan
variable (publisher : Option String) (m : Message) (cid : String)

/-- What the loop over the subscriptions knows once it has met the takers `done`. -/
structure Scanned (m : Message) (done : List Subscription) (acc : Scan) : Prop where
  untaken : acc.best = none → done = []
  qos : ∀ q, acc.best = some q →
    (∃ sub ∈ done, q = m.qos.min sub.qos) ∧ ∀ sub ∈ done, (m.qos.min sub.qos).asU8 ≤ q.asU8
  subIds : acc.subIds = done.filterMap (·.subscriptionIdentifier)
  retainFlag : acc.retainFlag = true ↔ ∃ sub ∈ done, sub.retainAsPublished = true

/-- The better of the QoS so far and that of one more taker. -/
theorem better_qos {best : Option QoS} {eff q : QoS}
    (hq : some (match best with | some b => if b.asU8 ≥ eff.asU8 then b else eff | none => eff) = some q) :
    (q = eff ∨ best = some q) ∧ eff.asU8 ≤ q.asU8 ∧ ∀ b, best = some b → b.asU8 ≤ q.asU8 := by
  cases best with
  | none =>
    cases hq
    exact ⟨.inl rfl, le_refl _, fun b hb => by cases hb⟩
  | some b =>
    simp only [Option.some.injEq] at hq
    split at hq
    · rename_i hge
      subst hq
      exact ⟨.inr rfl, hge, fun b' hb => by cases hb; exact le_refl _⟩
    · rename_i hlt
      subst hq
      refine ⟨.inl rfl, le_refl _, fun b' hb => ?_⟩
      cases hb
      omega

theorem Scanned.step {done : List Subscription} {acc : Scan} (h : Scanned m done acc) (sub : Subscription) :
    Scanned m (done ++ takers P publisher m cid [sub]) (scanSub P publisher m cid acc sub) := by
  unfold scanSub takers
  cases he : eligible P publisher m cid sub with
  | false => simpa [he] using h
  | true =>
    cases hs : sub.shareName with
    | some share => simpa [he, hs] using ⟨h.untaken, h.qos, h.subIds, h.retainFlag⟩
    | none =>
      simp only [Bool.not_true, Bool.false_eq_true, if_false, List.filter_cons, List.filter_nil, hs, he,
        Option.isNone_none, Bool.and_self, if_true]
      refine ⟨fun hn => (nomatch hn), fun q hq => ?_, ?_, ?_⟩
      · obtain ⟨hwhich, hnew, hold⟩ := better_qos hq
        refine ⟨?_, fun sub' hsub' => ?_⟩
        · rcases hwhich with rfl | hbest
          · exact ⟨sub, by simp, rfl⟩
          · obtain ⟨sub', hsub', heq⟩ := (h.qos q hbest).1
            exact ⟨sub', by simp [hsub'], heq⟩
        · rcases List.mem_append.1 hsub' with hsub' | hsub'
          · cases hbest : acc.best with
            | none =>
              rw [h.untaken hbest] at hsub'
              cases hsub'
            | some b => exact ((h.qos b hbest).2 sub' hsub').trans (hold b hbest)
          · rw [List.mem_singleton.1 hsub']
            exact hnew
      · rw [List.filterMap_append, h.subIds]
        cases hid : sub.subscriptionIdentifier <;> simp [hid]
      · simp only [Bool.or_eq_true, h.retainFlag, List.mem_append, List.mem_singleton, or_and_right, exists_or,
          exists_eq_left]

theorem Scanned.foldl : ∀ (subs : List Subscription) {done : List Subscription} {acc : Scan}, Scanned m done acc →
    Scanned m (done ++ takers P publisher m cid subs) (subs.foldl (scanSub P publisher m cid) acc)
  | [], done, acc, h => by simpa [takers] using h
  | sub :: subs, done, acc, h => by
    have hrest := Scanned.foldl subs (h.step (P := P) publisher m cid sub)
    rw [List.append_assoc] at hrest
    rw [show takers P publisher m cid (sub :: subs) = takers P publisher m cid [sub] ++ takers P publisher m cid subs from
      List.filter_append [sub] subs]
    exact hrest

variable {publisher m cid}

/-- The ordinary copy of a client, from its takers. -/
theorem ordinary_isOrdinary {subs : List Subscription} {d : Copy} (h : ordinary P publisher m cid subs = some d) :
    IsOrdinary m (takers P publisher m cid subs) d := by
  have hscan : Scanned m (takers P publisher m cid subs) (subs.foldl (scanSub P publisher m cid) { shared := ∅ }) :=
    Scanned.foldl (P := P) publisher m cid subs ⟨fun _ => rfl, by simp, rfl, by simp⟩
  obtain ⟨q, hq, rfl⟩ := Option.map_eq_some_iff.1 h
  obtain ⟨hmem, hmax⟩ := hscan.qos q hq
  refine ⟨hmem, hmax, ?_, hscan.subIds⟩
  rw [← hscan.retainFlag]
  cases (subs.foldl (scanSub P publisher m cid) { shared := ∅ }).retainFlag <;> simp

theorem ordinary_none_iff {subs : List Subscription} :
    ordinary P publisher m cid subs = none ↔ takers P publisher m cid subs = [] := by
  rw [← Option.not_isSome_iff_eq_none, ordinary_isSome, takers, List.filter_eq_nil_iff]
  simp

end Scan

/-! ## The groups -/

section Groups
variable (P)

/-- The subscriptions of a client in a group that take part in routing `m`. -/
def inGroup (publisher : Option String) (m : Message) (group : String × String) (cid : String) (subs : List Subscription) :
    List Subscription :=
  subs.filter fun sub => (sub.shareName = some group.1 && sub.filter = group.2) && eligible P publisher m cid sub

/-- The candidates of a group, in the order of the pass. -/
def candidates (publisher : Option String) (m : Message) (group : String × String) (es : List (Σ _ : String, Session)) :
    List Candidate :=
  es.flatMap fun e => (inGroup P publisher m group e.1 e.2.subscriptions).map (candidate m e.1)

variable {P} {publisher : Option String} {m : Message}

theorem scanSub_group (group : String × String) (cid : String) (acc : Scan) (sub : Subscription) :
    ((scanSub P publisher m cid acc sub).shared.lookup group).getD [] =
      (acc.shared.lookup group).getD [] ++ (inGroup P publisher m group cid [sub]).map (candidate m cid) := by
  unfold scanSub inGroup
  cases he : eligible P publisher m cid sub with
  | false => simp [he]
  | true =>
    cases hs : sub.shareName with
    | none => simp [hs]
    | some share =>
      simp only [Bool.not_true, Bool.false_eq_true, if_false, SharedGroups.push]
      rw [lookup_insert_if]
      by_cases hg : group = (share, sub.filter)
      · subst hg
        simp [hs, he, candidate]
      · have hother : (decide (sub.shareName = some group.1) && decide (sub.filter = group.2)) = false := by
          rw [Bool.and_eq_false_iff, decide_eq_false_iff_not, decide_eq_false_iff_not, ← not_and_or]
          rintro ⟨hshare, hfilter⟩
          rw [hs, Option.some.injEq] at hshare
          exact hg (Prod.ext hshare.symm hfilter.symm)
        simp [hg, hother]

/-- An entry of the groups is not empty. -/
theorem scanSub_nonempty (cid : String) {acc : Scan} (h : ∀ group, acc.shared.lookup group ≠ some []) (sub : Subscription)
    (group : String × String) : (scanSub P publisher m cid acc sub).shared.lookup group ≠ some [] := by
  unfold scanSub
  split
  · exact h group
  · cases sub.shareName with
    | none => exact h group
    | some share =>
      simp only [SharedGroups.push]
      rw [lookup_insert_if]
      split
      · simp
      · exact h group

theorem scan_group (group : String × String) (cid : String) : ∀ (subs : List Subscription) (acc : Scan),
    ((subs.foldl (scanSub P publisher m cid) acc).shared.lookup group).getD [] =
      (acc.shared.lookup group).getD [] ++ (inGroup P publisher m group cid subs).map (candidate m cid)
  | [], acc => by simp [inGroup]
  | sub :: subs, acc => by
    rw [List.foldl_cons, scan_group group cid subs, scanSub_group, List.append_assoc, ← List.map_append]
    congr 2
    exact (List.filter_append [sub] subs).symm

theorem scan_nonempty (cid : String) : ∀ (subs : List Subscription) (acc : Scan),
    (∀ group, acc.shared.lookup group ≠ some []) →
    ∀ group, (subs.foldl (scanSub P publisher m cid) acc).shared.lookup group ≠ some []
  | [], _, h => h
  | sub :: subs, _, h => scan_nonempty cid subs _ (scanSub_nonempty cid h sub)

variable (publisher m) in
theorem sharedGroups_group (group : String × String) : ∀ (es : List (Σ _ : String, Session)) (groups : SharedGroups),
    ((sharedGroups P publisher m es groups).lookup group).getD [] =
      (groups.lookup group).getD [] ++ candidates P publisher m group es
  | [], groups => by simp [sharedGroups, candidates]
  | e :: es, groups => by
    have hrest := sharedGroups_group group es
      (e.2.subscriptions.foldl (scanSub P publisher m e.1) { shared := groups }).shared
    rw [scan_group, List.append_assoc] at hrest
    exact hrest

theorem sharedGroups_nonempty : ∀ (es : List (Σ _ : String, Session)) (groups : SharedGroups),
    (∀ group, groups.lookup group ≠ some []) → ∀ group, (sharedGroups P publisher m es groups).lookup group ≠ some []
  | [], _, h => h
  | e :: es, groups, h => sharedGroups_nonempty es _ (scan_nonempty e.1 e.2.subscriptions { shared := groups } h)

/-- The groups the pass over all sessions finds, whatever its order: their candidates are their members. -/
theorem mem_candidates {b : Broker} {ks : List Nat} {group : String × String} {c : Candidate} :
    c ∈ candidates P publisher m group (reorder ks b.sessions.entries) ↔
      ∃ sub, IsMember P b publisher m group c.clientId sub ∧ c = candidate m c.clientId sub := by
  simp only [candidates, List.mem_flatMap, List.mem_map, inGroup, List.mem_filter, Bool.and_eq_true, decide_eq_true_eq]
  constructor
  · rintro ⟨⟨cid, s⟩, hs, sub, ⟨hsub, ⟨hshare, hfilter⟩, he⟩, rfl⟩
    have hlookup : b.sessions.lookup cid = some s := mem_entries_iff.1 (mem_reorder.1 hs)
    exact ⟨sub, ⟨by simpa [subsOf, candidate, hlookup] using hsub, hshare, hfilter, he⟩, rfl⟩
  · rintro ⟨sub, ⟨hsub, hshare, hfilter, he⟩, hc⟩
    cases hs : b.sessions.lookup c.clientId with
    | none => simp [subsOf, hs] at hsub
    | some s =>
      refine ⟨⟨c.clientId, s⟩, mem_reorder.2 (mem_entries_iff.2 hs), sub, ⟨?_, ⟨hshare, hfilter⟩, he⟩, hc.symm⟩
      simpa [subsOf, hs] using hsub

end Groups

/-! ## The choice -/

theorem chooseMember_some (acc : KeyMap (String × String) Nat × List Candidate) {group : Σ _ : String × String, List Candidate}
    (h : group.2 ≠ []) : ∃ c, group.2[(acc.1.lookup group.1).getD 0 % group.2.length]? = some c ∧ chooseMember acc group =
      (acc.1.insert group.1 (((acc.1.lookup group.1).getD 0 + 1) % 2 ^ 64), acc.2 ++ [c]) := by
  have hlt : (acc.1.lookup group.1).getD 0 % group.2.length < group.2.length := Nat.mod_lt _ (List.length_pos_iff.2 h)
  refine ⟨group.2[(acc.1.lookup group.1).getD 0 % group.2.length], List.getElem?_eq_getElem hlt, ?_⟩
  rw [chooseMember, List.getElem?_eq_getElem hlt]

/-- The member at its cursor is chosen of each group, and the cursors of the groups move on. -/
theorem chooseMember_foldl : ∀ (groups : List (Σ _ : String × String, List Candidate))
    (acc : KeyMap (String × String) Nat × List Candidate), groups.NodupKeys → (∀ g ∈ groups, g.2 ≠ []) →
    ∃ picks : List ((String × String) × Candidate), picks.map Prod.fst = groups.keys ∧
      (∀ p ∈ picks, ∃ cs, ⟨p.1, cs⟩ ∈ groups ∧ cs[(acc.1.lookup p.1).getD 0 % cs.length]? = some p.2) ∧
      (groups.foldl chooseMember acc).2 = acc.2 ++ picks.map Prod.snd ∧
      ∀ group, (groups.foldl chooseMember acc).1.lookup group =
        if group ∈ groups.keys then some (((acc.1.lookup group).getD 0 + 1) % 2 ^ 64) else acc.1.lookup group
  | [], acc, _, _ => ⟨[], rfl, by simp, by simp, by simp⟩
  | g :: groups, acc, hnd, hne => by
    rw [List.nodupKeys_cons] at hnd
    obtain ⟨hg, hgs⟩ := List.forall_mem_cons.1 hne
    obtain ⟨c, hc, hstep⟩ := chooseMember_some acc hg
    obtain ⟨picks, hkeys, hmem, hchosen, hcursor⟩ := chooseMember_foldl groups (chooseMember acc g) hnd.2 hgs
    refine ⟨(g.1, c) :: picks, by simp [hkeys], fun p hp => ?_, ?_, fun group => ?_⟩
    · rcases List.mem_cons.1 hp with rfl | hp
      · exact ⟨g.2, List.mem_cons_self, hc⟩
      · obtain ⟨cs, hcs, hin⟩ := hmem p hp
        have hother : p.1 ≠ g.1 := by
          rintro heq
          exact hnd.1 (heq ▸ hkeys ▸ List.mem_map_of_mem hp)
        rw [hstep, lookup_insert_if, if_neg hother] at hin
        exact ⟨cs, List.mem_cons_of_mem _ hcs, hin⟩
    · rw [List.foldl_cons, hchosen, hstep]
      simp
    · rw [List.foldl_cons, hcursor group, hstep, lookup_insert_if, List.keys_cons]
      by_cases hgroup : group = g.1
      · subst hgroup
        simp [hnd.1]
      · simp [hgroup]

/-! ## The call -/

section Route
variable {publisher : Option String} {m : Message}

theorem routeVisit_delivered (now maxQueued : Nat) (cid : String) (s : Session) (acc : RouteAcc) :
    (routeVisit P now maxQueued publisher m cid s acc).2.delivered =
      acc.delivered + (ordinary P publisher m cid s.subscriptions).isSome.toNat := by
  obtain ⟨h1, -, -⟩ := scan_shared (P := P) publisher m cid s.subscriptions { shared := acc.shared } { shared := ∅ }
    rfl rfl rfl
  simp only [routeVisit, ordinary, h1]
  cases (s.subscriptions.foldl (scanSub P publisher m cid) { shared := ∅ }).best with
  | none => rfl
  | some qos => rfl

variable (publisher m) in
/-- The pass counts a delivery if some session on its way gets one. -/
theorem visit_delivered (now maxQueued : Nat) : ∀ (es : List (Σ _ : String, Session)) (sessions : KeyMap String Session)
    (acc : RouteAcc), 0 < (visit (routeVisit P now maxQueued publisher m) es (sessions, acc)).2.delivered ↔
      0 < acc.delivered ∨ ∃ e ∈ es, (ordinary P publisher m e.1 e.2.subscriptions).isSome
  | [], _, _ => by simp [visit]
  | ⟨cid, s⟩ :: es, sessions, acc => by
    rw [visit, visit_delivered now maxQueued es, routeVisit_delivered]
    simp only [List.mem_cons, or_and_right, exists_or, exists_eq_left]
    cases (ordinary P publisher m cid s.subscriptions).isSome <;> simp

/-- An ordinary copy goes to a session of the map. -/
theorem exists_ordinary {b : Broker} (ks : List Nat) :
    (∃ e ∈ reorder ks b.sessions.entries, (ordinary P publisher m e.1 e.2.subscriptions).isSome) ↔
      ∃ cid, (ordinary P publisher m cid (b.subsOf cid)).isSome := by
  constructor
  · rintro ⟨⟨cid, s⟩, hs, h⟩
    have hlookup : b.sessions.lookup cid = some s := mem_entries_iff.1 (mem_reorder.1 hs)
    exact ⟨cid, by simpa [subsOf, hlookup] using h⟩
  · rintro ⟨cid, h⟩
    cases hs : b.sessions.lookup cid with
    | none => simp [subsOf, hs, ordinary] at h
    | some s => exact ⟨⟨cid, s⟩, mem_reorder.2 (mem_entries_iff.2 hs), by simpa [subsOf, hs] using h⟩

/-- `route` creates no session. -/
theorem route_lookup_none (now : Nat) (ord : Orders) {b : Broker} {cid : String} (hs : b.sessions.lookup cid = none) :
    (route P now ord b publisher m).1.sessions.lookup cid = none := by
  unfold route
  split
  · exact hs
  · simp only
    rw [deliverChosen_lookup, (lookup_iterMut _ _ _ _ cid).1 hs]
    rfl

theorem route_unexpired (publisher : Option String) {now : Nat} (hm : m.isExpired now = false) (ord : Orders) (b : Broker) :
    (route P now ord b publisher m).1.sharedRr =
        ((reorder ord.shared (sharedGroups P publisher m (reorder ord.sessions b.sessions.entries) ∅).entries).foldl
          chooseMember (b.sharedRr, [])).1 ∧
      ((route P now ord b publisher m).2 = true ↔
        (∃ cid, (ordinary P publisher m cid (b.subsOf cid)).isSome) ∨ b.chosen P ord publisher m ≠ []) := by
  have hshared : (iterMut (routeVisit P now b.config.maxQueuedMessages publisher m) ord.sessions b.sessions {}).2.shared =
      sharedGroups P publisher m (reorder ord.sessions b.sessions.entries) ∅ := visit_shared ..
  have hdelivered := visit_delivered (P := P) publisher m now b.config.maxQueuedMessages
    (reorder ord.sessions b.sessions.entries) b.sessions {}
  simp only [exists_ordinary, lt_irrefl, false_or] at hdelivered
  simp only [route, hm, Bool.false_eq_true, if_false, hshared, decide_eq_true_eq, chosen, true_and]
  rw [← hdelivered, ← List.length_pos_iff]
  rw [iterMut]
  omega

/-- Which members are served depends on the orders, and the ordinary copies do not. The cursor of a group points to the one
it is. -/
theorem route_fanout {now : Nat} (hm : m.isExpired now = false) (ord : Orders) (b : Broker) :
    ∃ picks, Fanout P now b publisher m (fun cid => ordinary P publisher m cid (b.subsOf cid)) picks
        (route P now ord b publisher m) ∧
      ∀ p ∈ picks, (candidates P publisher m p.1 (reorder ord.sessions b.sessions.entries))[(b.sharedRr.lookup p.1).getD 0 %
        (candidates P publisher m p.1 (reorder ord.sessions b.sessions.entries)).length]? = some p.2 := by
  set groups := sharedGroups P publisher m (reorder ord.sessions b.sessions.entries) ∅ with hgroups
  have hcs : ∀ group, (groups.lookup group).getD [] = candidates P publisher m group (reorder ord.sessions b.sessions.entries) :=
    fun group => by simpa using sharedGroups_group (P := P) publisher m group _ ∅
  have hnonempty : ∀ group, groups.lookup group ≠ some [] := sharedGroups_nonempty _ ∅ (by simp)
  have hperm := reorder_perm ord.shared groups.entries
  obtain ⟨picks, hkeys, hmem, hchosen, hcursor⟩ := chooseMember_foldl (reorder ord.shared groups.entries) (b.sharedRr, [])
    ((List.perm_nodupKeys hperm).2 groups.nodupKeys)
    fun g hg hnil => hnonempty g.1 (by rw [← hnil]; exact mem_entries_iff.1 (mem_reorder.1 hg))
  obtain ⟨hrr, hresult⟩ := route_unexpired (P := P) publisher hm ord b
  have hpicked : b.chosen P ord publisher m = picks.map Prod.snd := hchosen
  have hcursor' : ∀ p ∈ picks, (candidates P publisher m p.1 (reorder ord.sessions b.sessions.entries))[(b.sharedRr.lookup
      p.1).getD 0 % (candidates P publisher m p.1 (reorder ord.sessions b.sessions.entries)).length]? = some p.2 := by
    intro p hp
    obtain ⟨cs, hentry, hc⟩ := hmem p hp
    have hlookup : groups.lookup p.1 = some cs := mem_entries_iff.1 (mem_reorder.1 hentry)
    have hin := hcs p.1
    rw [hlookup, Option.getD_some] at hin
    rwa [← hin]
  refine ⟨picks, ⟨?_, ?_, ?_, ?_, ?_, ?_, ?_⟩, hcursor'⟩
  · rw [hkeys]
    exact (List.perm_nodupKeys hperm).2 groups.nodupKeys
  · intro p hp
    exact mem_candidates.1 (List.mem_of_getElem? (hcursor' p hp))
  · intro group cid sub hsub
    have hin : candidate m cid sub ∈ (groups.lookup group).getD [] := by
      rw [hcs]
      exact mem_candidates.2 ⟨sub, hsub, rfl⟩
    cases hlookup : groups.lookup group with
    | none => simp [hlookup] at hin
    | some cs =>
      rw [hkeys, List.mem_keys]
      exact ⟨cs, mem_reorder.2 (mem_entries_iff.2 hlookup)⟩
  · intro cid
    cases hs : b.sessions.lookup cid with
    | none => exact route_lookup_none now ord hs
    | some s =>
      rw [route_lookup now ord publisher m hs, deliveries, hpicked, Option.map_some]
      simp [List.filter_map, Function.comp_def, Option.toList_map]
  · intro group
    rw [hrr, hcursor group, hkeys]
  · simp only [route, hm, Bool.false_eq_true, if_false]
  · rw [hresult, hpicked]
    simp

/-- **Routing is exact**: an expired message changes nothing. Otherwise the ordinary copies are those the subscriptions call
for, whatever the iteration orders are, and one member of each group is served. -/
theorem route_exact (P : Protocol) (now : Nat) (b : Broker) (publisher : Option String) (m : Message) :
    (m.isExpired now = true → ∀ ord, route P now ord b publisher m = (b, false)) ∧
    (m.isExpired now = false → ∃ copy : String → Option Copy,
      (∀ cid, copy cid = none ↔ takers P publisher m cid (b.subsOf cid) = []) ∧
      (∀ cid d, copy cid = some d → IsOrdinary m (takers P publisher m cid (b.subsOf cid)) d) ∧
      ∀ ord, ∃ picks, Fanout P now b publisher m copy picks (route P now ord b publisher m)) := by
  constructor
  · intro hm ord
    rw [route, if_pos hm]
  · intro hm
    exact ⟨fun cid => ordinary P publisher m cid (b.subsOf cid), fun cid => ordinary_none_iff,
      fun cid d => ordinary_isOrdinary, fun ord => (route_fanout hm ord b).imp fun _ h => h.1⟩

/-- A subscription to `t`. -/
def toT (share : Option String) : Subscription := ⟨"t", share, .exactlyOnce, false, false, some 7⟩

/-- One client subscribes to `t`, two more share a subscription to it. -/
def threeSubscribers : Broker where
  sessions := (((∅ : KeyMap String Session).insert "a" { Session.new "a" 0 with subscriptions := [toT none] }).insert
    "b" { Session.new "b" 0 with subscriptions := [toT (some "g")] }).insert
    "c" { Session.new "c" 0 with subscriptions := [toT (some "g")] }

/-- The first gets a copy of its own and the group one. -/
theorem route_exact_three :
    ∃ copy picks, (copy "a").isSome ∧ ("g", "t") ∈ picks.map Prod.fst ∧
      Fanout .reference 0 threeSubscribers none ⟨"t", [1], .atLeastOnce, false, none, none, none, none, [], none⟩ copy picks
        (route .reference 0 {} threeSubscribers none ⟨"t", [1], .atLeastOnce, false, none, none, none, none, [], none⟩) := by
  obtain ⟨copy, hnone, -, hall⟩ := (route_exact .reference 0 threeSubscribers none
    ⟨"t", [1], .atLeastOnce, false, none, none, none, none, [], none⟩).2 rfl
  obtain ⟨picks, h⟩ := hall {}
  refine ⟨copy, picks, ?_, h.served ("g", "t") "b" (toT (some "g")) ⟨?_, rfl, rfl, ?_⟩, h⟩
  · rw [← Option.ne_none_iff_isSome]
    exact fun hc => absurd ((hnone "a").1 hc) (by decide +kernel)
  · decide +kernel
  · decide +kernel

end Route

end Broker

end WispMQ
