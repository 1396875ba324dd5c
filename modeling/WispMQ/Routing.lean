import WispMQ.Effects
/-!
# Routing, seen from one session

`route` walks over all sessions and then serves the shared groups. For the session of one client it is a list of
deliveries: one for its ordinary subscriptions that match, if there are any (`ordinary`), then one for each group in
which the client is chosen (`chosen`, `SharedVia`). `route_lookup` is that view; it depends on the other sessions only
through the choice of members. `World.step_routed` finds the call of `route` behind every routed message of a step.
-/

namespace WispMQ
open KeyMap

namespace Broker
variable (P : Protocol)

/-- The loop over one session's subscriptions, without the shared ones. -/
def ordinary (publisher : Option String) (m : Message) (cid : String) (subs : List Subscription) :
    Option (QoS × Bool × List Nat) :=
  let scan := subs.foldl (scanSub P publisher m cid) { shared := ∅ }
  scan.best.map fun qos => (qos, if scan.retainFlag then m.retain else false, scan.subIds)

/-- The candidate a shared subscription puts up. -/
def candidate (m : Message) (cid : String) (sub : Subscription) : Candidate :=
  ⟨cid, m.qos.min sub.qos, if sub.retainAsPublished then m.retain else false, sub.subscriptionIdentifier.toList⟩

/-- The candidate comes from a shared subscription among `subs` that takes part in routing `m`. -/
def SharedVia (publisher : Option String) (m : Message) (cid : String) (subs : List Subscription) (c : Candidate) :
    Prop :=
  ∃ sub ∈ subs, sub.shareName.isSome ∧ eligible P publisher m cid sub ∧ c = candidate m cid sub

/-- A delivery of `m` as an operation. -/
def deliveryOp (now : Nat) (m : Message) (maxQueued : Nat) (d : QoS × Bool × List Nat) : Op :=
  .deliver now m d.1 d.2.1 d.2.2 maxQueued

/-- The delivery to a chosen member. -/
def chosenOp (now : Nat) (m : Message) (maxQueued : Nat) (c : Candidate) : Op :=
  .deliver now m c.qos c.retain c.subIds maxQueued

variable {P}

section Scan
variable (publisher : Option String) (m : Message) (cid : String)

/-- The shared groups do not influence the ordinary delivery. -/
theorem scan_shared : ∀ (subs : List Subscription) (acc acc' : Scan), acc.best = acc'.best → acc.subIds = acc'.subIds →
    acc.retainFlag = acc'.retainFlag →
    (subs.foldl (scanSub P publisher m cid) acc).best = (subs.foldl (scanSub P publisher m cid) acc').best ∧
    (subs.foldl (scanSub P publisher m cid) acc).subIds = (subs.foldl (scanSub P publisher m cid) acc').subIds ∧
    (subs.foldl (scanSub P publisher m cid) acc).retainFlag = (subs.foldl (scanSub P publisher m cid) acc').retainFlag
  | [], _, _, h1, h2, h3 => ⟨h1, h2, h3⟩
  | sub :: subs, acc, acc', h1, h2, h3 => by
    have hstep : (scanSub P publisher m cid acc sub).best = (scanSub P publisher m cid acc' sub).best ∧
        (scanSub P publisher m cid acc sub).subIds = (scanSub P publisher m cid acc' sub).subIds ∧
        (scanSub P publisher m cid acc sub).retainFlag = (scanSub P publisher m cid acc' sub).retainFlag := by
      unfold scanSub
      split
      · exact ⟨h1, h2, h3⟩
      · cases sub.shareName with
        | some share => exact ⟨h1, h2, h3⟩
        | none => simp only [h1, h2, h3, and_self]
    exact scan_shared subs _ _ hstep.1 hstep.2.1 hstep.2.2

/-- What a visit does to the session. -/
theorem routeVisit_session (now maxQueued : Nat) (s : Session) (acc : RouteAcc) :
    (routeVisit P now maxQueued publisher m cid s acc).1 =
      (s.applyAll P ((ordinary P publisher m cid s.subscriptions).map (deliveryOp now m maxQueued)).toList).1 := by
  obtain ⟨h1, h2, h3⟩ := scan_shared (P := P) publisher m cid s.subscriptions { shared := acc.shared } { shared := ∅ }
    rfl rfl rfl
  simp only [routeVisit, ordinary, h1, h2, h3]
  cases (s.subscriptions.foldl (scanSub P publisher m cid) { shared := ∅ }).best with
  | none => rfl
  | some qos => rfl

variable {publisher m cid}

/-- An ordinary subscription that matches leads to a delivery. -/
theorem scan_best_some : ∀ (subs : List Subscription) {acc : Scan},
    (subs.foldl (scanSub P publisher m cid) acc).best.isSome ↔
      acc.best.isSome ∨ ∃ sub ∈ subs, sub.shareName = none ∧ eligible P publisher m cid sub
  | [], acc => by simp
  | sub :: subs, acc => by
    rw [List.foldl_cons, scan_best_some subs]
    have hstep : (scanSub P publisher m cid acc sub).best.isSome ↔
        acc.best.isSome ∨ (sub.shareName = none ∧ eligible P publisher m cid sub) := by
      unfold scanSub
      cases he : eligible P publisher m cid sub with
      | false => simp
      | true => cases hs : sub.shareName <;> simp
    rw [hstep, or_assoc]
    simp only [List.mem_cons, or_and_right, exists_or, exists_eq_left]

theorem ordinary_isSome {subs : List Subscription} : (ordinary P publisher m cid subs).isSome ↔
    ∃ sub ∈ subs, sub.shareName = none ∧ eligible P publisher m cid sub := by
  simp only [ordinary, Option.isSome_map]
  rw [scan_best_some]
  simp

/-- If all that takes part is granted QoS 0, so is the delivery. -/
theorem scan_best_qos0 : ∀ (subs : List Subscription) {acc : Scan},
    (∀ sub ∈ subs, sub.shareName = none → eligible P publisher m cid sub → m.qos.min sub.qos = .atMostOnce) →
    (∀ q, acc.best = some q → q = .atMostOnce) →
    ∀ q, (subs.foldl (scanSub P publisher m cid) acc).best = some q → q = .atMostOnce
  | [], _, _, h => h
  | sub :: subs, acc, hsub, h => by
    obtain ⟨hsub, hsubs⟩ := List.forall_mem_cons.1 hsub
    refine scan_best_qos0 subs hsubs fun q hq => ?_
    unfold scanSub at hq
    split at hq
    · exact h q hq
    · rename_i he
      rw [Bool.not_eq_true', Bool.not_eq_false] at he
      cases hs : sub.shareName with
      | some share =>
        rw [hs] at hq
        exact h q hq
      | none =>
        have hmin := hsub hs he
        rw [hs] at hq
        cases hb : acc.best with
        | none =>
          simp only [hb, hmin, Option.some.injEq] at hq
          exact hq.symm
        | some q₀ =>
          cases h q₀ hb
          simp only [hb, hmin, Option.some.injEq] at hq
          simpa using hq.symm

/-- Every candidate of the groups comes from a shared subscription of a session. -/
def GroupsOk (P : Protocol) (publisher : Option String) (m : Message) (subsOf : String → List Subscription)
    (groups : SharedGroups) : Prop :=
  ∀ key cs, groups.lookup key = some cs → ∀ c ∈ cs, SharedVia P publisher m c.clientId (subsOf c.clientId) c

theorem scan_groupsOk {subsOf : String → List Subscription} : ∀ (subs : List Subscription) (acc : Scan),
    (∀ sub ∈ subs, sub ∈ subsOf cid) → GroupsOk P publisher m subsOf acc.shared →
    GroupsOk P publisher m subsOf (subs.foldl (scanSub P publisher m cid) acc).shared
  | [], _, _, h => h
  | sub :: subs, acc, hsub, h => by
    obtain ⟨hsub, hsubs⟩ := List.forall_mem_cons.1 hsub
    refine scan_groupsOk subs _ hsubs ?_
    unfold scanSub
    split
    · exact h
    · rename_i he
      rw [Bool.not_eq_true', Bool.not_eq_false] at he
      cases hs : sub.shareName with
      | none => exact h
      | some share =>
        intro key cs hcs c hc
        simp only [SharedGroups.push] at hcs
        rw [lookup_insert_if] at hcs
        split at hcs
        · cases hcs
          rcases List.mem_append.1 hc with hc | hc
          · cases hl : acc.shared.lookup (share, sub.filter) with
            | none => simp [hl] at hc
            | some cs =>
              rw [hl, Option.getD_some] at hc
              exact h _ cs hl c hc
          · rw [List.mem_singleton.1 hc]
            exact ⟨sub, hsub, by simp [hs], he, rfl⟩
        · exact h key cs hcs c hc

end Scan

/-! ## The two passes -/

section Route
variable {publisher : Option String} {m : Message}

theorem chooseMember_mem : ∀ (groups : List (Σ _ : String × String, List Candidate))
    (acc : KeyMap (String × String) Nat × List Candidate), ∀ c ∈ (groups.foldl chooseMember acc).2,
    c ∈ acc.2 ∨ ∃ g ∈ groups, c ∈ g.2
  | [], _, _, hc => .inl hc
  | g :: groups, acc, c, hc => by
    rcases chooseMember_mem groups _ c hc with h | ⟨g', hg', h⟩
    · unfold chooseMember at h
      split at h
      · exact .inl h
      · rename_i c' hc'
        rcases List.mem_append.1 h with h | h
        · exact .inl h
        · rw [List.mem_singleton.1 h]
          exact .inr ⟨g, List.mem_cons_self, List.mem_of_getElem? hc'⟩
    · exact .inr ⟨g', List.mem_cons_of_mem _ hg', h⟩

/-- The deliveries to the chosen members, on one session. -/
theorem deliverChosen_lookup (now maxQueued : Nat) (cid : String) : ∀ (cs : List Candidate)
    (acc : KeyMap String Session × Nat), (cs.foldl (deliverChosen P now maxQueued m) acc).1.lookup cid =
      (acc.1.lookup cid).map fun s =>
        (s.applyAll P ((cs.filter (·.clientId = cid)).map (chosenOp now m maxQueued))).1
  | [], acc => by simp [Session.applyAll]
  | c :: cs, acc => by
    rw [List.foldl_cons, deliverChosen_lookup now maxQueued cid cs]
    by_cases hc : c.clientId = cid
    · subst hc
      cases hs : acc.1.lookup c.clientId with
      | none => simp [deliverChosen, hs]
      | some s => simp [deliverChosen, hs, Session.applyAll, chosenOp, Session.apply]
    · have hkeep : (deliverChosen P now maxQueued m acc c).1.lookup cid = acc.1.lookup cid := by
        unfold deliverChosen
        split
        · rfl
        · rw [lookup_insert_if, if_neg (Ne.symm hc)]
      rw [hkeep, List.filter_cons_of_neg (by simpa using hc)]

/-- The subscriptions of each client. -/
def subsOf (b : Broker) (cid : String) : List Subscription := (b.sessions.lookup cid).elim [] (·.subscriptions)

variable (P) in
/-- The shared groups the pass over the sessions finds. -/
def sharedGroups (publisher : Option String) (m : Message) (es : List (Σ _ : String, Session)) (groups : SharedGroups) :
    SharedGroups :=
  es.foldl (fun groups e => (e.2.subscriptions.foldl (scanSub P publisher m e.1) { shared := groups }).shared) groups

variable (P) in
/-- The members that are chosen to get `m`, one of each group. -/
def chosen (ord : Orders) (b : Broker) (publisher : Option String) (m : Message) : List Candidate :=
  ((reorder ord.shared (sharedGroups P publisher m (reorder ord.sessions b.sessions.entries) ∅).entries).foldl
    chooseMember (b.sharedRr, [])).2

variable (P) in
/-- The deliveries `route` makes to a client. -/
def deliveries (now : Nat) (ord : Orders) (b : Broker) (publisher : Option String) (m : Message) (cid : String) :
    List Op :=
  ((ordinary P publisher m cid (b.subsOf cid)).map (deliveryOp now m b.config.maxQueuedMessages)).toList ++
    ((b.chosen P ord publisher m).filter (·.clientId = cid)).map (chosenOp now m b.config.maxQueuedMessages)

theorem visit_shared (now maxQueued : Nat) : ∀ (es : List (Σ _ : String, Session)) (sessions : KeyMap String Session)
    (acc : RouteAcc), (visit (routeVisit P now maxQueued publisher m) es (sessions, acc)).2.shared =
      sharedGroups P publisher m es acc.shared
  | [], _, _ => rfl
  | ⟨c, s⟩ :: es, sessions, acc => by
    have hvisit : (routeVisit P now maxQueued publisher m c s acc).2.shared =
        (s.subscriptions.foldl (scanSub P publisher m c) { shared := acc.shared }).shared := by
      simp only [routeVisit]
      split <;> rfl
    rw [visit, visit_shared now maxQueued es, hvisit]
    rfl

/-- A chosen member has a shared subscription that takes part. -/
theorem chosen_sharedVia (ord : Orders) (b : Broker) :
    ∀ c ∈ b.chosen P ord publisher m, SharedVia P publisher m c.clientId (b.subsOf c.clientId) c := by
  have hgroups : ∀ (es : List (Σ _ : String, Session)) (groups : SharedGroups),
      (∀ e ∈ es, b.sessions.lookup e.1 = some e.2) → GroupsOk P publisher m b.subsOf groups →
      GroupsOk P publisher m b.subsOf (sharedGroups P publisher m es groups) := by
    intro es
    induction es with
    | nil => exact fun _ _ h => h
    | cons e es ih =>
      intro groups hes h
      obtain ⟨he, hes⟩ := List.forall_mem_cons.1 hes
      have hsubs : ∀ sub ∈ e.2.subscriptions, sub ∈ b.subsOf e.1 := fun sub hsub => by simpa [subsOf, he] using hsub
      exact ih _ hes (scan_groupsOk e.2.subscriptions { shared := groups } hsubs h)
  intro c hc
  rcases chooseMember_mem _ _ c hc with h | ⟨g, hg, h⟩
  · simp at h
  · exact hgroups _ ∅ (fun e he => mem_entries_iff.1 (mem_reorder.1 he)) (fun key cs h => by simp at h) g.1 g.2
      (mem_entries_iff.1 (mem_reorder.1 hg)) c h

/-- An expired message is not delivered. -/
theorem applyAll_expired {now : Nat} (hm : m.isExpired now = true) (s : Session) : ∀ (os : List Op),
    (∀ o ∈ os, ∃ qos retain subIds maxQueued, o = .deliver now m qos retain subIds maxQueued) → (s.applyAll P os).1 = s
  | [], _ => rfl
  | o :: os, h => by
    obtain ⟨⟨qos, retain, subIds, maxQueued, rfl⟩, hos⟩ := List.forall_mem_cons.1 h
    have ho : (s.apply P (.deliver now m qos retain subIds maxQueued)).1 = s := by
      simp [Session.apply, deliverToSession, deliver, hm]
    rw [Session.applyAll, ho]
    exact applyAll_expired hm s os hos

theorem mem_deliveries {now : Nat} {ord : Orders} {b : Broker} {cid : String} {o : Op}
    (h : o ∈ b.deliveries P now ord publisher m cid) :
    ∃ qos retain subIds maxQueued, o = .deliver now m qos retain subIds maxQueued := by
  rcases List.mem_append.1 h with h | h
  · obtain ⟨d, -, rfl⟩ := Option.map_eq_some_iff.1 (Option.mem_toList.1 h)
    exact ⟨_, _, _, _, rfl⟩
  · obtain ⟨c, -, rfl⟩ := List.mem_map.1 h
    exact ⟨_, _, _, _, rfl⟩

/-- **Routing to one session**: the ordinary delivery, then one for each group the client is chosen in. -/
theorem route_lookup (now : Nat) (ord : Orders) {b : Broker} (publisher : Option String) (m : Message) {cid : String}
    {s : Session} (hs : b.sessions.lookup cid = some s) :
    (route P now ord b publisher m).1.sessions.lookup cid =
      some (s.applyAll P (b.deliveries P now ord publisher m cid)).1 := by
  cases hm : m.isExpired now with
  | true =>
    rw [applyAll_expired hm s _ fun o ho => mem_deliveries ho]
    simp only [route, hm, if_true, hs]
  | false =>
    set maxQueued := b.config.maxQueuedMessages with hmax
    set pass := iterMut (routeVisit P now maxQueued publisher m) ord.sessions b.sessions {} with hpass
    have hshared : pass.2.shared = sharedGroups P publisher m (reorder ord.sessions b.sessions.entries) ∅ := by
      rw [hpass, iterMut, visit_shared]
    obtain ⟨acc, hvisit⟩ :=
      (lookup_iterMut (routeVisit P now maxQueued publisher m) ord.sessions b.sessions {} cid).2 s hs
    rw [← hpass, routeVisit_session] at hvisit
    rw [deliveries, Session.applyAll_append]
    simp only [route, hm, Bool.false_eq_true, if_false]
    rw [← hmax, ← hpass, hshared, deliverChosen_lookup, hvisit]
    simp only [subsOf, hs, Option.elim_some, Option.map_some]
    rfl

end Route

end Broker

/-! ## The routed messages of a step -/

/-- The publisher `route` is told. -/
def Origin.publisher : Origin → Option String
  | .publish cid _ | .bridge cid => some cid
  | .will .. | .sys => none

/-- The fleet `f` becomes `f'` by routing operations, one of them a call of `route` for `m`. -/
def Fleet.Routes (P : Protocol) (now : Nat) (ord : Orders) (origin : Origin) (m : Message) (f f' : Fleet) : Prop :=
  ∃ b : Broker, Fleet.Reaches P (Move.IsOp Op.isRouting) f b.fleet ∧
    Fleet.Reaches P (Move.IsOp Op.isRouting) (route P now ord b origin.publisher m).1.fleet f'

namespace Broker
variable {P : Protocol} {now : Nat} {ord : Orders} {origin : Origin} {m : Message}

theorem publishMessage_routed {b : Broker} {o : Origin} {m' : Message}
    (h : .routed origin m ∈ (publishMessage P now ord b o o.publisher m').effects) :
    Fleet.Routes P now ord origin m b.fleet (publishMessage P now ord b o o.publisher m').broker.fleet := by
  have hp := publishMessage_publishes now ord b o o.publisher m' _ h
  generalize he : Effect.routed origin m = e at hp
  cases hp <;> cases he
  exact ⟨(b.storeRetained origin m).1, .of_eq (storeRetained_fleet ..), .refl _⟩

theorem publishSys_routed : ∀ (es : List (String × Bytes)) (b : Broker),
    .routed origin m ∈ (publishSys P now ord es b).effects →
    Fleet.Routes P now ord origin m b.fleet (publishSys P now ord es b).broker.fleet
  | [], _, h => by simp [publishSys] at h
  | (topic, payload) :: es, b, h => by
    simp only [publishSys, List.mem_cons, reduceCtorEq, false_or, Effect.routed.injEq] at h
    rcases h with ⟨rfl, rfl⟩ | h
    · exact ⟨{ b with retained := b.retained.insert topic (sysMessage topic payload) }, .refl _, (publishSys_moves ..).routing⟩
    · obtain ⟨b₁, h1, h2⟩ := publishSys_routed es _ h
      exact ⟨b₁, (route_moves now ord { b with retained := b.retained.insert topic (sysMessage topic payload) } none
        (sysMessage topic payload)).routing.trans h1, h2⟩

theorem routePublish_routed {b : Broker} {cid : String} {epoch : Nat} {s : Session} {publish : Publish} {m' : Message}
    (hs : b.sessions.lookup cid = some s)
    (h : .routed origin m ∈ (routePublish P now ord b cid epoch s publish m').2) :
    Fleet.Routes P now ord origin m b.fleet (routePublish P now ord b cid epoch s publish m').1.fleet := by
  simp only [routePublish] at h ⊢
  split at h
  · cases List.mem_singleton.1 h
    exact ⟨b, .refl _, .refl _⟩
  · cases List.mem_singleton.1 h
    exact ⟨b, .refl _, (acknowledge_moves now b.config.maxQueuedMessages ..).routing⟩
  · split at h
    · cases h
    · rename_i hnew
      cases List.mem_singleton.1 h
      simp only [if_neg hnew]
      refine ⟨_, ?_, (acknowledge_moves now b.config.maxQueuedMessages ..).routing⟩
      have h1 : Fleet.Reaches P (Move.IsOp Op.isRouting) b.fleet _ :=
        .single (.op cid (.inbound (publish.packetId.getD 0))) rfl
      rwa [← fleet_applied P hs] at h1

theorem acceptPublish_routed {b : Broker} {cid : String} {epoch : Nat} {s : Session} {publish : Publish}
    (hs : b.sessions.lookup cid = some s)
    (h : .routed origin m ∈ (acceptPublish P now ord b cid epoch s publish).effects) :
    Fleet.Routes P now ord origin m b.fleet (acceptPublish P now ord b cid epoch s publish).broker.fleet := by
  unfold acceptPublish at h ⊢
  split at h
  · simp [answer] at h
  split at h
  · simp [answer] at h
  split at h
  · simp [answer] at h
  · rename_i hvalid hsys hacl
    simp only [if_neg hvalid, if_neg hsys, if_neg hacl]
    have hr : .routed origin m ∈ (routePublish P now ord (b.storeRetained (.publish cid epoch)
        (Message.fromPublish now publish)).1 cid epoch s publish (Message.fromPublish now publish)).2 := by
      simp only [List.mem_append, List.mem_singleton, reduceCtorEq, or_false] at h
      rcases h with h | h
      · unfold storeRetained at h
        split at h
        · split at h <;> simp at h
        · cases h
      · exact h
    have hs' : (b.storeRetained (.publish cid epoch) (Message.fromPublish now publish)).1.sessions.lookup cid
        = some s := by
      rw [← fleet_session, storeRetained_fleet, fleet_session, hs]
    have h1 := routePublish_routed hs' hr
    rwa [storeRetained_fleet] at h1

theorem handlePublish_routed {b : Broker} {cid : String} {epoch : Nat} {publish : Publish}
    (h : .routed origin m ∈ (handlePublish P now ord b cid epoch publish).effects) :
    Fleet.Routes P now ord origin m b.fleet (handlePublish P now ord b cid epoch publish).broker.fleet := by
  rcases handlePublish_cases P now ord b cid epoch publish with ⟨rc, he⟩ | ⟨s, s', publish', hs, -, hr, he⟩
  · simp [he, answer] at h
  · rw [he] at h ⊢
    obtain ⟨b₁, h1, h2⟩ := acceptPublish_routed (by simp [setSession]) h
    exact ⟨b₁, (resolveAlias_moves now b.config.maxQueuedMessages hs hr).routing.trans h1, h2⟩

end Broker

namespace World
open Broker
variable {P : Protocol} {w : World} {l : Label} {origin : Origin} {m : Message}

/-- The step that hands `m` to `route`. -/
inductive RoutedBy (P : Protocol) (w : World) (l : Label) (origin : Origin) (m : Message) : Prop
  | publish {c : String} {e : Nat} {p : Publish} (hsel : w.selected l.input = some (.dispatch c e (.publish p)))
      (h : .routed origin m ∈ (handlePublish P l.now l.ord w.broker c e p).effects)
  | will {c : String} {e : Nat} {m' : Message} (hsel : w.selected l.input = some (.willPublish c e m'))
      (h : .routed origin m ∈ (willPublish P l.now l.ord w.broker c e m').effects)
  | sys {entries : List (String × Bytes)} (hin : l.input = .call (.publishSys entries))
      (h : .routed origin m ∈ (publishSys P l.now l.ord entries w.broker).effects)
  | bridge {name : String} {m' : Message} (hin : l.input = .call (.injectPublish name m'))
      (h : .routed origin m ∈ (injectPublish P l.now l.ord w.broker (bridgeClient name) m').effects)

/-- **Inversion**: only a PUBLISH, a Will, a `$SYS` update or a bridge's message is routed. -/
theorem step_routedBy (h : .routed origin m ∈ (step P w l).2) : RoutedBy P w l origin m := by
  cases step_emits h with
  | routed hi =>
    cases hi with
    | publish hsel =>
      rw [(step_of_selected hsel).2] at h
      exact .publish hsel h
    | will hsel =>
      rw [(step_of_selected hsel).2] at h
      exact .will hsel h
    | sys hin =>
      simp only [step, hin, absorb] at h
      exact .sys hin h
    | bridge hin =>
      simp only [step, hin, absorb] at h
      exact .bridge hin h

/-- Behind every routed message of a step is a call of `route`. -/
theorem step_routed (h : .routed origin m ∈ (step P w l).2) :
    Fleet.Routes P l.now l.ord origin m w.broker.fleet (step P w l).1.broker.fleet := by
  cases step_routedBy h with
  | publish hsel h =>
    rw [(step_of_selected hsel).1]
    exact handlePublish_routed h
  | will hsel h =>
    rw [(step_of_selected hsel).1]
    exact publishMessage_routed h
  | sys hin h =>
    simp only [step, hin, absorb]
    exact publishSys_routed _ _ h
  | bridge hin h =>
    simp only [step, hin, absorb]
    exact publishMessage_routed h

/-- A message that a client publishes is routed while its PUBLISH is handled. -/
theorem routed_publish {cid : String} {epoch : Nat} (h : .routed (.publish cid epoch) m ∈ (step P w l).2) :
    ∃ p, w.selected l.input = some (.dispatch cid epoch (.publish p)) ∧
      .routed (.publish cid epoch) m ∈ (handlePublish P l.now l.ord w.broker cid epoch p).effects := by
  cases step_emits h with
  | routed hi =>
    cases hi with
    | publish hsel =>
      rw [(step_of_selected hsel).2] at h
      exact ⟨_, hsel, h⟩

/-- A message of a bridge is routed when it injects it. -/
theorem routed_bridge {cid : String} (h : .routed (.bridge cid) m ∈ (step P w l).2) :
    ∃ name, l.input = .call (.injectPublish name m) ∧ cid = bridgeClient name := by
  cases step_emits h with
  | routed hi =>
    cases hi with
    | bridge hin => exact ⟨_, hin, rfl⟩

end World

end WispMQ
