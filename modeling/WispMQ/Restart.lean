import WispMQ.Durable
/-!
# What survives a restart

| here | there |
| --- | --- |
| `World.boot`             | `Storage::load_all`, then `Broker::new` (mod.rs:149) |
| `Db.applyAll … commands` | what the storage thread has written (storage.rs:352) |

`run_rows` carries an invariant of a session and its rows over a run. The two results say that the tables have
everything that is durable (`run_storedIn`) and nothing else (`run_rowsHeld`), in every run that avoids the
CONNECT that breaks it: `World.forgets` and `World.demotes`.
-/

namespace WispMQ
open KeyMap

/-! ## Runs -/

namespace World
variable {P : Protocol} {R : Session → Session → Prop} {w : World} {l : Label}

/-- What every session and every waiting CONNECT satisfies. -/
structure Tidy (P : Protocol) (w : World) : Prop where
  sessions : ∀ cid s, w.broker.sessions.lookup cid = some s → SessionOk P cid s
  connects : ∀ req, Task.connect req ∈ w.tasks → reservedClientId req.clientId = false

theorem Tidy.recorded (h : Tidy P w) (hR : Resumes P R w l) (cid : String) :
    Recorded P R cid (w.broker.sessions.lookup cid) ((step P w l).1.broker.sessions.lookup cid)
      (commandsFor cid (commands (step P w l).2)) :=
  step_recorded (fun cid s hs => (h.sessions cid s hs).clientId) (fun req hsel => h.connects req (selected_mem hsel))
    hR cid

theorem Tidy.step (hP : P.ParseSpec) (l : Label) (h : Tidy P w) : Tidy P (step P w l).1 where
  sessions cid := (h.recorded (R := fun _ _ => True) (fun _ _ _ _ _ => trivial) cid).sessionOk hP (h.sessions cid)
  connects := step_connectsOk P l h.connects

/-- The rows of a client the broker starts with, and the session it makes of them. -/
theorem boot_session {now : Nat} {cfg : Config} {db : Db} {acl : Acl} {auth : Option Credentials} {cid : String}
    {s : Session} (hs : (boot P now cfg db acl auth).broker.sessions.lookup cid = some s) :
    reservedClientId cid = false ∧ ∃ row, db.sessions.lookup cid = some row ∧
      s = Broker.restoreSession P ⟨cid, row.sessionExpiry, row.ownerIdentity, db.subsOf cid⟩ := by
  rw [boot_lookup] at hs
  split at hs
  · cases hs
  · rename_i hres
    obtain ⟨row, hrow, rfl⟩ := Option.map_eq_some_iff.1 hs
    exact ⟨by simpa using hres, row, hrow, rfl⟩

end World

theorem Db.mem_subsOf {db : Db} {cid : String} {rec : SubRecord} :
    rec ∈ db.subsOf cid ↔ ∃ key row, db.subscriptions.lookup (cid, key) = some row ∧ rec = row.toRecord key := by
  simp only [Db.subsOf, List.mem_map, List.mem_filter, decide_eq_true_eq]
  constructor
  · rintro ⟨⟨⟨c, key⟩, row⟩, ⟨hm, rfl⟩, rfl⟩
    exact ⟨key, row, mem_entries_iff.1 hm, rfl⟩
  · rintro ⟨key, row, hr, rfl⟩
    exact ⟨⟨(cid, key), row⟩, ⟨mem_entries_iff.2 hr, rfl⟩, rfl⟩

/-- The filters of a client's rows are distinct. -/
theorem Db.subsOf_nodup (db : Db) (cid : String) : ((db.subsOf cid).map SubRecord.filter).Nodup := by
  have hkeys : ((db.subscriptions.entries.filter fun e => e.1.1 = cid).map (·.1)).Nodup :=
    db.subscriptions.nodupKeys.sublist List.filter_sublist
  have hmap : (db.subsOf cid).map SubRecord.filter =
      ((db.subscriptions.entries.filter fun e => e.1.1 = cid).map (·.1)).map Prod.snd := by
    rw [Db.subsOf, List.map_map, List.map_map]
    rfl
  rw [hmap]
  refine hkeys.map_on fun x hx y hy he => Prod.ext ?_ he
  obtain ⟨ex, hex, rfl⟩ := List.mem_map.1 hx
  obtain ⟨ey, hey, rfl⟩ := List.mem_map.1 hy
  have hx1 := (List.mem_filter.1 hex).2
  have hy1 := (List.mem_filter.1 hey).2
  simp only [decide_eq_true_eq] at hx1 hy1
  rw [hx1, hy1]

theorem restored_subsOk {P : Protocol} (hP : P.ParseSpec) (db : Db) (cid : String) :
    SubsOk P ((db.subsOf cid).map (Broker.restoreSub P)) where
  target sub hs := by
    obtain ⟨rec, -, rfl⟩ := List.mem_map.1 hs
    rw [restoreSub_key hP, restoreSub_target]
  nodup := by
    rw [List.map_map]
    have h := db.subsOf_nodup cid
    rwa [show Subscription.key ∘ Broker.restoreSub P = SubRecord.filter from funext fun rec => restoreSub_key hP rec]

namespace World
variable {P : Protocol}

theorem boot_tidy (hP : P.ParseSpec) (now : Nat) (cfg : Config) (db : Db) (acl : Acl) (auth : Option Credentials) :
    Tidy P (boot P now cfg db acl auth) where
  sessions cid s hs := by
    obtain ⟨hres, row, -, rfl⟩ := boot_session hs
    exact ⟨rfl, fun _ => hres, fun _ => restored_subsOk hP db cid⟩
  connects req hm := by simp [boot] at hm

/-- What a broker starts with is stored. -/
theorem boot_stored (hP : P.ParseSpec) (now : Nat) (cfg : Config) (db : Db) (acl : Acl) (auth : Option Credentials)
    (cid : String) : Stored P ((boot P now cfg db acl auth).broker.sessions.lookup cid) (db.rows cid) := by
  intro s hs _
  obtain ⟨-, row, hrow, rfl⟩ := boot_session hs
  refine ⟨hrow, fun sub hm => ?_⟩
  obtain ⟨rec, hrec, rfl⟩ := List.mem_map.1 hm
  obtain ⟨key, srow, hsub, rfl⟩ := Db.mem_subsOf.1 hrec
  have hk : (Broker.restoreSub P (srow.toRecord key)).key = key := restoreSub_key hP _
  exact ⟨srow, by rw [hk]; exact hsub, by rw [hk]⟩

/-- The induction over a run: what everything a step can do to a client preserves, of its session and its rows. -/
theorem run_rows (hP : P.ParseSpec) {R : Session → Session → Prop} {ok : World → Label → Prop}
    (hok : ∀ w l, ok w l → Resumes P R w l) (Q : String → Option Session → Rows → Prop)
    (hQ : ∀ {cid a b cmds}, Recorded P R cid a b cmds → ∀ r : Rows, (∀ s, a = some s → SessionOk P cid s) →
      Q cid a r → Q cid b (r.applyAll cmds))
    (now : Nat) (cfg : Config) (db : Db) (acl : Acl) (auth : Option Credentials)
    (h0 : ∀ cid, Q cid ((boot P now cfg db acl auth).broker.sessions.lookup cid) (db.rows cid)) (ls : List Label)
    (ha : Machine.Along (step P) ok (boot P now cfg db acl auth) ls) (cid : String) :
    Q cid ((run P (boot P now cfg db acl auth) ls).1.broker.sessions.lookup cid)
      ((db.applyAll P (commands (run P (boot P now cfg db acl auth) ls).2)).rows cid) := by
  have h := Machine.run_invariant (step P)
    (fun w es => Tidy P w ∧ ∀ cid, Q cid (w.broker.sessions.lookup cid) ((db.applyAll P (commands es)).rows cid))
    ⟨boot_tidy hP now cfg db acl auth, h0⟩ (fun w es l hI hl => ?_) ls ha
  · exact h.2 cid
  · refine ⟨hI.1.step hP l, fun cid => ?_⟩
    rw [Db.rows_applyAll, commands_append, commandsFor_append, Rows.applyAll_append, ← Db.rows_applyAll]
    exact hQ (hI.1.recorded (hok w l hl) cid) _ (hI.1.sessions cid) (hI.2 cid)

theorem run_tidy (hP : P.ParseSpec) (now : Nat) (cfg : Config) (db : Db) (acl : Acl) (auth : Option Credentials)
    (ls : List Label) : Tidy P (run P (boot P now cfg db acl auth) ls).1 :=
  Machine.run_preserves (step P) (Tidy P) (fun _ l h => h.step hP l) (boot_tidy hP now cfg db acl auth) ls

/-! ### The two cases -/

/-- A CONNECT makes a session persistent that was not, and the session keeps a subscription: it is of the same
owner, and the policy grants it. -/
def forgets (P : Protocol) (w : World) (l : Label) : Bool :=
  match w.selected l.input with
  | some (.connect req) =>
    !req.connect.cleanStart && Broker.durable w.broker.config req &&
      (w.broker.sessions.lookup req.clientId).any fun s =>
        !s.persistent && !Broker.identityChanged s.identity req.identity &&
          s.subscriptions.any fun sub =>
            !w.broker.acl.isEnforced || w.broker.acl.canSubscribe P (who req.identity) sub.filter
  | _ => false

/-- A CONNECT resumes a persistent session and makes it one that is not. -/
def demotes (w : World) (l : Label) : Bool :=
  match w.selected l.input with
  | some (.connect req) =>
    !req.connect.cleanStart && !Broker.durable w.broker.config req &&
      (w.broker.sessions.lookup req.clientId).any (·.persistent)
  | _ => false

theorem resumes_of_not_forgets {w : World} {l : Label} (h : forgets P w l = false) :
    Resumes P (fun s s' => s.persistent = false → s'.persistent = true → s'.subscriptions = []) w l := by
  intro req s hsel hclean hs hp hp'
  have hd : Broker.durable w.broker.config req = true :=
    (Session.resumeBound_fields (P := P) l.now w.broker.config w.broker.acl req w.broker.nextEpoch s).2.1 ▸ hp'
  simp only [forgets, hsel, hclean, hd, hs, hp, Option.any_some, Bool.not_false, Bool.true_and,
    Bool.and_eq_false_iff, Bool.not_eq_false'] at h
  rw [Session.resumeBound_subscriptions, Session.inherited]
  rcases h with h | h
  · simp [h]
  · split
    · rfl
    · exact List.filter_eq_nil_iff.2 fun sub hm => by simpa using List.any_eq_false.1 h sub hm

theorem resumes_of_not_demotes {w : World} {l : Label} (h : demotes w l = false) :
    Resumes P (fun s s' => s.persistent = true → s'.persistent = true) w l := by
  intro req s hsel hclean hs hp
  rw [(Session.resumeBound_fields l.now w.broker.config w.broker.acl req w.broker.nextEpoch s).2.1]
  simpa [demotes, hsel, hclean, hs, hp] using h

end World

/-! ## Restart -/

/-- The tables hold the session and each of its subscriptions, with equal values. -/
structure StoredIn (db : Db) (cid : String) (s : Session) : Prop where
  session : db.sessions.lookup cid = some ⟨s.sessionExpiryInterval, s.identity⟩
  subscription : ∀ sub ∈ s.subscriptions, ∃ row, db.subscriptions.lookup (cid, sub.key) = some row ∧
    (row.toRecord sub.key).qos = sub.qos ∧ (row.toRecord sub.key).noLocal = sub.noLocal ∧
    (row.toRecord sub.key).retainAsPublished = sub.retainAsPublished ∧
    (row.toRecord sub.key).subscriptionIdentifier = sub.subscriptionIdentifier

/-- Every broker started on the tables has the session, with each of its subscriptions. -/
def RestoredBy (P : Protocol) (db : Db) (cid : String) (s : Session) : Prop :=
  ∀ now cfg acl auth, ∃ s', (World.boot P now cfg db acl auth).broker.sessions.lookup cid = some s' ∧
    s'.persistent = true ∧ s'.identity = s.identity ∧ s'.sessionExpiryInterval = s.sessionExpiryInterval ∧
    ∀ sub ∈ s.subscriptions, sub ∈ s'.subscriptions

theorem Stored.storedIn {P : Protocol} {db : Db} {cid : String} {s : Session} (h : Stored P (some s) (db.rows cid))
    (hp : s.persistent = true) : StoredIn db cid s := by
  obtain ⟨hrow, hsubs⟩ := h s rfl hp
  refine ⟨hrow, fun sub hm => ?_⟩
  obtain ⟨row, hr, he⟩ := hsubs sub hm
  exact ⟨row, hr, congrArg Subscription.qos he, congrArg Subscription.noLocal he,
    congrArg Subscription.retainAsPublished he, congrArg Subscription.subscriptionIdentifier he⟩

theorem Stored.restoredBy {P : Protocol} {db : Db} {cid : String} {s : Session} (h : Stored P (some s) (db.rows cid))
    (hp : s.persistent = true) (hres : reservedClientId cid = false) : RestoredBy P db cid s := by
  obtain ⟨hrow, hsubs⟩ := h s rfl hp
  intro now cfg acl auth
  refine ⟨Broker.restoreSession P ⟨cid, s.sessionExpiryInterval, s.identity, db.subsOf cid⟩, ?_, rfl, rfl, rfl,
    fun sub hm => ?_⟩
  · rw [World.boot_lookup, hres, show db.sessions.lookup cid = _ from hrow]
    rfl
  · obtain ⟨row, hr, he⟩ := hsubs sub hm
    exact List.mem_map.2 ⟨_, Db.mem_subsOf.2 ⟨_, row, hr, rfl⟩, he⟩

/-- **No durable state is lost**: in every run in which no CONNECT makes a session persistent that keeps
subscriptions from before, the tables hold every persistent session with its subscriptions, and a restart on
them brings all of it back. -/
theorem run_storedIn (P : Protocol) (hP : P.ParseSpec) (now : Nat) (cfg : Config) (db : Db) (acl : Acl)
    (auth : Option Credentials) (ls : List Label)
    (h : Machine.Along (World.step P) (fun w l => World.forgets P w l = false) (World.boot P now cfg db acl auth) ls)
    (cid : String) (s : Session)
    (hs : (World.run P (World.boot P now cfg db acl auth) ls).1.broker.sessions.lookup cid = some s)
    (hp : s.persistent = true) :
    StoredIn (db.applyAll P (commands (World.run P (World.boot P now cfg db acl auth) ls).2)) cid s ∧
      RestoredBy P (db.applyAll P (commands (World.run P (World.boot P now cfg db acl auth) ls).2)) cid s := by
  have hst := World.run_rows hP (fun w l => World.resumes_of_not_forgets (P := P)) (fun _ => Stored P)
    (fun hrec => hrec.stored hP fun _ _ h => h) now cfg db acl auth (World.boot_stored hP now cfg db acl auth) ls h cid
  rw [hs] at hst
  have hres := ((World.run_tidy hP now cfg db acl auth ls).sessions cid s hs).unreserved hp
  exact ⟨hst.storedIn hp, hst.restoredBy hp hres⟩

namespace World

/-- A client that connects, subscribes to `"t"`, and resumes its session, with the given Session Expiry
Intervals. -/
def comeback (first second : Nat) : List Label :=
  connecting { clientId := "c", cleanStart := false, sessionExpiryInterval := some first } ++
  sending "c" 1 (.subscribe ⟨1, [{ filter := "t", qos := .atLeastOnce }], []⟩) ++
  connecting { clientId := "c", cleanStart := false, sessionExpiryInterval := some second }

def comebackWorld (first second : Nat) : World × List Effect :=
  run .reference (boot .reference 0 {} {} .permitAll none) (comeback first second)

/-- The tables after it. -/
def comebackDb (first second : Nat) : Db := Db.applyAll .reference {} (commands (comebackWorld first second).2)

end World

theorem run_storedIn_comeback :
    ∃ s, (World.comebackWorld 60 30).1.broker.sessions.lookup "c" = some s ∧
      StoredIn (World.comebackDb 60 30) "c" s ∧ RestoredBy .reference (World.comebackDb 60 30) "c" s := by
  have h : ((World.comebackWorld 60 30).1.broker.sessions.lookup "c").map (·.persistent) = some true := by
    decide +kernel
  obtain ⟨s, hs, hp⟩ := Option.map_eq_some_iff.1 h
  exact ⟨s, hs, run_storedIn .reference parseSpec_reference 0 {} {} .permitAll none (World.comeback 60 30)
    (by decide +kernel) "c" s hs hp⟩

/-- The session becomes persistent with a subscription the tables do not have. -/
theorem comeback_forgotten :
    ((World.comebackWorld 0 60).1.broker.sessions.lookup "c").map (fun s => (s.persistent, s.subscriptions.map (·.key))) =
      some (true, ["t"]) ∧
    (World.comebackDb 0 60).subscriptions.lookup ("c", "t") = none ∧
    ¬∀ cid s, (World.comebackWorld 0 60).1.broker.sessions.lookup cid = some s → s.persistent = true →
      StoredIn (World.comebackDb 0 60) cid s := by
  have hmem : ((World.comebackWorld 0 60).1.broker.sessions.lookup "c").map
      (fun s => (s.persistent, s.subscriptions.map (·.key))) = some (true, ["t"]) := by decide +kernel
  have hrow : (World.comebackDb 0 60).subscriptions.lookup ("c", "t") = none := by decide +kernel
  refine ⟨hmem, hrow, fun hall => ?_⟩
  obtain ⟨s, hs, he⟩ := Option.map_eq_some_iff.1 hmem
  obtain ⟨hp, hkeys⟩ := Prod.mk.injEq .. ▸ he
  obtain ⟨sub, hsub, hkey⟩ := List.mem_map.1 (hkeys ▸ List.mem_singleton_self "t" : "t" ∈ s.subscriptions.map (·.key))
  obtain ⟨row, hr, -⟩ := (hall "c" s hs hp).subscription sub hsub
  rw [hkey, hrow] at hr
  cases hr

/-- Tables as the broker leaves them: a subscription has its session, and no client id is reserved. -/
structure Db.WellFormed (db : Db) : Prop where
  foreignKey : ∀ cid key row, db.subscriptions.lookup (cid, key) = some row → (db.sessions.lookup cid).isSome = true
  unreserved : ∀ cid row, db.sessions.lookup cid = some row → reservedClientId cid = false

theorem Db.wellFormed_empty : Db.WellFormed {} where
  foreignKey _ _ _ h := by cases h
  unreserved _ _ h := by cases h

/-- Every run leaves well-formed tables well formed, for the next broker to start on. -/
theorem run_wellFormed (P : Protocol) (hP : P.ParseSpec) (now : Nat) (cfg : Config) {db : Db} (hdb : db.WellFormed)
    (acl : Acl) (auth : Option Credentials) (ls : List Label) :
    (db.applyAll P (commands (World.run P (World.boot P now cfg db acl auth) ls).2)).WellFormed := by
  have hboot : ∀ cid, reservedClientId cid = true → (db.rows cid).session = none := by
    refine fun cid hres => Option.eq_none_iff_forall_ne_some.2 fun row hr => ?_
    simp [hdb.unreserved cid row hr] at hres
  have h := World.run_rows hP (R := fun _ _ => True) (fun _ _ (_ : True) _ _ _ _ _ => trivial)
    (fun cid _ r => r.ForeignKey ∧ (reservedClientId cid = true → r.session = none))
    (fun hrec r ha hq => ⟨hq.1.applyAll _, fun hres => hrec.session_none hP hres r ha (hq.2 hres)⟩) now cfg db acl auth
    (fun cid => ⟨hdb.foreignKey cid, hboot cid⟩) ls (.of_forall _ (fun _ _ => trivial) _ _)
  refine ⟨fun cid => (h cid).1, fun cid row hr => ?_⟩
  by_contra hres
  have hnone := (h cid).2 (by simpa using hres)
  exact Option.some_ne_none row (hr.symm.trans hnone)

/-- What a broker starts with is all there is. -/
theorem World.boot_fresh {P : Protocol} {db : Db} (hdb : db.WellFormed) (now : Nat) (cfg : Config) (acl : Acl)
    (auth : Option Credentials) (cid : String) :
    Fresh P ((boot P now cfg db acl auth).broker.sessions.lookup cid) (db.rows cid) := by
  have hboot : ∀ row, db.sessions.lookup cid = some row →
      (boot P now cfg db acl auth).broker.sessions.lookup cid =
        some (Broker.restoreSession P ⟨cid, row.sessionExpiry, row.ownerIdentity, db.subsOf cid⟩) := by
    intro row hrow
    rw [boot_lookup, hdb.unreserved cid row hrow, hrow]
    rfl
  refine ⟨fun row hrow => ⟨_, hboot row hrow, rfl⟩, fun key srow hsub => ?_⟩
  obtain ⟨row, hrow⟩ := Option.isSome_iff_exists.1 (hdb.foreignKey cid key srow hsub)
  exact ⟨_, hboot row hrow, rfl, List.mem_map.2 ⟨_, Db.mem_subsOf.2 ⟨key, srow, hsub, rfl⟩, rfl⟩⟩

/-- Every row is of a persistent session or of a subscription it holds, and a broker started on the tables has
nothing else. -/
structure RowsHeld (P : Protocol) (db : Db) (w : World) : Prop where
  session : ∀ cid row, db.sessions.lookup cid = some row →
    ∃ s, w.broker.sessions.lookup cid = some s ∧ s.persistent = true
  subscription : ∀ cid key row, db.subscriptions.lookup (cid, key) = some row →
    ∃ s, w.broker.sessions.lookup cid = some s ∧ s.persistent = true ∧
      ∃ sub ∈ s.subscriptions, (sub.shareName, sub.filter) = Broker.unsubscribeTarget P key
  restart : ∀ now cfg acl auth cid s', (World.boot P now cfg db acl auth).broker.sessions.lookup cid = some s' →
    ∃ s, w.broker.sessions.lookup cid = some s ∧ s.persistent = true ∧
      ∀ sub ∈ s'.subscriptions, sub ∈ s.subscriptions

/-- **No durable state comes back**: in every run from well-formed tables in which no CONNECT makes a persistent
session one that is not, the tables hold only what the broker treats as durable. -/
theorem run_rowsHeld (P : Protocol) (hP : P.ParseSpec) (now : Nat) (cfg : Config) (db : Db) (hdb : db.WellFormed)
    (acl : Acl) (auth : Option Credentials) (ls : List Label)
    (h : Machine.Along (World.step P) (fun w l => World.demotes w l = false) (World.boot P now cfg db acl auth) ls) :
    RowsHeld P (db.applyAll P (commands (World.run P (World.boot P now cfg db acl auth) ls).2))
      (World.run P (World.boot P now cfg db acl auth) ls).1 := by
  set w := (World.run P (World.boot P now cfg db acl auth) ls).1
  set db' := db.applyAll P (commands (World.run P (World.boot P now cfg db acl auth) ls).2)
  have hf : ∀ cid, (db'.rows cid).ForeignKey ∧ Fresh P (w.broker.sessions.lookup cid) (db'.rows cid) := fun cid =>
    World.run_rows hP (fun w l => World.resumes_of_not_demotes (P := P)) (fun _ a r => r.ForeignKey ∧ Fresh P a r)
      (fun hrec r ha hq => ⟨hq.1.applyAll _, hrec.fresh hP (fun _ _ h => h) r hq.1 ha hq.2⟩) now cfg db acl auth
      (fun cid => ⟨hdb.foreignKey cid, World.boot_fresh hdb now cfg acl auth cid⟩) ls h cid
  refine ⟨fun cid => (hf cid).2.session, fun cid key row hr => ?_, fun _ _ _ _ cid s' hs' => ?_⟩
  · obtain ⟨s, hs, hp, hm⟩ := (hf cid).2.subscription key row hr
    exact ⟨s, hs, hp, _, hm, restoreSub_target _⟩
  · obtain ⟨-, row, hrow, rfl⟩ := World.boot_session hs'
    obtain ⟨s, hs, hp⟩ := (hf cid).2.session row hrow
    refine ⟨s, hs, hp, fun sub hm => ?_⟩
    obtain ⟨rec, hrec, rfl⟩ := List.mem_map.1 hm
    obtain ⟨key, srow, hsub, rfl⟩ := Db.mem_subsOf.1 hrec
    exact (hs ▸ (hf cid).2).mem hsub

theorem run_rowsHeld_comeback : RowsHeld .reference (World.comebackDb 60 30) (World.comebackWorld 60 30).1 :=
  run_rowsHeld .reference parseSpec_reference 0 {} {} Db.wellFormed_empty .permitAll none (World.comeback 60 30)
    (by decide +kernel)

/-- The session is not persistent any more, and its rows are still there. -/
theorem comeback_demoted :
    ((World.comebackWorld 60 0).1.broker.sessions.lookup "c").map (·.persistent) = some false ∧
    ((World.comebackDb 60 0).sessions.lookup "c").isSome = true ∧
    ¬RowsHeld .reference (World.comebackDb 60 0) (World.comebackWorld 60 0).1 := by
  have hmem : ((World.comebackWorld 60 0).1.broker.sessions.lookup "c").map (·.persistent) = some false := by
    decide +kernel
  have hrow : ((World.comebackDb 60 0).sessions.lookup "c").isSome = true := by decide +kernel
  refine ⟨hmem, hrow, fun hheld => ?_⟩
  obtain ⟨row, hr⟩ := Option.isSome_iff_exists.1 hrow
  obtain ⟨s, hs, hp⟩ := hheld.session "c" row hr
  simp [hs, hp] at hmem

end WispMQ
