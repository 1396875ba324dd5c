import WispMQ.Restart
/-!
# The foreign key of the subscriptions

A subscription is written only for a session that is persistent in memory (subscribe.rs:86), and its row refers to the row
of the session (storage.rs:215-227). Every step that makes a session persistent, or leaves it so, has the session's row in
place by then, and the row goes only with the session (`Recorded.hasRow`). So the foreign key rejects no write, in any run
from any database (`foreignKey_kept`).
-/

namespace WispMQ
open KeyMap

/-! ## Commands that find their rows -/

/-- A command about the row of a session. -/
def Command.isSession : Command → Bool
  | .upsertSession .. | .deleteSession _ => true
  | _ => false

/-- Every subscription is written while its session has a row. -/
def Rows.Takes (r : Rows) : List Command → Prop
  | [] => True
  | c :: cmds => (∀ cid sub, c = .upsertSubscription cid sub → r.session.isSome = true) ∧ (r.apply c).Takes cmds

namespace Rows

theorem takes_append : ∀ {cmds cmds' : List Command} {r : Rows},
    r.Takes (cmds ++ cmds') ↔ r.Takes cmds ∧ (r.applyAll cmds).Takes cmds'
  | [], _, _ => by simp [Takes, applyAll]
  | c :: cmds, cmds', r => by
    rw [List.cons_append, Takes, takes_append, Takes, and_assoc]
    rfl

theorem Takes.of_none : ∀ {cmds : List Command} {r : Rows}, (∀ c ∈ cmds, ∀ cid sub, c ≠ .upsertSubscription cid sub) →
    r.Takes cmds
  | [], _, _ => trivial
  | c :: _, _, h =>
    ⟨fun cid sub hc => absurd hc (h c (List.mem_cons_self ..) cid sub),
      Takes.of_none fun c' hc' => h c' (List.mem_cons_of_mem _ hc')⟩

/-- Commands about subscriptions leave the row of the session alone. -/
theorem applyAll_session : ∀ {cmds : List Command} {r : Rows}, (∀ c ∈ cmds, c.isSession = false) →
    (r.applyAll cmds).session = r.session
  | [], _, _ => rfl
  | c :: cmds, r, h => by
    have hc : (r.apply c).session = r.session := by
      have := h c (List.mem_cons_self ..)
      cases c with
      | upsertSubscription cid sub =>
        simp only [apply]
        split <;> rfl
      | upsertSession => cases this
      | deleteSession => cases this
      | _ => rfl
    rw [← hc]
    exact applyAll_session fun c' hc' => h c' (List.mem_cons_of_mem _ hc')

end Rows

/-- A persistent session has its row. -/
def HasRow (a : Option Session) (r : Rows) : Prop := ∀ s, a = some s → s.persistent = true → r.session.isSome = true

theorem HasRow.none (r : Rows) : HasRow none r := by
  rintro s ⟨⟩

/-- A session that ends up persistent no matter what has its row written last. -/
theorem HasRow.stored {a : Option Session} {cid : String} {n : Nat} {owner : Option String} (cmds : List Command) (r : Rows) :
    HasRow a (r.applyAll (cmds ++ [.upsertSession cid n owner])) := by
  intro _ _ _
  rw [Rows.applyAll_append]
  rfl

theorem HasRow.transient {s : Session} (h : s.persistent = false) (r : Rows) : HasRow (some s) r := by
  rintro s' ⟨⟩ hp
  rw [h] at hp
  cases hp

namespace Recorded
variable {P : Protocol} {R : Session → Session → Prop} {cid : String} {a b : Option Session} {cmds : List Command}

/-- Commands that touch no session's row keep the row of a session that keeps its flag. -/
theorem hasRow_kept {s s' : Session} {r : Rows} (hp : s'.persistent = s.persistent) (hcmds : ∀ c ∈ cmds, c.isSession = false)
    (h : HasRow (some s) r) : HasRow (some s') (r.applyAll cmds) := by
  rintro s'' ⟨⟩ hs''
  rw [Rows.applyAll_session hcmds]
  exact h s rfl (hp ▸ hs'')

/-- Where subscriptions are only deleted the row is kept, and no subscription is written. -/
theorem hasRow_deletes {s s' : Session} {r : Rows} (hp : s'.persistent = s.persistent)
    (hcmds : ∀ c ∈ cmds, ∃ cid key, c = .deleteSubscription cid key) (h : HasRow (some s) r) :
    HasRow (some s') (r.applyAll cmds) ∧ r.Takes cmds := by
  refine ⟨hasRow_kept hp (fun c hc => ?_) h, .of_none fun c hc => ?_⟩
  · obtain ⟨cid, key, rfl⟩ := hcmds c hc
    rfl
  · obtain ⟨cid, key, rfl⟩ := hcmds c hc
    simp

/-- Whatever a step does to a client, a persistent session has its row afterwards, and has it whenever a subscription is
written. -/
theorem hasRow (h : Recorded P R cid a b cmds) : ∀ {r : Rows}, HasRow a r → HasRow b (r.applyAll cmds) ∧ r.Takes cmds := by
  induction h with
  | quiet h =>
    intro r hr
    cases h with
    | none => exact ⟨hr, trivial⟩
    | some h => exact ⟨hasRow_kept h.persistent (by simp) hr, trivial⟩
  | subscribe s sub rec hp hrec =>
    intro r hr
    have hsame : (s.upsertSubscription sub).1.persistent = s.persistent := by
      unfold Session.upsertSubscription
      split <;> rfl
    refine ⟨hasRow_kept hsame (fun c hc => ?_) hr, ?_⟩
    · obtain ⟨-, hc⟩ := List.mem_ite_nil_right.1 hc
      rw [List.mem_singleton.1 hc]
      rfl
    · split
      · rename_i hpers
        exact ⟨fun _ _ _ => hr s rfl hpers, trivial⟩
      · trivial
  | unsubscribe s raw =>
    intro r hr
    refine hasRow_deletes (s := s) rfl (fun c hc => ?_) hr
    obtain ⟨-, hc⟩ := List.mem_ite_nil_right.1 hc
    exact ⟨cid, raw, List.mem_singleton.1 hc⟩
  | restrict s acl =>
    intro r hr
    refine hasRow_deletes (s := s) rfl (fun c hc => ?_) hr
    obtain ⟨-, hc⟩ := List.mem_ite_nil_right.1 hc
    obtain ⟨sub, -, rfl⟩ := List.mem_map.1 hc
    exact ⟨_, _, rfl⟩
  | expiry s n =>
    intro r hr
    cases hp : s.persistent with
    | true => exact ⟨.stored [] r, ⟨by simp, trivial⟩⟩
    | false => exact ⟨.transient rfl _, trivial⟩
  | remove s => exact fun _ => ⟨.none _, ⟨by simp, trivial⟩⟩
  | create s clean hold hid hsubs hres =>
    intro r hr
    refine ⟨?_, .of_none fun c hc => ?_⟩
    · cases hp : s.persistent with
      | true => exact .stored _ r
      | false => exact .transient hp _
    · simp only [List.mem_append, List.mem_ite_nil_right, List.mem_singleton] at hc
      rcases hc with ⟨-, rfl⟩ | ⟨-, rfl⟩
      · simp
      · simp
  | resume s now cfg acl req epoch hres hR =>
    intro r hr
    refine ⟨?_, .of_none fun c hc => ?_⟩
    · cases hd : Broker.durable cfg req with
      | true => exact .stored _ r
      | false =>
        refine .transient ?_ _
        rw [← hd]
        simp only [Session.resumeBound, Broker.reauthorize]
        split <;> rfl
    · simp only [Broker.reauthorizeCommands, List.mem_append, List.mem_ite_nil_right, List.mem_singleton,
        List.mem_map] at hc
      rcases hc with (⟨-, rfl⟩ | ⟨-, sub, -, rfl⟩) | ⟨-, rfl⟩
      · simp
      · simp
      · simp
  | bridge hres h =>
    intro r hr
    refine ⟨fun s hs hp => ?_, trivial⟩
    obtain ⟨s₀, hs₀, hp₀⟩ := (h s hs).2 hp
    exact hr s₀ hs₀ hp₀
  | trans _ _ ih ih' =>
    intro r hr
    obtain ⟨hb, hcmds⟩ := ih hr
    obtain ⟨hc, hcmds'⟩ := ih' hb
    rw [Rows.applyAll_append, Rows.takes_append]
    exact ⟨hc, hcmds, hcmds'⟩

end Recorded

namespace World
open Broker
variable {P : Protocol} {w : World} {l : Label} {cid : String} {s : Session}

/-! ## Keys and waiting CONNECTs along a run -/

theorem boundSession_clientId (now : Nat) {b : Broker} (hk : Keyed b.sessions) (req : ConnectRequest) :
    (boundSession P now b req).clientId = req.clientId := by
  have hclaimed : (b.claimed req).1.clientId = req.clientId := by
    unfold claimed
    split
    · rename_i old hold
      have hlookup : b.sessions.lookup req.clientId = some old := by
        split at hold
        · cases hold
        · exact hold
      rw [← hk _ _ hlookup]
      simp only [Session.takenOver]
      split <;> rfl
    · rfl
  simp only [boundSession, reauthorize]
  split <;> exact hclaimed

theorem step_keyed (P : Protocol) (l : Label) (h : Keyed w.broker.sessions) : Keyed (step P w l).1.broker.sessions := by
  intro cid s' hs'
  rcases (step_change P w l).bound hs' with ⟨s, hs, hb, -⟩ | ⟨req, -, rfl, hb⟩ | ⟨name, -, -, rfl⟩
  · exact hb.clientId.trans (h cid s hs)
  · exact hb.clientId.trans (boundSession_clientId l.now h req)
  · rfl

theorem boot_keyed (P : Protocol) (now : Nat) (cfg : Config) (db : Db) (acl : Acl) (auth : Option Credentials) :
    Keyed (boot P now cfg db acl auth).broker.sessions := by
  intro cid s hs
  obtain ⟨-, row, -, rfl⟩ := boot_session hs
  rfl

/-! ## Every run -/

/-- After the commands `cmds` for the tables `db`. -/
structure Referenced (P : Protocol) (db : Db) (w : World) (cmds : List Command) : Prop where
  keyed : Keyed w.broker.sessions
  connects : w.ConnectsOk
  rows : ∀ cid, HasRow (w.broker.sessions.lookup cid) ((db.applyAll P cmds).rows cid)
  takes : ∀ cid, (db.rows cid).Takes (commandsFor cid cmds)

theorem Referenced.step {db : Db} {cmds : List Command} (l : Label) (h : w.Referenced P db cmds) :
    (step P w l).1.Referenced P db (cmds ++ commands (step P w l).2) := by
  have hrec : ∀ cid, Recorded P (fun _ _ => True) cid (w.broker.sessions.lookup cid)
      ((World.step P w l).1.broker.sessions.lookup cid) (commandsFor cid (commands (World.step P w l).2)) :=
    step_recorded h.keyed (fun req hsel => h.connects req (selected_mem hsel)) (fun _ _ _ _ _ => trivial)
  refine ⟨step_keyed P l h.keyed, step_connectsOk P l h.connects, fun cid => ?_, fun cid => ?_⟩
  · rw [Db.rows_applyAll, commandsFor_append, Rows.applyAll_append, ← Db.rows_applyAll]
    exact ((hrec cid).hasRow (h.rows cid)).1
  · rw [commandsFor_append, Rows.takes_append, ← Db.rows_applyAll]
    exact ⟨h.takes cid, ((hrec cid).hasRow (h.rows cid)).2⟩

theorem run_referenced (P : Protocol) (now : Nat) (cfg : Config) (db : Db) (acl : Acl) (auth : Option Credentials)
    (ls : List Label) :
    (run P (boot P now cfg db acl auth) ls).1.Referenced P db (commands (run P (boot P now cfg db acl auth) ls).2) := by
  refine Machine.run_invariant (step P) (fun w es => w.Referenced P db (commands es)) ?_
    (fun w es l h (_ : True) => ?_) ls (.of_forall _ (fun _ _ => trivial) _ _)
  · refine ⟨boot_keyed P now cfg db acl auth, by simp [ConnectsOk, boot], fun cid s hs _ => ?_, fun _ => trivial⟩
    -- a loaded session has the row it was loaded from
    obtain ⟨-, row, hrow, -⟩ := boot_session hs
    exact Option.isSome_iff_exists.2 ⟨row, hrow⟩
  · rw [commands_append]
    exact h.step l

end World

/-- No subscription has lost its session. -/
def Db.NoOrphan (db : Db) : Prop :=
  ∀ cid key row, db.subscriptions.lookup (cid, key) = some row → cid ∈ db.sessions

/-- The commands `cmds`, applied to `db` one after the other, keep to the foreign key. -/
structure ForeignKeyKept (P : Protocol) (db : Db) (cmds : List Command) : Prop where
  /-- A subscription is written while its session has a row, so the write is not rejected. -/
  upserts : ∀ pre cid sub post, cmds = pre ++ .upsertSubscription cid sub :: post →
    cid ∈ (db.applyAll P pre).sessions ∧
      (db.applyAll P (pre ++ [.upsertSubscription cid sub])).subscriptions.lookup (cid, sub.filter) = some sub.toRow
  /-- The row of a session takes the rows of its subscriptions with it. -/
  deletes : ∀ pre cid post, cmds = pre ++ .deleteSession cid :: post →
    ∀ key, (db.applyAll P (pre ++ [.deleteSession cid])).subscriptions.lookup (cid, key) = none
  orphans : db.NoOrphan → ∀ pre post, cmds = pre ++ post → (db.applyAll P pre).NoOrphan

theorem Db.noOrphan_iff {db : Db} : db.NoOrphan ↔ ∀ cid, (db.rows cid).ForeignKey := by
  constructor
  · exact fun h cid key row hr => AList.lookup_isSome.2 (h cid key row hr)
  · exact fun h cid key row hr => AList.lookup_isSome.1 (h cid key row hr)

/-- **Storage writes keep to the foreign key**, in every run from any database. -/
theorem foreignKey_kept (P : Protocol) (now : Nat) (cfg : Config) (db : Db) (acl : Acl) (auth : Option Credentials)
    (ls : List Label) : ForeignKeyKept P db (commands (World.run P (World.boot P now cfg db acl auth) ls).2) where
  upserts pre cid sub post h := by
    have htakes := (World.run_referenced P now cfg db acl auth ls).takes cid
    rw [h, commandsFor_append, Rows.takes_append, ← Db.rows_applyAll P] at htakes
    have hfor : commandsFor cid (.upsertSubscription cid sub :: post) = .upsertSubscription cid sub :: commandsFor cid post := by
      simp [commandsFor, Command.client]
    rw [hfor] at htakes
    have hmem : cid ∈ (db.applyAll P pre).sessions := AList.lookup_isSome.1 (htakes.2.1 cid sub rfl)
    refine ⟨hmem, ?_⟩
    have happly : db.applyAll P (pre ++ [.upsertSubscription cid sub]) =
        (db.applyAll P pre).apply P (.upsertSubscription cid sub) := by
      simp [Db.applyAll, List.foldl_append]
    rw [happly, Db.apply, if_pos hmem]
    exact AList.lookup_insert _
  deletes pre cid post _ key := by
    have hrows := Db.rows_applyAll P cid (pre ++ [.deleteSession cid]) db
    rw [commandsFor_append, Rows.applyAll_append] at hrows
    have hnone := congrFun (congrArg Rows.subscription hrows) key
    simpa [Db.rows, commandsFor, Command.client, Rows.applyAll, Rows.apply] using hnone
  orphans hdb pre post _ := by
    refine Db.noOrphan_iff.2 fun cid => ?_
    rw [Db.rows_applyAll]
    exact (Db.noOrphan_iff.1 hdb cid).applyAll _

end WispMQ
