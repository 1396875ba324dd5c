import WispMQ.Effects
import WispMQ.Epochs
/-!
# What a step writes to the database

The tables seen from one client are its `Rows`, and only the commands that name the client change them.
`Recorded` lists what a step can do to a client's session together with the commands it sends for that client;
`World.step_recorded` says that every step does one of these things for every client.
-/

namespace WispMQ
open KeyMap

/-! ## The rows of one client -/

/-- The client a command is about; retained messages belong to none. -/
def Command.client : Command → Option String
  | .upsertRetained .. | .deleteRetained _ => none
  | .upsertSession cid .. | .deleteSession cid | .upsertSubscription cid _ | .deleteSubscription cid _
  | .clearSubscriptions cid => some cid

def commandsFor (cid : String) (cmds : List Command) : List Command := cmds.filter (·.client = some cid)

@[simp] theorem commandsFor_append (cid : String) (cmds cmds' : List Command) :
    commandsFor cid (cmds ++ cmds') = commandsFor cid cmds ++ commandsFor cid cmds' := List.filter_append ..

theorem commandsFor_eq_self {cid : String} {cmds : List Command} (h : ∀ c ∈ cmds, c.client = some cid) :
    commandsFor cid cmds = cmds := List.filter_eq_self.2 fun c hc => by simp [h c hc]

theorem commandsFor_eq_nil {cid : String} {cmds : List Command} (h : ∀ c ∈ cmds, c.client ≠ some cid) :
    commandsFor cid cmds = [] := List.filter_eq_nil_iff.2 fun c hc => by simp [h c hc]

/-- A client's row in `sessions` and its rows in `subscriptions`, by filter. -/
@[ext] structure Rows where
  session : Option SessionRow
  subscription : String → Option SubRow

/-- A command about the client. -/
def Rows.apply (r : Rows) : Command → Rows
  | .upsertSession _ expiry owner => { r with session := some ⟨expiry, owner⟩ }
  | .deleteSession _ => ⟨none, fun _ => none⟩
  | .upsertSubscription _ sub =>
    if r.session.isSome then { r with subscription := Function.update r.subscription sub.filter (some sub.toRow) }
    else r
  | .deleteSubscription _ filter => { r with subscription := Function.update r.subscription filter none }
  | .clearSubscriptions _ => { r with subscription := fun _ => none }
  | .upsertRetained .. | .deleteRetained _ => r

def Rows.applyAll (r : Rows) (cmds : List Command) : Rows := cmds.foldl Rows.apply r

theorem Rows.applyAll_append (r : Rows) (cmds cmds' : List Command) :
    r.applyAll (cmds ++ cmds') = (r.applyAll cmds).applyAll cmds' := List.foldl_append

theorem Rows.applyAll_delete (cid : String) : ∀ (keys : List String) (r : Rows),
    r.applyAll (keys.map (.deleteSubscription cid)) =
      { r with subscription := fun key => if key ∈ keys then none else r.subscription key }
  | [], r => by simp [applyAll]
  | k :: keys, r => by
    rw [List.map_cons, applyAll, List.foldl_cons]
    have ih := applyAll_delete cid keys (r.apply (.deleteSubscription cid k))
    rw [applyAll] at ih
    rw [ih]
    ext1
    · rfl
    · funext key
      by_cases hk : key = k
      · subst hk; simp [apply]
      · simp [apply, hk]

namespace Db
variable (P : Protocol)

def rows (db : Db) (cid : String) : Rows := ⟨db.sessions.lookup cid, fun key => db.subscriptions.lookup (cid, key)⟩

theorem rows_apply (db : Db) (c : Command) (cid : String) :
    (db.apply P c).rows cid = if c.client = some cid then (db.rows cid).apply c else db.rows cid := by
  have hne : ∀ {c : String}, ¬c = cid → ¬cid = c := fun h e => h e.symm
  have hkeep : ∀ {c : String}, ¬c = cid → ∀ key,
      (filterEntries db.subscriptions fun k _ => k.1 != c).lookup (cid, key) = db.subscriptions.lookup (cid, key) := by
    intro c h key
    rw [lookup_filterEntries]
    cases db.subscriptions.lookup (cid, key) <;> simp [hne h]
  cases c with
  | upsertRetained topic m => simp [apply, rows, Command.client]
  | deleteRetained topic => simp [apply, rows, Command.client]
  | upsertSession c expiry owner =>
    by_cases h : c = cid
    · subst h; simp [apply, rows, Command.client, Rows.apply]
    · simp [apply, rows, Command.client, h, hne h]
  | deleteSession c =>
    by_cases h : c = cid
    · subst h; simp [apply, rows, Command.client, Rows.apply, lookup_filterEntries]
    · simp [apply, rows, Command.client, h, hne h, hkeep h]
  | upsertSubscription c sub =>
    by_cases h : c = cid
    · subst h
      by_cases hs : c ∈ db.sessions
      · have hs' := AList.lookup_isSome.2 hs
        simp only [apply, rows, Command.client, Rows.apply, if_true, hs, hs']
        ext1
        · rfl
        · funext key; simp [lookup_insert_if, Function.update_apply]
      · have hs' : ¬(db.sessions.lookup c).isSome := fun h => hs (AList.lookup_isSome.1 h)
        simp [apply, rows, Command.client, Rows.apply, hs, hs']
    · simp only [apply, rows, Command.client, Option.some.injEq, h, if_false]
      split <;> simp [hne h]
  | deleteSubscription c filter =>
    by_cases h : c = cid
    · subst h
      simp only [apply, rows, Command.client, Rows.apply, if_true]
      ext1
      · rfl
      · funext key; simp [lookup_erase_if, Function.update_apply]
    · simp [apply, rows, Command.client, h, hne h]
  | clearSubscriptions c =>
    by_cases h : c = cid
    · subst h; simp [apply, rows, Command.client, Rows.apply, lookup_filterEntries]
    · simp [apply, rows, Command.client, h, hkeep h]

/-- The rows of a client depend on its own commands only. -/
theorem rows_applyAll (cid : String) : ∀ (cmds : List Command) (db : Db),
    (db.applyAll P cmds).rows cid = (db.rows cid).applyAll (commandsFor cid cmds)
  | [], _ => rfl
  | c :: cmds, db => by
    rw [applyAll, List.foldl_cons]
    have ih := rows_applyAll cid cmds (db.apply P c)
    rw [applyAll] at ih
    rw [ih, rows_apply]
    by_cases h : c.client = some cid
    · simp [commandsFor, h, Rows.applyAll]
    · simp [commandsFor, h]

end Db

/-! ## What a step does to a client -/

/-- The session without the subscription an UNSUBSCRIBE names, and whether there was one. -/
def Session.unsubscribed (P : Protocol) (s : Session) (raw : String) : Session × Bool :=
  s.removeSubscription (Broker.unsubscribeTarget P raw).2 (Broker.unsubscribeTarget P raw).1

/-- A session and the commands sent for its client, over one step. `R` is asked of every session a CONNECT
resumes and what it is bound to. -/
inductive Recorded (P : Protocol) (R : Session → Session → Prop) (cid : String) :
    Option Session → Option Session → List Command → Prop
  /-- Nothing the database stores changes. -/
  | quiet {a b : Option Session} (h : Option.Rel Session.SameRecord a b) : Recorded P R cid a b []
  | subscribe (s : Session) (sub : Subscription) (rec : SubRecord)
      (hp : P.parseFilter rec.filter = some ⟨sub.shareName, sub.filter⟩)
      (hrec : (rec.qos, rec.noLocal, rec.retainAsPublished, rec.subscriptionIdentifier) =
        (sub.qos, sub.noLocal, sub.retainAsPublished, sub.subscriptionIdentifier)) :
      Recorded P R cid (some s) (some (s.upsertSubscription sub).1)
        (if s.persistent then [.upsertSubscription cid rec] else [])
  | unsubscribe (s : Session) (raw : String) :
      Recorded P R cid (some s) (some (s.unsubscribed P raw).1)
        (if (s.unsubscribed P raw).2 && s.persistent then [.deleteSubscription cid raw] else [])
  /-- A new policy takes subscriptions away. -/
  | restrict (s : Session) (acl : Acl) :
      Recorded P R cid (some s) (some (s.retainAuthorized P acl))
        (if s.persistent then (s.unauthorized P acl).map fun sub => .deleteSubscription cid sub.key else [])
  | expiry (s : Session) (n : Nat) :
      Recorded P R cid (some s) (some { s with sessionExpiryInterval := n })
        (if s.persistent then [.upsertSession cid n s.identity] else [])
  | remove (s : Session) : Recorded P R cid (some s) none [.deleteSession cid]
  /-- A CONNECT makes a new session. -/
  | create {old : Option Session} (s : Session) (clean : Bool) (hold : clean = false → old = none)
      (hid : s.clientId = cid) (hsubs : s.subscriptions = []) (hres : reservedClientId cid = false) :
      Recorded P R cid old (some s)
        ((if clean then [.deleteSession cid] else []) ++
          if s.persistent then [.upsertSession cid s.sessionExpiryInterval s.identity] else [])
  /-- A CONNECT resumes a session. -/
  | resume (s : Session) (now : Nat) (cfg : Config) (acl : Acl) (req : ConnectRequest) (epoch : Nat)
      (hres : reservedClientId cid = false) (hR : R s (s.resumeBound P now cfg acl req epoch)) :
      Recorded P R cid (some s) (some (s.resumeBound P now cfg acl req epoch))
        ((if Broker.identityChanged s.identity req.identity && s.persistent then [.clearSubscriptions cid] else []) ++
          Broker.reauthorizeCommands P acl true cid ((s.takenOver req.identity).bind cfg req epoch) ++
          if Broker.durable cfg req then [.upsertSession cid (Broker.requestedExpiry cfg req) req.identity] else [])
  /-- A bridge's session, which is not stored. -/
  | bridge {old new : Option Session} (hres : reservedClientId cid = true)
      (h : ∀ s, new = some s → s.clientId = cid ∧
        (s.persistent = true → ∃ s₀, old = some s₀ ∧ s₀.persistent = true)) :
      Recorded P R cid old new []
  | trans {a b c : Option Session} {cmds cmds' : List Command} (h : Recorded P R cid a b cmds)
      (h' : Recorded P R cid b c cmds') : Recorded P R cid a c (cmds ++ cmds')

theorem sameRecord_refl : ∀ a : Option Session, Option.Rel Session.SameRecord a a
  | none => .none
  | some s => .some (.refl s)

namespace Recorded
variable {P : Protocol} {R : Session → Session → Prop} {cid : String} {a b c : Option Session} {cmds : List Command}

theorem same (h : b = a) : Recorded P R cid a b [] := .quiet (h ▸ sameRecord_refl a)

/-- And then something the database does not store. -/
theorem thenQuiet (h : Recorded P R cid a b cmds) (hq : Option.Rel Session.SameRecord b c) :
    Recorded P R cid a c cmds := by
  simpa using h.trans (.quiet hq)

end Recorded

theorem mem_commands {c : Command} : ∀ {es : List Effect}, c ∈ commands es ↔ .store c ∈ es
  | [] => by simp [commands]
  | e :: es => by cases e <;> simp [commands, mem_commands]

/-- Publishing stores nothing about a client. -/
theorem client_of_routing {es : List Effect} (h : ∀ e ∈ es, e.isRouting) : ∀ c ∈ commands es, c.client = none := by
  intro c hc
  have := h _ (mem_commands.1 hc)
  cases c <;> simp_all [Effect.isRouting, Command.client]

theorem Op.isQuiet_of_isRouting {o : Op} (h : o.isRouting) : o.isQuiet := by
  cases o <;> simp_all [Op.isRouting, Op.isQuiet]

theorem Fleet.apply_op_sameRecord (P : Protocol) (f : Fleet) {o : Op} (h : o.isQuiet) (cid c : String) :
    Option.Rel Session.SameRecord (f.session c) (((Move.op cid o).apply P f).session c) := by
  cases hf : f.session cid with
  | none => simp only [Move.apply, hf]; exact sameRecord_refl _
  | some s =>
    rw [Fleet.apply_op hf]
    by_cases hc : c = cid
    · subst hc
      simp only [Function.update_self, hf]
      exact .some (Session.apply_quiet P s h)
    · simp only [Function.update_of_ne hc]
      exact sameRecord_refl _

theorem Fleet.Reaches.sameRecord {P : Protocol} {f f' : Fleet} (h : Fleet.Reaches P (Move.IsOp Op.isQuiet) f f')
    (c : String) : Option.Rel Session.SameRecord (f.session c) (f'.session c) :=
  h.session_rel Session.SameRecord.refl (fun _ _ _ => .trans) (fun s _ ho => Session.apply_quiet P s ho) c

/-- What a critical section does to every client. -/
def Outcome.Records (P : Protocol) (R : Session → Session → Prop) (b : Broker) (o : Outcome) : Prop :=
  ∀ cid, Recorded P R cid (b.sessions.lookup cid) (o.broker.sessions.lookup cid) (commandsFor cid (commands o.effects))

namespace Outcome.Records
variable {P : Protocol} {R : Session → Session → Prop} {b : Broker} {o : Outcome}

theorem quiet (h : ∀ c, Option.Rel Session.SameRecord (b.sessions.lookup c) (o.broker.sessions.lookup c))
    (hc : ∀ c ∈ commands o.effects, c.client = none) : o.Records P R b := by
  intro cid
  rw [commandsFor_eq_nil fun c hm => by simp [hc c hm]]
  exact .quiet (h cid)

theorem same (h : o.broker.sessions = b.sessions) (hc : ∀ c ∈ commands o.effects, c.client = none) :
    o.Records P R b := quiet (fun _ => h ▸ sameRecord_refl _) hc

theorem routing (h : Fleet.Reaches P (Move.IsOp Op.isRouting) b.fleet o.broker.fleet)
    (he : ∀ e ∈ o.effects, e.isRouting) : o.Records P R b :=
  quiet (fun c => (h.mono fun mv hmv => by cases mv <;> first | exact Op.isQuiet_of_isRouting hmv | exact hmv).sameRecord c)
    (client_of_routing he)

/-- Only one client is affected. -/
theorem single (cid : String) (hother : ∀ c, c ≠ cid → o.broker.sessions.lookup c = b.sessions.lookup c)
    (hc : ∀ c ∈ commands o.effects, c.client = some cid)
    (h : Recorded P R cid (b.sessions.lookup cid) (o.broker.sessions.lookup cid) (commands o.effects)) :
    o.Records P R b := by
  intro c
  by_cases hcid : c = cid
  · subst hcid
    rwa [commandsFor_eq_self hc]
  · rw [commandsFor_eq_nil fun x hx => by rw [hc x hx]; simpa using Ne.symm hcid]
    exact .same (hother c hcid)

end Outcome.Records

namespace Broker
variable {P : Protocol} {R : Session → Session → Prop} {b : Broker}

theorem lookup_setSession (b : Broker) (cid c : String) (s : Session) :
    (b.setSession cid s).sessions.lookup c = if c = cid then some s else b.sessions.lookup c :=
  lookup_insert_if _ _ _ _

/-! ### SUBSCRIBE and UNSUBSCRIBE -/

theorem subscribeFilter_recorded (now : Nat) (ord : Orders) (b : Broker) (cid : String) (subId : Option Nat)
    (acc : SubscribeAcc) (f : TopicFilter) :
    ∃ cs, (subscribeFilter P now ord b cid subId acc f).commands = acc.commands ++ cs ∧
      (∀ c ∈ cs, c.client = some cid) ∧
      Recorded P R cid (some acc.session) (some (subscribeFilter P now ord b cid subId acc f).session) cs := by
  unfold subscribeFilter
  split
  · exact ⟨[], by simp, by simp, .same rfl⟩
  · split
    · exact ⟨[], by simp, by simp, .same rfl⟩
    · rename_i parsed hp
      split
      · exact ⟨[], by simp, by simp, .same rfl⟩
      · refine ⟨_, rfl, ?_, .subscribe acc.session _ _ hp rfl⟩
        split <;> simp [Command.client]

theorem subscribeFilters_recorded (now : Nat) (ord : Orders) (b : Broker) (cid : String) (subId : Option Nat) :
    ∀ (fs : List TopicFilter) (acc : SubscribeAcc),
      ∃ cs, (fs.foldl (subscribeFilter P now ord b cid subId) acc).commands = acc.commands ++ cs ∧
        (∀ c ∈ cs, c.client = some cid) ∧
        Recorded P R cid (some acc.session) (some (fs.foldl (subscribeFilter P now ord b cid subId) acc).session) cs
  | [], acc => ⟨[], by simp, by simp, .same rfl⟩
  | f :: fs, acc => by
    obtain ⟨cs, h1, h2, h3⟩ := subscribeFilter_recorded (P := P) (R := R) now ord b cid subId acc f
    obtain ⟨cs', h1', h2', h3'⟩ := subscribeFilters_recorded now ord b cid subId fs
      (subscribeFilter P now ord b cid subId acc f)
    refine ⟨cs ++ cs', ?_, by simpa [or_imp, forall_and] using ⟨h2, h2'⟩, h3.trans h3'⟩
    rw [List.foldl_cons, h1', h1, List.append_assoc]

theorem deliverRetained_sameRecord (now maxQueued : Nat) : ∀ (es : List (Message × QoS × List Nat)) (acc : Session × Nat),
    acc.1.SameRecord (es.foldl (deliverRetained P now maxQueued) acc).1
  | [], _ => .refl _
  | e :: es, acc =>
    (Session.SameRecord.delivered (deliver_delivered P now acc.1 e.1 e.2.1 true e.2.2 maxQueued)).trans
      (deliverRetained_sameRecord now maxQueued es (deliverRetained P now maxQueued acc e))

/-- The epoch check itself records nothing. -/
theorem fenced_records {cid : String} {epoch : Nat} {body : Session → Outcome}
    (h : ∀ s, b.sessions.lookup cid = some s → s.epoch = epoch → (body s).Records P R b) :
    (b.fenced cid epoch body).Records P R b := by
  unfold fenced
  split
  · rename_i s hs
    split
    · rename_i he; exact h s hs he
    · exact .same rfl (by simp [answer, commands])
  · exact .same rfl (by simp [answer, commands])

theorem handleSubscribe_records (now : Nat) (ord : Orders) (cid : String) (epoch : Nat) (sub : Subscribe) :
    (handleSubscribe P now ord b cid epoch sub).Records P R b := by
  refine fenced_records fun s hs _ => ?_
  obtain ⟨cs, h1, h2, h3⟩ := subscribeFilters_recorded (P := P) (R := R) now ord b cid
    sub.subscriptionIdentifiers.head? sub.filters { session := s }
  set acc := sub.filters.foldl (subscribeFilter P now ord b cid sub.subscriptionIdentifiers.head?)
    { session := s }
  simp only [List.nil_append] at h1
  refine .single cid (fun c hc => by simp [addDropped, lookup_setSession, hc]) ?_ ?_
  · simpa [commands, h1] using h2
  · simp only [commands_append, commands_map_store, commands, List.append_nil, h1, addDropped, lookup_setSession,
      if_true, hs]
    have hpush := Session.SameRecord.push acc.session (.control (.suback ⟨sub.packetId, acc.reasonCodes⟩))
    exact h3.thenQuiet (.some (hpush.trans (deliverRetained_sameRecord now _ _ (_, 0))))

theorem unsubscribeFilters_recorded (cid : String) :
    ∀ (fs : List String) (acc : Session × List ReasonCode × List Command),
      ∃ cs, (fs.foldl (unsubscribeFilter P cid) acc).2.2 = acc.2.2 ++ cs ∧ (∀ c ∈ cs, c.client = some cid) ∧
        Recorded P R cid (some acc.1) (some (fs.foldl (unsubscribeFilter P cid) acc).1) cs
  | [], acc => ⟨[], by simp, by simp, .same rfl⟩
  | f :: fs, acc => by
    obtain ⟨cs, h1, h2, h3⟩ := unsubscribeFilters_recorded cid fs (unsubscribeFilter P cid acc f)
    refine ⟨_ ++ cs, ?_, ?_, (Recorded.unsubscribe acc.1 f).trans h3⟩
    · rw [List.foldl_cons, h1]
      simp only [unsubscribeFilter, List.append_assoc]
      rfl
    · intro c hc
      rcases List.mem_append.1 hc with hc | hc
      · split at hc
        · rw [List.mem_singleton.1 hc]; rfl
        · cases hc
      · exact h2 c hc

theorem handleUnsubscribe_records (cid : String) (epoch : Nat) (unsub : Unsubscribe) :
    (handleUnsubscribe P b cid epoch unsub).Records P R b := by
  refine fenced_records fun s hs _ => ?_
  obtain ⟨cs, h1, h2, h3⟩ := unsubscribeFilters_recorded (P := P) (R := R) cid unsub.filters (s, [], [])
  simp only [List.nil_append] at h1
  refine .single cid (fun c hc => by simp [lookup_setSession, hc]) ?_ ?_
  · simpa [commands, h1] using h2
  · simp only [commands_append, commands_map_store, commands, List.append_nil, h1, lookup_setSession, if_true, hs]
    exact h3.thenQuiet (.some (Session.SameRecord.push _ _))

/-! ### Lifecycle -/

theorem acked_records (cid : String) (epoch : Nat) {f : Session → Session × Nat} {o : Op}
    (hf : ∀ s : Session, f s = s.apply P o) (ho : o.isQuiet) : (b.acked cid epoch f).Records P R b := by
  obtain ⟨action, he⟩ := acked_effects b cid epoch f
  refine .quiet (fun c => ?_) (by simp [he, commands])
  rcases acked_moves b cid epoch hf with h | ⟨s, -, -, h⟩
  · rw [show (b.acked cid epoch f).broker.sessions.lookup c = b.sessions.lookup c from
      congrFun (congrArg Fleet.session h) c]
    exact sameRecord_refl _
  · rw [show (b.acked cid epoch f).broker.sessions.lookup c = ((Move.op cid o).apply P b.fleet).session c from
      congrFun (congrArg Fleet.session h) c]
    exact Fleet.apply_op_sameRecord P b.fleet ho cid c

/-- A session is rewritten, the stored part apart. -/
theorem modifySession_sameRecord (cid : String) (g : Session → Session) (hg : ∀ s : Session, s.SameRecord (g s))
    (c : String) :
    Option.Rel Session.SameRecord (b.sessions.lookup c) ((b.modifySession cid g).sessions.lookup c) := by
  unfold modifySession
  split
  · rename_i s hs
    rw [lookup_setSession]
    by_cases hc : c = cid
    · subst hc
      rw [if_pos rfl, hs]
      exact .some (hg s)
    · rw [if_neg hc]
      exact sameRecord_refl _
  · exact sameRecord_refl _

theorem disconnectExpiry_records (cid : String) (epoch newExpiry : Nat) (publishWill : Bool) :
    (disconnectExpiry b cid epoch newExpiry publishWill).Records P R b := by
  unfold disconnectExpiry
  split
  · exact .same rfl (by simp [answer, commands])
  · rename_i s hs
    have hcmds : ∀ es : List Effect, es = (if s.persistent then
        [.store (.upsertSession cid (min newExpiry b.config.maxSessionExpiry) s.identity)] else []) ++
          [.result cid epoch (.clientDisconnect publishWill)] →
        commands es = if s.persistent then
          [.upsertSession cid (min newExpiry b.config.maxSessionExpiry) s.identity] else [] := by
      rintro es rfl
      split <;> rfl
    refine .single cid (fun c hc => by simp [lookup_setSession, hc]) ?_ ?_
    · rw [hcmds _ rfl]
      split <;> simp [Command.client]
    · rw [hcmds _ rfl, lookup_setSession, if_pos rfl, hs]
      exact .expiry s _

theorem removeIfOffline_records (cid : String) (epoch : Nat) : (removeIfOffline b cid epoch).Records P R b := by
  unfold removeIfOffline
  split
  · exact .same rfl (by simp [commands])
  · rename_i s hs
    split
    · refine .single cid (fun c hc => by simp [removeSession, hc]) (by simp [commands, Command.client]) ?_
      simp only [removeSession, lookup_erase_if, if_true, hs, commands]
      exact .remove s
    · exact .same rfl (by simp [commands])

theorem handleConnectionClosed_records (clock : Nat) (cid : String) (epoch : Nat) (publishWill : Bool) :
    (handleConnectionClosed clock b cid epoch publishWill).Records P R b := by
  unfold handleConnectionClosed
  split
  · exact .same rfl (by simp [commands])
  · rename_i s hs
    split
    · refine .quiet (fun c => ?_) (by cases s.out <;> simp [commands])
      have := modifySession_sameRecord (b := b) cid closedSession
        (fun _ => ⟨⟨rfl, rfl, rfl, rfl, rfl, rfl⟩, rfl, rfl⟩) c
      simpa only [modifySession, hs] using this
    · exact .same rfl (by simp [commands])

/-! ### Reloading the policy -/

/-- Every session is stored under its own client id. -/
def Keyed (sessions : KeyMap String Session) : Prop := ∀ cid s, sessions.lookup cid = some s → s.clientId = cid

/-- The sessions and the commands of a loop over them, from one iteration to a later one. -/
def Visited (P : Protocol) (R : Session → Session → Prop) (x y : KeyMap String Session × List Command) : Prop :=
  Keyed x.1 → Keyed y.1 ∧ ∃ cs, y.2 = x.2 ++ cs ∧
    ∀ cid, Recorded P R cid (x.1.lookup cid) (y.1.lookup cid) (commandsFor cid cs)

theorem Visited.refl (x : KeyMap String Session × List Command) : Visited P R x x :=
  fun h => ⟨h, [], by simp, fun _ => .same rfl⟩

theorem Visited.trans {x y z : KeyMap String Session × List Command} (h : Visited P R x y) (h' : Visited P R y z) :
    Visited P R x z := by
  intro hx
  obtain ⟨hy, cs, h1, h2⟩ := h hx
  obtain ⟨hz, cs', h1', h2'⟩ := h' hy
  refine ⟨hz, cs ++ cs', by rw [h1', h1, List.append_assoc], fun cid => ?_⟩
  rw [commandsFor_append]
  exact (h2 cid).trans (h2' cid)

theorem revokeVisit_recorded (acl : Acl) (cid : String) (s : Session) (cmds : List Command) :
    ∃ cs, (revokeVisit P acl cid s cmds).2 = cmds ++ cs ∧ (∀ c ∈ cs, c.client = some s.clientId) ∧
      Recorded P R s.clientId (some s) (some (revokeVisit P acl cid s cmds).1) cs := by
  have hr : Recorded P R s.clientId _ _ _ := .restrict s acl
  simp only [revokeVisit]
  split
  · rename_i hnone
    rw [List.isEmpty_iff.1 hnone, List.map_nil, ite_self] at hr
    exact ⟨[], by simp, by simp, hr⟩
  · refine ⟨_, rfl, ?_, hr.thenQuiet (.some (.push _ _))⟩
    split
    · simp [Command.client]
    · simp

theorem revokeVisit_visited (acl : Acl) (m : KeyMap String Session) (cid : String) (s : Session) (cmds : List Command)
    (hs : m.lookup cid = some s) :
    Visited P R (m, cmds) (m.insert cid (revokeVisit P acl cid s cmds).1, (revokeVisit P acl cid s cmds).2) := by
  intro hk
  obtain ⟨cs, h1, h2, h3⟩ := revokeVisit_recorded (P := P) (R := R) acl cid s cmds
  have hid : s.clientId = cid := hk cid s hs
  rw [hid] at h2 h3
  have hid' : (revokeVisit P acl cid s cmds).1.clientId = cid := by
    simp only [revokeVisit]
    split
    · exact hid
    · exact ((Session.SameRecord.push (s.retainAuthorized P acl) _).clientId).trans hid
  refine ⟨fun c s' hs' => ?_, cs, h1, fun c => ?_⟩
  · rw [lookup_insert_if] at hs'
    split at hs'
    · rename_i hc
      cases hs'
      rw [hc, hid']
    · exact hk c s' hs'
  · rw [lookup_insert_if]
    by_cases hc : c = cid
    · subst hc
      rw [if_pos rfl, hs, commandsFor_eq_self h2]
      exact h3
    · rw [if_neg hc, commandsFor_eq_nil fun x hx => by rw [h2 x hx]; simpa using Ne.symm hc]
      exact .same rfl

theorem revokeUnauthorized_records (ord : Orders) (acl : Acl) (hk : Keyed b.sessions) :
    (revokeUnauthorized P ord b acl).Records P R b := by
  unfold revokeUnauthorized
  split
  · exact .same rfl (by simp [commands])
  · obtain ⟨-, cs, h1, h2⟩ := iterMut_rel (revokeVisit P acl) (Visited P R) Visited.refl (fun _ _ _ => Visited.trans)
      (fun m cid s cmds hs => revokeVisit_visited acl m cid s cmds hs) ord.sessions b.sessions [] hk
    intro cid
    rw [commands_map_store, h1, List.nil_append]
    exact h2 cid

/-! ### CONNECT -/

theorem takeover_commands (cid : String) (s : Session) : commands (takeover cid s) = [] := by
  unfold takeover
  split <;> rfl

/-- The storage commands of an accepted CONNECT. -/
theorem finishConnect_commands (now : Nat) (ord : Orders) (b : Broker) (req : ConnectRequest) :
    commands (finishConnect P now ord b req).effects = b.claimCommands req ++
      reauthorizeCommands P b.acl (b.claimed req).2 req.clientId ((b.claimed req).1.bind b.config req b.nextEpoch) ++
        persistCommands b.config req := by
  cases hs : b.sessions.lookup req.clientId with
  | none => simp [finishConnect, hs, commands]
  | some s => simp [finishConnect, hs, takeover_commands, commands]

theorem finishConnect_client (now : Nat) (ord : Orders) (b : Broker) (req : ConnectRequest) :
    ∀ c ∈ commands (finishConnect P now ord b req).effects, c.client = some req.clientId := by
  intro c hc
  simp only [finishConnect_commands, claimCommands, reauthorizeCommands, persistCommands, List.mem_append] at hc
  rcases hc with (hc | hc) | hc
  · split at hc
    · rw [List.mem_singleton.1 hc]; rfl
    · split at hc
      · split at hc
        · rw [List.mem_singleton.1 hc]; rfl
        · cases hc
      · cases hc
  · split at hc
    · obtain ⟨sub, -, rfl⟩ := List.mem_map.1 hc; rfl
    · cases hc
  · split at hc
    · rw [List.mem_singleton.1 hc]; rfl
    · cases hc

theorem finishConnect_records (now : Nat) (ord : Orders) (req : ConnectRequest)
    (hres : reservedClientId req.clientId = false)
    (hR : ∀ s, req.connect.cleanStart = false → b.sessions.lookup req.clientId = some s →
      R s (s.resumeBound P now b.config b.acl req b.nextEpoch)) :
    (finishConnect P now ord b req).Records P R b := by
  refine .single req.clientId (fun c hc => by simp [finishConnect, hc]) (finishConnect_client now ord b req) ?_
  rw [finishConnect_commands]
  have hnew : (finishConnect P now ord b req).broker.sessions.lookup req.clientId =
      some (resumed P now ord (b.claimed req).2 (boundSession P now b req)).1 := by simp [finishConnect]
  rw [hnew]
  cases hp : (b.claimed req).2 with
  | true =>
    obtain ⟨hclean, s, hs, hc⟩ := claimed_present hp
    have hbound : boundSession P now b req = s.resumeBound P now b.config b.acl req b.nextEpoch := by
      simp only [boundSession, hp, hc, Session.resumeBound]
    have h := Recorded.resume s now b.config b.acl req b.nextEpoch hres (hR s hclean hs)
    simp only [claimCommands, hclean, hs, hc, hbound, resumed, Bool.false_eq_true, if_false, if_true]
    refine h.thenQuiet (.some ?_)
    exact Session.apply_resume_binding P now ord b.config b.acl req b.nextEpoch s
  | false =>
    have hbound : boundSession P now b req = freshSession now b req := by
      simp [boundSession, hp, claimed_absent hp, reauthorize, freshSession]
    have hold : req.connect.cleanStart = false → b.sessions.lookup req.clientId = none := by
      intro hclean
      cases hs : b.sessions.lookup req.clientId with
      | none => rfl
      | some s => simp [claimed, hclean, hs] at hp
    have h : Recorded P R req.clientId _ (some (freshSession now b req)) (_ ++ persistCommands b.config req) :=
      .create _ req.connect.cleanStart hold rfl rfl hres
    have hclaim : b.claimCommands req = if req.connect.cleanStart then [.deleteSession req.clientId] else [] := by
      unfold claimCommands
      split
      · rfl
      · rename_i hclean
        rw [hold (by simpa using hclean)]
    rw [hclaim, hbound]
    simpa only [resumed, Bool.false_eq_true, if_false, reauthorizeCommands, Bool.false_and, List.append_nil] using h

/-! ### Bridges -/

theorem dropped_commands (b : Broker) (cid : String) : commands (b.dropped cid) = [] := by
  unfold dropped
  split
  · rename_i s hs
    cases s.out <;> rfl
  · rfl

/-- Whatever a bridge does to its session. -/
theorem bridge_records {o : Outcome} (name : String)
    (hother : ∀ c, c ≠ bridgeClient name → o.broker.sessions.lookup c = b.sessions.lookup c)
    (hcmds : commands o.effects = [])
    (h : ∀ s, o.broker.sessions.lookup (bridgeClient name) = some s → s.clientId = bridgeClient name ∧
      (s.persistent = true → ∃ s₀, b.sessions.lookup (bridgeClient name) = some s₀ ∧ s₀.persistent = true)) :
    o.Records P R b := by
  refine .single (bridgeClient name) hother (by simp [hcmds]) ?_
  rw [hcmds]
  exact .bridge (reserved_bridgeClient name) h

theorem registerBridge_records (name : String) (out : OutTx) :
    (registerBridge b (bridgeClient name) out).Records P R b := by
  refine bridge_records name (fun c hc => by simp [registerBridge, hc]) (dropped_commands _ _) fun s hs => ?_
  simp only [registerBridge, AList.lookup_insert, Option.some.injEq] at hs
  subst hs
  exact ⟨rfl, fun h => by simp [Session.new] at h⟩

theorem bridgeAddSubscription_records (hk : Keyed b.sessions) (name filter : String) (noLocal : Bool) :
    (bridgeAddSubscription b (bridgeClient name) filter noLocal).Records P R b := by
  unfold bridgeAddSubscription modifySession
  split
  · rename_i s₀ hs₀
    refine bridge_records name (fun c hc => by simp [lookup_setSession, hc]) rfl fun s hs => ?_
    simp only [lookup_setSession, if_true, Option.some.injEq] at hs
    subst hs
    exact ⟨hk _ s₀ hs₀, fun h => ⟨s₀, hs₀, h⟩⟩
  · exact .same rfl (by simp [commands])

theorem deregisterBridge_records (name : String) (epoch : Nat) :
    (deregisterBridge b (bridgeClient name) epoch).Records P R b := by
  unfold deregisterBridge
  split
  · split
    · refine bridge_records name (fun c hc => by simp [removeSession, hc]) (dropped_commands _ _) fun s hs => ?_
      simp [removeSession] at hs
    · exact .same rfl (by simp [commands])
  · exact .same rfl (by simp [commands])

end Broker

/-! ## Every step -/

namespace World
open Broker
variable {P : Protocol} {R : Session → Session → Prop} {w : World} {l : Label}

/-- Every CONNECT that resumes a session in this step meets `R`. -/
def Resumes (P : Protocol) (R : Session → Session → Prop) (w : World) (l : Label) : Prop :=
  ∀ req s, w.selected l.input = some (.connect req) → req.connect.cleanStart = false →
    w.broker.sessions.lookup req.clientId = some s →
    R s (s.resumeBound P l.now w.broker.config w.broker.acl req w.broker.nextEpoch)

theorem dispatch_records (now : Nat) (ord : Orders) (b : Broker) (cid : String) (epoch : Nat) (packet : Packet) :
    (dispatch P now ord b cid epoch packet).Records P R b := by
  cases packet with
  | publish p => exact .routing (handlePublish_moves _ _ _ _ _ _).routing (handlePublish_routing _ _ _ _ _ _)
  | puback a => exact acked_records cid epoch (o := .puback now a.packetId) (fun _ => rfl) rfl
  | pubrec a => exact acked_records cid epoch (o := .pubrec a) (fun _ => rfl) rfl
  | pubrel a => exact acked_records cid epoch (o := .pubrel a.packetId) (fun _ => rfl) rfl
  | pubcomp a => exact acked_records cid epoch (o := .pubcomp now a.packetId) (fun _ => rfl) rfl
  | subscribe s => exact handleSubscribe_records now ord cid epoch s
  | unsubscribe u => exact handleUnsubscribe_records cid epoch u
  | pingreq =>
    exact .quiet (fun c => modifySession_sameRecord cid _ (fun s => .push s _) c) (by simp [dispatch, answer, commands])
  | disconnect d =>
    refine fenced_records fun s _ _ => ?_
    dsimp only
    split
    · exact .same rfl (by simp [commands])
    · exact .same rfl (by simp [answer, commands])
  | _ => exact .same rfl (by simp [dispatch, answer, commands])

theorem runTask_records {t : Task} (hk : Keyed w.broker.sessions) (hsel : w.selected l.input = some t)
    (hreq : ∀ req, t = .connect req → reservedClientId req.clientId = false) (hR : Resumes P R w l) :
    (runTask P l.now l.ord w.broker t).Records P R w.broker := by
  cases t with
  | dispatch cid epoch packet => exact dispatch_records _ _ _ _ _ _
  | disconnectExpiry cid epoch n pw => exact disconnectExpiry_records cid epoch n pw
  | connect req => exact finishConnect_records l.now l.ord req (hreq req rfl) fun s hc hs => hR req s hsel hc hs
  | closeRemove cid epoch => exact removeIfOffline_records cid epoch
  | willSleep cid epoch m owner due =>
    simp only [runTask, willWake]
    split
    · split <;> exact .same rfl (by simp [commands])
    · exact .same rfl (by simp [commands])
  | willAuthorize cid epoch m owner =>
    simp only [runTask, willAuthorize]
    split <;> exact .same rfl (by simp [commands])
  | willPublish cid epoch m =>
    exact .routing (publishMessage_moves _ _ _ _ _ _).routing (publishMessage_routing _ _ _ _ _ _)
  | expiry cid epoch due => exact removeIfOffline_records cid epoch
  | revoke acl => exact revokeUnauthorized_records l.ord acl hk

theorem enter_records (hk : Keyed w.broker.sessions) (c : Call) :
    (enter P w.clock l.now l.ord w.broker c).Records P R w.broker := by
  cases c with
  | connect c identity =>
    simp only [enter, startConnect, refuse]
    repeat' split
    all_goals exact .same rfl (by simp [commands])
  | packet cid epoch packet =>
    simp only [enter, handlePacket]
    split
    · split <;> exact .same rfl (by simp [answer, commands])
    · exact .same rfl (by simp [answer, commands])
  | closed cid epoch pw => exact handleConnectionClosed_records _ cid epoch pw
  | reload fresh =>
    simp only [enter, reloadAcl]
    split <;> exact .same rfl (by simp [commands])
  | snapshot => exact .same rfl (by simp [enter, purgeRetained, commands])
  | publishSys entries => exact .routing (publishSys_moves _ _ _ _).routing (publishSys_routing _ _ _ _)
  | registerBridge name => exact registerBridge_records name _
  | bridgeAddSubscription name filter noLocal => exact bridgeAddSubscription_records hk name filter noLocal
  | injectPublish name m =>
    exact .routing (publishMessage_moves _ _ _ _ _ _).routing (publishMessage_routing _ _ _ _ _ _)
  | deregisterBridge name epoch => exact deregisterBridge_records name epoch

/-- **Inversion**: what a step does to a client's session, and the commands it sends for the client. -/
theorem step_recorded (hk : Keyed w.broker.sessions)
    (hreq : ∀ req, w.selected l.input = some (.connect req) → reservedClientId req.clientId = false)
    (hR : Resumes P R w l) (cid : String) :
    Recorded P R cid (w.broker.sessions.lookup cid) ((step P w l).1.broker.sessions.lookup cid)
      (commandsFor cid (commands (step P w l).2)) := by
  cases hin : l.input with
  | call c =>
    simp only [step, hin]
    exact enter_records hk c cid
  | task i =>
    cases hsel : w.selected (.task i) with
    | none =>
      simp only [step, hin, hsel]
      exact .same rfl
    | some t =>
      simp only [step, hin, hsel]
      exact runTask_records hk (hin ▸ hsel) (fun req he => hreq req (by rw [hin, hsel, he])) hR cid
  | sleep secs =>
    simp only [step, hin]
    exact .same rfl
  | recv c e =>
    simp only [step, hin]
    refine .quiet (modifySession_sameRecord c _ (fun s => ?_) cid)
    simp only [Session.onChannel]
    split <;> exact ⟨⟨rfl, rfl, rfl, rfl, rfl, rfl⟩, rfl, rfl⟩
  | hangup c e =>
    simp only [step, hin]
    refine .quiet (modifySession_sameRecord c _ (fun s => ?_) cid)
    simp only [Session.onChannel]
    split <;> exact ⟨⟨rfl, rfl, rfl, rfl, rfl, rfl⟩, rfl, rfl⟩

end World

end WispMQ
