import WispMQ.Records
/-!
# A session and its rows

`Stored`: a persistent session has its row and a row for each of its subscriptions. `Fresh`: a row belongs to
a persistent session, and a subscription row to a subscription the session holds. Both are kept by everything a
step can do to a client (`Recorded`), a CONNECT that resumes a session and changes whether it is persistent
apart: rows for the subscriptions it holds are written only by SUBSCRIBE, and rows are deleted only while the
session is persistent.
-/

namespace WispMQ
open KeyMap

/-! ## Storage keys -/

section Keys
variable {P : Protocol}

theorem unsubscribeTarget_key (hP : P.ParseSpec) (raw : String) :
    shareKey (Broker.unsubscribeTarget P raw).1 (Broker.unsubscribeTarget P raw).2 = raw := by
  unfold Broker.unsubscribeTarget
  split
  · rename_i p hp; exact hP raw p hp
  · rfl

theorem restoreSub_target (rec : SubRecord) :
    ((Broker.restoreSub P rec).shareName, (Broker.restoreSub P rec).filter) =
      Broker.unsubscribeTarget P rec.filter := by
  cases h : P.parseFilter rec.filter <;> simp [Broker.restoreSub, Broker.unsubscribeTarget, h]

theorem restoreSub_key (hP : P.ParseSpec) (rec : SubRecord) : (Broker.restoreSub P rec).key = rec.filter := by
  have h := restoreSub_target (P := P) rec
  rw [Subscription.key, ← unsubscribeTarget_key hP rec.filter, ← h]

end Keys

/-- The subscriptions are found again under their storage keys, and no two share one. -/
structure SubsOk (P : Protocol) (subs : List Subscription) : Prop where
  target : ∀ sub ∈ subs, Broker.unsubscribeTarget P sub.key = (sub.shareName, sub.filter)
  nodup : (subs.map Subscription.key).Nodup

namespace SubsOk
variable {P : Protocol} {subs : List Subscription}

theorem nil : SubsOk P [] := ⟨by simp, by simp⟩

theorem filter (h : SubsOk P subs) (p : Subscription → Bool) : SubsOk P (subs.filter p) :=
  ⟨fun sub hs => h.target sub (List.mem_of_mem_filter hs), h.nodup.sublist (List.filter_sublist.map _)⟩

theorem key_inj (h : SubsOk P subs) {x y : Subscription} (hx : x ∈ subs) (hy : y ∈ subs) (e : x.key = y.key) :
    x = y := List.inj_on_of_nodup_map h.nodup hx hy e

end SubsOk

namespace Session
variable {P : Protocol} {s : Session}

/-- A subscription replaces the one under its key, or is added. -/
theorem upsertSubscription_spec (h : SubsOk P s.subscriptions) (sub : Subscription)
    (ht : Broker.unsubscribeTarget P sub.key = (sub.shareName, sub.filter)) :
    SubsOk P (s.upsertSubscription sub).1.subscriptions ∧ sub ∈ (s.upsertSubscription sub).1.subscriptions ∧
      ∀ x, x.key ≠ sub.key → (x ∈ (s.upsertSubscription sub).1.subscriptions ↔ x ∈ s.subscriptions) := by
  unfold upsertSubscription
  split
  · rename_i i hi
    obtain ⟨hlt, hp, -⟩ := List.findIdx?_eq_some_iff_getElem.1 hi
    simp only [Bool.and_eq_true, decide_eq_true_eq] at hp
    have hkey : s.subscriptions[i].key = sub.key := by simp only [Subscription.key, hp.1, hp.2]
    refine ⟨⟨fun x hx => ?_, ?_⟩, List.mem_set hlt sub, fun x hx => ?_⟩
    · rcases List.mem_or_eq_of_mem_set hx with hx | rfl
      · exact h.target x hx
      · exact ht
    · rw [List.map_set, ← hkey]
      have hset : (s.subscriptions.map Subscription.key).set i s.subscriptions[i].key =
          s.subscriptions.map Subscription.key := by
        rw [← List.map_set, List.set_getElem_self]
      rw [hset]
      exact h.nodup
    · constructor
      · intro hm
        exact (List.mem_or_eq_of_mem_set hm).resolve_right fun e => hx (congrArg _ e)
      · intro hm
        obtain ⟨j, hj, rfl⟩ := List.mem_iff_getElem.1 hm
        have hij : i ≠ j := fun e => hx (by subst e; exact hkey)
        exact List.mem_iff_getElem.2 ⟨j, by simpa using hj, by simp [hij]⟩
  · rename_i hnone
    have hnew : ∀ x ∈ s.subscriptions, x.key ≠ sub.key := by
      intro x hx he
      have ht' := h.target x hx
      rw [he, ht, Prod.mk.injEq] at ht'
      have hmiss := List.findIdx?_eq_none_iff.1 hnone x hx
      simp [ht'.1, ht'.2] at hmiss
    refine ⟨⟨fun x hx => ?_, ?_⟩, by simp, fun x hx => ?_⟩
    · rcases List.mem_append.1 hx with hx | hx
      · exact h.target x hx
      · rw [List.mem_singleton.1 hx]; exact ht
    · rw [List.map_append, List.nodup_append]
      refine ⟨h.nodup, by simp, ?_⟩
      intro a ha b hb
      obtain ⟨x, hx, rfl⟩ := List.mem_map.1 ha
      rw [List.map_singleton, List.mem_singleton] at hb
      exact hb ▸ hnew x hx
    · have hne : x ≠ sub := fun e => hx (congrArg _ e)
      simp [hne]

/-- An UNSUBSCRIBE removes the subscription under the given key. -/
theorem mem_unsubscribed (hP : P.ParseSpec) (h : SubsOk P s.subscriptions) (raw : String) {x : Subscription} :
    x ∈ (s.unsubscribed P raw).1.subscriptions ↔ x ∈ s.subscriptions ∧ x.key ≠ raw := by
  simp only [unsubscribed, removeSubscription, List.mem_filter, Bool.not_eq_true', Bool.and_eq_false_iff,
    decide_eq_false_iff_not]
  refine and_congr_right fun hx => ?_
  have ht := h.target x hx
  constructor
  · rintro hne rfl
    simp [ht] at hne
  · intro hne
    by_contra hc
    simp only [not_or, not_not] at hc
    refine hne ?_
    rw [Subscription.key, hc.1, hc.2, unsubscribeTarget_key hP]

/-- It reports a removal if there was one. -/
theorem unsubscribed_removed (hP : P.ParseSpec) (h : SubsOk P s.subscriptions) {raw : String} {x : Subscription}
    (hx : x ∈ s.subscriptions) (he : x.key = raw) : (s.unsubscribed P raw).2 = true := by
  have hnot : x ∉ (s.unsubscribed P raw).1.subscriptions := fun hm => ((mem_unsubscribed hP h raw).1 hm).2 he
  simp only [unsubscribed, removeSubscription, bne_iff_ne, ne_eq]
  intro hlen
  refine hnot ?_
  have hself := List.filter_eq_self.2 (List.length_filter_eq_length_iff.1 hlen)
  unfold unsubscribed removeSubscription
  rw [hself]
  exact hx

end Session

/-! ## Sessions -/

structure SessionOk (P : Protocol) (cid : String) (s : Session) : Prop where
  clientId : s.clientId = cid
  unreserved : s.persistent = true → reservedClientId cid = false
  subs : reservedClientId cid = false → SubsOk P s.subscriptions

section Resumed
variable {P : Protocol} (now : Nat) (cfg : Config) (acl : Acl) (req : ConnectRequest) (epoch : Nat) (s : Session)

/-- The subscriptions a CONNECT finds, before they are authorized again. -/
def Session.inherited (s : Session) (identity : Option String) : List Subscription :=
  if Broker.identityChanged s.identity identity then [] else s.subscriptions

theorem Session.resumeBound_subscriptions :
    (s.resumeBound P now cfg acl req epoch).subscriptions =
      (s.inherited req.identity).filter fun sub =>
        !acl.isEnforced || acl.canSubscribe P (who req.identity) sub.filter := by
  simp only [resumeBound, Broker.reauthorize, Bool.true_and, setWill, inherited]
  cases acl.isEnforced <;>
    simp [retainAuthorized, bind, takenOver] <;> split <;> simp [clearOwned]

theorem Session.resumeBound_fields :
    (s.resumeBound P now cfg acl req epoch).clientId = s.clientId ∧
    (s.resumeBound P now cfg acl req epoch).persistent = Broker.durable cfg req ∧
    (s.resumeBound P now cfg acl req epoch).sessionExpiryInterval = Broker.requestedExpiry cfg req ∧
    (s.resumeBound P now cfg acl req epoch).identity = req.identity := by
  simp only [resumeBound, Broker.reauthorize, takenOver]
  split <;> split <;> exact ⟨rfl, rfl, rfl, rfl⟩

theorem reauthorizeCommands_resume (cid : String) :
    Broker.reauthorizeCommands P acl true cid ((s.takenOver req.identity).bind cfg req epoch) =
      if Broker.durable cfg req then
        (((s.inherited req.identity).filter fun sub =>
          acl.isEnforced && !acl.canSubscribe P (who req.identity) sub.filter).map Subscription.key).map
            (.deleteSubscription cid)
      else [] := by
  have hsubs : ((s.takenOver req.identity).bind cfg req epoch).subscriptions = s.inherited req.identity := by
    simp only [Session.bind, Session.takenOver, Session.inherited]
    split <;> rfl
  simp only [Broker.reauthorizeCommands, Session.unauthorized, hsubs, Bool.true_and]
  cases acl.isEnforced <;> simp [Session.bind, Function.comp_def]

end Resumed

namespace Recorded
variable {P : Protocol} {R : Session → Session → Prop} {cid : String} {a b : Option Session} {cmds : List Command}

theorem sessionOk (hP : P.ParseSpec) (h : Recorded P R cid a b cmds) :
    (∀ s, a = some s → SessionOk P cid s) → ∀ s, b = some s → SessionOk P cid s := by
  induction h with
  | quiet h =>
    rintro ha s rfl
    cases h with
    | some h =>
      have h0 := ha _ rfl
      exact ⟨h.clientId.trans h0.clientId, fun hp => h0.unreserved (h.persistent ▸ hp),
        fun hr => h.subscriptions ▸ h0.subs hr⟩
  | subscribe s sub rec hp hrec =>
    rintro ha s' ⟨⟩
    have h0 := ha s rfl
    have hb := Session.apply_binding P s (o := .subscribe sub) rfl
    have ht : Broker.unsubscribeTarget P sub.key = (sub.shareName, sub.filter) := by
      rw [show sub.key = rec.filter from hP _ _ hp]
      simp [Broker.unsubscribeTarget, hp]
    exact ⟨hb.clientId.trans h0.clientId, fun hpers => h0.unreserved (hb.persistent ▸ hpers),
      fun hr => (Session.upsertSubscription_spec (h0.subs hr) _ ht).1⟩
  | unsubscribe s raw =>
    rintro ha s' ⟨⟩
    have h0 := ha s rfl
    exact ⟨h0.clientId, h0.unreserved, fun hr => (h0.subs hr).filter _⟩
  | restrict s acl =>
    rintro ha s' ⟨⟩
    have h0 := ha s rfl
    exact ⟨h0.clientId, h0.unreserved, fun hr => (h0.subs hr).filter _⟩
  | expiry s n =>
    rintro ha s' ⟨⟩
    have h0 := ha s rfl
    exact ⟨h0.clientId, h0.unreserved, h0.subs⟩
  | remove s => rintro - s' ⟨⟩
  | create s clean hold hid hsubs hres =>
    rintro - s' ⟨⟩
    exact ⟨hid, fun _ => hres, fun _ => hsubs ▸ .nil⟩
  | resume s now cfg acl req epoch hres hR =>
    rintro ha s' ⟨⟩
    have h0 := ha s rfl
    refine ⟨(Session.resumeBound_fields now cfg acl req epoch s).1.trans h0.clientId, fun _ => hres, fun hr => ?_⟩
    rw [Session.resumeBound_subscriptions]
    refine SubsOk.filter ?_ _
    unfold Session.inherited
    split
    · exact .nil
    · exact h0.subs hr
  | bridge hres h =>
    rintro ha s rfl
    obtain ⟨hid, hp⟩ := h s rfl
    refine ⟨hid, fun hpers => ?_, fun hr => by simp [hres] at hr⟩
    obtain ⟨s₀, rfl, hp₀⟩ := hp hpers
    exact (ha s₀ rfl).unreserved hp₀
  | trans _ _ ih ih' => exact fun ha => ih' (ih ha)

end Recorded

/-! ## Nothing is lost -/

/-- A persistent session has its row, and each of its subscriptions a row that reads back as it. -/
def Stored (P : Protocol) (a : Option Session) (r : Rows) : Prop :=
  ∀ s, a = some s → s.persistent = true →
    r.session = some ⟨s.sessionExpiryInterval, s.identity⟩ ∧
    ∀ sub ∈ s.subscriptions, ∃ row, r.subscription sub.key = some row ∧
      Broker.restoreSub P (row.toRecord sub.key) = sub

theorem restoreSub_of_parse {P : Protocol} {rec : SubRecord} {sub : Subscription}
    (hp : P.parseFilter rec.filter = some ⟨sub.shareName, sub.filter⟩)
    (hrec : (rec.qos, rec.noLocal, rec.retainAsPublished, rec.subscriptionIdentifier) =
      (sub.qos, sub.noLocal, sub.retainAsPublished, sub.subscriptionIdentifier)) :
    Broker.restoreSub P rec = sub := by
  simp only [Prod.mk.injEq] at hrec
  simp only [Broker.restoreSub, hp, hrec]

/-- The subscriptions left are not those whose rows are deleted. -/
theorem SubsOk.key_notMem {P : Protocol} {subs : List Subscription} (h : SubsOk P subs) (p : Subscription → Bool)
    {x : Subscription} (hx : x ∈ subs) (hp : p x = false) : x.key ∉ (subs.filter p).map Subscription.key := by
  intro hm
  obtain ⟨y, hy, he⟩ := List.mem_map.1 hm
  obtain ⟨hy, hpy⟩ := List.mem_filter.1 hy
  rw [h.key_inj hy hx he] at hpy
  simp [hp] at hpy

theorem restrict_commands (P : Protocol) (acl : Acl) (cid : String) (s : Session) :
    ((s.unauthorized P acl).map fun sub => Command.deleteSubscription cid sub.key) =
      ((s.unauthorized P acl).map Subscription.key).map (.deleteSubscription cid) := by
  rw [List.map_map]
  rfl

namespace Stored
variable {P : Protocol} {cid : String} {s : Session} {r : Rows}

theorem subscribe (hP : P.ParseSpec) (hs : SessionOk P cid s) {sub : Subscription} {rec : SubRecord}
    (hpar : P.parseFilter rec.filter = some ⟨sub.shareName, sub.filter⟩)
    (hrec : (rec.qos, rec.noLocal, rec.retainAsPublished, rec.subscriptionIdentifier) =
      (sub.qos, sub.noLocal, sub.retainAsPublished, sub.subscriptionIdentifier)) (h : Stored P (some s) r) :
    Stored P (some (s.upsertSubscription sub).1)
      (r.applyAll (if s.persistent then [.upsertSubscription cid rec] else [])) := by
  rintro s' ⟨⟩ hp
  have hb := Session.apply_binding P s (o := .subscribe sub) rfl
  have hps : s.persistent = true := hb.persistent ▸ hp
  have hkey : sub.key = rec.filter := hP _ _ hpar
  obtain ⟨hrow, hsubs⟩ := h s rfl hps
  obtain ⟨hok, hmem, hrest⟩ := Session.upsertSubscription_spec (hs.subs (hs.unreserved hps)) sub (by
    simp [hkey, Broker.unsubscribeTarget, hpar])
  have hexp : (s.upsertSubscription sub).1.sessionExpiryInterval = s.sessionExpiryInterval := by
    simp only [Session.upsertSubscription]; split <;> rfl
  have hid : (s.upsertSubscription sub).1.identity = s.identity := hb.identity
  simp only [hps, if_true, Rows.applyAll, List.foldl_cons, List.foldl_nil, Rows.apply, hrow, Option.isSome_some]
  refine ⟨by rw [hexp, hid], fun x hx => ?_⟩
  by_cases hxk : x.key = sub.key
  · have hxs := hok.key_inj hx hmem hxk
    subst hxs
    refine ⟨rec.toRow, by simp [hkey], ?_⟩
    rw [hkey, SubRow.toRecord_toRow]
    exact restoreSub_of_parse hpar hrec
  · rw [Function.update_of_ne (hkey ▸ hxk)]
    exact hsubs x ((hrest x hxk).1 hx)

theorem unsubscribe (hP : P.ParseSpec) (hs : SessionOk P cid s) (raw : String) (h : Stored P (some s) r) :
    Stored P (some (s.unsubscribed P raw).1)
      (r.applyAll (if (s.unsubscribed P raw).2 && s.persistent then [.deleteSubscription cid raw] else [])) := by
  rintro s' ⟨⟩ hp
  have hps : s.persistent = true := hp
  obtain ⟨hrow, hsubs⟩ := h s rfl hps
  have hmem := fun x => Session.mem_unsubscribed hP (hs.subs (hs.unreserved hps)) raw (x := x)
  rw [hps, Bool.and_true]
  split
  · refine ⟨hrow, fun x hx => ?_⟩
    obtain ⟨hx, hne⟩ := (hmem x).1 hx
    simp only [Rows.applyAll, List.foldl_cons, List.foldl_nil, Rows.apply, Function.update_of_ne hne]
    exact hsubs x hx
  · exact ⟨hrow, fun x hx => hsubs x ((hmem x).1 hx).1⟩

theorem restrict (hs : SessionOk P cid s) (acl : Acl) (h : Stored P (some s) r) :
    Stored P (some (s.retainAuthorized P acl)) (r.applyAll
      (if s.persistent then (s.unauthorized P acl).map fun sub => .deleteSubscription cid sub.key else [])) := by
  rintro s' ⟨⟩ hp
  have hps : s.persistent = true := hp
  obtain ⟨hrow, hsubs⟩ := h s rfl hps
  rw [if_pos hps, restrict_commands, Rows.applyAll_delete]
  refine ⟨hrow, fun x hx => ?_⟩
  obtain ⟨hx, hcan⟩ := List.mem_filter.1 hx
  obtain ⟨row, hr, he⟩ := hsubs x hx
  have hn : x.key ∉ (s.unauthorized P acl).map Subscription.key :=
    (hs.subs (hs.unreserved hps)).key_notMem _ hx (by simp [hcan])
  exact ⟨row, (if_neg hn).trans hr, he⟩

theorem resume (hs : SessionOk P cid s) (hres : reservedClientId cid = false) {now : Nat} {cfg : Config} {acl : Acl}
    {req : ConnectRequest} {epoch : Nat} (h : Stored P (some s) r)
    (hnew : s.persistent = false → (s.resumeBound P now cfg acl req epoch).persistent = true →
      (s.resumeBound P now cfg acl req epoch).subscriptions = []) :
    Stored P (some (s.resumeBound P now cfg acl req epoch)) (r.applyAll
      ((if Broker.identityChanged s.identity req.identity && s.persistent then [.clearSubscriptions cid] else []) ++
        Broker.reauthorizeCommands P acl true cid ((s.takenOver req.identity).bind cfg req epoch) ++
        if Broker.durable cfg req then [.upsertSession cid (Broker.requestedExpiry cfg req) req.identity] else [])) := by
  rintro s' ⟨⟩ hp
  obtain ⟨-, hdur, hexp, hid⟩ := Session.resumeBound_fields (P := P) now cfg acl req epoch s
  have hd : Broker.durable cfg req = true := hdur ▸ hp
  rw [if_pos hd, Rows.applyAll_append, hexp, hid]
  refine ⟨rfl, ?_⟩
  cases hps : s.persistent with
  | false => simp [hnew hps hp]
  | true =>
    obtain ⟨-, hsubs⟩ := h s rfl hps
    rw [Session.resumeBound_subscriptions, reauthorizeCommands_resume, if_pos hd]
    intro x hx
    obtain ⟨hx, hcan⟩ := List.mem_filter.1 hx
    simp only [Session.inherited] at hx ⊢
    split at hx
    · cases hx
    · rename_i hsame
      obtain ⟨row, hr, he⟩ := hsubs x hx
      have hn := (hs.subs hres).key_notMem
        (fun sub => acl.isEnforced && !acl.canSubscribe P (who req.identity) sub.filter) hx (by
          cases hen : acl.isEnforced
          · rfl
          · simpa [hen] using hcan)
      refine ⟨row, ?_, he⟩
      simp only [hsame, Bool.false_and, Bool.false_eq_true, if_false, List.nil_append]
      rw [Rows.applyAll_delete]
      simpa [Rows.applyAll, Rows.apply, if_neg hn] using hr

end Stored

theorem Recorded.stored {P : Protocol} {R : Session → Session → Prop} {cid : String} {a b : Option Session}
    {cmds : List Command} (hP : P.ParseSpec)
    (hR : ∀ s s', R s s' → s.persistent = false → s'.persistent = true → s'.subscriptions = [])
    (h : Recorded P R cid a b cmds) :
    ∀ r : Rows, (∀ s, a = some s → SessionOk P cid s) → Stored P a r → Stored P b (r.applyAll cmds) := by
  induction h with
  | quiet h =>
    rintro r - hst s rfl hp
    cases h with
    | some h =>
      rw [h.expiry, h.identity, h.subscriptions]
      exact hst _ rfl (h.persistent ▸ hp)
  | subscribe s sub rec hpar hrec => exact fun r ha hst => hst.subscribe hP (ha s rfl) hpar hrec
  | unsubscribe s raw => exact fun r ha hst => hst.unsubscribe hP (ha s rfl) raw
  | restrict s acl => exact fun r ha hst => hst.restrict (ha s rfl) acl
  | expiry s n =>
    rintro r ha hst s' ⟨⟩ hp
    have hps : s.persistent = true := hp
    rw [if_pos hps]
    exact ⟨rfl, (hst s rfl hps).2⟩
  | remove s => rintro r - - s' ⟨⟩
  | create s clean hold hid hsubs hres =>
    rintro r - - s' ⟨⟩ hp
    rw [if_pos hp, Rows.applyAll_append]
    exact ⟨rfl, by simp [hsubs]⟩
  | resume s now cfg acl req epoch hres hRs => exact fun r ha hst => hst.resume (ha s rfl) hres (hR s _ hRs)
  | bridge hres h =>
    rintro r ha hst s rfl hp
    obtain ⟨s₀, rfl, hp₀⟩ := (h s rfl).2 hp
    exact absurd ((ha s₀ rfl).unreserved hp₀) (by simp [hres])
  | trans h h' ih ih' =>
    intro r ha hst
    rw [Rows.applyAll_append]
    exact ih' _ (h.sessionOk hP ha) (ih r ha hst)

/-! ## Nothing comes back -/

/-- The foreign key of `subscriptions`. -/
def Rows.ForeignKey (r : Rows) : Prop := ∀ key row, r.subscription key = some row → r.session.isSome = true

theorem Rows.ForeignKey.apply {r : Rows} (h : r.ForeignKey) (c : Command) : (r.apply c).ForeignKey := by
  intro key row hr
  cases c with
  | upsertSession cid expiry owner => rfl
  | deleteSession cid => cases hr
  | upsertSubscription cid sub =>
    by_cases hs : r.session.isSome = true
    · simp [Rows.apply, hs]
    · simp only [Rows.apply, hs, Bool.false_eq_true, if_false] at hr
      exact absurd (h key row hr) hs
  | deleteSubscription cid filter =>
    by_cases hk : key = filter
    · subst hk
      simp [Rows.apply] at hr
    · exact h key row (by simpa [Rows.apply, hk] using hr)
  | clearSubscriptions cid => cases hr
  | upsertRetained topic m => exact h key row hr
  | deleteRetained topic => exact h key row hr

theorem Rows.ForeignKey.applyAll : ∀ (cmds : List Command) {r : Rows}, r.ForeignKey → (r.applyAll cmds).ForeignKey
  | [], _, h => h
  | c :: cmds, _, h => Rows.ForeignKey.applyAll cmds (h.apply c)

/-- Rows belong to a persistent session, and a subscription row reads back as a subscription it holds. -/
structure Fresh (P : Protocol) (a : Option Session) (r : Rows) : Prop where
  session : ∀ row, r.session = some row → ∃ s, a = some s ∧ s.persistent = true
  subscription : ∀ key row, r.subscription key = some row →
    ∃ s, a = some s ∧ s.persistent = true ∧ Broker.restoreSub P (row.toRecord key) ∈ s.subscriptions

namespace Fresh
variable {P : Protocol} {s : Session} {r : Rows}

/-- Without a persistent session there are no rows. -/
theorem empty {a : Option Session} (h : Fresh P a r) (ha : ∀ s, a = some s → s.persistent = false) :
    r = ⟨none, fun _ => none⟩ := by
  ext1
  · refine Option.eq_none_iff_forall_ne_some.2 fun row hr => ?_
    obtain ⟨s, hs, hp⟩ := h.session row hr
    simp [ha s hs] at hp
  · funext key
    refine Option.eq_none_iff_forall_ne_some.2 fun row hr => ?_
    obtain ⟨s, hs, hp, -⟩ := h.subscription key row hr
    simp [ha s hs] at hp

theorem of_empty (a : Option Session) : Fresh P a ⟨none, fun _ => none⟩ where
  session _ h := by cases h
  subscription _ _ h := by cases h

theorem mem (h : Fresh P (some s) r) {key : String} {row : SubRow} (hr : r.subscription key = some row) :
    Broker.restoreSub P (row.toRecord key) ∈ s.subscriptions := by
  obtain ⟨s', hs, -, hm⟩ := h.subscription key row hr
  cases hs
  exact hm

/-- A persistent session, with each row among the subscriptions. -/
theorem of_mem (hp : s.persistent = true)
    (h : ∀ key row, r.subscription key = some row → Broker.restoreSub P (row.toRecord key) ∈ s.subscriptions) :
    Fresh P (some s) r :=
  ⟨fun _ _ => ⟨s, rfl, hp⟩, fun key row hr => ⟨s, rfl, hp, h key row hr⟩⟩

/-- A session that is not persistent has no rows. -/
theorem empty_of_transient (h : Fresh P (some s) r) (hp : s.persistent = false) : r = ⟨none, fun _ => none⟩ :=
  h.empty fun s' hs => by cases hs; exact hp

end Fresh

/-- A subscription is kept if its row is. -/
theorem mem_kept {subs : List Subscription} {p q : Subscription → Bool} {x : Subscription} {key : String}
    (hx : x ∈ subs) (hxk : x.key = key) (hk : key ∉ (subs.filter q).map Subscription.key)
    (hpq : ∀ x, p x = false → q x = true) : x ∈ subs.filter p := by
  refine List.mem_filter.2 ⟨hx, ?_⟩
  by_contra hp
  exact hk (List.mem_map.2 ⟨x, List.mem_filter.2 ⟨hx, hpq x (by simpa using hp)⟩, hxk⟩)

namespace Fresh
variable {P : Protocol} {cid : String} {s : Session} {r : Rows}

theorem subscribe (hP : P.ParseSpec) (hs : SessionOk P cid s) {sub : Subscription} {rec : SubRecord}
    (hpar : P.parseFilter rec.filter = some ⟨sub.shareName, sub.filter⟩)
    (hrec : (rec.qos, rec.noLocal, rec.retainAsPublished, rec.subscriptionIdentifier) =
      (sub.qos, sub.noLocal, sub.retainAsPublished, sub.subscriptionIdentifier)) (hfk : r.ForeignKey)
    (h : Fresh P (some s) r) :
    Fresh P (some (s.upsertSubscription sub).1)
      (r.applyAll (if s.persistent then [.upsertSubscription cid rec] else [])) := by
  cases hps : s.persistent with
  | false =>
    rw [h.empty_of_transient hps]
    exact .of_empty _
  | true =>
    have hk : sub.key = rec.filter := hP _ _ hpar
    obtain ⟨-, hmem, hrest⟩ := Session.upsertSubscription_spec (hs.subs (hs.unreserved hps)) sub (by
      simp [hk, Broker.unsubscribeTarget, hpar])
    have hb := Session.apply_binding P s (o := .subscribe sub) rfl
    refine .of_mem (hb.persistent.trans hps) fun key row hr => ?_
    simp only [if_true, Rows.applyAll, List.foldl_cons, List.foldl_nil, Rows.apply] at hr
    split at hr
    · by_cases hkr : key = rec.filter
      · subst hkr
        simp only [Function.update_self, Option.some.injEq] at hr
        rw [← hr, SubRow.toRecord_toRow, restoreSub_of_parse hpar hrec]
        exact hmem
      · refine (hrest _ (by rw [restoreSub_key hP, hk]; exact hkr)).2 (h.mem ?_)
        simpa [Function.update_of_ne hkr] using hr
    · rename_i hnone
      exact absurd (hfk key row hr) hnone

theorem unsubscribe (hP : P.ParseSpec) (hs : SessionOk P cid s) (raw : String) (h : Fresh P (some s) r) :
    Fresh P (some (s.unsubscribed P raw).1)
      (r.applyAll (if (s.unsubscribed P raw).2 && s.persistent then [.deleteSubscription cid raw] else [])) := by
  cases hps : s.persistent with
  | false =>
    rw [h.empty_of_transient hps, Bool.and_false]
    exact .of_empty _
  | true =>
    have hok := hs.subs (hs.unreserved hps)
    refine .of_mem hps fun key row hr => (Session.mem_unsubscribed hP hok raw).2 ?_
    rw [restoreSub_key hP]
    rw [Bool.and_true] at hr
    split at hr
    · by_cases hkr : key = raw
      · simp [Rows.applyAll, Rows.apply, hkr] at hr
      · exact ⟨h.mem (by simpa [Rows.applyAll, Rows.apply, hkr] using hr), hkr⟩
    · rename_i hnot
      refine ⟨h.mem hr, fun hkr => hnot ?_⟩
      exact Session.unsubscribed_removed hP hok (h.mem hr) ((restoreSub_key hP _).trans hkr)

theorem restrict (hP : P.ParseSpec) (acl : Acl) (h : Fresh P (some s) r) :
    Fresh P (some (s.retainAuthorized P acl)) (r.applyAll
      (if s.persistent then (s.unauthorized P acl).map fun sub => .deleteSubscription cid sub.key else [])) := by
  cases hps : s.persistent with
  | false =>
    rw [h.empty_of_transient hps]
    exact .of_empty _
  | true =>
    rw [if_pos rfl, restrict_commands, Rows.applyAll_delete]
    refine .of_mem hps fun key row hr => ?_
    simp only at hr
    split at hr
    · cases hr
    · rename_i hkept
      exact mem_kept (h.mem hr) (restoreSub_key hP _) hkept fun x hx => by simpa using hx

theorem resume (hP : P.ParseSpec) {now : Nat} {cfg : Config} {acl : Acl} {req : ConnectRequest} {epoch : Nat}
    (h : Fresh P (some s) r)
    (hkeep : s.persistent = true → (s.resumeBound P now cfg acl req epoch).persistent = true) :
    Fresh P (some (s.resumeBound P now cfg acl req epoch)) (r.applyAll
      ((if Broker.identityChanged s.identity req.identity && s.persistent then [.clearSubscriptions cid] else []) ++
        Broker.reauthorizeCommands P acl true cid ((s.takenOver req.identity).bind cfg req epoch) ++
        if Broker.durable cfg req then [.upsertSession cid (Broker.requestedExpiry cfg req) req.identity] else [])) := by
  obtain ⟨-, hdur, -, -⟩ := Session.resumeBound_fields (P := P) now cfg acl req epoch s
  rw [reauthorizeCommands_resume, Rows.applyAll_append, Rows.applyAll_append]
  cases hps : s.persistent with
  | false =>
    rw [h.empty_of_transient hps, Bool.and_false]
    cases hd : Broker.durable cfg req with
    | false => exact .of_empty _
    | true =>
      simp only [if_true, Bool.false_eq_true, if_false]
      rw [Rows.applyAll_delete]
      refine .of_mem (hdur.trans hd) fun key row hr => ?_
      simp [Rows.applyAll, Rows.apply] at hr
  | true =>
    have hd : Broker.durable cfg req = true := hdur ▸ hkeep hps
    rw [if_pos hd, if_pos hd, Bool.and_true, Session.inherited]
    refine .of_mem (hdur.trans hd) fun key row hr => ?_
    rw [Session.resumeBound_subscriptions, Session.inherited]
    split at hr
    · simp [Rows.applyAll, Rows.apply] at hr
    · rename_i hsame
      rw [if_neg hsame]
      rw [Rows.applyAll_delete] at hr
      simp only [Rows.applyAll, List.foldl_cons, List.foldl_nil, Rows.apply] at hr
      split at hr
      · cases hr
      · rename_i hkept
        exact mem_kept (h.mem hr) (restoreSub_key hP _) hkept fun x hx => by simpa using hx

end Fresh

theorem Recorded.fresh {P : Protocol} {R : Session → Session → Prop} {cid : String} {a b : Option Session}
    {cmds : List Command} (hP : P.ParseSpec)
    (hR : ∀ s s', R s s' → s.persistent = true → s'.persistent = true) (h : Recorded P R cid a b cmds) :
    ∀ r : Rows, r.ForeignKey → (∀ s, a = some s → SessionOk P cid s) → Fresh P a r →
      Fresh P b (r.applyAll cmds) := by
  induction h with
  | quiet h =>
    intro r _ _ hf
    cases h with
    | none => exact hf
    | some h =>
      refine ⟨fun row hr => ?_, fun key row hr => ?_⟩
      · obtain ⟨s, hs, hp⟩ := hf.session row hr
        cases hs
        exact ⟨_, rfl, h.persistent.trans hp⟩
      · obtain ⟨s, hs, hp, hm⟩ := hf.subscription key row hr
        cases hs
        exact ⟨_, rfl, h.persistent.trans hp, h.subscriptions ▸ hm⟩
  | subscribe s sub rec hpar hrec => exact fun r hfk ha hf => hf.subscribe hP (ha s rfl) hpar hrec hfk
  | unsubscribe s raw => exact fun r _ ha hf => hf.unsubscribe hP (ha s rfl) raw
  | restrict s acl => exact fun r _ _ hf => hf.restrict hP acl
  | expiry s n =>
    intro r _ _ hf
    cases hps : s.persistent with
    | false =>
      rw [hf.empty_of_transient hps]
      exact .of_empty _
    | true => exact .of_mem rfl fun key row hr => hf.mem hr
  | remove s => intro r _ _ _; exact .of_empty _
  | create s clean hold hid hsubs hres =>
    intro r _ _ hf
    have hclear : r.applyAll (if clean then [.deleteSession cid] else []) = ⟨none, fun _ => none⟩ := by
      cases clean with
      | true => rfl
      | false => exact hf.empty fun s hs => by simp [hold rfl] at hs
    rw [Rows.applyAll_append, hclear]
    cases hps : s.persistent with
    | false => exact .of_empty _
    | true => exact .of_mem hps fun key row hr => by cases hr
  | resume s now cfg acl req epoch hres hRs => exact fun r _ _ hf => hf.resume hP (hR s _ hRs)
  | bridge hres h =>
    intro r _ ha hf
    have he : r = ⟨none, fun _ => none⟩ := by
      refine hf.empty fun s hs => ?_
      by_contra hp
      exact absurd ((ha s hs).unreserved (by simpa using hp)) (by simp [hres])
    rw [he]
    exact .of_empty _
  | trans h h' ih ih' =>
    intro r hfk ha hf
    rw [Rows.applyAll_append]
    exact ih' _ (hfk.applyAll _) (h.sessionOk hP ha) (ih r hfk ha hf)

/-- Nothing is stored under a reserved client id. -/
theorem Recorded.session_none {P : Protocol} {R : Session → Session → Prop} {cid : String} {a b : Option Session}
    {cmds : List Command} (hP : P.ParseSpec) (h : Recorded P R cid a b cmds) (hcid : reservedClientId cid = true) :
    ∀ r : Rows, (∀ s, a = some s → SessionOk P cid s) → r.session = none → (r.applyAll cmds).session = none := by
  have hnp : ∀ {s : Session}, (∀ s', some s = some s' → SessionOk P cid s') → s.persistent = false := by
    intro s ha
    by_contra hp
    exact absurd ((ha s rfl).unreserved (by simpa using hp)) (by simp [hcid])
  induction h with
  | quiet => exact fun _ _ hr => hr
  | subscribe s sub rec => intro r ha hr; rw [hnp ha]; exact hr
  | unsubscribe s raw => intro r ha hr; rw [hnp ha, Bool.and_false]; exact hr
  | restrict s acl => intro r ha hr; rw [hnp ha]; exact hr
  | expiry s n => intro r ha hr; rw [hnp ha]; exact hr
  | remove s => intro r _ _; rfl
  | create s clean hold hid hsubs hres => simp [hres] at hcid
  | resume s now cfg acl req epoch hres => simp [hres] at hcid
  | bridge => exact fun _ _ hr => hr
  | trans h h' ih ih' =>
    intro r ha hr
    rw [Rows.applyAll_append]
    exact ih' _ (h.sessionOk hP ha) (ih r ha hr)

end WispMQ
