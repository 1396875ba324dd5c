import WispMQ.Capabilities
import WispMQ.Holding
import WispMQ.Retained
import WispMQ.Subscribing
/-!
# What UNSUBSCRIBE does

`handle_unsubscribe` (subscribe.rs:153-211) takes the filters one after the other out of the session, and answers for each
whether it was there. Here this is read off the packet (`Unsubscribed`): a subscription goes if a filter names it, and a
filter is answered with success if the filters before it have left what it names.

From there on the client is left alone. What comes to a session comes through its subscriptions, so that nothing comes of
the topics that none of them matches, until it asks for them again; what had come before may still be sent
(`unsubscribed_silent`).
-/

namespace WispMQ
open KeyMap

/-- The subscription is the one with this share name and filter. -/
def Subscription.isNamed (t : Option String × String) (x : Subscription) : Bool := x.filter = t.2 && x.shareName = t.1

namespace Broker
variable (P : Protocol)

/-- One of the filters names the subscription. -/
def isListed (fs : List String) (x : Subscription) : Bool := fs.any fun f => x.isNamed (unsubscribeTarget P f)

/-- The subscriptions the filters leave. -/
def remaining (subs : List Subscription) (fs : List String) : List Subscription := subs.filter fun x => !isListed P fs x

/-- The answer to a filter: whether what it names is there. -/
def unsubscribeCode (subs : List Subscription) (f : String) : ReasonCode :=
  if subs.any (·.isNamed (unsubscribeTarget P f)) then .success else .noSubscriptionExisted

/-- The answers to the filters, each after those before it. -/
def unsubscribeCodes (subs : List Subscription) (fs : List String) : List ReasonCode :=
  fs.mapIdx fun i f => unsubscribeCode P (remaining P subs (fs.take i)) f

/-- The filters that are answered with success. -/
def removedFilters (subs : List Subscription) (fs : List String) : List String :=
  ((fs.zip (unsubscribeCodes P subs fs)).filter fun a => a.2 = .success).map Prod.fst

/-- What an UNSUBSCRIBE of the client with session `s` does. -/
structure Unsubscribed (b : Broker) (cid : String) (s : Session) (unsub : Unsubscribe) (b' : Broker)
    (effects : List Effect) : Prop where
  session : b'.sessions.lookup cid = some
    (({ s with subscriptions := remaining P s.subscriptions unsub.filters }).push
      (.control (.unsuback ⟨unsub.packetId, unsubscribeCodes P s.subscriptions unsub.filters⟩)))
  gone : ∀ f ∈ unsub.filters, ∀ x ∈ remaining P s.subscriptions unsub.filters, x.isNamed (unsubscribeTarget P f) = false
  effects : effects = (if s.persistent then
      (removedFilters P s.subscriptions unsub.filters).map fun f => .store (.deleteSubscription cid f) else []) ++
    [.result cid s.epoch .continue]
  others : ∀ c, c ≠ cid → b'.sessions.lookup c = b.sessions.lookup c
  retained : b'.retained = b.retained

variable {P}

/-! ## The loop -/

theorem remaining_nil (subs : List Subscription) : remaining P subs [] = subs :=
  List.filter_eq_self.2 fun _ _ => rfl

theorem remaining_cons (subs : List Subscription) (f : String) (fs : List String) :
    remaining P subs (f :: fs) = remaining P (remaining P subs [f]) fs := by
  simp only [remaining, List.filter_filter, isListed, List.any_cons, List.any_nil, Bool.or_false, Bool.not_or]
  exact List.filter_congr fun x _ => Bool.and_comm _ _

theorem unsubscribeCodes_cons (subs : List Subscription) (f : String) (fs : List String) :
    unsubscribeCodes P subs (f :: fs) = unsubscribeCode P subs f :: unsubscribeCodes P (remaining P subs [f]) fs := by
  rw [unsubscribeCodes, List.mapIdx_cons, List.take_zero, remaining_nil, unsubscribeCodes]
  congr 2
  funext i g
  rw [List.take_succ_cons, remaining_cons]

theorem removedFilters_cons (subs : List Subscription) (f : String) (fs : List String) :
    removedFilters P subs (f :: fs) =
      (if unsubscribeCode P subs f = .success then [f] else []) ++ removedFilters P (remaining P subs [f]) fs := by
  rw [removedFilters, unsubscribeCodes_cons, List.zip_cons_cons, List.filter_cons]
  split
  · rename_i h
    rw [if_pos (by simpa using h)]
    rfl
  · rename_i h
    rw [if_neg (by simpa using h)]
    rfl

theorem removeSubscription_eq (s : Session) (f : String) :
    s.removeSubscription (unsubscribeTarget P f).2 (unsubscribeTarget P f).1 =
      ({ s with subscriptions := remaining P s.subscriptions [f] },
        s.subscriptions.any (·.isNamed (unsubscribeTarget P f))) := by
  have hfilter : (s.subscriptions.filter fun x =>
      !(decide (x.filter = (unsubscribeTarget P f).2) && decide (x.shareName = (unsubscribeTarget P f).1))) =
        remaining P s.subscriptions [f] := by
    simp [remaining, isListed, Subscription.isNamed]
  simp only [Session.removeSubscription, hfilter, Prod.mk.injEq, true_and]
  rw [Bool.eq_iff_iff, bne_iff_ne, List.any_eq_true, ne_eq, remaining, List.length_filter_eq_length_iff]
  simp [isListed]

theorem unsubscribeFilter_foldl (cid : String) : ∀ (fs : List String) (acc : Session × List ReasonCode × List Command),
    fs.foldl (unsubscribeFilter P cid) acc =
      ({ acc.1 with subscriptions := remaining P acc.1.subscriptions fs },
        acc.2.1 ++ unsubscribeCodes P acc.1.subscriptions fs,
        acc.2.2 ++ if acc.1.persistent then (removedFilters P acc.1.subscriptions fs).map (.deleteSubscription cid) else [])
  | [], acc => by simp [remaining_nil, unsubscribeCodes, removedFilters]
  | f :: fs, acc => by
    have hcode : unsubscribeCode P acc.1.subscriptions f = .success ↔
        acc.1.subscriptions.any (·.isNamed (unsubscribeTarget P f)) = true := by
      unfold unsubscribeCode
      split <;> simp [*]
    rw [List.foldl_cons, unsubscribeFilter_foldl cid fs, unsubscribeFilter, removeSubscription_eq,
      remaining_cons acc.1.subscriptions f fs, unsubscribeCodes_cons, removedFilters_cons]
    simp only [hcode, List.append_assoc, List.singleton_append, Prod.mk.injEq, true_and]
    refine ⟨rfl, ?_⟩
    by_cases hany : acc.1.subscriptions.any (·.isNamed (unsubscribeTarget P f)) = true <;>
      cases hp : acc.1.persistent <;> simp [hany]

theorem handleUnsubscribe_unsubscribed {b : Broker} {cid : String} {s : Session} (unsub : Unsubscribe)
    (hs : b.sessions.lookup cid = some s) : 
    Unsubscribed P b cid s unsub (handleUnsubscribe P b cid s.epoch unsub).broker
      (handleUnsubscribe P b cid s.epoch unsub).effects where
  session := by simp [handleUnsubscribe, fenced, hs, unsubscribeFilter_foldl, setSession]
  gone f hf x hx := by
    have hnot := (List.mem_filter.1 hx).2
    simp only [isListed, Bool.not_eq_true', List.any_eq_false, Bool.not_eq_true] at hnot
    exact hnot f hf
  effects := by
    simp only [handleUnsubscribe, fenced, hs, if_true, unsubscribeFilter_foldl, List.nil_append]
    cases s.persistent <;> simp [Function.comp_def]
  others c hc := by simp [handleUnsubscribe, fenced, hs, setSession, hc]
  retained := by simp [handleUnsubscribe, fenced, hs, setSession]

end Broker

namespace World
open Broker
variable {P : Protocol}

/-- **UNSUBSCRIBE is exact**, in every state: an UNSUBSCRIBE of the current connection does what it asks for, filter by
filter. -/
theorem unsubscribe_exact (P : Protocol) (w : World) (l : Label) (cid : String) (unsub : Unsubscribe) (s : Session)
    (hs : w.broker.sessions.lookup cid = some s)
    (hsel : w.selected l.input = some (.dispatch cid s.epoch (.unsubscribe unsub))) :
    Unsubscribed P w.broker cid s unsub (step P w l).1.broker (step P w l).2 := by
  rw [(step_of_selected hsel).1, (step_of_selected hsel).2]
  exact handleUnsubscribe_unsubscribed unsub hs
/-- A client of a durable session that gives up `t` twice, and `u`, which it does not have. -/
def givenUp : Unsubscribe := ⟨2, ["t", "u", "t"]⟩

def givesUp : List Label :=
  connecting { clientId := "c", cleanStart := true, sessionExpiryInterval := some 60 } ++
  sending "c" 1 (.subscribe ⟨1, [{ filter := "t", qos := .atMostOnce }, { filter := "$share/g/t", qos := .atMostOnce }], []⟩) ++
  [{ input := .call (.packet "c" 1 (.unsubscribe givenUp)) }]

/-- It is told so, and keeps the shared subscription. -/
theorem unsubscribe_exact_twice :
    ∃ s, Unsubscribed .reference (run .reference empty givesUp).1.broker "c" s givenUp
        (step .reference (run .reference empty givesUp).1 { input := .task 0 }).1.broker
        (step .reference (run .reference empty givesUp).1 { input := .task 0 }).2 ∧
      unsubscribeCodes .reference s.subscriptions givenUp.filters = [.success, .noSubscriptionExisted, .noSubscriptionExisted] ∧
      remaining .reference s.subscriptions givenUp.filters = [⟨"t", some "g", .atMostOnce, false, false, none⟩] := by
  have h : ((run .reference empty givesUp).1.broker.sessions.lookup "c").any fun s =>
      s.epoch = 1 &&
      unsubscribeCodes .reference s.subscriptions givenUp.filters = [.success, .noSubscriptionExisted, .noSubscriptionExisted] &&
      remaining .reference s.subscriptions givenUp.filters = [⟨"t", some "g", .atMostOnce, false, false, none⟩] := by
    decide +kernel
  obtain ⟨s, hs, hok⟩ := (Option.any_eq_true _ _).1 h
  simp only [Bool.and_eq_true, decide_eq_true_eq] at hok
  have hdone := unsubscribe_exact .reference _ { input := .task 0 } "c" givenUp s hs (by rw [hok.1.1]; decide +kernel)
  exact ⟨s, hdone, hok.1.2, hok.2⟩

end World

/-! ## What comes afterwards -/

/-- The session has such a PUBLISH: queued, in flight or in its channel. -/
inductive Session.Has (s : Session) (topic : String) (payload : Bytes) : Prop
  | queue {p : Pending} (h : p ∈ s.queue) (ht : p.message.topic = topic) (hp : p.message.payload = payload)
  | puback {id : Nat} {q : Publish} (h : s.awaitingPuback.lookup id = some q) (ht : q.topic = topic) (hp : q.payload = payload)
  | pubrec {id : Nat} {q : Publish} (h : s.awaitingPubrec.lookup id = some q) (ht : q.topic = topic) (hp : q.payload = payload)
  | channel {q : Publish} (h : .send q ∈ s.channelItems) (ht : q.topic = topic) (hp : q.payload = payload)

/-- If the entry is of the topic, its payload is one of `K`. -/
def Pending.Within (topic : String) (K : Bytes → Prop) (p : Pending) : Prop := p.message.topic = topic → K p.message.payload

def Publish.Within (topic : String) (K : Bytes → Prop) (q : Publish) : Prop := q.topic = topic → K q.payload

theorem packs_within (topic : String) (K : Bytes → Prop) : Packs (Pending.Within topic K) (Publish.Within topic K) where
  render _ hp _ _ := hp
  unacknowledged _ hp _ := hp
  dup _ hq := hq

/-- Of the topic, the session carries payloads of `K` only. -/
abbrev Session.Within (topic : String) (K : Bytes → Prop) (s : Session) : Prop :=
  s.Carries (Pending.Within topic K) (Publish.Within topic K)

/-- None of the subscriptions matches the topic. -/
def Deaf (P : Protocol) (topic : String) (subs : List Subscription) : Prop :=
  ∀ x ∈ subs, P.topicMatches x.filter topic = false

theorem Deaf.subset {P : Protocol} {topic : String} {subs subs' : List Subscription} (h : Deaf P topic subs)
    (hsub : subs' ⊆ subs) : Deaf P topic subs' :=
  fun x hx => h x (hsub hx)

namespace Session
variable {P : Protocol} {topic : String} {K : Bytes → Prop} {s : Session}

theorem within_has (s : Session) : s.Within topic (s.Has topic) :=
  ⟨⟨fun _ hp ht => .queue hp ht rfl, fun _ _ hq ht => .puback hq ht rfl, fun _ _ hq ht => .pubrec hq ht rfl⟩,
    fun _ hi _ hq ht => .channel (hq ▸ hi) ht rfl⟩

/-- Only a SUBSCRIBE adds subscriptions, and a bridge. -/
theorem apply_subset (s : Session) {o : Op} (hsub : ∀ x, o ≠ .subscribe x) (hbridge : ∀ x, o ≠ .bridgeSubscribe x) :
    (s.apply P o).1.subscriptions ⊆ s.subscriptions := by
  by_cases hq : o.isQuiet
  · exact (apply_quiet P s hq).subscriptions ▸ fun _ => id
  · cases o with
    | subscribe x => exact absurd rfl (hsub x)
    | bridgeSubscribe x => exact absurd rfl (hbridge x)
    | unsubscribe => exact List.filter_subset_self _
    | revoke => exact List.filter_subset_self _
    | setExpiry => exact fun _ => id
    | resume now ord cfg acl req epoch =>
      rw [(apply_resume_binding P now ord cfg acl req epoch s).subscriptions, resumeBound_subscriptions]
      refine List.Subset.trans (List.filter_subset_self _) ?_
      unfold inherited
      split
      · exact List.nil_subset _
      · exact fun _ => id
    | _ => simp [Op.isQuiet] at hq

/-- The session carries what it may, and does not listen. -/
structure Hushed (P : Protocol) (topic : String) (K : Bytes → Prop) (s : Session) : Prop where
  within : s.Within topic K
  deaf : Deaf P topic s.subscriptions

end Session

/-- The operation delivers nothing of the topic but what is in `K`, and adds no subscription. -/
structure Op.Spares (topic : String) (K : Bytes → Prop) (o : Op) : Prop where
  takeover : o.isResume = false
  delivers : o.Delivers (Pending.Within topic K)
  subscribe : ∀ x, o ≠ .subscribe x
  bridge : ∀ x, o ≠ .bridgeSubscribe x

namespace Session
variable {P : Protocol} {topic : String} {K : Bytes → Prop}

theorem Hushed.applyAll : ∀ {os : List Op} {s : Session}, s.Hushed P topic K → (∀ o ∈ os, o.Spares topic K) →
    (s.applyAll P os).1.Hushed P topic K
  | [], _, h, _ => h
  | o :: os, s, h, hos => by
    obtain ⟨ho, hos⟩ := List.forall_mem_cons.1 hos
    exact Hushed.applyAll (s := (s.apply P o).1)
      ⟨h.within.apply (packs_within topic K) ho.takeover ho.delivers, h.deaf.subset (s.apply_subset ho.subscribe ho.bridge)⟩ hos

theorem Hushed.control {s : Session} (h : s.Hushed P topic K) (p : Packet) : (s.push (.control p)).Hushed P topic K := by
  have h' : (s.applyAll P [.control p]).1.Hushed P topic K := h.applyAll (by simpa using ⟨rfl, trivial, by simp, by simp⟩)
  exact h'

theorem Hushed.of_empty {s : Session} (hq : s.queue = []) (hp : s.awaitingPuback = ∅) (hr : s.awaitingPubrec = ∅)
    (hc : s.channelItems = []) (hs : s.subscriptions = []) : s.Hushed P topic K :=
  ⟨.of_empty hq hp hr hc, fun x hx => by rw [hs] at hx; cases hx⟩

end Session

/-- What is delivered through subscriptions that do not match the topic is not of the topic. -/
theorem DeliveredVia.spares {P : Protocol} {topic cid : String} {K : Bytes → Prop} {subs : List Subscription} {o : Op}
    {via : List String} (h : DeliveredVia P cid subs o via) (hdeaf : Deaf P topic subs) : o.Spares topic K := by
  obtain ⟨now, publisher, m, qos, retain, subIds, maxQueued, rfl, hne, hvia⟩ := h
  refine ⟨rfl, fun ht => ?_, by simp, by simp⟩
  have hel : ∃ x ∈ subs, eligible P publisher m cid x := by
    rcases hvia with rfl | ⟨x, hx, -, hel, -⟩
    · obtain ⟨_, hx⟩ := List.exists_mem_of_ne_nil _ hne
      obtain ⟨x, hx, -⟩ := List.mem_map.1 hx
      obtain ⟨hx, hel⟩ := List.mem_filter.1 hx
      exact ⟨x, hx, by simp only [Bool.and_eq_true] at hel; exact hel.2⟩
    · exact ⟨x, hx, hel⟩
  obtain ⟨x, hx, hel⟩ := hel
  have hno : P.topicMatches x.filter m.topic = false := ht.symm ▸ hdeaf x hx
  simp [eligible, hno] at hel

namespace Broker
open Session
variable {P : Protocol} {b b' : Broker} {cid topic : String} {identity : Option String} {subId : Option Nat} {K : Bytes → Prop}

/-- No filter of the SUBSCRIBE matches the topic. -/
def spares (P : Protocol) (topic : String) (sub : Subscribe) : Bool :=
  sub.filters.all fun f => (P.parseFilter f.filter).all fun parsed => !P.topicMatches parsed.filter topic

theorem subscriptionOf_deaf {f : TopicFilter} {x : Subscription} {sub : Subscribe} (hsub : spares P topic sub)
    (hf : f ∈ sub.filters) (h : b.subscriptionOf P identity subId f = some x) : P.topicMatches x.filter topic = false := by
  unfold subscriptionOf at h
  split at h
  · obtain ⟨parsed, hparse, h⟩ := Option.bind_eq_some_iff.1 h
    split at h
    · cases h
    · cases h
      have hall := List.all_eq_true.1 hsub f hf
      simpa [hparse] using hall
  · cases h

theorem mem_replaceOrAppend {sub x : Subscription} : ∀ {subs : List Subscription},
    x ∈ replaceOrAppend sub subs → x = sub ∨ x ∈ subs
  | [], h => .inl (List.mem_singleton.1 h)
  | y :: ys, h => by
    unfold replaceOrAppend at h
    split at h
    · exact (List.mem_cons.1 h).imp_right (List.mem_cons_of_mem _)
    · rcases List.mem_cons.1 h with rfl | h
      · exact .inr List.mem_cons_self
      · exact (mem_replaceOrAppend h).imp_right (List.mem_cons_of_mem _)

theorem mem_subscribed {x : Subscription} {subs : List Subscription} {fs : List TopicFilter}
    (h : x ∈ b.subscribed P identity subId subs fs) :
    x ∈ subs ∨ ∃ f ∈ fs, b.subscriptionOf P identity subId f = some x := by
  suffices hall : ∀ (new subs : List Subscription), x ∈ new.foldl (fun subs sub => replaceOrAppend sub subs) subs →
      x ∈ new ∨ x ∈ subs by
    refine (hall _ subs h).symm.imp_right fun hx => ?_
    exact List.mem_filterMap.1 hx
  intro new
  induction new with
  | nil => exact fun subs h => .inr h
  | cons sub new ih =>
    intro subs h
    rcases ih _ h with h | h
    · exact .inl (List.mem_cons_of_mem _ h)
    · exact (mem_replaceOrAppend h).imp_left fun hx => List.mem_cons.2 (.inl hx)

theorem mem_retainedFor {now : Nat} {es : List (Σ _ : String, Message)} {d : Message × QoS × List Nat} :
    ∀ {fs : List TopicFilter} {subs : List Subscription}, d ∈ retainedFor P now b identity subId es subs fs →
      ∃ f ∈ fs, ∃ sub, b.subscriptionOf P identity subId f = some sub ∧ ∃ e ∈ es, e.2 = d.1 ∧ P.topicMatches sub.filter e.1
  | [], _, h => by cases h
  | f :: fs, subs, h => by
    have hrest : ∀ {subs}, d ∈ retainedFor P now b identity subId es subs fs →
        ∃ g ∈ f :: fs, ∃ sub, b.subscriptionOf P identity subId g = some sub ∧
          ∃ e ∈ es, e.2 = d.1 ∧ P.topicMatches sub.filter e.1 :=
      fun h => (mem_retainedFor h).imp fun _ hg => ⟨List.mem_cons_of_mem _ hg.1, hg.2⟩
    unfold retainedFor at h
    split at h
    · exact hrest h
    · rename_i sub hsub
      rcases List.mem_append.1 h with h | h
      · split at h
        · obtain ⟨e, he, rfl⟩ := List.mem_map.1 h
          obtain ⟨he, hok⟩ := List.mem_filter.1 he
          simp only [Bool.and_eq_true] at hok
          exact ⟨f, List.mem_cons_self, sub, hsub, e, he, rfl, hok.2⟩
        · cases h
      · exact hrest h

/-- A SUBSCRIBE to other topics. -/
theorem handleSubscribe_hushed {now : Nat} {ord : Orders} {sub : Subscribe} {s s' : Session} (hs : b.sessions.lookup cid = some s)
    (h : s.Hushed P topic K) (hsub : spares P topic sub) (hret : ∀ t m, b.retained.lookup t = some m → m.topic = t)
    (hs' : (handleSubscribe P now ord b cid s.epoch sub).broker.sessions.lookup cid = some s') : s'.Hushed P topic K := by
  obtain ⟨codes, es, hdone⟩ := handleSubscribe_subscribed (P := P) now ord sub hs
  rw [hdone.session, Option.some.injEq] at hs'
  rw [← hs']
  have hsubscribed : Session.Hushed P topic K { s with
      subscriptions := b.subscribed P s.identity sub.subscriptionIdentifiers.head? s.subscriptions sub.filters } := by
    refine ⟨⟨⟨h.within.held.queue, h.within.held.puback, h.within.held.pubrec⟩, h.within.channel⟩, fun x hx => ?_⟩
    rcases mem_subscribed hx with hx | ⟨f, hf, hx⟩
    · exact h.deaf x hx
    · exact subscriptionOf_deaf hsub hf hx
  refine (hsubscribed.control _).applyAll fun o ho => ?_
  obtain ⟨d, hd, rfl⟩ := List.mem_map.1 ho
  refine ⟨rfl, fun ht => ?_, by simp [retainedOp], by simp [retainedOp]⟩
  obtain ⟨f, hf, x, hx, e, he, hed, hmatch⟩ := mem_retainedFor hd
  have htopic : e.2.topic = e.1 := hret e.1 e.2 (mem_entries_iff.1 (hdone.retained.mem_iff.1 he))
  have hno := subscriptionOf_deaf hsub hf hx
  rw [← ht, show d.1.topic = e.1 from hed ▸ htopic, hmatch] at hno
  cases hno

/-- An UNSUBSCRIBE from the topic. -/
theorem handleUnsubscribe_hushed {unsub : Unsubscribe} {s s' : Session} (hs : b.sessions.lookup cid = some s)
    (h : s.Within topic K) (hothers : ∀ x ∈ s.subscriptions, P.topicMatches x.filter topic → isListed P unsub.filters x)
    (hs' : (handleUnsubscribe P b cid s.epoch unsub).broker.sessions.lookup cid = some s') : s'.Hushed P topic K := by
  rw [(handleUnsubscribe_unsubscribed unsub hs).session, Option.some.injEq] at hs'
  rw [← hs']
  have hleft : Session.Hushed P topic K { s with subscriptions := remaining P s.subscriptions unsub.filters } := by
    refine ⟨⟨⟨h.held.queue, h.held.puback, h.held.pubrec⟩, h.channel⟩, fun x hx => ?_⟩
    obtain ⟨hx, hnot⟩ := List.mem_filter.1 hx
    rw [Bool.not_eq_true'] at hnot
    refine Bool.eq_false_iff.2 fun hmatch => ?_
    rw [hothers x hx hmatch] at hnot
    cases hnot
  exact hleft.control _

end Broker

/-! ## Every run -/

namespace World
open Broker Session
variable {P : Protocol} {w : World} {l : Label} {cid topic : String} {s s' : Session} {K : Bytes → Prop}

/-- The step is a SUBSCRIBE of the client that covers the topic, or subscribes it as a bridge. -/
def asksFor (P : Protocol) (topic cid : String) (w : World) (l : Label) : Bool :=
  match w.selected l.input, l.input with
  | some (.dispatch c _ (.subscribe sub)), _ => c = cid && !spares P topic sub
  | _, .call (.bridgeAddSubscription name _ _) => bridgeClient name = cid
  | _, _ => false

theorem asksFor_subscribe {e : Nat} {sub : Subscribe} (h : w.asksFor P topic cid l = false)
    (hsel : w.selected l.input = some (.dispatch cid e (.subscribe sub))) : spares P topic sub := by
  simpa [asksFor, hsel] using h

theorem asksFor_bridge {name filter : String} {noLocal : Bool} (h : w.asksFor P topic cid l = false)
    (hin : l.input = .call (.bridgeAddSubscription name filter noLocal)) : cid ≠ bridgeClient name := by
  rintro rfl
  simp [asksFor, hin, selected] at h

/-- No step but a SUBSCRIBE or a CONNECT of the client brings it anything of a topic it does not listen to. -/
theorem Sees.spares {v : List (Op × List String)} (h : Sees P w l cid s v) (hdeaf : Deaf P topic s.subscriptions)
    (hquiet : w.asksFor P topic cid l = false)
    (hsub : ∀ sub, w.selected l.input ≠ some (.dispatch cid s.epoch (.subscribe sub)))
    (hconn : ∀ req, w.selected l.input = some (.connect req) → cid ≠ req.clientId) :
    ∀ o ∈ v.map Prod.fst, o.Spares topic K := by
  have hvia : ∀ {ds : List (Op × List String)}, (∀ x ∈ ds, DeliveredVia P cid s.subscriptions x.1 x.2) →
      ∀ o ∈ ds.map Prod.fst, o.Spares topic K := by
    intro ds hds o ho
    obtain ⟨x, hx, rfl⟩ := List.mem_map.1 ho
    exact (hds x hx).spares hdeaf
  cases h with
  | nothing => simp
  | routed _ h => exact hvia h
  | publish _ h =>
    obtain ⟨pre, ds, post, rfl, hpre, hds, hpost⟩ := h
    intro o ho
    simp only [List.map_append, plain_fst, List.mem_append] at ho
    rcases ho with (ho | ho) | ho
    · rcases hpre o ho with ⟨a, topic, rfl⟩ | ⟨-, id, rfl⟩ <;> exact ⟨rfl, trivial, by simp, by simp⟩
    · exact hvia hds o ho
    · obtain ⟨q, ack, -, rfl⟩ := hpost o ho
      exact ⟨rfl, trivial, by simp, by simp⟩
  | @ack packet o _ ho =>
    simp only [plain_fst, List.mem_singleton, forall_eq]
    cases packet <;> simp [ackOp] at ho <;> subst ho <;> exact ⟨rfl, trivial, by simp, by simp⟩
  | subscribe hsel => exact absurd hsel (hsub _)
  | unsubscribe =>
    intro o ho
    simp only [plain_fst, List.mem_append, List.mem_map, List.mem_singleton] at ho
    rcases ho with ⟨u, -, rfl⟩ | rfl <;> exact ⟨rfl, trivial, by simp, by simp⟩
  | revoke _ _ h =>
    have hrevoke : ∀ acl : Acl, (Op.revoke acl).Spares topic K := fun _ => ⟨rfl, trivial, by simp, by simp⟩
    have hshutdown : (Op.shutdown .notAuthorized).Spares topic K := ⟨rfl, trivial, by simp, by simp⟩
    rcases h with rfl | rfl <;> simp [hrevoke, hshutdown]
  | bridge hin hc => exact absurd hc (asksFor_bridge hquiet hin)
  | resume hsel hc => exact absurd hc (hconn _ hsel)
  | _ =>
    simp only [plain_fst, List.mem_singleton, forall_eq]
    exact ⟨rfl, trivial, by simp, by simp⟩

theorem step_hushed (hquiet : w.asksFor P topic cid l = false)
    (hret : ∀ t m, w.broker.retained.lookup t = some m → m.topic = t)
    (hout : ∀ req, w.selected l.input = some (.connect req) → req.out = {})
    (h : ∀ s, w.broker.sessions.lookup cid = some s → s.Hushed P topic K)
    (hs' : (step P w l).1.broker.sessions.lookup cid = some s') : s'.Hushed P topic K := by
  have hfresh : ∀ {req}, w.selected l.input = some (.connect req) → (freshSession l.now w.broker req).Hushed P topic K := by
    intro req hsel
    have hreq : (freshSession l.now w.broker req).out = some req.out := rfl
    exact .of_empty rfl rfl rfl (by simp [channelItems, hreq, hout req hsel]) rfl
  cases hs : w.broker.sessions.lookup cid with
  | none =>
    cases step_stems P w l hs' with
    | fresh hsel _ _ he => exact he ▸ hfresh hsel
    | bridge _ _ he => exact he ▸ .of_empty rfl rfl rfl rfl rfl
    | same hs₀ => rw [hs] at hs₀; cases hs₀
    | publish hs₀ => rw [hs] at hs₀; cases hs₀
    | closed hs₀ => rw [hs] at hs₀; cases hs₀
    | resumed hs₀ => rw [hs] at hs₀; cases hs₀
  | some s =>
    have hhushed := h s hs
    by_cases hsubscribe : ∃ sub, w.selected l.input = some (.dispatch cid s.epoch (.subscribe sub))
    · obtain ⟨sub, hsel⟩ := hsubscribe
      rw [(step_of_selected hsel).1] at hs'
      exact handleSubscribe_hushed hs hhushed (asksFor_subscribe hquiet hsel) hret hs'
    by_cases hconn : ∃ req, w.selected l.input = some (.connect req) ∧ cid = req.clientId
    · obtain ⟨req, hsel, rfl⟩ := hconn
      rw [(step_of_selected hsel).1, runTask] at hs'
      cases hclean : req.connect.cleanStart with
      | false =>
        rw [finishConnect_resumed l.now l.ord hclean hs, Option.some.injEq] at hs'
        rw [← hs']
        exact ⟨hhushed.within.resume (packs_within topic K) l.now l.ord _ _ _ (hout req hsel),
          hhushed.deaf.subset (s.apply_subset (by simp) (by simp))⟩
      | true =>
        rw [finishConnect_fresh l.now l.ord (.inl hclean), Option.some.injEq] at hs'
        exact hs' ▸ hfresh hsel
    cases step_becomes P w l hs hs' with
    | sees hv he =>
      rw [he]
      exact hhushed.applyAll
        (hv.spares hhushed.deaf hquiet (fun sub hsel => hsubscribe ⟨sub, hsel⟩) fun req hsel hc => hconn ⟨req, hsel, hc⟩)
    | fresh hsel hc => exact absurd ⟨_, hsel, hc⟩ hconn
    | bridge _ _ he => exact he ▸ .of_empty rfl rfl rfl rfl rfl

section Boot
variable {now : Nat} {cfg : Config} {db : Db} {acl : Acl} {auth : Option Credentials}

/-- A message is retained under its topic. -/
theorem run_retained_topic (ls : List Label) {t : String} {m : Message}
    (h : (run P (boot P now cfg db acl auth) ls).1.broker.retained.lookup t = some m) : m.topic = t := by
  rcases run_retained h with h | ⟨ht, -⟩
  · rw [boot_retained, unexpired, Option.filter_eq_some_iff] at h
    obtain ⟨row, -, rfl⟩ := Option.map_eq_some_iff.1 h.1
    rfl
  · exact ht

theorem run_hushed {pre post : List Label}
    (h : ∀ s, (run P (boot P now cfg db acl auth) pre).1.broker.sessions.lookup cid = some s → s.Hushed P topic K)
    (hpost : Machine.Along (step P) (fun w l => w.asksFor P topic cid l = false)
      (run P (boot P now cfg db acl auth) pre).1 post) :
    ∀ s, (run P (boot P now cfg db acl auth) (pre ++ post)).1.broker.sessions.lookup cid = some s → s.Hushed P topic K := by
  induction post using List.reverseRecOn with
  | nil => rwa [List.append_nil]
  | append_singleton post l ih =>
    intro s' hs'
    rw [← List.append_assoc, run_append] at hs'
    refine step_hushed ?_ (fun t m => run_retained_topic (pre ++ post)) (fun req hsel => (run_connect hsel).1)
      (ih (Machine.Along.of_append (step P) hpost)) hs'
    rw [run_append]
    exact Machine.Along.at_split (step P) hpost

end Boot

/-- **An UNSUBSCRIBE is final**: after it, and until the client asks for the topic again, nothing of a topic that none of
its other subscriptions matches comes to any session of the client. All it has there, queued, in flight or sent, has a
payload that it had before. -/
theorem unsubscribed_silent (P : Protocol) (now : Nat) (cfg : Config) (db : Db) (acl : Acl) (auth : Option Credentials)
    (pre post : List Label) (l : Label) (cid topic : String) (unsub : Unsubscribe) (s : Session)
    (hs : (run P (boot P now cfg db acl auth) pre).1.broker.sessions.lookup cid = some s)
    (hsel : (run P (boot P now cfg db acl auth) pre).1.selected l.input = some (.dispatch cid s.epoch (.unsubscribe unsub)))
    (hothers : ∀ x ∈ s.subscriptions, P.topicMatches x.filter topic → isListed P unsub.filters x)
    (hpost : Machine.Along (step P) (fun w l => w.asksFor P topic cid l = false)
      (run P (boot P now cfg db acl auth) (pre ++ [l])).1 post) (s' : Session)
    (hs' : (run P (boot P now cfg db acl auth) (pre ++ l :: post)).1.broker.sessions.lookup cid = some s') :
    s'.Within topic (s.Has topic) ∧ Deaf P topic s'.subscriptions := by
  have hafter : ∀ s', (run P (boot P now cfg db acl auth) (pre ++ [l])).1.broker.sessions.lookup cid = some s' →
      s'.Hushed P topic (s.Has topic) := by
    intro s' hs'
    rw [run_append, show ∀ w, (run P w [l]).1 = (step P w l).1 from fun _ => rfl, (step_of_selected hsel).1] at hs'
    exact handleUnsubscribe_hushed hs s.within_has hothers hs'
  rw [show pre ++ l :: post = (pre ++ [l]) ++ post by simp] at hs'
  obtain ⟨hwithin, hdeaf⟩ := run_hushed hafter hpost s' hs'
  exact ⟨hwithin, hdeaf⟩

/-- A client with `t` and `u` that has got a message of each, and gives up `t`. -/
def gaveUp : List Label :=
  connecting { clientId := "c", cleanStart := true, sessionExpiryInterval := some 60 } ++
  sending "c" 1 (.subscribe ⟨1, [{ filter := "t", qos := .atMostOnce }, { filter := "u", qos := .atMostOnce }], []⟩) ++
  connecting { clientId := "d", cleanStart := true } ++
  sending "d" 2 (.publish ⟨false, .atMostOnce, false, "t", none, {}, [1]⟩) ++
  sending "d" 2 (.publish ⟨false, .atMostOnce, false, "u", none, {}, [2]⟩) ++
  [{ input := .call (.packet "c" 1 (.unsubscribe ⟨2, ["t"]⟩)) }]

/-- Two more messages come in, and a SUBSCRIBE to something else. -/
def goesOn : List Label :=
  sending "d" 2 (.publish ⟨false, .atMostOnce, false, "t", none, {}, [3]⟩) ++
  sending "c" 1 (.subscribe ⟨3, [{ filter := "v/#", qos := .atMostOnce }], []⟩) ++
  sending "d" 2 (.publish ⟨false, .atMostOnce, false, "u", none, {}, [4]⟩)

/-- The one of `t` does not come through. -/
theorem unsubscribed_silent_goesOn :
    ∃ s s' : Session, (run .reference empty (gaveUp ++ { input := .task 0 } :: goesOn)).1.broker.sessions.lookup "c" = some s' ∧
      s'.Within "t" (s.Has "t") ∧
      s'.channelItems.filterMap (fun | .send q => some (q.topic, q.payload) | _ => none) =
        [("t", [1]), ("u", [2]), ("u", [4])] := by
  have h : ((run .reference empty gaveUp).1.broker.sessions.lookup "c").any fun s =>
      s.epoch = 1 && s.subscriptions.all fun x =>
        !Protocol.reference.topicMatches x.filter "t" || isListed .reference ["t"] x := by
    decide +kernel
  have h' : ((run .reference empty (gaveUp ++ { input := .task 0 } :: goesOn)).1.broker.sessions.lookup "c").any fun s' =>
      s'.channelItems.filterMap (fun | .send q => some (q.topic, q.payload) | _ => none) =
        [("t", [1]), ("u", [2]), ("u", [4])] := by decide +kernel
  obtain ⟨s, hs, hok⟩ := (Option.any_eq_true _ _).1 h
  obtain ⟨s', hs', hsent⟩ := (Option.any_eq_true _ _).1 h'
  simp only [Bool.and_eq_true, decide_eq_true_eq, List.all_eq_true] at hok
  obtain ⟨hwithin, -⟩ := unsubscribed_silent .reference 0 {} {} .permitAll none gaveUp goesOn { input := .task 0 } "c" "t"
    ⟨2, ["t"]⟩ s hs (by rw [hok.1]; decide +kernel) (fun x hx hmatch => by simpa [hmatch] using hok.2 x hx)
    (by decide +kernel) s' hs'
  exact ⟨s, s', hs', hwithin, of_decide_eq_true hsent⟩

end World

end WispMQ
