import WispMQ.Restart
import WispMQ.Views
/-!
# What SUBSCRIBE does

`handle_subscribe` walks over the filters with the session, the reason codes and the retained messages to send as local
variables (subscribe.rs:48-127). Here its effect is read off the packet: `subscriptionOf` is the subscription a filter makes,
if it is granted, `subscribed` puts these in among those of the session, and `retainedFor` are the retained messages to
send. `Subscribed` puts the pieces together.

Two subscriptions of a client never have the same filter and share name (`DistinctSubs`). This excludes the bridges, which
append without looking (bridges.rs:44).
-/

namespace WispMQ
open KeyMap

/-- Replace the subscription with this filter and share name, or append it. -/
def replaceOrAppend (sub : Subscription) : List Subscription → List Subscription
  | [] => [sub]
  | x :: xs => if x.filter = sub.filter ∧ x.shareName = sub.shareName then sub :: xs else x :: replaceOrAppend sub xs

/-- The client has a subscription with this filter and share name. -/
def holds (subs : List Subscription) (sub : Subscription) : Bool :=
  subs.any fun x => x.filter = sub.filter && x.shareName = sub.shareName

theorem replaceOrAppend_new {sub : Subscription} : ∀ {subs : List Subscription},
    (subs.findIdx? fun x => x.filter = sub.filter && x.shareName = sub.shareName) = none →
    replaceOrAppend sub subs = subs ++ [sub] ∧ holds subs sub = false
  | [], _ => ⟨rfl, rfl⟩
  | x :: xs, h => by
    rw [List.findIdx?_cons] at h
    split at h
    · cases h
    · rename_i hx
      obtain ⟨hlist, hheld⟩ := replaceOrAppend_new (Option.map_eq_none_iff.1 h)
      rw [holds, List.any_cons, replaceOrAppend, if_neg (by simpa using hx), hlist]
      rw [holds] at hheld
      exact ⟨rfl, by simpa [hheld] using hx⟩

theorem replaceOrAppend_old {sub : Subscription} : ∀ {subs : List Subscription} {i : Nat},
    (subs.findIdx? fun x => x.filter = sub.filter && x.shareName = sub.shareName) = some i →
    replaceOrAppend sub subs = subs.set i sub ∧ holds subs sub = true
  | x :: xs, i, h => by
    rw [List.findIdx?_cons] at h
    split at h
    · rename_i hx
      cases h
      rw [holds, List.any_cons, hx, replaceOrAppend, if_pos (by simpa using hx)]
      exact ⟨rfl, rfl⟩
    · rename_i hx
      obtain ⟨i, hi, rfl⟩ := Option.map_eq_some_iff.1 h
      obtain ⟨hlist, hheld⟩ := replaceOrAppend_old hi
      rw [holds, List.any_cons, replaceOrAppend, if_neg (by simpa using hx), hlist]
      rw [holds] at hheld
      exact ⟨rfl, by rw [hheld, Bool.or_true]⟩

theorem Session.upsertSubscription_eq (s : Session) (sub : Subscription) :
    s.upsertSubscription sub = ({ s with subscriptions := replaceOrAppend sub s.subscriptions }, holds s.subscriptions sub) := by
  unfold upsertSubscription
  split
  · rename_i i hi
    rw [(replaceOrAppend_old hi).1, (replaceOrAppend_old hi).2]
  · rename_i hi
    rw [(replaceOrAppend_new hi).1, (replaceOrAppend_new hi).2]

namespace Broker
variable (P : Protocol)

/-- The filter is valid and parses, and the policy grants it. -/
def Grants (b : Broker) (identity : Option String) (f : TopicFilter) : Prop :=
  P.validTopicFilter (stripShareForValidation f.filter) = true ∧ ∃ parsed, P.parseFilter f.filter = some parsed ∧
    (b.acl.isEnforced = true → b.acl.canSubscribe P (who identity) parsed.filter = true)

/-- A grant of the QoS that is asked for and available, or an error. -/
def Answers (b : Broker) (identity : Option String) (f : TopicFilter) (code : ReasonCode) : Prop :=
  (code = grantCode (f.qos.min b.config.maximumQos) ↔ b.Grants P identity f) ∧
    (code.isError = true ↔ ¬b.Grants P identity f)

/-- The subscription a filter makes if it is granted. -/
def subscriptionOf (b : Broker) (identity : Option String) (subId : Option Nat) (f : TopicFilter) : Option Subscription :=
  if P.validTopicFilter (stripShareForValidation f.filter) then
    (P.parseFilter f.filter).bind fun parsed =>
      if b.acl.isEnforced && !b.acl.canSubscribe P (who identity) parsed.filter then none
      else some ⟨parsed.filter, parsed.shareName, f.qos.min b.config.maximumQos, f.noLocal, f.retainAsPublished, subId⟩
  else none

/-- The subscriptions after the filters of a SUBSCRIBE. -/
def subscribed (b : Broker) (identity : Option String) (subId : Option Nat) (subs : List Subscription)
    (fs : List TopicFilter) : List Subscription :=
  (fs.filterMap (b.subscriptionOf P identity subId)).foldl (fun subs sub => replaceOrAppend sub subs) subs

/-- The retained messages to send, each with its QoS and subscription identifiers: `es` are the entries of the retained map,
`subs` the subscriptions when the next filter is looked at. -/
def retainedFor (now : Nat) (b : Broker) (identity : Option String) (subId : Option Nat) (es : List (Σ _ : String, Message)) :
    List Subscription → List TopicFilter → List (Message × QoS × List Nat)
  | _, [] => []
  | subs, f :: fs =>
    match b.subscriptionOf P identity subId f with
    | none => retainedFor now b identity subId es subs fs
    | some sub =>
      (if sendsRetained f.retainHandling sub.shareName (holds subs sub) then
        (es.filter fun e => !e.2.isExpired now && P.topicMatches sub.filter e.1).map
          fun e => (e.2, e.2.qos.min sub.qos, subId.toList)
        else []) ++ retainedFor now b identity subId es (replaceOrAppend sub subs) fs

/-- The delivery of a retained message, with RETAIN set. -/
def retainedOp (now maxQueued : Nat) (d : Message × QoS × List Nat) : Op := .deliver now d.1 d.2.1 true d.2.2 maxQueued

/-- What a SUBSCRIBE of the client with session `s` does: `codes` are the reason codes, `es` the order of the retained
messages. -/
structure Subscribed (now : Nat) (b : Broker) (cid : String) (s : Session) (sub : Subscribe) (codes : List ReasonCode)
    (es : List (Σ _ : String, Message)) (b' : Broker) : Prop where
  answers : List.Forall₂ (b.Answers P s.identity) sub.filters codes
  retained : es.Perm b.retained.entries
  subscriptions : (b'.sessions.lookup cid).map (·.subscriptions) =
    some (b.subscribed P s.identity sub.subscriptionIdentifiers.head? s.subscriptions sub.filters)
  session : b'.sessions.lookup cid =
    some ((({ s with
      subscriptions := b.subscribed P s.identity sub.subscriptionIdentifiers.head? s.subscriptions sub.filters }).push
        (.control (.suback ⟨sub.packetId, codes⟩))).applyAll P
      ((retainedFor P now b s.identity sub.subscriptionIdentifiers.head? es s.subscriptions sub.filters).map
        (retainedOp now b.config.maxQueuedMessages))).1
  others : ∀ c, c ≠ cid → b'.sessions.lookup c = b.sessions.lookup c

variable {P}

theorem isError_grantCode (q : QoS) : (grantCode q).isError = false := by cases q <;> rfl

theorem subscriptionOf_isSome {b : Broker} {identity : Option String} (subId : Option Nat) {f : TopicFilter} :
    (b.subscriptionOf P identity subId f).isSome ↔ b.Grants P identity f := by
  unfold subscriptionOf Grants
  cases P.validTopicFilter (stripShareForValidation f.filter) with
  | false => simp
  | true =>
    cases P.parseFilter f.filter with
    | none => simp
    | some parsed =>
      simp only [if_true, Option.bind_some, true_and, Option.some.injEq, exists_eq_left']
      cases b.acl.isEnforced <;> cases b.acl.canSubscribe P (who identity) parsed.filter <;> simp

/-! ## The loop -/

section Loop
variable (now : Nat) (ord : Orders) (b : Broker) (cid : String) (subId : Option Nat)

/-- A refused filter adds its reason code. -/
theorem subscribeFilter_refused {acc : SubscribeAcc} {f : TopicFilter}
    (h : b.subscriptionOf P acc.session.identity subId f = none) :
    ∃ code, code.isError = true ∧
      subscribeFilter P now ord b cid subId acc f = { acc with reasonCodes := acc.reasonCodes ++ [code] } := by
  unfold subscriptionOf at h
  unfold subscribeFilter
  cases hvalid : P.validTopicFilter (stripShareForValidation f.filter) with
  | false => exact ⟨.topicFilterInvalid, rfl, rfl⟩
  | true =>
    cases hparse : P.parseFilter f.filter with
    | none => exact ⟨.topicFilterInvalid, rfl, rfl⟩
    | some parsed =>
      simp only [hvalid, if_true, hparse, Option.bind_some] at h
      split at h
      · rename_i hdenied
        refine ⟨.notAuthorized, rfl, ?_⟩
        simp only [Bool.not_true, Bool.false_eq_true, if_false]
        rw [if_pos hdenied]
      · cases h

/-- A granted filter adds its subscription and picks up the retained messages. -/
theorem subscribeFilter_granted_eq {acc : SubscribeAcc} {f : TopicFilter} {sub : Subscription}
    (h : b.subscriptionOf P acc.session.identity subId f = some sub) :
    sub.qos = f.qos.min b.config.maximumQos ∧
      subscribeFilter P now ord b cid subId acc f =
        { session := { acc.session with subscriptions := replaceOrAppend sub acc.session.subscriptions }
          reasonCodes := acc.reasonCodes ++ [grantCode sub.qos]
          commands := (subscribeFilter P now ord b cid subId acc f).commands
          retainedToSend := acc.retainedToSend ++
            if sendsRetained f.retainHandling sub.shareName (holds acc.session.subscriptions sub) then
              b.retainedMatches P now ord sub.filter sub.qos subId
            else [] } := by
  unfold subscriptionOf at h
  split at h
  · rename_i hvalid
    obtain ⟨parsed, hparse, h⟩ := Option.bind_eq_some_iff.1 h
    split at h
    · cases h
    · rename_i hallowed
      cases h
      refine ⟨rfl, ?_⟩
      simp only [subscribeFilter, hvalid, hparse, Bool.not_true, Bool.false_eq_true, if_false, Session.upsertSubscription_eq]
      simp only [hallowed, Bool.false_eq_true, if_false]
  · cases h

theorem subscribeFilter_foldl : ∀ (fs : List TopicFilter) (acc : SubscribeAcc),
    ∃ codes, List.Forall₂ (b.Answers P acc.session.identity) fs codes ∧
      (fs.foldl (subscribeFilter P now ord b cid subId) acc).reasonCodes = acc.reasonCodes ++ codes ∧
      (fs.foldl (subscribeFilter P now ord b cid subId) acc).session = { acc.session with
        subscriptions := b.subscribed P acc.session.identity subId acc.session.subscriptions fs } ∧
      (fs.foldl (subscribeFilter P now ord b cid subId) acc).retainedToSend = acc.retainedToSend ++
        retainedFor P now b acc.session.identity subId (reorder ord.retained b.retained.entries) acc.session.subscriptions fs
  | [], acc => ⟨[], .nil, by simp, rfl, by simp [retainedFor]⟩
  | f :: fs, acc => by
    cases hsub : b.subscriptionOf P acc.session.identity subId f with
    | none =>
      have hnot : ¬b.Grants P acc.session.identity f := by
        rw [← subscriptionOf_isSome subId, hsub]
        simp
      obtain ⟨code, herr, hstep⟩ := subscribeFilter_refused now ord b cid subId hsub
      obtain ⟨codes, hcodes, h1, h2, h3⟩ := subscribeFilter_foldl fs (subscribeFilter P now ord b cid subId acc f)
      rw [hstep] at hcodes h1 h2 h3
      refine ⟨code :: codes, .cons ⟨iff_of_false ?_ hnot, iff_of_true herr hnot⟩ hcodes, ?_, ?_, ?_⟩
      · rintro rfl
        rw [isError_grantCode] at herr
        cases herr
      · rw [List.foldl_cons, hstep, h1, List.append_assoc]
        rfl
      · rw [List.foldl_cons, hstep, h2, subscribed, subscribed, List.filterMap_cons, hsub]
      · rw [List.foldl_cons, hstep, h3, retainedFor, hsub]
    | some sub =>
      have hyes : b.Grants P acc.session.identity f := by
        rw [← subscriptionOf_isSome subId, hsub]
        rfl
      obtain ⟨hqos, hstep⟩ := subscribeFilter_granted_eq now ord b cid subId hsub
      obtain ⟨codes, hcodes, h1, h2, h3⟩ := subscribeFilter_foldl fs (subscribeFilter P now ord b cid subId acc f)
      rw [hstep] at hcodes h1 h2 h3
      refine ⟨grantCode sub.qos :: codes, .cons ⟨iff_of_true (by rw [hqos]) hyes, ?_⟩ hcodes, ?_, ?_, ?_⟩
      · rw [isError_grantCode]
        simpa using hyes
      · rw [List.foldl_cons, hstep, h1, List.append_assoc]
        rfl
      · rw [List.foldl_cons, hstep, h2, subscribed, subscribed, List.filterMap_cons, hsub]
        rfl
      · rw [List.foldl_cons, hstep, h3, retainedFor, hsub, List.append_assoc]
        rfl

end Loop

theorem handleSubscribe_subscribed (now : Nat) (ord : Orders) {b : Broker} {cid : String} {s : Session} (sub : Subscribe)
    (hs : b.sessions.lookup cid = some s) :
    ∃ codes es, Subscribed P now b cid s sub codes es (handleSubscribe P now ord b cid s.epoch sub).broker := by
  obtain ⟨codes, hanswers, hcodes, hsession, hretained⟩ := subscribeFilter_foldl (P := P) now ord b cid
    sub.subscriptionIdentifiers.head? sub.filters { session := s }
  set acc := sub.filters.foldl (subscribeFilter P now ord b cid sub.subscriptionIdentifiers.head?) { session := s } with hacc
  have hafter : (handleSubscribe P now ord b cid s.epoch sub).broker.sessions.lookup cid =
      some (acc.retainedToSend.foldl (deliverRetained P now b.config.maxQueuedMessages)
        (acc.session.push (.control (.suback ⟨sub.packetId, acc.reasonCodes⟩)), 0)).1 := by
    simp [handleSubscribe, fenced, hs, addDropped, setSession, ← hacc]
  refine ⟨codes, reorder ord.retained b.retained.entries, hanswers, reorder_perm .., ?_, ?_, fun c hc => ?_⟩
  · have hpush := Session.SameRecord.push acc.session (.control (.suback ⟨sub.packetId, acc.reasonCodes⟩))
    have hsent := deliverRetained_sameRecord (P := P) now b.config.maxQueuedMessages acc.retainedToSend
      (acc.session.push (.control (.suback ⟨sub.packetId, acc.reasonCodes⟩)), 0)
    rw [hafter, Option.map_some, hsent.subscriptions, hpush.subscriptions, hsession]
  · rw [hafter, deliverRetained_sees, hsession, hcodes, hretained]
    rfl
  · simp [handleSubscribe, fenced, hs, addDropped, setSession, hc]

end Broker

/-! ## Every run -/

namespace World
open Broker
variable {P : Protocol}

/-- No two subscriptions of a network client have the same filter and share name. -/
def DistinctSubs (w : World) : Prop :=
  ∀ cid s, w.broker.sessions.lookup cid = some s → reservedClientId cid = false →
    (s.subscriptions.map fun sub => (sub.filter, sub.shareName)).Nodup

theorem Tidy.distinctSubs {w : World} (h : Tidy P w) : w.DistinctSubs := by
  intro cid s hs hres
  refine List.Nodup.of_map (fun t : String × Option String => shareKey t.2 t.1) ?_
  rw [List.map_map]
  exact ((h.sessions cid s hs).subs hres).nodup

/-- **SUBSCRIBE is exact**: in every state of a run the subscriptions of a client are distinct, and a SUBSCRIBE of its
current connection does what it asks for, filter by filter. -/
theorem subscribe_exact (P : Protocol) (hP : P.ParseSpec) (now : Nat) (cfg : Config) (db : Db) (acl : Acl)
    (auth : Option Credentials) (ls : List Label) :
    (run P (boot P now cfg db acl auth) ls).1.DistinctSubs ∧
    ∀ l cid sub s, (run P (boot P now cfg db acl auth) ls).1.broker.sessions.lookup cid = some s →
      (run P (boot P now cfg db acl auth) ls).1.selected l.input = some (.dispatch cid s.epoch (.subscribe sub)) →
      ∃ codes es, Subscribed P l.now (run P (boot P now cfg db acl auth) ls).1.broker cid s sub codes es
        (step P (run P (boot P now cfg db acl auth) ls).1 l).1.broker := by
  refine ⟨(run_tidy hP now cfg db acl auth ls).distinctSubs, fun l cid sub s hs hsel => ?_⟩
  rw [(step_of_selected hsel).1]
  exact handleSubscribe_subscribed l.now l.ord sub hs

/-- A client that asks twice for `t`, with a retained message there. -/
def repeated : Subscribe :=
  ⟨1, [{ filter := "t", qos := .atLeastOnce, retainHandling := .sendIfNewSubscription },
    { filter := "t", qos := .exactlyOnce, retainHandling := .sendIfNewSubscription }], []⟩

def asksTwice : List Label :=
  connecting { clientId := "c", cleanStart := true } ++
  sending "c" 1 (.publish ⟨false, .atMostOnce, true, "t", none, {}, [1]⟩) ++
  [{ input := .call (.packet "c" 1 (.subscribe repeated)) }]

/-- It has one subscription, and gets the message once. -/
theorem subscribe_exact_repeated :
    ∃ s codes es, Subscribed .reference 0 (run .reference empty asksTwice).1.broker "c" s repeated codes es
        (step .reference (run .reference empty asksTwice).1 { input := .task 0 }).1.broker ∧
      subscribed .reference (run .reference empty asksTwice).1.broker s.identity none s.subscriptions repeated.filters =
        [⟨"t", none, .exactlyOnce, false, false, none⟩] := by
  have h : ((run .reference empty asksTwice).1.broker.sessions.lookup "c").any fun s =>
      s.epoch = 1 && subscribed .reference (run .reference empty asksTwice).1.broker s.identity none s.subscriptions
        repeated.filters = [⟨"t", none, .exactlyOnce, false, false, none⟩] := by decide +kernel
  obtain ⟨s, hs, hok⟩ := (Option.any_eq_true _ _).1 h
  simp only [Bool.and_eq_true, decide_eq_true_eq] at hok
  obtain ⟨codes, es, hsub⟩ := (subscribe_exact .reference parseSpec_reference 0 {} {} .permitAll none asksTwice).2
    { input := .task 0 } "c" repeated s hs (by rw [hok.1]; decide +kernel)
  exact ⟨s, codes, es, hsub, hok.2⟩

end World

end WispMQ
