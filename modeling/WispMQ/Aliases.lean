import WispMQ.Connection
/-!
# Topic aliases and connections

An alias stands for the topic that a PUBLISH of the same connection bound it to. The broker keeps the table in the
session, where `handle_connection_closed` clears it; a CONNECT that takes a session over leaves it alone. `Binding`
records who bound what, and `mostRecent` is what an alias of a connection should stand for.

As long as every takeover finds the table empty, an alias is resolved as it should be (`aliases_perConnection`). A
CONNECT that comes before the close of the previous connection inherits its table (`inherited_alias`).
-/

namespace WispMQ
open KeyMap

/-- A PUBLISH of connection `epoch` bound an alias to a topic. -/
structure Binding where
  clientId : String
  epoch : Nat
  number : Nat
  topic : String
deriving DecidableEq

def Binding.isFor (cid : String) (e a : Nat) (x : Binding) : Bool :=
  x.clientId = cid && x.epoch = e && x.number = a

/-- The topic the connection bound the alias to last. -/
def mostRecent (bs : List Binding) (cid : String) (e a : Nat) : Option String :=
  ((bs.filter (·.isFor cid e a)).getLast?).map (·.topic)

theorem mostRecent_append_other {bs bs' : List Binding} {cid : String} {e a : Nat}
    (h : ∀ x ∈ bs', ¬(x.clientId = cid ∧ x.epoch = e ∧ x.number = a)) :
    mostRecent (bs ++ bs') cid e a = mostRecent bs cid e a := by
  have hnil : bs'.filter (·.isFor cid e a) = [] := by
    refine List.filter_eq_nil_iff.2 fun x hx => ?_
    have := h x hx
    simp only [Binding.isFor, Bool.and_eq_true, decide_eq_true_eq]
    tauto
  rw [mostRecent, List.filter_append, hnil, List.append_nil, mostRecent]

theorem mostRecent_append_self (bs : List Binding) (x : Binding) :
    mostRecent (bs ++ [x]) x.clientId x.epoch x.number = some x.topic := by
  simp [mostRecent, Binding.isFor]

theorem mostRecent_eq_none {bs : List Binding} {cid : String} {e : Nat} (h : ∀ x ∈ bs, x.epoch ≠ e) (a : Nat) :
    mostRecent bs cid e a = none := by
  have hnone : mostRecent ([] ++ bs) cid e a = mostRecent [] cid e a :=
    mostRecent_append_other fun x hx hb => h x hx hb.2.1
  exact hnone

namespace Broker
variable {P : Protocol} {b : Broker} {cid : String} {s : Session} {p : Publish} {a : Nat} {t : String}

/-- A PUBLISH with an alias that stands for `t` is handled as the PUBLISH that carries `t` and no alias. -/
theorem handlePublish_bound (now : Nat) (ord : Orders) (hs : b.sessions.lookup cid = some s)
    (htopic : p.topic = "") (ha : p.properties.topicAlias = some a) (hmax : a ≤ b.config.topicAliasMaximum)
    (hl : s.inboundAliases.lookup a = some t) :
    handlePublish P now ord b cid s.epoch p = handlePublish P now ord b cid s.epoch
      { p with topic := t, properties := { p.properties with topicAlias := none } } := by
  have hr : ∀ b : Broker, a ≤ b.config.topicAliasMaximum → resolveAlias b.config s p = .ok (s, { p with topic := t }) := by
    intro b hmax
    simp [resolveAlias, ha, hmax, htopic, hl]
  simp only [handlePublish, fenced, hs, if_true]
  rw [hr { b with metrics.publishReceived := _ } hmax]
  rfl

/-- The same broker, but for an entry of the client's alias table that is written once more. -/
def Rewritten (b b' : Broker) (cid : String) (a : Nat) (t : String) : Prop :=
  b' = b ∨ ∃ s, b.sessions.lookup cid = some s ∧ s.inboundAliases.lookup a = some t ∧
    b' = b.setSession cid { s with inboundAliases := s.inboundAliases.insert a t }

/-- It is handled as the PUBLISH that carries `t` along with the alias, which binds the alias to `t` again. -/
theorem handlePublish_rebound (now : Nat) (ord : Orders) (hs : b.sessions.lookup cid = some s)
    (htopic : p.topic = "") (ha : p.properties.topicAlias = some a) (hmax : a ≤ b.config.topicAliasMaximum)
    (hl : s.inboundAliases.lookup a = some t) (ht : t ≠ "") :
    ∃ b', b.Rewritten b' cid a t ∧
      handlePublish P now ord b cid s.epoch { p with topic := t } = handlePublish P now ord b' cid s.epoch p := by
  by_cases hqos : p.qos.asU8 > b.config.maximumQos.asU8
  · exact ⟨b, .inl rfl, by simp [handlePublish, hqos]⟩
  by_cases hretain : (p.retain && !b.config.retainAvailable) = true
  · exact ⟨b, .inl rfl, by simp [handlePublish, hqos, hretain]⟩
  set s₁ : Session := { s with inboundAliases := s.inboundAliases.insert a t } with hs₁
  refine ⟨b.setSession cid s₁, .inr ⟨s, hs, hl, rfl⟩, ?_⟩
  have hr : ∀ b : Broker, a ≤ b.config.topicAliasMaximum →
      resolveAlias b.config s { p with topic := t } = .ok (s₁, { p with topic := t }) := by
    intro b hmax
    simp [resolveAlias, ha, hmax, ht, hs₁]
  have hr₁ : ∀ b : Broker, a ≤ b.config.topicAliasMaximum →
      resolveAlias b.config s₁ p = .ok (s₁, { p with topic := t }) := by
    intro b hmax
    simp [resolveAlias, ha, hmax, htopic, hs₁]
  have hlookup : (b.setSession cid s₁).sessions.lookup cid = some s₁ := by simp [setSession]
  have hepoch : s₁.epoch = s.epoch := rfl
  simp only [handlePublish, fenced, hs, hlookup, hepoch, if_true]
  rw [hr { b with metrics.publishReceived := _ } hmax, hr₁ { b.setSession cid s₁ with metrics.publishReceived := _ } hmax]
  simp only [setSession, AList.insert_insert, hqos, if_false, hretain, Bool.false_eq_true]

/-- A PUBLISH with an alias that stands for nothing. -/
theorem handlePublish_unbound (now : Nat) (ord : Orders) (hs : b.sessions.lookup cid = some s)
    (hsup : supported b.config p = true) (htopic : p.topic = "") (ha : p.properties.topicAlias = some a)
    (hl : s.inboundAliases.lookup a = none) :
    handlePublish P now ord b cid s.epoch p =
      { b with metrics.publishReceived := b.metrics.publishReceived + 1 }.answer cid s.epoch
        (.serverDisconnect .topicAliasInvalid) := by
  rw [supported, Bool.and_eq_true, Bool.not_eq_true', Bool.not_eq_true', decide_eq_false_iff_not] at hsup
  simp only [handlePublish, hsup.1, hsup.2, if_false, Bool.false_eq_true]
  simp [fenced, hs, resolveAlias, ha, htopic, hl]

end Broker

namespace World
open Broker
variable {P : Protocol} {w : World} {l : Label} {cid : String} {s : Session}

/-- The binding a step makes: it handles a PUBLISH with a topic and an alias for the current connection. -/
def bindings (w : World) (l : Label) : List Binding :=
  match w.selected l.input with
  | some (.dispatch cid e (.publish p)) =>
    match w.broker.sessions.lookup cid, p.properties.topicAlias with
    | some s, some a =>
      if s.epoch = e ∧ supported w.broker.config p ∧ a ≤ w.broker.config.topicAliasMaximum ∧ p.topic ≠ "" then
        [⟨cid, e, a, p.topic⟩]
      else []
    | _, _ => []
  | _ => []

/-- The broker, emitting bindings. -/
def listen (P : Protocol) (w : World) (l : Label) : World × List Binding := ((step P w l).1, w.bindings l)

theorem mem_bindings {x : Binding} (h : x ∈ w.bindings l) :
    ∃ p s, w.selected l.input = some (.dispatch x.clientId x.epoch (.publish p)) ∧
      w.broker.sessions.lookup x.clientId = some s ∧ s.epoch = x.epoch ∧ x.topic ≠ "" := by
  unfold bindings at h
  split at h
  · rename_i cid e p hsel
    split at h
    · rename_i s a hs ha
      split at h
      · rename_i hok
        cases List.mem_singleton.1 h
        exact ⟨p, s, hsel, hs, hok.1, hok.2.2.2⟩
      · cases h
    · cases h
  · cases h

/-- A CONNECT takes over a session with an alias in its table. -/
def takesOverAlias (w : World) (l : Label) : Bool :=
  match w.selected l.input with
  | some (.connect req) =>
    !req.connect.cleanStart && (w.broker.sessions.lookup req.clientId).any fun s => !s.inboundAliases.entries.isEmpty
  | _ => false

theorem aliases_of_takenOver {req : ConnectRequest} (h : w.takesOverAlias l = false)
    (hsel : w.selected l.input = some (.connect req)) (hclean : req.connect.cleanStart = false)
    (hs : w.broker.sessions.lookup req.clientId = some s) : s.inboundAliases = ∅ := by
  have hempty : s.inboundAliases.entries = [] := by simpa [takesOverAlias, hsel, hclean, hs] using h
  exact AList.ext hempty

/-- The table of a live connection holds what the connection bound. -/
structure AliasesOk (w : World) (bs : List Binding) : Prop where
  epochs : w.EpochsOk
  past : ∀ x ∈ bs, x.epoch < w.broker.nextEpoch
  topics : ∀ x ∈ bs, x.topic ≠ ""
  table : ∀ cid s, w.broker.sessions.lookup cid = some s → s.isOnline →
    ∀ a, s.inboundAliases.lookup a = mostRecent bs cid s.epoch a

/-- The PUBLISH of a connection. -/
theorem aliasesAfter_lookup {bs : List Binding} {p : Publish} (hs : w.broker.sessions.lookup cid = some s)
    (hsel : w.selected l.input = some (.dispatch cid s.epoch (.publish p)))
    (h : ∀ a, s.inboundAliases.lookup a = mostRecent bs cid s.epoch a) (a : Nat) :
    (aliasesAfter w.broker.config s p).lookup a = mostRecent (bs ++ w.bindings l) cid s.epoch a := by
  have hsame : w.bindings l = [] → aliasesAfter w.broker.config s p = s.inboundAliases →
      (aliasesAfter w.broker.config s p).lookup a = mostRecent (bs ++ w.bindings l) cid s.epoch a := by
    intro hb ha
    rw [hb, ha, List.append_nil, h]
  cases hsup : supported w.broker.config p with
  | false => exact hsame (by simp [bindings, hsel, hs, hsup]; split <;> rfl) (by simp [aliasesAfter, hsup])
  | true =>
    cases hal : p.properties.topicAlias with
    | none => exact hsame (by simp [bindings, hsel, hs, hal]) (by simp [aliasesAfter, hsup, resolveAlias, hal])
    | some a' =>
      by_cases hmax : a' ≤ w.broker.config.topicAliasMaximum
      · by_cases htopic : p.topic = ""
        · refine hsame (by simp [bindings, hsel, hs, hal, htopic]) ?_
          simp only [aliasesAfter, hsup, resolveAlias, hal, htopic, if_true, not_lt.2 hmax, if_false]
          cases s.inboundAliases.lookup a' <;> rfl
        · have hb : w.bindings l = [⟨cid, s.epoch, a', p.topic⟩] := by simp [bindings, hsel, hs, hal, hsup, hmax, htopic]
          have ha : aliasesAfter w.broker.config s p = s.inboundAliases.insert a' p.topic := by
            simp [aliasesAfter, hsup, resolveAlias, hal, not_lt.2 hmax, htopic]
          rw [hb, ha, lookup_insert_if]
          split
          · rename_i heq
            subst heq
            exact (mostRecent_append_self bs ⟨cid, s.epoch, a, p.topic⟩).symm
          · rename_i hne
            rw [h, mostRecent_append_other]
            rintro x hx ⟨-, -, hn⟩
            rw [List.mem_singleton.1 hx] at hn
            exact hne hn.symm
      · exact hsame (by simp [bindings, hsel, hs, hal, hmax]) (by simp [aliasesAfter, hsup, resolveAlias, hal, not_le.1 hmax])

theorem AliasesOk.step {bs : List Binding} (P : Protocol) (h : w.AliasesOk bs) (hok : w.takesOverAlias l = false) :
    (step P w l).1.AliasesOk (bs ++ w.bindings l) := by
  have hle := (step_change P w l).epochs.1
  have hnew : ∀ x ∈ w.bindings l, x.epoch < w.broker.nextEpoch := by
    intro x hx
    obtain ⟨p, s, -, hs, he, -⟩ := mem_bindings hx
    exact he ▸ h.epochs x.clientId s hs
  have hpast : ∀ x ∈ bs ++ w.bindings l, x.epoch < w.broker.nextEpoch := by
    intro x hx
    rcases List.mem_append.1 hx with hx | hx
    · exact h.past x hx
    · exact hnew x hx
  refine ⟨step_epochsOk P l h.epochs, fun x hx => lt_of_lt_of_le (hpast x hx) hle, fun x hx => ?_, fun cid s' hs' hon a => ?_⟩
  · rcases List.mem_append.1 hx with hx | hx
    · exact h.topics x hx
    · obtain ⟨p, s, -, -, -, ht⟩ := mem_bindings hx
      exact ht
  -- a new connection has bound nothing
  have hnone : mostRecent (bs ++ w.bindings l) cid w.broker.nextEpoch a = none :=
    mostRecent_eq_none (fun x hx => (hpast x hx).ne) a
  cases step_stems P w l hs' with
  | @same s hs hsame _ hpub =>
    rw [hsame.aliases, hsame.epoch, h.table cid s hs (hsame.online ▸ hon), mostRecent_append_other]
    rintro x hx ⟨rfl, he, -⟩
    obtain ⟨p, s₀, hsel, -⟩ := mem_bindings hx
    exact hpub p (he ▸ hsel)
  | @publish s p hs hsel hsame =>
    rw [hsame.aliases, hsame.epoch]
    exact aliasesAfter_lookup hs hsel (h.table cid s hs (hsame.online ▸ hon)) a
  | closed _ _ he =>
    rw [he] at hon
    cases hon
  | @resumed s req hs hsel hc hclean hsame =>
    rw [hsame.aliases, hsame.epoch, hnone]
    subst hc
    simp only [aliases_of_takenOver hok hsel hclean hs]
    rfl
  | fresh _ _ _ he =>
    rw [he]
    exact hnone.symm
  | bridge _ _ he =>
    rw [he]
    exact hnone.symm

theorem boot_aliasesOk (P : Protocol) (now : Nat) (cfg : Config) (db : Db) (acl : Acl) (auth : Option Credentials) :
    (boot P now cfg db acl auth).AliasesOk [] := by
  refine ⟨boot_epochsOk P now cfg db acl auth, by simp, by simp, fun cid s hs hon => ?_⟩
  rw [boot_lookup] at hs
  split at hs
  · cases hs
  · obtain ⟨row, -, rfl⟩ := Option.map_eq_some_iff.1 hs
    cases hon

/-- In the state `w`, after the bindings `bs`: a PUBLISH of a live connection with an alias in place of the topic is
handled as if it carried the topic the connection bound last, and refused for its alias if the connection bound none. One
that asks for what the broker does not offer is refused for that, bound or not. -/
structure AliasesPerConnection (P : Protocol) (w : World) (bs : List Binding) (now : Nat) (ord : Orders) (cid : String)
    (s : Session) (p : Publish) (a : Nat) : Prop where
  bound : ∀ t, mostRecent bs cid s.epoch a = some t →
    handlePublish P now ord w.broker cid s.epoch p = handlePublish P now ord w.broker cid s.epoch
      { p with topic := t, properties := { p.properties with topicAlias := none } } ∧
    ∃ b, w.broker.Rewritten b cid a t ∧
      handlePublish P now ord w.broker cid s.epoch { p with topic := t } = handlePublish P now ord b cid s.epoch p
  unbound : supported w.broker.config p = true → mostRecent bs cid s.epoch a = none →
    handlePublish P now ord w.broker cid s.epoch p =
      { w.broker with metrics.publishReceived := w.broker.metrics.publishReceived + 1 }.answer cid s.epoch
        (.serverDisconnect .topicAliasInvalid)
  refused : supported w.broker.config p = false →
    handlePublish P now ord w.broker cid s.epoch p =
      { w.broker with metrics.publishReceived := w.broker.metrics.publishReceived + 1 }.answer cid s.epoch
        (.serverDisconnect (unsupportedAnswer w.broker.config p))

theorem mostRecent_mem {bs : List Binding} {cid : String} {e a : Nat} {t : String} (h : mostRecent bs cid e a = some t) :
    ∃ x ∈ bs, x.topic = t := by
  obtain ⟨x, hx, rfl⟩ := Option.map_eq_some_iff.1 h
  exact ⟨x, (List.mem_filter.1 (List.mem_of_getLast? hx)).1, rfl⟩

/-- **Aliases are per connection**, in every state of a run in which no takeover finds an alias. -/
theorem aliases_perConnection (P : Protocol) (now₀ : Nat) (cfg : Config) (db : Db) (acl : Acl) (auth : Option Credentials)
    (ls : List Label) (hls : Machine.Along (listen P) (fun w l => w.takesOverAlias l = false) (boot P now₀ cfg db acl auth) ls)
    (w : World) (bs : List Binding) (hw : (w, bs) = Machine.run (listen P) (boot P now₀ cfg db acl auth) ls)
    (now : Nat) (ord : Orders) (cid : String) (s : Session) (hs : w.broker.sessions.lookup cid = some s) (hon : s.isOnline)
    (p : Publish) (htopic : p.topic = "") (a : Nat) (ha : p.properties.topicAlias = some a)
    (hmax : a ≤ w.broker.config.topicAliasMaximum) : AliasesPerConnection P w bs now ord cid s p a := by
  have hok : w.AliasesOk bs := by
    have h := Machine.run_invariant (listen P) (fun w bs => AliasesOk w bs) (boot_aliasesOk P now₀ cfg db acl auth)
      (fun w bs l h ho => h.step P ho) ls hls
    rwa [← hw] at h
  refine ⟨fun t ht => ?_, fun hsup hnone => ?_, handlePublish_unsupported P now ord w.broker cid s.epoch⟩
  · obtain ⟨x, hx, hxt⟩ := mostRecent_mem ht
    rw [← hok.table cid s hs hon a] at ht
    exact ⟨handlePublish_bound now ord hs htopic ha hmax ht,
      handlePublish_rebound now ord hs htopic ha hmax ht (hxt ▸ hok.topics x hx)⟩
  · rw [← hok.table cid s hs hon a] at hnone
    exact handlePublish_unbound now ord hs hsup htopic ha hnone

/-! ### Two connections of one client -/

def aliasProps : Properties := { topicAlias := some 1 }

/-- A client binds alias 1 to `t`. -/
def bindingRun : List Label :=
  connecting { clientId := "c", cleanStart := true } ++
  sending "c" 1 (.publish ⟨false, .atMostOnce, false, "t", none, aliasProps, []⟩)

/-- A PUBLISH with an alias alone. -/
def byAlias (a : Nat) : Publish := ⟨false, .atMostOnce, false, "", none, { topicAlias := some a }, []⟩

/-- The client that bound alias 1 uses it, and alias 2, which it has not bound. -/
theorem aliases_perConnection_bound :
    ∃ s, (Machine.run (listen .reference) empty bindingRun).1.broker.sessions.lookup "c" = some s ∧
      mostRecent (Machine.run (listen .reference) empty bindingRun).2 "c" s.epoch 1 = some "t" ∧
      mostRecent (Machine.run (listen .reference) empty bindingRun).2 "c" s.epoch 2 = none ∧
      supported (Machine.run (listen .reference) empty bindingRun).1.broker.config (byAlias 2) = true ∧
      AliasesPerConnection .reference (Machine.run (listen .reference) empty bindingRun).1
        (Machine.run (listen .reference) empty bindingRun).2 0 {} "c" s (byAlias 1) 1 ∧
      AliasesPerConnection .reference (Machine.run (listen .reference) empty bindingRun).1
        (Machine.run (listen .reference) empty bindingRun).2 0 {} "c" s (byAlias 2) 2 := by
  have hsome : ((Machine.run (listen .reference) empty bindingRun).1.broker.sessions.lookup "c").any
      (fun s => s.isOnline && s.epoch = 1) = true := by decide +kernel
  obtain ⟨s, hs, h⟩ := (Option.any_eq_true _ _).1 hsome
  simp only [Bool.and_eq_true, decide_eq_true_eq] at h
  refine ⟨s, hs, by rw [h.2]; decide +kernel, by rw [h.2]; decide +kernel, by decide +kernel, ?_, ?_⟩
  · exact aliases_perConnection .reference 0 {} {} .permitAll none bindingRun (by decide +kernel) _ _ rfl 0 {} "c" s hs h.1
      (byAlias 1) rfl 1 rfl (by decide +kernel)
  · exact aliases_perConnection .reference 0 {} {} .permitAll none bindingRun (by decide +kernel) _ _ rfl 0 {} "c" s hs h.1
      (byAlias 2) rfl 2 rfl (by decide +kernel)

/-- The client connects again before its first connection is closed, and uses an alias it has not bound: the message goes
to the topic of the first connection. -/
theorem inherited_alias :
    let w := (Machine.run (listen .reference) empty (bindingRun ++ connecting { clientId := "c", cleanStart := false })).1
    let bs := (Machine.run (listen .reference) empty (bindingRun ++ connecting { clientId := "c", cleanStart := false })).2
    ((w.broker.sessions.lookup "c").any fun s => s.isOnline && s.epoch = 2) ∧ mostRecent bs "c" 2 1 = none ∧
      (handlePublish .reference 0 {} w.broker "c" 2 (byAlias 1)).effects =
        [.routed (.publish "c" 2) (Message.fromPublish 0 { byAlias 1 with topic := "t" }), .result "c" 2 .continue] := by
  decide +kernel

end World

end WispMQ
