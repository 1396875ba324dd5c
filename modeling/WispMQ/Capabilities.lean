import WispMQ.Wills
/-!
# Server capabilities

`maximum_qos` and `retain_available` are checked at the head of `handle_publish` (publish.rs:23-30). The other way a client
has to publish is its Will, which `handle_connect` stores as it comes (connect.rs:236-240) and `schedule_will` publishes as
it was stored. So the capabilities bind what clients publish exactly as far as the Wills they bring keep to them
(`clients_within`); a Will that does not is published all the same (`will_exceeds`).
-/

namespace WispMQ
open KeyMap

/-- What the server offers. -/
def Config.admits (cfg : Config) (qos : QoS) (retain : Bool) : Bool :=
  qos.asU8 ≤ cfg.maximumQos.asU8 && (!retain || cfg.retainAvailable)

theorem Config.admits_iff {cfg : Config} {qos : QoS} {retain : Bool} :
    cfg.admits qos retain ↔ qos.asU8 ≤ cfg.maximumQos.asU8 ∧ (retain → cfg.retainAvailable) := by
  cases retain <;> simp [admits]

theorem Broker.Admitted.admits {cfg : Config} {p : Publish} {m : Message} (h : Broker.Admitted cfg p m) :
    cfg.admits m.qos m.retain := by
  have hsup := h.supported
  rw [h.qos, h.retain]
  cases hret : p.retain <;> simpa [Broker.supported, Config.admits, hret] using hsup

/-- The Will of a CONNECT asks for no more than the server offers. -/
def Connect.keepsTo (cfg : Config) (c : Connect) : Bool := c.will.all fun will => cfg.admits will.qos will.retain

/-- A CONNECT whose Will asks for more, or a bridge that injects a message. -/
def Label.exceeds (cfg : Config) (l : Label) : Bool :=
  match l.input with
  | .call (.connect c _) => !c.keepsTo cfg
  | .call (.injectPublish ..) => true
  | _ => false

namespace World
open Broker
variable {P : Protocol} {w : World} {l : Label} {cid : String} {e : Nat} {m : Message} {origin : Origin}
  {now : Nat} {cfg : Config} {db : Db} {acl : Acl} {auth : Option Credentials} {ls : List Label}

/-- A connection that is put in place was asked for by a CONNECT. -/
theorem exists_called {req : ConnectRequest} {i : Input}
    (hsel : (run P (boot P now cfg db acl auth) ls).1.selected i = some (.connect req)) :
    ∃ l ∈ ls, ∃ identity, l.input = .call (.connect req.connect identity) := by
  obtain ⟨pre, l, post, rfl, hspawn, -⟩ := exists_spawned (selected_mem hsel)
  obtain ⟨c, identity, hin, hreq⟩ := hspawn.called
  exact ⟨l, by simp, identity, hreq.connect ▸ hin⟩

/-- A Will that is published is one that a CONNECT brought. -/
theorem published_will_admits {x : Effect} (hls : ∀ l ∈ ls, l.exceeds cfg = false)
    (hx : x ∈ (run P (boot P now cfg db acl auth) ls).2) (hm : x.will = some (cid, e, m)) : cfg.admits m.qos m.retain := by
  obtain ⟨pre, conn, mid, close, post, l, rest, delay, rfl, ⟨req, will, hsel, -, -, hwill, rfl, -⟩, -⟩ := published_will hx hm
  obtain ⟨l', hl', identity, hin⟩ := exists_called hsel
  have hkeeps : cfg.admits will.qos will.retain := by
    simpa [Label.exceeds, hin, Connect.keepsTo, hwill] using hls l' (List.mem_append_left _ hl')
  exact hkeeps

/-- What is published for a client is within the capabilities. -/
theorem issued_admits (hls : ∀ l ∈ ls, l.exceeds cfg = false) {x : Effect}
    (hx : x ∈ (run P (boot P now cfg db acl auth) ls).2) (hpub : x = .retain origin m ∨ x = .routed origin m)
    (hsys : origin ≠ .sys) : cfg.admits m.qos m.retain := by
  obtain ⟨pre, l, post, hsplit, hl⟩ := Machine.exists_emitted (step P) hx
  have hissues : Issues (run P (boot P now cfg db acl auth) pre).1 l origin m := by
    rcases hpub with rfl | rfl
    · cases step_emits hl with
      | retain hi => exact hi
    · cases step_emits hl with
      | routed hi => exact hi
  cases hissues with
  | publish hsel h =>
    rw [run_config] at h
    exact h.admits
  | @will c e _ hsel =>
    have hwill : x.will = some (c, e, m) := by rcases hpub with rfl | rfl <;> rfl
    exact published_will_admits hls hx hwill
  | sys hin => exact absurd rfl hsys
  | bridge hin =>
    have := hls l (by simp [hsplit])
    simp [Label.exceeds, hin] at this

/-- A retained message was loaded, or some step retained it. -/
theorem run_retained {topic : String} (h : (run P w ls).1.broker.retained.lookup topic = some m) :
    w.broker.retained.lookup topic = some m ∨ m.topic = topic ∧ ∃ origin, .retain origin m ∈ (run P w ls).2 := by
  induction ls generalizing w with
  | nil => exact .inl h
  | cons l ls ih =>
    rcases ih (w := (step P w l).1) h with h | ⟨ht, origin, hmem⟩
    · refine (step_retained h).imp_right ?_
      rintro ⟨ht, origin, hmem⟩
      exact ⟨ht, origin, List.mem_append_left _ hmem⟩
    · exact .inr ⟨ht, origin, List.mem_append_right _ hmem⟩

/-- What clients publish in the run, and what is retained after it. -/
structure ClientsWithin (P : Protocol) (w : World) (ls : List Label) : Prop where
  published : ∀ origin m, origin ≠ .sys → (.retain origin m ∈ (run P w ls).2 ∨ .routed origin m ∈ (run P w ls).2) →
    m.qos.asU8 ≤ w.broker.config.maximumQos.asU8 ∧ (m.retain → w.broker.config.retainAvailable)
  retained : w.broker.config.retainAvailable = false → ∀ topic m, (run P w ls).1.broker.retained.lookup topic = some m →
    w.broker.retained.lookup topic = some m ∨ m.topic = topic ∧ .retain .sys m ∈ (run P w ls).2

/-- **The capabilities bind every message of a client**, in every run without bridges in which no CONNECT brings a Will
that asks for more. -/
theorem clients_within (P : Protocol) (now : Nat) (cfg : Config) (db : Db) (acl : Acl) (auth : Option Credentials)
    (ls : List Label) (hls : ∀ l ∈ ls, l.exceeds cfg = false) : ClientsWithin P (boot P now cfg db acl auth) ls where
  published := by
    rintro origin m hsys (hx | hx)
    · exact Config.admits_iff.1 (issued_admits hls hx (.inl rfl) hsys)
    · exact Config.admits_iff.1 (issued_admits hls hx (.inr rfl) hsys)
  retained := by
    intro havail topic m hm
    refine (run_retained hm).imp_right ?_
    rintro ⟨htopic, origin, hmem⟩
    by_cases hsys : origin = .sys
    · exact ⟨htopic, hsys ▸ hmem⟩
    -- a client's message that is retained has the flag
    have hadm := Config.admits_iff.1 (issued_admits hls hmem (.inl rfl) hsys)
    obtain ⟨pre, l, post, -, hl⟩ := Machine.exists_emitted (step P) hmem
    cases step_emits hl with
    | retain hi hflag =>
      have := hadm.2 hflag
      change cfg.retainAvailable = false at havail
      rw [havail] at this
      cases this

/-- A server that retains nothing. -/
def noRetain : Config := { retainAvailable := false }

/-- A client whose Will is to be retained. -/
def retainedWill (retain : Bool) : Connect :=
  { clientId := "c", cleanStart := true, will := some { topic := "t", payload := [1], qos := .atMostOnce, retain := retain } }

/-- It connects, and its connection is lost. -/
def losesIt (retain : Bool) : List Label :=
  connecting (retainedWill retain) ++ [{ input := .call (.closed "c" 1 true) }, { input := .task 0 }, { input := .task 1 }]

theorem clients_within_plain : ClientsWithin .reference (boot .reference 0 noRetain {} .permitAll none) (losesIt false) :=
  clients_within .reference 0 noRetain {} .permitAll none (losesIt false) (by decide)

/-- The Will is retained by a server that retains nothing. -/
theorem will_exceeds :
    let r := run .reference (boot .reference 0 noRetain {} .permitAll none) (losesIt true)
    (r.1.broker.retained.lookup "t").any (·.retain) ∧
      .retain (.will "c" 1) { topic := "t", payload := [1], qos := .atMostOnce, retain := true } ∈ r.2 ∧
      ¬ClientsWithin .reference (boot .reference 0 noRetain {} .permitAll none) (losesIt true) := by
  have hretained : .retain (.will "c" 1) { topic := "t", payload := [1], qos := .atMostOnce, retain := true } ∈
      (run .reference (boot .reference 0 noRetain {} .permitAll none) (losesIt true)).2 := by decide +kernel
  refine ⟨by decide +kernel, hretained, fun h => ?_⟩
  cases (h.published _ _ (by decide) (.inl hretained)).2 rfl

end World

end WispMQ
