import WispMQ.Views
/-!
# Takeover of a session by another identity

`handle_connect` keeps the session record and clears it field by field when the identity changes (connect.rs:163-178).
Two runs are compared: the same CONNECT finds `s₁` in one and `s₂` in the other, both left behind by other identities.

Three fields of the previous owner survive: `inbound_qos2`, `inbound_aliases` and the packet id counter. After the
CONNECT the two brokers are the same exactly if these three agree (`takeover_isolated_iff`), and a PUBLISH of the new
owner is swallowed as a duplicate because of what the previous owner sent (`swallowed_by_previous_owner`).
-/

namespace WispMQ
open KeyMap

namespace Session

/-- What the takeover is meant to leave nothing of. -/
structure SameOwned (s s' : Session) : Prop where
  subscriptions : s.subscriptions = s'.subscriptions
  queue : s.queue = s'.queue
  puback : s.awaitingPuback = s'.awaitingPuback
  pubrec : s.awaitingPubrec = s'.awaitingPubrec
  pubcomp : s.awaitingPubcomp = s'.awaitingPubcomp
  inbound : s.inboundQos2 = s'.inboundQos2

/-- The session in the hands of another identity. -/
def handedOver (now : Nat) (cfg : Config) (req : ConnectRequest) (epoch : Nat) (s : Session) : Session :=
  ((clearOwned { s with out := none }).bind cfg req epoch).setWill now req.connect

variable (P : Protocol) (now : Nat) (ord : Orders) (cfg : Config) (acl : Acl) (req : ConnectRequest) (epoch : Nat)

/-- With the maps cleared there is nothing to send again. -/
theorem resumeDelivery_cleared {s : Session} (hp : s.awaitingPuback = ∅) (hr : s.awaitingPubrec = ∅)
    (hc : s.awaitingPubcomp = ∅) (hq : s.queue = []) : resumeDelivery P now ord s = (s, 0) := by
  have hsame : s.retransmit ord = s := by
    simp [retransmit, resend, resendPubrel, hp, hr, hc, values]
  have hflush : flushQueue P now s = (s, 0) := by
    simp only [flushQueue, flushFates, hq, flushLoop, List.countP_nil]
    rw [← hq]
  unfold resumeDelivery
  split
  · rw [hsame, hflush]
  · rfl

theorem apply_resume_changed {s : Session} (h : Broker.identityChanged s.identity req.identity) :
    s.apply P (.resume now ord cfg acl req epoch) = (s.handedOver now cfg req epoch, 0) := by
  have hbound : s.resumeBound P now cfg acl req epoch = s.handedOver now cfg req epoch := by
    simp only [resumeBound, takenOver, h, if_true, Broker.reauthorize, handedOver]
    split <;> rfl
  rw [apply, hbound]
  exact resumeDelivery_cleared P now ord rfl rfl rfl rfl

end Session

namespace Broker
open Session
variable {P : Protocol} {b : Broker} {s s₁ s₂ t : Session} {req : ConnectRequest}

/-- The broker once the CONNECT has bound the session `t`. -/
def withBound (b : Broker) (cid : String) (t : Session) : Broker :=
  let b' := { b with
    nextEpoch := b.nextEpoch + 1
    sessions := b.sessions.insert cid t
    metrics.connectionsTotal := b.metrics.connectionsTotal + 1 }
  { b' with metrics.clientsMaximum := max b'.metrics.clientsMaximum b'.onlineCount }

theorem withBound_lookup (b : Broker) (cid : String) (t : Session) : (b.withBound cid t).sessions.lookup cid = some t := by
  simp [withBound]

/-- Nothing of `s` but the fields of `handedOver` is left in the broker. -/
theorem finishConnect_handedOver (now : Nat) (ord : Orders) (hclean : req.connect.cleanStart = false)
    (h : identityChanged s.identity req.identity) :
    (finishConnect P now ord (b.setSession req.clientId s) req).broker =
      b.withBound req.clientId (s.handedOver now b.config req b.nextEpoch) := by
  have hs : (b.setSession req.clientId s).sessions.lookup req.clientId = some s := by simp [setSession]
  have hclaim : (b.setSession req.clientId s).claimed req = (s.takenOver req.identity, true) := by
    simp [claimed, hclean, hs]
  have hresumed : resumed P now ord true (boundSession P now (b.setSession req.clientId s) req) =
      (s.handedOver now b.config req b.nextEpoch, 0) := by
    rw [← apply_resume_changed P now ord b.config b.acl req b.nextEpoch h]
    simp only [resumed, boundSession, hclaim, if_true, Session.apply, Session.resumeBound]
    rfl
  simp only [finishConnect, hclaim, hresumed]
  simp only [withBound, setSession, AList.insert_insert]
  rfl

theorem identityChanged_of_ne {a : String} {new : Option String} (h : new ≠ some a) : identityChanged (some a) new := by
  cases new with
  | none => rfl
  | some b =>
    have hne : a ≠ b := fun e => h (e ▸ rfl)
    simpa [identityChanged] using hne

/-- **Takeover by another identity**: the cleared fields and `inbound_qos2` are the same in both runs exactly if the two
previous owners left the same `inbound_qos2` behind, and the two brokers are the same, in whatever they do from then on,
exactly if they left the same aliases and packet id counter behind as well. -/
theorem takeover_isolated_iff (P : Protocol) (now : Nat) (ord : Orders) (b : Broker) (req : ConnectRequest)
    (s₁ s₂ : Session) (a₁ a₂ : String) (hclean : req.connect.cleanStart = false)
    (hc₁ : s₁.clientId = req.clientId) (hc₂ : s₂.clientId = req.clientId)
    (ha₁ : s₁.identity = some a₁) (ha₂ : s₂.identity = some a₂)
    (hne₁ : req.identity ≠ some a₁) (hne₂ : req.identity ≠ some a₂) :
    ∃ t₁ t₂,
      (finishConnect P now ord (b.setSession req.clientId s₁) req).broker.sessions.lookup req.clientId = some t₁ ∧
      (finishConnect P now ord (b.setSession req.clientId s₂) req).broker.sessions.lookup req.clientId = some t₂ ∧
      (SameOwned t₁ t₂ ↔ s₁.inboundQos2 = s₂.inboundQos2) ∧
      ((finishConnect P now ord (b.setSession req.clientId s₁) req).broker =
          (finishConnect P now ord (b.setSession req.clientId s₂) req).broker ↔
        s₁.inboundQos2 = s₂.inboundQos2 ∧ s₁.inboundAliases = s₂.inboundAliases ∧
          s₁.nextPacketId = s₂.nextPacketId) := by
  have hch₁ : identityChanged s₁.identity req.identity := ha₁ ▸ identityChanged_of_ne hne₁
  have hch₂ : identityChanged s₂.identity req.identity := ha₂ ▸ identityChanged_of_ne hne₂
  rw [finishConnect_handedOver now ord hclean hch₁, finishConnect_handedOver now ord hclean hch₂]
  refine ⟨_, _, withBound_lookup .., withBound_lookup .., ⟨fun h => h.inbound, fun h => ⟨rfl, rfl, rfl, rfl, rfl, h⟩⟩,
    fun h => ?_, ?_⟩
  · have ht : s₁.handedOver now b.config req b.nextEpoch = s₂.handedOver now b.config req b.nextEpoch := by
      have hl := congrArg (fun b : Broker => b.sessions.lookup req.clientId) h
      simpa only [withBound_lookup, Option.some.injEq] using hl
    have hq := congrArg Session.inboundQos2 ht
    have ha := congrArg Session.inboundAliases ht
    have hn := congrArg Session.nextPacketId ht
    exact ⟨hq, ha, hn⟩
  · rintro ⟨hq, ha, hn⟩
    have ht : s₁.handedOver now b.config req b.nextEpoch = s₂.handedOver now b.config req b.nextEpoch := by
      simp only [handedOver, clearOwned, Session.bind, setWill, hq, ha, hn, hc₁, hc₂]
    rw [ht]

/-! ### The previous owner's packet id -/

/-- A session of `alice`, with a QoS 2 PUBLISH under packet id 1 not yet released, or without. -/
def ofAlice (inbound : Finset Nat) : Session :=
  { Session.new "c" 60 with identity := some "alice", epoch := 1, inboundQos2 := inbound }

/-- `bob` connects under the same client id. -/
def bobs : ConnectRequest := ⟨{ clientId := "c", cleanStart := false }, .v5, some "bob", "c", false, {}⟩

def takenByBob (s : Session) : Broker :=
  (finishConnect .reference 0 {} (Broker.setSession { nextEpoch := 2 } "c" s) bobs).broker

/-- A session of `carol`, with a subscription. -/
def ofCarol : Session :=
  { Session.new "c" 60 with
    identity := some "carol"
    epoch := 1
    subscriptions := [⟨"t", none, .atMostOnce, false, true, none⟩]
    inboundQos2 := {1} }

/-- Nothing is left of the subscription, and `bob` finds the same in both sessions. -/
theorem takeover_isolated_iff_bob :
    ∃ t₁ t₂, (takenByBob (ofAlice {1})).sessions.lookup "c" = some t₁ ∧
      (takenByBob ofCarol).sessions.lookup "c" = some t₂ ∧ SameOwned t₁ t₂ := by
  obtain ⟨t₁, t₂, h₁, h₂, h, -⟩ := takeover_isolated_iff .reference 0 {} { nextEpoch := 2 } bobs (ofAlice {1}) ofCarol
    "alice" "carol" rfl rfl rfl rfl rfl (by decide) (by decide)
  exact ⟨t₁, t₂, h₁, h₂, h.2 rfl⟩

/-- What `bob` publishes first. -/
def bobsPublish : Publish := ⟨false, .exactlyOnce, false, "t", some 1, {}, []⟩

/-- `bob`'s first PUBLISH is routed if `alice` had none in flight under its packet id, and otherwise it is not. -/
theorem swallowed_by_previous_owner :
    (¬∃ t₁ t₂, (takenByBob (ofAlice ∅)).sessions.lookup "c" = some t₁ ∧ (takenByBob (ofAlice {1})).sessions.lookup "c" = some t₂ ∧
      SameOwned t₁ t₂) ∧
    (handlePublish .reference 0 {} (takenByBob (ofAlice ∅)) "c" 2 bobsPublish).effects =
      [.routed (.publish "c" 2) (Message.fromPublish 0 bobsPublish), .result "c" 2 .continue] ∧
    (handlePublish .reference 0 {} (takenByBob (ofAlice {1})) "c" 2 bobsPublish).effects = [.result "c" 2 .continue] := by
  refine ⟨?_, by decide +kernel, by decide +kernel⟩
  rintro ⟨t₁, t₂, h₁, h₂, h⟩
  have hne : ((takenByBob (ofAlice ∅)).sessions.lookup "c").map Session.inboundQos2 ≠
      ((takenByBob (ofAlice {1})).sessions.lookup "c").map Session.inboundQos2 := by decide +kernel
  refine hne ?_
  rw [h₁, h₂]
  exact congrArg some h.inbound

end Broker

end WispMQ
