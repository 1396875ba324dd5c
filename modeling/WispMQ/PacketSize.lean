import WispMQ.Redelivery
/-!
# Maximum Packet Size

`deliver_to_session` and `flush_queue` encode a PUBLISH and compare its length with the client's Maximum Packet Size
before they send it. `resume_delivery` re-sends the stored packets as they are, and these passed the check of the
connection they were sent on. So the limit of a connection is kept from its CONNECT on exactly if what the CONNECT
re-sends fits it (`maximumPacketSize_iff`).
-/

namespace WispMQ
open KeyMap

/-- What the crate's encoder is relied on for: a remaining length has at most 28 bits (1.5.5), and a packet id always
takes two bytes (2.2.1). -/
structure EncodeSpec (P : Protocol) : Prop where
  bounded : ∀ p len, P.encodedLen p = some len → len < 2 ^ 32
  packetId : ∀ (p : Publish) i j, P.encodedLen { p with packetId := some i } = P.encodedLen { p with packetId := some j }

/-- A PUBLISH among the items that can be encoded is no longer than `c`. -/
def Outgoing.Fits (P : Protocol) (c : Nat) : Outgoing → Prop
  | .send p => ∀ len, P.encodedLen p = some len → len ≤ c
  | _ => True

namespace Session
variable {P : Protocol} {c : Nat} {s : Session}

theorem fits_of_not_oversized (hP : EncodeSpec P) {p : Publish} (hmax : s.clientMaxPacketSize = some c)
    (h : s.oversized P p = false) : (Outgoing.send p).Fits P c := by
  intro len hlen
  have hlt := hP.bounded p len hlen
  simp only [oversized, hmax, Option.any_some, exceedsWireSize, hlen, decide_eq_false_iff_not, Nat.mod_eq_of_lt hlt] at h
  omega

theorem fits_of_flushes (hP : EncodeSpec P) {now : Nat} {item : Outgoing} (hmax : s.clientMaxPacketSize = some c)
    (h : s.Flushes P now item) : item.Fits P c := by
  obtain ⟨p, -, id, rfl, -, hsize⟩ := h
  exact fits_of_not_oversized hP hmax hsize

/-- Every item an operation pushes has passed the check, the probe of a QoS 1 or 2 message under the id 0. -/
theorem fits_of_mayPush (hP : EncodeSpec P) {o : Op} {item : Outgoing} (hmax : s.clientMaxPacketSize = some c)
    (h : MayPush P s o item) : item.Fits P c := by
  cases h with
  | qos0 _ hs => exact fits_of_not_oversized hP hmax hs
  | launched he hq hs =>
    rename_i now m qos retain subIds maxQueued id
    have hprobe := fits_of_not_oversized hP hmax hs
    have hid : ∀ i, m.toPublish now qos (some i) retain subIds =
        { m.toPublish now qos (some 0) retain subIds with packetId := some i } := fun i => by
      simp [Message.toPublish, hq]
    intro len hlen
    rw [Pending.render, hid id, hP.packetId _ id 0, ← hid 0] at hlen
    exact hprobe len hlen
  | control => trivial
  | shutdown => trivial
  | puback h => exact fits_of_flushes hP hmax h
  | pubcomp h => exact fits_of_flushes hP hmax h
  | pubrec => trivial
  | pubrel => trivial

/-- The PUBLISH packets `resume_delivery` re-sends, before DUP is set. -/
def resentPublishes (ord : Orders) (s : Session) : List Publish :=
  reorder ord.puback (values s.awaitingPuback) ++ reorder ord.pubrec (values s.awaitingPubrec)

theorem resentItems_nil (ord : Orders) {s : Session} (h₁ : s.awaitingPuback = ∅) (h₂ : s.awaitingPubrec = ∅)
    (h₃ : s.awaitingPubcomp = ∅) : s.resentItems ord = [] := by
  refine List.eq_nil_iff_forall_not_mem.2 fun i hi => ?_
  simp [resentItems, h₁, h₂, h₃, values] at hi

theorem resentItems_take (ord : Orders) (s : Session) (n : Nat) :
    ∃ ids : List Nat, (s.resentItems ord).take n = ((s.resentPublishes ord).take n).map dupItem ++ ids.map relItem := by
  refine ⟨(reorder ord.pubcomp (s.awaitingPubcomp.sort (· ≤ ·))).take (n - (s.resentPublishes ord).length), ?_⟩
  rw [resentItems, resentPublishes, ← List.map_append, List.take_append, List.length_map, List.map_take, List.map_take]

end Session

/-! ## One step -/

namespace World
open Broker
variable {P : Protocol} {w : World} {l : Label} {cid : String} {epoch : Nat}

/-- What the operations keep of the session of a connection, and what they push for it, in one step. The sessions of
the step satisfy `I`, which only a takeover may break; the items satisfy `Q`. -/
theorem Change.grows {f : Fleet} {I : Session → Prop} {Q : Outgoing → Prop} (hc : Change P w l f)
    (hkeep : ∀ s o, I s → o.isResume = false → I (s.apply P o).1)
    (hpush : ∀ s o item, I s → s.MayPush P o item → Q item) {s s' : Session}
    (hs : w.broker.sessions.lookup cid = some s) (hI : I s) (hs' : f.session cid = some s')
    (he : s'.epoch ≠ w.broker.nextEpoch) : I s' ∧ s.Grows Q s' := by
  have hop : ∀ {s₁ : Session} {o : Op}, o.isResume = false → I s₁ ∧ s.Grows Q s₁ →
      I (s₁.apply P o).1 ∧ s.Grows Q (s₁.apply P o).1 := by
    intro s₁ o ho h
    exact ⟨hkeep s₁ o h.1 ho, h.2.trans ((Session.apply_grows s₁ ho).mono fun item => hpush s₁ o item h.1)⟩
  exact hc.rule hs hs' he (fun s₁ => I s₁ ∧ s.Grows Q s₁) ⟨hI, .refl s⟩
    (fun _ _ ho => hop (Op.isResume_of_isRoutine ho)) fun _ _ _ ho => hop (isResume_ackOp ho) ⟨hI, .refl s⟩

/-- What a step pushes into the channel of a connection that was accepted before it. -/
theorem step_pushed {I : Session → Prop} {Q : Outgoing → Prop} (hissued : epoch < w.broker.nextEpoch)
    (hkeep : ∀ s o, I s → o.isResume = false → I (s.apply P o).1)
    (hpush : ∀ s o item, I s → s.MayPush P o item → Q item) (hshut : ∀ rc, Q (.shutdown rc))
    (hI : ∀ s, w.broker.sessions.lookup cid = some s → s.epoch = epoch → I s) :
    (∀ s', (step P w l).1.broker.sessions.lookup cid = some s' → s'.epoch = epoch → I s') ∧
      ∀ item ∈ w.pushed P l cid epoch, Q item := by
  have hsame : ∀ s', (step P w l).1.broker.sessions.lookup cid = some s' → s'.epoch = epoch →
      ∃ s, w.broker.sessions.lookup cid = some s ∧ s.epoch = epoch ∧ I s' ∧ s.Grows Q s' := by
    intro s' hs' he'
    rcases (step_change P w l).epochs.2 cid s' hs' with ⟨s, hs, hb, -⟩ | ⟨he, -⟩
    · have he : s.epoch = epoch := hb.epoch ▸ he'
      exact ⟨s, hs, he, (step_change P w l).grows hkeep hpush hs (hI s hs he) hs' (by omega)⟩
    · omega
  refine ⟨fun s' hs' he' => ?_, fun item hitem => ?_⟩
  · obtain ⟨s, -, -, h, -⟩ := hsame s' hs' he'
    exact h
  · cases hch : (step P w l).1.channel cid epoch with
    | some tx =>
      obtain ⟨s', hs', he', htx⟩ := channel_some hch
      obtain ⟨s, hs, he, -, hg⟩ := hsame s' hs' he'
      obtain ⟨tx₀, items, htx₀, hsent, hi⟩ := hg tx htx
      refine hi item ?_
      simpa [pushed, hch, channel_of_lookup hs he, htx₀, hsent] using hitem
    | none =>
      -- the channel was let go of: at most a Shutdown was added
      simp only [pushed, hch, Option.none_or] at hitem
      split at hitem
      · rename_i tx hd
        obtain ⟨s, tx₀, hs, he, ho, hsent⟩ := step_letGo (detachedIn_some hd)
        rw [channel_of_lookup hs he, ho] at hitem
        rcases hsent with h | ⟨rc, h⟩
        · simp [h] at hitem
        · simp only [h, Option.elim_some, List.drop_left, List.mem_singleton] at hitem
          exact hitem ▸ hshut rc
      · cases hitem

/-- Everything pushed into the channel of a connection in a run. -/
def pushedIn (P : Protocol) (cid : String) (epoch : Nat) : World → List Label → List Outgoing
  | _, [] => []
  | w, l :: ls => w.pushed P l cid epoch ++ pushedIn P cid epoch (step P w l).1 ls

/-! ## Every run -/

/-- The connection has been accepted with the given limit. -/
structure Capped (cid : String) (epoch c : Nat) (w : World) : Prop where
  issued : epoch < w.broker.nextEpoch
  limit : ∀ s, w.broker.sessions.lookup cid = some s → s.epoch = epoch → s.clientMaxPacketSize = some c

theorem Capped.step {c : Nat} (hP : EncodeSpec P) (h : Capped cid epoch c w) (l : Label) :
    Capped cid epoch c (step P w l).1 ∧ ∀ item ∈ w.pushed P l cid epoch, item.Fits P c := by
  obtain ⟨hlim, hfit⟩ := step_pushed (P := P) (l := l) (I := fun s => s.clientMaxPacketSize = some c)
    (Q := Outgoing.Fits P c) h.issued
    (fun s o hs ho => (Session.apply_binding P s ho).maxPacketSize.trans hs)
    (fun s o item hs hi => Session.fits_of_mayPush hP hs hi) (fun _ => trivial) h.limit
  exact ⟨⟨lt_of_lt_of_le h.issued (step_change P w l).epochs.1, hlim⟩, hfit⟩

theorem Capped.run {c : Nat} (hP : EncodeSpec P) : ∀ (ls : List Label) {w : World}, Capped cid epoch c w →
    ∀ item ∈ pushedIn P cid epoch w ls, item.Fits P c
  | [], _, _, _, hi => by cases hi
  | l :: ls, w, h, item, hi => by
    rcases List.mem_append.1 hi with hi | hi
    · exact (h.step hP l).2 item hi
    · exact Capped.run hP ls (h.step hP l).1 item hi

/-- The PUBLISH packets a CONNECT re-sends fit its limit: those in flight when it takes over a session of the same
owner, as far as the channel takes them. -/
def ResentFits (P : Protocol) (w : World) (ord : Orders) (req : ConnectRequest) (c : Nat) : Prop :=
  req.connect.cleanStart = false → ∀ s, w.broker.sessions.lookup req.clientId = some s →
    identityChanged s.identity req.identity = false →
    ∀ p ∈ (s.resentPublishes ord).take outboundChannelCapacity, (Session.dupItem p).Fits P c

theorem boundSession_maxPacketSize (now : Nat) (b : Broker) (req : ConnectRequest) :
    (boundSession P now b req).clientMaxPacketSize = req.connect.maximumPacketSize := by
  simp only [boundSession, reauthorize]
  split <;> rfl

/-- The channel an accepted CONNECT leaves: what is re-sent, PUBRELs, and queued messages that passed the check. -/
theorem accepted_pushes {req : ConnectRequest} (hout : req.out = {})
    (hsel : w.selected l.input = some (.connect req)) :
    ∃ s' tx items, (World.step P w l).1.broker.sessions.lookup req.clientId = some s' ∧
      s'.epoch = w.broker.nextEpoch ∧ s'.out = some tx ∧
      tx.sent = ((boundSession P l.now w.broker req).resentItems l.ord).take outboundChannelCapacity ++ items ∧
      ∀ i ∈ items, (boundSession P l.now w.broker req).Flushes P l.now i := by
  have hlook : (World.step P w l).1.broker.sessions.lookup req.clientId =
      some (resumed P l.now l.ord (w.broker.claimed req).2 (boundSession P l.now w.broker req)).1 := by
    rw [(step_of_selected hsel).1, runTask]
    simp [finishConnect]
  cases hp : (w.broker.claimed req).2 with
  | true =>
    obtain ⟨s, hclean, hs, hb⟩ := boundSession_present (P := P) l.now hp
    obtain ⟨tx, items, htx, hsent, hi⟩ := Session.resume_out P l.now l.ord w.broker.config w.broker.acl req
      w.broker.nextEpoch s hout
    rw [← hb] at hsent hi
    refine ⟨_, tx, items, hlook, ?_, ?_, hsent, hi⟩
    · rw [(resumed_sameRecord ..).epoch, boundSession_epoch]
    · rw [hp, hb]
      exact htx
  | false =>
    have hb := boundSession_absent (P := P) l.now hp
    refine ⟨_, {}, [], hlook, ?_, ?_, ?_, by simp⟩
    · rw [(resumed_sameRecord ..).epoch, boundSession_epoch]
    · rw [hp, resumed, if_neg (by simp), hb]
      exact congrArg some hout
    · have hnone : (freshSession l.now w.broker req).resentItems l.ord = [] := by
        have hb0 : (Session.new "" 0).SameOutbound (freshSession l.now w.broker req) := ⟨rfl, rfl, rfl, rfl, rfl⟩
        exact Session.resentItems_nil l.ord hb0.puback hb0.pubrec hb0.pubcomp
      rw [hb, hnone]
      rfl

/-- The limit holds for what the CONNECT itself pushes exactly if it holds for what is re-sent. -/
theorem accepted_fits_iff (hP : EncodeSpec P) {req : ConnectRequest} {c : Nat} {items : List Outgoing}
    (hc : req.connect.maximumPacketSize = some c)
    (hi : ∀ i ∈ items, (boundSession P l.now w.broker req).Flushes P l.now i) :
    (∀ item ∈ ((boundSession P l.now w.broker req).resentItems l.ord).take outboundChannelCapacity ++ items,
      item.Fits P c) ↔ ResentFits P w l.ord req c := by
  obtain ⟨ids, hids⟩ := Session.resentItems_take l.ord (boundSession P l.now w.broker req) outboundChannelCapacity
  have hrest : ∀ item ∈ items, item.Fits P c := fun item hmem =>
    Session.fits_of_flushes hP (by rw [boundSession_maxPacketSize, hc]) (hi item hmem)
  -- the PUBRELs and the queued messages fit in any case
  have hsplit : (∀ item ∈ ((boundSession P l.now w.broker req).resentItems l.ord).take outboundChannelCapacity ++ items,
      item.Fits P c) ↔
      ∀ p ∈ ((boundSession P l.now w.broker req).resentPublishes l.ord).take outboundChannelCapacity,
        (Session.dupItem p).Fits P c := by
    rw [hids]
    constructor
    · intro h p hp
      exact h _ (by simp only [List.mem_append, List.mem_map]; exact .inl (.inl ⟨p, hp, rfl⟩))
    · intro h item hmem
      simp only [List.mem_append, List.mem_map] at hmem
      rcases hmem with (⟨p, hp, rfl⟩ | ⟨id, -, rfl⟩) | hmem
      · exact h p hp
      · trivial
      · exact hrest item hmem
  rw [hsplit]
  cases hp : (w.broker.claimed req).2 with
  | true =>
    obtain ⟨s, hclean, hs, hb⟩ := boundSession_present (P := P) l.now hp
    have e := Session.resumeBound_outbound P l.now w.broker.config w.broker.acl req w.broker.nextEpoch s
    rw [hb, Session.resentPublishes, e.puback, e.pubrec]
    simp only [ResentFits, hclean, hs, Option.some.injEq, forall_eq', forall_const]
    cases identityChanged s.identity req.identity with
    | false => simp only [Bool.false_eq_true, if_false, forall_const]; rfl
    | true => simp [Session.clearOwned, values]
  | false =>
    have hb := boundSession_absent (P := P) l.now hp
    have hb0 : (Session.new "" 0).SameOutbound (freshSession l.now w.broker req) := ⟨rfl, rfl, rfl, rfl, rfl⟩
    rw [hb, Session.resentPublishes, hb0.puback, hb0.pubrec]
    refine iff_of_true (by simp [Session.new, values]) fun hclean s hs _ => ?_
    simp [claimed, hclean, hs] at hp

/-- **Maximum Packet Size**: from the step that accepts a connection with Maximum Packet Size `c` on, no PUBLISH longer
than `c` is pushed into its channel, in any run, if and only if what the CONNECT re-sends fits `c`. -/
theorem maximumPacketSize_iff (P : Protocol) (hP : EncodeSpec P) (now : Nat) (cfg : Config) (db : Db) (acl : Acl)
    (auth : Option Credentials) (before : List Label) (l : Label) (req : ConnectRequest) (c : Nat)
    (hsel : (run P (boot P now cfg db acl auth) before).1.selected l.input = some (.connect req))
    (hc : req.connect.maximumPacketSize = some c) :
    (∀ after : List Label, ∀ p, .send p ∈ pushedIn P req.clientId
        (run P (boot P now cfg db acl auth) before).1.broker.nextEpoch
        (run P (boot P now cfg db acl auth) before).1 (l :: after) →
      ∀ len, P.encodedLen p = some len → len ≤ c) ↔
    ResentFits P (run P (boot P now cfg db acl auth) before).1 l.ord req c := by
  have hout := (run_connect hsel).1
  have hep : (run P (boot P now cfg db acl auth) before).1.EpochsOk :=
    run_epochsOk P (boot_epochsOk P now cfg db acl auth) before
  set w := (run P (boot P now cfg db acl auth) before).1
  obtain ⟨s', tx, items, hs', he', htx, hsent, hi⟩ := accepted_pushes (P := P) hout hsel
  have hnone : w.channel req.clientId w.broker.nextEpoch = none := channel_next hep req.clientId
  have hpushed : w.pushed P l req.clientId w.broker.nextEpoch = tx.sent := by
    simp [pushed, channel_of_lookup hs' he', htx, hnone]
  rw [← accepted_fits_iff hP hc hi, ← hsent]
  constructor
  · intro h item hitem
    cases item with
    | send p => exact h [] p (by simpa [pushedIn, hpushed] using hitem)
    | control p => trivial
    | shutdown rc => trivial
  · intro h after p hp
    have hcap : Capped req.clientId w.broker.nextEpoch c (World.step P w l).1 := by
      refine ⟨he' ▸ step_epochsOk P l hep _ s' hs', fun s hs he => ?_⟩
      rcases (step_change P w l).bound hs with ⟨s₀, hs₀, hb, -⟩ | ⟨req', hsel', -, hb⟩ | ⟨name, hin, -, -⟩
      · have := hep _ s₀ hs₀
        have := hb.epoch
        omega
      · rw [hsel] at hsel'
        cases hsel'
        rw [hb.maxPacketSize, boundSession_maxPacketSize, hc]
      · rw [hin] at hsel
        cases hsel
    rcases List.mem_append.1 hp with hp | hp
    · exact h (.send p) (hpushed ▸ hp)
    · exact Capped.run hP after hcap (.send p) hp

/-- The reference protocol with an encoder that refuses what a remaining length cannot express. -/
def limitedReference : Protocol :=
  { Protocol.reference with encodedLen := fun p => (referenceEncodedLen p).filter (· ≤ 268435460) }

theorem encodeSpec_limited : EncodeSpec limitedReference where
  bounded := by
    intro p len h
    have h : (referenceEncodedLen p).filter (· ≤ 268435460) = some len := h
    have hle := (Option.filter_eq_some_iff.1 h).2
    rw [decide_eq_true_eq] at hle
    omega
  packetId := fun _ _ _ => rfl

/-- A subscriber with one QoS 1 message in flight, and its CONNECT that waits to resume the session with Maximum
Packet Size `c`. -/
def capping (c : Nat) : List Label :=
  connecting { clientId := "sub", cleanStart := true, sessionExpiryInterval := some 60 } ++
  sending "sub" 1 (.subscribe ⟨1, [{ filter := "t", qos := .atLeastOnce }], []⟩) ++
  connecting { clientId := "pub", cleanStart := true } ++
  sending "pub" 2 (.publish ⟨false, .atLeastOnce, false, "t", some 7, {}, [1, 2, 3]⟩) ++
  [{ input := .call (.connect { clientId := "sub", cleanStart := false, maximumPacketSize := some c } none) }]

/-- The state before the CONNECT is accepted. -/
def capped (c : Nat) : World := (run limitedReference (boot limitedReference 0 {} {} .permitAll none) (capping c)).1

/-- The request that waits then. -/
def cappingRequest (c : Nat) : ConnectRequest :=
  ⟨{ clientId := "sub", cleanStart := false, maximumPacketSize := some c }, .v5, none, "sub", false, {}⟩

/-- A limit the message fits is kept. -/
theorem maximumPacketSize_iff_roomy :
    (capped 100).selected (.task 0) = some (.connect (cappingRequest 100)) ∧
    ∀ after p, .send p ∈ pushedIn limitedReference "sub" (capped 100).broker.nextEpoch (capped 100)
        ({ input := .task 0 } :: after) →
      ∀ len, limitedReference.encodedLen p = some len → len ≤ 100 := by
  have hsel : (capped 100).selected (.task 0) = some (.connect (cappingRequest 100)) := by decide +kernel
  refine ⟨hsel, (maximumPacketSize_iff limitedReference encodeSpec_limited 0 {} {} .permitAll none (capping 100)
    { input := .task 0 } (cappingRequest 100) 100 hsel rfl).2 ?_⟩
  intro _ s hs _ p hp len hlen
  have h : ((capped 100).broker.sessions.lookup "sub").all (fun s => ((s.resentPublishes {}).take
      outboundChannelCapacity).all fun p => (limitedReference.encodedLen { p with dup := true }).all (· ≤ 100)) = true := by
    decide +kernel
  have hs : (capped 100).broker.sessions.lookup "sub" = some s := hs
  rw [hs, Option.all_some, List.all_eq_true] at h
  have hall := h p hp
  have hlen : limitedReference.encodedLen { p with dup := true } = some len := hlen
  rw [hlen] at hall
  simpa using hall

/-- With Maximum Packet Size 10 the 11 bytes of the message are re-sent all the same. -/
theorem maximumPacketSize_exceeded :
    EncodeSpec limitedReference ∧ (capped 10).selected (.task 0) = some (.connect (cappingRequest 10)) ∧
    ¬∀ p, .send p ∈ pushedIn limitedReference "sub" (capped 10).broker.nextEpoch (capped 10) [{ input := .task 0 }] →
      ∀ len, limitedReference.encodedLen p = some len → len ≤ 10 := by
  refine ⟨encodeSpec_limited, by decide +kernel, fun h => ?_⟩
  have hmem : Outgoing.send ⟨true, .atLeastOnce, false, "t", some 1, {}, [1, 2, 3]⟩ ∈
      pushedIn limitedReference "sub" (capped 10).broker.nextEpoch (capped 10) [{ input := .task 0 }] := by decide +kernel
  exact absurd (h _ hmem 11 (by decide +kernel)) (by decide)

end World

end WispMQ
