import WispMQ.Untouched
/-!
# What few sections write

`Broker.apart` are fields that at most one section each writes: the cursors of the shared groups (`route`), the counter of
assigned client ids (the first stage of `handle_connect`) and the credentials (none). Publishing leaves the last two
(`Broker.admission`), so a run never changes the credentials (`run_auth`), and only a CONNECT the counter.
-/

namespace WispMQ
open KeyMap

namespace Broker
variable {P : Protocol} {now : Nat} {ord : Orders} {b : Broker} {cid : String} {epoch : Nat}

def apart (b : Broker) : KeyMap (String × String) Nat × Nat × Option Credentials := (b.sharedRr, b.autoIdCounter, b.auth)

/-- What `handle_connect` reads before it takes the session over. -/
def admission (b : Broker) : Nat × Option Credentials := b.apart.2

theorem admission_of_apart {b b' : Broker} (h : b'.apart = b.apart) : b'.admission = b.admission := congrArg Prod.snd h

theorem storeRetained_apart (b : Broker) (origin : Origin) (m : Message) : (b.storeRetained origin m).1.apart = b.apart := by
  unfold storeRetained
  split
  · split <;> rfl
  · rfl

theorem modifySession_apart (b : Broker) (cid : String) (g : Session → Session) :
    (b.modifySession cid g).apart = b.apart := by
  unfold modifySession
  split <;> rfl

theorem acknowledge_apart (b : Broker) (cid : String) (qos : QoS) (ack : PubAck) :
    (b.acknowledge cid qos ack).apart = b.apart := by
  unfold acknowledge
  split
  · exact modifySession_apart ..
  · rfl

/-! ## The handlers that publish nothing -/

theorem fenced_apart {body : Session → Outcome} (h : ∀ s, (body s).broker.apart = b.apart) :
    (b.fenced cid epoch body).broker.apart = b.apart := by
  unfold fenced
  split
  · split
    · exact h _
    · rfl
  · rfl

theorem acked_apart (b : Broker) (cid : String) (epoch : Nat) (f : Session → Session × Nat) :
    (b.acked cid epoch f).broker.apart = b.apart := by
  unfold acked
  split
  · rfl
  · split <;> rfl

theorem removeIfOffline_apart (b : Broker) (cid : String) (epoch : Nat) :
    (removeIfOffline b cid epoch).broker.apart = b.apart := by
  unfold removeIfOffline
  split
  · rfl
  · split <;> rfl

theorem dispatch_apart {packet : Packet} (h : ∀ p, packet ≠ .publish p) :
    (dispatch P now ord b cid epoch packet).broker.apart = b.apart := by
  cases packet with
  | publish p => exact absurd rfl (h p)
  | puback a => exact acked_apart ..
  | pubrec a => exact acked_apart ..
  | pubrel a => exact acked_apart ..
  | pubcomp a => exact acked_apart ..
  | subscribe sub => exact fenced_apart fun _ => rfl
  | unsubscribe unsub => exact fenced_apart fun _ => rfl
  | pingreq => exact modifySession_apart ..
  | disconnect d => rw [dispatch, handleClientDisconnect_broker]
  | _ => rfl

theorem runTask_apart {t : Task} (h : t.publishes = false) : (runTask P now ord b t).broker.apart = b.apart := by
  cases t with
  | dispatch cid epoch packet =>
    refine dispatch_apart fun p hp => ?_
    rw [hp] at h
    cases h
  | disconnectExpiry cid epoch newExpiry publishWill =>
    simp only [runTask, disconnectExpiry]
    split <;> rfl
  | connect req => rfl
  | closeRemove cid epoch => exact removeIfOffline_apart ..
  | willSleep cid epoch m owner due =>
    simp only [runTask, willWake]
    split
    · split <;> rfl
    · rfl
  | willAuthorize cid epoch m owner =>
    simp only [runTask, willAuthorize]
    split <;> rfl
  | willPublish cid epoch m => cases h
  | expiry cid epoch due => exact removeIfOffline_apart ..
  | revoke acl =>
    simp only [runTask, revokeUnauthorized]
    split <;> rfl

/-- A CONNECT only counts. -/
theorem startConnect_frame (now : Nat) (b : Broker) (connect : Connect) (out : OutTx) (identity : Option String) :
    ∃ n, (startConnect P now b connect out identity).broker = { b with autoIdCounter := n } := by
  rcases startConnect_cases (P := P) now b connect out identity with ⟨rc, h⟩ | ⟨_, _, -, -, -, ⟨-, h⟩ | ⟨-, -, h⟩⟩
  · exact ⟨b.autoIdCounter, by rw [h]; rfl⟩
  · exact ⟨b.autoIdCounter + 1, by rw [h]⟩
  · exact ⟨b.autoIdCounter, by rw [h]⟩

theorem enter_apart {clock : Nat} {c : Call} (hconnect : ∀ connect identity, c ≠ .connect connect identity)
    (hsys : ∀ es, c ≠ .publishSys es) (hinject : ∀ name m, c ≠ .injectPublish name m) :
    (enter P clock now ord b c).broker.apart = b.apart := by
  cases c with
  | connect c identity => exact absurd rfl (hconnect c identity)
  | packet cid epoch packet =>
    simp only [enter, handlePacket]
    split
    · split <;> rfl
    · rfl
  | closed cid epoch publishWill =>
    simp only [enter, handleConnectionClosed]
    split
    · rfl
    · split <;> rfl
  | reload fresh =>
    simp only [enter, reloadAcl]
    split <;> rfl
  | snapshot => rfl
  | publishSys es => exact absurd rfl (hsys es)
  | registerBridge name => rfl
  | bridgeAddSubscription name filter noLocal => exact modifySession_apart ..
  | injectPublish name m => exact absurd rfl (hinject name m)
  | deregisterBridge name epoch =>
    simp only [enter, deregisterBridge]
    split
    · split <;> rfl
    · rfl

/-! ## Publishing -/

theorem route_admission (now : Nat) (ord : Orders) (b : Broker) (publisher : Option String) (m : Message) :
    (route P now ord b publisher m).1.admission = b.admission := by
  unfold route
  split <;> rfl

theorem publishMessage_admission (now : Nat) (ord : Orders) (b : Broker) (origin : Origin) (publisher : Option String)
    (m : Message) : (publishMessage P now ord b origin publisher m).broker.admission = b.admission :=
  (route_admission ..).trans (admission_of_apart (storeRetained_apart ..))

theorem publishSys_admission (now : Nat) (ord : Orders) : ∀ (es : List (String × Bytes)) (b : Broker),
    (publishSys P now ord es b).broker.admission = b.admission
  | [], _ => rfl
  | (_, _) :: es, _ => (publishSys_admission now ord es _).trans (route_admission ..)

theorem routePublish_admission (s : Session) (publish : Publish) (m : Message) :
    (routePublish P now ord b cid epoch s publish m).1.admission = b.admission := by
  unfold routePublish
  cases publish.qos with
  | atMostOnce => exact route_admission ..
  | atLeastOnce => exact (admission_of_apart (acknowledge_apart ..)).trans (route_admission ..)
  | exactlyOnce =>
    simp only
    split
    · exact admission_of_apart (acknowledge_apart ..)
    · exact (admission_of_apart (acknowledge_apart ..)).trans (route_admission ..)

theorem handlePublish_admission (publish : Publish) :
    (handlePublish P now ord b cid epoch publish).broker.admission = b.admission := by
  rcases handlePublish_cases P now ord b cid epoch publish with ⟨rc, he⟩ | ⟨s, s', publish', -, -, -, he⟩
  · rw [he]
    rfl
  · rw [he]
    unfold acceptPublish
    split
    · rfl
    split
    · rfl
    split
    · exact admission_of_apart (acknowledge_apart ..)
    · exact (routePublish_admission ..).trans (admission_of_apart (storeRetained_apart ..))

theorem runTask_admission (now : Nat) (ord : Orders) (b : Broker) (t : Task) :
    (runTask P now ord b t).broker.admission = b.admission := by
  cases h : t.publishes with
  | false => exact admission_of_apart (runTask_apart h)
  | true =>
    unfold Task.publishes at h
    split at h
    · exact handlePublish_admission ..
    · exact publishMessage_admission ..
    · cases h

theorem enter_admission {clock : Nat} {c : Call} (hconnect : ∀ connect identity, c ≠ .connect connect identity) :
    (enter P clock now ord b c).broker.admission = b.admission := by
  by_cases hsys : ∃ entries, c = .publishSys entries
  · obtain ⟨entries, rfl⟩ := hsys
    exact publishSys_admission ..
  by_cases hinject : ∃ name m, c = .injectPublish name m
  · obtain ⟨name, m, rfl⟩ := hinject
    exact publishMessage_admission ..
  simp only [not_exists] at hsys hinject
  exact admission_of_apart (enter_apart hconnect hsys hinject)

end Broker

namespace World
open Broker
variable {P : Protocol} {w : World} {l : Label}

theorem step_admission (h : ∀ connect identity, l.input ≠ .call (.connect connect identity)) :
    (step P w l).1.broker.admission = w.broker.admission := by
  cases hin : l.input with
  | call c =>
    simp only [step, hin, absorb]
    exact enter_admission fun connect identity hc => h connect identity (by rw [hin, hc])
  | task i =>
    simp only [step, hin]
    split
    · exact runTask_admission ..
    · rfl
  | sleep secs => simp only [step, hin]
  | recv cid epoch => simp only [step, hin]; exact admission_of_apart (modifySession_apart ..)
  | hangup cid epoch => simp only [step, hin]; exact admission_of_apart (modifySession_apart ..)

/-- The credentials stay as they are. -/
theorem step_auth (P : Protocol) (w : World) (l : Label) : (step P w l).1.broker.auth = w.broker.auth := by
  by_cases h : ∃ connect identity, l.input = .call (.connect connect identity)
  · obtain ⟨connect, identity, hin⟩ := h
    obtain ⟨n, hn⟩ := startConnect_frame (P := P) l.now w.broker connect {} identity
    simp only [step, hin, absorb, enter, hn]
  · simp only [not_exists] at h
    exact congrArg Prod.snd (step_admission (P := P) (w := w) h)

theorem run_auth (P : Protocol) (w : World) (ls : List Label) : (run P w ls).1.broker.auth = w.broker.auth :=
  Machine.run_preserves (step P) (fun w' => w'.broker.auth = w.broker.auth) (fun w l h => (step_auth P w l).trans h) rfl ls

end World

end WispMQ
