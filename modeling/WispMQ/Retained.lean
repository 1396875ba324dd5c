import WispMQ.Capabilities
import WispMQ.Publishing
/-!
# The retained messages and their table

| here | there |
| --- | --- |
| `Tracks`                 | the three places that write both (publish.rs:122-136, lifecycle.rs:158-171, bridges.rs:54-66), and the purge, which writes the map only (stats.rs:66) |
| `toMessage_toRow`        | `apply`, then `load_all` (storage.rs:246, :352), with the blob of user properties |

The map and the table do not hold the same at every moment: a message that has expired may be in one and not in the other.
What they agree on is what has not expired (`Agrees`), and the clock does not go back, so that a message that is purged
from the map is not loaded later (`retained_survives`). `publish_sys` writes the map only, so the topics it has written are
left out.
-/

namespace WispMQ
open KeyMap

/-! ## User properties -/

/-- The strings fit their two-byte length. -/
def Short (props : List (String × String)) : Prop :=
  ∀ kv ∈ props, kv.1.utf8ByteSize ≤ 65535 ∧ kv.2.utf8ByteSize ≤ 65535

instance Short.decidable (props : List (String × String)) : Decidable (Short props) :=
  inferInstanceAs (Decidable (∀ kv ∈ props, kv.1.utf8ByteSize ≤ 65535 ∧ kv.2.utf8ByteSize ≤ 65535))

section Codec
variable {P : Protocol}

/-- A pair takes at least one byte: otherwise every pair would be read as this one. -/
theorem Protocol.CodecSpec.ne_nil (hP : P.CodecSpec) {k v : String} (hk : k.utf8ByteSize ≤ 65535)
    (hv : v.utf8ByteSize ≤ 65535) : P.putUtf8 k ++ P.putUtf8 v ≠ [] := by
  intro hnil
  have hall : ∀ rest, P.utf8Pair rest = some ((k, v), rest) := by
    intro rest
    have h := hP k v rest hk hv
    rwa [hnil] at h
  have hempty := hP "" "" [] (by decide) (by decide)
  have ha := hP "a" "" [] (by decide) (by decide)
  rw [hall] at hempty ha
  have h1 := congrArg (fun r => r.map fun x => x.1.1) hempty
  have h2 := congrArg (fun r => r.map fun x => x.1.1) ha
  simp only [Option.map_some, Option.some.injEq] at h1 h2
  exact absurd (h1.symm.trans h2) (by decide)

theorem decodeUserPropsLoop_encode (hP : P.CodecSpec) : ∀ {props : List (String × String)} {fuel : Nat}, Short props →
    (encodeUserProps P props).length ≤ fuel → decodeUserPropsLoop P fuel (encodeUserProps P props) = props
  | [], fuel, _, _ => by cases fuel <;> rfl
  | (k, v) :: props, fuel, hshort, hfuel => by
    obtain ⟨⟨hk, hv⟩, hprops⟩ := List.forall_mem_cons.1 hshort
    have hblob : encodeUserProps P ((k, v) :: props) = P.putUtf8 k ++ P.putUtf8 v ++ encodeUserProps P props := rfl
    have hne : P.putUtf8 k ++ P.putUtf8 v ≠ [] := hP.ne_nil hk hv
    rw [hblob, List.length_append] at hfuel
    have hpos := List.length_pos_iff.2 hne
    cases fuel with
    | zero => omega
    | succ fuel =>
      have hloop : decodeUserPropsLoop P (fuel + 1) (P.putUtf8 k ++ P.putUtf8 v ++ encodeUserProps P props) =
          (k, v) :: decodeUserPropsLoop P fuel (encodeUserProps P props) := by
        rw [decodeUserPropsLoop, hP k v _ hk hv]
        exact fun hnil => hne (List.append_eq_nil_iff.1 hnil).1
      rw [hblob, hloop, decodeUserPropsLoop_encode hP hprops (by omega)]

/-- A retained message is loaded as it was stored. -/
theorem toMessage_toRow (hP : P.CodecSpec) {m : Message} (hretain : m.retain = true) (hshort : Short m.userProperties) :
    (m.toRow P).toMessage P m.topic = m := by
  have hprops : decodeUserProps P (encodeUserProps P m.userProperties) = m.userProperties :=
    decodeUserPropsLoop_encode hP hshort (le_refl _)
  simp only [RetainedRow.toMessage, Message.toRow, QoS.fromU8_asU8, Option.getD_some, Option.map_some, hprops, ← hretain]

end Codec

/-! ## One topic -/

/-- The topic of a retained message that the command writes or deletes. -/
def Command.topic : Command → Option String
  | .upsertRetained topic _ | .deleteRetained topic => some topic
  | _ => none

/-- What a command for the topic makes of its row. -/
def Command.onRow (P : Protocol) (row : Option RetainedRow) : Command → Option RetainedRow
  | .upsertRetained _ m => some (m.toRow P)
  | .deleteRetained _ => none
  | _ => row

def commandsOn (topic : String) (es : List Effect) : List Command := (commands es).filter (·.topic = some topic)

theorem Db.retained_apply (P : Protocol) (db : Db) (c : Command) (topic : String) :
    (db.apply P c).retained.lookup topic =
      if c.topic = some topic then c.onRow P (db.retained.lookup topic) else db.retained.lookup topic := by
  cases c with
  | upsertRetained t m => simp [apply, lookup_insert_if, Command.topic, Command.onRow, eq_comm]
  | deleteRetained t => simp [apply, lookup_erase_if, Command.topic, Command.onRow, eq_comm]
  | upsertSubscription cid sub =>
    simp only [apply, Command.topic, reduceCtorEq, if_false]
    split <;> rfl
  | _ => rfl

theorem Db.retained_applyAll (P : Protocol) (topic : String) : ∀ (cmds : List Command) (db : Db),
    (db.applyAll P cmds).retained.lookup topic =
      (cmds.filter (·.topic = some topic)).foldl (Command.onRow P) (db.retained.lookup topic)
  | [], _ => rfl
  | c :: cmds, db => by
    have hrest := Db.retained_applyAll P topic cmds (db.apply P c)
    rw [Db.retained_apply] at hrest
    by_cases hc : c.topic = some topic
    · rw [if_pos hc] at hrest
      rw [List.filter_cons_of_pos (by simpa using hc), List.foldl_cons]
      exact hrest
    · rw [if_neg hc] at hrest
      rw [List.filter_cons_of_neg (by simpa using hc)]
      exact hrest

/-- What a section with the effects `es` does to the map at `topic`, where `a` was before, and to the table. -/
inductive Tracks (now : Nat) (topic : String) (es : List Effect) (a : Option Message) : Option Message → Prop
  | same (h : commandsOn topic es = []) : Tracks now topic es a a
  | put {origin : Origin} {m : Message} (horigin : origin ≠ .sys) (he : .retain origin m ∈ es) (hretain : m.retain = true)
      (htopic : m.topic = topic) (h : commandsOn topic es = [.upsertRetained topic m]) : Tracks now topic es a (some m)
  | erase (h : commandsOn topic es = [.deleteRetained topic]) : Tracks now topic es a none
  | purge (h : commandsOn topic es = []) : Tracks now topic es a (a.filter fun m => !m.isExpired now)

theorem commandsOn_append (topic : String) (es es' : List Effect) :
    commandsOn topic (es ++ es') = commandsOn topic es ++ commandsOn topic es' := by
  rw [commandsOn, commands_append, List.filter_append, commandsOn, commandsOn]

theorem commandsOn_quiet {es : List Effect} (h : ∀ e ∈ es, e.isPublishing = false) (topic : String) : commandsOn topic es = [] := by
  refine List.filter_eq_nil_iff.2 fun c hc => ?_
  have := h _ (mem_commands.1 hc)
  cases c <;> simp_all [Command.topic, Effect.isPublishing]

theorem commandsOn_unstored (topic : String) {es : List Effect} (h : ∀ e ∈ es, ∀ c, e ≠ .store c) : commandsOn topic es = [] := by
  refine List.filter_eq_nil_iff.2 fun c hc => ?_
  exact absurd rfl (h _ (mem_commands.1 hc) c)

namespace Broker
variable {P : Protocol} {now : Nat} {topic : String}

/-- Retained-message maintenance, with effects that store nothing around it. -/
theorem storeRetained_tracks (b : Broker) {origin : Origin} (horigin : origin ≠ .sys) (m : Message) {es : List Effect}
    (hes : commandsOn topic es = []) :
    Tracks now topic ((b.storeRetained origin m).2 ++ es) (b.retained.lookup topic)
      ((b.storeRetained origin m).1.retained.lookup topic) := by
  unfold storeRetained
  split
  · rename_i hflag
    split
    · simp only
      rw [lookup_erase_if]
      by_cases ht : topic = m.topic
      · subst ht
        rw [if_pos rfl]
        exact .erase (by rw [commandsOn_append, hes]; simp [commandsOn, commands, Command.topic])
      · rw [if_neg ht]
        exact .same (by rw [commandsOn_append, hes]; simp [commandsOn, commands, Command.topic, Ne.symm ht])
    · simp only
      rw [lookup_insert_if]
      by_cases ht : topic = m.topic
      · subst ht
        rw [if_pos rfl]
        refine .put horigin (by simp) hflag rfl ?_
        rw [commandsOn_append, hes]
        simp [commandsOn, commands, Command.topic]
      · rw [if_neg ht]
        exact .same (by rw [commandsOn_append, hes]; simp [commandsOn, commands, Command.topic, Ne.symm ht])
  · exact .same (by simpa using hes)

theorem publishMessage_tracks (ord : Orders) (b : Broker) {origin : Origin} (horigin : origin ≠ .sys)
    (publisher : Option String) (m : Message) :
    Tracks now topic (publishMessage P now ord b origin publisher m).effects (b.retained.lookup topic)
      ((publishMessage P now ord b origin publisher m).broker.retained.lookup topic) := by
  simp only [publishMessage]
  rw [retained_of_kept (route_kept ..)]
  exact storeRetained_tracks b horigin m (commandsOn_unstored topic (by simp))

theorem handlePublish_tracks (ord : Orders) (b : Broker) (cid : String) (epoch : Nat) (publish : Publish) :
    Tracks now topic (handlePublish P now ord b cid epoch publish).effects (b.retained.lookup topic)
      ((handlePublish P now ord b cid epoch publish).broker.retained.lookup topic) := by
  rcases handlePublish_cases P now ord b cid epoch publish with ⟨rc, he⟩ | ⟨s, s', publish', -, -, -, he⟩
  · rw [he]
    exact .same (commandsOn_unstored topic (by simp [answer]))
  · rw [he]
    unfold acceptPublish
    split
    · exact .same (commandsOn_unstored topic (by simp [answer]))
    split
    · exact .same (commandsOn_unstored topic (by simp [answer]))
    split
    · rw [show ∀ b' : Broker, (b'.answer cid epoch .continue).broker = b' from fun _ => rfl, acknowledge_retained]
      exact .same (commandsOn_unstored topic (by simp [answer]))
    · simp only
      rw [retained_of_kept (routePublish_kept ..), List.append_assoc]
      refine storeRetained_tracks _ (by simp) _ ?_
      refine commandsOn_unstored topic fun e he c hc => ?_
      subst hc
      rw [List.mem_append, List.mem_singleton, or_iff_left (by simp)] at he
      simp only [routePublish] at he
      split at he
      · simp at he
      · simp at he
      · split at he <;> simp at he

/-- `publish_sys` leaves the other topics. -/
theorem publishSys_lookup (ord : Orders) : ∀ {entries : List (String × Bytes)} (b : Broker), topic ∉ entries.map Prod.fst →
    (publishSys P now ord entries b).broker.retained.lookup topic = b.retained.lookup topic
  | [], _, _ => rfl
  | (t, payload) :: entries, b, h => by
    simp only [List.map_cons, List.mem_cons, not_or] at h
    simp only [publishSys]
    rw [publishSys_lookup ord _ h.2, retained_of_kept (route_kept ..), lookup_insert_if, if_neg h.1]

end Broker

/-- `publish_sys` writes the topic. -/
def Label.publishesSys (l : Label) (topic : String) : Bool :=
  match l.input with
  | .call (.publishSys entries) => entries.any (·.1 = topic)
  | _ => false

/-- The user properties that come in: of a PUBLISH, of the Will of a CONNECT, of a message a bridge injects. -/
def Label.userProperties (l : Label) : List (String × String) :=
  match l.input with
  | .call (.packet _ _ (.publish p)) => p.properties.userProperties
  | .call (.connect c _) => (c.will.map (·.userProperties)).getD []
  | .call (.injectPublish _ m) => m.userProperties
  | _ => []

namespace World
open Broker
variable {P : Protocol} {w : World} {l : Label} {topic : String}

/-- **Inversion**: the map and the table are written together, but for the purge. -/
theorem step_tracks (P : Protocol) (w : World) (l : Label) (hsys : l.publishesSys topic = false) :
    Tracks l.now topic (step P w l).2 (w.broker.retained.lookup topic) ((step P w l).1.broker.retained.lookup topic) := by
  cases hin : l.input with
  | call c =>
    simp only [step, hin, absorb]
    by_cases hsys' : ∃ entries, c = .publishSys entries
    · obtain ⟨entries, rfl⟩ := hsys'
      have hnot : topic ∉ entries.map Prod.fst := by
        simp only [Label.publishesSys, hin, List.any_eq_false, decide_eq_true_eq] at hsys
        rw [List.mem_map]
        rintro ⟨e, he, rfl⟩
        exact hsys e he rfl
      rw [show enter P w.clock l.now l.ord w.broker (.publishSys entries) = publishSys P l.now l.ord entries w.broker from rfl,
        publishSys_lookup l.ord w.broker hnot]
      refine .same (commandsOn_unstored topic fun e he c hc => ?_)
      obtain ⟨m, -, rfl | rfl⟩ := publishSys_effects l.now l.ord entries w.broker e he <;> cases hc
    by_cases hinject : ∃ name m, c = .injectPublish name m
    · obtain ⟨name, m, rfl⟩ := hinject
      exact publishMessage_tracks l.ord w.broker (by simp) _ m
    simp only [not_exists] at hsys' hinject
    obtain ⟨hquiet, hkept | ⟨-, hret⟩ | ⟨rfl, hb⟩⟩ := enter_quiet (P := P) w.clock l.now l.ord w.broker hsys' hinject
    · rw [retained_of_kept hkept]
      exact .same (commandsOn_quiet hquiet topic)
    · rw [hret]
      exact .same (commandsOn_quiet hquiet topic)
    · rw [hb, purgeRetained, lookup_filterEntries]
      exact .purge (commandsOn_quiet hquiet topic)
  | task i =>
    cases hsel : w.selected (.task i) with
    | none =>
      simp only [step, hin, hsel]
      exact .same rfl
    | some t =>
      simp only [step, hin, hsel, absorb]
      by_cases h : t.publishes = true
      · unfold Task.publishes at h
        split at h
        · exact handlePublish_tracks ..
        · exact publishMessage_tracks l.ord w.broker (by simp) _ _
        · cases h
      · obtain ⟨hkept, hquiet⟩ := runTask_quiet (P := P) l.now l.ord w.broker (t := t) (by simpa using h)
        rw [retained_of_kept hkept]
        exact .same (commandsOn_quiet hquiet topic)
  | sleep secs =>
    simp only [step, hin]
    exact .same rfl
  | recv cid epoch =>
    simp only [step, hin]
    rw [retained_of_kept (modifySession_kept ..)]
    exact .same rfl
  | hangup cid epoch =>
    simp only [step, hin]
    rw [retained_of_kept (modifySession_kept ..)]
    exact .same rfl

/-! ## Where user properties come from -/

section Run
variable {now : Nat} {cfg : Config} {db : Db} {acl : Acl} {auth : Option Credentials} {ls : List Label}

/-- What is retained for a client or a bridge has the user properties that came in with it. -/
theorem retain_short {origin : Origin} {m : Message} (hls : ∀ l ∈ ls, Short l.userProperties)
    (h : .retain origin m ∈ (run P (boot P now cfg db acl auth) ls).2) (horigin : origin ≠ .sys) : Short m.userProperties := by
  obtain ⟨pre, l, post, rfl, hl⟩ := Machine.exists_emitted (step P) h
  cases step_emits hl with
  | retain hissues hflag =>
    cases hissues with
    | publish hsel _ =>
      obtain ⟨p, s, p', hsel, ⟨-, -, s', hr⟩, rfl, -⟩ := step_published hl rfl
      obtain ⟨topic, rfl⟩ := resolveAlias_publish hr
      obtain ⟨pre', l', post', rfl, hspawn, -⟩ := exists_spawned (selected_mem hsel)
      have hprops := hls l' (by simp)
      rw [Label.userProperties, hspawn.dispatched.1] at hprops
      exact hprops
    | will hsel =>
      obtain ⟨upto, conn, mid, close, rest, l', last, delay, heq, ⟨req, will, hconn, -, -, hwill, rfl, -⟩, -⟩ :=
        published_will h rfl
      obtain ⟨l₀, hl₀, identity, hin⟩ := exists_called hconn
      have hprops := hls l₀ (by rw [heq]; exact List.mem_append_left _ hl₀)
      simp only [Label.userProperties, hin, hwill] at hprops
      exact hprops
    | sys => exact absurd rfl horigin
    | bridge hin =>
      have hprops := hls l (by simp)
      rw [Label.userProperties, hin] at hprops
      exact hprops

end Run

end World

/-! ## The run -/

/-- What is left of a message at `now`. -/
def unexpired (now : Nat) (a : Option Message) : Option Message := a.filter fun m => !m.isExpired now

/-- What was unexpired, at a later time. -/
theorem unexpired_unexpired {now later : Nat} (hle : now ≤ later) (a : Option Message) :
    unexpired later (unexpired now a) = unexpired later a := by
  cases a with
  | none => rfl
  | some m =>
    cases hm : m.isExpired now with
    | false => simp [unexpired, Option.filter, hm]
    | true => simp [unexpired, Option.filter, hm, Message.isExpired_mono hle hm]

/-- The row of a topic and its entry in the map are the same message, if it has not expired at `now`. -/
def Agrees (P : Protocol) (now : Nat) (topic : String) (row : Option RetainedRow) (a : Option Message) : Prop :=
  unexpired now (row.map (·.toMessage P topic)) = unexpired now a

/-- One step. -/
theorem Tracks.agrees {P : Protocol} (hP : P.CodecSpec) {now later : Nat} (hle : now ≤ later) {topic : String}
    {es : List Effect} {row : Option RetainedRow} {a b : Option Message} (h : Tracks now topic es a b)
    (hshort : ∀ origin m, .retain origin m ∈ es → origin ≠ .sys → Short m.userProperties) (hagrees : Agrees P later topic row a) :
    Agrees P later topic ((commandsOn topic es).foldl (Command.onRow P) row) b := by
  cases h with
  | same h =>
    rw [h]
    exact hagrees
  | put horigin he hretain htopic h =>
    subst htopic
    rw [h]
    exact congrArg (unexpired later ∘ some) (toMessage_toRow hP hretain (hshort _ _ he horigin))
  | erase h =>
    rw [h]
    rfl
  | purge h =>
    rw [h]
    exact hagrees.trans (unexpired_unexpired hle a).symm

/-- What `load_all` has for a topic. -/
theorem loadAll_topic (P : Protocol) (now : Nat) (db : Db) (topic : String) :
    ((loadAll P now db).retained.filter fun e => e.1 = topic) =
      (unexpired now ((db.retained.lookup topic).map (·.toMessage P topic))).toList.map fun m => (topic, m) := by
  have hswap : ((loadAll P now db).retained.filter fun e => e.1 = topic) =
      ((db.retained.entries.filter fun e => e.1 = topic).map fun e => (e.1, e.2.toMessage P e.1)).filter
        fun e => !e.2.isExpired now := by
    rw [loadAll, List.filter_comm, List.filter_map]
    rfl
  rw [hswap, filter_entries]
  cases db.retained.lookup topic with
  | none => rfl
  | some row => cases h : (row.toMessage P topic).isExpired now <;> simp [unexpired, Option.filter, h]

namespace World
variable {P : Protocol}

theorem boot_retained (now : Nat) (cfg : Config) (db : Db) (acl : Acl) (auth : Option Credentials) (topic : String) :
    (boot P now cfg db acl auth).broker.retained.lookup topic =
      unexpired now ((db.retained.lookup topic).map (·.toMessage P topic)) := by
  have hinsert : (boot P now cfg db acl auth).broker.retained.lookup topic = _ :=
    lookup_foldl_pairs topic (loadAll P now db).retained ∅
  rw [hinsert, loadAll_topic]
  cases unexpired now ((db.retained.lookup topic).map (·.toMessage P topic)) <;> rfl

/-- The clock does not go back, from the start of the broker over the steps to `later`. -/
def Forward (now : Nat) (ls : List Label) (later : Nat) : Prop := (now :: (ls.map (·.now) ++ [later])).Pairwise (· ≤ ·)

theorem Forward.of_concat {now later : Nat} {ls : List Label} {l : Label} (h : Forward now (ls ++ [l]) later) :
    Forward now ls later ∧ l.now ≤ later := by
  simp only [Forward, List.map_append, List.map_cons, List.map_nil, List.pairwise_cons, List.pairwise_append,
    List.mem_append, List.mem_singleton] at h ⊢
  refine ⟨⟨fun x hx => h.1 x ?_, h.2.1.1, h.2.2.1, fun x hx y hy => h.2.2.2 x (.inl hx) y hy⟩, h.2.2.2 l.now (.inr rfl) later rfl⟩
  exact hx.imp_left .inl

theorem run_agrees (hP : P.CodecSpec) {now : Nat} {cfg : Config} {db : Db} {acl : Acl} {auth : Option Credentials}
    {topic : String} {later : Nat} {ls : List Label} (hclock : Forward now ls later)
    (hwire : ∀ l ∈ ls, Short l.userProperties) (hsys : ∀ l ∈ ls, l.publishesSys topic = false) :
    Agrees P later topic ((db.applyAll P (commands (run P (boot P now cfg db acl auth) ls).2)).retained.lookup topic)
      ((run P (boot P now cfg db acl auth) ls).1.broker.retained.lookup topic) := by
  induction ls using List.reverseRecOn with
  | nil =>
    have hle : now ≤ later := by simpa [Forward] using hclock
    show Agrees P later topic (db.retained.lookup topic) ((boot P now cfg db acl auth).broker.retained.lookup topic)
    rw [boot_retained]
    exact (unexpired_unexpired hle _).symm
  | append_singleton ls l ih =>
    obtain ⟨hclock', hle⟩ := hclock.of_concat
    have hbefore := ih hclock' (fun x hx => hwire x (List.mem_append_left _ hx)) fun x hx => hsys x (List.mem_append_left _ hx)
    have hstep := step_tracks P (run P (boot P now cfg db acl auth) ls).1 l (hsys l (by simp))
    have hafter := hstep.agrees hP hle (fun origin m hm => retain_short hwire (Machine.emitted_of_step (step P) hm _)) hbefore
    rw [Db.retained_applyAll] at hafter ⊢
    rw [run_concat, commands_append, List.filter_append, List.foldl_append]
    exact hafter

/-- **The retained messages survive a restart**: at any time of a run under a clock that does not go back, what `load_all`
finds for a topic that `publish_sys` has not written is the message in the map, unless it has expired. -/
theorem retained_survives (P : Protocol) (hP : P.CodecSpec) (now : Nat) (cfg : Config) (db : Db) (acl : Acl)
    (auth : Option Credentials) (ls : List Label) (later : Nat) (hclock : Forward now ls later)
    (hwire : ∀ l ∈ ls, Short l.userProperties) (topic : String) (hsys : ∀ l ∈ ls, l.publishesSys topic = false) :
    ((loadAll P later (db.applyAll P (commands (run P (boot P now cfg db acl auth) ls).2))).retained.filter
        fun e => e.1 = topic) =
      (((run P (boot P now cfg db acl auth) ls).1.broker.retained.lookup topic).filter
        fun m => !m.isExpired later).toList.map fun m => (topic, m) := by
  rw [loadAll_topic, show unexpired later _ = _ from run_agrees hP hclock hwire hsys]
  rfl

/-- A client retains a message with a user property, to expire after a minute. -/
def leavesNote : List Label :=
  connecting { clientId := "c", cleanStart := true } ++
  sending "c" 1 (.publish ⟨false, .atMostOnce, true, "t", none,
    { userProperties := [("k", "v")], messageExpiryInterval := some 60 }, [1]⟩) ++ [{ input := .call .snapshot, now := 30 }]

theorem retained_survives_note :
    ((loadAll .reference 40 (Db.applyAll .reference {} (commands (run .reference empty leavesNote).2))).retained.filter
        fun e => e.1 = "t") =
      (((run .reference empty leavesNote).1.broker.retained.lookup "t").filter fun m => !m.isExpired 40).toList.map
        (fun m => ("t", m)) ∧
    ((run .reference empty leavesNote).1.broker.retained.lookup "t").map (fun m => (m.userProperties, m.isExpired 40)) =
      some ([("k", "v")], false) :=
  ⟨retained_survives .reference codecSpec_reference 0 {} {} .permitAll none leavesNote 40 (by unfold Forward; decide)
    (by decide) "t" (by decide), by decide +kernel⟩

end World

end WispMQ
