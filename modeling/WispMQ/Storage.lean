import WispMQ.Session
/-!
# SQLite persistence: `storage.rs`

The writer thread applies the commands in the order they were sent; a database is the three tables. The
foreign key of `subscriptions` is on (`PRAGMA foreign_keys = ON`, storage.rs:226), so an insert without a
`sessions` row fails and is only logged.

| here | there |
| --- | --- |
| `Command`, `SubRecord`     | `Command` (storage.rs:65), `SubRecord` (storage.rs:25) |
| `Db`                       | the schema of `migrate` (storage.rs:189) |
| `Db.apply`                 | `apply` (storage.rs:352) |
| `loadAll`                  | `load_all` (storage.rs:246) |
-/

namespace WispMQ
open KeyMap

/-- A persisted subscription. -/
structure SubRecord where
  filter : String
  qos : QoS
  noLocal : Bool
  retainAsPublished : Bool
  retainHandling : RetainHandling
  subscriptionIdentifier : Option Nat
deriving DecidableEq, Repr

inductive Command where
  | upsertRetained (topic : String) (message : Message)
  | deleteRetained (topic : String)
  | upsertSession (clientId : String) (sessionExpiry : Nat) (ownerIdentity : Option String)
  | deleteSession (clientId : String)
  | upsertSubscription (clientId : String) (sub : SubRecord)
  | deleteSubscription (clientId : String) (filter : String)
  | clearSubscriptions (clientId : String)
deriving DecidableEq, Repr

/-! ## Tables -/

structure RetainedRow where
  payload : Bytes
  qos : Nat
  payloadFormat : Option Nat
  contentType : Option String
  responseTopic : Option String
  correlationData : Option Bytes
  userProperties : Option Bytes
  expiresAt : Option Nat
deriving DecidableEq, Repr

structure SessionRow where
  sessionExpiry : Nat
  ownerIdentity : Option String
deriving DecidableEq, Repr

structure SubRow where
  qos : Nat
  noLocal : Nat
  retainAsPublished : Nat
  retainHandling : Nat
  subId : Option Nat
deriving DecidableEq, Repr

structure Db where
  retained : KeyMap String RetainedRow := ∅
  sessions : KeyMap String SessionRow := ∅
  /-- Keyed by `(client_id, filter)`. -/
  subscriptions : KeyMap (String × String) SubRow := ∅

/-- `encode_user_props` (storage.rs:437). -/
def encodeUserProps (P : Protocol) (props : List (String × String)) : Bytes :=
  props.flatMap fun kv => P.putUtf8 kv.1 ++ P.putUtf8 kv.2

/-- The loop of `decode_user_props` (storage.rs:446); a read error ends it. -/
def decodeUserPropsLoop (P : Protocol) : Nat → Bytes → List (String × String)
  | 0, _ => []
  | _ + 1, [] => []
  | fuel + 1, blob =>
    match P.utf8Pair blob with
    | some (pair, rest) => pair :: decodeUserPropsLoop P fuel rest
    | none => []

/-- Each pair takes at least one byte, so the blob's length is enough fuel. -/
def decodeUserProps (P : Protocol) (blob : Bytes) : List (String × String) :=
  decodeUserPropsLoop P blob.length blob

def boolToInt (b : Bool) : Nat := if b then 1 else 0

def SubRecord.toRow (sub : SubRecord) : SubRow where
  qos := sub.qos.asU8
  noLocal := boolToInt sub.noLocal
  retainAsPublished := boolToInt sub.retainAsPublished
  retainHandling := sub.retainHandling.asU8
  subId := sub.subscriptionIdentifier

def SubRow.toRecord (filter : String) (row : SubRow) : SubRecord where
  filter := filter
  qos := (QoS.fromU8 row.qos).getD .atMostOnce
  noLocal := row.noLocal != 0
  retainAsPublished := row.retainAsPublished != 0
  retainHandling := match row.retainHandling with
    | 1 => .sendIfNewSubscription
    | 2 => .doNotSend
    | _ => .sendAtSubscribe
  subscriptionIdentifier := row.subId

def Message.toRow (P : Protocol) (m : Message) : RetainedRow where
  payload := m.payload
  qos := m.qos.asU8
  payloadFormat := m.payloadFormatIndicator
  contentType := m.contentType
  responseTopic := m.responseTopic
  correlationData := m.correlationData
  userProperties := some (encodeUserProps P m.userProperties)
  expiresAt := m.expiresAt

def RetainedRow.toMessage (P : Protocol) (topic : String) (row : RetainedRow) : Message where
  topic := topic
  payload := row.payload
  qos := (QoS.fromU8 row.qos).getD .atMostOnce
  retain := true
  payloadFormatIndicator := row.payloadFormat
  contentType := row.contentType
  responseTopic := row.responseTopic
  correlationData := row.correlationData
  userProperties := (row.userProperties.map (decodeUserProps P)).getD []
  expiresAt := row.expiresAt

namespace Db

def apply (P : Protocol) (db : Db) : Command → Db
  | .upsertRetained topic message => { db with retained := db.retained.insert topic (message.toRow P) }
  | .deleteRetained topic => { db with retained := db.retained.erase topic }
  | .upsertSession cid expiry owner => { db with sessions := db.sessions.insert cid ⟨expiry, owner⟩ }
  | .deleteSession cid =>
    { db with
      subscriptions := filterEntries db.subscriptions fun k _ => k.1 != cid
      sessions := db.sessions.erase cid }
  | .upsertSubscription cid sub =>
    -- the foreign key rejects a row whose session is not in the table
    if cid ∈ db.sessions then { db with subscriptions := db.subscriptions.insert (cid, sub.filter) sub.toRow }
    else db
  | .deleteSubscription cid filter => { db with subscriptions := db.subscriptions.erase (cid, filter) }
  | .clearSubscriptions cid =>
    { db with subscriptions := filterEntries db.subscriptions fun k _ => k.1 != cid }

/-- `writer_loop`: the commands in order. -/
def applyAll (P : Protocol) (db : Db) (cmds : List Command) : Db := cmds.foldl (apply P) db

end Db

/-! ## Loading -/

structure SessionRecord where
  clientId : String
  sessionExpiryInterval : Nat
  ownerIdentity : Option String
  subscriptions : List SubRecord

structure LoadedState where
  retained : List (String × Message) := []
  sessions : List SessionRecord := []

/-- `SELECT … FROM subscriptions WHERE client_id = ?1`. -/
def Db.subsOf (db : Db) (cid : String) : List SubRecord :=
  (db.subscriptions.entries.filter fun e => e.1.1 = cid).map fun e => e.2.toRecord e.1.2

def loadAll (P : Protocol) (now : Nat) (db : Db) : LoadedState where
  retained := (db.retained.entries.map fun e => (e.1, e.2.toMessage P e.1)).filter
    fun e => !e.2.isExpired now
  sessions := db.sessions.entries.map fun e => ⟨e.1, e.2.sessionExpiry, e.2.ownerIdentity, db.subsOf e.1⟩

@[simp] theorem SubRow.toRecord_toRow (sub : SubRecord) : sub.toRow.toRecord sub.filter = sub := by
  obtain ⟨f, q, nl, rap, rh, id⟩ := sub
  cases nl <;> cases rap <;> cases rh <;> simp [SubRecord.toRow, SubRow.toRecord, boolToInt, RetainHandling.asU8]

end WispMQ
