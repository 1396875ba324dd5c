import WispMQ.Lib.SortedMap
import Mathlib.Algebra.Ring.Int.Defs
import Mathlib.Data.String.Basic
/-!
# Configuration documents: TOML, and JSON as the pivot

| here | there |
| --- | --- |
| `Toml`           | `toml::Value`, as the parser builds it |
| `Json`           | `serde_json::Value`, with the entries of an object in the order of its B-tree map |
| `Toml.toJson`    | `serde_json::to_value(toml_doc)` (config.rs:634) |
| `trim`, `splitOnce`, `splitOn`, `toAsciiLowercase`, `parseUInt` | the functions of `str` the options are read with |

The pivot is not one to one: a float that is not finite becomes `null`, and a date becomes an object.
-/

namespace WispMQ.Configuration

/-! ## Text -/

/-- `char::is_whitespace`. -/
def isWhitespace (c : Char) : Bool :=
  (0x9 ≤ c.toNat && c.toNat ≤ 0xD) || (0x2000 ≤ c.toNat && c.toNat ≤ 0x200A) ||
    [0x20, 0x85, 0xA0, 0x1680, 0x2028, 0x2029, 0x202F, 0x205F, 0x3000].contains c.toNat

def trim (s : String) : String :=
  String.ofList ((s.toList.dropWhile isWhitespace).reverse.dropWhile isWhitespace).reverse

/-- `split_once`, at a character. -/
def splitOnce (c : Char) (s : String) : Option (String × String) :=
  match s.toList.span (· ≠ c) with
  | (before, _ :: after) => some (String.ofList before, String.ofList after)
  | (_, []) => none

/-- `split`, at a character. -/
def splitOn (c : Char) (s : String) : List String := (s.toList.splitOn c).map String.ofList

def toAsciiLowercase (s : String) : String := String.ofList (s.toList.map Char.toLower)

/-- `parse` to an unsigned integer: digits after at most one `+`, without overflow. -/
def parseUInt (bits : Nat) (s : String) : Option Nat :=
  let digits := match s.toList with
    | '+' :: ds => ds
    | ds => ds
  if digits.isEmpty || !digits.all Char.isDigit then none
  else
    let n := Nat.ofDigitChars 10 digits 0
    if n < 2 ^ bits then some n else none

/-- `try_from` an `i64` to an unsigned integer. -/
def tryFrom (bits : Nat) (n : Int) : Option Nat := if 0 ≤ n ∧ n < 2 ^ bits then some n.toNat else none

/-! ## Values -/

/-- A floating-point number, by its bits. -/
structure F64 where
  bits : UInt64
deriving DecidableEq, Repr

/-- Neither infinite nor NaN. -/
def F64.isFinite (f : F64) : Bool := (f.bits >>> 52) &&& 0x7FF != 0x7FF

inductive Toml where
  | string (s : String)
  | integer (n : Int)
  | float (f : F64)
  | boolean (b : Bool)
  | datetime (text : String)
  | array (vs : List Toml)
  | table (entries : List (String × Toml))

inductive Json where
  | null
  | bool (b : Bool)
  | integer (n : Int)
  | float (f : F64)
  | string (s : String)
  | array (vs : List Json)
  | object (entries : List (String × Json))

namespace Json

/-- `value[key]`: `Null` where there is none. -/
def get (v : Json) (key : String) : Json :=
  match v with
  | object entries => (SortedMap.get key entries).getD null
  | _ => null

def isNull : Json → Bool
  | null => true
  | _ => false

def asStr : Json → Option String
  | string s => some s
  | _ => none

/-- A float is no integer, whatever its value. -/
def asI64 : Json → Option Int
  | integer n => some n
  | _ => none

def asBool : Json → Option Bool
  | bool b => some b
  | _ => none

def asArray : Json → Option (List Json)
  | array vs => some vs
  | _ => none

def asObject : Json → Option (List (String × Json))
  | object entries => some entries
  | _ => none

end Json

/-- What `serde` makes of a date. -/
def datetimeField : String := "$__toml_private_datetime"

mutual

def Toml.toJson : Toml → Json
  | .string s => .string s
  | .integer n => .integer n
  | .float f => if f.isFinite then .float f else .null
  | .boolean b => .bool b
  | .datetime text => .object [(datetimeField, .string text)]
  | .array vs => .array (toJsons vs)
  | .table entries => .object (SortedMap.ofList (toJsonEntries entries))

def toJsons : List Toml → List Json
  | [] => []
  | v :: vs => v.toJson :: toJsons vs

def toJsonEntries : List (String × Toml) → List (String × Json)
  | [] => []
  | (key, v) :: entries => (key, v.toJson) :: toJsonEntries entries

end

theorem toJsons_eq : ∀ vs : List Toml, toJsons vs = vs.map Toml.toJson
  | [] => rfl
  | v :: vs => by rw [toJsons, toJsons_eq vs, List.map_cons]

theorem toJsonEntries_eq : ∀ entries : List (String × Toml), toJsonEntries entries = entries.map fun e => (e.1, e.2.toJson)
  | [] => rfl
  | (key, v) :: entries => by rw [toJsonEntries, toJsonEntries_eq entries, List.map_cons]

/-- The entries of a table, as the JSON object has them. -/
def pivot (entries : List (String × Toml)) : List (String × Json) :=
  SortedMap.ofList (entries.map fun e => (e.1, e.2.toJson))

theorem toJson_table (entries : List (String × Toml)) : (Toml.table entries).toJson = .object (pivot entries) := by
  rw [Toml.toJson, toJsonEntries_eq]
  rfl

theorem pivot_sorted (entries : List (String × Toml)) : SortedMap.Sorted (pivot entries) := SortedMap.sorted_ofList _

end WispMQ.Configuration
