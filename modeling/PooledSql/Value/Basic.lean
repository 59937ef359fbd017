import PooledSql.Json.Printer
import PooledSql.Time.Timestamp

/-!
# Values

A `Value` is what a parameter is bound to and what a column of a result holds. `Value.toJson` and
`Value.toText` are the two views of a value that other parts of a statement are made from;
`Value.ofJson` makes a value of a document.
-/

namespace PooledSql

/-- A bindable value. -/
inductive Value where
  | null
  | bool (b : Bool)
  | int (i : Int64)
  /-- An integer that need not fit sixty-four bits. -/
  | bigint (i : Int)
  | float (x : Binary64)
  | text (s : String)
  | bytes (data : List UInt8)
  | timestamp (t : Timestamp)
  | json (j : Json)
  | array (items : List Value)
  deriving Inhabited, Repr

namespace Value

/-- The word for the kind of a value. -/
def kind : Value → String
  | .null => "null"
  | .bool _ => "boolean"
  | .int _ | .bigint _ => "integer"
  | .float _ => "float"
  | .text _ => "text"
  | .bytes _ => "bytes"
  | .timestamp _ => "timestamp"
  | .json (.obj _) => "object"
  | .json (.arr _) | .array _ => "array"
  | .json _ => "json"

/-- The value or the document is null. -/
def isNull : Value → Bool
  | .null | .json .null => true
  | _ => false

mutual

/-- The values are of the same kind and equal, numbers as numbers are. -/
def equal : Value → Value → Bool
  | .null, .null => true
  | .bool a, .bool b => a == b
  | .int a, .int b => a == b
  | .bigint a, .bigint b => a == b
  | .float a, .float b => a.equal b
  | .text a, .text b => a == b
  | .bytes a, .bytes b => a == b
  | .timestamp a, .timestamp b => a == b
  | .json a, .json b => a == b
  | .array a, .array b => equalItems a b
  | _, _ => false

def equalItems : List Value → List Value → Bool
  | [], [] => true
  | a :: as, b :: bs => a.equal b && equalItems as bs
  | _, _ => false

end

/-- A document for an integer: a number if one fits, else its text. -/
def jsonOfInt (i : Int) : Json :=
  if i ∈ IntRange.either64 then .num (.int i) else .str (String.ofList (Digits.ofInt i))

mutual

/-- The document for a value. A double that is not finite has no number and becomes null. -/
def toJson : Value → Json
  | .null => .null
  | .bool b => .bool b
  | .int i => .num (.int i.toInt)
  | .bigint i => jsonOfInt i
  | .float x => if x.isFinite then .num (.float x) else .null
  | .text s => .str s
  | .bytes data => .arr (data.map fun b => .num (.int b.toNat))
  | .timestamp t => .str t.render
  | .json j => j
  | .array items => .arr (toJsonItems items)

def toJsonItems : List Value → List Json
  | [] => []
  | v :: rest => v.toJson :: toJsonItems rest

end

/-- Doubles as text: the shortest digits that read back, never with an exponent. -/
def floatLayout : FloatLayout where
  positional := none
  pointZero := false
  tie := .up
  nan := "NaN".toList
  infinity := "inf".toList

/-- The text of a scalar; null, bytes, arrays and objects have none. -/
def toText : Value → Option String
  | .bool b => some (if b then "true" else "false")
  | .int i => some (String.ofList (Digits.ofInt i.toInt))
  | .bigint i => some (String.ofList (Digits.ofInt i))
  | .float x => some (String.ofList (floatLayout.render x))
  | .text s => some s
  | .timestamp t => some t.render
  | .json (.str s) => some s
  | .json (.bool b) => some (Json.bool b).render
  | .json (.num n) => some (Json.num n).render
  | .null | .bytes _ | .json _ | .array _ => none

/-- The value of a document: scalars become values, arrays and objects stay documents. -/
def ofJson : Json → Value
  | .null => .null
  | .bool b => .bool b
  | .num (.int i) => if i ≤ IntRange.int64.most then .int (Int64.ofInt i) else .bigint i
  | .num (.float x) => .float x
  | .str s => .text s
  | .arr items => .json (.arr items)
  | .obj fields => .json (.obj fields)

end Value

end PooledSql
