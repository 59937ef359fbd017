import PooledSql.Numeric.IntRange
import PooledSql.Numeric.Layout

/-!
# JSON documents

A document is a tree. Numbers are integers of sixty-four bits, signed or not, or finite doubles;
the fields of an object are kept in the order of their keys, each key once. `Json.Canonical`
states these conditions, and every document that `Json.parse` returns meets them.
-/

namespace PooledSql

/-- A JSON number: a whole number that fits sixty-four bits, or a double. -/
inductive Json.Number where
  | int (i : Int)
  | float (x : Binary64)
  deriving DecidableEq, Repr

/-- A JSON document. -/
inductive Json where
  | null
  | bool (b : Bool)
  | num (n : Json.Number)
  | str (s : String)
  | arr (items : List Json)
  | obj (fields : List (String × Json))
  deriving Inhabited, Repr, BEq

namespace Json

/-- The number is in the range of its kind. -/
def Number.Valid : Number → Prop
  | .int i => i ∈ IntRange.either64
  | .float x => x.isFinite = true

/-- Insert a field in the order of the keys; a key already there gets the new value. -/
def insertField (key : String) (value : Json) : List (String × Json) → List (String × Json)
  | [] => [(key, value)]
  | (k, v) :: rest =>
    if key < k then (key, value) :: (k, v) :: rest
    else if key = k then (key, value) :: rest
    else (k, v) :: insertField key value rest

/-- The value of a field; a document that is not an object has none. -/
def field? (key : String) : Json → Option Json
  | .obj fields => fields.lookup key
  | _ => none

/-- The word for the kind of a document. -/
def kind : Json → String
  | .null => "null"
  | .bool _ => "boolean"
  | .num _ => "number"
  | .str _ => "string"
  | .arr _ => "array"
  | .obj _ => "object"

/-- Every key is smaller than the next. -/
def KeysAscend : List (String × Json) → Prop
  | [] => True
  | [_] => True
  | (k, _) :: (l, v) :: rest => k < l ∧ KeysAscend ((l, v) :: rest)

mutual

/-- How deeply arrays and objects are nested; a scalar has depth zero. -/
def depth : Json → Nat
  | .arr items => depthItems items + 1
  | .obj fields => depthFields fields + 1
  | _ => 0

def depthItems : List Json → Nat
  | [] => 0
  | j :: rest => max j.depth (depthItems rest)

def depthFields : List (String × Json) → Nat
  | [] => 0
  | (_, j) :: rest => max j.depth (depthFields rest)

end

mutual

/-- Numbers are in range and the keys of every object ascend. -/
def Canonical : Json → Prop
  | .num n => n.Valid
  | .arr items => CanonicalItems items
  | .obj fields => KeysAscend fields ∧ CanonicalFields fields
  | _ => True

def CanonicalItems : List Json → Prop
  | [] => True
  | j :: rest => j.Canonical ∧ CanonicalItems rest

def CanonicalFields : List (String × Json) → Prop
  | [] => True
  | (_, j) :: rest => j.Canonical ∧ CanonicalFields rest

end

end Json

end PooledSql
