import PooledSql.Client.Error
import PooledSql.Json.Reader
import PooledSql.Value.Basic

/-!
# Reading values

`FromValue` says how the value of a column is read as a member of a type. Texts are read as
timestamps and documents where these are asked for, and zero and one as booleans; apart from that
a value of another kind is an error.
-/

namespace PooledSql

/-- Types whose members can be read from a value. -/
class FromValue (α : Type) where
  fromValue : Value → Except ClientError α

export FromValue (fromValue)

namespace Value

/-- The error of a value that is not of the expected type. -/
def mismatch {α : Type} (expected : String) (v : Value) : Except ClientError α :=
  .error (.typeMismatch expected v.kind)

/-- The integer that a value is, if it lies within a range. -/
def toIntWithin (range : IntRange) (expected : String) (v : Value) : Except ClientError Int :=
  let checked (i : Int) := if i ∈ range then .ok i else v.mismatch expected
  match v with
  | .int i => checked i.toInt
  | .bigint i => checked i
  | other => other.mismatch expected

end Value

instance : FromValue Value := ⟨.ok⟩

instance : FromValue Int64 :=
  ⟨fun v => (v.toIntWithin .int64 "i64").map Int64.ofInt⟩

instance : FromValue Int32 :=
  ⟨fun v => (v.toIntWithin .int32 "i32").map Int32.ofInt⟩

instance : FromValue Binary64 where
  fromValue
    | .float x => .ok x
    | .int i => .ok (Binary64.ofInt i.toInt)
    | other => other.mismatch "f64"

/-- Zero and one are read as booleans. -/
instance : FromValue Bool where
  fromValue
    | .bool b => .ok b
    | .int i =>
      if i = 0 then .ok false
      else if i = 1 then .ok true
      else (Value.int i).mismatch "bool"
    | other => other.mismatch "bool"

instance : FromValue String where
  fromValue
    | .text s => .ok s
    | other => other.mismatch "string"

/-- A text is read as the timestamp that it names. -/
instance : FromValue Timestamp where
  fromValue
    | .timestamp t => .ok t
    | .text s =>
      match Timestamp.parse s with
      | some t => .ok t
      | none => (Value.text s).mismatch "timestamp"
    | other => other.mismatch "timestamp"

/-- A text is read as the text of a document; any other value has a document. -/
instance : FromValue Json where
  fromValue
    | .text s =>
      match Json.parse s with
      | some j => .ok j
      | none => (Value.text s).mismatch "json"
    | other => .ok other.toJson

instance {α : Type} [FromValue α] : FromValue (Option α) :=
  ⟨fun v => if v.isNull then .ok none else (fromValue v).map some⟩

end PooledSql
