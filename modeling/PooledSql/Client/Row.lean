import PooledSql.Client.Reading

/-!
# Rows

A row of a result holds values and the names of its columns. A value is read by number or by
name; names are compared without regard to the case of ASCII letters. A row may have more values
than names, which are read by number only.
-/

namespace PooledSql

/-- A row of a result. -/
structure Row where
  columns : List String
  values : List Value
  deriving Repr

namespace Row

/-- The names are equal but for the case of ASCII letters. -/
def sameName (a b : String) : Bool := a.toList.map Char.toLower == b.toList.map Char.toLower

/-- The number of the first column of a name. -/
def position? (row : Row) (name : String) : Option Nat :=
  row.columns.findIdx? (sameName · name)

def get (α : Type) [FromValue α] (row : Row) (index : Nat) : Except ClientError α :=
  match row.values[index]? with
  | some v => fromValue v
  | none => .error (.columnNotFound ("index " ++ toString index))

def getByName (α : Type) [FromValue α] (row : Row) (name : String) : Except ClientError α :=
  match row.position? name with
  | some index => row.get α index
  | none => .error (.columnNotFound name)

/-- The value at a number, unless it is missing, null or of another type. -/
def get? (α : Type) [FromValue α] (row : Row) (index : Nat) : Option α :=
  match row.values[index]? with
  | some v => if v.isNull then none else (fromValue v).toOption
  | none => none

def raw? (row : Row) (index : Nat) : Option Value := row.values[index]?

def rawByName? (row : Row) (name : String) : Option Value :=
  (row.position? name).bind row.raw?

/-- The rows have the same names and equal values. -/
def equal (a b : Row) : Bool := a.columns == b.columns && Value.equalItems a.values b.values

/-- The values that have a name, with it. -/
def pairs (row : Row) : List (String × Value) := row.columns.zip row.values

end Row

end PooledSql
