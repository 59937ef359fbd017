import PooledSql.Sql.Chunk

/-!
# Batches of rows

A batch is what follows the word `values`: rows of equal length whose items are values, raw text
or the word `default`. `Batch.check` refuses everything else, and `Batch.compile` writes the rows
with every value bound.
-/

namespace PooledSql

namespace Batch

/-- An item of a row is a value, raw text or the word `default`. -/
def checkItem (row column : Nat) : Arg → Except TemplateError Unit
  | .value _ | .chunk (.raw _) | .chunk .default => .ok ()
  | .undefined => .error .undefinedParameter
  | other => .error (.valuesInvalidItem row column other.kind)

/-- Check the items of a row from a column on. -/
def checkItems (row : Nat) : Nat → List Arg → Except TemplateError Unit
  | _, [] => .ok ()
  | column, item :: rest => do
    checkItem row column item
    checkItems row (column + 1) rest

/-- Check rows, numbered from `row`, against the expected length. -/
def checkRows (expected : Nat) : Nat → List (List Arg) → Except TemplateError Unit
  | _, [] => .ok ()
  | row, items :: rest => do
    if items.isEmpty then .error (.valuesEmptyRow row)
    else if items.length ≠ expected then .error (.valuesRowLength row expected items.length)
    else
      checkItems row 0 items
      checkRows expected (row + 1) rest

/-- A batch has rows, all as long as the first, which is not empty. -/
def check : List (List Arg) → Except TemplateError Unit
  | [] => .error .valuesEmpty
  | first :: rest => checkRows first.length 0 (first :: rest)

/-- The word that stands for a column's default. -/
def defaultWord : String := "default"

/-- The text of an item of a row and the parameters after it. -/
def item (dialect : Dialect) (row column : Nat) (params : List Value) :
    Arg → Except TemplateError (String × List Value)
  | .value v => .ok (dialect.bindItem v params)
  | .chunk (.raw s) => .ok (s, params)
  | .chunk .default => .ok (defaultWord, params)
  | other => .error (.valuesInvalidItem row column other.kind)

/-- The texts of the items of a row from a column on. -/
def items (dialect : Dialect) (row : Nat) :
    Nat → List Value → List Arg → Except TemplateError (List String × List Value)
  | _, params, [] => .ok ([], params)
  | column, params, arg :: rest => do
    let (text, params) ← item dialect row column params arg
    let (texts, params) ← items dialect row (column + 1) params rest
    return (text :: texts, params)

/-- The texts of rows, numbered from `row`, each in parentheses. -/
def rows (dialect : Dialect) :
    Nat → List Value → List (List Arg) → Except TemplateError (List String × List Value)
  | _, params, [] => .ok ([], params)
  | row, params, args :: rest => do
    let (texts, params) ← items dialect row 0 params args
    let (others, params) ← rows dialect (row + 1) params rest
    return (("(" ++ ", ".intercalate texts ++ ")") :: others, params)

/-- The text of a batch and the parameters after it. -/
def compile (dialect : Dialect) (params : List Value) (batch : List (List Arg)) :
    Except TemplateError (String × List Value) := do
  check batch
  let (texts, params) ← rows dialect 0 params batch
  return (", ".intercalate texts, params)

end Batch

end PooledSql
