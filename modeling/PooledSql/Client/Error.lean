import PooledSql.Pool.Error
import PooledSql.Sql.Error

/-!
# Client errors

Why a statement has no result, or a result not the value that is asked of it.
-/

namespace PooledSql

inductive ClientError where
  | pool (e : PoolError)
  | template (e : TemplateError)
  /-- The connection failed; the text says how. -/
  | connection (text : String)
  /-- The row has no column of this name or number. -/
  | columnNotFound (column : String)
  | typeMismatch (expected actual : String)
  deriving DecidableEq, Repr

namespace ClientError

/-- The pool is at fault, not the statement. -/
def isPool : ClientError → Bool
  | .pool _ => true
  | _ => false

/-- The wording of an error. -/
def message : ClientError → String
  | .pool e => "pool error: " ++ e.message
  | .template e => "template error: " ++ e.message
  | .connection text => "connection error: " ++ text
  | .columnNotFound column => "column not found: " ++ column
  | .typeMismatch expected actual =>
    "type mismatch: expected " ++ expected ++ ", got " ++ actual

end ClientError

end PooledSql
