import PooledSql.Client.Row
import PooledSql.Pool.Stats
import PooledSql.Sql.Fragment

/-!
# Databases

A database is a pool of connections together with the dialect that they speak. A call compiles a
fragment, runs the statement on a leased connection and makes its reply from the rows; a fragment
that does not compile never gets as far as the pool.
-/

namespace PooledSql

/-- A pool, by its number, and the dialect of its connections. -/
structure Database where
  pool : Nat
  dialect : Dialect

/-- What is asked of a database. -/
inductive Request where
  /-- All rows, waiting for a connection under the priority. -/
  | query (priority : Nat)
  /-- The first row. -/
  | queryOne
  /-- How many rows were affected. -/
  | execute
  /-- The statement, without running it. -/
  | compile
  deriving DecidableEq, Repr

/-- What a database replies. -/
inductive Reply where
  | rows (rows : List Row)
  | row (row : Option Row)
  | affected (count : Nat)
  | compiled (statement : CompiledQuery)
  deriving Repr

namespace Request

/-- The priority under which a connection is asked for. -/
def priority : Request → Nat
  | .query priority => priority
  | .queryOne | .execute | .compile => 0

/-- The reply to a request whose statement gave these rows. -/
def reply (statement : CompiledQuery) (rows : List Row) : Request → Reply
  | .query _ => .rows rows
  | .queryOne => .row rows.head?
  | .execute => .affected rows.length
  | .compile => .compiled statement

end Request

namespace Database

/-- The statement of a fragment in the dialect of the database. -/
def compile (db : Database) (f : Fragment) : Except ClientError CompiledQuery :=
  (f.compile db.dialect).mapError .template

/-- The database and its pool in words. -/
def render (db : Database) (status : PoolStatus) : String :=
  "Database \x7b dialect: \"" ++ db.dialect.name ++ "\", pool: " ++ status.render ++ " \x7d"

end Database

end PooledSql
