import PooledSql.Client.Row
import PooledSql.Sql.Fragment

/-!
# Scripted surroundings

What a pool and a database meet in a simulation. A `Factory` makes connections, destroys and
validates them according to a script that says for each call how long it takes and how it ends; a
`Server` says how long a statement runs and what comes of it.
-/

namespace PooledSql

/-- A connection, by its number, and whether it is in order. -/
structure Connection where
  number : Nat
  healthy : Bool
  deriving DecidableEq, Repr

/-- How one call of a factory goes. -/
structure Episode where
  delay : Duration := 0
  fails : Bool := false
  /-- A connection that is made is not in order. -/
  sick : Bool := false
  deriving DecidableEq, Repr

/-- How the calls of one kind go: some that are told one by one, then all alike. -/
structure Script where
  told : List Episode := []
  /-- How long a call takes that is not told. -/
  delay : Duration := 0
  deriving DecidableEq, Repr

/-- How the next call goes. -/
def Script.next (s : Script) : Episode × Script :=
  match s.told with
  | episode :: told => (episode, { s with told })
  | [] => ({ delay := s.delay }, s)

/-- The scripts of the three kinds of calls. -/
structure Factory where
  creation : Script := {}
  destruction : Script := {}
  validation : Script := {}
  /-- How many connections there have been. -/
  made : Nat := 0
  deriving DecidableEq, Repr

/-- The connection at the end of a call that makes one, unless it fails. -/
def Factory.make (f : Factory) (episode : Episode) : Option Connection × Factory :=
  if episode.fails then (none, f)
  else (some ⟨f.made + 1, !episode.sick⟩, { f with made := f.made + 1 })

/-- A server that runs statements. -/
structure Server where
  delay : Duration
  /-- The rows that a statement gives, or why it fails. -/
  respond : CompiledQuery → Except String (List Row)

namespace Server

/-- The word occurs in the text. -/
def occurs (word : List Char) : List Char → Bool
  | [] => word.isEmpty
  | c :: rest => word.isPrefixOf (c :: rest) || occurs word rest

/-- A server that answers with the parameters of the statement: for each a row with the one
column `p1`, `p2` and so on. A statement that has the word `broken` in it fails. -/
def echo (delay : Duration) : Server where
  delay
  respond statement :=
    if occurs "broken".toList statement.query.toList then .error "connection reset"
    else .ok (statement.params.mapIdx fun i v => ⟨["p" ++ toString (i + 1)], [v]⟩)

end Server

end PooledSql
