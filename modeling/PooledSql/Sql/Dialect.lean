import PooledSql.Sql.Name
import PooledSql.Value.Basic

/-!
# Dialects

A statement depends on the database that runs it only through a `Dialect`: how placeholders look,
how names are quoted, which structured names are allowed, and how a value of a `values` batch is
bound. The four dialects here differ in the first two and in which kinds of values their drivers
can bind.
-/

namespace PooledSql

/-- What a statement depends on in a database. -/
structure Dialect where
  name : String
  /-- The placeholder of the parameter with this number, counted from one. -/
  placeholder : Nat → String
  /-- The quoted form of a name. -/
  quote : String → String
  /-- Whether a structured name is allowed. -/
  checkName : QualifiedName → Except TemplateError Unit := QualifiedName.check
  /-- The text for a value of a `values` batch and the parameters with the value bound. -/
  bindItem : Value → List Value → String × List Value :=
    fun value params => (placeholder (params.length + 1), params ++ [value])

namespace Dialect

/-- A name between two characters, the closing one doubled inside. -/
def quoteBetween (opening closing : Char) (name : String) : String :=
  String.ofList <|
    opening :: name.toList.flatMap (fun c => if c = closing then [closing, c] else [c])
      ++ [closing]

/-- Documents and arrays as the text of a document; other values as they are. -/
def jsonAsText : Value → Value
  | .json j => .text j.render
  | .array items => .text (Value.array items).toJson.render
  | value => value

/-- Bind what a value is converted to. -/
def bindConverted (placeholder : Nat → String) (convert : Value → Value) (value : Value)
    (params : List Value) : String × List Value :=
  (placeholder (params.length + 1), params ++ [convert value])

def postgres : Dialect where
  name := "postgres"
  placeholder index := "$" ++ toString index
  quote := quoteBetween '"' '"'

def mysql : Dialect where
  name := "mysql"
  placeholder _ := "?"
  quote := quoteBetween '\x60' '\x60'
  bindItem := bindConverted (fun _ => "?") jsonAsText

/-- Booleans are bound as zero and one, and timestamps as text. -/
def sqliteItem : Value → Value
  | .bool b => .int (if b then 1 else 0)
  | .timestamp t => .text t.render
  | value => jsonAsText value

def sqlite : Dialect where
  name := "sqlite"
  placeholder _ := "?"
  quote := quoteBetween '"' '"'
  bindItem := bindConverted (fun _ => "?") sqliteItem

def mssql : Dialect where
  name := "mssql"
  placeholder index := "@p" ++ toString index
  quote := quoteBetween '[' ']'
  bindItem := bindConverted (fun index => "@p" ++ toString index) jsonAsText

/-- The dialects of this library. -/
def shipped : List Dialect := [postgres, mysql, sqlite, mssql]

end Dialect

end PooledSql
