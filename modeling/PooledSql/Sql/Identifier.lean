import PooledSql.Sql.Dialect

/-!
# Identifiers

An identifier is a name, a structured name, a list of these, or a document that stands for one
of them. `Identifier.resolve` writes it with every part quoted: parts of a path are joined by a
point, an alias follows the word `as`, and the items of a list are joined by commas.
-/

namespace PooledSql

/-- A name to be quoted into a statement. -/
inductive Identifier where
  | name (s : String)
  | qualified (path : QualifiedName)
  | list (items : List Identifier)
  | json (j : Json)
  deriving Inhabited, Repr

namespace QualifiedName

/-- The text of a structured name. -/
def render (dialect : Dialect) (name : QualifiedName) : String :=
  let path := ".".intercalate (name.path.map dialect.quote)
  match name.aliasName with
  | some aliasName => path ++ " as " ++ dialect.quote aliasName
  | none => path

/-- A part of a structured name in a document: absent, or a text. -/
def field (fields : List (String × Json)) (key : String) :
    Except TemplateError (Option String) :=
  match fields.lookup key with
  | none => .ok none
  | some .null => .error (.identifierUndefinedField key)
  | some (.str s) => .ok (some s)
  | some other => .error (.identifierFieldType key other.kind)

/-- The structured name that the fields of a document spell. -/
def ofFields (fields : List (String × Json)) : Except TemplateError QualifiedName := do
  return {
    schema := ← field fields "schema"
    table := ← field fields "table"
    column := ← field fields "column"
    aliasName := ← field fields "as" }

/-- The text of a structured name that the dialect allows. -/
def resolve (dialect : Dialect) (name : QualifiedName) : Except TemplateError String := do
  dialect.checkName name
  return name.render dialect

end QualifiedName

namespace Identifier

/-- The text of a document that stands for one name. -/
def resolveJson (dialect : Dialect) : Json → Except TemplateError String
  | .str s => .ok (dialect.quote s)
  | .obj fields => do (← QualifiedName.ofFields fields).resolve dialect
  | .arr _ => .error .identifierNestedArray
  | other => .error (.identifierInvalid other.kind)

/-- The text of an identifier that is not a list. -/
def resolveSingle (dialect : Dialect) : Identifier → Except TemplateError String
  | .name s => .ok (dialect.quote s)
  | .qualified path => path.resolve dialect
  | .json j => resolveJson dialect j
  | .list _ => .error .identifierNestedArray

/-- The texts of the items of a list, joined; the first item at fault gives the error. -/
def joinItems (items : List (Except TemplateError String)) : Except TemplateError String := do
  return ", ".intercalate (← items.mapM id)

/-- The text of an identifier in a dialect. -/
def resolve (dialect : Dialect) : Identifier → Except TemplateError String
  | .list items => joinItems (items.map (resolveSingle dialect))
  | .json (.arr items) => joinItems (items.map (resolveJson dialect))
  | single => resolveSingle dialect single

end Identifier

end PooledSql
