import PooledSql.Sql.Error

/-!
# Structured names

A name in a database has up to three parts, which form a path, and may get an alias. Not every
choice of parts makes sense; `QualifiedName.check` says which do.
-/

namespace PooledSql

/-- A structured name: a path of up to three parts and an alias. -/
structure QualifiedName where
  schema : Option String
  table : Option String
  column : Option String
  aliasName : Option String
  deriving DecidableEq, Repr

namespace QualifiedName

/-- The parts of the path that are present, from the outermost. -/
def path (name : QualifiedName) : List String :=
  name.schema.toList ++ name.table.toList ++ name.column.toList

/-- A path needs a part, a column of a schema needs its table, and a schema has no alias. -/
def check (name : QualifiedName) : Except TemplateError Unit :=
  if name.path = [] then
    .error (if name.aliasName.isSome then .identifierOnlyAs else .identifierEmpty)
  else if name.schema.isSome ∧ name.column.isSome ∧ name.table.isNone then
    .error .identifierNeedTable
  else if name.aliasName.isSome ∧ name.column.isNone ∧ name.table.isNone then
    .error .identifierAliasTarget
  else .ok ()

end QualifiedName

end PooledSql
