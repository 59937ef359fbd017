import PooledSql.Sql.Identifier

/-!
# Identifiers as documents

Every identifier can be spelled as a document: a name as a text, a structured name as an object
with the parts it has, a list as an array, and a document as itself. It makes no difference
whether an identifier or its document is written into a statement: both have the same text, or the
same fault, in every dialect.
-/

namespace PooledSql

namespace QualifiedName

/-- A part of a structured name as the fields of an object: one, or none if the part is absent. -/
def partFields (key : String) (part : Option String) : List (String × Json) :=
  part.toList.map fun s => (key, .str s)

/-- The parts of a structured name as the fields of an object. -/
def fields (name : QualifiedName) : List (String × Json) :=
  partFields "as" name.aliasName ++ partFields "column" name.column ++
    partFields "schema" name.schema ++ partFields "table" name.table

end QualifiedName

namespace Identifier

mutual

/-- The document that spells an identifier. -/
def toJson : Identifier → Json
  | .name s => .str s
  | .qualified path => .obj path.fields
  | .list items => .arr (toJsonItems items)
  | .json j => j

def toJsonItems : List Identifier → List Json
  | [] => []
  | i :: rest => i.toJson :: toJsonItems rest

end

@[simp] theorem toJsonItems_eq_map (items : List Identifier) :
    toJsonItems items = items.map toJson := by
  induction items with
  | nil => rfl
  | cons i rest ih => rw [toJsonItems, ih, List.map_cons]

end Identifier

/-! ## Reading a structured name back -/

namespace QualifiedName

@[simp] theorem lookup_partFields_self (key : String) (part : Option String) :
    (partFields key part).lookup key = part.map .str := by
  cases part <;> simp [partFields]

theorem lookup_partFields_of_ne {key other : String} (h : key ≠ other) (part : Option String) :
    (partFields other part).lookup key = none := by
  cases part <;> simp [partFields, h]

/-- A part that is absent or a text is read as it is. -/
theorem field_of_lookup {fields : List (String × Json)} {key : String} {part : Option String}
    (h : fields.lookup key = part.map .str) : field fields key = .ok part := by
  rw [field, h]
  cases part <;> rfl

/-- The fields of a structured name spell that name. -/
theorem ofFields_fields (name : QualifiedName) : ofFields name.fields = .ok name := by
  have hschema : field name.fields "schema" = .ok name.schema :=
    field_of_lookup (by simp [fields, List.lookup_append, lookup_partFields_of_ne])
  have htable : field name.fields "table" = .ok name.table :=
    field_of_lookup (by simp [fields, List.lookup_append, lookup_partFields_of_ne])
  have hcolumn : field name.fields "column" = .ok name.column :=
    field_of_lookup (by simp [fields, List.lookup_append, lookup_partFields_of_ne])
  have halias : field name.fields "as" = .ok name.aliasName :=
    field_of_lookup (by simp [fields, List.lookup_append, lookup_partFields_of_ne])
  rw [ofFields, hschema, htable, hcolumn, halias]
  rfl

end QualifiedName

/-! ## Writing a document -/

namespace Identifier

variable (dialect : Dialect)

/-- As the item of a list, an identifier may be replaced by its document: a list in a list is the
same fault as an array in an array. -/
theorem resolveJson_toJson (i : Identifier) :
    resolveJson dialect i.toJson = resolveSingle dialect i := by
  cases i with
  | name s => rw [toJson, resolveJson, resolveSingle]
  | qualified path =>
      rw [toJson, resolveJson, QualifiedName.ofFields_fields, resolveSingle]
      rfl
  | list items => rw [toJson, resolveJson, resolveSingle]
  | json j => rw [toJson, resolveSingle]

/-- An identifier and its document have the same text or the same fault. -/
theorem resolve_json_toJson (i : Identifier) :
    (Identifier.json i.toJson).resolve dialect = i.resolve dialect := by
  cases i with
  | name s => exact resolveJson_toJson dialect (.name s)
  | qualified path => exact resolveJson_toJson dialect (.qualified path)
  | list items =>
      have hitems : (toJsonItems items).map (resolveJson dialect) =
          items.map (resolveSingle dialect) := by
        rw [toJsonItems_eq_map, List.map_map]
        exact List.map_congr_left fun i _ => resolveJson_toJson dialect i
      rw [toJson, resolve, resolve, hitems]
  | json j => rw [toJson]

example : toJson (.list [.qualified ⟨some "s", some "t", none, none⟩, .json (.arr [.null])]) =
    .arr [.obj [("schema", .str "s"), ("table", .str "t")], .arr [.null]] := by cbv

end Identifier

end PooledSql
