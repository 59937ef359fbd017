/-!
# Template errors

Why a fragment cannot be built or compiled. Rows, columns and positions count from zero.
-/

namespace PooledSql

inductive TemplateError where
  | undefinedParameter
  | unsupportedParameter (kind : String)
  | rawArray
  | rawObject
  | rawNull
  | rawUndefined
  | identifierUndefinedField (field : String)
  | identifierFieldType (field found : String)
  | identifierEmpty
  | identifierNeedTable
  | identifierOnlyAs
  | identifierAliasTarget
  | identifierNestedArray
  | identifierInvalid (found : String)
  | valuesEmpty
  | valuesEmptyRow (row : Nat)
  | valuesRowLength (row expected found : Nat)
  | valuesInvalidItem (row column : Nat) (kind : String)
  | argumentCount (expected found : Nat)
  /-- The position is counted in bytes of the template. -/
  | unmatchedBrace (brace : Char) (position : Nat)
  deriving DecidableEq, Repr

/-- The wording of an error. -/
def TemplateError.message : TemplateError → String
  | undefinedParameter => "can't specify undefined as parameter, maybe you meant default"
  | unsupportedParameter kind => "can't specify " ++ kind ++ " as parameter"
  | rawArray => "raw value can't be an array"
  | rawObject => "raw value can't be an object"
  | rawNull => "raw value can't be null"
  | rawUndefined => "raw value can't be undefined"
  | identifierUndefinedField field =>
    "identifier field `" ++ field ++ "` is undefined, omit it instead"
  | identifierFieldType field found =>
    "identifier field `" ++ field ++ "` must be a string, found " ++ found
  | identifierEmpty =>
    "identifier object: need at least one parameter of schema, table or column"
  | identifierNeedTable => "identifier object: need table when schema and column are set"
  | identifierOnlyAs => "identifier object: only as is set, need schema, table or column"
  | identifierAliasTarget => "identifier object: as needs column or table"
  | identifierNestedArray => "identifier arrays can't contain arrays"
  | identifierInvalid found => "identifier must be a string, object or array, found " ++ found
  | valuesEmpty => "values needs at least one row"
  | valuesEmptyRow row => "values row " ++ toString row ++ " is empty"
  | valuesRowLength row expected found =>
    "values row " ++ toString row ++ " has " ++ toString found ++ " items, expected "
      ++ toString expected
  | valuesInvalidItem row column kind =>
    "values row " ++ toString row ++ " item " ++ toString column ++ " can't be " ++ kind
  | argumentCount expected found =>
    "template has " ++ toString expected ++ " placeholders but " ++ toString found
      ++ " arguments"
  | unmatchedBrace brace position =>
    "unmatched `" ++ String.ofList [brace] ++ "` at byte " ++ toString position ++ " in template"

end PooledSql
