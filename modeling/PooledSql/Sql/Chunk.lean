import PooledSql.Sql.Identifier

/-!
# Chunks

A statement in the making is a sequence of chunks. A chunk is text, a bound parameter, an
identifier, a batch of rows, raw text, or the word `default`. An `Arg` is what may be put into a
template: a value, a chunk, a whole fragment, or one of two markers for input that means nothing.
-/

namespace PooledSql

mutual

/-- A piece of a statement. -/
inductive Chunk where
  | text (s : String)
  | param (v : Value)
  | identifier (i : Identifier)
  | values (rows : List (List Arg))
  | raw (s : String)
  | default

/-- What can be put into a template. -/
inductive Arg where
  | value (v : Value)
  | chunk (c : Chunk)
  | fragment (chunks : List Chunk)
  /-- A value that is missing. -/
  | undefined
  /-- Something that has no meaning in a statement. -/
  | unsupported (kind : String)

end

instance : Inhabited Chunk := ⟨.default⟩
instance : Inhabited Arg := ⟨.undefined⟩

/-- The word for the kind of a chunk. -/
def Chunk.kind : Chunk → String
  | .text _ => "text"
  | .param _ => "parameter"
  | .identifier _ => "identifier"
  | .values _ => "values"
  | .raw _ => "raw"
  | .default => "default"

namespace Arg

/-- The word for the kind of an argument. -/
def kind : Arg → String
  | .value v => v.kind
  | .chunk c => c.kind
  | .fragment _ => "fragment"
  | .undefined => "undefined"
  | .unsupported kind => kind

/-- The argument for an entry that was looked up in a document. -/
def ofLookup : Option Json → Arg
  | some j => .value (.ofJson j)
  | none => .undefined

/-- The raw text of an argument: a scalar, or text that is raw already. -/
def toRaw : Arg → Except TemplateError Chunk
  | .undefined => .error .rawUndefined
  | .value .null | .value (.json .null) => .error .rawNull
  | .value (.array _) | .value (.json (.arr _)) => .error .rawArray
  | .value v =>
    match v.toText with
    | some s => .ok (.raw s)
    | none => .error .rawObject
  | .chunk (.raw s) => .ok (.raw s)
  | .chunk _ | .fragment _ => .error .rawObject
  | .unsupported kind => .error (.unsupportedParameter kind)

end Arg

end PooledSql
