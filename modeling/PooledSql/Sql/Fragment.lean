import PooledSql.Sql.Batch

/-!
# Fragments

A fragment is a sequence of chunks in which no text is empty and no two texts stand next to each
other: neighbouring texts are fused whenever chunks are added. Fragments are built from literal
strings with arguments between them, from brace templates, and from other fragments.

A fragment compiles to a query and its parameters. Each chunk adds its text to the query and its
values to the parameters, whose number so far numbers the next placeholder.
-/

namespace PooledSql

/-- Part of a statement, or a whole one. -/
structure Fragment where
  chunks : List Chunk

/-- A statement ready to run: its text and the values of its placeholders. -/
structure CompiledQuery where
  query : String
  params : List Value
  deriving Repr

/-- The text of a chunk and the parameters after it. -/
def Chunk.compile (dialect : Dialect) (params : List Value) :
    Chunk → Except TemplateError (String × List Value)
  | .text s | .raw s => .ok (s, params)
  | .default => .ok (Batch.defaultWord, params)
  | .identifier i => do return (← i.resolve dialect, params)
  | .param v => .ok (dialect.placeholder (params.length + 1), params ++ [v])
  | .values batch => Batch.compile dialect params batch

namespace Fragment

def empty : Fragment := ⟨[]⟩

def isEmpty (f : Fragment) : Bool := f.chunks.isEmpty

/-- Add text at the end of a list of chunks, fused with a text that stands there. -/
def addText (s : String) : List Chunk → List Chunk
  | [] => if s = "" then [] else [.text s]
  | [.text last] => [.text (last ++ s)]
  | [c] => if s = "" then [c] else [c, .text s]
  | c :: d :: rest => c :: addText s (d :: rest)

/-- Add text at the end. -/
def pushText (f : Fragment) (s : String) : Fragment := ⟨addText s f.chunks⟩

/-- Add a chunk at the end; text is fused. -/
def pushChunk (f : Fragment) : Chunk → Fragment
  | .text s => f.pushText s
  | c => ⟨f.chunks ++ [c]⟩

/-- Add the chunks of another fragment. -/
def append (f g : Fragment) : Fragment := g.chunks.foldl pushChunk f

instance : Append Fragment := ⟨append⟩

/-- Add an argument at the end. A batch is checked before it is added. -/
def pushArg (f : Fragment) : Arg → Except TemplateError Fragment
  | .value v => .ok (f.pushChunk (.param v))
  | .chunk (.values batch) => do
    Batch.check batch
    return f.pushChunk (.values batch)
  | .chunk c => .ok (f.pushChunk c)
  | .fragment chunks => .ok (f.append ⟨chunks⟩)
  | .undefined => .error .undefinedParameter
  | .unsupported kind => .error (.unsupportedParameter kind)

/-- Add arguments, each followed by a literal string. -/
def pushPairs : Fragment → List (Arg × String) → Except TemplateError Fragment
  | f, [] => .ok f
  | f, (arg, s) :: rest => do pushPairs ((← f.pushArg arg).pushText s) rest

/-- The fragment of literal strings with an argument between each two. -/
def interleave (strings : List String) (args : List Arg) : Except TemplateError Fragment :=
  match strings with
  | [] => .error (.argumentCount 0 args.length)
  | first :: rest =>
    if rest.length ≠ args.length then .error (.argumentCount rest.length args.length)
    else (empty.pushText first).pushPairs (args.zip rest)

/-- The fragment of one literal string. -/
def literal (s : String) : Fragment := empty.pushText s

/-- Add fragments, each behind the separator. -/
def joinOnto (separator : String) (f : Fragment) (rest : List Fragment) : Fragment :=
  rest.foldl (fun f g => (f.pushText separator).append g) f

/-- Fragments with a separator between each two. -/
def join (separator : String) : List Fragment → Fragment
  | [] => empty
  | first :: rest => joinOnto separator (empty.append first) rest

/-- The texts of chunks in order, joined, and the parameters after them. -/
def compileChunks (dialect : Dialect) :
    List Value → List Chunk → Except TemplateError (String × List Value)
  | params, [] => .ok ("", params)
  | params, c :: rest => do
    let (text, params) ← c.compile dialect params
    let (texts, params) ← compileChunks dialect params rest
    return (text ++ texts, params)

/-- The statement that a fragment stands for in a dialect. -/
def compile (f : Fragment) (dialect : Dialect) : Except TemplateError CompiledQuery := do
  let (query, params) ← compileChunks dialect [] f.chunks
  return ⟨query, params⟩

end Fragment

end PooledSql
