import PooledSql.Sql.Fragment

/-!
# Brace templates

A template marks the places of its arguments by `{}`, written here as a pair of braces; a brace
that is text is doubled. `Template.split` gives the literal strings around the places, and
`Fragment.format` puts arguments into them.
-/

namespace PooledSql

namespace Template

/-- Put a character in front of the first string. -/
def prependChar (c : Char) : List (List Char) → List (List Char)
  | [] => [[c]]
  | s :: rest => (c :: s) :: rest

/-- The strings around the places of a template whose first byte has the given position. The
first brace that is not part of a pair is the error. -/
def splitFrom : Nat → List Char → Except TemplateError (List (List Char))
  | _, [] => .ok [[]]
  | position, '{' :: '{' :: rest => return prependChar '{' (← splitFrom (position + 2) rest)
  | position, '{' :: '}' :: rest => return [] :: (← splitFrom (position + 2) rest)
  | position, '{' :: _ => .error (.unmatchedBrace '{' position)
  | position, '}' :: '}' :: rest => return prependChar '}' (← splitFrom (position + 2) rest)
  | position, '}' :: _ => .error (.unmatchedBrace '}' position)
  | position, c :: rest => return prependChar c (← splitFrom (position + c.utf8Size) rest)

/-- The literal strings around the places of a template. -/
def split (template : String) : Except TemplateError (List String) := do
  return (← splitFrom 0 template.toList).map String.ofList

/-- A literal string as part of a template: its braces are doubled. -/
def encodeString (s : List Char) : List Char :=
  s.flatMap fun c => if c = '{' ∨ c = '}' then [c, c] else [c]

/-- The template with the given strings around its places. -/
def encode (strings : List String) : String :=
  String.ofList (['{', '}'].intercalate (strings.map fun s => encodeString s.toList))

end Template

/-- Put arguments into the places of a template. -/
def Fragment.format (template : String) (args : List Arg) : Except TemplateError Fragment := do
  interleave (← Template.split template) args

end PooledSql
