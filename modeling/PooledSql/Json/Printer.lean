import PooledSql.Json.Basic

/-!
# JSON text

`Json.render` writes a document without blanks. Strings escape the quote, the backslash and the
control characters below U+0020; doubles are written with the fewest digits that read back.
-/

namespace PooledSql.Json

/-- Doubles in documents: positional from `0.00001` up to `10 ^ 16`, always marked as doubles by
a point or an exponent. A document holds no other doubles than finite ones. -/
def floatLayout : FloatLayout where
  positional := some (-5, 16)
  pointZero := true
  tie := .toEven
  nan := "null".toList
  infinity := "null".toList

/-- The lower-case hexadecimal digit of a number below sixteen. -/
def hexDigit (n : Nat) : Char := Nat.digitChar n

/-- How a character is written between quotes. -/
def escape (c : Char) : List Char :=
  if c = '"' then ['\\', '"']
  else if c = '\\' then ['\\', '\\']
  else if c = '\x08' then ['\\', 'b']
  else if c = '\x0c' then ['\\', 'f']
  else if c = '\n' then ['\\', 'n']
  else if c = '\r' then ['\\', 'r']
  else if c = '\t' then ['\\', 't']
  else if c.toNat < 0x20 then
    ['\\', 'u', '0', '0', hexDigit (c.toNat / 16), hexDigit (c.toNat % 16)]
  else [c]

/-- A text between quotes. -/
def quoted (s : List Char) : List Char := '"' :: s.flatMap escape ++ ['"']

/-- The text of a number. -/
def Number.chars : Number → List Char
  | .int i => Digits.ofInt i
  | .float x => floatLayout.render x

mutual

/-- The characters of a document's text. -/
def chars : Json → List Char
  | .null => ['n', 'u', 'l', 'l']
  | .bool true => ['t', 'r', 'u', 'e']
  | .bool false => ['f', 'a', 'l', 's', 'e']
  | .num n => n.chars
  | .str s => quoted s.toList
  | .arr [] => ['[', ']']
  | .arr (j :: rest) => '[' :: (j.chars ++ itemsChars rest)
  | .obj [] => ['{', '}']
  | .obj ((k, j) :: rest) => '{' :: (quoted k.toList ++ ':' :: (j.chars ++ fieldsChars rest))

/-- The items after the first, each behind a comma, and the closing bracket. -/
def itemsChars : List Json → List Char
  | [] => [']']
  | j :: rest => ',' :: (j.chars ++ itemsChars rest)

/-- The fields after the first, each behind a comma, and the closing brace. -/
def fieldsChars : List (String × Json) → List Char
  | [] => ['}']
  | (k, j) :: rest => ',' :: (quoted k.toList ++ ':' :: (j.chars ++ fieldsChars rest))

end

/-- The text of a document. -/
def render (j : Json) : String := String.ofList j.chars

end PooledSql.Json
