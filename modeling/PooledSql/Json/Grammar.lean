import PooledSql.Json.Basic

/-!
# The grammar of JSON text

Reading a text has two stages. This module does the first: `Draft.read` recognises the grammar
and returns a draft, in which numerals are still digits, strings may still hold unpaired
surrogates and keys may repeat. Giving a draft its values, and refusing those that have none, is
the work of `PooledSql.Json.Reader`.
-/

namespace PooledSql.Json

/-- A number as written. -/
structure Numeral where
  negative : Bool
  whole : List Nat
  /-- The digits behind the point. -/
  fraction : Option (List Nat)
  /-- Whether the exponent has a minus sign, and its digits. -/
  exponent : Option (Bool × List Nat)
  deriving DecidableEq, Repr

/-- A text by its grammar alone. Strings are lists of code points, surrogates included. -/
inductive Draft where
  | null
  | bool (b : Bool)
  | number (n : Numeral)
  | string (codes : List Nat)
  | array (items : List Draft)
  | object (fields : List (List Nat × Draft))
  deriving Inhabited

namespace Draft

def isBlank (c : Char) : Bool := c == ' ' || c == '\n' || c == '\t' || c == '\r'

/-- The text behind leading blanks. -/
def skip : List Char → List Char
  | [] => []
  | c :: rest => if isBlank c then skip rest else c :: rest

/-- The value of a decimal digit. -/
def digit? (c : Char) : Option Nat :=
  if '0' ≤ c ∧ c ≤ '9' then some (c.toNat - '0'.toNat) else none

/-- The value of a hexadecimal digit of either case. -/
def hexDigit? (c : Char) : Option Nat :=
  if '0' ≤ c ∧ c ≤ '9' then some (c.toNat - '0'.toNat)
  else if 'a' ≤ c ∧ c ≤ 'f' then some (c.toNat - 'a'.toNat + 10)
  else if 'A' ≤ c ∧ c ≤ 'F' then some (c.toNat - 'A'.toNat + 10)
  else none

/-- The longest run of decimal digits at the front. -/
def scanDigits : List Char → List Nat × List Char
  | [] => ([], [])
  | c :: rest =>
    match digit? c with
    | some d => let (ds, rest') := scanDigits rest; (d :: ds, rest')
    | none => ([], c :: rest)

/-- At least one digit. -/
def scanDigits₁ (text : List Char) : Option (List Nat × List Char) :=
  match scanDigits text with
  | ([], _) => none
  | found => some found

/-- The digits behind a point, if there is a point. -/
def scanFraction : List Char → Option (Option (List Nat) × List Char)
  | '.' :: rest => (scanDigits₁ rest).map fun (ds, rest) => (some ds, rest)
  | rest => some (none, rest)

/-- The exponent part, if there is one. -/
def scanExponent : List Char → Option (Option (Bool × List Nat) × List Char)
  | [] => some (none, [])
  | c :: rest =>
    if c = 'e' ∨ c = 'E' then
      match rest with
      | '+' :: rest => (scanDigits₁ rest).map fun (ds, rest) => (some (false, ds), rest)
      | '-' :: rest => (scanDigits₁ rest).map fun (ds, rest) => (some (true, ds), rest)
      | rest => (scanDigits₁ rest).map fun (ds, rest) => (some (false, ds), rest)
    else some (none, c :: rest)

/-- A number behind its sign. A zero in front stands alone. -/
def scanNumeral (negative : Bool) (text : List Char) : Option (Numeral × List Char) := do
  let (whole, rest) ← scanDigits₁ text
  if 1 < whole.length ∧ whole.head? = some 0 then none
  else
    let (fraction, rest) ← scanFraction rest
    let (exponent, rest) ← scanExponent rest
    some (⟨negative, whole, fraction, exponent⟩, rest)

/-- The character that a one-letter escape stands for. -/
def escaped? (c : Char) : Option Nat :=
  if c = '"' ∨ c = '\\' ∨ c = '/' then some c.toNat
  else if c = 'b' then some 8
  else if c = 'f' then some 12
  else if c = 'n' then some 10
  else if c = 'r' then some 13
  else if c = 't' then some 9
  else none

/-- The four hexadecimal digits of an escape. -/
def hexCode? (a b c d : Char) : Option Nat := do
  let high := (← hexDigit? a) * 16 + (← hexDigit? b)
  let low := (← hexDigit? c) * 16 + (← hexDigit? d)
  some (high * 256 + low)

/-- The code points of a string up to its closing quote. -/
def scanString : List Char → Option (List Nat × List Char)
  | [] => none
  | '"' :: rest => some ([], rest)
  | '\\' :: 'u' :: a :: b :: c :: d :: rest => do
    let code ← hexCode? a b c d
    let (codes, rest) ← scanString rest
    some (code :: codes, rest)
  | '\\' :: c :: rest => do
    let code ← escaped? c
    let (codes, rest) ← scanString rest
    some (code :: codes, rest)
  | c :: rest =>
    if c.toNat < 0x20 ∨ c = '\\' then none
    else do
      let (codes, rest) ← scanString rest
      some (c.toNat :: codes, rest)

/-- A field's key, the colon and the blanks behind it. -/
def scanKey : List Char → Option (List Nat × List Char)
  | '"' :: rest => do
    let (codes, rest) ← scanString rest
    match skip rest with
    | ':' :: rest => some (codes, skip rest)
    | _ => none
  | _ => none

mutual

/-- One value at the front of the text, which starts with no blank. The first argument bounds
the number of nested calls; the length of the text is enough. -/
def scanValue : Nat → List Char → Option (Draft × List Char)
  | 0, _ => none
  | fuel + 1, text =>
    match text with
    | [] => none
    | 'n' :: 'u' :: 'l' :: 'l' :: rest => some (.null, rest)
    | 't' :: 'r' :: 'u' :: 'e' :: rest => some (.bool true, rest)
    | 'f' :: 'a' :: 'l' :: 's' :: 'e' :: rest => some (.bool false, rest)
    | '"' :: rest => (scanString rest).map fun (codes, rest) => (.string codes, rest)
    | '[' :: rest =>
      match skip rest with
      | ']' :: rest => some (.array [], rest)
      | rest => do
        let (item, rest) ← scanValue fuel rest
        let (items, rest) ← scanItems fuel (skip rest)
        some (.array (item :: items), rest)
    | '{' :: rest =>
      match skip rest with
      | '}' :: rest => some (.object [], rest)
      | rest => do
        let (k, rest) ← scanKey rest
        let (v, rest) ← scanValue fuel rest
        let (fields, rest) ← scanFields fuel (skip rest)
        some (.object ((k, v) :: fields), rest)
    | '-' :: rest => (scanNumeral true rest).map fun (n, rest) => (.number n, rest)
    | rest => (scanNumeral false rest).map fun (n, rest) => (.number n, rest)

/-- What follows an item of an array: more items, or the closing bracket. -/
def scanItems : Nat → List Char → Option (List Draft × List Char)
  | 0, _ => none
  | fuel + 1, text =>
    match text with
    | ']' :: rest => some ([], rest)
    | ',' :: rest => do
      let (item, rest) ← scanValue fuel (skip rest)
      let (items, rest) ← scanItems fuel (skip rest)
      some (item :: items, rest)
    | _ => none

/-- What follows a field of an object: more fields, or the closing brace. -/
def scanFields : Nat → List Char → Option (List (List Nat × Draft) × List Char)
  | 0, _ => none
  | fuel + 1, text =>
    match text with
    | '}' :: rest => some ([], rest)
    | ',' :: rest => do
      let (k, rest) ← scanKey (skip rest)
      let (v, rest) ← scanValue fuel rest
      let (fields, rest) ← scanFields fuel (skip rest)
      some ((k, v) :: fields, rest)
    | _ => none

end

/-- The draft of a whole text: one value with nothing but blanks around it. -/
def read (text : List Char) : Option Draft :=
  match scanValue (text.length + 1) (skip text) with
  | some (draft, rest) => if skip rest = [] then some draft else none
  | none => none

mutual

/-- How deeply arrays and objects are nested; a scalar has depth zero. -/
def depth : Draft → Nat
  | .array items => depthItems items + 1
  | .object fields => depthFields fields + 1
  | _ => 0

def depthItems : List Draft → Nat
  | [] => 0
  | d :: rest => max d.depth (depthItems rest)

def depthFields : List (List Nat × Draft) → Nat
  | [] => 0
  | (_, d) :: rest => max d.depth (depthFields rest)

end

end Draft

end PooledSql.Json
