import PooledSql.Json.Grammar

/-!
# Reading JSON text

`Json.parse` gives a draft its values. A numeral becomes an integer when it is written as one
and fits sixty-four bits, else a double; paired surrogates become one character and an unpaired
one is refused; of a repeated key the last value stays; a text nested too deeply is refused.

Doubles are read quickly rather than nearest: the digits that fit sixty-four bits are rounded to
a double, which is then multiplied or divided by a power of ten and rounded again.
-/

namespace PooledSql.Json

/-- The largest significand that the reader accumulates. -/
def significandMax : Nat := 0xFFFFFFFFFFFFFFFF

/-- The largest written exponent. -/
def exponentMax : Nat := 0x7FFFFFFF

namespace Numeral

/-- Append digits to a significand as long as it fits; also how many digits were left over. -/
def accumulate (significand : Nat) : List Nat → Nat × Nat
  | [] => (significand, 0)
  | d :: rest =>
    if significandMax < significand * 10 + d then (significand, rest.length + 1)
    else accumulate (significand * 10 + d) rest

/-- The value of a list of digits. -/
def ofDigits (ds : List Nat) : Nat := ds.foldl (fun n d => n * 10 + d) 0

/-- The power `10 ^ k`, rounded to a double. -/
def powerOfTen (k : Nat) : Binary64 := Binary64.ofNat (Nat.pow 10 k)

/-- A double times a power of ten, in steps of at most `10 ^ 308`, each rounded. There is no
result when the number grows beyond the doubles. -/
def scaleBy : Nat → Binary64 → Int → Option Binary64
  | 0, x, _ => some x
  | fuel + 1, x, e =>
    if e.natAbs ≤ 308 then
      if 0 ≤ e then
        let product := x.mul (powerOfTen e.natAbs)
        if product.isFinite then some product else none
      else some (x.div (powerOfTen e.natAbs))
    else if x.isZero then some x
    else if 0 ≤ e then none
    else scaleBy fuel (x.div (powerOfTen 308)) (e + 308)

/-- The significand times a power of ten as a double with the given sign. Three steps take
every significand down to zero. -/
def scaled (negative : Bool) (significand : Nat) (e : Int) : Option Binary64 :=
  (scaleBy 4 (Binary64.ofNat significand) e).map (·.withSign negative)

/-- The numeral as a double. -/
def float? (n : Numeral) : Option Binary64 :=
  let (significand, dropped) := accumulate 0 n.whole
  let fraction := n.fraction.getD []
  let (significand, unread) := accumulate significand fraction
  let point : Int := (dropped : Int) - (fraction.length - unread : Nat)
  match n.exponent with
  | none => scaled n.negative significand point
  | some (negative, ds) =>
    let e := ofDigits ds
    if exponentMax < e then
      if significand ≠ 0 ∧ negative = false then none
      else some (Binary64.ofMagnitude n.negative 0)
    else scaled n.negative significand (if negative then point - e else point + e)

/-- The value of a numeral. Negative zero is a double. -/
def value? (n : Numeral) : Option Number :=
  match n.fraction, n.exponent with
  | none, none =>
    let i : Int := ofDigits n.whole
    if n.negative then
      if i ≠ 0 ∧ -i ∈ IntRange.int64 then some (.int (-i)) else n.float?.map .float
    else if i ∈ IntRange.uint64 then some (.int i) else n.float?.map .float
  | _, _ => n.float?.map .float

end Numeral

/-- Replace each pair of surrogates by the character it stands for; an unpaired surrogate has no
meaning. -/
def joinSurrogates : List Nat → Option (List Char)
  | [] => some []
  | code :: rest =>
    if 0xD800 ≤ code ∧ code < 0xDC00 then
      match rest with
      | low :: rest =>
        if 0xDC00 ≤ low ∧ low < 0xE000 then
          (joinSurrogates rest).map
            (Char.ofNat (0x10000 + (code - 0xD800) * 0x400 + (low - 0xDC00)) :: ·)
        else none
      | [] => none
    else if 0xDC00 ≤ code ∧ code < 0xE000 then none
    else (joinSurrogates rest).map (Char.ofNat code :: ·)

/-- The text that a string's code points spell. -/
def text? (codes : List Nat) : Option String := (joinSurrogates codes).map String.ofList

mutual

/-- The document that a draft stands for. -/
def ofDraft? : Draft → Option Json
  | .null => some .null
  | .bool b => some (.bool b)
  | .number n => n.value?.map .num
  | .string codes => (text? codes).map .str
  | .array items => (ofItems? items).map .arr
  | .object fields => (ofFields? fields []).map .obj

def ofItems? : List Draft → Option (List Json)
  | [] => some []
  | d :: rest => do some ((← ofDraft? d) :: (← ofItems? rest))

/-- Add fields in the order they are written, so that the last of equal keys wins. -/
def ofFields? : List (List Nat × Draft) → List (String × Json) → Option (List (String × Json))
  | [], found => some found
  | (codes, d) :: rest, found => do
    let key ← text? codes
    let value ← ofDraft? d
    ofFields? rest (insertField key value found)

end

/-- Texts must be nested less deeply than this. -/
def depthLimit : Nat := 128

/-- The document that a text stands for, if it stands for one. -/
def parse (text : String) : Option Json := do
  let draft ← Draft.read text.toList
  if draft.depth < depthLimit then ofDraft? draft else none

end PooledSql.Json
