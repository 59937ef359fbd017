import PooledSql.Numeric.Layout
import PooledSql.Time.Calendar

/-!
# Timestamps and their text

A timestamp is an instant of universal time to the nanosecond. A second at the end of a minute
may hold a leap second, counted as nanoseconds beyond the first thousand million.

`Timestamp.render` writes the date-time form of the internet with a final `Z` and as many places
of the second as needed, in groups of three. `Timestamp.parse` reads that form with any offset.
-/

namespace PooledSql

/-- Seconds since the start of 1970 and nanoseconds within the second. -/
structure Timestamp where
  seconds : Int
  nanos : Nat
  /-- Only the last second of a minute can be followed by a leap second. -/
  nanos_lt : nanos < 1000000000 ∨ (nanos < 2000000000 ∧ seconds % 60 = 59) := by omega
  deriving DecidableEq, Repr

namespace Timestamp

/-- The count of the first of January 1970. -/
def epoch : Int := 719528

/-- The timestamp with these parts, if they make one. -/
def ofParts? (seconds : Int) (nanos : Nat) : Option Timestamp :=
  if h : nanos < 1000000000 ∨ (nanos < 2000000000 ∧ seconds % 60 = 59) then
    some ⟨seconds, nanos, h⟩
  else none

/-- The text of a year: four digits, or a sign and at least four digits outside of 0 to 9999. -/
def yearChars (year : Int) : List Char :=
  if 0 ≤ year ∧ year ≤ 9999 then Digits.padded 4 year.toNat
  else (if year < 0 then '-' else '+') :: Digits.padded 4 year.natAbs

/-- The places of a second: none, three, six or nine. -/
def fractionChars (nanos : Nat) : List Char :=
  if nanos = 0 then []
  else if nanos % 1000000 = 0 then '.' :: Digits.padded 3 (nanos / 1000000)
  else if nanos % 1000 = 0 then '.' :: Digits.padded 6 (nanos / 1000)
  else '.' :: Digits.padded 9 nanos

/-- The characters of a timestamp's text. A leap second is the sixtieth. -/
def chars (t : Timestamp) : List Char :=
  let date := Date.ofDays (epoch + t.seconds / 86400)
  let time := (t.seconds % 86400).toNat
  let leap := 1000000000 ≤ t.nanos
  let second := time % 60 + if leap then 1 else 0
  let nanos := t.nanos - if leap then 1000000000 else 0
  yearChars date.year ++ '-' :: Digits.padded 2 date.month ++ '-' :: Digits.padded 2 date.day
    ++ 'T' :: Digits.padded 2 (time / 3600) ++ ':' :: Digits.padded 2 (time / 60 % 60)
    ++ ':' :: Digits.padded 2 second ++ fractionChars nanos ++ ['Z']

def render (t : Timestamp) : String := String.ofList t.chars

/-- The value of a decimal digit. -/
def digit? (c : Char) : Option Nat :=
  if '0' ≤ c ∧ c ≤ '9' then some (c.toNat - '0'.toNat) else none

/-- A number of exactly `width` digits at the front of the text. -/
def number : Nat → Nat → List Char → Option (Nat × List Char)
  | 0, value, text => some (value, text)
  | _ + 1, _, [] => none
  | width + 1, value, c :: rest => do number width (value * 10 + (← digit? c)) rest

/-- One given character at the front of the text. -/
def expect (c : Char) : List Char → Option (List Char)
  | [] => none
  | d :: rest => if c = d then some rest else none

/-- The decimal places of a second in nanoseconds: at least one digit, those after the ninth
without effect. -/
def places : Nat → Nat → List Char → Nat × List Char
  | _, value, [] => (value, [])
  | unit, value, c :: rest =>
    match digit? c with
    | some d => places (unit / 10) (value + d * unit) rest
    | none => (value, c :: rest)

/-- The fraction of a second, if there is a point. -/
def fraction : List Char → Option (Nat × List Char)
  | '.' :: c :: rest =>
    if (digit? c).isSome then some (places 100000000 0 (c :: rest)) else none
  | ['.'] => none
  | text => some (0, text)

/-- The offset from universal time in seconds: `Z`, or a sign with hours and minutes. -/
def offset : List Char → Option (Int × List Char)
  | [] => none
  | sign :: rest =>
    if sign = 'Z' ∨ sign = 'z' then some (0, rest)
    else if sign = '+' ∨ sign = '-' ∨ sign = '−' then do
      let (hours, rest) ← number 2 0 rest
      let rest ← expect ':' rest
      let (minutes, rest) ← number 2 0 rest
      if 59 < minutes then none
      else
        let seconds : Int := hours * 3600 + minutes * 60
        some (if sign = '+' then seconds else -seconds, rest)
    else none

/-- The day and the time of day may be separated by the letter T of either case or a blank. -/
def separator : List Char → Option (List Char)
  | [] => none
  | c :: rest => if c = 'T' ∨ c = 't' ∨ c = ' ' then some rest else none

/-- The largest offset from universal time: 23 hours and 59 minutes. -/
def maxOffset : Int := (23 * 60 + 59) * 60

/-- The timestamp that a text names. -/
def parseChars (text : List Char) : Option Timestamp := do
  let (year, text) ← number 4 0 text
  let (month, text) ← number 2 0 (← expect '-' text)
  let (day, text) ← number 2 0 (← expect '-' text)
  let (hour, text) ← number 2 0 (← separator text)
  let (minute, text) ← number 2 0 (← expect ':' text)
  let (second, text) ← number 2 0 (← expect ':' text)
  let (nanos, text) ← fraction text
  let (offset, text) ← offset text
  let date : Date := ⟨year, month, day⟩
  if text = [] ∧ date.exists? ∧ hour < 24 ∧ minute < 60 ∧ second ≤ 60
      ∧ offset.natAbs ≤ maxOffset then
    let leap := second = 60
    let seconds : Int := (date.toDays - epoch) * 86400 + hour * 3600 + minute * 60
      + (if leap then 59 else second) - offset
    ofParts? seconds (nanos + if leap then 1000000000 else 0)
  else none

def parse (text : String) : Option Timestamp := parseChars text.toList

end Timestamp

end PooledSql
