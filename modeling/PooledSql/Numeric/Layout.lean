import PooledSql.Numeric.Shortest

/-!
# Decimal text

How natural numbers, integers and doubles are written. A `FloatLayout` records the decisions of
one output format; the digits themselves come from `Binary64.shortest`.
-/

namespace PooledSql

namespace Digits

/-- The decimal digits of a natural number, most significant first. -/
def ofNat (n : Nat) : List Char := Nat.toDigits 10 n

/-- The decimal digits of a natural number, with zeros in front up to the width. -/
def padded (width n : Nat) : List Char :=
  List.replicate (width - (ofNat n).length) '0' ++ ofNat n

/-- The decimal text of an integer: a minus sign when negative, then the digits. -/
def ofInt (i : Int) : List Char :=
  if i < 0 then '-' :: ofNat i.natAbs else ofNat i.natAbs

end Digits

/-- The decisions of one text format for doubles. -/
structure FloatLayout where
  /-- Exponents of the leading digit written without an exponent part, from the first number
  up to but not including the second; `none` when there never is an exponent part. -/
  positional : Option (Int × Int)
  /-- A whole number is written with `.0` behind it. -/
  pointZero : Bool
  /-- Which of two equally near shortest decimals is written. -/
  tie : Tie
  nan : List Char
  infinity : List Char

namespace FloatLayout

/-- The digits with the point where the exponent puts it. -/
def plain (pointZero : Bool) (digits : List Char) (exponent : Int) : List Char :=
  if 0 ≤ exponent then
    digits ++ List.replicate exponent.toNat '0' ++ (if pointZero then ".0".toList else [])
  else
    let places := (-exponent).toNat
    let padded := List.replicate (places + 1 - digits.length) '0' ++ digits
    padded.take (padded.length - places) ++ '.' :: padded.drop (padded.length - places)

/-- One digit before the point, the rest behind it, and the exponent with its sign. -/
def scientific (digits : List Char) (leading : Int) : List Char :=
  let mantissa := match digits with
    | d :: e :: rest => d :: '.' :: e :: rest
    | short => short
  mantissa ++ 'e' :: (if leading < 0 then '-' else '+') :: Digits.ofNat leading.natAbs

/-- The text of the magnitude of a finite double. -/
def magnitude (layout : FloatLayout) (x : Binary64) : List Char :=
  let d := x.shortest layout.tie
  let digits := Digits.ofNat d.digits
  let leading := d.exponent + digits.length - 1
  match layout.positional with
  | some (first, last) =>
    if first ≤ leading ∧ leading < last then plain layout.pointZero digits d.exponent
    else scientific digits leading
  | none => plain layout.pointZero digits d.exponent

/-- The text of a double. -/
def render (layout : FloatLayout) (x : Binary64) : List Char :=
  if x.isNaN then layout.nan
  else
    let body := if x.isFinite then layout.magnitude x else layout.infinity
    if x.negative then '-' :: body else body

end FloatLayout

end PooledSql
