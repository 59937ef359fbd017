import PooledSql.Numeric.Binary64

/-!
# The shortest decimal of a double

Of the decimals that round to a given finite double, `Binary64.shortest` selects one with the
fewest digits and, among those, the nearest. All comparisons are exact comparisons of natural
numbers. How the digits are laid out is a separate matter, see `PooledSql.Numeric.Layout`.
-/

namespace PooledSql

/-- The number `digits * 10 ^ exponent`. -/
structure Decimal where
  digits : Nat
  exponent : Int
  deriving DecidableEq, Repr

/-- Which of two equally near candidates is taken. -/
inductive Tie where
  | toEven
  | up
  deriving DecidableEq, Repr

namespace Decimal

/-- Compare `a * 10 ^ i` with `b * 2 ^ j` exactly. -/
def compareScaled (a : Nat) (i : Int) (b : Nat) (j : Int) : Ordering :=
  compare ((a * Nat.pow 10 i.toNat) <<< (-j).toNat) ((b * Nat.pow 10 (-i).toNat) <<< j.toNat)

/-- Move factors of ten from the digits into the exponent, at most `fuel` of them. -/
def stripZeros : Nat → Decimal → Decimal
  | 0, d => d
  | fuel + 1, d =>
    if d.digits ≠ 0 ∧ d.digits % 10 = 0 then stripZeros fuel ⟨d.digits / 10, d.exponent + 1⟩
    else d

end Decimal

namespace Binary64

/-- The decimal lies among the reals that round to the magnitude of `x`. The interval reaches
halfway to either neighbour; its ends belong to it when the significand is even. Below a power
of two the neighbour is only half as far away. -/
def readsBack (x : Binary64) (d : Decimal) : Bool :=
  let m := x.significand
  let lower := if x.fractionField = 0 ∧ x.exponentField > 1 then 4 * m - 1 else 4 * m - 2
  let closed := m % 2 == 0
  let above := Decimal.compareScaled d.digits d.exponent lower (x.scale - 2)
  let below := Decimal.compareScaled d.digits d.exponent (4 * m + 2) (x.scale - 2)
  (above == .gt || (closed && above == .eq)) && (below == .lt || (closed && below == .eq))

/-- The least `k` with the magnitude of `x` below `10 ^ k`, searched upwards from a bound that
the binary length gives. -/
def decimalMagnitude (x : Binary64) : Int :=
  let length : Int := (x.significand.log2 : Int) + x.scale
  let start := (length * 1233) / 4096 - 1
  let fits (k : Int) : Bool := Decimal.compareScaled 1 k x.significand x.scale == .gt
  if fits start then start
  else if fits (start + 1) then start + 1
  else if fits (start + 2) then start + 2
  else if fits (start + 3) then start + 3
  else start + 4

/-- The multiple of `10 ^ g` at or below the magnitude of `x`, in units of `10 ^ g`. -/
def floorOnGrid (x : Binary64) (g : Int) : Nat :=
  (x.ratio.1 * Nat.pow 10 (-g).toNat) / (x.ratio.2 * Nat.pow 10 g.toNat)

/-- The better of the two neighbours of `x` on the grid of multiples of `10 ^ g`, if one of them
rounds to `x`. -/
def candidate? (tie : Tie) (x : Binary64) (g : Int) : Option Decimal :=
  let low := x.floorOnGrid g
  match x.readsBack ⟨low, g⟩, x.readsBack ⟨low + 1, g⟩ with
  | true, true =>
    match Decimal.compareScaled (2 * low + 1) g (2 * x.significand) x.scale, tie with
    | .gt, _ => some ⟨low, g⟩
    | .lt, _ => some ⟨low + 1, g⟩
    | .eq, .up => some ⟨low + 1, g⟩
    | .eq, .toEven => some ⟨if low % 2 = 0 then low else low + 1, g⟩
  | true, false => some ⟨low, g⟩
  | false, true => some ⟨low + 1, g⟩
  | false, false => none

/-- Try grids of one, two, … digits; the first with a hit wins. After `fuel` grids the exact
decimal value of the magnitude stands in. -/
def search (tie : Tie) (x : Binary64) (g : Int) : Nat → Decimal
  | 0 => ⟨x.ratio.1 * Nat.pow 5 (-x.scale).toNat, -(-x.scale).toNat⟩
  | fuel + 1 =>
    match x.candidate? tie g with
    | some d => d
    | none => search tie x (g - 1) fuel

/-- The decimal with the fewest digits that rounds to the finite magnitude of `x`, without
trailing zeros among its digits. -/
def shortest (tie : Tie) (x : Binary64) : Decimal :=
  if x.significand = 0 then ⟨0, 0⟩
  else (x.search tie (x.decimalMagnitude - 1) 17).stripZeros 800

end Binary64

end PooledSql
