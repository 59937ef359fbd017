/-!
# Binary64 numbers

A double is kept as its 64 bits. A finite value is a natural number times a power of two, and
every operation computes the exact rational result first and rounds it once, to nearest with
ties to even. Nothing here goes through the machine's floating-point unit.
-/

namespace PooledSql

/-- A binary64 floating-point number, by its bits. -/
structure Binary64 where
  bits : UInt64
  deriving DecidableEq, Repr, Inhabited

/-- The integer nearest to `num / den`, a tie going to the even neighbour. -/
def roundToEven (num den : Nat) : Nat :=
  let q := num / den
  let r := num % den
  if 2 * r < den then q
  else if den < 2 * r then q + 1
  else if q % 2 = 0 then q else q + 1

namespace Binary64

/-- The sign bit is set. -/
def negative (x : Binary64) : Bool := x.bits >>> 63 == 1

/-- The eleven bits of the biased exponent. -/
def exponentField (x : Binary64) : Nat := ((x.bits >>> 52) &&& 0x7FF).toNat

/-- The fifty-two bits of the fraction. -/
def fractionField (x : Binary64) : Nat := (x.bits &&& 0xFFFFFFFFFFFFF).toNat

def isFinite (x : Binary64) : Bool := x.exponentField < 0x7FF

def isNaN (x : Binary64) : Bool := x.exponentField == 0x7FF && x.fractionField != 0

/-- The natural number `m` of a finite magnitude `m * 2 ^ q`. -/
def significand (x : Binary64) : Nat :=
  if x.exponentField = 0 then x.fractionField else 0x10000000000000 + x.fractionField

/-- The exponent `q` of a finite magnitude `m * 2 ^ q`. -/
def scale (x : Binary64) : Int :=
  if x.exponentField = 0 then -1074 else (x.exponentField : Int) - 1075

/-- Either zero. -/
def isZero (x : Binary64) : Bool := x.isFinite && x.significand == 0

/-- The numbers are equal. The two zeros are; what is not a number equals nothing. -/
def equal (x y : Binary64) : Bool :=
  !x.isNaN && !y.isNaN && (x.bits == y.bits || (x.isZero && y.isZero))

/-- A finite magnitude as a fraction of natural numbers. -/
def ratio (x : Binary64) : Nat × Nat :=
  (x.significand <<< x.scale.toNat, 1 <<< (-x.scale).toNat)

/-- The bits of positive infinity; every smaller number is a finite magnitude. -/
def infinityBits : Nat := 0x7FF0000000000000

/-- The number with the given sign and the magnitude whose bits are `magnitude`. -/
def ofMagnitude (sign : Bool) (magnitude : Nat) : Binary64 :=
  ⟨UInt64.ofNat ((if sign then 0x8000000000000000 else 0) + magnitude)⟩

/-- The exponent of the grid on which `num / den` has fifty-three binary digits, or the
finest grid if the number is too small for that many. -/
def gridExponent (num den : Nat) : Int :=
  let e : Int := (num.log2 : Int) - (den.log2 : Int) - 52
  let reached := num <<< (-e).toNat ≥ den <<< (e.toNat + 52)
  max (if reached then e else e - 1) (-1074)

/-- The double nearest to `num / den`, ties to even; too large a magnitude gives infinity. -/
def ofRatio (sign : Bool) (num den : Nat) : Binary64 :=
  if num = 0 ∨ den = 0 then ofMagnitude sign 0
  else
    let e := gridExponent num den
    let m := roundToEven (num <<< (-e).toNat) (den <<< e.toNat)
    ofMagnitude sign (min ((e + 1074).toNat <<< 52 + m) infinityBits)

/-- The double nearest to a natural number. -/
def ofNat (n : Nat) : Binary64 := ofRatio false n 1

/-- The double nearest to an integer. -/
def ofInt (i : Int) : Binary64 := ofRatio (i < 0) i.natAbs 1

/-- The product of two finite numbers. -/
def mul (x y : Binary64) : Binary64 :=
  ofRatio (x.negative != y.negative) (x.ratio.1 * y.ratio.1) (x.ratio.2 * y.ratio.2)

/-- The quotient of two finite numbers, the second not zero. -/
def div (x y : Binary64) : Binary64 :=
  ofRatio (x.negative != y.negative) (x.ratio.1 * y.ratio.2) (x.ratio.2 * y.ratio.1)

/-- The same magnitude with the sign given. -/
def withSign (sign : Bool) (x : Binary64) : Binary64 :=
  ofMagnitude sign (x.bits.toNat % 0x8000000000000000)

/-- The double equal to the 32-bit floating-point number with these bits. -/
def ofSingle (bits : UInt32) : Binary64 :=
  let sign := bits >>> 31 == 1
  let e := ((bits >>> 23) &&& 0xFF).toNat
  let f := (bits &&& 0x7FFFFF).toNat
  if e = 0xFF then ofMagnitude sign (infinityBits + f <<< 29)
  else if e = 0 then ofRatio sign f (1 <<< 149)
  else ofRatio sign ((0x800000 + f) <<< e) (1 <<< 150)

end Binary64

end PooledSql
