import PooledSql.Numeric.Layout

/-!
# Durations and instants

Both are counted in nanoseconds: a duration is a length of time, an instant the time since the
clock's origin.
-/

namespace PooledSql

/-- A length of time in nanoseconds. -/
abbrev Duration := Nat

/-- A point on the clock: the nanoseconds since its origin. -/
abbrev Instant := Nat

namespace Duration

def ofMillis (ms : Nat) : Duration := ms * 1000000

/-- The whole milliseconds in a duration. -/
def millis (d : Duration) : Nat := d / 1000000

/-- A number of `unit`s, the rest as decimal places without trailing zeros. Here `unit` is a
power of ten with `places` zeros. -/
def inUnits (d unit places : Nat) (suffix : String) : List Char :=
  let zeros := (Digits.padded places (d % unit)).reverse.dropWhile (· = '0')
  let fraction := if d % unit = 0 then [] else '.' :: zeros.reverse
  Digits.ofNat (d / unit) ++ fraction ++ suffix.toList

/-- A duration in the largest of the units s, ms, µs and ns that it reaches. -/
def chars (d : Duration) : List Char :=
  if 1000000000 ≤ d then inUnits d 1000000000 9 "s"
  else if 1000000 ≤ d then inUnits d 1000000 6 "ms"
  else if 1000 ≤ d then inUnits d 1000 3 "µs"
  else inUnits d 1 0 "ns"

def render (d : Duration) : String := String.ofList (chars d)

end Duration

/-- The time from `start` to `finish`; nothing when `finish` is the earlier one. -/
def Instant.since (finish start : Instant) : Duration := finish - start

end PooledSql
