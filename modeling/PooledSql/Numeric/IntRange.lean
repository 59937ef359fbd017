/-!
# Ranges of integers

The integers that fit a machine word, with or without a sign.
-/

namespace PooledSql

/-- The integers from `least` to `most`. -/
structure IntRange where
  least : Int
  most : Int
  deriving DecidableEq, Repr

namespace IntRange

instance : Membership Int IntRange := ⟨fun r i => r.least ≤ i ∧ i ≤ r.most⟩

instance (i : Int) (r : IntRange) : Decidable (i ∈ r) :=
  inferInstanceAs (Decidable (r.least ≤ i ∧ i ≤ r.most))

theorem mem_iff {i : Int} {r : IntRange} : i ∈ r ↔ r.least ≤ i ∧ i ≤ r.most := Iff.rfl

def int32 : IntRange := ⟨-0x80000000, 0x7FFFFFFF⟩

def int64 : IntRange := ⟨-0x8000000000000000, 0x7FFFFFFFFFFFFFFF⟩

def uint64 : IntRange := ⟨0, 0xFFFFFFFFFFFFFFFF⟩

/-- The integers that fit sixty-four bits with a sign or without one. -/
def either64 : IntRange := ⟨int64.least, uint64.most⟩

end IntRange

end PooledSql
