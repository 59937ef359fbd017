import PooledSql.Time.Duration

/-!
# Recycling

A pool may retire resources by age: one that comes back when it is old enough is destroyed. So
that resources made together are not all retired together, a sample is taken off the age limit,
anew for each return and never more than the jitter.
-/

namespace PooledSql

/-- Age limits for resources. -/
structure RecyclingConfig where
  /-- The age at which a resource is retired; `none` is never. -/
  timeout : Option Duration := none
  /-- The most that is taken off the age. -/
  jitter : Duration := 0
  deriving DecidableEq, Repr

namespace RecyclingConfig

/-- A resource of this age is retired, with this much taken off the limit. -/
def isDue (c : RecyclingConfig) (sample age : Duration) : Bool :=
  match c.timeout with
  | some timeout => timeout - min sample c.jitter ≤ age
  | none => false

end RecyclingConfig

end PooledSql
