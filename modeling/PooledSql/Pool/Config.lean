import PooledSql.Time.Duration

/-!
# Pool configuration

The settings of a pool and their defaults. A pool works with the normal form of its
configuration, in which the sizes fit together.
-/

namespace PooledSql

/-- The settings of a pool. -/
structure PoolConfig where
  /-- Resources that the pool keeps even when nobody needs them. -/
  min : Nat := 0
  /-- The most resources there may be, those in the making included. -/
  max : Nat := 10
  /-- The most callers that may wait once nothing can be made for them; `none` is no limit. -/
  maxWaiting : Option Nat := none
  /-- Validate a resource before it is handed out. -/
  testOnBorrow : Bool := false
  /-- How long a caller waits for a resource; `none` is for ever. -/
  acquireTimeout : Option Duration := none
  /-- How long the pool waits for the end of a destruction; `none` is for ever. -/
  destroyTimeout : Option Duration := none
  /-- Hand out the resource that has been idle longest, not the one idle shortest. -/
  fifo : Bool := false
  /-- The number of priorities. -/
  priorityRange : Nat := 1
  /-- Start the pool when it is built, not at the first request. -/
  autostart : Bool := true
  /-- The time between two eviction runs; zero is no eviction. -/
  evictionInterval : Duration := 0
  /-- Resources examined in an eviction run. -/
  testsPerEviction : Nat := 3
  /-- Idle time after which a resource is evicted while there are more than `min`. -/
  softIdleTimeout : Option Duration := none
  /-- Idle time after which a resource is evicted in any case. -/
  idleTimeout : Duration := 30000000000
  deriving DecidableEq, Repr, Inhabited

namespace PoolConfig

/-- The sizes fit together and there is a priority. -/
structure IsNormal (c : PoolConfig) : Prop where
  min_le_max : c.min ≤ c.max
  priorityRange_pos : 1 ≤ c.priorityRange

/-- Raise `max` and the number of priorities to one and lower `min` to `max`. -/
def normalize (c : PoolConfig) : PoolConfig :=
  let max := Nat.max c.max 1
  { c with min := Nat.min c.min max, max, priorityRange := Nat.max c.priorityRange 1 }

theorem isNormal_normalize (c : PoolConfig) : c.normalize.IsNormal where
  min_le_max := Nat.min_le_right _ _
  priorityRange_pos := Nat.le_max_right _ _

end PoolConfig

end PooledSql
