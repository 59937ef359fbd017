import PooledSql.Numeric.Binary64

/-!
# Pool figures

A `PoolStatus` counts the resources of a pool at one moment, `PoolMetrics` what has happened
since it was built. Rates are doubles, each operation rounded.
-/

namespace PooledSql

/-- The resources of a pool and the callers that wait for them. -/
structure PoolStatus where
  /-- All resources, those in the making included. -/
  size : Nat
  available : Nat
  borrowed : Nat
  pending : Nat
  min : Nat
  max : Nat
  deriving DecidableEq, Repr

/-- What has happened in a pool. -/
structure PoolMetrics where
  created : Nat := 0
  destroyed : Nat := 0
  createFailures : Nat := 0
  /-- Destructions that failed or took too long. -/
  destroyFailures : Nat := 0
  validationFailures : Nat := 0
  /-- Resources handed to callers. -/
  acquisitions : Nat := 0
  /-- Requests that were given up after waiting too long. -/
  acquireTimeouts : Nat := 0
  evictions : Nat := 0
  deriving DecidableEq, Repr, Inhabited

namespace PoolStatus

/-- The resources on loan in percent of the most there may be. -/
def utilization (s : PoolStatus) : Binary64 :=
  if s.max = 0 then .ofNat 0
  else ((Binary64.ofNat s.borrowed).div (.ofNat s.max)).mul (.ofNat 100)

def isAtCapacity (s : PoolStatus) : Bool := s.max ≤ s.size

/-- The status as a list of named figures. -/
def render (s : PoolStatus) : String :=
  "PoolStatus \x7b size: " ++ toString s.size ++ ", available: " ++ toString s.available
    ++ ", borrowed: " ++ toString s.borrowed ++ ", pending: " ++ toString s.pending
    ++ ", min: " ++ toString s.min ++ ", max: " ++ toString s.max ++ " \x7d"

end PoolStatus

namespace PoolMetrics

/-- A share of a total; of nothing, all. -/
def rate (part total : Nat) : Binary64 :=
  if total = 0 then .ofNat 1 else (Binary64.ofNat part).div (.ofNat total)

/-- The share of requests that got a resource, of those and the ones that waited too long. -/
def acquireSuccessRate (m : PoolMetrics) : Binary64 :=
  rate m.acquisitions (m.acquisitions + m.acquireTimeouts)

/-- The share of creations that succeeded. -/
def createSuccessRate (m : PoolMetrics) : Binary64 :=
  rate m.created (m.created + m.createFailures)

end PoolMetrics

end PooledSql
