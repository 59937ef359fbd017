import PooledSql.Time.Duration

/-!
# Eviction

An eviction policy decides whether an idle resource is destroyed, from how long it has been idle
and how many resources are available. The standard policy has two limits: beyond the hard one a
resource goes in any case, beyond the soft one only while more than the minimum are available.
-/

namespace PooledSql

/-- The limits that a policy decides by. -/
structure EvictionLimits where
  /-- Zero counts as no limit. -/
  soft : Option Duration
  hard : Duration
  /-- The least number of resources that soft eviction leaves. -/
  min : Nat
  deriving DecidableEq, Repr

/-- Whether a resource is evicted that has been idle for so long when so many are available. -/
abbrev EvictionPolicy := EvictionLimits → Duration → Nat → Bool

namespace EvictionPolicy

/-- The idle time is beyond the soft limit and more than the minimum are available. -/
def softExpired (limits : EvictionLimits) (idle : Duration) (available : Nat) : Bool :=
  match limits.soft with
  | some soft => soft ≠ 0 ∧ soft < idle ∧ limits.min < available
  | none => false

/-- The policy of the two limits. -/
def standard : EvictionPolicy := fun limits idle available =>
  softExpired limits idle available || limits.hard < idle

end EvictionPolicy

end PooledSql
