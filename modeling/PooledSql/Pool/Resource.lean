import PooledSql.Time.Duration

/-!
# Resources, loans and leases

A pool keeps a record of each resource. While a resource is out on loan the caller has it in a
`Lease` and the pool remembers the `Loan`; the record is made again from the two when the
resource comes back.
-/

namespace PooledSql

/-- Where a resource is in its life. -/
inductive ResourceStage where
  /-- Ready to be handed out. -/
  | idle
  | onLoan
  /-- Being validated before it is handed out. -/
  | validating
  /-- Handed back and not yet ready again. -/
  | returning
  /-- To be destroyed. -/
  | condemned
  deriving DecidableEq, Repr

/-- The pool's record of a resource. -/
structure Pooled (ρ : Type) where
  /-- The number of the resource in its pool. -/
  id : Nat
  resource : ρ
  stage : ResourceStage
  createdAt : Instant
  lastIdleAt : Instant
  deriving Repr

/-- What a pool remembers of a resource on loan. -/
structure Loan where
  createdAt : Instant
  lastIdleAt : Instant
  deriving DecidableEq, Repr

/-- A resource in the hands of a caller. -/
structure Lease (ρ : Type) where
  /-- The number of the pool that lent it. -/
  pool : Nat
  id : Nat
  resource : ρ
  createdAt : Instant
  deriving Repr

namespace Pooled

variable {ρ : Type}

/-- A resource that has just been made. -/
def fresh (id : Nat) (resource : ρ) (now : Instant) : Pooled ρ :=
  ⟨id, resource, .idle, now, now⟩

/-- The resource becomes ready to be handed out. -/
def settle (p : Pooled ρ) (now : Instant) : Pooled ρ :=
  { p with stage := .idle, lastIdleAt := now }

def condemn (p : Pooled ρ) : Pooled ρ := { p with stage := .condemned }

/-- What the pool remembers when the resource is lent. -/
def loan (p : Pooled ρ) : Loan := ⟨p.createdAt, p.lastIdleAt⟩

/-- What the caller gets when the resource is lent by a pool. -/
def lease (p : Pooled ρ) (pool : Nat) : Lease ρ := ⟨pool, p.id, p.resource, p.createdAt⟩

/-- How long the resource has been ready. -/
def idleTime (p : Pooled ρ) (now : Instant) : Duration := Instant.since now p.lastIdleAt

end Pooled

namespace Lease

variable {ρ : Type}

def age (l : Lease ρ) (now : Instant) : Duration := Instant.since now l.createdAt

/-- The record of the resource when it comes back. -/
def returned (l : Lease ρ) (loan : Loan) : Pooled ρ :=
  ⟨l.id, l.resource, .returning, loan.createdAt, loan.lastIdleAt⟩

end Lease

end PooledSql
