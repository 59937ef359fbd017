import PooledSql.Collections.Cursor
import PooledSql.Collections.Deferred
import PooledSql.Collections.PriorityQueue
import PooledSql.Collections.Registry
import PooledSql.Pool.Config
import PooledSql.Pool.Error
import PooledSql.Pool.Eviction
import PooledSql.Pool.Recycling
import PooledSql.Pool.Resource
import PooledSql.Pool.Stats

/-!
# The state of a pool

A pool changes only in critical sections, which are functions on `Pool`. What a section decides
but cannot do itself, because it takes time or belongs to somebody else, it puts into the outbox:
start a task that makes, validates or destroys a resource, or hand a lease to a caller. The
actions are performed in order before anything else happens to the pool.

Callers are known by a number. The queue holds the numbers of those who wait; `calls` holds for
each caller the deferred lease that it awaits.
-/

namespace PooledSql

/-- The number of a request. -/
abbrev CallId := Nat

/-- What is to be done after a critical section. -/
inductive Action (ρ : Type) where
  /-- Start the task that evicts at intervals. -/
  | evict
  /-- Start a task that makes a resource. -/
  | create
  /-- Start a task that validates a resource. -/
  | validate (p : Pooled ρ)
  /-- Start a task that destroys a resource. -/
  | destroy (p : Pooled ρ)
  /-- Hand a lease to a caller. -/
  | deliver (call : CallId) (lease : Lease ρ)

/-- A pool of resources. -/
structure Pool (ρ : Type) where
  /-- The number that leases know the pool by. -/
  id : Nat
  config : PoolConfig
  policy : EvictionPolicy
  recycling : Option RecyclingConfig
  started : Bool
  draining : Bool
  /-- The resources that are ready, the next to be handed out in front. -/
  available : Deque (Pooled ρ)
  evictionCursor : Cursor
  waiting : PriorityQueue CallId
  calls : Registry (Deferred PoolError (Lease ρ))
  /-- The loans by the number of the resource. -/
  loans : Registry Loan
  /-- The number of resources that are ready, on loan or being validated. -/
  allObjects : Nat
  validating : Nat
  creating : Nat
  destroying : Nat
  /-- The number that the next resource gets. -/
  nextResource : Nat
  metrics : PoolMetrics
  outbox : List (Action ρ)

namespace Pool

variable {ρ : Type}

/-- A pool without resources that has not been started. -/
def idle (id : Nat) (config : PoolConfig) (policy : EvictionPolicy)
    (recycling : Option RecyclingConfig) : Pool ρ where
  id
  config := config.normalize
  policy
  recycling
  started := false
  draining := false
  available := .empty
  evictionCursor := {}
  waiting := .ofSlots config.normalize.priorityRange
  calls := .empty
  loans := .empty
  allObjects := 0
  validating := 0
  creating := 0
  destroying := 0
  nextResource := 1
  metrics := {}
  outbox := []

/-- All resources, those in the making included. -/
def size (p : Pool ρ) : Nat := p.allObjects + p.creating

/-- How many more resources may be made. -/
def spare (p : Pool ρ) : Nat := p.config.max - p.size

/-- Resources that can be handed out sooner or later without making any. -/
def allocable (p : Pool ρ) : Nat := p.available.length + p.validating + p.creating

def status (p : Pool ρ) : PoolStatus :=
  ⟨p.size, p.available.length, p.loans.size, p.waiting.length, p.config.min, p.config.max⟩

/-- The lease is on loan from this pool. -/
def isBorrowed (p : Pool ρ) (lease : Lease ρ) : Bool :=
  lease.pool == p.id && p.loans.contains lease.id

/-- Somebody still awaits the answer to a request. -/
def isPending (p : Pool ρ) (call : CallId) : Bool :=
  match p.calls.get? call with
  | some deferred => deferred.isPending
  | none => false

/-- Put actions into the outbox. -/
def post (p : Pool ρ) (actions : List (Action ρ)) : Pool ρ :=
  { p with outbox := p.outbox ++ actions }

end Pool

end PooledSql
