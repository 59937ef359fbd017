import PooledSql.Pool.State

/-!
# Dispatch and upkeep

The passes that critical sections are made of: putting a resource on the shelf, lending it to
the caller whose turn it is, having resources made or destroyed, and `Pool.dispatch`, which
brings waiting callers and resources together.
-/

namespace PooledSql.Pool

variable {ρ : Type}

/-- Have resources made. -/
def orderCreation (p : Pool ρ) (count : Nat) : Pool ρ :=
  { p with creating := p.creating + count }.post (List.replicate count .create)

/-- Have as many resources made as the minimum lacks. -/
def ensureMinimum (p : Pool ρ) : Pool ρ :=
  if p.draining then p else p.orderCreation (p.config.min - p.size)

/-- Make a resource available. -/
def shelve (p : Pool ρ) (now : Instant) (pooled : Pooled ρ) : Pool ρ :=
  let settled := pooled.settle now
  { p with
    available :=
      if p.config.fifo then (p.available.push settled).2 else (p.available.unshift settled).2 }

/-- Have a resource destroyed that the pool has taken out of its collections. -/
def retire (p : Pool ρ) (pooled : Pooled ρ) : Pool ρ :=
  let p := { p with allObjects := p.allObjects - 1, destroying := p.destroying + 1 }
  (p.post [.destroy pooled.condemn]).ensureMinimum

/-- Take callers from the queue, at most `fuel` of them, up to the first that is pending. -/
def takePending (isPending : CallId → Bool) :
    Nat → PriorityQueue CallId → Option CallId × PriorityQueue CallId
  | 0, queue => (none, queue)
  | fuel + 1, queue =>
    match queue.dequeue with
    | none => (none, queue)
    | some (call, rest) =>
      if isPending call then (some call, rest) else takePending isPending fuel rest

/-- Lend a resource to the caller whose turn it is; if nobody waits any more, put it back. -/
def lend (p : Pool ρ) (now : Instant) (pooled : Pooled ρ) : Pool ρ :=
  match takePending p.isPending p.waiting.length p.waiting with
  | (some call, waiting) =>
    { p with
      waiting
      loans := p.loans.insert pooled.id pooled.loan
      metrics := { p.metrics with acquisitions := p.metrics.acquisitions + 1 }
      }.post [.deliver call (pooled.lease p.id)]
  | (none, waiting) => { p with waiting }.shelve now pooled

/-- Have available resources validated. -/
def orderValidation (p : Pool ρ) : Nat → Pool ρ
  | 0 => p
  | count + 1 =>
    match p.available.shift with
    | some (pooled, available) =>
      ({ p with available, validating := p.validating + 1 }.post
        [.validate { pooled with stage := .validating }]).orderValidation count
    | none => p

/-- Lend available resources. -/
def lendSome (p : Pool ρ) (now : Instant) : Nat → Pool ρ
  | 0 => p
  | count + 1 =>
    match p.available.shift with
    | some (pooled, available) => ({ p with available }.lend now pooled).lendSome now count
    | none => p

/-- Serve the callers who wait. As many resources are made as are missing for them and may be
made; those that are available are lent, or validated first if the configuration says so. -/
def dispatch (p : Pool ρ) (now : Instant) : Pool ρ :=
  let waiting := p.waiting.length
  if waiting = 0 then p
  else
    let p := p.orderCreation (min (waiting - p.allocable) p.spare)
    if p.config.testOnBorrow then
      p.orderValidation (min (waiting - p.validating) p.available.length)
    else p.lendSome now (min p.available.length waiting)

end PooledSql.Pool
