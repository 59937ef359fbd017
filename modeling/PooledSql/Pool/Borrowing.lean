import PooledSql.Pool.Dispatch

/-!
# Borrowing

What callers do: ask for a resource, stop asking, receive the lease, and give the resource back
or have it destroyed.
-/

namespace PooledSql.Pool

variable {ρ : Type}

/-- Start the pool, unless that was done or the pool is draining: have it evict at intervals and
fill it up to the minimum. -/
def start (p : Pool ρ) : Pool ρ :=
  if p.draining || p.started then p
  else
    let evict := if p.config.evictionInterval = 0 then [] else [.evict]
    ({ p with started := true }.post evict).ensureMinimum

/-- As many callers wait as may, and nothing can be had at once. -/
def isCrowded (p : Pool ρ) (max : Nat) : Bool :=
  p.spare < 1 && p.available.isEmpty && max ≤ p.waiting.length

/-- Ask for a resource. A request that is accepted is queued under the priority. -/
def request (p : Pool ρ) (now : Instant) (call : CallId) (priority : Nat) :
    Except PoolError QueueHandle × Pool ρ :=
  let p := if p.started then p else p.start
  if p.draining then (.error .draining, p)
  else
    match p.config.maxWaiting with
    | some max => if p.isCrowded max then (.error (.maxWaitingClients max), p) else accept p
    | none => accept p
where
  accept (p : Pool ρ) : Except PoolError QueueHandle × Pool ρ :=
    let (handle, waiting) := p.waiting.enqueue call priority
    (.ok handle, { p with waiting, calls := p.calls.insert call {} }.dispatch now)

/-- Settle the answer to a request with an error, if somebody awaits it. -/
def reject (p : Pool ρ) (call : CallId) (error : PoolError) : Pool ρ :=
  match p.calls.get? call with
  | some deferred => { p with calls := p.calls.insert call (deferred.reject error).2 }
  | none => p

/-- Take a request out of the queue because its time is up. -/
def withdraw (p : Pool ρ) (handle : QueueHandle) (timeout : Duration) : Pool ρ :=
  match p.waiting.remove handle with
  | some (call, waiting) =>
    let metrics := { p.metrics with acquireTimeouts := p.metrics.acquireTimeouts + 1 }
    { p with waiting, metrics }.reject call (.acquireTimeout timeout)
  | none => p

/-- Take a request out of the queue because its caller has gone. -/
def forget (p : Pool ρ) (handle : QueueHandle) : Pool ρ :=
  match p.waiting.remove handle with
  | some (_, waiting) => { p with waiting }
  | none => p

/-- Hand a lease to a caller. It comes back if nobody awaits it. -/
def deliver (p : Pool ρ) (call : CallId) (lease : Lease ρ) : Option (Lease ρ) × Pool ρ :=
  match p.calls.get? call with
  | some deferred =>
    let (back, deferred) := deferred.resolve lease
    (back, { p with calls := p.calls.insert call deferred })
  | none => (some lease, p)

/-- Look for the answer to a request. -/
def receive (p : Pool ρ) (call : CallId) : Deferred.Receipt PoolError (Lease ρ) × Pool ρ :=
  match p.calls.get? call with
  | some deferred =>
    let (receipt, deferred) := deferred.tryReceive
    (receipt, { p with calls := p.calls.insert call deferred })
  | none => (.closed, p)

/-- Stop awaiting the answer to a request; also a lease that had come and was not received. -/
def hangUp (p : Pool ρ) (call : CallId) : Option (Lease ρ) × Pool ρ :=
  let lease := match (p.receive call).1 with
    | .message (.ok lease) => some lease
    | _ => none
  (lease, { p with calls := p.calls.erase call })

/-- Install age limits for the resources that come back, or take them out. -/
def setRecycling (p : Pool ρ) (recycling : Option RecyclingConfig) : Pool ρ := { p with recycling }

/-- A resource that comes back at this age is destroyed: it is due and the pool stays at its
minimum without it. -/
def recycles (p : Pool ρ) (sample age : Duration) : Bool :=
  p.config.min < p.size &&
    match p.recycling with
    | some recycling => recycling.isDue sample age
    | none => false

/-- Take a leased resource back. If it is due for recycling, the one who brought it has to
destroy it. -/
def giveBack (p : Pool ρ) (now : Instant) (sample : Duration) (lease : Lease ρ) :
    Except PoolError (Option (Pooled ρ)) × Pool ρ :=
  match p.loans.get? lease.id with
  | none => (.error .notInPool, p)
  | some loan =>
    let pooled := lease.returned loan
    let p := { p with loans := p.loans.erase lease.id }
    if p.recycles sample (Instant.since now pooled.createdAt) then
      let p := { p with allObjects := p.allObjects - 1, destroying := p.destroying + 1 }
      (.ok (some pooled.condemn), p.ensureMinimum.dispatch now)
    else (.ok none, (p.shelve now pooled).dispatch now)

/-- Take a leased resource out of the pool; the one who brought it has to destroy it. -/
def discard (p : Pool ρ) (lease : Lease ρ) : Except PoolError (Pooled ρ) × Pool ρ :=
  match p.loans.get? lease.id with
  | none => (.error .notInPool, p)
  | some loan =>
    let p := { p with
      loans := p.loans.erase lease.id
      allObjects := p.allObjects - 1
      destroying := p.destroying + 1 }
    (.ok (lease.returned loan).condemn, p.ensureMinimum)

/-- Take back a leased resource that nobody holds any more; if it is due for recycling, have it
destroyed. -/
def reclaim (p : Pool ρ) (now : Instant) (sample : Duration) (lease : Lease ρ) : Pool ρ :=
  match p.giveBack now sample lease with
  | (.ok (some pooled), p) => p.post [.destroy pooled]
  | (_, p) => p

end PooledSql.Pool
