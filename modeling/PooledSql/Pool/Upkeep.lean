import PooledSql.Pool.Dispatch

/-!
# Upkeep

What the pool's own tasks do when a resource has been made, validated or destroyed, the eviction
of idle resources, and how the books are put right when a task cannot be started.
-/

namespace PooledSql.Pool

variable {ρ : Type}

/-- A resource has been made, or could not be. -/
def creationEnded (p : Pool ρ) (now : Instant) (made : Option ρ) : Pool ρ :=
  let p := { p with creating := p.creating - 1 }
  match made with
  | some resource =>
    let p := { p with
      nextResource := p.nextResource + 1
      allObjects := p.allObjects + 1
      metrics := { p.metrics with created := p.metrics.created + 1 } }
    (p.shelve now (.fresh (p.nextResource - 1) resource now)).dispatch now
  | none =>
    { p with
      metrics := { p.metrics with createFailures := p.metrics.createFailures + 1 } }.dispatch now

/-- A resource has been validated: it is lent if it is good and destroyed if not. -/
def validationEnded (p : Pool ρ) (now : Instant) (pooled : Pooled ρ) (valid : Bool) : Pool ρ :=
  let p := { p with validating := p.validating - 1 }
  if valid then p.lend now pooled
  else
    ({ p with
      metrics := { p.metrics with
        validationFailures := p.metrics.validationFailures + 1 } }.retire pooled).dispatch now

/-- A resource has been destroyed, or that failed or took too long. -/
def destructionEnded (p : Pool ρ) (succeeded : Bool) : Pool ρ :=
  { p with
    destroying := p.destroying - 1
    metrics :=
      if succeeded then { p.metrics with destroyed := p.metrics.destroyed + 1 }
      else { p.metrics with destroyFailures := p.metrics.destroyFailures + 1 } }

/-! ## Eviction -/

def evictionLimits (p : Pool ρ) : EvictionLimits :=
  ⟨p.config.softIdleTimeout, p.config.idleTimeout, p.config.min⟩

/-- The resource that the eviction cursor comes to, from the front again when it is at its end. -/
def nextTested (p : Pool ρ) : Option Handle × Cursor :=
  match p.evictionCursor.next p.available with
  | (some h, cursor) => (some h, cursor)
  | (none, cursor) => (cursor.reset p.available).next p.available

/-- The policy gives up the resource behind a handle. -/
def isEvicted (p : Pool ρ) (now : Instant) (h : Handle) : Bool :=
  match p.available.get? h with
  | some pooled => p.policy p.evictionLimits (pooled.idleTime now) p.available.length
  | none => false

/-- Take out the resource that the cursor visited last and have it destroyed. -/
def evictVisited (p : Pool ρ) : Pool ρ :=
  match p.evictionCursor.remove p.available with
  | (some (pooled, available), evictionCursor) =>
    { p with
      available, evictionCursor
      metrics := { p.metrics with evictions := p.metrics.evictions + 1 } }.retire pooled
  | (none, evictionCursor) => { p with evictionCursor }

/-- Test resources one after the other. -/
def evictSome (p : Pool ρ) (now : Instant) : Nat → Pool ρ
  | 0 => p
  | count + 1 =>
    match p.nextTested with
    | (none, evictionCursor) => { p with evictionCursor }
    | (some h, evictionCursor) =>
      let p := { p with evictionCursor }
      (if p.isEvicted now h then p.evictVisited else p).evictSome now count

/-- An eviction run: test as many resources as configured or available, from where the last run
stopped. -/
def evict (p : Pool ρ) (now : Instant) : Pool ρ :=
  p.evictSome now (min p.config.testsPerEviction p.available.length)

/-! ## Tasks that cannot be started -/

/-- The task that an action should start cannot run: what was counted for it is taken back.
Nothing else is tried, since that could not be started either. -/
def abandon (p : Pool ρ) : Action ρ → Pool ρ
  | .create => { p with creating := p.creating - 1 }
  | .validate _ => { p with validating := p.validating - 1, allObjects := p.allObjects - 1 }
  | .destroy _ => { p with destroying := p.destroying - 1 }
  | .evict | .deliver _ _ => p

end PooledSql.Pool
