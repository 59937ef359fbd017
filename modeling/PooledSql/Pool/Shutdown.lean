import PooledSql.Pool.Dispatch

/-!
# Shutting down

Draining ends the business with callers: no request is accepted any more, and those that are
queued and the loans come to their end. Clearing destroys the resources that are available.
-/

namespace PooledSql.Pool

variable {ρ : Type}

/-- Drop the requests whose callers have gone. -/
def purge (p : Pool ρ) : Pool ρ := { p with waiting := p.waiting.retain p.isPending }

/-- Accept no more requests. -/
def beginDrain (p : Pool ρ) : Pool ρ := { p with draining := true }.purge

/-- Destroy the available resources, at most `fuel` of them. -/
def sweepSome (p : Pool ρ) : Nat → Pool ρ
  | 0 => p
  | fuel + 1 =>
    match p.available.shift with
    | some (pooled, available) => ({ p with available }.retire pooled).sweepSome fuel
    | none => p

/-- Destroy the available resources. -/
def sweep (p : Pool ρ) : Pool ρ := p.sweepSome p.available.length

end PooledSql.Pool
