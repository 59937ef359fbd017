import PooledSql.Time.Duration

/-!
# Pool errors

What a pool answers when it cannot do what it is asked. That a resource cannot be made or
destroyed is no such error: the pool counts it and goes on.
-/

namespace PooledSql

inductive PoolError where
  /-- The pool takes no more requests. -/
  | draining
  | maxWaitingClients (max : Nat)
  | acquireTimeout (timeout : Duration)
  /-- The resource is not on loan from this pool. -/
  | notInPool
  /-- The pool has gone away. -/
  | closed
  /-- A configuration that cannot be read. -/
  | config
  deriving DecidableEq, Repr

/-- The wording of an error. -/
def PoolError.message : PoolError → String
  | draining => "pool is draining and cannot accept work"
  | maxWaitingClients max =>
    "max waiting clients count exceeded (limit " ++ toString max ++ ")"
  | acquireTimeout timeout => "resource request timed out after " ++ Duration.render timeout
  | notInPool => "resource not currently part of this pool"
  | closed => "pool closed before the request settled"
  | config => "invalid pool configuration"

end PooledSql
