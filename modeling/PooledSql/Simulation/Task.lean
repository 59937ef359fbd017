import PooledSql.Client.Database
import PooledSql.Pool.State
import PooledSql.Simulation.Script

/-!
# Tasks

A task is one thread of the story: a caller that wants a connection, a pool being drained, a
connection being made. Its `Phase` says what it does next; a task only changes a pool through one
critical section at a time.
-/

namespace PooledSql

/-- The number of a task. A request for a resource goes under the number of its task. -/
abbrev TaskId := CallId

/-- What comes of a task. -/
inductive Outcome where
  /-- A lease of this resource and connection. -/
  | leased (resource connection : Nat)
  /-- The connection was used. -/
  | used (connection : Nat)
  | done
  /-- The use of the connection failed. -/
  | broken
  /-- No lease is held under the label. -/
  | notHeld
  | refused (e : PoolError)
  /-- The fragment of the statement could not be built. -/
  | unbuilt (e : TemplateError)
  | replied (r : Reply)
  | failed (e : ClientError)

/-- What a caller wants a connection for. -/
inductive Job where
  /-- To keep it under a label. -/
  | keep (label : String)
  /-- To hold it for a while. -/
  | hold (duration : Duration) (fails : Bool)
  /-- To run a statement. -/
  | run (statement : CompiledQuery) (request : Request)

/-- The outcome of a job that the pool refuses. -/
def Job.refused (e : PoolError) : Job → Outcome
  | .keep _ | .hold _ _ => .refused e
  | .run _ _ => .failed (.pool e)

/-- What a task does next. -/
inductive Phase where
  /-- Ask the pool for a connection. -/
  | ask (priority : Nat) (job : Job)
  /-- Wait for the answer, but not beyond the deadline. -/
  | await (handle : QueueHandle) (deadline : Option Instant) (job : Job)
  /-- Leave the queue: there was no answer in time. -/
  | withdraw (handle : QueueHandle) (timeout : Duration) (job : Job)
  /-- Look once more for an answer that may have come meanwhile. -/
  | lastLook (timeout : Duration) (job : Job)
  /-- Use the connection until the time is due. -/
  | work (lease : Lease Connection) (due : Instant) (job : Job)
  /-- Give a leased connection back; what happens then is the outcome. -/
  | giveBack (lease : Lease Connection) (outcome : Outcome)
  /-- Have a leased connection destroyed. -/
  | discard (lease : Lease Connection) (outcome : Outcome)
  /-- Let go of a lease; it goes back to its lender. -/
  | letGo (lease : Lease Connection) (outcome : Outcome)
  /-- Leave the queue: the caller has gone. -/
  | forget (handle : QueueHandle)
  /-- Stop awaiting the answer. -/
  | hangUp (outcome : Outcome)
  /-- Have the factory destroy a connection. -/
  | destroy (pooled : Pooled Connection) (outcome : Outcome)
  /-- Wait until it is destroyed, but not beyond the limit. -/
  | destruction (episode : Episode) (due : Instant) (limit : Option Instant) (outcome : Outcome)
  /-- Have the factory make a connection. -/
  | create
  | creation (episode : Episode) (due : Instant)
  /-- Have the factory validate a connection. -/
  | validate (pooled : Pooled Connection)
  | validation (pooled : Pooled Connection) (episode : Episode) (due : Instant)
  /-- Evict when the time is due, and again after each interval. -/
  | evict (due : Option Instant)
  /-- Begin to drain the pool. -/
  | drain
  | drainQueue
  | drainLoans
  /-- Take the handle of the task that evicts, if the pool still has it. -/
  | takeEvictor
  /-- Abort the task that evicts, if the drain has taken its handle. -/
  | drained (evictor : Option TaskId)
  /-- Begin to clear the pool: wait for connections in the making. -/
  | clear
  | sweep
  | clearDestructions
  /-- Wait until the minimum is available. -/
  | ready
  /-- Nothing: the task has come to its end. -/
  | finish (outcome : Outcome)

/-- A task of a pool. The outcome of a task with a label is reported. -/
structure Task where
  pool : Nat
  label : Option String
  phase : Phase
  /-- It is to be given up when its turn comes. -/
  cancelled : Bool := false

/-- What is left to do for a task that is given up: a request leaves the queue and a lease goes
back. A destruction that is under way is left alone. -/
def Phase.unwind : Phase → Phase
  | .await handle _ _ | .withdraw handle _ _ | .forget handle => .forget handle
  | .lastLook _ _ | .hangUp _ => .hangUp .done
  | .work lease _ _ | .giveBack lease _ | .discard lease _ | .letGo lease _ => .letGo lease .done
  | _ => .finish .done

end PooledSql
