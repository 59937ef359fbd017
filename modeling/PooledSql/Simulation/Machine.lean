import PooledSql.Pool.Borrowing
import PooledSql.Pool.Shutdown
import PooledSql.Pool.Upkeep
import PooledSql.Simulation.Task

/-!
# The machine

A `Machine` holds pools, the tasks at work on them and a virtual clock. One task runs at a time.
The others wait in line, or for a time or a change of a pool that puts them at the end of the
line. Without a runtime, no task can be started and none of the line runs.
-/

namespace PooledSql

/-- What has become of the handle of the task that evicts for a pool. -/
inductive EvictorHandle where
  /-- The pool does not have it: it was taken, or there is no such task. -/
  | none
  | kept (task : TaskId)
  /-- The task was aborted at this time. -/
  | aborted (time : Instant)
  deriving DecidableEq, Repr

def EvictorHandle.isAborted : EvictorHandle → Bool
  | .aborted _ => true
  | _ => false

/-- A pool and what belongs to it. -/
structure Site where
  pool : Pool Connection
  factory : Factory
  /-- The tasks that wait for a change of the pool. -/
  watchers : List TaskId := []
  evictor : EvictorHandle := .none

/-- A time at which a task is woken. -/
structure Timer where
  due : Instant
  task : TaskId
  deriving DecidableEq, Repr

/-- The outcome of a task and when it came; there is no time without a runtime. -/
structure Settlement where
  task : TaskId
  label : String
  time : Option Instant
  outcome : Outcome

/-- A statement that was sent to the server. -/
structure Sending where
  time : Option Instant
  connection : Nat
  statement : CompiledQuery

/-- What has happened that is worth a report, in order. -/
structure Log where
  settled : List Settlement := []
  /-- Calls that made a connection, by their end; a failed one made none. -/
  created : List (Option Instant × Option Nat) := []
  /-- Calls that destroyed a connection, by their start. -/
  destroyed : List (Option Instant × Nat) := []
  /-- Calls that validated a connection, by their start. -/
  validated : List (Option Instant × Nat) := []
  statements : List Sending := []

/-- The outcomes by time, those of one time by label. -/
def Log.settledInOrder (log : Log) : List Settlement :=
  log.settled.mergeSort fun a b =>
    let (s, t) := (a.time.getD 0, b.time.getD 0)
    s < t || (s == t && a.label ≤ b.label)

/-- Pools, tasks and a clock. -/
structure Machine where
  now : Instant := 0
  runtime : Bool := true
  sites : List Site := []
  tasks : Registry Task := .empty
  nextTask : TaskId := 0
  running : Option TaskId := none
  /-- The line of tasks that can go on. -/
  line : List TaskId := []
  /-- Timers in the order in which they were set. -/
  timers : List Timer := []
  /-- Tasks by the label of their outcome, the latest first. -/
  names : List (String × TaskId) := []
  /-- The leases that are held, by label. -/
  leases : List (String × Lease Connection) := []
  /-- What is taken off the age limit at the next returns; nothing after these. -/
  samples : List Duration := []
  server : Server
  log : Log := {}

namespace Machine

/-! ## Tasks -/

/-- Put tasks at the end of the line that are not in it. -/
def wake (m : Machine) (tasks : List TaskId) : Machine :=
  { m with
    line := tasks.foldl (fun line id => if line.contains id then line else line ++ [id]) m.line }

/-- Add a task that nobody runs yet; also its number. -/
def add (m : Machine) (task : Task) : TaskId × Machine :=
  let names := task.label.toList.map (·, m.nextTask)
  (m.nextTask, { m with
    tasks := m.tasks.insert m.nextTask task
    nextTask := m.nextTask + 1
    names := names ++ m.names })

/-- Add a task to the end of the line. -/
def spawn (m : Machine) (task : Task) : Machine :=
  let (id, m) := m.add task
  m.wake [id]

/-- The time that reports show. -/
def time (m : Machine) : Option Instant := if m.runtime then some m.now else none

/-- The running task waits. -/
def suspend (m : Machine) : Machine := { m with running := none }

/-- The task goes on with another phase. -/
def proceed (m : Machine) (id : TaskId) (phase : Phase) : Machine :=
  match m.tasks.get? id with
  | some task => { m with tasks := m.tasks.insert id { task with phase } }
  | none => m

/-- Note an outcome. -/
def settle (m : Machine) (task : TaskId) (label : String) (outcome : Outcome) : Machine :=
  { m with log := { m.log with settled := m.log.settled ++ [⟨task, label, m.time, outcome⟩] } }

/-- Set a timer, unless its time has come. -/
def arm (m : Machine) (id : TaskId) (due : Instant) : Machine :=
  if m.now < due then { m with timers := m.timers ++ [⟨due, id⟩] } else m

/-- Remove the timers of a task. -/
def disarm (m : Machine) (id : TaskId) : Machine :=
  { m with timers := m.timers.filter (·.task != id) }

/-- Remove a task and all that would wake it. -/
def remove (m : Machine) (id : TaskId) : Machine :=
  { m.disarm id with
    tasks := m.tasks.erase id
    sites := m.sites.map fun site => { site with watchers := site.watchers.filter (· != id) }
    running := if m.running = some id then none else m.running }

/-- The task has come to its end. -/
def conclude (m : Machine) (id : TaskId) (task : Task) (outcome : Outcome) : Machine :=
  match task.label with
  | some label => (m.remove id).settle id label outcome
  | none => m.remove id

/-! ## Pools -/

/-- Change a site. -/
def modifySite (m : Machine) (index : Nat) (f : Site → Site) : Machine :=
  { m with sites := m.sites.modify index f }

/-- Put a changed pool in its place. -/
def putPool (m : Machine) (index : Nat) (pool : Pool Connection) : Machine :=
  m.modifySite index fun site => { site with pool }

/-- End a critical section: put the changed pool in its place and wake those who wait for a
change. -/
def commit (m : Machine) (index : Nat) (pool : Pool Connection) : Machine :=
  let watchers := (m.sites[index]?.map (·.watchers)).getD []
  (m.modifySite index fun site => { site with pool, watchers := [] }).wake watchers

/-- The running task waits for a change of the pool. -/
def watch (m : Machine) (index : Nat) (id : TaskId) : Machine :=
  (m.modifySite index fun site => { site with watchers := site.watchers ++ [id] }).suspend

/-- What is taken off the age limit at this return. -/
def sample (m : Machine) : Duration := m.samples.headD 0

/-- The next return has a sample of its own. -/
def nextSample (m : Machine) : Machine := { m with samples := m.samples.tail }

/-- Let go of a lease: its lender takes the resource back. -/
def reclaim (m : Machine) (lease : Lease Connection) : Machine :=
  match m.sites[lease.pool]? with
  | some site => (m.commit lease.pool (site.pool.reclaim m.now m.sample lease)).nextSample
  | none => m

/-- Abort the task that evicts for a pool, which has at most one; it is woken to end. -/
def abortEvictor (m : Machine) (index : Nat) (evictor : TaskId) : Machine :=
  (m.modifySite index fun site => { site with evictor := .aborted m.now }).wake [evictor]

/-! ## Actions -/

/-- Hand a lease to a caller and wake it if it waits. If nobody awaits the lease, it is let go
before the actions that follow. -/
def deliver (m : Machine) (index : Nat) (pool : Pool Connection) (call : CallId)
    (lease : Lease Connection) : Machine :=
  match pool.deliver call lease with
  | (none, pool) =>
    let m := m.putPool index pool
    if m.running = some call then m else m.wake [call]
  | (some lease, pool) =>
    let reclaimed := { pool with outbox := [] }.reclaim m.now m.sample lease
    (m.commit index { reclaimed with outbox := reclaimed.outbox ++ pool.outbox }).nextSample

/-- Start a task of a pool; if that cannot be done, put the pool's books right. -/
def launch (m : Machine) (index : Nat) (pool : Pool Connection) (action : Action Connection)
    (phase : Phase) : Machine :=
  if m.runtime then (m.putPool index pool).spawn ⟨index, none, phase, false⟩
  else m.commit index (pool.abandon action)

/-- Perform an action of a pool, which has been taken from its outbox. -/
def perform (m : Machine) (index : Nat) (pool : Pool Connection) (action : Action Connection) :
    Machine :=
  match action with
  | .deliver call lease => m.deliver index pool call lease
  | .create => m.launch index pool action .create
  | .validate pooled => m.launch index pool action (.validate pooled)
  | .destroy pooled => m.launch index pool action (.destroy pooled .done)
  | .evict =>
    let evictor := if m.runtime then .kept m.nextTask else .none
    (m.launch index pool action (.evict none)).modifySite index fun site => { site with evictor }

/-- The first pool with an action in its outbox: its number, the pool without the action, and
the action. -/
def firstAction : Nat → List Site → Option (Nat × Pool Connection × Action Connection)
  | _, [] => none
  | index, site :: rest =>
    match site.pool.outbox with
    | action :: outbox => some (index, { site.pool with outbox }, action)
    | [] => firstAction (index + 1) rest

end Machine

end PooledSql
