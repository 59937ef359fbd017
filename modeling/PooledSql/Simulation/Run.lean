import PooledSql.Simulation.Step

/-!
# Runs

A run is made of commands, which start tasks or act at once, and of pauses, in which the clock
moves. `Machine.rest` lets all tasks go on until every one waits; `Machine.sleep` moves the clock
from one timer to the next and rests after each. `Machine.poll` is for times without a runtime: a
task runs as far as it gets at once and is then given up.
-/

namespace PooledSql

/-- What is done in a run. -/
inductive Command where
  /-- Ask a pool for a lease, to be kept under the label. -/
  | acquire (pool : Nat) (label : String) (priority : Nat)
  /-- Hold a connection for a while, and fail or not. -/
  | use (pool : Nat) (label : String) (priority : Nat) (duration : Duration) (fails : Bool)
  /-- Send a fragment, unless it could not be built, to a database. -/
  | call (db : Database) (label : String) (request : Request)
      (fragment : Except TemplateError Fragment)
  /-- Give the lease that is kept under the label back to a pool. -/
  | release (pool : Nat) (label : String)
  /-- Have the leased connection destroyed by a pool. -/
  | destroy (pool : Nat) (label : String)
  /-- Let go of a lease. -/
  | drop (label : String)
  /-- The connection of a lease is not in order any more. -/
  | sicken (label : String)
  /-- Give up the task with this label. -/
  | cancel (label : String)
  | drain (pool : Nat) (label : String)
  | clear (pool : Nat) (label : String)
  | ready (pool : Nat) (label : String)
  | start (pool : Nat)
  /-- Have a pool recycle from now on. -/
  | recycle (pool : Nat) (config : RecyclingConfig)

namespace Machine

/-! ## Running -/

/-- At most `fuel` steps. -/
def run : Nat → Machine → Machine
  | 0, m => m
  | fuel + 1, m =>
    match m.step? with
    | some next => run fuel next
    | none => m

/-- More steps than the tasks of a run take before all of them wait. -/
def patience : Nat := 10000000

/-- Let all tasks go on until every one waits. -/
def rest (m : Machine) : Machine := m.run patience

/-- Perform the actions of pools, at most `fuel` of them. -/
def flushSome : Nat → Machine → Machine
  | 0, m => m
  | fuel + 1, m =>
    match firstAction 0 m.sites with
    | some (index, pool, action) => flushSome fuel (m.perform index pool action)
    | none => m

/-- Perform the actions of pools, while no task goes on. -/
def flush (m : Machine) : Machine := m.flushSome patience

/-! ## The clock -/

/-- The earliest time of a timer. -/
def nextDue (m : Machine) : Option Instant := (m.timers.map (·.due)).min?

/-- Move the clock and wake the tasks whose time has come, in the order of their timers. -/
def advance (m : Machine) (now : Instant) : Machine :=
  let due := m.timers.filter (·.due ≤ now)
  ({ m with now, timers := m.timers.filter (now < ·.due) } : Machine).wake (due.map (·.task))

/-- Go from timer to timer up to a time, at most `fuel` times. -/
def sleepUntil (target : Instant) : Nat → Machine → Machine
  | 0, m => { m with now := target }
  | fuel + 1, m =>
    match m.nextDue with
    | some due =>
      if due ≤ target then sleepUntil target fuel (m.advance due).rest
      else { m with now := target }
    | none => { m with now := target }

/-- Let a time pass. Every timer lies in the future, so there are no more of them than
nanoseconds. -/
def sleep (m : Machine) (d : Duration) : Machine := sleepUntil (m.now + d) (d + 1) m.rest

/-! ## Pools -/

/-- Build a pool and start it if the configuration says so. -/
def build (m : Machine) (config : PoolConfig) (policy : EvictionPolicy)
    (recycling : Option RecyclingConfig) (factory : Factory) : Machine :=
  let pool : Pool Connection := .idle m.sites.length config policy recycling
  let pool := if config.autostart then pool.start else pool
  let site : Site := { pool, factory }
  ({ m with sites := m.sites ++ [site] } : Machine).flush

/-- A machine with a number of pools that are all built alike. -/
def withPools (count : Nat) (config : PoolConfig) (policy : EvictionPolicy)
    (recycling : Option RecyclingConfig) (factory : Factory) (m : Machine) : Machine :=
  match count with
  | 0 => m
  | count + 1 => withPools count config policy recycling factory
      (m.build config policy recycling factory)

/-- From now on there is no runtime. The clock of the runtime is gone as well. -/
def leave (m : Machine) : Machine := { m with runtime := false, now := 0 }

/-! ## Commands -/

/-- Take the lease that is kept under a label. -/
def takeLease (m : Machine) (label : String) : Option (Lease Connection × Machine) :=
  (m.leases.lookup label).map fun lease =>
    (lease, { m with leases := m.leases.filter (·.1 != label) })

/-- Nothing is kept under a label that a command names. -/
def missing (m : Machine) (label : String) : Machine :=
  { m with nextTask := m.nextTask + 1 }.settle m.nextTask label .notHeld

/-- The task that a command starts, and the machine without what the task takes with it. Other
commands start none. -/
def taskFor (m : Machine) : Command → Option (Task × Machine)
  | .acquire pool label priority => some (⟨pool, label, .ask priority (.keep label), false⟩, m)
  | .use pool label priority duration fails =>
    some (⟨pool, label, .ask priority (.hold duration fails), false⟩, m)
  | .call db label request fragment =>
    let phase := match fragment, request with
      | .error e, _ => .finish (.unbuilt e)
      | .ok fragment, request =>
        match db.compile fragment, request with
        | .error e, _ => .finish (.failed e)
        | .ok statement, .compile => .finish (.replied (.compiled statement))
        | .ok statement, request => .ask request.priority (.run statement request)
    some (⟨db.pool, label, phase, false⟩, m)
  | .release pool label => (m.takeLease label).map fun (lease, m) =>
    (⟨pool, some ("release " ++ label), .giveBack lease .done, false⟩, m)
  | .destroy pool label => (m.takeLease label).map fun (lease, m) =>
    (⟨pool, some ("destroy " ++ label), .discard lease .done, false⟩, m)
  | .drain pool label => some (⟨pool, label, .drain, false⟩, m)
  | .clear pool label => some (⟨pool, label, .clear, false⟩, m)
  | .ready pool label => some (⟨pool, label, .ready, false⟩, m)
  | .drop _ | .sicken _ | .cancel _ | .start _ | .recycle _ _ => none

/-- Do what a command does at once. -/
def act (m : Machine) : Command → Machine
  | .release _ label | .destroy _ label => m.missing label
  | .drop label =>
    match m.takeLease label with
    | some (lease, m) => (m.reclaim lease).flush
    | none => m.missing label
  | .sicken label =>
    { m with leases := m.leases.map fun (key, lease) =>
        (key, if key = label then
          { lease with resource := { lease.resource with healthy := false } } else lease) }
  | .cancel label =>
    match m.names.lookup label with
    | some id =>
      match m.tasks.get? id with
      | some task =>
        { m with tasks := m.tasks.insert id { task with cancelled := true } }.wake [id]
      | none => m
    | none => m
  | .start pool =>
    match m.sites[pool]? with
    | some site => (m.commit pool site.pool.start).flush
    | none => m
  | .recycle pool config =>
    match m.sites[pool]? with
    | some site => (m.commit pool (site.pool.setRecycling (some config))).flush
    | none => m
  | .acquire _ _ _ | .use _ _ _ _ _ | .call _ _ _ _ | .drain _ _ | .clear _ _ | .ready _ _ => m

/-- Issue a command: start its task, which does not run yet, or do at once what it says. -/
def issue (m : Machine) (command : Command) : Machine :=
  match m.taskFor command with
  | some (task, m) => m.spawn task
  | none => m.act command

/-- Run a task as far as it gets at once, and give it up if it then waits. -/
def poll (m : Machine) (task : Task) : Machine :=
  let (id, m) := m.add task
  let m := { m with running := some id }.rest
  match m.tasks.get? id with
  | some task => (m.giveUp id task).rest
  | none => m

/-! ## Reports -/

/-- The outcome that has been noted for a task. -/
def outcome? (m : Machine) (id : TaskId) : Option Outcome :=
  (m.log.settled.find? (·.task == id)).map (·.outcome)

/-- Forget the outcome of a task. -/
def forgetOutcome (m : Machine) (id : TaskId) : Machine :=
  { m with log := { m.log with settled := m.log.settled.filter (·.task != id) } }

/-- Everything that happened has been reported. -/
def clearLog (m : Machine) : Machine := { m with log := {} }

end Machine

end PooledSql
