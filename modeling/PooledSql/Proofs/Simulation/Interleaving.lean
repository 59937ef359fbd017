import PooledSql.Simulation.Run
import PooledSql.Proofs.Pool.Section

/-!
# Interleavings

`Machine.step?` runs one task after the other in a fixed order. Here a machine may move in any
order: any task may do the next part of its work, any action may be performed, any caller may go
away, any command may be given, and any time may pass in between. A part of a task's work has at
most one critical section, so this covers every way in which the sections of different threads
can follow each other.

Every move has a `Deed`, which tells the section that changed a pool and the calls of factories
and other events of the move. A `Run` is made of moves inside a runtime and has a trace of deeds;
in a `FreeRun` the runtime may go and come back between moves.
-/

namespace PooledSql

/-- How a request that was accepted comes to its end. -/
inductive Verdict where
  | leased (resource : Nat × Nat)
  | refused (e : PoolError)
  /-- The caller has gone. -/
  | cancelled
  deriving DecidableEq

/-- Something that happens outside the pools. A resource is told by its number in its pool and
the number of its connection, a request by its task. -/
inductive Event where
  | accepted (pool : Nat) (call : CallId)
  | answered (pool : Nat) (call : CallId) (verdict : Verdict)
  /-- A call of the factory that makes a connection begins. -/
  | createBegun (pool : Nat)
  /-- A call has made a connection. -/
  | created (pool : Nat) (resource : Nat × Nat)
  | validateBegun (pool : Nat) (resource : Nat × Nat)
  | destroyBegun (pool : Nat) (resource : Nat × Nat)
  /-- The task to validate or destroy a connection could not be started. -/
  | lost (pool : Nat) (resource : Nat × Nat)
  /-- The caller who waits for a connection to be destroyed has gone. -/
  | forsaken (pool : Nat)
  /-- A statement is sent over a connection. -/
  | sent (pool : Nat) (connection : Nat) (statement : CompiledQuery)

/-- What happens in a move. -/
structure Deed where
  /-- The section by which a pool changes. -/
  change : Option (Nat × Section Connection) := none
  events : List Event := []

/-- A resource by the number of its connection. -/
def Pooled.mark (x : Pooled Connection) : Nat × Nat := (x.id, x.resource.number)

@[inherit_doc Pooled.mark]
def Lease.mark (l : Lease Connection) : Nat × Nat := (l.id, l.resource.number)

/-- The caller may go away. A task that runs on its own may not, and there is no time to go between
a deadline and its consequences, or between a critical section and the call that destroys a
connection or the abort of the task that evicts. -/
def Task.mayStop (task : Task) : Bool :=
  task.label.isSome && match task.phase with
    | .withdraw _ _ _ | .lastLook _ _ | .hangUp _ | .destroy _ _ | .drained _ => false
    | _ => true

namespace Machine

/-- The pool of a site. -/
def pool? (m : Machine) (index : Nat) : Option (Pool Connection) := m.sites[index]?.map (·.pool)

/-- What happens when a caller takes its answer. -/
def answerDeed (id : TaskId) (task : Task) (job : Job)
    (answer : Except PoolError (Lease Connection)) : Deed where
  change := some (task.pool, .hangUp id)
  events :=
    match answer, job with
    | .ok lease, .run statement _ =>
      [.answered task.pool id (.leased lease.mark),
        .sent task.pool lease.resource.number statement]
    | .ok lease, _ => [.answered task.pool id (.leased lease.mark)]
    | .error e, _ => [.answered task.pool id (.refused e)]

/-- What happens when the turn comes of a task that evicts. -/
def evictDeed (m : Machine) (task : Task) (site : Site) (due : Option Instant) : Deed :=
  if site.evictor.isAborted then {}
  else
    match due with
    | some due => if due ≤ m.now then { change := some (task.pool, .evict m.now) } else {}
    | none => {}

/-- What happens in the next part of a task's work. -/
def deed (m : Machine) (id : TaskId) (task : Task) (site : Site) : Deed :=
  match task.phase with
  | .ask priority _ =>
    { change := some (task.pool, .request m.now id priority)
      events := match (site.pool.request m.now id priority).1 with
        | .ok _ => [.accepted task.pool id]
        | .error _ => [] }
  | .await _ _ job =>
    match (site.pool.receive id).1 with
    | .message answer => answerDeed id task job answer
    | .closed => answerDeed id task job (.error .closed)
    | .nothing => {}
  | .withdraw handle timeout _ => { change := some (task.pool, .withdraw handle timeout) }
  | .lastLook timeout job =>
    match (site.pool.receive id).1 with
    | .message answer => answerDeed id task job answer
    | _ => { events := [.answered task.pool id (.refused (.acquireTimeout timeout))] }
  | .giveBack lease _ =>
    if lease.pool = site.pool.id then { change := some (task.pool, .giveBack m.now m.sample lease) }
    else {}
  | .discard lease _ =>
    if lease.pool = site.pool.id then { change := some (task.pool, .discard lease) } else {}
  | .letGo lease _ => { change := some (lease.pool, .reclaim m.now m.sample lease) }
  | .forget handle => { change := some (task.pool, .forget handle) }
  | .hangUp _ => { change := some (task.pool, .hangUp id) }
  | .create => { events := [.createBegun task.pool] }
  | .creation episode due =>
    if due ≤ m.now then
      let made := (site.factory.make episode).1
      { change := some (task.pool, .creationEnded m.now made)
        events := made.toList.map fun c => .created task.pool (site.pool.nextResource, c.number) }
    else {}
  | .validate pooled => { events := [.validateBegun task.pool pooled.mark] }
  | .validation pooled episode due =>
    if due ≤ m.now then
      let valid := pooled.resource.healthy && !episode.fails
      { change := some (task.pool, .validationEnded m.now pooled valid) }
    else {}
  | .destroy pooled _ => { events := [.destroyBegun task.pool pooled.mark] }
  | .destruction episode due limit _ =>
    if due ≤ m.now then { change := some (task.pool, .destructionEnded !episode.fails) }
    else if limit.any fun limit => limit ≤ m.now then
      { change := some (task.pool, .destructionEnded false) }
    else {}
  | .evict due => m.evictDeed task site due
  | .drain => { change := some (task.pool, .beginDrain) }
  | .drainQueue => { change := some (task.pool, .purge) }
  | .sweep => { change := some (task.pool, .sweep) }
  | .work _ _ _ | .drainLoans | .takeEvictor | .drained _ | .clear | .clearDestructions | .ready
  | .finish _ => {}

/-- What happens when an action between others is performed. -/
def performDeed (m : Machine) (index : Nat) (before : List (Action Connection))
    (action : Action Connection) (after : List (Action Connection)) : Deed :=
  match action with
  | .deliver call lease =>
    { change := some (index, .deliver m.now m.sample before call lease after) }
  | action =>
    if m.runtime then { change := some (index, .launch before action after) }
    else
      { change := some (index, .abandon before action after)
        events := action.lost.map fun x => .lost index (x.1, x.2.number) }

/-- What happens when the caller goes away. -/
def stopDeed (id : TaskId) (task : Task) : Deed :=
  match task.phase with
  | .await _ _ _ => { events := [.answered task.pool id .cancelled] }
  | .destruction _ _ _ _ => { events := [.forsaken task.pool] }
  | _ => {}

/-- Time has passed, and who runs next, what the factories and the server will do and when tasks
are woken may have changed; pools, tasks and leases have not. -/
structure Elapses (m m' : Machine) : Prop where
  pools : m'.sites.map (·.pool) = m.sites.map (·.pool)
  evictors : m'.sites.map (·.evictor) = m.sites.map (·.evictor)
  made : m'.sites.map (·.factory.made) = m.sites.map (·.factory.made)
  tasks : m'.tasks = m.tasks
  nextTask : m'.nextTask = m.nextTask
  leases : m'.leases = m.leases
  runtime : m'.runtime = m.runtime
  clock : m.now ≤ m'.now
  log : m'.log = m.log

/-- A move and its deed. -/
inductive Move : Machine → Deed → Machine → Prop where
  /-- A task does the next part of its work. -/
  | part {m : Machine} {id : TaskId} {task : Task} {site : Site}
      (htask : m.tasks.get? id = some task) (hsite : m.sites[task.pool]? = some site) :
      Move m (m.deed id task site) (m.stepTask id task site)
  /-- A task that evicts was aborted in a turn of it that had begun, since its time had come; the
  turn is not broken off. -/
  | outlast {m : Machine} {id : TaskId} {task : Task} {site : Site} {due time : Instant}
      (htask : m.tasks.get? id = some task) (hsite : m.sites[task.pool]? = some site)
      (hphase : task.phase = .evict (some due)) (haborted : site.evictor = .aborted time)
      (hdue : due ≤ time) :
      Move m { change := some (task.pool, .evict m.now) }
        ((m.commit task.pool (site.pool.evict m.now)).proceed id (.finish .done))
  /-- An action is performed, not always the first. -/
  | perform {m : Machine} {index : Nat} {site : Site} {before after : List (Action Connection)}
      {action : Action Connection} (hsite : m.sites[index]? = some site)
      (houtbox : site.pool.outbox = before ++ action :: after) :
      Move m (m.performDeed index before action after)
        (m.perform index { site.pool with outbox := before ++ after } action)
  /-- A caller goes away. -/
  | stop {m : Machine} {id : TaskId} {task : Task} (htask : m.tasks.get? id = some task)
      (hstop : task.mayStop = true) : Move m (stopDeed id task) (m.giveUp id task)
  /-- A command starts a task of a pool that exists. -/
  | begin {m rest : Machine} {command : Command} {task : Task}
      (htask : m.taskFor command = some (task, rest)) (hsite : task.pool < m.sites.length) :
      Move m {} (rest.spawn task)
  /-- A lease is let go. -/
  | drop {m rest : Machine} {label : String} {lease : Lease Connection}
      (hlease : m.takeLease label = some (lease, rest)) :
      Move m { change := some (lease.pool, .reclaim m.now m.sample lease) } (rest.reclaim lease)
  | start {m : Machine} {index : Nat} {site : Site} (hsite : m.sites[index]? = some site) :
      Move m { change := some (index, .start) } (m.commit index site.pool.start)
  /-- Age limits are installed in a pool. That they may be taken out as well is more than programs
  can do, and makes the moves of pools comparable of which only one has limits. -/
  | recycle {m : Machine} {index : Nat} {site : Site} (recycling : Option RecyclingConfig)
      (hsite : m.sites[index]? = some site) :
      Move m { change := some (index, .setRecycling recycling) }
        (m.commit index (site.pool.setRecycling recycling))
  /-- A connection of a lease falls out of order. -/
  | sicken {m : Machine} (label : String) : Move m {} (m.act (.sicken label))
  /-- A task is to be given up when its turn comes. -/
  | cancel {m : Machine} (label : String) : Move m {} (m.act (.cancel label))
  /-- A pool is built. -/
  | build {m : Machine} (config : PoolConfig) (policy : EvictionPolicy)
      (recycling : Option RecyclingConfig) (factory : Factory) :
      Move m {} { m with sites := m.sites ++
        [{ pool := .idle m.sites.length config policy recycling, factory }] }
  /-- Time passes. -/
  | elapse {m m' : Machine} (h : m.Elapses m') : Move m {} m'

/-- Moves one after the other. -/
inductive Path : Machine → List Deed → Machine → Prop where
  | stay (m : Machine) : Path m [] m
  | move {m m' m'' : Machine} {trace : List Deed} {d : Deed} (h : Path m trace m')
      (hmove : Move m' d m'') : Path m (trace ++ [d]) m''

/-- Runs inside a runtime. -/
inductive Run : List Deed → Machine → Prop where
  | idle (server : Server) : Run [] { server }
  | move {trace : List Deed} {m m' : Machine} {d : Deed} (h : Run trace m) (hmove : Move m d m') :
      Run (trace ++ [d]) m'

/-- Runs in which there is not always a runtime. -/
inductive FreeRun : List Deed → Machine → Prop where
  | idle (server : Server) : FreeRun [] { server }
  | move {trace : List Deed} {m m' : Machine} {d : Deed} (h : FreeRun trace m)
      (hmove : Move m d m') : FreeRun (trace ++ [d]) m'
  /-- The runtime goes or comes, and with it the clock. -/
  | switch {trace : List Deed} {m : Machine} (h : FreeRun trace m) (runtime : Bool)
      (now : Instant) : FreeRun trace { m with runtime, now }

theorem Path.trans {m m' m'' : Machine} {trace trace' : List Deed} (h : Path m trace m')
    (h' : Path m' trace' m'') : Path m (trace ++ trace') m'' := by
  induction h' with
  | stay => rwa [List.append_nil]
  | move _ hmove ih =>
      rw [← List.append_assoc]
      exact .move ih hmove

theorem Run.path {trace trace' : List Deed} {m m' : Machine} (h : Run trace m)
    (hpath : Path m trace' m') : Run (trace ++ trace') m' := by
  induction hpath with
  | stay => rwa [List.append_nil]
  | move _ hmove ih =>
      rw [← List.append_assoc]
      exact .move ih hmove

theorem FreeRun.path {trace trace' : List Deed} {m m' : Machine} (h : FreeRun trace m)
    (hpath : Path m trace' m') : FreeRun (trace ++ trace') m' := by
  induction hpath with
  | stay => rwa [List.append_nil]
  | move _ hmove ih =>
      rw [← List.append_assoc]
      exact .move ih hmove

theorem Run.free {trace : List Deed} {m : Machine} (h : Run trace m) : FreeRun trace m := by
  induction h with
  | idle server => exact .idle server
  | move _ hmove ih => exact .move ih hmove

end Machine

end PooledSql
