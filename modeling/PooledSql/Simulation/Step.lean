import PooledSql.Simulation.Machine

/-!
# Steps

`Machine.step?` is the one rule by which a machine moves. Actions of pools come first, in their
order; then the running task does the next part of its work; when it waits or has ended, the
first in line is next. A part of the work has at most one critical section, so between two steps
no pool is ever seen half changed.
-/

namespace PooledSql.Machine

/-- Change the factory of a site. -/
def putFactory (m : Machine) (index : Nat) (factory : Factory) : Machine :=
  m.modifySite index fun site => { site with factory }

/-! ## Callers -/

/-- The caller has a lease: it keeps it, or begins its work. A lease that was kept under the
same label is let go. -/
def beginJob (m : Machine) (id : TaskId) (lease : Lease Connection) : Job → Machine
  | .keep label =>
    let outcome := .leased lease.id lease.resource.number
    let kept := { m with leases := (label, lease) :: m.leases.filter (·.1 != label) }
    match m.leases.lookup label with
    | some former => kept.proceed id (.letGo former outcome)
    | none => kept.proceed id (.finish outcome)
  | .hold duration fails =>
    (m.arm id (m.now + duration)).proceed id (.work lease (m.now + duration) (.hold duration fails))
  | .run statement request =>
    let due := m.now + m.server.delay
    let sending : Sending := ⟨m.time, lease.resource.number, statement⟩
    let m := { m with log := { m.log with statements := m.log.statements ++ [sending] } }
    (m.arm id due).proceed id (.work lease due (.run statement request))

/-- What follows when the work is done: the connection goes back, or is destroyed if it failed. -/
def afterWork (server : Server) (lease : Lease Connection) : Job → Phase
  | .keep _ => .giveBack lease .done
  | .hold _ true => .discard lease .broken
  | .hold _ false => .giveBack lease (.used lease.resource.number)
  | .run statement request =>
    match server.respond statement with
    | .ok rows => .giveBack lease (.replied (request.reply statement rows))
    | .error text => .discard lease (.failed (.connection text))

/-- The answer to the request is there. -/
def takeAnswer (m : Machine) (id : TaskId) (task : Task) (pool : Pool Connection) (job : Job)
    (answer : Except PoolError (Lease Connection)) : Machine :=
  let m := m.putPool task.pool (pool.hangUp id).2
  match answer with
  | .ok lease => (m.disarm id).beginJob id lease job
  | .error e => m.proceed id (.finish (job.refused e))

/-- Look for the answer to a request. When there is none, wait, or give up at the deadline. -/
def awaitAnswer (m : Machine) (id : TaskId) (task : Task) (pool : Pool Connection)
    (handle : QueueHandle) (deadline : Option Instant) (job : Job) : Machine :=
  match pool.receive id with
  | (.message answer, pool) => m.takeAnswer id task pool job answer
  | (.closed, pool) => m.takeAnswer id task pool job (.error .closed)
  | (.nothing, _) =>
    match pool.config.acquireTimeout with
    | none => m.suspend
    | some timeout =>
      let due := deadline.getD (m.now + timeout)
      if due ≤ m.now then m.proceed id (.withdraw handle timeout job)
      else
        let m := if deadline.isNone then m.arm id due else m
        (m.proceed id (.await handle (some due) job)).suspend

/-- The next part of a caller's work. -/
def stepCaller (m : Machine) (id : TaskId) (task : Task) (pool : Pool Connection) :
    Phase → Machine
  | .ask priority job =>
    match pool.request m.now id priority with
    | (.ok handle, pool) => (m.commit task.pool pool).proceed id (.await handle none job)
    | (.error e, pool) => (m.commit task.pool pool).proceed id (.finish (job.refused e))
  | .await handle deadline job => m.awaitAnswer id task pool handle deadline job
  | .withdraw handle timeout job =>
    (m.commit task.pool (pool.withdraw handle timeout)).proceed id (.lastLook timeout job)
  | .lastLook timeout job =>
    match pool.receive id with
    | (.message answer, pool) => m.takeAnswer id task pool job answer
    | _ => m.proceed id (.hangUp (job.refused (.acquireTimeout timeout)))
  | .work lease due job =>
    if due ≤ m.now then m.proceed id (afterWork m.server lease job) else m.suspend
  | .giveBack lease outcome =>
    if lease.pool ≠ pool.id then m.proceed id (.letGo lease (.refused .notInPool))
    else
      match pool.giveBack m.now m.sample lease with
      | (.ok none, pool) => (m.commit task.pool pool).nextSample.proceed id (.finish outcome)
      | (.ok (some pooled), pool) =>
        (m.commit task.pool pool).nextSample.proceed id (.destroy pooled outcome)
      | (.error e, pool) => (m.commit task.pool pool).proceed id (.finish (.refused e))
  | .discard lease outcome =>
    if lease.pool ≠ pool.id then m.proceed id (.letGo lease (.refused .notInPool))
    else
      match pool.discard lease with
      | (.ok pooled, pool) => (m.commit task.pool pool).proceed id (.destroy pooled outcome)
      | (.error e, pool) => (m.commit task.pool pool).proceed id (.finish (.refused e))
  | .letGo lease outcome => (m.reclaim lease).proceed id (.finish outcome)
  | .forget handle => (m.commit task.pool (pool.forget handle)).proceed id (.hangUp .done)
  | .hangUp outcome =>
    match pool.hangUp id with
    | (some lease, pool) => (m.putPool task.pool pool).proceed id (.letGo lease outcome)
    | (none, pool) => (m.putPool task.pool pool).proceed id (.finish outcome)
  | _ => m

/-! ## The factory -/

/-- The next part of making, validating or destroying a connection. -/
def stepFactory (m : Machine) (id : TaskId) (task : Task) (site : Site) : Phase → Machine
  | .create =>
    let (episode, creation) := site.factory.creation.next
    let due := m.now + episode.delay
    ((m.putFactory task.pool { site.factory with creation }).arm id due).proceed id
      (.creation episode due)
  | .creation episode due =>
    if due ≤ m.now then
      let (made, factory) := site.factory.make episode
      let entry := (m.time, made.map (·.number))
      let m := { m with log := { m.log with created := m.log.created ++ [entry] } }
      ((m.putFactory task.pool factory).commit task.pool
        (site.pool.creationEnded m.now made)).proceed id (.finish .done)
    else m.suspend
  | .validate pooled =>
    let (episode, validation) := site.factory.validation.next
    let due := m.now + episode.delay
    let entry := (m.time, pooled.resource.number)
    let m := { m with log := { m.log with validated := m.log.validated ++ [entry] } }
    ((m.putFactory task.pool { site.factory with validation }).arm id due).proceed id
      (.validation pooled episode due)
  | .validation pooled episode due =>
    if due ≤ m.now then
      let valid := pooled.resource.healthy && !episode.fails
      (m.commit task.pool (site.pool.validationEnded m.now pooled valid)).proceed id
        (.finish .done)
    else m.suspend
  | .destroy pooled outcome =>
    let (episode, destruction) := site.factory.destruction.next
    let due := m.now + episode.delay
    let limit := site.pool.config.destroyTimeout.map (m.now + ·)
    let entry := (m.time, pooled.resource.number)
    let m := { m with log := { m.log with destroyed := m.log.destroyed ++ [entry] } }
    let m := (m.putFactory task.pool { site.factory with destruction }).arm id due
    let m := match limit with
      | some limit => if m.now < due then m.arm id limit else m
      | none => m
    m.proceed id (.destruction episode due limit outcome)
  | .destruction episode due limit outcome =>
    let late := limit.any fun limit => limit ≤ m.now
    if due ≤ m.now then
      ((m.disarm id).commit task.pool (site.pool.destructionEnded !episode.fails)).proceed id
        (.finish outcome)
    else if late then
      ((m.disarm id).commit task.pool (site.pool.destructionEnded false)).proceed id
        (.finish outcome)
    else m.suspend
  | _ => m

/-! ## Tasks of the pool -/

/-- The next part of evicting, draining, clearing or waiting for the minimum. -/
def stepKeeper (m : Machine) (id : TaskId) (task : Task) (site : Site) : Phase → Machine
  | .evict due =>
    if site.evictor.isAborted then m.proceed id (.finish .done)
    else
      match due with
      | none =>
        let due := m.now + site.pool.config.evictionInterval
        ((m.arm id due).proceed id (.evict (some due))).suspend
      | some due =>
        if due ≤ m.now then
          (m.commit task.pool (site.pool.evict m.now)).proceed id (.evict none)
        else m.suspend
  | .drain => (m.commit task.pool site.pool.beginDrain).proceed id .drainQueue
  | .drainQueue =>
    let m := m.putPool task.pool site.pool.purge
    if site.pool.purge.waiting.isEmpty then m.proceed id .drainLoans else m.watch task.pool id
  | .drainLoans =>
    if site.pool.loans.isEmpty then m.proceed id .takeEvictor else m.watch task.pool id
  | .takeEvictor =>
    let m := m.commit task.pool site.pool
    match site.evictor with
    | .kept evictor =>
      (m.modifySite task.pool fun site => { site with evictor := .none }).proceed id
        (.drained (some evictor))
    | _ => m.proceed id (.drained none)
  | .drained (some evictor) => (m.abortEvictor task.pool evictor).proceed id (.finish .done)
  | .drained none => m.proceed id (.finish .done)
  | .clear => if site.pool.creating = 0 then m.proceed id .sweep else m.watch task.pool id
  | .sweep => (m.commit task.pool site.pool.sweep).proceed id .clearDestructions
  | .clearDestructions =>
    if site.pool.destroying = 0 then m.proceed id (.finish .done) else m.watch task.pool id
  | .ready =>
    if site.pool.config.min ≤ site.pool.available.length then m.proceed id (.finish .done)
    else m.watch task.pool id
  | _ => m

/-! ## The rule -/

/-- The next part of the running task's work. -/
def stepTask (m : Machine) (id : TaskId) (task : Task) (site : Site) : Machine :=
  match task.phase with
  | .finish outcome => m.conclude id task outcome
  | .ask _ _ | .await _ _ _ | .withdraw _ _ _ | .lastLook _ _ | .work _ _ _ | .giveBack _ _
  | .discard _ _ | .letGo _ _ | .forget _ | .hangUp _ => m.stepCaller id task site.pool task.phase
  | .create | .creation _ _ | .validate _ | .validation _ _ _ | .destroy _ _
  | .destruction _ _ _ _ => m.stepFactory id task site task.phase
  | .evict _ | .drain | .drainQueue | .drainLoans | .takeEvictor | .drained _ | .clear | .sweep
  | .clearDestructions | .ready => m.stepKeeper id task site task.phase

/-- Give up a task: it goes on with what is left to do and has no outcome. -/
def giveUp (m : Machine) (id : TaskId) (task : Task) : Machine :=
  { m.disarm id with
    tasks := m.tasks.insert id { task with
      phase := task.phase.unwind, label := none, cancelled := false }
    sites := m.sites.map fun site => { site with watchers := site.watchers.filter (· != id) }
    running := some id }

/-- Run the first in line. -/
def resume (m : Machine) (id : TaskId) (line : List TaskId) : Machine :=
  let m := { m with running := some id, line }
  match m.tasks.get? id with
  | some task => if task.cancelled then m.giveUp id task else m
  | none => m.suspend

/-- The next step, if there is one before the clock moves. -/
def step? (m : Machine) : Option Machine :=
  match firstAction 0 m.sites with
  | some (index, pool, action) => some (m.perform index pool action)
  | none =>
    match m.running with
    | some id =>
      match m.tasks.get? id with
      | some task =>
        match m.sites[task.pool]? with
        | some site => some (m.stepTask id task site)
        | none => some (m.conclude id task .done)
      | none => some m.suspend
    | none =>
      match m.runtime, m.line with
      | true, id :: line => some (m.resume id line)
      | _, _ => none

end PooledSql.Machine
