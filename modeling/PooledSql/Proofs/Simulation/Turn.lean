import PooledSql.Proofs.Simulation.Scene

/-!
# Turns

`Turn` lists what a task can do in one part of its work: by the phase that it is in, the deed and
the scene that comes of it. `Act` lists what else can happen in a move. `Machine.Move.cases` is the
only place where the operations of the machine are opened; every invariant goes by cases on turns
and acts.
-/

namespace PooledSql

open Machine

/-- The task looks for the answer to a request that it has made for a job. -/
inductive Phase.Looks (job : Job) : Phase → Prop where
  | await (handle : QueueHandle) (deadline : Option Instant) :
      Looks job (.await handle deadline job)
  | lastLook (timeout : Duration) : Looks job (.lastLook timeout job)

/-- After its work a lease is given back or discarded. -/
theorem afterWork_cases (server : Server) (lease : Lease Connection) (job : Job) :
    ∃ outcome, afterWork server lease job = .giveBack lease outcome ∨
      afterWork server lease job = .discard lease outcome := by
  cases job with
  | keep label => exact ⟨_, .inl rfl⟩
  | hold duration fails =>
      cases fails with
      | false => exact ⟨_, .inl rfl⟩
      | true => exact ⟨_, .inr rfl⟩
  | run statement request =>
      rw [afterWork]
      split
      · exact ⟨_, .inl rfl⟩
      · exact ⟨_, .inr rfl⟩

/-- One part of the work of a task, by its phase. -/
inductive Turn (m : Machine) (id : TaskId) (task : Task) (site : Site) :
    Phase → Deed → Scene → Prop where
  /-- The task waits. -/
  | wait (phase : Phase) : Turn m id task site phase {} m.scene
  | ask {priority : Nat} {job : Job} {handle : QueueHandle} {pool : Pool Connection}
      (h : site.pool.request m.now id priority = (.ok handle, pool)) :
      Turn m id task site (.ask priority job)
        { change := some (task.pool, .request m.now id priority)
          events := [.accepted task.pool id] }
        ((m.scene.put task.pool pool).go id (.await handle none job))
  | refused {priority : Nat} {job : Job} {e : PoolError} {pool : Pool Connection}
      (h : site.pool.request m.now id priority = (.error e, pool)) :
      Turn m id task site (.ask priority job)
        { change := some (task.pool, .request m.now id priority) }
        ((m.scene.put task.pool pool).go id (.finish (job.refused e)))
  /-- A lease has come and is kept; one that was kept under the label is let go. -/
  | keep {phase next : Phase} {label : String} {lease : Lease Connection}
      (hlooks : phase.Looks (.keep label)) (h : (site.pool.receive id).1 = .message (.ok lease))
      (hnext : next = match m.leases.lookup label with
        | some former => .letGo former (.leased lease.id lease.resource.number)
        | none => .finish (.leased lease.id lease.resource.number)) :
      Turn m id task site phase
        { change := some (task.pool, .hangUp id)
          events := [.answered task.pool id (.leased lease.mark)] }
        ({ m.scene.put task.pool (site.pool.hangUp id).2 with
          leases := (label, lease) :: m.leases.filter (·.1 != label) }.go id next)
  /-- A lease has come and is held. -/
  | hold {phase : Phase} {duration : Duration} {fails : Bool} {lease : Lease Connection}
      (hlooks : phase.Looks (.hold duration fails))
      (h : (site.pool.receive id).1 = .message (.ok lease)) :
      Turn m id task site phase
        { change := some (task.pool, .hangUp id)
          events := [.answered task.pool id (.leased lease.mark)] }
        ((m.scene.put task.pool (site.pool.hangUp id).2).go id
          (.work lease (m.now + duration) (.hold duration fails)))
  /-- A lease has come and a statement is sent. -/
  | send {phase : Phase} {statement : CompiledQuery} {request : Request}
      {lease : Lease Connection} (hlooks : phase.Looks (.run statement request))
      (h : (site.pool.receive id).1 = .message (.ok lease)) :
      Turn m id task site phase
        { change := some (task.pool, .hangUp id)
          events := [.answered task.pool id (.leased lease.mark),
            .sent task.pool lease.resource.number statement] }
        ((m.scene.put task.pool (site.pool.hangUp id).2).go id
          (.work lease (m.now + m.server.delay) (.run statement request)))
  /-- There will be no lease. -/
  | unanswered {phase : Phase} {job : Job} {e : PoolError} (hlooks : phase.Looks job)
      (h : (site.pool.receive id).1 = .message (.error e) ∨
        (site.pool.receive id).1 = .closed ∧ e = .closed) :
      Turn m id task site phase
        { change := some (task.pool, .hangUp id)
          events := [.answered task.pool id (.refused e)] }
        ((m.scene.put task.pool (site.pool.hangUp id).2).go id (.finish (job.refused e)))
  /-- The task goes on waiting for its lease, up to the deadline. -/
  | await {handle : QueueHandle} {deadline : Option Instant} {due : Instant} {job : Job} :
      Turn m id task site (.await handle deadline job) {}
        (m.scene.go id (.await handle (some due) job))
  | timeout {handle : QueueHandle} {deadline : Option Instant} {timeout : Duration} {job : Job}
      (hnothing : (site.pool.receive id).1 = .nothing)
      (htimeout : site.pool.config.acquireTimeout = some timeout)
      (hdue : deadline.getD (m.now + timeout) ≤ m.now) :
      Turn m id task site (.await handle deadline job) {}
        (m.scene.go id (.withdraw handle timeout job))
  | withdraw {handle : QueueHandle} {timeout : Duration} {job : Job} :
      Turn m id task site (.withdraw handle timeout job)
        { change := some (task.pool, .withdraw handle timeout) }
        ((m.scene.put task.pool (site.pool.withdraw handle timeout)).go id (.lastLook timeout job))
  /-- No answer has come meanwhile. -/
  | late {timeout : Duration} {job : Job}
      (h : ∀ answer, (site.pool.receive id).1 ≠ .message answer) :
      Turn m id task site (.lastLook timeout job)
        { events := [.answered task.pool id (.refused (.acquireTimeout timeout))] }
        (m.scene.go id (.hangUp (job.refused (.acquireTimeout timeout))))
  | worked {lease : Lease Connection} {due : Instant} {job : Job} (hdue : due ≤ m.now) :
      Turn m id task site (.work lease due job) {}
        (m.scene.go id (afterWork m.server lease job))
  /-- A lease of another pool is not taken back but goes to its lender. -/
  | giveBackForeign {lease : Lease Connection} {outcome : Outcome}
      (h : lease.pool ≠ site.pool.id) : Turn m id task site (.giveBack lease outcome) {}
        (m.scene.go id (.letGo lease (.refused .notInPool)))
  | giveBack {lease : Lease Connection} {outcome : Outcome} {pool : Pool Connection}
      (hlender : lease.pool = site.pool.id)
      (h : site.pool.giveBack m.now m.sample lease = (.ok none, pool)) :
      Turn m id task site (.giveBack lease outcome)
        { change := some (task.pool, .giveBack m.now m.sample lease) }
        ((m.scene.put task.pool pool).go id (.finish outcome))
  | recycle {lease : Lease Connection} {outcome : Outcome} {pool : Pool Connection}
      {x : Pooled Connection} (hlender : lease.pool = site.pool.id)
      (h : site.pool.giveBack m.now m.sample lease = (.ok (some x), pool)) :
      Turn m id task site (.giveBack lease outcome)
        { change := some (task.pool, .giveBack m.now m.sample lease) }
        ((m.scene.put task.pool pool).go id (.destroy x outcome))
  | giveBackRefused {lease : Lease Connection} {outcome : Outcome} {pool : Pool Connection}
      {e : PoolError} (hlender : lease.pool = site.pool.id)
      (h : site.pool.giveBack m.now m.sample lease = (.error e, pool)) :
      Turn m id task site (.giveBack lease outcome)
        { change := some (task.pool, .giveBack m.now m.sample lease) }
        ((m.scene.put task.pool pool).go id (.finish (.refused e)))
  | discardForeign {lease : Lease Connection} {outcome : Outcome}
      (h : lease.pool ≠ site.pool.id) : Turn m id task site (.discard lease outcome) {}
        (m.scene.go id (.letGo lease (.refused .notInPool)))
  | discard {lease : Lease Connection} {outcome : Outcome} {pool : Pool Connection}
      {x : Pooled Connection} (hlender : lease.pool = site.pool.id)
      (h : site.pool.discard lease = (.ok x, pool)) :
      Turn m id task site (.discard lease outcome)
        { change := some (task.pool, .discard lease) }
        ((m.scene.put task.pool pool).go id (.destroy x outcome))
  | discardRefused {lease : Lease Connection} {outcome : Outcome} {pool : Pool Connection}
      {e : PoolError} (hlender : lease.pool = site.pool.id)
      (h : site.pool.discard lease = (.error e, pool)) :
      Turn m id task site (.discard lease outcome)
        { change := some (task.pool, .discard lease) }
        ((m.scene.put task.pool pool).go id (.finish (.refused e)))
  | letGo {lease : Lease Connection} {outcome : Outcome} :
      Turn m id task site (.letGo lease outcome)
        { change := some (lease.pool, .reclaim m.now m.sample lease) }
        ((m.reclaim lease).scene.go id (.finish outcome))
  | forget {handle : QueueHandle} : Turn m id task site (.forget handle)
      { change := some (task.pool, .forget handle) }
      ((m.scene.put task.pool (site.pool.forget handle)).go id (.hangUp .done))
  /-- The answer is not awaited any more, and a lease that had come is let go. -/
  | hangUp {outcome : Outcome} {next : Phase} (hnext : next = match (site.pool.hangUp id).1 with
        | some lease => .letGo lease outcome
        | none => .finish outcome) :
      Turn m id task site (.hangUp outcome) { change := some (task.pool, .hangUp id) }
        ((m.scene.put task.pool (site.pool.hangUp id).2).go id next)
  | create {episode : Episode} {due : Instant} : Turn m id task site .create
      { events := [.createBegun task.pool] } (m.scene.go id (.creation episode due))
  | created {episode : Episode} {due : Instant} {made : Option Connection}
      (hmade : made = (site.factory.make episode).1) : Turn m id task site (.creation episode due)
        { change := some (task.pool, .creationEnded m.now made)
          events := made.toList.map fun c =>
            .created task.pool (site.pool.nextResource, c.number) }
        ((m.scene.put task.pool (site.pool.creationEnded m.now made)).go id (.finish .done))
  | validate {x : Pooled Connection} {episode : Episode} {due : Instant} :
      Turn m id task site (.validate x) { events := [.validateBegun task.pool x.mark] }
        (m.scene.go id (.validation x episode due))
  | validated {x : Pooled Connection} {episode : Episode} {due : Instant} {valid : Bool}
      (hvalid : valid = (x.resource.healthy && !episode.fails)) :
      Turn m id task site (.validation x episode due)
        { change := some (task.pool, .validationEnded m.now x valid) }
        ((m.scene.put task.pool (site.pool.validationEnded m.now x valid)).go id (.finish .done))
  | destroy {x : Pooled Connection} {outcome : Outcome} {episode : Episode} {due : Instant}
      {limit : Option Instant} : Turn m id task site (.destroy x outcome)
        { events := [.destroyBegun task.pool x.mark] }
        (m.scene.go id (.destruction episode due limit outcome))
  | destroyed {episode : Episode} {due : Instant} {limit : Option Instant} {outcome : Outcome}
      (succeeded : Bool) : Turn m id task site (.destruction episode due limit outcome)
        { change := some (task.pool, .destructionEnded succeeded) }
        ((m.scene.put task.pool (site.pool.destructionEnded succeeded)).go id (.finish outcome))
  | evictLater {due : Instant} (h : site.evictor.isAborted = false) :
      Turn m id task site (.evict none) {} (m.scene.go id (.evict (some due)))
  | evict {due : Instant} (h : site.evictor.isAborted = false) :
      Turn m id task site (.evict (some due)) { change := some (task.pool, .evict m.now) }
        ((m.scene.put task.pool (site.pool.evict m.now)).go id (.evict none))
  /-- The task was aborted and ends. -/
  | aborted {due : Option Instant} (h : site.evictor.isAborted = true) :
      Turn m id task site (.evict due) {} (m.scene.go id (.finish .done))
  /-- The task was aborted in the middle of this turn, which it ends. -/
  | outlast {due time : Instant} (h : site.evictor = .aborted time) (hdue : due ≤ time) :
      Turn m id task site (.evict (some due)) { change := some (task.pool, .evict m.now) }
        ((m.scene.put task.pool (site.pool.evict m.now)).go id (.finish .done))
  | drain : Turn m id task site .drain { change := some (task.pool, .beginDrain) }
      ((m.scene.put task.pool site.pool.beginDrain).go id .drainQueue)
  | drainQueue : Turn m id task site .drainQueue { change := some (task.pool, .purge) }
      (m.scene.put task.pool site.pool.purge)
  | queueDrained (h : site.pool.purge.waiting.isEmpty = true) : Turn m id task site .drainQueue
      { change := some (task.pool, .purge) }
      ((m.scene.put task.pool site.pool.purge).go id .drainLoans)
  | loansDrained (h : site.pool.loans.isEmpty = true) : Turn m id task site .drainLoans {}
      (m.scene.go id .takeEvictor)
  | takeEvictor {evictor : TaskId} (h : site.evictor = .kept evictor) :
      Turn m id task site .takeEvictor {}
        ({ m.scene with evictors := m.scene.evictors.set task.pool .none }.go id
          (.drained (some evictor)))
  /-- There is no task to abort, or another drain aborts it. -/
  | leaveEvictor (h : ∀ evictor, site.evictor ≠ .kept evictor) :
      Turn m id task site .takeEvictor {} (m.scene.go id (.drained none))
  /-- The pool is drained, and the task that evicts is aborted. -/
  | abort {evictor : TaskId} : Turn m id task site (.drained (some evictor)) {}
      ({ m.scene with evictors := m.scene.evictors.set task.pool (.aborted m.now) }.go id
        (.finish .done))
  /-- The pool is drained, and no task is aborted. -/
  | drained : Turn m id task site (.drained none) {} (m.scene.go id (.finish .done))
  | clear (h : site.pool.creating = 0) : Turn m id task site .clear {} (m.scene.go id .sweep)
  | sweep : Turn m id task site .sweep { change := some (task.pool, .sweep) }
      ((m.scene.put task.pool site.pool.sweep).go id .clearDestructions)
  | cleared (h : site.pool.destroying = 0) : Turn m id task site .clearDestructions {}
      (m.scene.go id (.finish .done))
  | ready (h : site.pool.config.min ≤ site.pool.available.length) :
      Turn m id task site .ready {} (m.scene.go id (.finish .done))
  | finish {outcome : Outcome} : Turn m id task site (.finish outcome) {} (m.scene.remove id)

namespace Machine

variable {m : Machine} {id : TaskId} {task : Task} {site : Site}

/-- After a look for the answer, hanging up leaves the pool as it does without one. -/
theorem hangUp_receive {pool : Pool Connection} {receipt : Deferred.Receipt PoolError _}
    (h : site.pool.receive id = (receipt, pool)) :
    (pool.hangUp id).2 = (site.pool.hangUp id).2 := by
  rw [Pool.receive] at h
  split at h <;> cases h
  · simp only [Pool.hangUp, Registry.erase_insert]
  · rfl

/-- Taking a lease or an error for the answer is a turn. -/
theorem turn_answer {phase : Phase} {job : Job} {receipt : Deferred.Receipt PoolError _}
    {answer : Except PoolError (Lease Connection)} {pool : Pool Connection}
    (hlooks : phase.Looks job) (hreceive : site.pool.receive id = (receipt, pool))
    (hanswer : receipt = .message answer ∨ receipt = .closed ∧ answer = .error .closed) :
    Turn m id task site phase (answerDeed id task job answer)
      (m.takeAnswer id task pool job answer).scene := by
  have hfst : (site.pool.receive id).1 = receipt := congrArg Prod.fst hreceive
  have hhangUp := hangUp_receive hreceive
  cases answer with
  | error e =>
      simp only [takeAnswer, hhangUp, answerDeed, scene_proceed, scene_putPool]
      refine .unanswered hlooks ?_
      rw [hfst]
      obtain h | ⟨hclosed, h⟩ := hanswer
      · exact .inl h
      · cases h
        exact .inr ⟨hclosed, rfl⟩
  | ok lease =>
      obtain rfl : receipt = .message (.ok lease) := hanswer.resolve_right (by simp)
      cases job with
      | keep label =>
          have hturn : Turn m id task site phase _ _ := .keep hlooks hfst rfl
          have hleases : ((m.putPool task.pool (site.pool.hangUp id).2).disarm id).leases =
            m.leases := rfl
          simp only [takeAnswer, hhangUp, beginJob, hleases, answerDeed]
          cases hformer : m.leases.lookup label <;> rw [hformer] at hturn <;>
            simp only [scene_proceed, scene_leases, scene_disarm, scene_putPool] <;>
            exact hturn
      | hold duration fails =>
          simp only [takeAnswer, hhangUp, answerDeed, beginJob, scene_proceed, scene_arm,
            scene_disarm, scene_putPool]
          exact .hold hlooks hfst
      | run statement request =>
          simp only [takeAnswer, hhangUp, answerDeed, beginJob, scene_proceed, scene_arm,
            scene_log, scene_disarm, scene_putPool]
          exact .send hlooks hfst

/-- Looking for an answer is a turn. -/
theorem turn_await (handle : QueueHandle) (deadline : Option Instant) (job : Job) :
    Turn m id task site (.await handle deadline job)
      (match (site.pool.receive id).1 with
        | .message answer => answerDeed id task job answer
        | .closed => answerDeed id task job (.error .closed)
        | .nothing => {})
      (m.awaitAnswer id task site.pool handle deadline job).scene := by
  rcases hreceive : site.pool.receive id with ⟨receipt, pool⟩
  simp only [awaitAnswer, hreceive]
  cases receipt with
  | message answer => exact turn_answer (.await handle deadline) hreceive (.inl rfl)
  | closed => exact turn_answer (.await handle deadline) hreceive (.inr ⟨rfl, rfl⟩)
  | nothing =>
      cases htimeout : site.pool.config.acquireTimeout with
      | none => exact .wait _
      | some timeout =>
          simp only
          split
          · rename_i hdue
            rw [scene_proceed]
            exact .timeout (congrArg Prod.fst hreceive) htimeout hdue
          · simp only [scene_suspend, scene_proceed]
            split <;> (try simp only [scene_arm]) <;> exact .await

/-- Looking once more is a turn. -/
theorem turn_lastLook (timeout : Duration) (job : Job) :
    Turn m id task site (.lastLook timeout job)
      (match (site.pool.receive id).1 with
        | .message answer => answerDeed id task job answer
        | _ => { events := [.answered task.pool id (.refused (.acquireTimeout timeout))] })
      (m.stepCaller id task site.pool (.lastLook timeout job)).scene := by
  rcases hreceive : site.pool.receive id with ⟨receipt, pool⟩
  have hfst : (site.pool.receive id).1 = receipt := congrArg Prod.fst hreceive
  simp only [stepCaller, hreceive]
  cases receipt with
  | message answer => exact turn_answer (.lastLook timeout) hreceive (.inl rfl)
  | nothing | closed =>
      rw [scene_proceed]
      exact .late (by simp [hfst])

/-- What a task does next that evicts is a turn. -/
theorem turn_evict (due : Option Instant) :
    Turn m id task site (.evict due) (m.evictDeed task site due)
      (m.stepKeeper id task site (.evict due)).scene := by
  unfold evictDeed
  simp only [stepKeeper]
  split <;> rename_i haborted
  · rw [scene_proceed]
    exact .aborted haborted
  · replace haborted := Bool.eq_false_of_not_eq_true haborted
    cases due with
    | none =>
        simp only [scene_suspend, scene_proceed, scene_arm]
        exact .evictLater haborted
    | some due =>
        dsimp only
        split <;> simp only [scene_proceed, scene_commit, scene_suspend]
        · exact .evict haborted
        · exact .wait _

/-- What a task does next is a turn. -/
theorem turn_part (hsite : m.sites[task.pool]? = some site) :
    Turn m id task site task.phase (m.deed id task site) (m.stepTask id task site).scene := by
  rw [stepTask, deed]
  cases task.phase with
  | ask priority job =>
      rcases h : site.pool.request m.now id priority with ⟨answer, pool⟩
      cases answer <;> simp only [stepCaller, h, scene_proceed, scene_commit]
      · exact .refused h
      · exact .ask h
  | await handle deadline job => exact turn_await handle deadline job
  | withdraw handle timeout job =>
      simp only [stepCaller, scene_proceed, scene_commit]
      exact .withdraw
  | lastLook timeout job => exact turn_lastLook timeout job
  | work lease due job =>
      simp only [stepCaller]
      split <;> simp only [scene_proceed, scene_suspend]
      · rename_i h
        exact .worked h
      · exact .wait _
  | giveBack lease outcome =>
      simp only [stepCaller]
      by_cases hlender : lease.pool = site.pool.id
      · rw [if_pos hlender, if_neg (not_not.2 hlender)]
        split <;> rename_i h <;> simp only [scene_proceed, scene_commit, scene_nextSample]
        · exact .giveBack hlender h
        · exact .recycle hlender h
        · exact .giveBackRefused hlender h
      · rw [if_neg hlender, if_pos hlender, scene_proceed]
        exact .giveBackForeign hlender
  | discard lease outcome =>
      simp only [stepCaller]
      by_cases hlender : lease.pool = site.pool.id
      · rw [if_pos hlender, if_neg (not_not.2 hlender)]
        split <;> rename_i h <;> simp only [scene_proceed, scene_commit]
        · exact .discard hlender h
        · exact .discardRefused hlender h
      · rw [if_neg hlender, if_pos hlender, scene_proceed]
        exact .discardForeign hlender
  | letGo lease outcome =>
      simp only [stepCaller, scene_proceed]
      exact .letGo
  | forget handle =>
      simp only [stepCaller, scene_proceed, scene_commit]
      exact .forget
  | hangUp outcome =>
      simp only [stepCaller]
      split <;> rename_i h <;> simp only [scene_proceed, scene_putPool]
      · have hturn : Turn m id task site (.hangUp outcome) _ _ := .hangUp rfl
        rwa [h] at hturn
      · have hturn : Turn m id task site (.hangUp outcome) _ _ := .hangUp rfl
        rwa [h] at hturn
  | create =>
      simp only [stepFactory, scene_proceed, scene_arm, scene_putFactory]
      exact .create
  | creation episode due =>
      simp only [stepFactory]
      split <;> simp only [scene_proceed, scene_commit, scene_putFactory, scene_log, scene_suspend]
      · exact .created rfl
      · exact .wait _
  | validate x =>
      simp only [stepFactory, scene_proceed, scene_arm, scene_putFactory, scene_log]
      exact .validate
  | validation x episode due =>
      simp only [stepFactory]
      split <;> simp only [scene_proceed, scene_commit, scene_suspend]
      · exact .validated rfl
      · exact .wait _
  | destroy x outcome =>
      simp only [stepFactory, scene_proceed]
      split
      · split <;> simp only [scene_arm, scene_putFactory, scene_log] <;> exact .destroy
      · simp only [scene_arm, scene_putFactory, scene_log]
        exact .destroy
  | destruction episode due limit outcome =>
      simp only [stepFactory]
      split
      · simp only [scene_proceed, scene_commit, scene_disarm]
        exact .destroyed _
      · split <;> simp only [scene_proceed, scene_commit, scene_disarm, scene_suspend]
        · exact .destroyed false
        · exact .wait _
  | evict due => exact turn_evict due
  | drain =>
      simp only [stepKeeper, scene_proceed, scene_commit]
      exact .drain
  | drainQueue =>
      simp only [stepKeeper]
      split <;> simp only [scene_proceed, scene_putPool, scene_watch]
      · rename_i h
        exact .queueDrained h
      · exact .drainQueue
  | drainLoans =>
      simp only [stepKeeper]
      split <;> simp only [scene_proceed, scene_watch]
      · rename_i h
        exact .loansDrained h
      · exact .wait _
  | takeEvictor =>
      have hput : m.scene.put task.pool site.pool = m.scene :=
        m.scene.put_self (pools_of_site hsite)
      simp only [stepKeeper]
      split <;> simp only [scene_proceed, scene_evictor, scene_commit, hput]
      · exact .takeEvictor ‹_›
      · exact .leaveEvictor ‹_›
  | drained evictor =>
      cases evictor with
      | none =>
          simp only [stepKeeper, scene_proceed]
          exact .drained
      | some evictor =>
          simp only [stepKeeper, scene_proceed, scene_abortEvictor]
          exact .abort
  | clear =>
      simp only [stepKeeper]
      split <;> simp only [scene_proceed, scene_watch]
      · rename_i h
        exact .clear h
      · exact .wait _
  | sweep =>
      simp only [stepKeeper, scene_proceed, scene_commit]
      exact .sweep
  | clearDestructions =>
      simp only [stepKeeper]
      split <;> simp only [scene_proceed, scene_watch]
      · rename_i h
        exact .cleared h
      · exact .wait _
  | ready =>
      simp only [stepKeeper]
      split <;> simp only [scene_proceed, scene_watch]
      · rename_i h
        exact .ready h
      · exact .wait _
  | finish outcome =>
      simp only [scene_conclude]
      exact .finish

end Machine

/-! ## Acts -/

/-- What the task does that an action starts. -/
def Action.phase : Action Connection → Phase
  | .evict => .evict none
  | .create => .create
  | .validate x => .validate x
  | .destroy x => .destroy x .done
  | .deliver _ _ => .finish .done

/-- The task of a command begins with this phase. -/
def Phase.begins : Phase → Bool
  | .ask _ _ | .drain | .clear | .ready | .finish _ => true
  | _ => false

/-- What happens in a move that is no part of a task's work. -/
inductive Act (m : Machine) : Deed → Scene → Prop where
  | deliver {index : Nat} {pool : Pool Connection} {before after : List (Action Connection)}
      {call : CallId} {lease : Lease Connection} (hpool : m.pool? index = some pool)
      (houtbox : pool.outbox = before ++ .deliver call lease :: after) :
      Act m { change := some (index, .deliver m.now m.sample before call lease after) }
        (m.scene.put index (Section.run pool (.deliver m.now m.sample before call lease after)))
  | launch {index : Nat} {pool : Pool Connection} {before after : List (Action Connection)}
      {action : Action Connection} {evictors : List EvictorHandle}
      (hpool : m.pool? index = some pool) (houtbox : pool.outbox = before ++ action :: after)
      (hleases : action.leases = [])
      (hevictors : action ≠ .evict ∧ evictors = m.scene.evictors ∨
        action = .evict ∧ evictors = m.scene.evictors.set index (.kept m.nextTask)) :
      Act m { change := some (index, .launch before action after) }
        { (m.scene.put index (Section.run pool (.launch before action after))).spawn
          ⟨index, none, action.phase, false⟩ with evictors }
  | abandon {index : Nat} {pool : Pool Connection} {before after : List (Action Connection)}
      {action : Action Connection} {evictors : List EvictorHandle}
      (hpool : m.pool? index = some pool) (houtbox : pool.outbox = before ++ action :: after)
      (hleases : action.leases = []) (hruntime : m.runtime = false)
      (hevictors : evictors = m.scene.evictors ∨ evictors = m.scene.evictors.set index .none) :
      Act m { change := some (index, .abandon before action after)
              events := action.lost.map fun x => .lost index (x.1, x.2.number) }
        { m.scene.put index (Section.run pool (.abandon before action after)) with evictors }
  | stop {id : TaskId} {task : Task} (htask : m.tasks.get? id = some task)
      (hstop : task.mayStop = true) :
      Act m (Machine.stopDeed id task) { m.scene with tasks := m.tasks.insert id { task with
        phase := task.phase.unwind, label := none, cancelled := false } }
  | begin {task : Task} (hphase : task.phase.begins = true)
      (hsite : task.pool < m.sites.length) : Act m {} (m.scene.spawn task)
  /-- A task takes a lease that was kept, to give it back or have it destroyed. -/
  | beginReturn {label : String} {lease : Lease Connection} {task : Task}
      (hlease : m.leases.lookup label = some lease)
      (hphase : task.phase = .giveBack lease .done ∨ task.phase = .discard lease .done)
      (hsite : task.pool < m.sites.length) :
      Act m {} ({ m.scene with leases := m.leases.filter (·.1 != label) }.spawn task)
  | drop {label : String} {lease : Lease Connection} {scene : Scene}
      (hlease : m.leases.lookup label = some lease)
      (hscene : scene = match m.pool? lease.pool with
        | some pool => m.scene.put lease.pool (pool.reclaim m.now m.sample lease)
        | none => m.scene) :
      Act m { change := some (lease.pool, .reclaim m.now m.sample lease) }
        { scene with leases := m.leases.filter (·.1 != label) }
  | start {index : Nat} {pool : Pool Connection} (hpool : m.pool? index = some pool) :
      Act m { change := some (index, .start) } (m.scene.put index pool.start)
  | recycle {index : Nat} {pool : Pool Connection} (recycling : Option RecyclingConfig)
      (hpool : m.pool? index = some pool) :
      Act m { change := some (index, .setRecycling recycling) }
        (m.scene.put index (pool.setRecycling recycling))
  | sicken (label : String) : Act m {} { m.scene with
      leases := m.leases.map fun (key, lease) =>
        (key, if key = label then
          { lease with resource := { lease.resource with healthy := false } } else lease) }
  | cancel {id : TaskId} {task : Task} (htask : m.tasks.get? id = some task) :
      Act m {} { m.scene with tasks := m.tasks.insert id { task with cancelled := true } }
  | build (config : PoolConfig) (policy : EvictionPolicy) (recycling : Option RecyclingConfig) :
      Act m {} { m.scene with
        pools := m.scene.pools ++ [.idle m.scene.pools.length config policy recycling]
        evictors := m.scene.evictors ++ [.none] }
  | elapse : Act m {} m.scene

namespace Machine

variable {m : Machine}

/-- Starting the task of an action is an act, if it can be done or not. -/
theorem act_launch {index : Nat} {pool : Pool Connection} {before after : List (Action Connection)}
    {action : Action Connection} (hpool : m.pool? index = some pool)
    (houtbox : pool.outbox = before ++ action :: after) (hleases : action.leases = [])
    (hevict : action ≠ .evict) :
    Act m (if m.runtime then { change := some (index, .launch before action after) }
        else
          { change := some (index, .abandon before action after)
            events := action.lost.map fun x => .lost index (x.1, x.2.number) })
      (m.launch index { pool with outbox := before ++ after } action action.phase).scene := by
  rw [launch]
  cases hruntime : m.runtime with
  | true =>
      simp only [if_true, scene_spawn, scene_putPool]
      exact .launch hpool houtbox hleases (.inl ⟨hevict, rfl⟩)
  | false =>
      simp only [Bool.false_eq_true, if_false, scene_commit]
      exact .abandon hpool houtbox hleases hruntime (.inl rfl)

/-- Performing an action is an act. -/
theorem act_perform {index : Nat} {site : Site} {before after : List (Action Connection)}
    {action : Action Connection} (hsite : m.sites[index]? = some site)
    (houtbox : site.pool.outbox = before ++ action :: after) :
    Act m (m.performDeed index before action after)
      (m.perform index { site.pool with outbox := before ++ after } action).scene := by
  have hpool := pool?_of_site hsite
  cases action with
  | deliver call lease =>
      have hact := Act.deliver hpool houtbox
      rw [Section.run] at hact
      simp only [perform, deliver]
      split <;> rename_i h <;> rw [h] at hact
      · rw [apply_ite scene, scene_wake, ite_self, scene_putPool]
        exact hact
      · rw [scene_nextSample, scene_commit]
        exact hact
  | evict =>
      simp only [perform, performDeed, launch]
      cases hruntime : m.runtime with
      | true =>
          simp only [if_true, scene_evictor, scene_spawn, scene_putPool]
          exact .launch hpool houtbox rfl (.inr ⟨rfl, rfl⟩)
      | false =>
          simp only [Bool.false_eq_true, if_false, scene_evictor, scene_commit]
          exact .abandon hpool houtbox rfl hruntime (.inr rfl)
  | _ => exact act_launch hpool houtbox rfl nofun

theorem takeLease_eq_some {rest : Machine} {label : String} {lease : Lease Connection}
    (h : m.takeLease label = some (lease, rest)) : m.leases.lookup label = some lease ∧
      rest = { m with leases := m.leases.filter (·.1 != label) } := by
  obtain ⟨lease, hlease, heq⟩ := Option.map_eq_some_iff.1 h
  cases heq
  exact ⟨hlease, rfl⟩

/-- Starting the task of a command is an act. -/
theorem act_begin {rest : Machine} {command : Command} {task : Task}
    (htask : m.taskFor command = some (task, rest)) (hsite : task.pool < m.sites.length) :
    Act m {} (rest.spawn task).scene := by
  rw [scene_spawn]
  cases command with
  | acquire pool label priority =>
      cases htask
      exact .begin rfl hsite
  | use pool label priority duration fails =>
      cases htask
      exact .begin rfl hsite
  | call db label request fragment =>
      cases htask
      refine .begin ?_ hsite
      split
      · rfl
      · split <;> rfl
  | release pool label =>
      obtain ⟨⟨lease, m'⟩, htake, heq⟩ := Option.map_eq_some_iff.1 htask
      obtain ⟨hlease, rfl⟩ := takeLease_eq_some htake
      cases heq
      exact .beginReturn hlease (.inl rfl) hsite
  | destroy pool label =>
      obtain ⟨⟨lease, m'⟩, htake, heq⟩ := Option.map_eq_some_iff.1 htask
      obtain ⟨hlease, rfl⟩ := takeLease_eq_some htake
      cases heq
      exact .beginReturn hlease (.inr rfl) hsite
  | drain pool label =>
      cases htask
      exact .begin rfl hsite
  | clear pool label =>
      cases htask
      exact .begin rfl hsite
  | ready pool label =>
      cases htask
      exact .begin rfl hsite
  | _ => cases htask

/-- Every move is a turn of a task or an act. -/
theorem Move.cases {m' : Machine} {d : Deed} (h : Move m d m') :
    (∃ id task site, m.tasks.get? id = some task ∧ m.sites[task.pool]? = some site ∧
      Turn m id task site task.phase d m'.scene) ∨ Act m d m'.scene := by
  cases h with
  | part htask hsite => exact .inl ⟨_, _, _, htask, hsite, turn_part hsite⟩
  | outlast htask hsite hphase haborted hdue =>
      refine .inl ⟨_, _, _, htask, hsite, ?_⟩
      rw [hphase, scene_proceed, scene_commit]
      exact .outlast haborted hdue
  | perform hsite houtbox => exact .inr (act_perform hsite houtbox)
  | stop htask hstop =>
      rw [scene_giveUp]
      exact .inr (.stop htask hstop)
  | begin htask hsite => exact .inr (act_begin htask hsite)
  | drop htake =>
      obtain ⟨hlease, rfl⟩ := takeLease_eq_some htake
      have hact := Act.drop hlease rfl
      rw [scene_reclaim]
      refine .inr ?_
      change Act m _ (match m.pool? _ with
        | some pool => _
        | none => _)
      split <;> rename_i hpool <;> rw [hpool] at hact <;> exact hact
  | start hsite =>
      rw [scene_commit]
      exact .inr (.start (pool?_of_site hsite))
  | recycle recycling hsite =>
      rw [scene_commit]
      exact .inr (.recycle recycling (pool?_of_site hsite))
  | sicken label => exact .inr (.sicken label)
  | cancel label =>
      simp only [act]
      split
      · split
        · rename_i htask
          exact .inr (.cancel htask)
        · exact .inr .elapse
      · exact .inr .elapse
  | build config policy recycling factory =>
      have hact := Act.build (m := m) config policy recycling
      refine .inr ?_
      simpa [scene] using hact
  | elapse h =>
      rw [h.scene]
      exact .inr .elapse

end Machine

end PooledSql
