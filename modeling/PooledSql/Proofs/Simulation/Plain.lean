import PooledSql.Proofs.Pool.Plain
import PooledSql.Proofs.Simulation.Turn

/-!
# Moves of pools that never recycle

`Machine.recode` gives the pools of a machine other age limits. If these recycle nothing that the
old ones did not, the recoded machine moves exactly as the machine itself does, and the deed is the
same but for age limits that are installed.
-/

namespace PooledSql

variable {f : Nat → Option RecyclingConfig → Option RecyclingConfig} {m m' : Machine}
variable {d : Deed}

/-- The deed when the age limits that are installed are other ones. -/
def Deed.recode (f : Nat → Option RecyclingConfig → Option RecyclingConfig) (d : Deed) : Deed :=
  { d with change := d.change.map fun (i, s) =>
      (i, match s with
        | .setRecycling recycling => .setRecycling (f i recycling)
        | s => s) }

/-- No task installs age limits. -/
theorem Turn.recode_deed {id : TaskId} {task : Task} {site : Site} {phase : Phase} {s' : Scene}
    (h : Turn m id task site phase d s') : d.recode f = d := by
  cases h <;> rfl

/-- A site whose pool has other age limits. -/
def Site.recode (f : Nat → Option RecyclingConfig → Option RecyclingConfig) (site : Site) : Site :=
  { site with pool := site.pool.recode f }

namespace Machine

/-- The machine with other age limits for its pools. -/
def recode (f : Nat → Option RecyclingConfig → Option RecyclingConfig) (m : Machine) : Machine :=
  { m with sites := m.sites.map (Site.recode f) }

@[simp] theorem now_recode (m : Machine) : (m.recode f).now = m.now := rfl
@[simp] theorem runtime_recode (m : Machine) : (m.recode f).runtime = m.runtime := rfl
@[simp] theorem tasks_recode (m : Machine) : (m.recode f).tasks = m.tasks := rfl
@[simp] theorem nextTask_recode (m : Machine) : (m.recode f).nextTask = m.nextTask := rfl
@[simp] theorem names_recode (m : Machine) : (m.recode f).names = m.names := rfl
@[simp] theorem leases_recode (m : Machine) : (m.recode f).leases = m.leases := rfl
@[simp] theorem server_recode (m : Machine) : (m.recode f).server = m.server := rfl
@[simp] theorem log_recode (m : Machine) : (m.recode f).log = m.log := rfl
@[simp] theorem time_recode (m : Machine) : (m.recode f).time = m.time := rfl
@[simp] theorem sample_recode (m : Machine) : (m.recode f).sample = m.sample := rfl

@[simp] theorem sites_recode (m : Machine) (index : Nat) :
    (m.recode f).sites[index]? = m.sites[index]?.map (Site.recode f) :=
  List.getElem?_map

theorem recode_ite (c : Prop) [Decidable c] (m m' : Machine) :
    (if c then m.recode f else m'.recode f) = (if c then m else m').recode f :=
  (apply_ite (recode f) c m m').symm

/-! ## Operations -/

theorem putLog_recode (m : Machine) (log : Log) :
    ({ m.recode f with log } : Machine) = ({ m with log } : Machine).recode f := rfl

@[simp] theorem suspend_recode (m : Machine) : (m.recode f).suspend = m.suspend.recode f := rfl
@[simp] theorem nextSample_recode (m : Machine) :
    (m.recode f).nextSample = m.nextSample.recode f := rfl
@[simp] theorem wake_recode (m : Machine) (tasks : List TaskId) :
    (m.recode f).wake tasks = (m.wake tasks).recode f := rfl
@[simp] theorem spawn_recode (m : Machine) (task : Task) :
    (m.recode f).spawn task = (m.spawn task).recode f := rfl
@[simp] theorem disarm_recode (m : Machine) (id : TaskId) :
    (m.recode f).disarm id = (m.disarm id).recode f := rfl

@[simp] theorem arm_recode (m : Machine) (id : TaskId) (due : Instant) :
    (m.recode f).arm id due = (m.arm id due).recode f :=
  recode_ite (m.now < due) { m with timers := m.timers ++ [⟨due, id⟩] } m

@[simp] theorem proceed_recode (m : Machine) (id : TaskId) (phase : Phase) :
    (m.recode f).proceed id phase = (m.proceed id phase).recode f := by
  rw [proceed, proceed, tasks_recode]
  cases m.tasks.get? id <;> rfl

@[simp] theorem remove_recode (m : Machine) (id : TaskId) :
    (m.recode f).remove id = (m.remove id).recode f := by
  simp only [remove, recode, List.map_map]
  rfl

theorem giveUp_recode (m : Machine) (id : TaskId) (task : Task) :
    (m.recode f).giveUp id task = (m.giveUp id task).recode f := by
  simp only [giveUp, recode, List.map_map]
  rfl

theorem conclude_recode (m : Machine) (id : TaskId) (task : Task) (outcome : Outcome) :
    (m.recode f).conclude id task outcome = (m.conclude id task outcome).recode f := by
  rw [conclude, conclude, remove_recode]
  cases task.label <;> rfl

theorem modify_map {α : Type} {g g' h : α → α} (hcomm : ∀ a, g' (h a) = h (g a)) (l : List α)
    (index : Nat) : (l.map h).modify index g' = (l.modify index g).map h := by
  induction l generalizing index with
  | nil => cases index <;> rfl
  | cons a l ih => cases index <;> simp [hcomm, ih]

theorem modifySite_recode (g g' : Site → Site)
    (hcomm : ∀ site, g' (site.recode f) = (g site).recode f) (m : Machine) (index : Nat) :
    (m.recode f).modifySite index g' = (m.modifySite index g).recode f := by
  simp only [modifySite, recode, modify_map hcomm]

@[simp] theorem putPool_recode (m : Machine) (index : Nat) (pool : Pool Connection) :
    (m.recode f).putPool index (pool.recode f) = (m.putPool index pool).recode f :=
  modifySite_recode (fun site => { site with pool })
    (fun site => { site with pool := pool.recode f }) (fun _ => rfl) m index

@[simp] theorem putFactory_recode (m : Machine) (index : Nat) (factory : Factory) :
    (m.recode f).putFactory index factory = (m.putFactory index factory).recode f :=
  modifySite_recode (fun site => { site with factory }) _ (fun _ => rfl) m index

@[simp] theorem putEvictor_recode (m : Machine) (index : Nat) (evictor : EvictorHandle) :
    ((m.recode f).modifySite index fun site => { site with evictor }) =
      (m.modifySite index fun site => { site with evictor }).recode f :=
  modifySite_recode (fun site => { site with evictor }) _ (fun _ => rfl) m index

@[simp] theorem watch_recode (m : Machine) (index : Nat) (id : TaskId) :
    (m.recode f).watch index id = (m.watch index id).recode f :=
  congrArg suspend (modifySite_recode
    (fun site => { site with watchers := site.watchers ++ [id] }) _ (fun _ => rfl) m index)

@[simp] theorem commit_recode (m : Machine) (index : Nat) (pool : Pool Connection) :
    (m.recode f).commit index (pool.recode f) = (m.commit index pool).recode f := by
  have hwatchers : (m.recode f).sites[index]?.map (·.watchers) =
      m.sites[index]?.map (·.watchers) := by
    rw [sites_recode, Option.map_map]
    rfl
  rw [commit, commit, hwatchers, ← wake_recode]
  exact congrArg (fun n : Machine => n.wake _) (modifySite_recode
    (fun site => { site with pool, watchers := [] })
    (fun site => { site with pool := pool.recode f, watchers := [] }) (fun _ => rfl) m index)

/-! ## Actions -/

theorem reclaim_recode (hf : Immaterial f) (m : Machine) (lease : Lease Connection) :
    (m.recode f).reclaim lease = (m.reclaim lease).recode f := by
  rw [reclaim, reclaim, sites_recode]
  cases m.sites[lease.pool]? with
  | none => rfl
  | some site =>
      have hback := Pool.reclaim_recode hf site.pool m.now m.sample lease
      exact congrArg nextSample
        ((congrArg ((m.recode f).commit lease.pool) hback).trans (commit_recode m lease.pool _))

theorem launch_recode (m : Machine) (index : Nat) (pool : Pool Connection)
    (action : Action Connection) (phase : Phase) :
    (m.recode f).launch index (pool.recode f) action phase =
      (m.launch index pool action phase).recode f := by
  simp only [launch, runtime_recode, putPool_recode, spawn_recode, Pool.abandon_recode,
    commit_recode, recode_ite]

theorem deliver_recode (hf : Immaterial f) (m : Machine) (index : Nat) (pool : Pool Connection)
    (call : CallId) (lease : Lease Connection) :
    (m.recode f).deliver index (pool.recode f) call lease =
      (m.deliver index pool call lease).recode f := by
  rw [deliver, deliver, Pool.deliver_recode]
  rcases pool.deliver call lease with ⟨_ | lease, pool⟩
  · dsimp only
    rw [putPool_recode, wake_recode]
    exact recode_ite (m.running = some call) _ _
  · have hback : ({ pool.recode f with outbox := [] } : Pool Connection).reclaim m.now m.sample
        lease = _ := Pool.reclaim_recode hf { pool with outbox := [] } m.now m.sample lease
    dsimp only
    rw [now_recode, sample_recode, hback]
    exact congrArg nextSample (commit_recode m index
      ((({ pool with outbox := [] } : Pool Connection).reclaim m.now m.sample lease).post
        pool.outbox))

theorem perform_recode (hf : Immaterial f) (m : Machine) (index : Nat) (pool : Pool Connection)
    (action : Action Connection) :
    (m.recode f).perform index (pool.recode f) action =
      (m.perform index pool action).recode f := by
  cases action with
  | deliver call lease => exact deliver_recode hf m index pool call lease
  | evict =>
      rw [perform, perform, launch_recode, runtime_recode, nextTask_recode]
      exact putEvictor_recode _ index _
  | _ => exact launch_recode m index pool _ _

/-! ## Parts of the work of tasks -/

theorem beginJob_recode (m : Machine) (id : TaskId) (lease : Lease Connection) (job : Job) :
    (m.recode f).beginJob id lease job = (m.beginJob id lease job).recode f := by
  cases job with
  | keep label =>
      rw [beginJob, beginJob, leases_recode]
      have hkept := proceed_recode (f := f) { m with
        leases := (label, lease) :: m.leases.filter (·.1 != label) } id
      cases m.leases.lookup label <;> exact hkept _
  | hold duration fails => simp only [beginJob, now_recode, arm_recode, proceed_recode]
  | run statement request =>
      simp only [beginJob]
      rw [putLog_recode]
      simp only [now_recode, log_recode, time_recode, server_recode, arm_recode, proceed_recode]

theorem takeAnswer_recode (m : Machine) (id : TaskId) (task : Task) (pool : Pool Connection)
    (job : Job) (answer : Except PoolError (Lease Connection)) :
    (m.recode f).takeAnswer id task (pool.recode f) job answer =
      (m.takeAnswer id task pool job answer).recode f := by
  have hput : (m.recode f).putPool task.pool ((pool.recode f).hangUp id).2 =
      (m.putPool task.pool (pool.hangUp id).2).recode f := by
    rw [Pool.hangUp_recode, putPool_recode]
  cases answer with
  | ok lease => simp only [takeAnswer, hput, disarm_recode, beginJob_recode]
  | error e => simp only [takeAnswer, hput, proceed_recode]

theorem awaitAnswer_recode (m : Machine) (id : TaskId) (task : Task) (pool : Pool Connection)
    (handle : QueueHandle) (deadline : Option Instant) (job : Job) :
    (m.recode f).awaitAnswer id task (pool.recode f) handle deadline job =
      (m.awaitAnswer id task pool handle deadline job).recode f := by
  rw [awaitAnswer, awaitAnswer, Pool.receive_recode, Pool.config_recode]
  rcases pool.receive id with ⟨answer | _, q⟩
  · exact takeAnswer_recode m id task q job answer
  · cases pool.config.acquireTimeout with
    | none => rfl
    | some timeout =>
        simp only [now_recode, arm_recode, proceed_recode, suspend_recode, recode_ite]
  · exact takeAnswer_recode m id task q job _

theorem stepCaller_recode (hf : Immaterial f) (m : Machine) (id : TaskId) (task : Task)
    (pool : Pool Connection) (phase : Phase) :
    (m.recode f).stepCaller id task (pool.recode f) phase =
      (m.stepCaller id task pool phase).recode f := by
  cases phase with
  | ask priority job =>
      rw [stepCaller, stepCaller, now_recode, Pool.request_recode]
      rcases pool.request m.now id priority with ⟨_ | _, q⟩ <;>
        simp only [commit_recode, proceed_recode]
  | await handle deadline job => exact awaitAnswer_recode m id task pool handle deadline job
  | withdraw handle timeout job =>
      simp only [stepCaller, Pool.withdraw_recode, commit_recode, proceed_recode]
  | lastLook timeout job =>
      rw [stepCaller, stepCaller, Pool.receive_recode]
      rcases pool.receive id with ⟨answer | _ | _, q⟩
      · exact takeAnswer_recode m id task q job answer
      · exact proceed_recode m id _
      · exact proceed_recode m id _
  | work lease due job =>
      simp only [stepCaller, now_recode, server_recode, proceed_recode, suspend_recode, recode_ite]
  | giveBack lease outcome =>
      have hid : (pool.recode f).id = pool.id := rfl
      rw [stepCaller, stepCaller, hid, now_recode, sample_recode, Pool.giveBack_recode hf,
        proceed_recode, ← recode_ite]
      rcases pool.giveBack m.now m.sample lease with ⟨_ | _ | _, q⟩ <;>
        simp only [commit_recode, nextSample_recode, proceed_recode]
  | discard lease outcome =>
      have hid : (pool.recode f).id = pool.id := rfl
      rw [stepCaller, stepCaller, hid, Pool.discard_recode, proceed_recode, ← recode_ite]
      rcases pool.discard lease with ⟨_ | _, q⟩ <;> simp only [commit_recode, proceed_recode]
  | letGo lease outcome => simp only [stepCaller, reclaim_recode hf, proceed_recode]
  | forget handle => simp only [stepCaller, Pool.forget_recode, commit_recode, proceed_recode]
  | hangUp outcome =>
      rw [stepCaller, stepCaller, Pool.hangUp_recode]
      rcases pool.hangUp id with ⟨_ | _, q⟩ <;> simp only [putPool_recode, proceed_recode]
  | _ => rfl

theorem stepFactory_recode (m : Machine) (id : TaskId) (task : Task) (site : Site)
    (phase : Phase) :
    (m.recode f).stepFactory id task (site.recode f) phase =
      (m.stepFactory id task site phase).recode f := by
  have hfactory : (site.recode f).factory = site.factory := rfl
  have hpool : (site.recode f).pool = site.pool.recode f := rfl
  cases phase with
  | create =>
      simp only [stepFactory, hfactory, now_recode, putFactory_recode, arm_recode, proceed_recode]
  | creation episode due =>
      simp only [stepFactory, hfactory, hpool]
      rcases site.factory.make episode with ⟨made, factory⟩
      simp only
      rw [putLog_recode]
      simp only [now_recode, log_recode, time_recode, Pool.creationEnded_recode,
        putFactory_recode, commit_recode, proceed_recode, suspend_recode, recode_ite]
  | validate pooled =>
      simp only [stepFactory, hfactory]
      rw [putLog_recode]
      simp only [now_recode, log_recode, time_recode, putFactory_recode, arm_recode,
        proceed_recode]
  | validation pooled episode due =>
      simp only [stepFactory, hpool, now_recode, Pool.validationEnded_recode, commit_recode,
        proceed_recode, suspend_recode, recode_ite]
  | destroy pooled outcome =>
      simp only [stepFactory, hfactory, hpool]
      rw [putLog_recode]
      cases htimeout : site.pool.config.destroyTimeout <;>
        simp only [Pool.config_recode, htimeout, Option.map_none, Option.map_some, now_recode,
          log_recode, time_recode, putFactory_recode, arm_recode, recode_ite, proceed_recode]
  | destruction episode due limit outcome =>
      simp only [stepFactory, hpool, now_recode, disarm_recode, Pool.destructionEnded_recode,
        commit_recode, proceed_recode, suspend_recode, recode_ite]
      rfl
  | _ => rfl

theorem stepKeeper_recode (m : Machine) (id : TaskId) (task : Task) (site : Site)
    (phase : Phase) :
    (m.recode f).stepKeeper id task (site.recode f) phase =
      (m.stepKeeper id task site phase).recode f := by
  have hpool : (site.recode f).pool = site.pool.recode f := rfl
  cases phase with
  | evict due =>
      have hevictor : (site.recode f).evictor = site.evictor := rfl
      cases due <;>
        simp only [stepKeeper, hpool, hevictor, Pool.config_recode, Pool.evict_recode, now_recode,
          arm_recode, commit_recode, proceed_recode, suspend_recode, recode_ite]
  | drain => simp only [stepKeeper, hpool, Pool.beginDrain_recode, commit_recode, proceed_recode]
  | drainQueue =>
      simp only [stepKeeper, hpool, Pool.purge_recode, Pool.waiting_recode, putPool_recode,
        proceed_recode, watch_recode, recode_ite]
  | drainLoans =>
      simp only [stepKeeper, hpool, Pool.loans_recode, proceed_recode, watch_recode, recode_ite]
  | takeEvictor =>
      have hevictor : (site.recode f).evictor = site.evictor := rfl
      rw [stepKeeper, stepKeeper, hpool, commit_recode, hevictor]
      cases site.evictor <;> simp only [putEvictor_recode, proceed_recode]
  | drained evictor =>
      cases evictor with
      | none => simp only [stepKeeper, proceed_recode]
      | some evictor =>
          simp only [stepKeeper, abortEvictor, now_recode, putEvictor_recode, wake_recode,
            proceed_recode]
  | clear =>
      have hcreating : (site.recode f).pool.creating = site.pool.creating := rfl
      simp only [stepKeeper, hcreating, proceed_recode, watch_recode, recode_ite]
  | sweep => simp only [stepKeeper, hpool, Pool.sweep_recode, commit_recode, proceed_recode]
  | clearDestructions =>
      have hdestroying : (site.recode f).pool.destroying = site.pool.destroying := rfl
      simp only [stepKeeper, hdestroying, proceed_recode, watch_recode, recode_ite]
  | ready =>
      simp only [stepKeeper, hpool, Pool.config_recode, Pool.available_recode, proceed_recode,
        watch_recode, recode_ite]
  | _ => rfl

theorem stepTask_recode (hf : Immaterial f) (m : Machine) (id : TaskId) (task : Task)
    (site : Site) :
    (m.recode f).stepTask id task (site.recode f) = (m.stepTask id task site).recode f := by
  have hcaller := stepCaller_recode hf m id task site.pool task.phase
  have hfactory := stepFactory_recode (f := f) m id task site task.phase
  have hkeeper := stepKeeper_recode (f := f) m id task site task.phase
  rw [stepTask, stepTask]
  cases hphase : task.phase with
  | finish outcome => exact conclude_recode m id task outcome
  | ask | await | withdraw | lastLook | work | giveBack | discard | letGo | forget | hangUp =>
      rwa [hphase] at hcaller
  | create | creation | validate | validation | destroy | destruction => rwa [hphase] at hfactory
  | _ => rwa [hphase] at hkeeper

/-! ## Moves -/

theorem deed_recode (m : Machine) (id : TaskId) (task : Task) (site : Site) :
    (m.recode f).deed id task (site.recode f) = m.deed id task site := by
  have hpool : (site.recode f).pool = site.pool.recode f := rfl
  rw [deed, deed, hpool]
  cases task.phase with
  | ask priority job => simp only [now_recode, Pool.request_recode]
  | await | lastLook => simp only [Pool.receive_recode]
  | _ => rfl

theorem Elapses.recode (h : Elapses m m') : Elapses (m.recode f) (m'.recode f) where
  pools := by
    have hpools (n : Machine) : (n.recode f).sites.map (·.pool) =
        (n.sites.map (·.pool)).map (Pool.recode f) := by
      simp only [Machine.recode, List.map_map]
      rfl
    rw [hpools, hpools, h.pools]
  evictors := by
    simp only [Machine.recode, List.map_map]
    exact h.evictors
  made := by
    simp only [Machine.recode, List.map_map]
    exact h.made
  tasks := h.tasks
  nextTask := h.nextTask
  leases := h.leases
  runtime := h.runtime
  clock := h.clock
  log := h.log

theorem takeLease_recode (m : Machine) (label : String) :
    (m.recode f).takeLease label = (m.takeLease label).map (Prod.map id (recode f)) := by
  rw [takeLease, takeLease, Option.map_map]
  rfl

theorem taskFor_recode (m : Machine) (command : Command) :
    (m.recode f).taskFor command = (m.taskFor command).map (Prod.map id (recode f)) := by
  cases command with
  | release pool label | destroy pool label =>
      rw [taskFor, taskFor, takeLease_recode, Option.map_map, Option.map_map]
      rfl
  | _ => rfl

theorem cancel_recode (m : Machine) (label : String) :
    (m.recode f).act (.cancel label) = (m.act (.cancel label)).recode f := by
  simp only [act, names_recode, tasks_recode]
  cases m.names.lookup label with
  | none => rfl
  | some id =>
      dsimp only
      cases m.tasks.get? id <;> rfl

theorem build_recode (m : Machine) (site : Site) :
    ({ m.recode f with sites := (m.recode f).sites ++ [site.recode f] } : Machine) =
      ({ m with sites := m.sites ++ [site] } : Machine).recode f := by
  simp only [recode, List.map_append, List.map_cons, List.map_nil]

theorem recode_stopDeed (id : TaskId) (task : Task) :
    (stopDeed id task).recode f = stopDeed id task := by
  rw [stopDeed]
  split <;> rfl

theorem recode_performDeed (m : Machine) (index : Nat) (before : List (Action Connection))
    (action : Action Connection) (after : List (Action Connection)) :
    (m.performDeed index before action after).recode f =
      m.performDeed index before action after := by
  cases action with
  | deliver call lease => rfl
  | _ =>
      simp only [performDeed]
      split <;> rfl

/-- A machine with other age limits moves in the same way. -/
theorem Move.recode (hf : Immaterial f)
    (hids : ∀ (i : Nat) (site : Site), m.sites[i]? = some site → site.pool.id = i)
    (h : Move m d m') : Move (m.recode f) (d.recode f) (m'.recode f) := by
  have hsites {i : Nat} {site : Site} (hsite : m.sites[i]? = some site) :
      (m.recode f).sites[i]? = some (site.recode f) := by
    rw [sites_recode, hsite]
    rfl
  cases h with
  | part htask hsite =>
      rw [(turn_part hsite).recode_deed, ← deed_recode, ← stepTask_recode hf]
      exact .part htask (hsites hsite)
  | outlast htask hsite hphase haborted hdue =>
      rw [← proceed_recode, ← commit_recode, ← Pool.evict_recode]
      exact .outlast (m := m.recode f) htask (hsites hsite) hphase haborted hdue
  | perform hsite houtbox =>
      rw [recode_performDeed, ← perform_recode hf]
      exact .perform (hsites hsite) houtbox
  | stop htask hstop =>
      rw [recode_stopDeed, ← giveUp_recode]
      exact .stop htask hstop
  | @begin rest command task htask hsite =>
      have htask' : (m.recode f).taskFor command = some (task, rest.recode f) := by
        rw [taskFor_recode, htask]
        rfl
      rw [← spawn_recode]
      exact .begin htask' (hsite.trans_eq (List.length_map _).symm)
  | @drop rest label lease hlease =>
      have hlease' : (m.recode f).takeLease label = some (lease, rest.recode f) := by
        rw [takeLease_recode, hlease]
        rfl
      rw [← reclaim_recode hf]
      exact .drop hlease'
  | start hsite =>
      rw [← commit_recode, ← Pool.start_recode]
      exact .start (hsites hsite)
  | @recycle index site recycling hsite =>
      have hlimits : (site.pool.setRecycling recycling).recode f =
          (site.recode f).pool.setRecycling (f index recycling) :=
        congrArg (fun i => { site.pool with recycling := f i recycling }) (hids index site hsite)
      rw [← commit_recode, hlimits]
      exact .recycle (m := m.recode f) (f index recycling) (hsites hsite)
  | sicken label => exact .sicken label
  | cancel label =>
      rw [← cancel_recode]
      exact .cancel label
  | build config policy recycling factory =>
      have hlength : (m.recode f).sites.length = m.sites.length := List.length_map _
      have hbuild := Move.build (m := m.recode f) config policy (f m.sites.length recycling) factory
      rw [hlength] at hbuild
      rw [← build_recode]
      exact hbuild
  | elapse h => exact .elapse h.recode

end Machine

end PooledSql
