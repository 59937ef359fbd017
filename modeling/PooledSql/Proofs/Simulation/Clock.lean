import PooledSql.Proofs.Simulation.Change

/-!
# The clock

The clock of a machine moves when time passes, and in no other move. A `SteadyRun` is a run in which
the clock never goes back, also not when the runtime goes or comes.
-/

namespace PooledSql

namespace Machine

variable {m m' : Machine} {d : Deed} {task : Task}

/-! ## What leaves the clock alone -/

@[local simp] theorem now_suspend (m : Machine) : m.suspend.now = m.now := rfl
@[local simp] theorem now_disarm (m : Machine) (id : TaskId) : (m.disarm id).now = m.now := rfl
@[local simp] theorem now_nextSample (m : Machine) : m.nextSample.now = m.now := rfl
@[local simp] theorem now_remove (m : Machine) (id : TaskId) : (m.remove id).now = m.now := rfl
@[local simp] theorem now_modifySite (m : Machine) (i : Nat) (f : Site → Site) :
    (m.modifySite i f).now = m.now := rfl
@[local simp] theorem now_putPool (m : Machine) (i : Nat) (pool : Pool Connection) :
    (m.putPool i pool).now = m.now := rfl
@[local simp] theorem now_putFactory (m : Machine) (i : Nat) (factory : Factory) :
    (m.putFactory i factory).now = m.now := rfl
@[local simp] theorem now_commit (m : Machine) (i : Nat) (pool : Pool Connection) :
    (m.commit i pool).now = m.now := rfl
@[local simp] theorem now_watch (m : Machine) (i : Nat) (id : TaskId) :
    (m.watch i id).now = m.now := rfl

@[local simp] theorem now_abortEvictor (m : Machine) (i : Nat) (evictor : TaskId) :
    (m.abortEvictor i evictor).now = m.now := rfl

@[local simp] theorem now_arm (m : Machine) (id : TaskId) (due : Instant) :
    (m.arm id due).now = m.now := by
  rw [arm]
  split <;> rfl

@[local simp] theorem now_proceed (m : Machine) (id : TaskId) (phase : Phase) :
    (m.proceed id phase).now = m.now := by
  rw [proceed]
  split <;> rfl

@[local simp] theorem now_conclude (m : Machine) (id : TaskId) (task : Task) (outcome : Outcome) :
    (m.conclude id task outcome).now = m.now := by
  rw [conclude]
  split <;> rfl

@[local simp] theorem now_reclaim (m : Machine) (lease : Lease Connection) :
    (m.reclaim lease).now = m.now := by
  rw [reclaim]
  split <;> rfl

@[local simp] theorem now_deliver (m : Machine) (i : Nat) (pool : Pool Connection) (call : CallId)
    (lease : Lease Connection) : (m.deliver i pool call lease).now = m.now := by
  rw [deliver]
  split
  · dsimp only
    split <;> rfl
  · rfl

@[local simp] theorem now_launch (m : Machine) (i : Nat) (pool : Pool Connection)
    (action : Action Connection) (phase : Phase) :
    (m.launch i pool action phase).now = m.now := by
  rw [launch]
  split <;> rfl

theorem now_perform (m : Machine) (i : Nat) (pool : Pool Connection)
    (action : Action Connection) : (m.perform i pool action).now = m.now := by
  cases action <;> simp [perform]

@[local simp] theorem now_takeAnswer (m : Machine) (id : TaskId) (task : Task)
    (pool : Pool Connection) (job : Job) (answer : Except PoolError (Lease Connection)) :
    (m.takeAnswer id task pool job answer).now = m.now := by
  cases answer with
  | error e => simp [takeAnswer]
  | ok lease =>
      cases job with
      | keep label =>
          simp only [takeAnswer, beginJob]
          split <;> simp
      | _ => simp [takeAnswer, beginJob]

@[local simp] theorem now_awaitAnswer (m : Machine) (id : TaskId) (task : Task)
    (pool : Pool Connection) (handle : QueueHandle) (deadline : Option Instant) (job : Job) :
    (m.awaitAnswer id task pool handle deadline job).now = m.now := by
  rw [awaitAnswer]
  split
  · simp
  · simp
  · split
    · rfl
    · dsimp only
      split
      · simp
      · split <;> simp

theorem now_stepCaller (m : Machine) (id : TaskId) (task : Task) (pool : Pool Connection)
    (phase : Phase) : (m.stepCaller id task pool phase).now = m.now := by
  cases phase with
  | ask | lastLook | work | hangUp =>
      simp only [stepCaller]
      split <;> simp
  | giveBack | discard =>
      simp only [stepCaller]
      split
      · simp
      · split <;> simp
  | _ => simp [stepCaller]

theorem now_stepFactory (m : Machine) (id : TaskId) (task : Task) (site : Site) (phase : Phase) :
    (m.stepFactory id task site phase).now = m.now := by
  cases phase with
  | creation | validation =>
      simp only [stepFactory]
      split <;> simp
  | destroy =>
      simp only [stepFactory]
      split
      · split <;> simp
      · simp
  | destruction =>
      simp only [stepFactory]
      split
      · simp
      · split <;> simp
  | _ => simp [stepFactory]

theorem now_stepKeeper (m : Machine) (id : TaskId) (task : Task) (site : Site) (phase : Phase) :
    (m.stepKeeper id task site phase).now = m.now := by
  cases phase with
  | evict due =>
      simp only [stepKeeper]
      split
      · simp
      · split
        · simp
        · split <;> simp
  | drained evictor => cases evictor <;> simp [stepKeeper]
  | drainQueue | drainLoans | takeEvictor | clear | clearDestructions | ready =>
      simp only [stepKeeper]
      split <;> simp
  | _ => simp [stepKeeper]

theorem now_stepTask (m : Machine) (id : TaskId) (task : Task) (site : Site) :
    (m.stepTask id task site).now = m.now := by
  rw [stepTask]
  split
  · simp
  all_goals first
    | exact now_stepCaller _ _ _ _ _
    | exact now_stepFactory _ _ _ _ _
    | exact now_stepKeeper _ _ _ _ _

theorem now_taskFor {rest : Machine} {command : Command}
    (h : m.taskFor command = some (task, rest)) : rest.now = m.now := by
  cases command with
  | release pool label | destroy pool label =>
      obtain ⟨⟨lease, m'⟩, htake, heq⟩ := Option.map_eq_some_iff.1 h
      obtain ⟨-, rfl⟩ := takeLease_eq_some htake
      cases heq
      rfl
  | drop | sicken | cancel | start | recycle => cases h
  | _ =>
      cases h
      rfl

/-- The clock does not go back. -/
theorem Move.now_le (h : Move m d m') : m.now ≤ m'.now := by
  cases h with
  | part => exact (now_stepTask _ _ _ _).ge
  | outlast =>
      rw [now_proceed]
      exact le_rfl
  | perform => exact (now_perform _ _ _ _).ge
  | begin htask => exact (now_taskFor htask).ge
  | drop htake =>
      rw [now_reclaim]
      obtain ⟨-, rfl⟩ := takeLease_eq_some htake
      exact le_rfl
  | cancel label =>
      simp only [act]
      split
      · split <;> exact le_rfl
      · exact le_rfl
  | elapse h => exact h.clock
  | _ => exact le_rfl

/-! ## Steady runs -/

/-- Runs in which there is not always a runtime, but the clock never goes back. -/
inductive SteadyRun : List Deed → Machine → Prop where
  | idle (server : Server) : SteadyRun [] { server }
  | move {trace : List Deed} {m m' : Machine} {d : Deed} (h : SteadyRun trace m)
      (hmove : Move m d m') : SteadyRun (trace ++ [d]) m'
  /-- The runtime goes or comes. -/
  | switch {trace : List Deed} {m : Machine} (h : SteadyRun trace m) (runtime : Bool)
      {now : Instant} (hclock : m.now ≤ now) : SteadyRun trace { m with runtime, now }

variable {trace : List Deed}

theorem SteadyRun.free (h : SteadyRun trace m) : FreeRun trace m := by
  induction h with
  | idle server => exact .idle server
  | move _ hmove ih => exact .move ih hmove
  | switch _ runtime _ ih => exact .switch ih runtime _

theorem Run.steady (h : Run trace m) : SteadyRun trace m := by
  induction h with
  | idle server => exact .idle server
  | move _ hmove ih => exact .move ih hmove

end Machine

end PooledSql
