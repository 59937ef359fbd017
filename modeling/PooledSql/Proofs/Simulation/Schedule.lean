import PooledSql.Proofs.Simulation.Interleaving

/-!
# Schedules

A `Choice` says which move comes next, and a list of choices that can be made one after the other
is a run that can be evaluated.
-/

namespace PooledSql

/-- The next move. -/
inductive Choice where
  /-- The task does the next part of its work. -/
  | part (id : TaskId)
  /-- The task ends a turn in which it was aborted. -/
  | outlast (id : TaskId)
  /-- The pool performs the first action of its outbox. -/
  | perform (index : Nat)
  | stop (id : TaskId)
  | begin (command : Command)
  | start (index : Nat)
  | build (config : PoolConfig) (factory : Factory)
  | sleep (duration : Duration)

namespace Machine

/-- Make a choice, if that can be done. -/
def choose (m : Machine) : Choice → Option (Deed × Machine)
  | .part id => do
    let task ← m.tasks.get? id
    let site ← m.sites[task.pool]?
    return (m.deed id task site, m.stepTask id task site)
  | .outlast id => do
    let task ← m.tasks.get? id
    let site ← m.sites[task.pool]?
    match task.phase, site.evictor with
    | .evict (some due), .aborted time =>
      if due ≤ time then
        return ({ change := some (task.pool, .evict m.now) },
          (m.commit task.pool (site.pool.evict m.now)).proceed id (.finish .done))
      else none
    | _, _ => none
  | .perform index => do
    let site ← m.sites[index]?
    match site.pool.outbox with
    | action :: outbox =>
      return (m.performDeed index [] action outbox,
        m.perform index { site.pool with outbox } action)
    | [] => none
  | .stop id => do
    let task ← m.tasks.get? id
    if task.mayStop then return (stopDeed id task, m.giveUp id task) else none
  | .begin command => do
    let (task, rest) ← m.taskFor command
    if task.pool < m.sites.length then return ({}, rest.spawn task) else none
  | .start index => do
    let site ← m.sites[index]?
    return ({ change := some (index, .start) }, m.commit index site.pool.start)
  | .build config factory => some ({}, { m with sites := m.sites ++
      [{ pool := .idle m.sites.length config .standard none, factory }] })
  | .sleep duration => some ({}, { m with now := m.now + duration })

/-- Make choices one after the other, as far as that can be done. -/
def follow (m : Machine) : List Choice → List Deed × Machine
  | [] => ([], m)
  | choice :: choices =>
    match m.choose choice with
    | some (d, m) =>
      let (trace, m) := m.follow choices
      (d :: trace, m)
    | none => ([], m)

theorem move_of_choose {m m' : Machine} {d : Deed} {choice : Choice}
    (h : m.choose choice = some (d, m')) : Move m d m' := by
  cases choice with
  | part id =>
      obtain ⟨task, htask, h⟩ := Option.bind_eq_some_iff.1 h
      obtain ⟨site, hsite, h⟩ := Option.bind_eq_some_iff.1 h
      cases h
      exact .part htask hsite
  | outlast id =>
      obtain ⟨task, htask, h⟩ := Option.bind_eq_some_iff.1 h
      obtain ⟨site, hsite, h⟩ := Option.bind_eq_some_iff.1 h
      split at h
      · rename_i hphase haborted
        split at h
        · rename_i hdue
          cases h
          exact .outlast htask hsite hphase haborted hdue
        · cases h
      · cases h
  | perform index =>
      obtain ⟨site, hsite, h⟩ := Option.bind_eq_some_iff.1 h
      split at h
      · rename_i action outbox houtbox
        cases h
        exact @Move.perform _ _ _ [] _ _ hsite houtbox
      · cases h
  | stop id =>
      obtain ⟨task, htask, h⟩ := Option.bind_eq_some_iff.1 h
      split at h
      · rename_i hstop
        cases h
        exact .stop htask hstop
      · cases h
  | begin command =>
      obtain ⟨⟨task, rest⟩, htask, h⟩ := Option.bind_eq_some_iff.1 h
      dsimp only at h
      split at h
      · rename_i hsite
        cases h
        exact .begin htask hsite
      · cases h
  | start index =>
      obtain ⟨site, hsite, h⟩ := Option.bind_eq_some_iff.1 h
      cases h
      exact .start hsite
  | build config factory =>
      cases h
      exact .build config .standard none factory
  | sleep duration =>
      cases h
      exact .elapse ⟨rfl, rfl, rfl, rfl, rfl, rfl, rfl, Nat.le_add_right _ _, rfl⟩

/-- Choices are moves one after the other. -/
theorem path_follow (m : Machine) (choices : List Choice) :
    Path m (m.follow choices).1 (m.follow choices).2 := by
  induction choices generalizing m with
  | nil => exact .stay m
  | cons choice choices ih =>
      rw [follow]
      split
      · rename_i d m' hchoose
        exact (Path.move (.stay m) (move_of_choose hchoose)).trans (ih m')
      · exact .stay m

/-- The run that comes of choices. -/
def scheduled (choices : List Choice) : List Deed × Machine :=
  ({ server := .echo 0 } : Machine).follow choices

theorem run_scheduled (choices : List Choice) :
    Run (scheduled choices).1 (scheduled choices).2 :=
  (Run.idle (.echo 0)).path (path_follow _ choices)

end Machine

end PooledSql
