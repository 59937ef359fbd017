import PooledSql.Proofs.Simulation.Interleaving

/-!
# Scenes

The laws about a machine are about its pools, its tasks and the leases that are kept. A `Scene` is
a machine without its clock, line, timers and log; what each operation does to the scene is stated
here once, and the operations are not opened again.
-/

namespace PooledSql

/-- What there is on a machine. -/
structure Scene where
  pools : List (Pool Connection)
  evictors : List EvictorHandle
  tasks : Registry Task
  leases : List (String × Lease Connection)
  nextTask : TaskId
  runtime : Bool

namespace Scene

/-- Replace a pool. -/
def put (s : Scene) (index : Nat) (pool : Pool Connection) : Scene :=
  { s with pools := s.pools.set index pool }

/-- A task goes on with another phase. -/
def go (s : Scene) (id : TaskId) (phase : Phase) : Scene :=
  match s.tasks.get? id with
  | some task => { s with tasks := s.tasks.insert id { task with phase } }
  | none => s

/-- A task is added. -/
def spawn (s : Scene) (task : Task) : Scene :=
  { s with tasks := s.tasks.insert s.nextTask task, nextTask := s.nextTask + 1 }

/-- A task is removed. -/
def remove (s : Scene) (id : TaskId) : Scene := { s with tasks := s.tasks.erase id }

theorem put_self (s : Scene) {index : Nat} {pool : Pool Connection}
    (h : s.pools[index]? = some pool) : s.put index pool = s := by
  obtain ⟨hindex, rfl⟩ := List.getElem?_eq_some_iff.1 h
  rw [put, List.set_getElem_self]

end Scene

namespace Machine

variable {m : Machine} {index : Nat} {id : TaskId}

def scene (m : Machine) : Scene where
  pools := m.sites.map (·.pool)
  evictors := m.sites.map (·.evictor)
  tasks := m.tasks
  leases := m.leases
  nextTask := m.nextTask
  runtime := m.runtime

theorem pool?_eq (m : Machine) (index : Nat) : m.pool? index = m.scene.pools[index]? := by
  simp [pool?, scene]

theorem pool?_of_site {site : Site} (h : m.sites[index]? = some site) :
    m.pool? index = some site.pool := by
  simp [pool?, h]

theorem pools_of_site {site : Site} (h : m.sites[index]? = some site) :
    m.scene.pools[index]? = some site.pool :=
  (pool?_eq m index).symm.trans (pool?_of_site h)

/-! ## Tasks and time -/

@[simp] theorem scene_wake (m : Machine) (tasks : List TaskId) :
    (m.wake tasks).scene = m.scene := rfl
@[simp] theorem scene_suspend (m : Machine) : m.suspend.scene = m.scene := rfl
@[simp] theorem scene_disarm (m : Machine) (id : TaskId) : (m.disarm id).scene = m.scene := rfl
@[simp] theorem scene_nextSample (m : Machine) : m.nextSample.scene = m.scene := rfl
@[simp] theorem scene_log (m : Machine) (log : Log) : { m with log }.scene = m.scene := rfl
@[simp] theorem scene_leases (m : Machine) (leases : List (String × Lease Connection)) :
    { m with leases }.scene = { m.scene with leases } := rfl
@[simp] theorem scene_settle (m : Machine) (id : TaskId) (label : String) (outcome : Outcome) :
    (m.settle id label outcome).scene = m.scene := rfl

@[simp] theorem scene_arm (m : Machine) (id : TaskId) (due : Instant) :
    (m.arm id due).scene = m.scene := by
  rw [arm]
  split <;> rfl

@[simp] theorem scene_proceed (m : Machine) (id : TaskId) (phase : Phase) :
    (m.proceed id phase).scene = m.scene.go id phase := by
  have htasks : m.scene.tasks = m.tasks := rfl
  rw [proceed, Scene.go, htasks]
  cases m.tasks.get? id <;> rfl

@[simp] theorem scene_spawn (m : Machine) (task : Task) :
    (m.spawn task).scene = m.scene.spawn task := rfl

@[simp] theorem scene_remove (m : Machine) (id : TaskId) :
    (m.remove id).scene = m.scene.remove id := by
  simp only [scene, remove, List.map_map]
  rfl

@[simp] theorem scene_conclude (m : Machine) (id : TaskId) (task : Task) (outcome : Outcome) :
    (m.conclude id task outcome).scene = m.scene.remove id := by
  rw [conclude]
  split <;> simp

theorem scene_giveUp (m : Machine) (id : TaskId) (task : Task) :
    (m.giveUp id task).scene = { m.scene with tasks := m.tasks.insert id { task with
      phase := task.phase.unwind, label := none, cancelled := false } } := by
  simp only [scene, giveUp, List.map_map]
  rfl

/-! ## Sites -/

theorem map_modify_eq_set {α β : Type} (f : α → β) (g : α → α) {b : β} (h : ∀ a, f (g a) = b)
    (l : List α) (i : Nat) : (l.modify i g).map f = (l.map f).set i b := by
  induction l generalizing i with
  | nil => simp
  | cons a l ih => cases i <;> simp [h, ih]

theorem map_modify_eq_map {α β : Type} (f : α → β) (g : α → α) (h : ∀ a, f (g a) = f a)
    (l : List α) (i : Nat) : (l.modify i g).map f = l.map f := by
  induction l generalizing i with
  | nil => simp
  | cons a l ih => cases i <;> simp [h, ih]

theorem scene_modifySite {f : Site → Site} (hpool : ∀ site, (f site).pool = site.pool)
    (hevictor : ∀ site, (f site).evictor = site.evictor) :
    (m.modifySite index f).scene = m.scene := by
  simp only [scene, modifySite]
  rw [map_modify_eq_map _ _ hpool, map_modify_eq_map _ _ hevictor]

theorem scene_modifySite_pool {f : Site → Site} {pool : Pool Connection}
    (hpool : ∀ site, (f site).pool = pool) (hevictor : ∀ site, (f site).evictor = site.evictor) :
    (m.modifySite index f).scene = m.scene.put index pool := by
  simp only [scene, modifySite, Scene.put]
  rw [map_modify_eq_set _ _ hpool, map_modify_eq_map _ _ hevictor]

/-- Something has become of the handle of the task that evicts. -/
theorem scene_evictor (m : Machine) (index : Nat) (evictor : EvictorHandle) :
    (m.modifySite index fun site => { site with evictor }).scene =
      { m.scene with evictors := m.scene.evictors.set index evictor } := by
  have hpool : ∀ site : Site, { site with evictor }.pool = site.pool := fun _ => rfl
  have hevictor : ∀ site : Site, { site with evictor }.evictor = evictor := fun _ => rfl
  simp only [scene, modifySite]
  rw [map_modify_eq_map _ _ hpool, map_modify_eq_set _ _ hevictor]

@[simp] theorem scene_abortEvictor (m : Machine) (index : Nat) (evictor : TaskId) :
    (m.abortEvictor index evictor).scene =
      { m.scene with evictors := m.scene.evictors.set index (.aborted m.now) } :=
  scene_evictor m index _

@[simp] theorem scene_putPool (m : Machine) (index : Nat) (pool : Pool Connection) :
    (m.putPool index pool).scene = m.scene.put index pool :=
  scene_modifySite_pool (fun _ => rfl) fun _ => rfl

@[simp] theorem scene_commit (m : Machine) (index : Nat) (pool : Pool Connection) :
    (m.commit index pool).scene = m.scene.put index pool :=
  scene_modifySite_pool (fun _ => rfl) fun _ => rfl

@[simp] theorem scene_putFactory (m : Machine) (index : Nat) (factory : Factory) :
    (m.putFactory index factory).scene = m.scene :=
  scene_modifySite (fun _ => rfl) fun _ => rfl

@[simp] theorem scene_watch (m : Machine) (index : Nat) (id : TaskId) :
    (m.watch index id).scene = m.scene :=
  scene_modifySite (fun _ => rfl) fun _ => rfl

/-- A lease goes back to its lender, if there is one. -/
theorem scene_reclaim (m : Machine) (lease : Lease Connection) :
    (m.reclaim lease).scene = match m.pool? lease.pool with
      | some pool => m.scene.put lease.pool (pool.reclaim m.now m.sample lease)
      | none => m.scene := by
  simp only [reclaim, pool?]
  cases m.sites[lease.pool]? <;> simp

theorem Elapses.scene {m' : Machine} (h : m.Elapses m') : m'.scene = m.scene := by
  simp only [Machine.scene, h.pools, h.evictors, h.tasks, h.leases, h.nextTask, h.runtime]

end Machine

end PooledSql
