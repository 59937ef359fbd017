import PooledSql.Proofs.Simulation.Accounts

/-!
# The audit

Every move keeps the ledger, so each run has one. What is left to show is that a move changes the
tasks in a regular way: in a turn one task goes on, and an act adds a task or gives one up.
-/

namespace PooledSql

open Machine

variable {m : Machine} {s s' : Scene} {id other : TaskId} {task task' : Task} {site : Site}
variable {phase : Phase} {d : Deed} {trace : List Deed} {i : Nat} {p : Pool Connection}

namespace Scene

@[simp] theorem leases_go (s : Scene) (id : TaskId) (phase : Phase) :
    (s.go id phase).leases = s.leases := by
  rw [go]
  split <;> rfl

@[simp] theorem nextTask_go (s : Scene) (id : TaskId) (phase : Phase) :
    (s.go id phase).nextTask = s.nextTask := by
  rw [go]
  split <;> rfl

theorem get?_go (s : Scene) (id other : TaskId) (phase : Phase) :
    (s.go id phase).tasks.get? other =
      if other = id then (s.tasks.get? id).map ({ · with phase }) else s.tasks.get? other := by
  rw [go]
  split <;> rename_i htask <;> rw [htask]
  · exact Registry.get?_insert
  · split
    · rename_i heq
      rw [heq, htask]
      rfl
    · rfl

theorem get?_go_self (h : s.tasks.get? id = some task) (phase : Phase) :
    (s.go id phase).tasks.get? id = some { task with phase } := by
  rw [get?_go, if_pos rfl, h]
  rfl

theorem phase_go (h : (s.go id phase).tasks.get? id = some task) : task.phase = phase := by
  rw [get?_go, if_pos rfl] at h
  obtain ⟨former, -, rfl⟩ := Option.map_eq_some_iff.1 h
  rfl

theorem nodup_keys_go (h : s.tasks.keys.Nodup) (id : TaskId) (phase : Phase) :
    (s.go id phase).tasks.keys.Nodup := by
  rw [go]
  split
  · exact Registry.nodup_keys_insert h
  · exact h

/-- The tasks are the same. -/
structure Near (s s' : Scene) : Prop where
  tasks : s'.tasks = s.tasks
  labels : (s.leases.map (·.1)).Nodup → (s'.leases.map (·.1)).Nodup
  nextTask : s'.nextTask = s.nextTask

theorem near_of_eq (htasks : s'.tasks = s.tasks) (hleases : s'.leases = s.leases)
    (hnext : s'.nextTask = s.nextTask) : s.Near s' where
  tasks := htasks
  labels h := hleases ▸ h
  nextTask := hnext

end Scene

/-! ## Turns -/

theorem isCalled_afterWork (server : Server) (lease : Lease Connection) (job : Job) :
    (afterWork server lease job).isCalled = true := by
  obtain ⟨outcome, h | h⟩ := afterWork_cases server lease job <;> rw [h] <;> rfl

/-- The task has not asked yet. -/
def Phase.isAsk : Phase → Bool
  | .ask _ _ => true
  | _ => false

theorem isAsk_afterWork (server : Server) (lease : Lease Connection) (job : Job) :
    (afterWork server lease job).isAsk = false := by
  obtain ⟨outcome, h | h⟩ := afterWork_cases server lease job <;> rw [h] <;> rfl

/-- What a task can go on to. -/
structure Phase.Next (phase next : Phase) : Prop where
  called : phase.isCalled = true → next.isCalled = true
  /-- It asks once. -/
  asks : next.isAsk = true → next = phase

theorem Phase.Looks.next {job : Job} {next : Phase} (h : phase.Looks job)
    (hnext : next.isCalled = true) (hasks : next.isAsk = false) : phase.Next next := by
  have hnot : next.isAsk = true → next = phase := fun h => absurd (hasks.symm.trans h) nofun
  cases h <;> exact ⟨fun _ => hnext, hnot⟩

/-- A task goes on or stays in its phase, unless it has come to its end. -/
theorem Turn.course (h : Turn m id task site phase d s') :
    (∃ base next, s' = base.go id next ∧ m.scene.Near base ∧ phase.Next next) ∨
      m.scene.Near s' ∨ s' = m.scene.remove id := by
  cases h with
  | wait | drainQueue => exact .inr (.inl (Scene.near_of_eq rfl rfl rfl))
  | finish => exact .inr (.inr rfl)
  | @keep phase next label lease hlooks h hnext =>
      refine .inl ⟨_, _, rfl, ⟨rfl, fun hlabels => ?_, rfl⟩, hlooks.next ?_ ?_⟩
      · rw [List.map_cons, List.nodup_cons]
        refine ⟨by simp, ?_⟩
        exact hlabels.sublist (List.filter_sublist.map _)
      · rw [hnext]
        split <;> rfl
      · rw [hnext]
        split <;> rfl
  | hold hlooks | send hlooks | unanswered hlooks =>
      exact .inl ⟨_, _, rfl, Scene.near_of_eq rfl rfl rfl, hlooks.next rfl rfl⟩
  | hangUp hnext =>
      refine .inl ⟨_, _, rfl, Scene.near_of_eq rfl rfl rfl, ⟨fun _ => ?_, ?_⟩⟩ <;> rw [hnext]
      · split <;> rfl
      · split <;> nofun
  | worked => exact .inl ⟨_, _, rfl, Scene.near_of_eq rfl rfl rfl,
      ⟨fun _ => isCalled_afterWork _ _ _,
        fun h => absurd ((isAsk_afterWork _ _ _).symm.trans h) nofun⟩⟩
  | letGo =>
      refine .inl ⟨_, _, rfl, ?_, ⟨fun _ => rfl, nofun⟩⟩
      rw [scene_reclaim]
      split <;> exact Scene.near_of_eq rfl rfl rfl
  | forget | create | created | validate | validated | evict | evictLater | aborted | outlast =>
      exact .inl ⟨_, _, rfl, Scene.near_of_eq rfl rfl rfl, ⟨nofun, nofun⟩⟩
  | _ => exact .inl ⟨_, _, rfl, Scene.near_of_eq rfl rfl rfl, ⟨fun _ => rfl, nofun⟩⟩

/-- The other tasks stay as they are. -/
theorem Turn.others (h : Turn m id task site phase d s') (hne : other ≠ id) :
    s'.tasks.get? other = m.tasks.get? other := by
  obtain ⟨base, next, rfl, hnear, -⟩ | hnear | rfl := h.course
  · rw [Scene.get?_go, if_neg hne, hnear.tasks]
    rfl
  · rw [hnear.tasks]
    rfl
  · exact Registry.get?_erase_of_ne hne

theorem Turn.self (h : Turn m id task site phase d s') (hphase : task.phase = phase)
    (htask : m.tasks.get? id = some task) (htask' : s'.tasks.get? id = some task') :
    ∃ next, task' = { task with phase := next } ∧ phase.Next next := by
  obtain ⟨base, next, rfl, hnear, hnext⟩ | hnear | rfl := h.course
  · rw [Scene.get?_go, if_pos rfl, hnear.tasks] at htask'
    obtain ⟨former, hformer, rfl⟩ := Option.map_eq_some_iff.1 htask'
    cases htask.symm.trans hformer
    exact ⟨next, rfl, hnext⟩
  · rw [hnear.tasks] at htask'
    cases htask.symm.trans htask'
    exact ⟨task.phase, rfl, hphase ▸ ⟨fun h => h, fun _ => rfl⟩⟩
  · cases Registry.get?_erase_self.symm.trans htask'

theorem Turn.nextTask (h : Turn m id task site phase d s') : s'.nextTask = m.nextTask := by
  obtain ⟨base, next, rfl, hnear, -⟩ | hnear | rfl := h.course
  · rw [Scene.nextTask_go, hnear.nextTask]
    rfl
  · exact hnear.nextTask
  · rfl

/-- A task that is there after a turn was there before. -/
theorem Turn.mem_keys (h : Turn m id task site phase d s') (htask : m.tasks.get? id = some task)
    (hmem : other ∈ s'.tasks.keys) : other ∈ m.tasks.keys := by
  by_cases hne : other = id
  · exact hne ▸ Registry.mem_keys_of_get? htask
  · rwa [← Registry.get?_isSome_iff, h.others hne, Registry.get?_isSome_iff] at hmem

/-! ## Answers that are awaited -/

/-- Only a request makes an answer awaited. -/
theorem Section.mem_calls {x : Section Connection} {call : CallId}
    (h : call ∈ (x.run p).calls.keys) :
    call ∈ p.calls.keys ∨ ∃ now priority, x = .request now call priority := by
  have hcalls := (x.frame p).calls
  cases x with
  | request now other priority =>
      obtain heq | heq := hcalls <;> rw [heq] at h
      · exact .inl h
      · obtain rfl | hmem := Registry.mem_keys_insert.1 h
        · exact .inr ⟨now, priority, rfl⟩
        · exact .inl hmem
  | hangUp =>
      rw [show _ = _ from hcalls] at h
      exact .inl (Registry.mem_keys_erase.1 h).2
  | withdraw | deliver => exact .inl ((hcalls call).1 h)
  | _ => exact .inl ((show _ = _ from hcalls) ▸ h)

/-- An answer that is not awaited any more. -/
theorem Section.notMem_calls (p : Pool Connection) (call : CallId) :
    call ∉ ((Section.hangUp call).run p).calls.keys := by
  intro h
  exact (Registry.mem_keys_erase.1 h).1 rfl

/-- A deed with no request of the call does not make its answer awaited. -/
theorem Deed.mem_calls {call : CallId}
    (hrequest : ∀ now priority, d.change ≠ some (i, .request now call priority))
    (h : call ∈ (d.run i p).calls.keys) : call ∈ p.calls.keys := by
  obtain ⟨-, heq⟩ | ⟨x, hchange, heq⟩ := d.run_cases i p <;> rw [heq] at h
  · exact h
  · obtain hmem | ⟨now, priority, rfl⟩ := Section.mem_calls h
    · exact hmem
    · exact absurd hchange (hrequest now priority)

/-- Nobody awaits an answer anew but the task of the turn. -/
theorem Turn.mem_calls (h : Turn m id task site phase d s') {call : CallId} (hne : call ≠ id)
    (hcall : call ∈ (d.run i p).calls.keys) : call ∈ p.calls.keys := by
  refine Deed.mem_calls (fun now priority => ?_) hcall
  cases h <;> simp [Ne.symm hne]

/-- The task of a turn awaits its answer as long as its pool says so. -/
theorem Turn.awaits_self (h : Turn m id task site phase d s') (hphase : task.phase = phase)
    (htask : m.tasks.get? id = some task) (hsite : m.sites[task.pool]? = some site)
    (hp : m.scene.pools[i]? = some p) (hcall : id ∈ (d.run i p).calls.keys)
    (hself : id ∈ p.calls.keys → task.pool = i ∧ phase.awaits = true) : s'.Awaits i id := by
  have hgo : ∀ (s : Scene) (next : Phase), s.tasks = m.tasks → task.pool = i →
      next.awaits = true → (s.go id next).Awaits i id := by
    intro s next htasks hpool hnext
    refine ⟨{ task with phase := next }, ?_, hpool, hnext⟩
    rw [Scene.get?_go, if_pos rfl, htasks, htask]
    rfl
  -- where the section is no request, the answer was awaited before
  have hbefore : (∀ now priority, d.change ≠ some (i, .request now id priority)) →
      task.pool = i ∧ phase.awaits = true := fun hrequest => hself (Deed.mem_calls hrequest hcall)
  have hended : d.change = some (task.pool, .hangUp id) → False := by
    intro hchange
    have hpool := (hbefore fun now priority heq => by cases hchange.symm.trans heq).1
    subst hpool
    rw [Deed.run_of_change hchange] at hcall
    exact Section.notMem_calls p id hcall
  cases h with
  | @ask priority job handle pool h =>
      by_cases hpool : task.pool = i
      · exact hgo _ _ rfl hpool rfl
      · exact absurd (hbefore fun _ _ heq => hpool (by cases heq; rfl)).2 Bool.false_ne_true
  | @refused priority job e pool h =>
      refine absurd (hself ?_).2 Bool.false_ne_true
      rw [Deed.run] at hcall
      dsimp only at hcall
      split at hcall
      · rename_i hpool
        have hsitepool : site.pool = p := by
          rw [← pool?_eq, ← hpool, pool?_of_site hsite] at hp
          exact Option.some_inj.1 hp
        rwa [Section.run, ← hsitepool, h, Pool.request_error h, hsitepool] at hcall
      · exact hcall
  | keep | hold | send | unanswered | hangUp => exact (hended rfl).elim
  | wait =>
      obtain ⟨hpool, hawaits⟩ := hbefore fun _ _ hchange => by cases hchange
      exact ⟨task, htask, hpool, hphase ▸ hawaits⟩
  | await | timeout | withdraw | late | forget =>
      obtain ⟨hpool, -⟩ := hbefore fun _ _ hchange => by cases hchange
      exact hgo _ _ rfl hpool rfl
  | _ =>
      obtain ⟨-, hawaits⟩ := hbefore fun _ _ hchange => by cases hchange
      exact absurd hawaits Bool.false_ne_true

theorem Turn.orderly (hs : m.scene.Orderly) (h : Turn m id task site phase d s')
    (hphase : task.phase = phase) (htask : m.tasks.get? id = some task)
    (hsite : m.sites[task.pool]? = some site) : s'.Orderly := by
  have hnear : s'.tasks.keys.Nodup ∧ (s'.leases.map (·.1)).Nodup := by
    obtain ⟨base, next, rfl, hnear, -⟩ | hnear | rfl := h.course
    · rw [Scene.leases_go]
      exact ⟨Scene.nodup_keys_go (hnear.tasks ▸ hs.tasks) id next, hnear.labels hs.labels⟩
    · exact ⟨hnear.tasks ▸ hs.tasks, hnear.labels hs.labels⟩
    · exact ⟨Registry.nodup_keys_erase hs.tasks, hs.labels⟩
  have hnextTask : s'.nextTask = m.scene.nextTask := h.nextTask
  refine ⟨hnear.1, fun other hmem => ?_, hnear.2, fun other task' htask' hlabel => ?_,
    fun i p' hp' call hcall => ?_⟩
  · rw [hnextTask]
    exact hs.fresh other (h.mem_keys htask hmem)
  · by_cases hne : other = id
    · subst hne
      obtain ⟨next, rfl, hnext⟩ := h.self hphase htask htask'
      exact hnext.called (hphase ▸ hs.called other task htask hlabel)
    · exact hs.called other task' ((h.others hne).symm.trans htask') hlabel
  · rw [h.advances hsite i] at hp'
    obtain ⟨p, hp, rfl⟩ := Option.map_eq_some_iff.1 hp'
    by_cases hne : call = id
    · subst hne
      apply h.awaits_self hphase htask hsite hp hcall
      intro hbefore
      obtain ⟨task', htask', hpool, hawaits⟩ := hs.awaited i p hp call hbefore
      cases htask.symm.trans htask'
      exact ⟨hpool, hphase ▸ hawaits⟩
    · obtain ⟨task', htask', hpool, hawaits⟩ :=
        hs.awaited i p hp call (h.mem_calls hne hcall)
      exact ⟨task', (h.others hne).trans htask', hpool, hawaits⟩

/-! ## Acts -/

/-- A task that is added. -/
structure Scene.Adds (s : Scene) (task : Task) (s' : Scene) : Prop where
  tasks : s'.tasks = s.tasks.insert s.nextTask task
  nextTask : s'.nextTask = s.nextTask + 1
  labels : (s.leases.map (·.1)).Nodup → (s'.leases.map (·.1)).Nodup
  called : task.label.isSome = true → task.phase.isCalled = true

/-- A task that is replaced by one with less to do. -/
structure Scene.Replaces (s : Scene) (id : TaskId) (task task' : Task) (s' : Scene) : Prop where
  same : s' = { s with tasks := s.tasks.insert id task' }
  there : s.tasks.get? id = some task
  pool : task'.pool = task.pool
  label : task'.label = task.label ∨ task'.label = none
  called : task'.label.isSome = true → task'.phase.isCalled = true
  awaits : task.phase.awaits = true → task'.phase.awaits = true

theorem nodup_labels_take {label : String} (h : (s.leases.map (·.1)).Nodup) :
    ((s.leases.filter (·.1 != label)).map (·.1)).Nodup :=
  h.sublist (List.filter_sublist.map _)

/-- An act leaves the tasks alone, adds one or replaces one. -/
theorem Act.course (hs : m.scene.Orderly) (h : Act m d s') : m.scene.Near s' ∨
    (∃ task, m.scene.Adds task s') ∨ ∃ id task task', m.scene.Replaces id task task' s' := by
  cases h with
  | @launch index pool before after action =>
      exact .inr (.inl ⟨⟨index, none, action.phase, false⟩, rfl, rfl, fun h => h,
        fun hlabel => absurd hlabel Bool.false_ne_true⟩)
  | @stop id task htask hstop =>
      rw [Task.mayStop, Bool.and_eq_true] at hstop
      have hcalled := hs.called id task htask hstop.1
      refine .inr (.inr ⟨id, task, _, rfl, htask, rfl, .inr rfl,
        fun hlabel => absurd hlabel Bool.false_ne_true, fun hawaits => ?_⟩)
      cases hphase : task.phase <;> rw [hphase] at hcalled hawaits <;>
        first | rfl | exact absurd hcalled Bool.false_ne_true |
          exact absurd hawaits Bool.false_ne_true
  | @begin task hphase hsite =>
      refine .inr (.inl ⟨task, rfl, rfl, fun h => h, fun _ => ?_⟩)
      cases htask : task.phase <;> rw [htask] at hphase <;>
        first | rfl | exact absurd hphase Bool.false_ne_true
  | @beginReturn label lease task hlease hphase hsite =>
      refine .inr (.inl ⟨task, rfl, rfl, nodup_labels_take, fun _ => ?_⟩)
      obtain h | h := hphase <;> rw [h] <;> rfl
  | @drop label lease scene hlease hscene =>
      refine .inl ?_
      subst hscene
      split <;> exact ⟨rfl, nodup_labels_take, rfl⟩
  | sicken label =>
      refine .inl ⟨rfl, fun h => ?_, rfl⟩
      rw [List.map_map]
      exact h
  | @cancel id task htask =>
      exact .inr (.inr ⟨id, task, _, rfl, htask, rfl, .inl rfl, hs.called id task htask,
        fun h => h⟩)
  | _ => exact .inl (Scene.near_of_eq rfl rfl rfl)

/-- A task that has only begun. -/
def Phase.isNew : Phase → Bool
  | .ask _ _ | .giveBack _ _ | .discard _ _ | .create | .validate _ | .destroy _ _ | .evict _
  | .drain | .clear | .ready | .finish _ => true
  | _ => false

/-- A task that begins belongs to a pool, and validates what this has ordered to be validated. -/
def Task.IsOrdered (s : Scene) (task : Task) : Prop :=
  ∃ p, s.pools[task.pool]? = some p ∧ ∀ x, task.phase = .validate x → .validate x ∈ p.outbox

/-- Where a task comes from that is there after an act. -/
theorem Act.origin (hs : m.scene.Orderly) (h : Act m d s')
    (htask' : s'.tasks.get? id = some task') :
    (∃ task, m.tasks.get? id = some task ∧ task'.pool = task.pool ∧ task'.phase = task.phase) ∨
      (∃ task, m.tasks.get? id = some task ∧ task.mayStop = true ∧ d = stopDeed id task ∧
        task' = { task with phase := task.phase.unwind, label := none, cancelled := false }) ∨
      id = m.nextTask ∧ m.tasks.get? id = none ∧ task'.phase.isNew = true ∧
        task'.IsOrdered m.scene := by
  have hadded : ∀ task, (m.tasks.insert m.nextTask task).get? id = some task' →
      task.phase.isNew = true → task.IsOrdered m.scene →
      (∃ task, m.tasks.get? id = some task ∧ task'.pool = task.pool ∧
        task'.phase = task.phase) ∨
      id = m.nextTask ∧ m.tasks.get? id = none ∧ task'.phase.isNew = true ∧
        task'.IsOrdered m.scene := by
    intro task htask' hphase hordered
    obtain ⟨rfl, rfl⟩ | ⟨-, hthere⟩ := Registry.get?_insert_cases htask'
    · refine .inr ⟨rfl, ?_, hphase, hordered⟩
      rw [Registry.get?_eq_none_iff]
      intro hmem
      exact absurd (hs.fresh _ hmem) (lt_irrefl _)
    · exact .inl ⟨task', hthere, rfl, rfl⟩
  have hordered : ∀ {task : Task}, task.pool < m.sites.length →
      (∀ x, task.phase ≠ .validate x) → task.IsOrdered m.scene := by
    intro task hpool hphase
    have hpools : task.pool < m.scene.pools.length := by
      rw [scene, List.length_map]
      exact hpool
    exact ⟨_, List.getElem?_eq_getElem hpools, fun x hx => absurd hx (hphase x)⟩
  cases h with
  | @launch index pool before after action evictors hpool houtbox hleases hevictors =>
      have hmem : action ∈ pool.outbox := by
        rw [houtbox]
        exact List.mem_append_right _ List.mem_cons_self
      refine (hadded _ htask' ?_ ⟨pool, (pool?_eq _ _).symm.trans hpool, ?_⟩).imp_right .inr
      · cases action <;> rfl
      · intro x hx
        cases action <;> cases hx
        exact hmem
  | @begin task hphase hsite =>
      refine (hadded _ htask' ?_ (hordered hsite ?_)).imp_right .inr
      · cases htask : task.phase <;> rw [htask] at hphase <;>
          first | rfl | exact absurd hphase Bool.false_ne_true
      · intro x hx
        rw [hx] at hphase
        cases hphase
  | beginReturn hlease hphase hsite =>
      refine (hadded _ htask' ?_ (hordered hsite ?_)).imp_right .inr
      · obtain h | h := hphase <;> rw [h] <;> rfl
      · intro x hx
        obtain h | h := hphase <;> cases h.symm.trans hx
  | @stop stopped task htask hstop =>
      obtain ⟨rfl, rfl⟩ | ⟨-, hthere⟩ := Registry.get?_insert_cases htask'
      · exact .inr (.inl ⟨task, htask, hstop, rfl, rfl⟩)
      · exact .inl ⟨task', hthere, rfl, rfl⟩
  | @cancel cancelled task htask =>
      obtain ⟨rfl, rfl⟩ | ⟨-, hthere⟩ := Registry.get?_insert_cases htask'
      · exact .inl ⟨task, htask, rfl, rfl⟩
      · exact .inl ⟨task', hthere, rfl, rfl⟩
  | drop hlease hscene =>
      subst hscene
      refine .inl ⟨task', ?_, rfl, rfl⟩
      split at htask' <;> exact htask'
  | _ => exact .inl ⟨task', htask', rfl, rfl⟩

/-- Where a task comes from that is there after a move: it was left in its phase, had its turn, was
given up, or has only begun. -/
theorem Machine.Move.origin {m' : Machine} (hs : m.scene.Orderly) (h : Move m d m')
    (htask' : m'.tasks.get? id = some task') :
    (∃ task, m.tasks.get? id = some task ∧ task'.pool = task.pool ∧ task'.phase = task.phase) ∨
      (∃ task site, m.tasks.get? id = some task ∧ m.sites[task.pool]? = some site ∧
        task'.pool = task.pool ∧ Turn m id task site task.phase d m'.scene) ∨
      (∃ task, m.tasks.get? id = some task ∧ task'.phase = task.phase.unwind) ∨
      id = m.nextTask ∧ m.tasks.get? id = none ∧ task'.phase.isNew = true ∧
        task'.IsOrdered m.scene := by
  obtain ⟨other, task, site, htask, hsite, hturn⟩ | hact := h.cases
  · by_cases hid : id = other
    · subst hid
      obtain ⟨next, hnext, -⟩ := hturn.self rfl htask htask'
      exact .inr (.inl ⟨task, site, htask, hsite, by rw [hnext], hturn⟩)
    · exact .inl ⟨task', (hturn.others hid).symm.trans htask', rfl, rfl⟩
  · obtain hsame | ⟨task, htask, -, -, rfl⟩ | hbegun := hact.origin hs htask'
    · exact .inl hsame
    · exact .inr (.inr (.inl ⟨task, htask, rfl⟩))
    · exact .inr (.inr (.inr hbegun))

/-- An act leaves a task in its phase or gives it up. -/
theorem Act.keeps (hs : m.scene.Orderly) (h : Act m d s') (htask : m.tasks.get? id = some task) :
    ∃ task', s'.tasks.get? id = some task' ∧
      (task'.phase = task.phase ∨ task'.phase = task.phase.unwind) := by
  have hmem : id ∈ s'.tasks.keys := by
    have hbefore := Registry.mem_keys_of_get? htask
    obtain hnear | ⟨new, hadds⟩ | ⟨other, former, task', hreplaces⟩ := h.course hs
    · rw [hnear.tasks]
      exact hbefore
    · rw [hadds.tasks]
      exact Registry.mem_keys_insert.2 (.inr hbefore)
    · rw [hreplaces.same]
      exact Registry.mem_keys_insert.2 (.inr hbefore)
  obtain ⟨task', htask'⟩ := Option.isSome_iff_exists.1 (Registry.get?_isSome_iff.2 hmem)
  obtain ⟨former, hformer, -, hsame⟩ | ⟨former, hformer, -, -, rfl⟩ | ⟨-, hnone, -⟩ :=
    h.origin hs htask'
  · cases htask.symm.trans hformer
    exact ⟨task', htask', .inl hsame⟩
  · cases htask.symm.trans hformer
    exact ⟨_, htask', .inr rfl⟩
  · cases htask.symm.trans hnone

/-- A task loses its label when it is given up, and never gets another one. -/
theorem Act.label (hs : m.scene.Orderly) (h : Act m d s') (htask : m.tasks.get? id = some task)
    (htask' : s'.tasks.get? id = some task') :
    task'.label = task.label ∨ task'.label = none := by
  obtain hnear | ⟨new, hadds⟩ | ⟨other, former, next, hreplaces⟩ := h.course hs
  · rw [hnear.tasks] at htask'
    cases htask.symm.trans htask'
    exact .inl rfl
  · rw [hadds.tasks] at htask'
    obtain ⟨rfl, -⟩ | ⟨-, hthere⟩ := Registry.get?_insert_cases htask'
    · exact absurd (hs.fresh _ (Registry.mem_keys_of_get? htask)) (lt_irrefl _)
    · cases hthere.symm.trans htask
      exact .inl rfl
  · rw [hreplaces.same] at htask'
    obtain ⟨rfl, rfl⟩ | ⟨-, hthere⟩ := Registry.get?_insert_cases htask'
    · cases hreplaces.there.symm.trans htask
      exact hreplaces.label
    · cases hthere.symm.trans htask
      exact .inl rfl

/-- An act leaves a task alone that may not be given up. -/
theorem Act.stays (hs : m.scene.Orderly) (h : Act m d s') (htask : m.tasks.get? id = some task)
    (hstop : task.mayStop = false) :
    ∃ task', s'.tasks.get? id = some task' ∧ task'.pool = task.pool ∧ task'.phase = task.phase := by
  obtain ⟨task', htask', -⟩ := h.keeps hs htask
  obtain ⟨former, hformer, hsame⟩ | ⟨former, hformer, hstops, -⟩ | ⟨-, hnone, -⟩ :=
    h.origin hs htask'
  · cases htask.symm.trans hformer
    exact ⟨task', htask', hsame⟩
  · cases htask.symm.trans hformer
    cases hstop.symm.trans hstops
  · cases htask.symm.trans hnone

/-- A task goes on by a turn of its own, and is otherwise left alone if it may not be given up. -/
theorem Machine.Move.stays {m' : Machine} (hs : m.scene.Orderly) (h : Move m d m')
    (htask : m.tasks.get? id = some task) (hstop : task.mayStop = false) :
    (∃ site, m.sites[task.pool]? = some site ∧ Turn m id task site task.phase d m'.scene) ∨
      ∃ task', m'.tasks.get? id = some task' ∧ task'.pool = task.pool ∧
        task'.phase = task.phase := by
  obtain ⟨other, running, site, hrunning, hsite, hturn⟩ | hact := h.cases
  · by_cases hid : id = other
    · subst hid
      cases htask.symm.trans hrunning
      exact .inl ⟨site, hsite, hturn⟩
    · exact .inr ⟨task, (hturn.others hid).trans htask, rfl, rfl⟩
  · exact .inr (hact.stays hs htask hstop)

theorem Act.nextTask_le (hs : m.scene.Orderly) (h : Act m d s') : m.nextTask ≤ s'.nextTask := by
  obtain hnear | ⟨task, hadds⟩ | ⟨id, task, task', hreplaces⟩ := h.course hs
  · exact hnear.nextTask.ge
  · rw [hadds.nextTask]
    exact Nat.le_succ _
  · rw [hreplaces.same]
    exact le_rfl

namespace Scene.Orderly

/-- Answers are awaited as before. -/
theorem near (hs : s.Orderly) (h : s.Near s')
    (hawaited : ∀ (i : Nat) (p : Pool Connection), s'.pools[i]? = some p → ∀ call ∈ p.calls.keys,
      s.Awaits i call) : s'.Orderly where
  tasks := h.tasks ▸ hs.tasks
  fresh := by
    rw [h.tasks, h.nextTask]
    exact hs.fresh
  labels := h.labels hs.labels
  called := by
    rw [h.tasks]
    exact hs.called
  awaited i p hp call hcall := by
    rw [Scene.Awaits, h.tasks]
    exact hawaited i p hp call hcall

theorem adds (hs : s.Orderly) (h : s.Adds task s')
    (hawaited : ∀ (i : Nat) (p : Pool Connection), s'.pools[i]? = some p → ∀ call ∈ p.calls.keys,
      s.Awaits i call) : s'.Orderly := by
  have hnew : s.nextTask ∉ s.tasks.keys := fun hmem => lt_irrefl _ (hs.fresh _ hmem)
  refine ⟨?_, fun id hmem => ?_, h.labels hs.labels, fun id task' htask' hlabel => ?_,
    fun i p hp call hcall => ?_⟩
  · rw [h.tasks]
    exact Registry.nodup_keys_insert hs.tasks
  · rw [h.tasks, Registry.mem_keys_insert] at hmem
    have := hs.fresh id
    rw [h.nextTask]
    grind
  · rw [h.tasks] at htask'
    obtain ⟨rfl, rfl⟩ | ⟨-, hthere⟩ := Registry.get?_insert_cases htask'
    · exact h.called hlabel
    · exact hs.called id task' hthere hlabel
  · obtain ⟨task', htask', hawaits⟩ := hawaited i p hp call hcall
    have hne : call ≠ s.nextTask := fun heq => hnew (heq ▸ Registry.mem_keys_of_get? htask')
    refine ⟨task', ?_, hawaits⟩
    rw [h.tasks, Registry.get?_insert_of_ne hne, htask']

theorem replaces (hs : s.Orderly) (h : s.Replaces id task task' s')
    (hawaited : ∀ (i : Nat) (p : Pool Connection), s'.pools[i]? = some p → ∀ call ∈ p.calls.keys,
      s.Awaits i call) : s'.Orderly := by
  obtain ⟨rfl, hthere, hpool, -, hcalled, hawaits⟩ := h
  refine ⟨Registry.nodup_keys_insert hs.tasks, fun other hmem => ?_, hs.labels,
    fun other task'' htask'' hlabel => ?_, fun i p hp call hcall => ?_⟩
  · obtain rfl | hmem := Registry.mem_keys_insert.1 hmem
    · exact hs.fresh other (Registry.mem_keys_of_get? hthere)
    · exact hs.fresh other hmem
  · obtain ⟨rfl, rfl⟩ | ⟨-, hthere'⟩ := Registry.get?_insert_cases htask''
    · exact hcalled hlabel
    · exact hs.called other task'' hthere' hlabel
  · obtain ⟨task'', htask'', hpool'', hawaits''⟩ := hawaited i p hp call hcall
    by_cases heq : call = id
    · subst heq
      cases hthere.symm.trans htask''
      exact ⟨task', Registry.get?_insert_self, hpool.trans hpool'', hawaits hawaits''⟩
    · exact ⟨task'', (Registry.get?_insert_of_ne heq).trans htask'', hpool'', hawaits''⟩

end Scene.Orderly

theorem Act.mem_calls (h : Act m d s') {call : CallId} (hcall : call ∈ (d.run i p).calls.keys) :
    call ∈ p.calls.keys := by
  refine Deed.mem_calls (fun now priority hchange => ?_) hcall
  cases h.isAct hchange

theorem Act.orderly (hs : m.scene.Orderly) (h : Act m d s') : s'.Orderly := by
  have hawaited : ∀ (i : Nat) (p : Pool Connection), s'.pools[i]? = some p →
      ∀ call ∈ p.calls.keys, m.scene.Awaits i call := by
    intro i p' hp' call hcall
    obtain hadvances | ⟨config, policy, recycling, -, rfl⟩ := h.advances
    · rw [hadvances i] at hp'
      obtain ⟨p, hp, rfl⟩ := Option.map_eq_some_iff.1 hp'
      exact hs.awaited i p hp call (h.mem_calls hcall)
    · rw [List.getElem?_append] at hp'
      split at hp'
      · exact hs.awaited i p' hp' call hcall
      · obtain rfl := List.mem_singleton.1 (List.mem_of_getElem? hp')
        cases hcall
  obtain hnear | ⟨task, hadds⟩ | ⟨id, task, task', hreplaces⟩ := h.course hs
  · exact hs.near hnear hawaited
  · exact hs.adds hadds hawaited
  · exact hs.replaces hreplaces hawaited

/-! ## Runs -/

namespace Ledger

/-- A deed for which the pools are ready goes into the ledger. -/
theorem enter (h : Ledger trace s) (horderly : s'.Orderly) (hadvances : s.Advances d s')
    (hready : d.Ready s) (hflow : Flow s d s') (hmakes : d.Makes s) :
    Ledger (trace ++ [d]) s' where
  toOrderly := horderly
  placed := h.placed_move hadvances hready
  balance := h.balance_move hadvances hready hflow
  once := h.once_move hmakes
  numbered := h.numbered_move hadvances hmakes

/-- A pool that is built has nothing. -/
theorem build (h : Ledger trace s) (horderly : s'.Orderly) {config : PoolConfig}
    {policy : EvictionPolicy} {recycling : Option RecyclingConfig}
    (hs' : s' = { s with
      pools := s.pools ++ [.idle s.pools.length config policy recycling]
      evictors := s.evictors ++ [.none] }) : Ledger (trace ++ [({} : Deed)]) s' := by
  subst hs'
  have hsources : sources (trace ++ [({} : Deed)]) = sources trace := by
    rw [sources_append]
    exact List.append_nil _
  have hsinks : sinks (trace ++ [({} : Deed)]) = sinks trace := by
    rw [sinks_append]
    exact List.append_nil _
  have hget : ∀ i, (s.pools ++ [.idle s.pools.length config policy recycling])[i]? =
      if i = s.pools.length then some (.idle s.pools.length config policy recycling)
      else s.pools[i]? := by
    intro i
    rw [List.getElem?_append]
    split
    · rename_i hlt
      rw [if_neg hlt.ne]
    · rename_i hge
      split
      · rename_i heq
        rw [heq, Nat.sub_self]
        rfl
      · rename_i hne
        rw [List.getElem?_eq_none (by simp; omega), List.getElem?_eq_none (by omega)]
  refine ⟨horderly, fun i p hp => ?_, fun i a => ?_, ?_, fun i n hpos => ?_⟩
  · rw [hget] at hp
    split at hp
    · rename_i heq
      cases hp
      exact heq ▸ Pool.placed_idle _ config policy recycling
    · exact h.placed i p hp
  · have hbalance := h.balance i a
    rw [hsources, hsinks]
    simp only [Scene.book, Scene.inside, hget] at *
    split
    · rename_i heq
      rw [heq, List.getElem?_eq_none le_rfl] at hbalance
      rw [heq]
      cases a <;> exact hbalance
    · exact hbalance
  · rw [hsources]
    exact h.once
  · rw [hsources] at hpos
    obtain ⟨p, hp, hlt⟩ := h.numbered i n hpos
    refine ⟨p, ?_, hlt⟩
    rw [hget, if_neg (List.getElem?_eq_some_iff.1 hp).1.ne]
    exact hp

/-- Every move finds its pool ready. -/
theorem ready_of_move {m' : Machine} (h : Ledger trace m.scene) (hmove : Move m d m') :
    d.Ready m.scene := by
  obtain ⟨id, task, site, htask, hsite, hturn⟩ | hact := hmove.cases
  · exact hturn.deed_ready h rfl htask hsite
  · exact hact.deed_ready h

theorem move {m' : Machine} (h : Ledger trace m.scene) (hmove : Move m d m') :
    Ledger (trace ++ [d]) m'.scene := by
  have hready := h.ready_of_move hmove
  obtain ⟨id, task, site, htask, hsite, hturn⟩ | hact := hmove.cases
  · exact h.enter (hturn.orderly h.toOrderly rfl htask hsite) (hturn.advances hsite)
      hready (hturn.flow h rfl htask hsite) (hturn.makes hsite)
  · have horderly := hact.orderly h.toOrderly
    obtain hadvances | ⟨config, policy, recycling, rfl, heq⟩ := hact.advances
    · exact h.enter horderly hadvances hready (hact.flow h) hact.makes
    · exact h.build horderly heq

theorem initial (server : Server) : Ledger [] ({ server } : Machine).scene where
  tasks := List.nodup_nil
  fresh _ hmem := absurd hmem List.not_mem_nil
  labels := List.nodup_nil
  called _ task htask _ := absurd htask.symm (Option.some_ne_none task)
  awaited _ p hp := absurd hp.symm (Option.some_ne_none p)
  placed _ p hp := absurd hp.symm (Option.some_ne_none p)
  balance _ _ := rfl
  once _ _ := Nat.zero_le 1
  numbered _ _ h := absurd h (lt_irrefl 0)

end Ledger

/-- Every run has its ledger, with or without a runtime. -/
theorem Machine.FreeRun.ledger (h : FreeRun trace m) : Ledger trace m.scene := by
  induction h with
  | idle server => exact .initial server
  | move _ hmove ih => exact ih.move hmove
  | switch _ runtime now ih => exact { ih with }

/-- The pool of a section that a move brings about is sound and the section can be run. -/
theorem Machine.FreeRun.section_of_move {m' : Machine}
    {x : Section Connection} (h : FreeRun trace m) (hmove : Move m d m') (hp : m.pool? i = some p)
    (hchange : d.change = some (i, x)) : p.Sound [] ∧ x.Ready p := by
  rw [pool?_eq] at hp
  exact ⟨(h.ledger.placed i p hp).sound, h.ledger.ready_of_move hmove i x hchange p hp⟩

end PooledSql
