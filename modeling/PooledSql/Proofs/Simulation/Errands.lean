import PooledSql.Proofs.Pool.Orders
import PooledSql.Proofs.Simulation.Ownership
import PooledSql.Proofs.Simulation.Provision

/-!
# Errands

An errand of a pool waits in its outbox, then with the task that was started for it, until a call of
the factory begins; the task that evicts is on its errand as long as it lives. A move hands errands
on and fulfils them. Once the pool withholds errands of a kind, the calls that begin are among those
that waited.
-/

namespace PooledSql

open Machine

variable {m m' : Machine} {s s' : Scene} {id : TaskId} {task task' : Task} {site : Site}
variable {phase next : Phase} {d : Deed} {trace : List Deed} {i : Nat} {p : Pool Connection}
variable {errand : Errand}

/-- The errand that a task in this phase has yet to fulfil. -/
def Phase.errand? : Phase → Option Errand
  | .create => some .create
  | .validate _ => some .validate
  | .evict _ => some .evict
  | _ => none

/-- The errand of the pool that the task is on. -/
def Task.errands (i : Nat) (task : Task) : List Errand :=
  if task.pool = i then task.phase.errand?.toList else []

/-- The errands of the pool that tasks are on. -/
def Scene.errands (s : Scene) (i : Nat) : List Errand := s.tasks.gather (Task.errands i)

/-- The errands of a pool that wait in its outbox or that tasks are on. -/
def Machine.errands (m : Machine) (i : Nat) : List Errand :=
  (m.pool? i).elim [] (·.outbox.filterMap Action.errand?) ++ m.scene.errands i

/-- The errand that is fulfilled when a call of the factory begins. -/
def Event.begun? (i : Nat) : Event → Option Errand
  | .createBegun pool => if pool = i then some .create else none
  | .validateBegun pool _ => if pool = i then some .validate else none
  | _ => none

/-- The calls of the factory that begin in a trace, by their errands. -/
def begun (trace : List Deed) (i : Nat) : List Errand :=
  (happened trace).filterMap (Event.begun? i)

/-- The actions that leave the outbox of the pool. -/
def Deed.performs (d : Deed) (i : Nat) : List (Action Connection) :=
  (d.section? i).elim [] Section.performs

theorem Deed.performs_of_change {x : Section Connection} (h : d.change = some (i, x)) :
    d.performs i = x.performs := by
  rw [performs, section?_eq_some_iff.2 h, Option.elim_some]

theorem Deed.performs_eq_nil (h : ∀ x, d.change ≠ some (i, x)) : d.performs i = [] := by
  rw [performs, section?_eq_none_iff.2 h, Option.elim_none]

theorem begun_append (trace : List Deed) (d : Deed) (i : Nat) :
    begun (trace ++ [d]) i = begun trace i ++ d.events.filterMap (Event.begun? i) := by
  simp [begun, happened]

/-! ## Tasks -/

theorem Task.errands_eq_nil (h : task.phase.errand? = none) : task.errands i = [] := by
  rw [errands, h]
  exact ite_self _

theorem Action.errand?_phase (action : Action Connection) :
    action.phase.errand? = action.errand? := by
  cases action <;> rfl

theorem errand?_afterWork (server : Server) (lease : Lease Connection) (job : Job) :
    (afterWork server lease job).errand? = none := by
  obtain ⟨outcome, h | h⟩ := afterWork_cases server lease job <;> rw [h] <;> rfl

theorem Phase.errand?_unwind (phase : Phase) : phase.unwind.errand? = none := by
  cases phase <;> rfl

/-- A task goes on with nothing that the pool has sent it for. -/
theorem Scene.errands_go (h : next.errand? = none) :
    ((s.go id next).tasks.get? id).elim [] (Task.errands i) = [] := by
  rw [get?_go, if_pos rfl]
  cases s.tasks.get? id with
  | none => rfl
  | some task => exact Task.errands_eq_nil h

/-- The task of a turn begins its errand or goes on with it. -/
theorem Turn.errands_self (h : Turn m id task site phase d s') (hphase : task.phase = phase)
    (htask : m.tasks.get? id = some task) (i : Nat) (errand : Errand) :
    (d.events.filterMap (Event.begun? i)).count errand +
      ((s'.tasks.get? id).elim [] (Task.errands i)).count errand ≤
        (task.errands i).count errand := by
  have hstays : ∀ {s : Scene}, s.tasks.get? id = some task →
      ((s.tasks.get? id).elim [] (Task.errands i)).count errand =
        (task.errands i).count errand := by
    intro s hs
    rw [hs]
    rfl
  -- between two evictions the task remains on its errand
  have hevicts : ∀ {s : Scene} {due : Option Instant}, s.tasks.get? id = some task →
      phase.errand? = some .evict →
      (((s.go id (.evict due)).tasks.get? id).elim [] (Task.errands i)).count errand =
        (task.errands i).count errand := by
    intro s due hs herrand
    rw [Scene.get?_go, if_pos rfl, hs]
    change (Task.errands i { task with phase := .evict due }).count errand = _
    rw [Task.errands, Task.errands, hphase, herrand]
    rfl
  cases h with
  | wait | drainQueue => exact (Nat.zero_add _).trans_le (hstays htask).le
  | finish =>
      have hgone : ((m.scene.remove id).tasks.get? id).elim [] (Task.errands i) = [] := by
        rw [Scene.remove, Registry.get?_erase_self]
        rfl
      rw [hgone]
      exact Nat.zero_le _
  | evict | evictLater => exact (Nat.zero_add _).trans_le (hevicts htask rfl).le
  | create | validate =>
      rw [Scene.errands_go rfl, Task.errands, hphase]
      by_cases hpool : task.pool = i <;> simp [Event.begun?, hpool, Phase.errand?]
  | keep hlooks h hnext =>
      rw [Scene.errands_go (by rw [hnext]; split <;> rfl)]
      exact Nat.zero_le _
  | hangUp hnext =>
      rw [Scene.errands_go (by rw [hnext]; split <;> rfl)]
      exact Nat.zero_le _
  | worked =>
      rw [Scene.errands_go (errand?_afterWork _ _ _)]
      exact Nat.zero_le _
  | @created episode due made hmade =>
      rw [Scene.errands_go rfl]
      cases made <;> exact Nat.zero_le _
  | _ =>
      rw [Scene.errands_go rfl]
      exact Nat.zero_le _

/-- In a turn errands are fulfilled or remain. -/
theorem Turn.errands (hs : m.scene.Orderly) (h : Turn m id task site phase d s')
    (hphase : task.phase = phase) (htask : m.tasks.get? id = some task)
    (hsite : m.sites[task.pool]? = some site) (i : Nat) (errand : Errand) :
    (d.events.filterMap (Event.begun? i)).count errand + (s'.errands i).count errand ≤
      (m.scene.errands i).count errand := by
  have hself := h.errands_self hphase htask i errand
  have hothers := Registry.countP_gather_le_of_others hs.tasks
    (h.orderly hs hphase htask hsite).tasks id
    (fun k value hne hk => (h.others hne).symm.trans hk) (Task.errands i) (· == errand)
  rw [show m.scene.tasks = m.tasks from rfl, htask] at hothers
  change _ + (s'.tasks.gather _).countP _ ≤ (m.tasks.gather _).countP _
  change _ + List.countP _ _ ≤ List.countP _ _ at hself
  change _ + (Task.errands i task).countP _ ≤ _ at hothers
  omega

/-! ## Acts -/

theorem Scene.count_errands_add (hs : s.Orderly) (task : Task)
    (htasks : s'.tasks = s.tasks.insert s.nextTask task) (i : Nat) (errand : Errand) :
    (s'.errands i).count errand =
      (s.errands i).count errand + (task.errands i).count errand := by
  have hnew : s.nextTask ∉ s.tasks.keys := fun hmem => lt_irrefl _ (hs.fresh _ hmem)
  rw [errands, htasks]
  exact Registry.countP_gather_add task (Task.errands i) (· == errand) hnew

theorem Scene.count_errands_insert_le (hs : s.Orderly) (htask : s.tasks.get? id = some task)
    (htasks : s'.tasks = s.tasks.insert id task')
    (hle : (task'.errands i).count errand ≤ (task.errands i).count errand) :
    (s'.errands i).count errand ≤ (s.errands i).count errand := by
  have herase := Registry.countP_gather_erase (Task.errands i) (· == errand) hs.tasks htask
  have hinsert := Registry.countP_gather_insert s.tasks id task' (Task.errands i) (· == errand)
  rw [errands, htasks]
  simp only [List.count, errands] at *
  omega

/-- An act begins nothing. The errand of an action that is performed goes to its task. -/
theorem Act.errands (hs : m.scene.Orderly) (h : Act m d s') (i : Nat) (errand : Errand) :
    d.events.filterMap (Event.begun? i) = [] ∧
      (s'.errands i).count errand ≤ (m.scene.errands i).count errand +
        (d.performs i).countP (Action.sendsFor errand) := by
  have hsame : s'.tasks = m.tasks → (s'.errands i).count errand ≤
      (m.scene.errands i).count errand + (d.performs i).countP (Action.sendsFor errand) := by
    intro htasks
    rw [Scene.errands, htasks]
    exact Nat.le_add_right _ _
  have hnew : ∀ task : Task, s'.tasks = m.tasks.insert m.nextTask task →
      task.phase.errand? = none → (s'.errands i).count errand ≤
        (m.scene.errands i).count errand + (d.performs i).countP (Action.sendsFor errand) := by
    intro task htasks hphase
    rw [Scene.count_errands_add hs task htasks, Task.errands_eq_nil hphase]
    exact Nat.le_add_right _ _
  cases h with
  | @launch index pool before after action evictors =>
      refine ⟨rfl, ?_⟩
      rw [Scene.count_errands_add (s := m.scene) hs ⟨index, none, action.phase, false⟩ rfl]
      refine Nat.add_le_add_left ?_ _
      rw [Task.errands, Action.errand?_phase, Deed.performs, Deed.section?, Option.bind_some]
      dsimp only
      split
      · rw [Option.elim_some, Section.performs, List.countP_singleton, Action.sendsFor]
        cases action.errand? <;> simp [List.count_singleton]
      · exact le_rfl
  | @begin task hphase hsite =>
      refine ⟨rfl, hnew task rfl ?_⟩
      cases htask : task.phase <;> rw [htask] at hphase <;>
        first | rfl | exact absurd hphase Bool.false_ne_true
  | @beginReturn label lease task hlease hphase hsite =>
      refine ⟨rfl, hnew task rfl ?_⟩
      obtain h | h := hphase <;> rw [h] <;> rfl
  | @stop id task htask hstop =>
      constructor
      · rw [stopDeed]
        split <;> rfl
      · refine le_trans ?_ (Nat.le_add_right _ _)
        apply Scene.count_errands_insert_le hs htask rfl
        rw [Task.errands_eq_nil task.phase.errand?_unwind]
        exact Nat.zero_le _
  | @cancel id task htask =>
      refine ⟨rfl, le_trans ?_ (Nat.le_add_right _ _)⟩
      exact Scene.count_errands_insert_le hs htask rfl le_rfl
  | @abandon index pool before after action =>
      refine ⟨?_, hsame rfl⟩
      cases action <;> rfl
  | drop hlease hscene =>
      refine ⟨rfl, hsame ?_⟩
      subst hscene
      split <;> rfl
  | _ => exact ⟨rfl, hsame rfl⟩

/-! ## Moves -/

namespace Machine

/-- Errands that tasks are on are fulfilled, remain, or come from the outbox. -/
theorem Move.errands (hs : m.scene.Orderly) (h : Move m d m') (i : Nat) (errand : Errand) :
    (d.events.filterMap (Event.begun? i)).count errand + (m'.scene.errands i).count errand ≤
      (m.scene.errands i).count errand + (d.performs i).countP (Action.sendsFor errand) := by
  obtain ⟨id, task, site, htask, hsite, hturn⟩ | hact := h.cases
  · exact (hturn.errands hs rfl htask hsite i errand).trans (Nat.le_add_right _ _)
  · obtain ⟨hnone, hle⟩ := hact.errands hs i errand
    rw [hnone, List.count_nil, Nat.zero_add]
    exact hle

theorem count_errands (hp : m.pool? i = some p) (errand : Errand) :
    (m.errands i).count errand =
      p.outbox.countP (Action.sendsFor errand) + (m.scene.errands i).count errand := by
  rw [Machine.errands, hp, List.count_append]
  change (p.outbox.filterMap Action.errand?).count errand + _ = _
  rw [List.count_filterMap]
  rfl

/-- When a pool withholds errands of a kind, those that are fulfilled and those that are left in
the end are no more than there were. The only way to more is to start the pool. -/
theorem Run.errands_cases (hrun : Run trace m) (h : Move m d m') (hp : m.pool? i = some p)
    (hwithholds : p.Withholds (Action.sendsFor errand)) :
    ((d.run i p).started = p.started ∧
      (d.events.filterMap (Event.begun? i)).count errand + (m'.errands i).count errand ≤
        (m.errands i).count errand) ∨
    (p.started = false ∧ p.draining = false ∧ (d.run i p).started = true ∧
      (m'.errands i).count errand ≤ (m.errands i).count errand + 1) := by
  have htasks := h.errands hrun.free.ledger.toOrderly i errand
  rw [count_errands hp, count_errands (h.pool? hp)]
  obtain ⟨hnone, heq⟩ | ⟨x, hchange, heq⟩ := d.run_cases i p <;> rw [heq]
  · rw [Deed.performs_eq_nil hnone, List.countP_nil] at htasks
    exact .inl ⟨rfl, by omega⟩
  · rw [Deed.performs_of_change hchange] at htasks
    obtain ⟨hsound, hready, -⟩ := hrun.section_of_move h hp hchange
    obtain ⟨hstarted, hcount⟩ | ⟨hstarted, hdraining, hstarts, hnone, hcount⟩ :=
      Section.outbox_cases hwithholds hsound hready
    · exact .inl ⟨hstarted, by omega⟩
    · rw [hnone, List.countP_nil] at htasks
      exact .inr ⟨hstarted, hdraining, hstarts, by omega⟩

/-- A quiet pool cannot be started, so no errands are added. -/
theorem Run.count_errands_le (hrun : Run trace m) (h : Move m d m') (hp : m.pool? i = some p)
    (hquiet : p.Quiet) (errand : Errand) :
    (d.events.filterMap (Event.begun? i)).count errand + (m'.errands i).count errand ≤
      (m.errands i).count errand := by
  obtain ⟨-, hcount⟩ | ⟨-, hdraining, -⟩ := hrun.errands_cases h hp (hquiet.withholds errand)
  · exact hcount
  · cases hdraining.symm.trans hquiet.draining

end Machine

end PooledSql
