import PooledSql.Proofs.Pool.Closing
import PooledSql.Proofs.Simulation.Audit
import PooledSql.Proofs.Simulation.Runtime

/-!
# Tasks that close pools

Draining and clearing go through several phases, and a task goes on when its pool lets it. What it
has found out about the pool on its way remains true: a pool that drains does so for good, once it
is quiet it stays so, and once it is drained nothing is lent or made any more.
-/

namespace PooledSql

open Machine

variable {m m' : Machine} {s s' : Scene} {id : TaskId} {task task' : Task} {site : Site}
variable {phase next : Phase} {d : Deed} {trace : List Deed} {i : Nat} {p p' : Pool Connection}

/-- A task is amid draining or clearing its pool. -/
def Phase.isClosing : Phase → Bool
  | .drainQueue | .drainLoans | .takeEvictor | .drained _ | .sweep | .clearDestructions => true
  | _ => false

/-- How a task goes on that drains or clears a pool, and how the pool changes. -/
inductive Phase.Closes : Pool Connection → Pool Connection → Phase → Phase → Prop where
  | drain (p : Pool Connection) : Closes p p.beginDrain .drain .drainQueue
  | queue {p : Pool Connection} (h : p.purge.waiting.isEmpty = true) :
      Closes p p.purge .drainQueue .drainLoans
  | loans {p : Pool Connection} (h : p.loans.isEmpty = true) : Closes p p .drainLoans .takeEvictor
  | handle (p : Pool Connection) (evictor : Option TaskId) :
      Closes p p .takeEvictor (.drained evictor)
  | drained (p : Pool Connection) (evictor : Option TaskId) :
      Closes p p (.drained evictor) (.finish .done)
  | clear {p : Pool Connection} (h : p.creating = 0) : Closes p p .clear .sweep
  | sweep (p : Pool Connection) : Closes p p.sweep .sweep .clearDestructions
  | cleared {p : Pool Connection} (h : p.destroying = 0) :
      Closes p p .clearDestructions (.finish .done)

theorem isClosing_afterWork (server : Server) (lease : Lease Connection) (job : Job) :
    (afterWork server lease job).isClosing = false := by
  obtain ⟨outcome, h | h⟩ := afterWork_cases server lease job <;> rw [h] <;> rfl

theorem Phase.Looks.isClosing {job : Job} (h : phase.Looks job) : phase.isClosing = false := by
  cases h <;> rfl

/-- A turn leaves its task in its phase, closes the pool, or has nothing to do with that. -/
theorem Turn.closes (h : Turn m id task site phase d s') (hphase : task.phase = phase)
    (htask : m.tasks.get? id = some task) (htask' : s'.tasks.get? id = some task') :
    task'.phase = phase ∨
      Phase.Closes site.pool (d.run task.pool site.pool) phase task'.phase ∨
      phase.isClosing = false ∧ task'.phase.isClosing = false := by
  cases h with
  | wait | drainQueue => exact .inl (Option.some_inj.1 (htask'.symm.trans htask) ▸ hphase)
  | finish => cases Registry.get?_erase_self.symm.trans htask'
  | keep hlooks h hnext =>
      refine .inr (.inr ⟨hlooks.isClosing, ?_⟩)
      rw [Scene.phase_go htask', hnext]
      split <;> rfl
  | hold hlooks | send hlooks | unanswered hlooks =>
      refine .inr (.inr ⟨hlooks.isClosing, ?_⟩)
      rw [Scene.phase_go htask']
      rfl
  | hangUp hnext =>
      refine .inr (.inr ⟨rfl, ?_⟩)
      rw [Scene.phase_go htask', hnext]
      split <;> rfl
  | worked =>
      refine .inr (.inr ⟨rfl, ?_⟩)
      rw [Scene.phase_go htask', isClosing_afterWork]
  | drain =>
      rw [Scene.phase_go htask', Deed.run_of_change rfl]
      exact .inr (.inl (.drain _))
  | queueDrained h =>
      rw [Scene.phase_go htask', Deed.run_of_change rfl]
      exact .inr (.inl (.queue h))
  | loansDrained h =>
      rw [Scene.phase_go htask']
      exact .inr (.inl (.loans h))
  | takeEvictor | leaveEvictor =>
      rw [Scene.phase_go htask']
      exact .inr (.inl (.handle _ _))
  | abort | drained =>
      rw [Scene.phase_go htask']
      exact .inr (.inl (.drained _ _))
  | clear h =>
      rw [Scene.phase_go htask']
      exact .inr (.inl (.clear h))
  | sweep =>
      rw [Scene.phase_go htask', Deed.run_of_change rfl]
      exact .inr (.inl (.sweep _))
  | cleared h =>
      rw [Scene.phase_go htask']
      exact .inr (.inl (.cleared h))
  | _ =>
      refine .inr (.inr ⟨rfl, ?_⟩)
      rw [Scene.phase_go htask']
      rfl

/-- An act leaves a task in its phase, or adds or gives up one that does not close its pool. -/
theorem Act.closes (hs : m.scene.Orderly) (h : Act m d s')
    (htask' : s'.tasks.get? id = some task') :
    (∃ task, m.tasks.get? id = some task ∧ task'.pool = task.pool ∧ task'.phase = task.phase) ∨
      task'.phase.isClosing = false ∧
        ∀ task, m.tasks.get? id = some task → task'.label ≠ task.label := by
  obtain h | ⟨task, htask, hstop, -, rfl⟩ | ⟨-, hnone, hnew, -⟩ := h.origin hs htask'
  · exact .inl h
  · refine .inr ⟨by cases task.phase <;> rfl, fun former hformer hlabel => ?_⟩
    rw [Task.mayStop, Bool.and_eq_true] at hstop
    cases hformer.symm.trans htask
    rw [← hlabel] at hstop
    exact Bool.false_ne_true hstop.1
  · refine .inr ⟨?_, fun task htask => ?_⟩
    · cases hphase : task'.phase <;> rw [hphase] at hnew <;>
        first | rfl | exact absurd hnew Bool.false_ne_true
    · cases hnone.symm.trans htask

/-- Where a task comes from. -/
theorem Machine.Move.closes (hs : m.scene.Orderly) (h : Move m d m')
    (htask' : m'.tasks.get? id = some task') :
    (∃ task, m.tasks.get? id = some task ∧ task'.pool = task.pool ∧ task'.phase = task.phase) ∨
      (∃ task p, m.tasks.get? id = some task ∧ task'.pool = task.pool ∧
        m.pool? task.pool = some p ∧ Phase.Closes p (d.run task.pool p) task.phase task'.phase) ∨
      task'.phase.isClosing = false ∧ ∀ task, m.tasks.get? id = some task →
        task.phase.isClosing = true → task'.label ≠ task.label := by
  obtain ⟨turned, task, site, htask, hsite, hturn⟩ | hact := h.cases
  · by_cases hid : id = turned
    · subst hid
      obtain ⟨next, hnext, -⟩ := hturn.self rfl htask htask'
      have hpool : task'.pool = task.pool := by rw [hnext]
      obtain hsame | hcloses | ⟨hphase, hphase'⟩ := hturn.closes rfl htask htask'
      · exact .inl ⟨task, htask, hpool, hsame⟩
      · exact .inr (.inl ⟨task, site.pool, htask, hpool, pool?_of_site hsite, hcloses⟩)
      · refine .inr (.inr ⟨hphase', fun former hformer hclosing => ?_⟩)
        cases hformer.symm.trans htask
        exact absurd (hphase.symm.trans hclosing) Bool.false_ne_true
    · exact .inl ⟨task', (hturn.others hid).symm.trans htask', rfl, rfl⟩
  · obtain hsame | ⟨hphase, hlabel⟩ := hact.closes hs htask'
    · exact .inl hsame
    · exact .inr (.inr ⟨hphase, fun former hformer _ => hlabel former hformer⟩)

/-! ## What a drain has found out -/

theorem Deed.draining (d : Deed) (i : Nat) (h : p.draining = true) :
    (d.run i p).draining = true := by
  obtain ⟨-, heq⟩ | ⟨x, -, heq⟩ := d.run_cases i p <;> rw [heq]
  · exact h
  · rw [(Section.frame p x).draining, h, Bool.true_or]

/-- Inside a runtime a quiet pool becomes no larger in a move. -/
theorem Machine.Move.wanes (hrun : Run trace m) (h : Move m d m') (hp : m.pool? i = some p)
    (hquiet : p.Quiet) : Pool.Wanes p (d.run i p) := by
  obtain ⟨-, heq⟩ | ⟨x, hchange, heq⟩ := d.run_cases i p <;> rw [heq]
  · exact hquiet.wanes_refl
  · obtain ⟨hsound, hready, hstarts⟩ := hrun.section_of_move h hp hchange
    exact Section.wanes hquiet hsound hready hstarts

/-- What is known of the pool of a task that drains it. -/
def Phase.Found (p : Pool Connection) : Phase → Prop
  | .drainQueue => p.draining = true
  | .drainLoans => p.Quiet
  | .takeEvictor | .drained _ => p.Drained
  | _ => True

theorem Phase.Found.run (h : phase.Found p) (hrun : Run trace m) (hmove : Move m d m')
    (hp : m.pool? i = some p) : phase.Found (d.run i p) := by
  cases phase with
  | drainQueue => exact d.draining i h
  | drainLoans => exact (hmove.wanes hrun hp h).quiet
  | takeEvictor | drained => exact (hmove.wanes hrun hp h.toQuiet).drained h
  | _ => trivial

theorem Phase.Closes.found (h : Closes p p' phase next) (hfound : phase.Found p)
    (hqueue : p.purge.waiting.Wf) : next.Found p' := by
  cases h with
  | drain => rfl
  | queue h =>
      refine ⟨hfound, ?_⟩
      rw [hqueue.length_toList, hqueue.isEmpty_iff.1 h]
      rfl
  | loans h => exact ⟨hfound, Registry.isEmpty_iff.1 h⟩
  | handle => exact hfound
  | _ => trivial

/-- What a task has found out about its pool is true. -/
theorem Machine.Run.found (h : Run trace m) (htask : m.tasks.get? id = some task)
    (hclosing : task.phase.isClosing = true) :
    ∃ p, m.pool? task.pool = some p ∧ task.phase.Found p := by
  induction h generalizing task with
  | idle server => cases htask
  | @move trace m m' d h hmove ih =>
      have hledger := h.free.ledger
      obtain ⟨former, hformer, hpool, hphase⟩ |
        ⟨former, p, hformer, hpool, hp, hcloses⟩ | ⟨hnot, -⟩ :=
        hmove.closes hledger.toOrderly htask
      · rw [hphase] at hclosing
        obtain ⟨p, hp, hfound⟩ := ih hformer hclosing
        rw [hpool, hphase]
        exact ⟨_, hmove.pool? hp, hfound.run h hmove hp⟩
      · have hsound := (hledger.placed _ p ((pool?_eq _ _).symm.trans hp)).sound
        rw [hpool]
        refine ⟨_, hmove.pool? hp, hcloses.found ?_ (hsound.deal_purge).sound.queue⟩
        cases hformerclosing : former.phase.isClosing with
        | true =>
            obtain ⟨q, hq, hfound⟩ := ih hformer hformerclosing
            cases hp.symm.trans hq
            exact hfound
        | false => cases hphase : former.phase <;> rw [hphase] at hformerclosing <;> trivial
      · cases hclosing.symm.trans hnot

/-! ## What a clear finds out after the drain -/

/-- A clear has seen that nothing is in the making. -/
def Phase.isClearing : Phase → Bool
  | .sweep | .clearDestructions => true
  | _ => false

theorem Phase.isClosing_of_isClearing (h : phase.isClearing = true) : phase.isClosing = true := by
  cases phase <;> first | rfl | cases h

/-- A pool is drained, and the tasks from the first on that clear it have found nothing in the
making. -/
structure Machine.Closing (i : Nat) (first : TaskId) (m : Machine) : Prop where
  pool : ∃ p, m.pool? i = some p ∧ p.Drained
  cleared : ∀ id task p, first ≤ id → m.tasks.get? id = some task → task.pool = i →
    task.phase.isClearing = true → m.pool? i = some p → p.creating = 0

theorem Machine.Closing.move {first : TaskId} (h : Closing i first m) (hrun : Run trace m)
    (hmove : Move m d m') : Closing i first m' := by
  obtain ⟨p, hp, hdrained⟩ := h.pool
  have hwanes := hmove.wanes hrun hp hdrained.toQuiet
  have hp' := hmove.pool? hp
  refine ⟨⟨_, hp', hwanes.drained hdrained⟩, ?_⟩
  intro id task' p' hid htask' hpool hclearing hafter
  cases hafter.symm.trans hp'
  obtain ⟨task, htask, hsame, hphase⟩ | ⟨task, q, htask, hsame, hq, hcloses⟩ | ⟨hnot, -⟩ :=
    hmove.closes hrun.free.ledger.toOrderly htask'
  · rw [hphase] at hclearing
    have hzero := h.cleared id task p hid htask (hsame.symm.trans hpool) hclearing hp
    exact Nat.le_zero.1 (hzero ▸ hwanes.creating)
  · rw [hsame] at hpool
    subst hpool
    cases hq.symm.trans hp
    have hbefore := h.cleared id task p hid htask rfl
    generalize task.phase = phase at hcloses hbefore
    generalize task'.phase = next at hcloses hclearing
    generalize d.run task.pool p = p' at hwanes hcloses
    cases hcloses with
    | clear hzero => exact hzero
    | sweep => exact Nat.le_zero.1 (hbefore rfl hp ▸ hwanes.creating)
    | _ => cases hclearing
  · exact absurd (hnot.symm.trans (Phase.isClosing_of_isClearing hclearing)) Bool.false_ne_true

theorem Machine.Closing.path {first : TaskId} {trace' : List Deed} (h : Closing i first m)
    (hrun : Run trace m) (hpath : Path m trace' m') : Closing i first m' := by
  induction hpath with
  | stay => exact h
  | move hpath hmove ih => exact ih.move (hrun.path hpath) hmove

end PooledSql
