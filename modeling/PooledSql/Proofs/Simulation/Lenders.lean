import PooledSql.Proofs.Simulation.Annals
import PooledSql.Proofs.Simulation.Attendance
import PooledSql.Proofs.Simulation.Ownership

/-!
# Lenders and strangers

A lease that is somewhere on the machine is on loan from the pool that it names and from no other,
though the pools give the same numbers. So the lender takes it back whenever it is asked to, and
what comes of a caller's work is never changed by the return of its lease; another pool refuses the
lease and is not touched by it, and the lease goes to its lender as if it had been let go.
-/

namespace PooledSql

open Machine

variable {m m' : Machine} {s' : Scene} {id : TaskId} {task task' : Task} {site : Site}
variable {phase : Phase} {d : Deed} {trace : List Deed} {i : Nat} {p : Pool Connection}
variable {l : Lease Connection} {o : Outcome} {past : List (Machine × Deed)}

/-! ## Live leases -/

/-- The lease that a task has in a phase. -/
def Phase.lease? : Phase → Option (Lease Connection)
  | .work l _ _ | .giveBack l _ | .discard l _ | .letGo l _ => some l
  | _ => none

/-- The lease is on its way to a caller or was not received yet, or a task has it, or it is kept
under a label. -/
def Machine.IsLive (m : Machine) (l : Lease Connection) : Prop :=
  (∃ i p, m.pool? i = some p ∧ (l ∈ p.delivering ∨ l ∈ p.unreceived)) ∨
    (∃ id task, m.tasks.get? id = some task ∧ task.phase.lease? = some l) ∨
    ∃ entry ∈ m.leases, entry.2 = l

theorem Phase.lease_mem_holdings {pool : Nat} (h : phase.lease? = some l) :
    (l.pool, ⟨.lease, l.mark⟩) ∈ phase.holdings pool := by
  cases phase <;> cases h <;> exact List.mem_singleton_self _

theorem Pool.lease_mem_holdings (h : l ∈ p.delivering ∨ l ∈ p.unreceived) :
    ⟨.lease, l.mark⟩ ∈ p.holdings := by
  refine List.mem_append_right _ (List.mem_append.2 (h.imp (fun h => ?_) fun h => ?_))
  · obtain ⟨action, haction, hl⟩ := List.mem_flatMap.1 h
    refine List.mem_flatMap.2 ⟨action, haction, ?_⟩
    cases action with
    | deliver call l' =>
        cases List.mem_singleton.1 hl
        exact List.mem_singleton_self _
    | _ => cases hl
  · exact List.mem_map.2 ⟨l, h, rfl⟩

namespace Machine

/-- A lease that is somewhere is with its lender or of the lender's resources outside. -/
theorem FreeRun.live_mem (h : FreeRun trace m) (hl : m.IsLive l) :
    ⟨.lease, l.mark⟩ ∈ m.holdings l.pool := by
  obtain ⟨i, p, hp, hmem⟩ | ⟨id, task, htask, hlease⟩ | ⟨entry, hentry, rfl⟩ := hl
  · have hlender := (h.ledger.placed i p ((pool?_eq _ _).symm.trans hp)).lender l hmem
    exact mem_holdings_of_pool (hlender ▸ hp) (Pool.lease_mem_holdings hmem)
  · exact mem_holdings_of_task htask (Phase.lease_mem_holdings hlease)
  · exact mem_holdings_of_held (List.mem_append_right _ (List.mem_map.2 ⟨entry, hentry, rfl⟩))

/-- A lease that is somewhere is borrowed according to its lender, and to no other pool. -/
theorem FreeRun.isBorrowed_iff (h : FreeRun trace m) (hl : m.IsLive l) (hp : m.pool? i = some p) :
    p.isBorrowed l = true ↔ i = l.pool := by
  have hid := (h.ledger.placed i p ((pool?_eq _ _).symm.trans hp)).id
  rw [Pool.isBorrowed, Bool.and_eq_true, beq_iff_eq, hid]
  refine ⟨fun hboth => hboth.1.symm, fun hi => ⟨hi.symm, ?_⟩⟩
  obtain ⟨q, hq, hmem⟩ := h.loan_of_lease (h.live_mem hl)
  cases hp.symm.trans (hi ▸ hq)
  exact Registry.get?_isSome_iff.2 hmem

end Machine

/-- A pool that has the loan takes the lease back. -/
theorem Pool.giveBack_ok (h : l.id ∈ p.loans.keys) (now : Instant) (sample : Duration) :
    ∃ x, (p.giveBack now sample l).1 = .ok x := by
  obtain ⟨loan, hloan⟩ := Option.isSome_iff_exists.1 (Registry.get?_isSome_iff.2 h)
  obtain heq | heq := giveBack_eq hloan now sample <;> rw [heq]
  · exact ⟨_, rfl⟩
  · exact ⟨_, rfl⟩

theorem Pool.discard_ok (h : l.id ∈ p.loans.keys) : ∃ x, (p.discard l).1 = .ok x := by
  obtain ⟨loan, hloan⟩ := Option.isSome_iff_exists.1 (Registry.get?_isSome_iff.2 h)
  simp only [discard, hloan]
  exact ⟨_, rfl⟩

/-! ## Outcomes -/

/-- What a caller's work with a lease comes to. -/
def Job.result (server : Server) (l : Lease Connection) : Job → Outcome
  | .keep _ => .done
  | .hold _ true => .broken
  | .hold _ false => .used l.resource.number
  | .run statement request =>
    match server.respond statement with
    | .ok rows => .replied (request.reply statement rows)
    | .error text => .failed (.connection text)

/-- After its work a lease is given back or discarded, and what the work came to is the outcome. -/
theorem afterWork_result (server : Server) (l : Lease Connection) (job : Job) :
    afterWork server l job = .giveBack l (job.result server l) ∨
      afterWork server l job = .discard l (job.result server l) := by
  cases job with
  | keep label => exact .inl rfl
  | hold duration fails =>
      cases fails with
      | false => exact .inl rfl
      | true => exact .inr rfl
  | run statement request =>
      rw [afterWork, Job.result]
      cases server.respond statement with
      | ok rows => exact .inl rfl
      | error text => exact .inr rfl

/-- A task of a pool in this phase can come to the outcome, and to no other one if the phase is
about a lease or what was done with it. -/
def Phase.Promises (server : Server) (pool : Nat) (o : Outcome) : Phase → Prop
  | .work l _ job => o = job.result server l
  | .giveBack l o' | .discard l o' => o = if l.pool = pool then o' else .refused .notInPool
  | .letGo _ o' | .hangUp o' | .destroy _ o' | .destruction _ _ _ o' | .finish o' => o = o'
  | _ => True

/-- Where a task works with a lease, its own pool has lent it. -/
theorem Turn.of_work {due : Instant} {job : Job} (h : Turn m id task site phase d s')
    (hlender : ∀ l ∈ site.pool.unreceived, l.pool = task.pool)
    (htask' : s'.tasks.get? id = some task') (hwork : task'.phase = .work l due job)
    (htask : m.tasks.get? id = some task) : task.phase = .work l due job ∨ l.pool = task.pool := by
  have hgone : ∀ {s : Scene} {next : Phase}, (s.go id next).tasks.get? id = some task' →
      next = .work l due job := fun hgo => (Scene.phase_go hgo).symm.trans hwork
  have hreceived : ∀ {lease}, (site.pool.receive id).1 = .message (.ok lease) →
      lease.pool = task.pool := by
    intro lease hlease
    have hcame : (site.pool.hangUp id).1 = some lease := by
      simp only [Pool.hangUp, hlease]
    exact hlender lease (hangUp_eq_some hcame)
  cases h with
  | wait | drainQueue =>
      cases htask.symm.trans htask'
      exact .inl hwork
  | finish => cases Registry.get?_erase_self.symm.trans htask'
  | keep _ _ hnext | hangUp hnext =>
      have hnext := hnext.symm.trans (hgone htask')
      split at hnext <;> cases hnext
  | @worked lease due job =>
      obtain hafter | hafter := afterWork_result m.server lease job <;>
        cases hafter.symm.trans (hgone htask')
  | hold hlooks hlease | send hlooks hlease =>
      cases hgone htask'
      exact .inr (hreceived hlease)
  | _ => cases hgone htask'

theorem Machine.FreeRun.lender_of_work {due : Instant} {job : Job} (h : FreeRun trace m)
    (htask : m.tasks.get? id = some task) (hwork : task.phase = .work l due job) :
    l.pool = task.pool := by
  induction h generalizing id task with
  | idle server => cases htask
  | @move trace m m' d h hmove ih =>
      obtain ⟨former, hformer, hpool, hphase⟩ | ⟨former, site, hformer, hsite, hpool, hturn⟩ |
        ⟨former, -, hunwind⟩ | ⟨-, -, hnew, -⟩ := hmove.origin h.ledger.toOrderly htask
      · rw [hpool]
        exact ih hformer (hphase.symm.trans hwork)
      · rw [hpool]
        refine (hturn.of_work ?_ htask hwork hformer).elim (ih hformer) fun h => h
        intro l hl
        have hp := pools_of_site hsite
        exact (h.ledger.placed _ _ hp).lender l (.inr hl)
      · have hunwind := hunwind.symm.trans hwork
        cases hphase : former.phase <;> rw [hphase] at hunwind <;> cases hunwind
      · rw [hwork] at hnew
        cases hnew
  | switch h runtime now ih => exact ih htask hwork

/-- In a turn a task keeps to what it promised, or promises less. -/
theorem Turn.promises (h : Turn m id task site phase d s') (hphase : task.phase = phase)
    (htask : m.tasks.get? id = some task) (htask' : s'.tasks.get? id = some task')
    (hid : site.pool.id = task.pool)
    (hready : ∀ x, d.change = some (task.pool, x) → x.Ready site.pool)
    (hlender : ∀ l due job, phase = .work l due job → l.pool = task.pool) :
    task'.phase = phase ∨ ∀ server o, task'.phase.Promises server task.pool o →
      phase.Promises m.server task.pool o := by
  have hgone : ∀ {s : Scene} {next : Phase}, (s.go id next).tasks.get? id = some task' →
      task'.phase = next := Scene.phase_go
  cases h with
  | wait | drainQueue =>
      cases htask.symm.trans htask'
      exact .inl hphase
  | finish => cases Registry.get?_erase_self.symm.trans htask'
  | keep hlooks | hold hlooks | send hlooks | unanswered hlooks =>
      cases hlooks <;> exact .inr fun _ _ _ => trivial
  | @worked lease due job =>
      have hpool := hlender lease due job rfl
      refine .inr fun server o ho => ?_
      rw [hgone htask'] at ho
      obtain hafter | hafter := afterWork_result m.server lease job <;> rw [hafter] at ho <;>
        exact ho.trans (if_pos hpool)
  | giveBackForeign hforeign | discardForeign hforeign =>
      refine .inr fun server o ho => ?_
      rw [hgone htask'] at ho
      exact ho.trans (if_neg (hid ▸ hforeign)).symm
  | giveBack hown | recycle hown | discard hown =>
      refine .inr fun server o ho => ?_
      rw [hgone htask'] at ho
      exact ho.trans (if_pos (hown.trans hid)).symm
  | giveBackRefused _ hrefused =>
      obtain ⟨x, hx⟩ := Pool.giveBack_ok (hready _ rfl) m.now m.sample
      cases (congrArg Prod.fst hrefused).symm.trans hx
  | discardRefused _ hrefused =>
      obtain ⟨x, hx⟩ := Pool.discard_ok (hready _ rfl)
      cases (congrArg Prod.fst hrefused).symm.trans hx
  | @hangUp outcome next hnext =>
      refine .inr fun server o ho => ?_
      rw [hgone htask', hnext] at ho
      split at ho <;> exact ho
  | letGo | destroy | destroyed =>
      refine .inr fun server o ho => ?_
      rw [hgone htask'] at ho
      exact ho
  | _ => exact .inr fun _ _ _ => trivial

namespace Machine

/-- A task that is there after a move and is not new was there before. -/
theorem Move.task_of_lt (hs : m.scene.Orderly) (h : Move m d m') (hlt : id < m.nextTask)
    (htask' : m'.tasks.get? id = some task') : ∃ task, m.tasks.get? id = some task := by
  obtain ⟨task, htask, -⟩ | ⟨task, site, htask, -⟩ | ⟨task, htask, -⟩ | ⟨rfl, -⟩ :=
    h.origin hs htask'
  · exact ⟨task, htask⟩
  · exact ⟨task, htask⟩
  · exact ⟨task, htask⟩
  · exact absurd hlt (lt_irrefl _)

theorem Move.nextTask_le (hs : m.scene.Orderly) (h : Move m d m') : m.nextTask ≤ m'.nextTask := by
  obtain ⟨other, former, site, -, -, hturn⟩ | hact := h.cases
  · exact hturn.nextTask.ge
  · exact hact.nextTask_le hs

/-- A task that still has its label keeps to what it promised. -/
theorem FreeRun.promises (h : FreeRun trace m) (hmove : Move m d m')
    (htask : m.tasks.get? id = some task) (htask' : m'.tasks.get? id = some task')
    (hlabel : task'.label.isSome = true) :
    task.label.isSome = true ∧ task'.pool = task.pool ∧
      (task'.phase = task.phase ∨ ∀ server o, task'.phase.Promises server task.pool o →
        task.phase.Promises m.server task.pool o) := by
  have hs := h.ledger.toOrderly
  obtain ⟨other, former, site, hformer, hsite, hturn⟩ | hact := hmove.cases
  · by_cases hid : id = other
    · subst hid
      cases htask.symm.trans hformer
      have hp := pools_of_site hsite
      have hpromises := hturn.promises rfl htask htask' (h.ledger.placed _ _ hp).id
        (fun x hchange => h.ledger.ready_of_move hmove _ x hchange _ hp)
        fun l due job hphase => h.lender_of_work htask hphase
      obtain ⟨next, rfl, -⟩ := hturn.self rfl htask htask'
      exact ⟨hlabel, rfl, hpromises⟩
    · cases htask'.symm.trans ((hturn.others hid).trans htask)
      exact ⟨hlabel, rfl, .inl rfl⟩
  · have hkept : task'.label = task.label := (hact.label hs htask htask').resolve_right
      fun hnone => by rw [hnone] at hlabel; cases hlabel
    obtain ⟨former, hformer, hpool, hphase⟩ | ⟨former, -, -, -, rfl⟩ | ⟨-, hnone, -⟩ :=
      hact.origin hs htask'
    · cases htask.symm.trans hformer
      exact ⟨hkept ▸ hlabel, hpool, .inl hphase⟩
    · cases hlabel
    · cases hnone.symm.trans htask

/-- A task has kept to what it promised as the former task: it is still in that phase, or what it
left the phase for promises no more. -/
def KeepsTo (id : TaskId) (former : Task) (past : List (Machine × Deed)) (task : Task) : Prop :=
  task.pool = former.pool ∧ (task.phase = former.phase ∨
    ∃ last ∈ past, (∃ t, last.1.tasks.get? id = some t ∧ t.phase = former.phase) ∧
      ∀ server o, task.phase.Promises server former.pool o →
        former.phase.Promises last.1.server former.pool o)

/-- As long as a task has its label it keeps to what it promised at any time. -/
theorem Annals.keepsTo {entry : Machine × Deed} {former : Task} (h : Annals past m)
    (hentry : entry ∈ past) (hformer : entry.1.tasks.get? id = some former)
    (htask : m.tasks.get? id = some task) (hlabel : task.label.isSome = true) :
    KeepsTo id former past task := by
  have hkeeps : id < m.nextTask ∧ ∀ task, m.tasks.get? id = some task →
      task.label.isSome = true → KeepsTo id former past task := by
    refine h.onwards (B := fun m _ => m.tasks.get? id = some former)
      (J := fun past m => id < m.nextTask ∧ ∀ task, m.tasks.get? id = some task →
        task.label.isSome = true → KeepsTo id former past task) ?_ ?_ (fun h => h)
      ⟨entry, hentry, hformer⟩
    · intro past m d m' h hmove hformer
      have hs := h.free.ledger.toOrderly
      have hlt := hs.fresh id (Registry.mem_keys_of_get? hformer)
      refine ⟨hlt.trans_le (hmove.nextTask_le hs), fun task' htask' hlabel => ?_⟩
      obtain ⟨-, hpool, hpromises⟩ := h.free.promises hmove hformer htask' hlabel
      refine ⟨hpool, hpromises.imp_right fun hpromises => ?_⟩
      exact ⟨(m, d), by simp, ⟨former, hformer, rfl⟩, hpromises⟩
    · rintro past m d m' h hmove ⟨hlt, hbefore⟩
      have hs := h.free.ledger.toOrderly
      refine ⟨hlt.trans_le (hmove.nextTask_le hs), fun task' htask' hlabel => ?_⟩
      obtain ⟨task, htask⟩ := hmove.task_of_lt hs hlt htask'
      obtain ⟨hlabel, hpool, hpromises⟩ := h.free.promises hmove htask htask' hlabel
      obtain ⟨hsame, hphase⟩ := hbefore task htask hlabel
      refine ⟨hpool.trans hsame, ?_⟩
      rw [hsame] at hpromises
      obtain hstays | ⟨last, hlast, hthere, hkept⟩ := hphase
      · refine hpromises.imp (fun heq => heq.trans hstays) fun hpromises => ?_
        exact ⟨(m, d), by simp, ⟨task, htask, hstays⟩, hstays ▸ hpromises⟩
      · refine .inr ⟨last, List.mem_append_left _ hlast, hthere, fun server o ho => ?_⟩
        obtain heq | hpromises := hpromises
        · exact hkept server o (heq ▸ ho)
        · exact hkept _ o (hpromises server o ho)
  exact hkeeps.2 task htask hlabel

/-! ## Returning a lease -/

theorem get?_proceed (htask : m.tasks.get? id = some task) (next : Phase) :
    (m.proceed id next).tasks.get? id = some { task with phase := next } := by
  rw [proceed, htask]
  exact Registry.get?_insert_self

theorem sites_proceed (m : Machine) (id : TaskId) (next : Phase) :
    (m.proceed id next).sites = m.sites := by
  rw [proceed]
  split <;> rfl

theorem tasks_reclaim (m : Machine) (l : Lease Connection) : (m.reclaim l).tasks = m.tasks := by
  rw [reclaim]
  split <;> rfl

/-- The task can come to its end with this outcome. -/
def CanFinish (m : Machine) (id : TaskId) (task : Task) (o : Outcome) : Prop :=
  ∃ t m', Path m t m' ∧ m'.tasks.get? id = some { task with phase := .finish o }

theorem CanFinish.now (htask : m.tasks.get? id = some { task with phase := .finish o }) :
    m.CanFinish id task o :=
  ⟨[], m, .stay m, htask⟩

theorem CanFinish.move (hmove : Move m d m') (h : m'.CanFinish id task o) :
    m.CanFinish id task o := by
  obtain ⟨t, m'', hpath, htask⟩ := h
  exact ⟨_, m'', (Path.move (.stay m) hmove).trans hpath, htask⟩

theorem CanFinish.part {next : Phase} (htask : m.tasks.get? id = some task)
    (hsite : m.sites[task.pool]? = some site)
    (h : (m.stepTask id task site).CanFinish id { task with phase := next } o) :
    m.CanFinish id task o :=
  CanFinish.move (.part htask hsite) h

/-- The machine at the time, or as it is if the time has come. -/
def passTo (m : Machine) (due : Instant) : Machine := { m with now := max m.now due }

theorem move_passTo (m : Machine) (due : Instant) : Move m {} (m.passTo due) :=
  .elapse ⟨rfl, rfl, rfl, rfl, rfl, rfl, rfl, le_max_left _ _, rfl⟩

/-- A task that lets go of a lease ends with that, and the lender takes the resource back. -/
theorem stepTask_letGo (hphase : task.phase = .letGo l o) (htask : m.tasks.get? id = some task) :
    (m.stepTask id task site).sites = (m.reclaim l).sites ∧
      (m.stepTask id task site).tasks.get? id = some { task with phase := .finish o } := by
  have hstep : m.stepTask id task site = (m.reclaim l).proceed id (.finish o) := by
    rw [stepTask, hphase]
    rfl
  have htask' : (m.reclaim l).tasks.get? id = some task :=
    (congrArg (·.get? id) (tasks_reclaim m l)).trans htask
  rw [hstep]
  exact ⟨sites_proceed _ _ _, get?_proceed htask' _⟩

/-- A pool does not take the lease of another pool; the task lets go of it. -/
theorem stepTask_foreign (hphase : task.phase = .giveBack l o ∨ task.phase = .discard l o)
    (hforeign : l.pool ≠ site.pool.id) : m.deed id task site = {} ∧
      m.stepTask id task site = m.proceed id (.letGo l (.refused .notInPool)) := by
  obtain hphase | hphase := hphase <;> rw [deed, stepTask, hphase] <;>
    exact ⟨if_neg hforeign, if_pos hforeign⟩

theorem FreeRun.canFinish_letGo (h : FreeRun trace m) (htask : m.tasks.get? id = some task)
    (hphase : task.phase = .letGo l o) : m.CanFinish id task o := by
  obtain ⟨site, hsite⟩ := h.site_of_task htask
  exact .move (.part htask hsite) (.now (stepTask_letGo hphase htask).2)

theorem FreeRun.canFinish_destruction {episode : Episode} {due : Instant} {limit : Option Instant}
    (h : FreeRun trace m) (htask : m.tasks.get? id = some task)
    (hphase : task.phase = .destruction episode due limit o) : m.CanFinish id task o := by
  obtain ⟨site, hsite⟩ := h.site_of_task htask
  have hdue : due ≤ (m.passTo due).now := le_max_right _ _
  refine .move (move_passTo m due) (.move (.part htask hsite) (.now ?_))
  rw [stepTask, hphase]
  simp only [stepFactory, if_pos hdue]
  refine get?_proceed ?_ _
  exact htask

theorem FreeRun.canFinish_destroy {x : Pooled Connection} (h : FreeRun trace m)
    (htask : m.tasks.get? id = some task) (hphase : task.phase = .destroy x o) :
    m.CanFinish id task o := by
  obtain ⟨site, hsite⟩ := h.site_of_task htask
  have hmove := Move.part htask hsite
  have hdeed : m.deed id task site = { events := [.destroyBegun task.pool x.mark] } := by
    rw [deed, hphase]
  have hturn : Turn m id task site _ _ _ := turn_part hsite
  rw [hphase, hdeed] at hturn
  generalize hs' : (m.stepTask id task site).scene = s' at hturn
  cases hturn with
  | destroy =>
      have htask' : (m.stepTask id task site).tasks.get? id = _ :=
        (congrArg (·.tasks.get? id) hs').trans (Scene.get?_go_self htask _)
      exact .part htask hsite ((h.move hmove).canFinish_destruction htask' rfl)

/-- A task that returns a lease comes to its end with the outcome that it has, if the lease is of
its own pool, and is refused if not. -/
theorem FreeRun.canFinish_return (h : FreeRun trace m) (htask : m.tasks.get? id = some task)
    (hphase : task.phase = .giveBack l o ∨ task.phase = .discard l o) :
    m.CanFinish id task (if l.pool = task.pool then o else .refused .notInPool) := by
  obtain ⟨site, hsite⟩ := h.site_of_task htask
  have hpool := pool?_of_site hsite
  have hid : site.pool.id = task.pool :=
    (h.ledger.placed _ _ ((pool?_eq _ _).symm.trans hpool)).id
  have hmove := Move.part htask hsite
  by_cases hown : l.pool = task.pool
  · rw [if_pos hown]
    -- there is a loan for a lease that a task hands in, so its lender does not refuse it
    have hlive : m.IsLive l := by
      refine .inr (.inl ⟨id, task, htask, ?_⟩)
      obtain hphase | hphase := hphase <;> rw [hphase] <;> rfl
    obtain ⟨q, hq, hloan⟩ := h.loan_of_lease (h.live_mem hlive)
    cases hpool.symm.trans (hown ▸ hq)
    have hturn : Turn m id task site _ _ _ := turn_part hsite
    have hfinish : ∀ {next}, (m.stepTask id task site).scene.tasks.get? id =
        some { task with phase := next } → next = .finish o ∨ (∃ x, next = .destroy x o) →
        m.CanFinish id task o := by
      rintro next htask' (rfl | ⟨x, rfl⟩)
      · exact .move hmove (.now htask')
      · exact .part htask hsite ((h.move hmove).canFinish_destroy htask' rfl)
    generalize (m.stepTask id task site).scene = s' at hturn hfinish
    obtain hphase | hphase := hphase
    · have hdeed : m.deed id task site =
          { change := some (task.pool, .giveBack m.now m.sample l) } := by
        rw [deed, hphase]
        exact if_pos (hown.trans hid.symm)
      rw [hphase, hdeed] at hturn
      cases hturn with
      | giveBack => exact hfinish (Scene.get?_go_self htask _) (.inl rfl)
      | recycle => exact hfinish (Scene.get?_go_self htask _) (.inr ⟨_, rfl⟩)
      | giveBackRefused _ hrefused =>
          obtain ⟨x, hx⟩ := Pool.giveBack_ok hloan m.now m.sample
          cases (congrArg Prod.fst hrefused).symm.trans hx
    · have hdeed : m.deed id task site = { change := some (task.pool, .discard l) } := by
        rw [deed, hphase]
        exact if_pos (hown.trans hid.symm)
      rw [hphase, hdeed] at hturn
      cases hturn with
      | discard => exact hfinish (Scene.get?_go_self htask _) (.inr ⟨_, rfl⟩)
      | discardRefused _ hrefused =>
          obtain ⟨x, hx⟩ := Pool.discard_ok hloan
          cases (congrArg Prod.fst hrefused).symm.trans hx
  · rw [if_neg hown]
    have hstep := (stepTask_foreign hphase (hid ▸ hown) : _ ∧ m.stepTask id task site = _).2
    refine .part htask hsite ((h.move hmove).canFinish_letGo (l := l) ?_ rfl)
    rw [hstep]
    exact get?_proceed htask _

/-- A task that has a lease can come to its end, with an outcome that it promises. -/
theorem FreeRun.canFinish_of_lease (h : FreeRun trace m) (htask : m.tasks.get? id = some task)
    (hlease : task.phase.lease? = some l) :
    ∃ o, task.phase.Promises m.server task.pool o ∧ m.CanFinish id task o := by
  cases hphase : task.phase with
  | giveBack l' o => exact ⟨_, rfl, h.canFinish_return htask (.inl hphase)⟩
  | discard l' o => exact ⟨_, rfl, h.canFinish_return htask (.inr hphase)⟩
  | letGo l' o => exact ⟨_, rfl, h.canFinish_letGo htask hphase⟩
  | work l' due job =>
      refine ⟨_, rfl, .move (move_passTo m due) ?_⟩
      have h' := h.move (move_passTo m due)
      obtain ⟨site, hsite⟩ := h'.site_of_task htask
      have hdue : due ≤ (m.passTo due).now := le_max_right _ _
      have hmove := h'.move (.part htask hsite)
      have hstep : (m.passTo due).stepTask id task site =
          (m.passTo due).proceed id (afterWork m.server l' job) := by
        rw [stepTask, hphase]
        simp only [stepCaller, if_pos hdue]
        rfl
      have htask' := get?_proceed (m := m.passTo due) htask (afterWork m.server l' job)
      rw [← hstep] at htask'
      have hreturn := hmove.canFinish_return htask' (afterWork_result m.server l' job)
      rw [if_pos (h.lender_of_work htask hphase)] at hreturn
      exact .part htask hsite hreturn
  | _ =>
      rw [hphase] at hlease
      cases hlease

/-- What becomes of a lease that is handed in to a pool that has not lent it, and of one that is
let go. -/
structure SendsHome (m : Machine) : Prop where
  /-- The lease is refused, and no pool is touched. -/
  refused : ∀ id task site l o, m.tasks.get? id = some task → m.sites[task.pool]? = some site →
    (task.phase = .giveBack l o ∨ task.phase = .discard l o) → l.pool ≠ task.pool →
    (m.stepTask id task site).sites = m.sites ∧ (m.stepTask id task site).tasks.get? id =
      some { task with phase := .letGo l (.refused .notInPool) }
  /-- Then it goes to its lender. -/
  letGo : ∀ id task site l o, m.tasks.get? id = some task → task.phase = .letGo l o →
    (m.stepTask id task site).sites = (m.reclaim l).sites ∧
      (m.stepTask id task site).tasks.get? id = some { task with phase := .finish o }
  /-- The same happens where a lease that was kept is dropped. -/
  dropped : ∀ label l rest, m.takeLease label = some (l, rest) →
    (rest.reclaim l).sites = (m.reclaim l).sites
  others : ∀ l i, i ≠ l.pool → (m.reclaim l).pool? i = m.pool? i

theorem FreeRun.sendsHome (h : FreeRun trace m) : m.SendsHome where
  refused id task site l o htask hsite hphase hforeign := by
    have hp := pools_of_site hsite
    have hid := (h.ledger.placed _ _ hp).id
    have hstep := (stepTask_foreign hphase (hid ▸ hforeign) : _ ∧ m.stepTask id task site = _).2
    rw [hstep]
    exact ⟨sites_proceed _ _ _, get?_proceed htask _⟩
  letGo id task site l o htask hphase := stepTask_letGo hphase htask
  dropped label l rest htake := by
    obtain ⟨-, rfl⟩ := takeLease_eq_some htake
    simp only [reclaim]
    split <;> rfl
  others l i hne := by
    rw [pool?_eq, scene_reclaim, pool?_eq m i]
    split
    · exact List.getElem?_set_ne (Ne.symm hne)
    · rfl

end Machine

/-- A lease that is somewhere is borrowed according to the pool that lent it and to no other, and
this pool takes it back. A task that has a lease can always come to its end, with the outcome that
its phase promises; and if it comes to its end without having been given up, then with no other
outcome. So a caller's work ends with what it came to, and only another pool than the lender
refuses a lease. That pool is not touched then, and the lender takes the lease as it takes one
that is dropped. -/
theorem lenders_and_strangers (h : Annals past m) :
    (∀ l, m.IsLive l → ∃ q, m.pool? l.pool = some q ∧
      (∀ i p, m.pool? i = some p → (p.isBorrowed l = true ↔ i = l.pool)) ∧
      (∀ now sample, ∃ x, (q.giveBack now sample l).1 = .ok x) ∧
      ∃ x, (q.discard l).1 = .ok x) ∧
    (∀ id task l, m.tasks.get? id = some task → task.phase.lease? = some l →
      ∃ o, task.phase.Promises m.server task.pool o ∧ m.CanFinish id task o) ∧
    (∀ entry ∈ past, ∀ id former task o, entry.1.tasks.get? id = some former →
      m.tasks.get? id = some task → task.label.isSome = true → task.phase = .finish o →
      ∃ last ∈ past, (∃ t, last.1.tasks.get? id = some t ∧ t.phase = former.phase) ∧
        former.phase.Promises last.1.server former.pool o) ∧
    m.SendsHome := by
  refine ⟨fun l hl => ?_, fun id task l => h.free.canFinish_of_lease,
    fun entry hentry id former task o hformer htask hlabel hphase => ?_, h.free.sendsHome⟩
  · obtain ⟨q, hq, hloan⟩ := h.free.loan_of_lease (h.free.live_mem hl)
    exact ⟨q, hq, fun i p => h.free.isBorrowed_iff hl, Pool.giveBack_ok hloan,
      Pool.discard_ok hloan⟩
  · obtain ⟨-, hsame | ⟨last, hlast, hthere, hpromises⟩⟩ :=
      h.keepsTo hentry hformer htask hlabel
    · refine ⟨entry, hentry, ⟨former, hformer, rfl⟩, ?_⟩
      rw [← hsame, hphase]
      exact rfl
    · refine ⟨last, hlast, hthere, hpromises m.server o ?_⟩
      rw [hphase]
      exact rfl

/-- Two pools have lent resources of the same number, and one of the leases is handed in to the
pool that lent the other. -/
def handedInWrong : List Choice :=
  [.build { max := 1 } {}, .build { max := 1 } {},
    .begin (.acquire 0 "a" 0), .part 0, .perform 0, .part 1, .part 1, .perform 0, .part 0,
    .begin (.acquire 1 "b" 0), .part 2, .perform 1, .part 3, .part 3, .perform 1, .part 2,
    .begin (.release 1 "a")]

/-- The lease that is handed in. -/
def strayLease : Lease Connection := ⟨0, 1, ⟨1, true⟩, 0⟩

/-- The task that hands it in. -/
def strayTask : Task := ⟨1, some ("release " ++ "a"), .giveBack strayLease .done, false⟩

theorem lenders_and_strangers_handedInWrong : ∃ past p q,
    Annals past (scheduled handedInWrong).2 ∧
    (scheduled handedInWrong).2.tasks.get? 4 = some strayTask ∧
    ((scheduled handedInWrong).2.leases.lookup "b").map (·.id) = some strayLease.id ∧
    (scheduled handedInWrong).2.pool? 0 = some p ∧ p.isBorrowed strayLease = true ∧
    (scheduled handedInWrong).2.pool? 1 = some q ∧ ¬ q.isBorrowed strayLease = true ∧
    (scheduled handedInWrong).2.CanFinish 4 strayTask (.refused .notInPool) := by
  have hannals : Annals (({ server := .echo 0 } : Machine).recount handedInWrong)
      (scheduled handedInWrong).2 := (Annals.idle (.echo 0)).follow handedInWrong
  have htask : (scheduled handedInWrong).2.tasks.get? 4 = some strayTask := rfl
  have hother : ((scheduled handedInWrong).2.leases.lookup "b").map (·.id) = some 1 := rfl
  have hq : ∃ q, (scheduled handedInWrong).2.pool? 1 = some q := ⟨_, rfl⟩
  have hlender := (lenders_and_strangers hannals).1 strayLease (.inr (.inl ⟨4, _, htask, rfl⟩))
  have hreturn := (lenders_and_strangers hannals).2.1 4 strayTask strayLease htask rfl
  generalize (scheduled handedInWrong).2 = m at *
  obtain ⟨p, hp, hborrowed, -⟩ := hlender
  obtain ⟨q, hq⟩ := hq
  obtain ⟨o, rfl, hfinish⟩ := hreturn
  exact ⟨_, p, q, hannals, htask, hother, hp, (hborrowed 0 p hp).2 rfl, hq,
    fun h => absurd ((hborrowed 1 q hq).1 h) (by decide), hfinish⟩

end PooledSql
