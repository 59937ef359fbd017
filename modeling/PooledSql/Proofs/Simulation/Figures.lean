import PooledSql.Proofs.Pool.Metrics
import PooledSql.Proofs.Simulation.Annals
import PooledSql.Proofs.Simulation.Capacity
import PooledSql.Proofs.Simulation.Finality

/-!
# Figures

The metrics of a pool fit to what has happened. Resources that were made are in the pool, are being
destroyed, or were counted when that ended; calls that make connections are counted when they end;
and leases that were handed out are counted until they come back.
-/

namespace PooledSql

open Machine

variable {m m' : Machine} {s s' : Scene} {id : TaskId} {task task' : Task} {site : Site}
variable {phase next : Phase} {d : Deed} {trace : List Deed} {i : Nat} {p : Pool Connection}
variable {past : List (Machine × Deed)}

/-! ## Calls under way -/

/-- A call that makes a connection has begun. -/
def Phase.isMaking : Phase → Bool
  | .creation _ _ => true
  | _ => false

/-- The call that the task is waiting for, if it makes a connection of the pool. -/
def Task.making (i : Nat) (task : Task) : List Unit :=
  if task.pool = i ∧ task.phase.isMaking = true then [()] else []

/-- The calls that make connections of the pool and have begun. -/
def Scene.making (s : Scene) (i : Nat) : Nat := (s.tasks.gather (Task.making i)).length

/-- The calls that make connections of the pool and end with the deed. -/
def Deed.ended (d : Deed) (i : Nat) : Nat :=
  (d.section? i).elim 0 fun x => x.made + x.failsCreation.toNat

theorem Deed.ended_of_change {x : Section Connection} (h : d.change = some (i, x)) :
    d.ended i = x.made + x.failsCreation.toNat := by
  rw [ended, section?_eq_some_iff.2 h, Option.elim_some]

theorem Deed.ended_eq_zero
    (h : ∀ x, d.change = some (i, x) → x.made + x.failsCreation.toNat = 0) : d.ended i = 0 := by
  rw [ended]
  cases hx : d.section? i with
  | none => rfl
  | some x => exact h x (section?_eq_some_iff.1 hx)

theorem Task.making_eq_nil (h : task.phase.isMaking = false) : task.making i = [] := by
  rw [making, h]
  exact if_neg fun hboth => Bool.false_ne_true hboth.2

theorem Phase.Looks.isMaking {job : Job} (h : phase.Looks job) : phase.isMaking = false := by
  cases h <;> rfl

theorem isMaking_afterWork (server : Server) (lease : Lease Connection) (job : Job) :
    (afterWork server lease job).isMaking = false := by
  obtain ⟨outcome, h | h⟩ := afterWork_cases server lease job <;> rw [h] <;> rfl

theorem Scene.making_go (h : next.isMaking = false) :
    ((s.go id next).tasks.get? id).elim [] (Task.making i) = [] := by
  rw [get?_go, if_pos rfl]
  cases s.tasks.get? id with
  | none => rfl
  | some task => exact Task.making_eq_nil h

/-- The call of a task begins, is waited for or ends. -/
theorem Turn.making_self (h : Turn m id task site phase d s') (hphase : task.phase = phase)
    (htask : m.tasks.get? id = some task) (i : Nat) :
    (d.events.filterMap (Event.begun? i)).count .create + (task.making i).length =
      ((s'.tasks.get? id).elim [] (Task.making i)).length + d.ended i := by
  -- where no call begins or ends and the task waits for none
  have hother : ∀ {s : Scene} {next : Phase}, phase.isMaking = false → next.isMaking = false →
      (∀ x, d.change = some (i, x) → x.made + x.failsCreation.toNat = 0) →
      (d.events.filterMap (Event.begun? i)).count .create = 0 →
      (d.events.filterMap (Event.begun? i)).count .create + (task.making i).length =
        (((s.go id next).tasks.get? id).elim [] (Task.making i)).length + d.ended i := by
    intro s next hmaking hnext hchange hevents
    rw [hevents, Scene.making_go hnext, Deed.ended_eq_zero hchange,
      Task.making_eq_nil (hphase ▸ hmaking)]
    rfl
  have hstays : ∀ {s : Scene}, s.tasks.get? id = some task →
      (s.tasks.get? id).elim [] (Task.making i) = task.making i := by
    intro s hs
    rw [hs]
    rfl
  cases h with
  | wait => rw [hstays htask]; exact Nat.zero_add _
  | drainQueue =>
      rw [hstays htask, Deed.ended_eq_zero fun x hx => by cases hx; rfl]
      exact Nat.zero_add _
  | finish =>
      rw [Task.making_eq_nil (by rw [hphase]; rfl), Scene.remove, Registry.get?_erase_self]
      rfl
  | @create episode due =>
      rw [Scene.get?_go, if_pos rfl, show m.scene.tasks = m.tasks from rfl, htask,
        Task.making_eq_nil (by rw [hphase]; rfl)]
      by_cases hpool : task.pool = i <;>
        simp [Event.begun?, Task.making, Phase.isMaking, hpool, Deed.ended, Deed.section?]
  | @created episode due made hmade =>
      rw [Scene.making_go rfl]
      by_cases hpool : task.pool = i
      · subst hpool
        rw [Deed.ended_of_change rfl, Task.making, hphase, if_pos ⟨rfl, rfl⟩]
        cases made <;> rfl
      · rw [Task.making, if_neg fun hboth => hpool hboth.1,
          Deed.ended_eq_zero fun x hx => absurd (by cases hx; rfl) hpool]
        cases made <;> rfl
  | validate =>
      refine hother rfl rfl (fun x hx => by cases hx) ?_
      by_cases hpool : task.pool = i <;> simp [Event.begun?, hpool]
  | keep hlooks h hnext =>
      refine hother hlooks.isMaking ?_ (fun x hx => by cases hx; rfl) rfl
      rw [hnext]
      split <;> rfl
  | hangUp hnext =>
      refine hother rfl ?_ (fun x hx => by cases hx; rfl) rfl
      rw [hnext]
      split <;> rfl
  | hold hlooks | send hlooks | unanswered hlooks =>
      exact hother hlooks.isMaking rfl (fun x hx => by cases hx; rfl) rfl
  | worked => exact hother rfl (isMaking_afterWork _ _ _) (fun x hx => by cases hx) rfl
  | _ => exact hother rfl rfl (fun x hx => by cases hx <;> rfl) rfl

/-- In a turn calls begin, are waited for or end. -/
theorem Turn.making (hs : m.scene.Orderly) (h : Turn m id task site phase d s')
    (hphase : task.phase = phase) (htask : m.tasks.get? id = some task)
    (hsite : m.sites[task.pool]? = some site) (i : Nat) :
    (d.events.filterMap (Event.begun? i)).count .create + m.scene.making i =
      s'.making i + d.ended i := by
  have hself := h.making_self hphase htask i
  have hothers := Registry.countP_gather_of_others hs.tasks
    (h.orderly hs hphase htask hsite).tasks id (f := Task.making i)
    (fun k hne => congrArg (·.elim [] (Task.making i)) (h.others hne)) (fun _ => true)
  rw [show m.scene.tasks = m.tasks from rfl, htask] at hothers
  simp only [List.countP_true, Option.elim_some] at hothers
  rw [Scene.making, Scene.making, show m.scene.tasks = m.tasks from rfl]
  omega

/-- An act begins no call and ends none. -/
theorem Act.making (hs : m.scene.Orderly) (h : Act m d s') (i : Nat) :
    (d.events.filterMap (Event.begun? i)).count .create = 0 ∧ s'.making i = m.scene.making i ∧
      d.ended i = 0 := by
  refine ⟨?_, ?_, Deed.ended_eq_zero fun x hx => ?_⟩
  · rw [(h.errands hs i .create).1]
    rfl
  · have hperm := Registry.perm_gather hs.tasks (h.orderly hs).tasks (f := Task.making i)
      fun k => by
        cases hk' : s'.tasks.get? k with
        | some task' =>
            obtain ⟨task, htask, hpool, hphase⟩ | ⟨task, htask, hstop, -, rfl⟩ |
              ⟨-, hnone, hnew, -⟩ := h.origin hs hk'
            · rw [show m.scene.tasks = m.tasks from rfl, htask, Option.elim_some,
                Option.elim_some, Task.making, Task.making, hpool, hphase]
            · -- a task that is given up was called, so it is none that makes connections
              rw [Task.mayStop, Bool.and_eq_true] at hstop
              have hcalled := hs.called k task htask hstop.1
              rw [show m.scene.tasks = m.tasks from rfl, htask, Option.elim_some,
                Option.elim_some, Task.making_eq_nil, Task.making_eq_nil]
              · cases hphase : task.phase <;> rw [hphase] at hcalled <;>
                  first | rfl | exact absurd hcalled Bool.false_ne_true
              · cases hphase : task.phase <;> rfl
            · rw [show m.scene.tasks = m.tasks from rfl, hnone, Option.elim_some,
                Task.making_eq_nil]
              · rfl
              · cases hphase : task'.phase <;> rw [hphase] at hnew <;>
                  first | rfl | exact absurd hnew Bool.false_ne_true
        | none =>
            cases hk : m.scene.tasks.get? k with
            | none => rfl
            | some task =>
                refine (Task.making_eq_nil ?_).symm
                by_contra hmaking
                rw [Bool.not_eq_false] at hmaking
                obtain ⟨task', htask', -⟩ := h.keeps hs hk
                cases hk'.symm.trans htask'
    exact hperm.length_eq
  · have hact := h.isAct hx
    cases x <;> first | rfl | exact absurd hact Bool.false_ne_true

theorem Machine.Move.making (hs : m.scene.Orderly) (h : Move m d m') (i : Nat) :
    (d.events.filterMap (Event.begun? i)).count .create + m.scene.making i =
      m'.scene.making i + d.ended i := by
  obtain ⟨id, task, site, htask, hsite, hturn⟩ | hact := h.cases
  · exact hturn.making hs rfl htask hsite i
  · obtain ⟨hnone, hsame, hended⟩ := hact.making hs i
    rw [hnone, hsame, hended, Nat.zero_add, Nat.add_zero]

/-- No call ends for a pool that there is not. -/
theorem Turn.ended_eq_zero (h : Turn m id task site phase d s') (hne : task.pool ≠ i) :
    d.ended i = 0 := by
  refine Deed.ended_eq_zero fun x hx => ?_
  cases h <;> cases hx <;> first | rfl | exact absurd rfl hne

theorem Machine.Move.ended_eq_zero (hs : m.scene.Orderly) (h : Move m d m')
    (hp : m.pool? i = none) : d.ended i = 0 := by
  obtain ⟨id, task, site, -, hsite, hturn⟩ | hact := h.cases
  · refine hturn.ended_eq_zero fun hpool => ?_
    cases (hpool ▸ hp).symm.trans (pool?_of_site hsite)
  · exact (hact.making hs i).2.2

theorem Scene.Attends.making_eq_zero (h : m.scene.Attends) (hs : m.scene.Orderly)
    (hp : m.pool? i = none) : m.scene.making i = 0 := by
  rw [Scene.making, List.length_eq_zero_iff, List.eq_nil_iff_forall_not_mem]
  intro call hmem
  obtain ⟨⟨id, task⟩, hentry, hcall⟩ := List.mem_flatMap.1 hmem
  obtain ⟨p, hp', -⟩ := h.stands id task (Registry.get?_of_mem_entries hs.tasks hentry)
  dsimp only [Task.making] at hcall
  split at hcall
  · rename_i hboth
    rw [hboth.1, ← pool?_eq, hp] at hp'
    cases hp'
  · cases hcall

/-! ## Runs -/

namespace Machine

/-- Calls that have begun are under way or were counted when they ended. -/
theorem FreeRun.count_begun (h : FreeRun trace m) (i : Nat) :
    (begun trace i).count .create = m.scene.making i +
      (m.pool? i).elim 0 fun p => p.metrics.created + p.metrics.createFailures := by
  induction h with
  | idle server => rfl
  | @move trace m m' d h hmove ih =>
      have hs := h.ledger.toOrderly
      have hmaking := hmove.making hs i
      rw [begun_append, List.count_append]
      cases hp : m.pool? i with
      | none =>
          have hended := hmove.ended_eq_zero hs hp
          have hnone := h.attends.making_eq_zero hs hp
          have hnew : (m'.pool? i).elim 0
              (fun p => p.metrics.created + p.metrics.createFailures) = 0 := by
            cases hp' : m'.pool? i with
            | none => rfl
            | some p' =>
                obtain ⟨-, config, policy, recycling, rfl⟩ := hmove.of_pool?_none hp hp'
                rfl
          rw [hp, Option.elim_none] at ih
          omega
      | some p =>
          rw [hp, Option.elim_some] at ih
          rw [hmove.pool? hp, Option.elim_some]
          obtain ⟨hnone, heq⟩ | ⟨x, hchange, heq⟩ := d.run_cases i p <;> rw [heq]
          · have hended : d.ended i = 0 := Deed.ended_eq_zero fun x hx => absurd hx (hnone x)
            omega
          · obtain ⟨hsound, hready⟩ := h.section_of_move hmove hp hchange
            obtain ⟨hcreated, hfailures, -, -⟩ := Section.accrues hsound hready
            rw [Deed.ended_of_change hchange] at hmaking
            omega
  | switch h runtime now ih => exact ih

/-- The calls that make connections are queued or have begun. -/
theorem creations_eq (hp : m.pool? i = some p) :
    m.creations i = (m.errands i).count .create + m.scene.making i := by
  have hqueued : p.outbox.countP (Action.sendsFor .create) = p.outbox.countP (·.isCreation) := by
    apply List.countP_congr
    intro action _
    cases action <;> exact Iff.rfl
  have hsent : (m.scene.errands i).count .create = m.tasks.entries.countP fun entry =>
      entry.2.pool == i && entry.2.phase.errand? == some .create := by
    refine countP_flatMap_eq fun entry _ => ?_
    rw [Task.errands]
    by_cases hpool : entry.2.pool = i
    · rw [if_pos hpool, hpool, beq_self_eq_true, Bool.true_and]
      cases entry.2.phase.errand? with
      | none => rfl
      | some errand => cases errand <;> rfl
    · rw [if_neg hpool, beq_false_of_ne hpool]
      rfl
  have hmaking : m.scene.making i = m.tasks.entries.countP fun entry =>
      entry.2.pool == i && entry.2.phase.isMaking := by
    rw [Scene.making, ← List.countP_true]
    refine countP_flatMap_eq fun entry _ => ?_
    rw [Task.making]
    by_cases hpool : entry.2.pool = i
    · cases entry.2.phase.isMaking <;> simp [hpool]
    · rw [if_neg fun hboth => hpool hboth.1, beq_false_of_ne hpool]
      rfl
  have hboth : (m.tasks.entries.countP fun entry =>
      entry.2.pool == i && entry.2.phase.isCreation) = _ :=
    countP_eq_add_of_disjoint
      (b := fun entry => entry.2.pool == i && entry.2.phase.errand? == some .create)
      (c := fun entry => entry.2.pool == i && entry.2.phase.isMaking) fun entry => by
        cases entry.2.pool == i <;> cases entry.2.phase <;> rfl
  rw [creations, count_errands hp, hp, Option.map_some, Option.getD_some]
  omega

/-- A lease of the pool comes back in the move. -/
def returns (m : Machine) (i : Nat) (d : Deed) : Bool :=
  ((m.pool? i).bind fun p => (d.section? i).map (·.returns p)).getD false

end Machine

/-- How many leases of the pool have come back. -/
def returned (past : List (Machine × Deed)) (i : Nat) : Nat :=
  past.countP fun entry => entry.1.returns i entry.2

namespace Machine

/-- Leases that were handed out are on loan or have come back. -/
theorem Annals.acquisitions (h : Annals past m) (i : Nat) :
    ((m.pool? i).elim 0 fun p => p.metrics.acquisitions) =
      ((m.pool? i).elim 0 fun p => p.loans.size) + returned past i := by
  induction h with
  | idle server => rfl
  | @move past m m' d h hmove ih =>
      rw [returned, List.countP_append, List.countP_singleton, ← returned]
      dsimp only
      rw [returns]
      cases hp : m.pool? i with
      | none =>
          rw [hp, Option.elim_none, Option.elim_none] at ih
          rw [Option.bind_none, Option.getD_none, if_neg Bool.false_ne_true, ← Nat.add_assoc]
          cases hp' : m'.pool? i with
          | none => exact ih
          | some p' =>
              obtain ⟨-, config, policy, recycling, rfl⟩ := hmove.of_pool?_none hp hp'
              exact ih
      | some p =>
          rw [hp, Option.elim_some, Option.elim_some] at ih
          rw [hmove.pool? hp, Option.elim_some, Option.elim_some, Option.bind_some]
          obtain ⟨hnone, heq⟩ | ⟨x, hchange, heq⟩ := d.run_cases i p <;> rw [heq]
          · rw [Deed.section?_eq_none_iff.2 hnone]
            exact ih
          · obtain ⟨hsound, hready⟩ := h.free.section_of_move hmove hp hchange
            obtain ⟨-, -, -, hloans⟩ := Section.accrues hsound hready
            rw [Deed.section?_eq_some_iff.2 hchange, Option.map_some, Option.getD_some]
            cases hreturns : x.returns p <;> rw [hreturns] at hloans <;>
              simp only [Bool.toNat_true, Bool.toNat_false, if_true, Bool.false_eq_true,
                if_false] at * <;> omega
  | switch h runtime now ih => exact ih

/-- Resources that were made are counted wherever they are. -/
theorem Run.created_eq (h : Run trace m) (hp : m.pool? i = some p) :
    p.metrics.created = p.everCounted := by
  refine Run.pool_induction (I := fun _ p => p.metrics.created = p.everCounted) ?_ ?_ ?_ h hp
  · intro _ config policy recycling
    rfl
  · intro _ _ _ _ heq
    exact heq
  · intro _ _ x q _ hsound hready hstarts heq
    obtain ⟨hcreated, -, hresources, -⟩ := Section.accrues hsound hready
    have hlost : x.lost = 0 := by cases x <;> first | rfl | cases hstarts
    omega

end Machine

/-- Inside a runtime the metrics of a pool are conserved. Every resource that was made is in the
pool, or its destruction is under way, or has ended well or not. Every call that makes a connection,
queued or begun, is in the making, or it was counted when it ended. And every lease that was handed
out is on loan or has come back: it was released, destroyed or let go, or its caller had gone when
it was to be delivered. -/
theorem metrics_conserved (h : Run trace m) (hp : m.pool? i = some p) :
    p.metrics.created = p.allObjects + p.destroying + p.metrics.destroyed +
        p.metrics.destroyFailures ∧
      (begun trace i).count .create + (m.errands i).count .create =
        p.creating + p.metrics.created + p.metrics.createFailures ∧
      (∃ past, Annals past m ∧ past.map (·.2) = trace) ∧
      ∀ past, Annals past m → p.metrics.acquisitions = p.loans.size + returned past i := by
  refine ⟨h.created_eq hp, ?_, h.free.annals, fun past hpast => ?_⟩
  · have hbegun := h.free.count_begun i
    have hcreating := h.free.ledger.creating_eq_creations hp
    have hcreations := creations_eq hp
    rw [hp, Option.elim_some] at hbegun
    omega
  · have hloans := hpast.acquisitions i
    rwa [hp, Option.elim_some, Option.elim_some] at hloans

/-- Three leases were handed out and have come back: one was destroyed, one released, and the caller
of the third had gone. The connection that was left is lent again, and one more was to be made for
the next caller; that failed and is tried again. -/
def tallied : List Choice :=
  [.build {} { creation := { told := [{}, {}, { fails := true }] } },
    .begin (.acquire 0 "a" 0), .part 0, .perform 0, .part 1, .part 1, .perform 0, .part 0,
    .begin (.acquire 0 "b" 0), .part 2, .perform 0, .part 3, .part 3, .perform 0, .part 2,
    .begin (.destroy 0 "b"), .part 4, .part 4, .part 4, .begin (.release 0 "a"), .part 5,
    .begin (.acquire 0 "c" 0), .part 6, .stop 6, .part 6, .part 6, .perform 0,
    .begin (.acquire 0 "d" 0), .part 7, .perform 0,
    .begin (.acquire 0 "e" 0), .part 8, .perform 0, .part 9, .part 9]

theorem metrics_conserved_tallied : ∃ p past, (scheduled tallied).2.pool? 0 = some p ∧
    Annals past (scheduled tallied).2 ∧
    p.metrics.created = p.allObjects + p.destroying + p.metrics.destroyed +
      p.metrics.destroyFailures ∧
    (begun (scheduled tallied).1 0).count .create +
      ((scheduled tallied).2.errands 0).count .create =
        p.creating + p.metrics.created + p.metrics.createFailures ∧
    p.metrics.acquisitions = p.loans.size + returned past 0 ∧
    p.metrics.created = 2 ∧ p.metrics.destroyed = 1 ∧ p.metrics.createFailures = 1 ∧
    p.creating = 1 ∧ p.loans.size = 1 ∧ returned past 0 = 3 := by
  have hannals := (Annals.idle (.echo 0)).follow tallied
  obtain ⟨hcreated, hbegun, -, hreturned⟩ :=
    metrics_conserved (i := 0) (run_scheduled tallied) rfl
  exact ⟨_, _, rfl, hannals, hcreated, hbegun, hreturned _ hannals, rfl, rfl, rfl, rfl, rfl, rfl⟩

end PooledSql
