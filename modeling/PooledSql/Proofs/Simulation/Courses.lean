import PooledSql.Proofs.Simulation.Annals
import PooledSql.Proofs.Simulation.Lenders

/-!
# Courses of events

What follows the end of a statement follows at once: its caller cannot go away before the lease was
handed back or the connection was taken out of the pool. Moves that keep to this, with the runtime
coming and going between them, make a `Course`, which may set out from any machine. A move is told
from the point of view of one task: the task had its turn, was left alone, or was given up.
-/

namespace PooledSql

open Machine

variable {m m' m'' : Machine} {s' : Scene} {id : TaskId} {task task' : Task} {site : Site}
variable {phase : Phase} {d : Deed} {before past : List (Machine × Deed)}

/-- The task knows what came of its statement and has still to hand back the lease. -/
def Phase.reports : Phase → Bool
  | .giveBack _ (.replied _) | .discard _ (.failed _) => true
  | _ => false

namespace Machine

/-- No caller has gone away between the end of its statement and what follows it. -/
def Unbroken (m m' : Machine) : Prop :=
  ∀ id task task', m.tasks.get? id = some task → task.phase.reports = true →
    m'.tasks.get? id = some task' → task'.label = task.label

/-- Moves one after the other, with the machines before them. What follows the end of a statement
is not broken off. -/
inductive Course : Machine → List (Machine × Deed) → Machine → Prop where
  | stay (m : Machine) : Course m [] m
  | move {m m' m'' : Machine} {past : List (Machine × Deed)} {d : Deed} (h : Course m past m')
      (hmove : Move m' d m'') (hunbroken : m'.Unbroken m'') : Course m (past ++ [(m', d)]) m''
  | switch {m m' : Machine} {past : List (Machine × Deed)} (h : Course m past m')
      (runtime : Bool) (now : Instant) : Course m past { m' with runtime, now }

theorem Course.annals (h : Course m past m') (hbefore : Annals before m) :
    Annals (before ++ past) m' := by
  induction h with
  | stay => rwa [List.append_nil]
  | move _ hmove _ ih =>
      rw [← List.append_assoc]
      exact .move ih hmove
  | switch _ runtime now ih => exact .switch ih runtime now

/-- What holds at first and is kept by every move holds throughout a course. -/
theorem Course.invariant {J : List (Machine × Deed) → Machine → Prop} (h : Course m past m')
    (hbefore : Annals before m) (hstart : J [] m)
    (hmove : ∀ {past m d m'}, Annals (before ++ past) m → Move m d m' → m.Unbroken m' →
      J past m → J (past ++ [(m, d)]) m')
    (hswitch : ∀ {past} {m : Machine} {runtime now}, J past m → J past { m with runtime, now }) :
    J past m' := by
  induction h with
  | stay => exact hstart
  | move h hstep hunbroken ih => exact hmove (h.annals hbefore) hstep hunbroken ih
  | switch _ runtime now ih => exact hswitch ih

/-- Whether no caller has gone away between the end of its statement and what follows it. -/
def isUnbroken (m m' : Machine) : Bool :=
  m.tasks.entries.all fun (id, task) => !task.phase.reports || match m'.tasks.get? id with
    | some task' => task'.label == task.label
    | none => true

theorem unbroken_of_isUnbroken (h : m.isUnbroken m' = true) : m.Unbroken m' := by
  intro id task task' htask hreports htask'
  have hchecks := List.all_eq_true.1 h _ (Registry.mem_entries_of_get? htask)
  simp only [hreports, htask'] at hchecks
  exact beq_iff_eq.1 hchecks

/-- What follows the end of a statement is not broken off by any of the choices. -/
def followsUnbroken (m : Machine) : List Choice → Bool
  | [] => true
  | choice :: choices =>
    match m.choose choice with
    | some (_, m') => m.isUnbroken m' && m'.followsUnbroken choices
    | none => true

theorem Course.follow (h : Course m past m') (choices : List Choice)
    (hunbroken : m'.followsUnbroken choices = true) :
    Course m (past ++ m'.recount choices) (m'.follow choices).2 := by
  induction choices generalizing past m' with
  | nil =>
      rw [Machine.follow, recount, List.append_nil]
      exact h
  | cons choice choices ih =>
      rw [Machine.follow, recount]
      rw [followsUnbroken] at hunbroken
      cases hchoose : m'.choose choice with
      | none =>
          rw [List.append_nil]
          exact h
      | some next =>
          obtain ⟨d, m''⟩ := next
          rw [hchoose, Bool.and_eq_true] at hunbroken
          have hnext := ih (h.move (move_of_choose hchoose) (unbroken_of_isUnbroken hunbroken.1))
            hunbroken.2
          rw [List.append_assoc] at hnext
          exact hnext

end Machine

/-! ## Statements -/

/-- The statement that is sent for a task, as an event. -/
def Deed.sendings (id : TaskId) (d : Deed) : List Event :=
  match d.events with
  | [.answered _ call (.leased _), .sent pool connection statement] =>
    if call = id then [.sent pool connection statement] else []
  | _ => []

/-- The statements that were sent for a task. -/
def sendings (id : TaskId) (past : List (Machine × Deed)) : List Event :=
  past.flatMap (·.2.sendings id)

theorem sendings_concat (id : TaskId) (past : List (Machine × Deed)) (m : Machine) (d : Deed) :
    sendings id (past ++ [(m, d)]) = sendings id past ++ d.sendings id := by
  simp [sendings]

theorem Act.sendings_eq_nil (h : Act m d s') (id : TaskId) : d.sendings id = [] := by
  cases h with
  | @abandon index pool before after action => cases action <;> rfl
  | stop =>
      rw [stopDeed]
      split <;> rfl
  | _ => rfl

/-- The turn of another task sends nothing for the task. -/
theorem Turn.sendings_other {other : TaskId} (h : Turn m other task site phase d s')
    (hne : other ≠ id) : d.sendings id = [] := by
  cases h with
  | send => exact if_neg hne
  | @created episode due made => cases made <;> rfl
  | _ => rfl

theorem Turn.of_sent {i c : Nat} {statement : CompiledQuery} (h : Turn m id task site phase d s')
    (hmem : .sent i c statement ∈ d.events) : task.pool = i ∧ ∃ lease,
      (site.pool.receive id).1 = .message (.ok lease) ∧ lease.resource.number = c := by
  cases h with
  | @send phase statement' request lease hlooks hlease =>
      have heq : i = task.pool ∧ c = lease.resource.number ∧ statement = statement' := by
        simpa using hmem
      exact ⟨heq.1.symm, lease, hlease, heq.2.1.symm⟩
  | @created episode due made => cases made <;> simp at hmem
  | _ => simp at hmem

theorem Act.sent_notMem {i c : Nat} {statement : CompiledQuery} (h : Act m d s') :
    .sent i c statement ∉ d.events := by
  cases h with
  | @abandon index pool before after action => cases action <;> simp [Action.lost]
  | stop =>
      rw [stopDeed]
      split <;> simp
  | _ => simp

namespace Machine

/-- A statement is sent over a connection that the pool has lent and the caller now receives. -/
theorem Move.of_sent {i c : Nat} {statement : CompiledQuery} (h : Move m d m')
    (hmem : .sent i c statement ∈ d.events) :
    ∃ p, m.pool? i = some p ∧ ∃ lease ∈ p.unreceived, lease.resource.number = c := by
  obtain ⟨id, task, site, -, hsite, hturn⟩ | hact := h.cases
  · obtain ⟨rfl, lease, hlease, rfl⟩ := hturn.of_sent hmem
    have hcame : (site.pool.hangUp id).1 = some lease := by simp only [Pool.hangUp, hlease]
    exact ⟨site.pool, pool?_of_site hsite, lease, hangUp_eq_some hcame, rfl⟩
  · exact absurd hmem hact.sent_notMem

end Machine

/-! ## One task -/

/-- An act leaves a task as it is, but for the note that it is to be given up, or gives it up. -/
theorem Act.of_task (hs : m.scene.Orderly) (h : Act m d s')
    (htask : m.tasks.get? id = some task) :
    (∃ cancelled, s'.tasks.get? id = some { task with cancelled }) ∨
      task.mayStop = true ∧ d = stopDeed id task ∧ s'.tasks.get? id = some { task with
        phase := task.phase.unwind, label := none, cancelled := false } := by
  have hnew : ∀ {new : Task}, (m.tasks.insert m.nextTask new).get? id = some task := by
    intro new
    rw [Registry.get?_insert_of_ne, htask]
    rintro rfl
    exact lt_irrefl _ (hs.fresh _ (Registry.mem_keys_of_get? htask))
  cases h with
  | @stop stopped former hformer hstop =>
      by_cases hid : id = stopped
      · subst hid
        cases htask.symm.trans hformer
        exact .inr ⟨hstop, rfl, Registry.get?_insert_self⟩
      · exact .inl ⟨task.cancelled, (Registry.get?_insert_of_ne hid).trans htask⟩
  | @cancel cancelled former hformer =>
      by_cases hid : id = cancelled
      · subst hid
        cases htask.symm.trans hformer
        exact .inl ⟨true, Registry.get?_insert_self⟩
      · exact .inl ⟨task.cancelled, (Registry.get?_insert_of_ne hid).trans htask⟩
  | launch | begin | beginReturn => exact .inl ⟨task.cancelled, hnew⟩
  | drop hlease hscene =>
      subst hscene
      refine .inl ⟨task.cancelled, ?_⟩
      split <;> exact htask
  | _ => exact .inl ⟨task.cancelled, htask⟩

namespace Machine

/-- What a move means to a task: its turn comes, it is left as it is, or it is given up. -/
theorem Move.of_task (hs : m.scene.Orderly) (h : Move m d m')
    (htask : m.tasks.get? id = some task) :
    (∃ site, m.sites[task.pool]? = some site ∧ Turn m id task site task.phase d m'.scene) ∨
      d.sendings id = [] ∧ ((∃ cancelled, m'.tasks.get? id = some { task with cancelled }) ∨
        task.mayStop = true ∧ d = stopDeed id task ∧ m'.tasks.get? id = some { task with
          phase := task.phase.unwind, label := none, cancelled := false }) := by
  obtain ⟨other, running, site, hrunning, hsite, hturn⟩ | hact := h.cases
  · by_cases hid : id = other
    · subst hid
      cases htask.symm.trans hrunning
      exact .inl ⟨site, hsite, hturn⟩
    · exact .inr ⟨hturn.sendings_other (Ne.symm hid),
        .inl ⟨task.cancelled, (hturn.others hid).trans htask⟩⟩
  · exact .inr ⟨hact.sendings_eq_nil id, hact.of_task hs htask⟩

/-- Nothing is sent for a task that is not there. -/
theorem Move.sendings_of_none (h : Move m d m') (hnone : m.tasks.get? id = none) :
    d.sendings id = [] := by
  obtain ⟨other, running, site, hrunning, hsite, hturn⟩ | hact := h.cases
  · refine hturn.sendings_other ?_
    rintro rfl
    cases hnone.symm.trans hrunning
  · exact hact.sendings_eq_nil id

/-- A task that has gone does not come back. -/
theorem Move.get?_eq_none (hs : m.scene.Orderly) (h : Move m d m') (hlt : id < m.nextTask)
    (hnone : m.tasks.get? id = none) : m'.tasks.get? id = none := by
  cases htask' : m'.tasks.get? id with
  | none => rfl
  | some task' =>
      obtain ⟨task, htask⟩ := h.task_of_lt hs hlt htask'
      cases hnone.symm.trans htask

end Machine

end PooledSql
