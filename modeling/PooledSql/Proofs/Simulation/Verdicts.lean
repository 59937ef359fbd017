import PooledSql.Proofs.Simulation.Attendance
import PooledSql.Proofs.Simulation.Ownership

/-!
# Verdicts

A call that is accepted is open until its verdict. Moves accept calls, open them and give verdicts
in step, so in every run the number of verdicts of a call tells whether it is still open. A call is
accepted once at most, since its task asks once, and a refusal is for the acquire timeout only.
-/

namespace PooledSql

open Machine

variable {m m' : Machine} {s s' : Scene} {id : TaskId} {task task' : Task} {site : Site}
variable {phase next : Phase} {d : Deed} {trace : List Deed} {i : Nat} {p : Pool Connection}
variable {call : CallId} {v : Verdict}

/-- The call was accepted by the pool. -/
def Event.accepts (index : Nat) (call : CallId) : Event → Bool
  | .accepted pool other => pool == index && other == call
  | _ => false

/-- The verdict on the call. -/
def Event.verdict? (index : Nat) (call : CallId) : Event → Option Verdict
  | .answered pool other verdict => if pool == index && other == call then some verdict else none
  | _ => none

theorem Event.eq_of_verdict? {event : Event} (h : event.verdict? i call = some v) :
    event = .answered i call v := by
  cases event with
  | answered pool other verdict =>
      rw [verdict?] at h
      split at h
      · rename_i heq
        rw [Bool.and_eq_true, beq_iff_eq, beq_iff_eq] at heq
        obtain ⟨rfl, rfl⟩ := heq
        cases h
        rfl
      · cases h
  | _ => cases h

/-- How often a pool accepted a call. -/
def acceptances (trace : List Deed) (index : Nat) (call : CallId) : Nat :=
  (happened trace).countP (Event.accepts index call)

/-- The verdicts on a call. -/
def verdicts (trace : List Deed) (index : Nat) (call : CallId) : List Verdict :=
  (happened trace).filterMap (Event.verdict? index call)

/-- The request of a task in this phase has no verdict yet. -/
def Phase.isOpen : Phase → Bool
  | .await _ _ _ | .withdraw _ _ _ | .lastLook _ _ => true
  | _ => false

namespace Scene

/-- The task of the call waits for the verdict of the pool. -/
def isOpen (s : Scene) (index : Nat) (call : CallId) : Bool :=
  (s.tasks.get? call).any fun task => task.pool == index && task.phase.isOpen

/-- The task of the call has not asked yet, or does not exist yet. -/
def mayAsk (s : Scene) (call : CallId) : Bool :=
  decide (s.nextTask ≤ call) || (s.tasks.get? call).any fun task => task.phase.isAsk

theorem isOpen_of_get? (htask : s.tasks.get? id = some task) :
    s.isOpen i id = (task.pool == i && task.phase.isOpen) := by
  rw [isOpen, htask]
  rfl

theorem isOpen_go (htask : s.tasks.get? id = some task) (next : Phase) :
    (s.go id next).isOpen i id = (task.pool == i && next.isOpen) := by
  rw [isOpen, get?_go, if_pos rfl, htask]
  rfl

theorem isOpen_go_eq_false (hnext : next.isOpen = false) : (s.go id next).isOpen i id = false := by
  rw [isOpen, get?_go, if_pos rfl]
  cases s.tasks.get? id with
  | none => rfl
  | some task => simp [hnext]

end Scene

theorem isOpen_afterWork (server : Server) (lease : Lease Connection) (job : Job) :
    (afterWork server lease job).isOpen = false := by
  obtain ⟨outcome, h | h⟩ := afterWork_cases server lease job <;> rw [h] <;> rfl

theorem Phase.Looks.isOpen {job : Job} (h : phase.Looks job) : phase.isOpen = true := by
  cases h <;> rfl

/-! ## Turns -/

/-- A turn is about no other call. -/
theorem Turn.events_other (h : Turn m id task site phase d s') (hne : call ≠ id) :
    d.events.countP (Event.accepts i call) = 0 ∧
      d.events.filterMap (Event.verdict? i call) = [] := by
  cases h with
  | @created episode due made => cases made <;> simp [Event.accepts, Event.verdict?]
  | _ => simp [Event.accepts, Event.verdict?, Ne.symm hne]

/-- The task of a turn has its request accepted, goes on with it or gets its verdict. -/
theorem Turn.settles_self (h : Turn m id task site phase d s') (hphase : task.phase = phase)
    (htask : m.tasks.get? id = some task) :
    d.events.countP (Event.accepts i id) + (task.pool == i && phase.isOpen).toNat =
      (s'.isOpen i id).toNat + (d.events.filterMap (Event.verdict? i id)).length := by
  have hsame : m.scene.isOpen i id = (task.pool == i && phase.isOpen) :=
    hphase ▸ Scene.isOpen_of_get? htask
  cases h with
  | wait => simp [hsame]
  | drainQueue =>
      rw [show (m.scene.put task.pool site.pool.purge).isOpen i id = _ from hsame]
      simp [Phase.isOpen]
  | finish =>
      have hnone : (m.scene.remove id).isOpen i id = false := by
        rw [Scene.isOpen, Scene.remove, Registry.get?_erase_self]
        rfl
      simp [hnone, Phase.isOpen]
  | ask | await | timeout | withdraw =>
      rw [Scene.isOpen_go htask]
      cases hi : task.pool == i <;>
        simp [hi, Event.accepts, Event.verdict?, Phase.isOpen, List.filterMap_cons]
  | keep hlooks h hnext =>
      rw [Scene.isOpen_go_eq_false (by rw [hnext]; split <;> rfl), hlooks.isOpen]
      cases hi : task.pool == i <;> simp [hi, Event.accepts, Event.verdict?]
  | hold hlooks | send hlooks | unanswered hlooks =>
      rw [Scene.isOpen_go_eq_false rfl, hlooks.isOpen]
      cases hi : task.pool == i <;> simp [hi, Event.accepts, Event.verdict?, List.filterMap_cons]
  | late =>
      rw [Scene.isOpen_go_eq_false rfl]
      cases hi : task.pool == i <;> simp [hi, Event.accepts, Event.verdict?, Phase.isOpen]
  | hangUp hnext =>
      rw [Scene.isOpen_go_eq_false (by rw [hnext]; split <;> rfl)]
      simp [Phase.isOpen]
  | worked =>
      rw [Scene.isOpen_go_eq_false (isOpen_afterWork _ _ _)]
      simp [Phase.isOpen]
  | @created episode due made =>
      rw [Scene.isOpen_go_eq_false rfl]
      cases made <;> simp [Phase.isOpen, Event.accepts, Event.verdict?, List.filterMap_cons]
  | _ =>
      rw [Scene.isOpen_go_eq_false rfl]
      simp [Phase.isOpen, Event.accepts, Event.verdict?, List.filterMap_cons]

/-- Other calls stay open or not. -/
theorem Turn.isOpen_other (h : Turn m id task site phase d s') (hne : call ≠ id) :
    s'.isOpen i call = m.scene.isOpen i call := by
  rw [Scene.isOpen, Scene.isOpen, h.others hne]
  rfl

theorem Turn.settles (h : Turn m id task site phase d s') (hphase : task.phase = phase)
    (htask : m.tasks.get? id = some task) :
    d.events.countP (Event.accepts i call) + (m.scene.isOpen i call).toNat =
      (s'.isOpen i call).toNat + (d.events.filterMap (Event.verdict? i call)).length := by
  by_cases hne : call = id
  · subst hne
    rw [← h.settles_self hphase htask, Scene.isOpen_of_get? (s := m.scene) htask, hphase]
  · obtain ⟨haccepts, hverdicts⟩ := h.events_other (i := i) hne
    rw [haccepts, hverdicts, h.isOpen_other hne]
    exact Nat.add_comm _ _

/-- A call is accepted when its task asks. -/
theorem Turn.accepts_self (h : Turn m id task site phase d s') :
    d.events.countP (Event.accepts i id) = 0 ∨ d.events.countP (Event.accepts i id) ≤ 1 ∧
      phase.isAsk = true ∧ ∃ base next, s' = Scene.go base id next ∧ next.isAsk = false := by
  cases h with
  | ask => exact .inr ⟨List.countP_le_length, rfl, _, _, rfl, rfl⟩
  | @created episode due made => cases made <;> exact .inl rfl
  | _ => exact .inl rfl

/-- A task never asks again. -/
theorem Turn.asks (hs : m.scene.Orderly) (h : Turn m id task site phase d s')
    (hphase : task.phase = phase) (htask : m.tasks.get? id = some task) :
    d.events.countP (Event.accepts i call) + (s'.mayAsk call).toNat ≤
      (m.scene.mayAsk call).toNat := by
  have hnext := h.nextTask
  by_cases hne : call = id
  · subst hne
    have hlt : ¬ m.nextTask ≤ call := not_le.2 (hs.fresh call (Registry.mem_keys_of_get? htask))
    have hbefore : m.scene.mayAsk call = phase.isAsk := by
      rw [Scene.mayAsk, show m.scene.nextTask = m.nextTask from rfl, decide_eq_false hlt,
        show m.scene.tasks = m.tasks from rfl, htask, ← hphase]
      rfl
    have hafter : s'.mayAsk call = (s'.tasks.get? call).any fun task => task.phase.isAsk := by
      rw [Scene.mayAsk, hnext, decide_eq_false hlt, Bool.false_or]
    rw [hbefore, hafter]
    obtain hzero | ⟨hone, hask, base, next, rfl, hnot⟩ := h.accepts_self (i := i)
    · rw [hzero, Nat.zero_add]
      cases htask' : s'.tasks.get? call with
      | none => exact Nat.zero_le _
      | some task' =>
          obtain ⟨next, rfl, hnext⟩ := h.self hphase htask htask'
          cases hasks : next.isAsk with
          | false => simp [hasks]
          | true => simp [hasks, ← hnext.asks hasks]
    · have hgo : ((base.go call next).tasks.get? call).any (fun task => task.phase.isAsk) =
          false := by
        rw [Scene.get?_go, if_pos rfl]
        cases base.tasks.get? call <;> simp [hnot]
      rw [hgo, hask]
      exact hone
  · obtain ⟨haccepts, -⟩ := h.events_other (i := i) hne
    rw [haccepts, Nat.zero_add, Scene.mayAsk, Scene.mayAsk, hnext,
      show m.scene.tasks = m.tasks from rfl, show m.scene.nextTask = m.nextTask from rfl]
    rw [h.others hne]

/-! ## Acts -/

/-- An act accepts nothing. -/
theorem Act.accepts (h : Act m d s') : d.events.countP (Event.accepts i call) = 0 := by
  cases h with
  | @abandon index pool before after action => cases action <;> rfl
  | stop =>
      rw [stopDeed]
      split <;> rfl
  | _ => rfl

theorem Act.asks (hs : m.scene.Orderly) (h : Act m d s') :
    (s'.mayAsk call).toNat ≤ (m.scene.mayAsk call).toNat := by
  cases hafter : s'.mayAsk call with
  | false => exact Nat.zero_le _
  | true =>
      suffices hbefore : m.scene.mayAsk call = true by rw [hbefore]
      rw [Scene.mayAsk, Bool.or_eq_true, decide_eq_true_iff] at hafter ⊢
      obtain hle | hasks := hafter
      · exact .inl ((h.nextTask_le hs).trans hle)
      · obtain ⟨task', htask', hasks⟩ := (Option.any_eq_true _ _).1 hasks
        obtain ⟨task, htask, -, hphase⟩ | ⟨task, -, -, -, rfl⟩ | ⟨rfl, -⟩ := h.origin hs htask'
        · exact .inr ((Option.any_eq_true _ _).2 ⟨task, htask, hphase ▸ hasks⟩)
        · cases hphase : task.phase <;> rw [hphase] at hasks <;> cases hasks
        · exact .inl le_rfl

theorem Scene.isOpen_insert (htasks : s'.tasks = s.tasks.insert id task) :
    s'.isOpen i call = if call = id then (task.pool == i && task.phase.isOpen)
      else s.isOpen i call := by
  rw [isOpen, isOpen, htasks, Registry.get?_insert]
  split <;> rfl

/-- A task that is added has no open call. -/
theorem Scene.isOpen_new (hs : s.Orderly) (htasks : s'.tasks = s.tasks.insert s.nextTask task)
    (hphase : task.phase.isOpen = false) : s'.isOpen i call = s.isOpen i call := by
  rw [isOpen_insert htasks]
  split
  · rename_i heq
    have hnone : s.tasks.get? call = none := by
      rw [Registry.get?_eq_none_iff]
      exact fun hmem => absurd (hs.fresh call hmem) (heq ▸ lt_irrefl _)
    rw [isOpen, hnone, hphase, Bool.and_false]
    rfl
  · rfl

/-- A caller whose call is open can go away while it awaits the answer. -/
theorem Task.await_of_mayStop (hstop : task.mayStop = true) (hopen : task.phase.isOpen = true) :
    ∃ handle deadline job, task.phase = .await handle deadline job := by
  rw [Task.mayStop, Bool.and_eq_true] at hstop
  obtain ⟨-, hstop⟩ := hstop
  cases hphase : task.phase <;> rw [hphase] at hstop hopen <;>
    first | exact ⟨_, _, _, rfl⟩ | exact absurd hopen Bool.false_ne_true |
      exact absurd hstop Bool.false_ne_true

/-- A caller who goes away while its call is open has that for the verdict. -/
theorem verdict_stop (hstop : task.mayStop = true) :
    (stopDeed id task).events.filterMap (Event.verdict? i call) =
      if id = call ∧ task.pool = i ∧ task.phase.isOpen = true then [.cancelled] else [] := by
  cases hopen : task.phase.isOpen with
  | true =>
      obtain ⟨handle, deadline, job, hphase⟩ := Task.await_of_mayStop hstop hopen
      rw [stopDeed, hphase]
      by_cases hcall : id = call <;> by_cases hpool : task.pool = i <;>
        simp [Event.verdict?, hcall, hpool]
  | false =>
      rw [if_neg fun h => Bool.false_ne_true h.2.2, stopDeed]
      cases hphase : task.phase with
      | await =>
          rw [hphase] at hopen
          cases hopen
      | _ => rfl

theorem Act.settles (hs : m.scene.Orderly) (h : Act m d s') :
    (m.scene.isOpen i call).toNat =
      (s'.isOpen i call).toNat + (d.events.filterMap (Event.verdict? i call)).length := by
  have hsame : s'.tasks = m.tasks → s'.isOpen i call = m.scene.isOpen i call := fun htasks => by
    rw [Scene.isOpen, htasks]
    rfl
  have hnew : ∀ task, s'.tasks = m.tasks.insert m.nextTask task → task.phase.isOpen = false →
      s'.isOpen i call = m.scene.isOpen i call := fun _ => Scene.isOpen_new hs
  have hinsert : ∀ {id task}, s'.tasks = m.tasks.insert id task → s'.isOpen i call =
      if call = id then (task.pool == i && task.phase.isOpen) else m.scene.isOpen i call :=
    fun htasks => Scene.isOpen_insert (s := m.scene) htasks
  cases h with
  | @launch index pool before after action evictors hpool houtbox hleases hevictors =>
      have hnot : action.phase.isOpen = false := by cases action <;> rfl
      rw [hnew ⟨index, none, action.phase, false⟩ rfl hnot]
      rfl
  | @begin task hphase hsite =>
      have hnot : task.phase.isOpen = false := by
        cases htask : task.phase <;> rw [htask] at hphase <;>
          first | rfl | exact absurd hphase Bool.false_ne_true
      rw [hnew task rfl hnot]
      rfl
  | @beginReturn label lease task hlease hphase hsite =>
      have hnot : task.phase.isOpen = false := by
        obtain h | h := hphase <;> rw [h] <;> rfl
      rw [hnew task rfl hnot]
      rfl
  | @stop id task htask hstop =>
      have hclosed : task.phase.unwind.isOpen = false := by cases task.phase <;> rfl
      rw [hinsert rfl, verdict_stop hstop]
      by_cases heq : call = id
      · rw [if_pos heq, heq, Scene.isOpen_of_get? (s := m.scene) htask, hclosed, Bool.and_false]
        by_cases hpool : task.pool = i <;> cases task.phase.isOpen <;> simp [hpool]
      · rw [if_neg heq, if_neg fun h => heq h.1.symm]
        rfl
  | @cancel id task htask =>
      rw [hinsert rfl]
      split
      · rename_i heq
        rw [heq, Scene.isOpen_of_get? (s := m.scene) htask]
        rfl
      · rfl
  | @abandon index pool before after action =>
      rw [hsame rfl]
      cases action <;> rfl
  | drop hlease hscene =>
      rw [hsame (by subst hscene; split <;> rfl)]
      rfl
  | _ =>
      rw [hsame rfl]
      rfl

/-! ## How verdicts are given -/

/-- The caller has a lease: it keeps it under a label or works with it. -/
def Scene.Has (s : Scene) (call : CallId) (lease : Lease Connection) : Prop :=
  (∃ label, (label, lease) ∈ s.leases) ∨
    ∃ task due job, s.tasks.get? call = some task ∧ task.phase = .work lease due job

/-- All that the caller gets is an error. -/
def Scene.Fails (s : Scene) (call : CallId) (e : PoolError) : Prop :=
  ∃ task job, s.tasks.get? call = some task ∧
    (task.phase = .finish (Job.refused e job) ∨ task.phase = .hangUp (Job.refused e job))

/-- What a verdict on a request of the pool comes from and leads to. -/
inductive Pool.Settles (p : Pool Connection) (call : CallId) (s' : Scene) : Verdict → Prop where
  | leased {lease : Lease Connection} (hgiven : p.calls.get? call = some (.given lease))
      (hhas : s'.Has call lease) : Settles p call s' (.leased lease.mark)
  | refused {timeout : Duration} (htimeout : p.config.acquireTimeout = some timeout)
      (hnot : ∀ lease, p.calls.get? call ≠ some (.given lease))
      (hfails : s'.Fails call (.acquireTimeout timeout)) :
      Settles p call s' (.refused (.acquireTimeout timeout))
  | cancelled {task : Task} {handle : QueueHandle} (htask : s'.tasks.get? call = some task)
      (hphase : task.phase = .forget handle) : Settles p call s' .cancelled

/-- A verdict that is allowed under a configuration. -/
def Verdict.Lawful (config : PoolConfig) : Verdict → Prop
  | .refused e => ∃ timeout, config.acquireTimeout = some timeout ∧ e = .acquireTimeout timeout
  | .leased _ | .cancelled => True

theorem Pool.Settles.lawful (h : p.Settles call s' v) : v.Lawful p.config := by
  cases h with
  | refused htimeout => exact ⟨_, htimeout, rfl⟩
  | leased | cancelled => trivial

/-- What the task finds that looks for an answer. -/
theorem Phase.Looks.receipt {job : Job} (h : phase.Looks job) (hp : p.Attended)
    (hs : phase.Stands p call) : (p.receive call).1 = .nothing ∨
      (∃ lease, p.calls.get? call = some (.given lease) ∧
        (p.receive call).1 = .message (.ok lease)) ∨
      ∃ timeout, p.config.acquireTimeout = some timeout ∧
        (p.receive call).1 = .message (.error (.acquireTimeout timeout)) := by
  obtain ⟨handle, hstanding⟩ := h.standing hs
  obtain hnothing | ⟨-, hlease | ⟨timeout, -, htimeout, hreceive⟩⟩ := hp.receipt hstanding
  · exact .inl hnothing
  · exact .inr (.inl hlease)
  · exact .inr (.inr ⟨timeout, htimeout, hreceive⟩)

theorem Pool.not_given_of_receive (h : ∀ lease, (p.receive call).1 ≠ .message (.ok lease))
    (lease : Lease Connection) : p.calls.get? call ≠ some (.given lease) :=
  fun hgiven => h lease (Pool.receive_fst hgiven)

theorem Turn.verdict (h : Turn m id task site phase d s') (hattended : site.pool.Attended)
    (hstands : phase.Stands site.pool id) (htask : m.tasks.get? id = some task)
    (hmem : .answered i call v ∈ d.events) :
    call = id ∧ task.pool = i ∧ phase.isOpen = true ∧ site.pool.Settles call s' v := by
  have hgo : ∀ {s : Scene} {next : Phase}, s.tasks = m.tasks →
      (s.go id next).tasks.get? id = some { task with phase := next } := fun htasks => by
    rw [Scene.get?_go, if_pos rfl, htasks, htask]
    rfl
  have hlease : ∀ {job : Job} {lease : Lease Connection}, phase.Looks job →
      (site.pool.receive id).1 = .message (.ok lease) →
      site.pool.calls.get? id = some (.given lease) := by
    intro job lease hlooks hreceive
    obtain hnothing | ⟨other, hgiven, hother⟩ | ⟨timeout, -, hother⟩ :=
      hlooks.receipt hattended hstands
    · cases hnothing.symm.trans hreceive
    · cases hother.symm.trans hreceive
      exact hgiven
    · cases hother.symm.trans hreceive
  cases h with
  | @keep phase next label lease hlooks h =>
      obtain ⟨rfl, rfl, rfl⟩ : i = task.pool ∧ call = id ∧ v = .leased lease.mark := by
        simpa using hmem
      refine ⟨rfl, rfl, hlooks.isOpen, .leased (hlease hlooks h) (.inl ⟨label, ?_⟩)⟩
      rw [Scene.leases_go]
      exact List.mem_cons_self
  | @hold phase duration fails lease hlooks h =>
      obtain ⟨rfl, rfl, rfl⟩ : i = task.pool ∧ call = id ∧ v = .leased lease.mark := by
        simpa using hmem
      exact ⟨rfl, rfl, hlooks.isOpen, .leased (hlease hlooks h) (.inr ⟨_, _, _, hgo rfl, rfl⟩)⟩
  | @send phase statement request lease hlooks h =>
      obtain ⟨rfl, rfl, rfl⟩ : i = task.pool ∧ call = id ∧ v = .leased lease.mark := by
        simpa using hmem
      exact ⟨rfl, rfl, hlooks.isOpen, .leased (hlease hlooks h) (.inr ⟨_, _, _, hgo rfl, rfl⟩)⟩
  | @unanswered phase job e hlooks h =>
      obtain ⟨rfl, rfl, rfl⟩ : i = task.pool ∧ call = id ∧ v = .refused e := by
        simpa using hmem
      obtain hnothing | ⟨lease, -, hreceive⟩ | ⟨timeout, htimeout, hreceive⟩ :=
        hlooks.receipt hattended hstands
      · rw [hnothing] at h
        obtain h | ⟨h, -⟩ := h <;> cases h
      · rw [hreceive] at h
        obtain h | ⟨h, -⟩ := h <;> cases h
      · rw [hreceive] at h
        obtain h | ⟨h, -⟩ := h <;> cases h
        refine ⟨rfl, rfl, hlooks.isOpen, .refused htimeout ?_ ⟨_, job, hgo rfl, .inl rfl⟩⟩
        exact Pool.not_given_of_receive fun lease => by rw [hreceive]; nofun
  | @late timeout job h =>
      obtain ⟨rfl, rfl, rfl⟩ : i = task.pool ∧ call = id ∧
          v = .refused (.acquireTimeout timeout) := by
        simpa using hmem
      exact ⟨rfl, rfl, rfl, .refused hstands.1 (Pool.not_given_of_receive fun lease => h _)
        ⟨_, job, hgo rfl, .inr rfl⟩⟩
  | @created episode due made => cases made <;> simp at hmem
  | _ => simp at hmem

theorem Act.verdict (h : Act m d s') (hmem : .answered i call v ∈ d.events) :
    m.scene.isOpen i call = true ∧ ∀ p : Pool Connection, p.Settles call s' v := by
  cases h with
  | @stop id task htask hstop =>
      have hverdict : v ∈ (stopDeed id task).events.filterMap (Event.verdict? i call) :=
        List.mem_filterMap.2 ⟨_, hmem, by simp [Event.verdict?]⟩
      rw [verdict_stop hstop] at hverdict
      split at hverdict
      · rename_i hcase
        obtain ⟨rfl, hpool, hopen⟩ := hcase
        obtain rfl := List.mem_singleton.1 hverdict
        obtain ⟨handle, deadline, job, hphase⟩ := Task.await_of_mayStop hstop hopen
        have hforget : task.phase.unwind = .forget handle := by
          rw [hphase]
          rfl
        refine ⟨?_, fun p => .cancelled Registry.get?_insert_self hforget⟩
        rw [Scene.isOpen_of_get? (s := m.scene) htask]
        simp [hpool, hopen]
      · cases hverdict
  | @abandon index pool before after action => cases action <;> simp [Action.lost] at hmem
  | _ => simp at hmem

/-! ## Runs -/

namespace Machine

/-- An open request is one of a pool that is there. -/
theorem pool_of_isOpen (hs : m.scene.Attends) (hopen : m.scene.isOpen i call = true) :
    ∃ p, m.pool? i = some p := by
  obtain ⟨task, htask, hphase⟩ := (Option.any_eq_true _ _).1 hopen
  rw [Bool.and_eq_true, beq_iff_eq] at hphase
  obtain ⟨p, hp, -⟩ := hs.stands call task htask
  exact ⟨p, (pool?_eq _ _).trans (hphase.1 ▸ hp)⟩

/-- A verdict is given on an open request, by the state of its answer or because the caller goes. -/
theorem Move.verdict (hs : m.scene.Attends) (h : Move m d m')
    (hmem : .answered i call v ∈ d.events) :
    m.scene.isOpen i call = true ∧ ∃ p, m.pool? i = some p ∧ p.Settles call m'.scene v := by
  obtain ⟨id, task, site, htask, hsite, hturn⟩ | hact := h.cases
  · have hpool := pool?_of_site hsite
    obtain ⟨rfl, rfl, hopen, hsettles⟩ := hturn.verdict
      (hs.attended _ _ ((pool?_eq _ _).symm.trans hpool)) (hs.stands_site htask hsite) htask hmem
    refine ⟨?_, site.pool, hpool, hsettles⟩
    rw [Scene.isOpen_of_get? (s := m.scene) htask]
    simp [hopen]
  · obtain ⟨hopen, hsettles⟩ := hact.verdict hmem
    obtain ⟨p, hp⟩ := pool_of_isOpen hs hopen
    exact ⟨hopen, p, hp, hsettles p⟩

theorem Move.settles (hs : m.scene.Orderly) (h : Move m d m') (i : Nat) (call : CallId) :
    d.events.countP (Event.accepts i call) + (m.scene.isOpen i call).toNat =
      (m'.scene.isOpen i call).toNat + (d.events.filterMap (Event.verdict? i call)).length := by
  obtain ⟨id, task, site, htask, hsite, hturn⟩ | hact := h.cases
  · exact hturn.settles rfl htask
  · rw [hact.accepts, Nat.zero_add]
    exact hact.settles hs

theorem Move.asks (hs : m.scene.Orderly) (h : Move m d m') (i : Nat) (call : CallId) :
    d.events.countP (Event.accepts i call) + (m'.scene.mayAsk call).toNat ≤
      (m.scene.mayAsk call).toNat := by
  obtain ⟨id, task, site, htask, hsite, hturn⟩ | hact := h.cases
  · exact hturn.asks hs rfl htask
  · rw [hact.accepts, Nat.zero_add]
    exact hact.asks hs

/-- A call has a verdict for each time that it was accepted, except while it is open. -/
theorem FreeRun.length_verdicts (h : FreeRun trace m) (i : Nat) (call : CallId) :
    (verdicts trace i call).length + (m.scene.isOpen i call).toNat =
      acceptances trace i call := by
  induction h with
  | idle server => rfl
  | @move trace m m' d h hmove ih =>
      have := hmove.settles h.ledger.toOrderly i call
      simp only [verdicts, acceptances, happened, List.flatMap_append, List.flatMap_singleton,
        List.filterMap_append, List.length_append, List.countP_append] at *
      omega
  | switch h runtime now ih => exact ih

theorem FreeRun.acceptances_le_one (h : FreeRun trace m) (i : Nat) (call : CallId) :
    acceptances trace i call ≤ 1 := by
  suffices hsum : acceptances trace i call + (m.scene.mayAsk call).toNat ≤ 1 by omega
  induction h with
  | idle server => exact (Nat.zero_add _).symm ▸ Bool.toNat_le _
  | @move trace m m' d h hmove ih =>
      have := hmove.asks h.ledger.toOrderly i call
      simp only [acceptances, happened, List.flatMap_append, List.flatMap_singleton,
        List.countP_append] at *
      omega
  | switch h runtime now ih => exact ih

theorem config_run (d : Deed) (i : Nat) (p : Pool Connection) : (d.run i p).config = p.config := by
  obtain ⟨-, heq⟩ | ⟨x, -, heq⟩ := d.run_cases i p <;> rw [heq]
  exact (x.frame p).config

/-- Calls are refused for the acquire timeout only, where there is one. -/
theorem FreeRun.lawful (h : FreeRun trace m) (hv : v ∈ verdicts trace i call) :
    ∃ p, m.pool? i = some p ∧ v.Lawful p.config := by
  induction h with
  | idle server => cases hv
  | @move trace m m' d h hmove ih =>
      rw [verdicts, happened, List.flatMap_append, List.filterMap_append, List.mem_append,
        List.flatMap_singleton] at hv
      obtain ⟨p, hp, hlawful⟩ : ∃ p, m.pool? i = some p ∧ v.Lawful p.config := by
        obtain hv | hv := hv
        · exact ih hv
        · obtain ⟨event, hmem, hverdict⟩ := List.mem_filterMap.1 hv
          rw [Event.eq_of_verdict? hverdict] at hmem
          obtain ⟨-, p, hp, hsettles⟩ := hmove.verdict h.attends hmem
          exact ⟨p, hp, hsettles.lawful⟩
      exact ⟨_, hmove.pool? hp, (config_run d i p).symm ▸ hlawful⟩
  | switch h runtime now ih => exact ih hv

end Machine

end PooledSql
