import PooledSql.Proofs.Simulation.Waiting

/-!
# Alertness

A machine that has come out of a run is alert if all of its tasks are tended: none waits without
being in line or blocked, and none can be called that cannot be given up. Every step of a machine
keeps it alert, and so does every command.
-/

namespace PooledSql

open Machine

variable {m m' : Machine} {id other : TaskId} {task task' : Task} {site : Site} {i : Nat}
variable {phase : Phase} {d : Deed} {s' : Scene}

/-- A task that is given up never does anything else again. -/
theorem Turn.isLast (h : Turn m id task site phase d s') (hphase : task.phase = phase)
    (hlast : phase.isLast = true) (htask : m.tasks.get? id = some task)
    (htask' : s'.tasks.get? id = some task') : task'.phase.isLast = true := by
  cases h with
  | wait =>
      cases htask.symm.trans htask'
      exact hphase ▸ hlast
  | letGo | forget =>
      rw [Scene.phase_go htask']
      rfl
  | hangUp hnext =>
      rw [Scene.phase_go htask', hnext]
      split <;> rfl
  | finish => cases Registry.get?_erase_self.symm.trans htask'
  | keep hlooks | hold hlooks | send hlooks | unanswered hlooks => cases hlooks <;> cases hlast
  | _ => cases hlast

namespace Machine

/-- Who runs and who will be woken may change at any time. -/
theorem Move.reschedule (m : Machine) (running : Option TaskId) (line : List TaskId)
    (timers : List Timer) : Move m {} { m with running, line, timers } :=
  .elapse ⟨rfl, rfl, rfl, rfl, rfl, rfl, rfl, le_rfl, rfl⟩

/-- The machine has come out of a run inside a runtime, all of its tasks are tended, and labels only
name tasks that have begun. -/
structure Alert (m : Machine) : Prop where
  run : ∃ trace, FreeRun trace m
  runtime : m.runtime = true
  tended : ∀ id task, m.tasks.get? id = some task → m.Tended id task
  known : ∀ label id, (label, id) ∈ m.names → id < m.nextTask

/-- Nothing has changed that a task can wait for, and no lease was delivered. -/
theorem Spares.still (hsites : m'.sites = m.sites) (hline : id ∈ m.line → id ∈ m'.line)
    (hrunning : m.running = some id → m'.running = some id) (hnames : m'.names = m.names) :
    Spares id m m' where
  line := hline
  watches _ site hsite := ⟨site, hsites ▸ hsite, fun hmem => .inr ⟨hmem, .refl _⟩⟩
  running := hrunning
  names _ hmem := hnames ▸ hmem
  given _ i lease p' hp' hgiven := by
    rw [pool?, hsites] at hp'
    exact .inl ⟨p', hp', hgiven⟩

/-- A task is tended that is in line and can be given up. -/
theorem Tended.roused (hline : id ∈ m.line) (hstop : task.label.isSome = true → task.mayStop = true)
    (hcalled : (task.cancelled = true ∨ ∃ label, (label, id) ∈ m.names) →
      task.label.isSome = true) : m.Tended id task where
  waits := .inr (.inl hline)
  stops := .inr hstop
  called h := .inl (hcalled h)

namespace Alert

theorem attends (h : m.Alert) : m.scene.Attends := by
  obtain ⟨trace, hrun⟩ := h.run
  exact hrun.attends

theorem orderly (h : m.Alert) : m.scene.Orderly := by
  obtain ⟨trace, hrun⟩ := h.run
  exact hrun.ledger.toOrderly

/-- In a move, tasks that were there are spared, and those that are new or have changed are
tended. -/
theorem next (h : m.Alert) (hmove : Move m d m')
    (htasks : ∀ id task, m'.tasks.get? id = some task →
      m.tasks.get? id = some task ∧ Spares id m m' ∨ m'.Tended id task)
    (hnames : ∀ label id, (label, id) ∈ m'.names → (label, id) ∈ m.names ∨ id < m'.nextTask) :
    m'.Alert where
  run := by
    obtain ⟨trace, hrun⟩ := h.run
    exact ⟨_, hrun.move hmove⟩
  runtime := hmove.runtime.trans h.runtime
  tended id task htask := by
    obtain ⟨hformer, hspares⟩ | htended := htasks id task htask
    · exact (h.tended id task hformer).spared hspares
    · exact htended
  known label id hmem := by
    obtain hmem | hlt := hnames label id hmem
    · exact (h.known label id hmem).trans_le (hmove.nextTask_le h.orderly)
    · exact hlt

/-- In a move, one task is new or has changed. -/
theorem insert (h : m.Alert) (hmove : Move m d m') (htasks : m'.tasks = m.tasks.insert id task)
    (htended : m'.Tended id task) (hspares : ∀ other, other ≠ id → Spares other m m')
    (hnames : ∀ label id, (label, id) ∈ m'.names → (label, id) ∈ m.names ∨ id < m'.nextTask) :
    m'.Alert := by
  refine h.next hmove (fun other task' htask' => ?_) hnames
  rw [htasks] at htask'
  obtain ⟨rfl, rfl⟩ | ⟨hid, hthere⟩ := Registry.get?_insert_cases htask'
  · exact .inr htended
  · exact .inl ⟨hthere, hspares other hid⟩

end Alert

/-! ## Actions -/

@[simp] theorem helm_deliver (m : Machine) (i : Nat) (pool : Pool Connection) (call : CallId)
    (lease : Lease Connection) : (m.deliver i pool call lease).helm = m.helm := by
  rw [deliver]
  split
  · dsimp only
    split <;> simp
  · simp

@[simp] theorem helm_launch (m : Machine) (i : Nat) (pool : Pool Connection)
    (action : Action Connection) (phase : Phase) :
    (m.launch i pool action phase).helm = m.helm := by
  rw [launch]
  split
  · rfl
  · simp

@[simp] theorem helm_perform (m : Machine) (i : Nat) (pool : Pool Connection)
    (action : Action Connection) : (m.perform i pool action).helm = m.helm := by
  cases action <;> simp [perform]

theorem names_perform (m : Machine) (i : Nat) (pool : Pool Connection)
    (action : Action Connection) : (m.perform i pool action).names = m.names :=
  congrArg Prod.snd (helm_perform m i pool action)

/-- An action starts a task without a label, or none. -/
theorem tasks_perform (m : Machine) (i : Nat) (pool : Pool Connection)
    (action : Action Connection) :
    (m.perform i pool action).tasks = m.tasks ∨ m.nextTask ∈ (m.perform i pool action).line ∧
      ∃ phase, (m.perform i pool action).tasks =
        m.tasks.insert m.nextTask ⟨i, none, phase, false⟩ := by
  have hlaunch : ∀ phase, (m.launch i pool action phase).tasks = m.tasks ∨
      m.nextTask ∈ (m.launch i pool action phase).line ∧
        (m.launch i pool action phase).tasks =
          m.tasks.insert m.nextTask ⟨i, none, phase, false⟩ := by
    intro phase
    rw [launch]
    split
    · exact .inr ⟨mem_line_wake.2 (.inr List.mem_cons_self), rfl⟩
    · exact .inl rfl
  cases action with
  | deliver call lease =>
      left
      rw [perform, deliver]
      split
      · dsimp only
        split <;> rfl
      · rfl
  | _ => exact (hlaunch _).imp_right (And.imp_right (Exists.intro _))

/-- The first action of a pool is performed. -/
theorem move_perform {action : Action Connection} {outbox : List (Action Connection)}
    (hsite : m.sites[i]? = some site) (houtbox : site.pool.outbox = action :: outbox) :
    Move m (m.performDeed i [] action outbox) (m.perform i { site.pool with outbox } action) :=
  @Move.perform m i site [] outbox action hsite houtbox

theorem Spares.perform {action : Action Connection} {outbox : List (Action Connection)}
    (hs : m.scene.Attends) (hsite : m.sites[i]? = some site)
    (houtbox : site.pool.outbox = action :: outbox) :
    Spares id m (m.perform i { site.pool with outbox } action) where
  toHeeds := (Heeds.refl id m).perform hsite outbox action
  running hrunning := (congrArg Prod.fst (helm_perform m i _ action)).trans hrunning
  names _ hmem := by rwa [names_perform] at hmem
  given hrunning j lease p' hp' hgiven := by
    obtain h | ⟨p, x, hp, hchange, hdelivers, hopen⟩ :=
      (move_perform hsite houtbox).given_cases hs hp' hgiven
    · exact .inl h
    · cases action with
      | deliver call lease =>
          cases hchange
          cases hdelivers
          cases (pool?_of_site hsite).symm.trans hp
          exact .inr (mem_line_deliver hopen outbox hrunning)
      | _ =>
          simp only [performDeed] at hchange
          split at hchange <;> cases hchange <;> cases hdelivers

namespace Alert

theorem perform {action : Action Connection} {outbox : List (Action Connection)} (h : m.Alert)
    (hsite : m.sites[i]? = some site) (houtbox : site.pool.outbox = action :: outbox) :
    (m.perform i { site.pool with outbox } action).Alert := by
  have hmove := move_perform hsite houtbox
  have hnames := m.names_perform i { site.pool with outbox } action
  have hspares : ∀ id, Spares id m (m.perform i { site.pool with outbox } action) := fun id =>
    .perform h.attends hsite houtbox
  obtain htasks | ⟨hline, phase, htasks⟩ := m.tasks_perform i { site.pool with outbox } action
  · exact h.next hmove (fun id task htask => .inl ⟨htasks ▸ htask, hspares id⟩)
      fun label id hmem => .inl (hnames ▸ hmem)
  · refine h.insert hmove htasks (.roused hline (fun hlabel => ?_) fun hcalled => ?_)
      (fun id _ => hspares id) fun label id hmem => .inl (hnames ▸ hmem)
    · exact absurd hlabel Bool.false_ne_true
    · obtain hcancelled | ⟨label, hmem⟩ := hcalled
      · cases hcancelled
      · exact absurd (h.known label m.nextTask (hnames ▸ hmem)) (lt_irrefl _)

end Alert

theorem site_of_firstAction {k : Nat} {sites : List Site} {pool : Pool Connection}
    {action : Action Connection} (h : firstAction k sites = some (i, pool, action)) :
    ∃ j site, i = k + j ∧ sites[j]? = some site ∧ site.pool.outbox = action :: pool.outbox ∧
      pool = { site.pool with outbox := pool.outbox } := by
  induction sites generalizing k with
  | nil => cases h
  | cons site rest ih =>
      rw [firstAction] at h
      split at h
      · rename_i houtbox
        cases h
        exact ⟨0, site, rfl, rfl, houtbox, rfl⟩
      · obtain ⟨j, site', rfl, hsite, houtbox, hpool⟩ := ih h
        exact ⟨j + 1, site', by omega, hsite, houtbox, hpool⟩

namespace Alert

theorem performFirst {pool : Pool Connection} {action : Action Connection} (h : m.Alert)
    (hfirst : firstAction 0 m.sites = some (i, pool, action)) :
    (m.perform i pool action).Alert := by
  obtain ⟨j, site, rfl, hsite, houtbox, hpool⟩ := site_of_firstAction hfirst
  rw [Nat.zero_add, hpool]
  exact h.perform hsite houtbox

theorem flush (h : m.Alert) : m.flush.Alert := by
  rw [Machine.flush]
  generalize patience = fuel
  induction fuel generalizing m with
  | zero => exact h
  | succ fuel ih =>
      rw [flushSome]
      split
      · rename_i hfirst
        exact ih (h.performFirst hfirst)
      · exact h

/-! ## Turns -/

/-- The task that runs does the next part of its work. -/
theorem stepTask (h : m.Alert) (hrunning : m.running = some id)
    (htask : m.tasks.get? id = some task) (hsite : m.sites[task.pool]? = some site) :
    (m.stepTask id task site).Alert := by
  have hmove : Move m _ (m.stepTask id task site) := .part htask hsite
  have hturn : Turn m id task site task.phase _ (m.stepTask id task site).scene := turn_part hsite
  have hattended := h.attends.attended task.pool site.pool (pools_of_site hsite)
  have hgoes := Goes.stepTask hrunning htask hsite hattended
  have hnames := hgoes.names
  refine h.next hmove (fun other task' htask' => ?_)
    fun label id hmem => .inl (hnames ▸ hmem)
  by_cases hid : other = id
  · -- the task that runs is blocked when it comes to wait, and blocked tasks can be given up
    subst hid
    obtain ⟨next, rfl, -⟩ := hturn.self rfl htask htask'
    refine .inr ⟨?_, ?_, ?_⟩
    · exact hgoes.runs.imp_right fun hblocked => .inr (hblocked _ htask')
    · refine hgoes.runs.imp_right fun hblocked hlabel => ?_
      obtain ⟨site', -, hblocked⟩ := hblocked _ htask'
      exact hblocked.mayStop hlabel
    · intro hcalled
      refine ((h.tended other task htask).called ?_).imp_right fun hformer => ?_
      · exact hnames ▸ hcalled
      · have hlast := hturn.isLast rfl hformer.2 htask htask'
        refine ⟨hgoes.runs.resolve_right fun hblocked => ?_, hlast⟩
        obtain ⟨site', -, hblocked⟩ := hblocked _ htask'
        exact Bool.false_ne_true (hblocked.isLast_eq_false.symm.trans hlast)
  · -- the others stay as they are
    refine .inl ⟨(hturn.others hid).symm.trans htask', .of_move h.attends hmove ?_ ?_ ?_ ?_⟩
    · exact fun i x hchange => hturn.delivers_eq_none hchange
    · exact (Heeds.refl other m).stepTask hsite hattended hid
    · exact fun hother => absurd (Option.some.inj (hother.symm.trans hrunning)) hid
    · exact fun label hmem => hnames ▸ hmem

/-- A task that runs but is not there waits for nothing. -/
theorem suspend (h : m.Alert) (hrunning : m.running = some id) (hnone : m.tasks.get? id = none) :
    m.suspend.Alert := by
  refine h.next (.reschedule m none m.line m.timers)
    (fun other task htask => .inl ⟨htask, .still rfl (fun hmem => hmem) (fun hother => ?_) rfl⟩)
    fun label id hmem => .inl hmem
  cases hrunning.symm.trans hother
  cases hnone.symm.trans htask

/-- The first in line runs. -/
theorem pop {line : List TaskId} (h : m.Alert) (hidle : m.running = none)
    (hline : m.line = id :: line) : ({ m with running := some id, line } : Machine).Alert := by
  refine h.next (.reschedule m (some id) line m.timers)
    (fun other task htask => ?_) fun label id hmem => .inl hmem
  by_cases hid : other = id
  · subst hid
    refine .inr ⟨.inl rfl, .inl rfl, fun hcalled => .inl ?_⟩
    exact ((h.tended other task htask).called hcalled).resolve_right fun hrunning =>
      Option.some_ne_none other (hrunning.1.symm.trans hidle)
  · refine .inl ⟨htask, .still rfl (fun hmem => ?_) (fun hother => ?_) rfl⟩
    · rw [hline] at hmem
      exact (List.mem_cons.1 hmem).resolve_left hid
    · exact absurd (hother.symm.trans hidle) (Option.some_ne_none other)

/-- The task that runs is given up. -/
theorem giveUp (h : m.Alert) (hrunning : m.running = some id) (htask : m.tasks.get? id = some task)
    (hstop : task.mayStop = true) : (m.giveUp id task).Alert := by
  have hmove : Move m _ (m.giveUp id task) := .stop htask hstop
  refine h.insert hmove rfl ⟨.inl rfl, .inl rfl, fun _ => .inr ⟨rfl, task.phase.isLast_unwind⟩⟩
    (fun other hne => ?_) fun label id => .inl
  refine .of_move h.attends hmove (fun i x hchange => ?_) ((Heeds.refl other m).giveUp hne task)
    (fun hother => ?_) fun label hmem => hmem
  · rw [stopDeed] at hchange
    split at hchange <;> cases hchange
  · exact absurd (Option.some.inj (hother.symm.trans hrunning)) hne

theorem resume {line : List TaskId} (h : m.Alert) (hidle : m.running = none)
    (hline : m.line = id :: line) : (m.resume id line).Alert := by
  have hpop := h.pop hidle hline
  rw [Machine.resume]
  split
  · rename_i task htask
    split
    · rename_i hcancelled
      have htended := h.tended id task htask
      have hwaits : m.running ≠ some id := fun hrunning =>
        Option.some_ne_none id (hrunning.symm.trans hidle)
      refine hpop.giveUp rfl htask (htended.stops.resolve_left hwaits ?_)
      exact (htended.called (.inl hcancelled)).resolve_right fun hlast => hwaits hlast.1
    · exact hpop
  · rename_i hnone
    exact hpop.suspend rfl hnone

/-- Every step keeps a machine alert. -/
theorem step (h : m.Alert) (hstep : m.step? = some m') : m'.Alert := by
  rw [step?] at hstep
  split at hstep
  · rename_i hfirst
    cases hstep
    exact h.performFirst hfirst
  · split at hstep
    · rename_i id hrunning
      split at hstep
      · rename_i task htask
        split at hstep
        · rename_i site hsite
          cases hstep
          exact h.stepTask hrunning htask hsite
        · rename_i hnone
          obtain ⟨trace, hrun⟩ := h.run
          obtain ⟨site, hsite⟩ := hrun.site_of_task htask
          cases hnone.symm.trans hsite
      · rename_i hnone
        cases hstep
        exact h.suspend hrunning hnone
    · rename_i hidle
      split at hstep
      · rename_i hline
        cases hstep
        exact h.resume hidle hline
      · cases hstep

end Alert

/-! ## Commands -/

theorem mayStop_of_begins (hlabel : task.label.isSome = true) (h : task.phase.begins = true) :
    task.mayStop = true := by
  rw [Task.mayStop, hlabel, Bool.true_and]
  cases hphase : task.phase <;> rw [hphase] at h <;> first | rfl | cases h

/-- The task of a command has a label and can be given up. -/
theorem taskFor_eq_some {rest : Machine} {command : Command}
    (h : m.taskFor command = some (task, rest)) :
    (∃ leases, rest = { m with leases }) ∧ task.label.isSome = true ∧ task.mayStop = true := by
  cases command with
  | acquire | use | drain | clear | ready =>
      cases h
      exact ⟨⟨m.leases, rfl⟩, rfl, rfl⟩
  | call db label request fragment =>
      cases h
      refine ⟨⟨m.leases, rfl⟩, rfl, mayStop_of_begins rfl ?_⟩
      split
      · rfl
      · split <;> rfl
  | release pool label | destroy pool label =>
      obtain ⟨⟨lease, m'⟩, htake, heq⟩ := Option.map_eq_some_iff.1 h
      obtain ⟨-, rfl⟩ := takeLease_eq_some htake
      cases heq
      exact ⟨⟨_, rfl⟩, rfl, rfl⟩
  | _ => cases h

namespace Alert

/-- A command starts a task. -/
theorem begin {rest : Machine} {command : Command} (h : m.Alert)
    (htask : m.taskFor command = some (task, rest)) (hpool : task.pool < m.sites.length) :
    (rest.spawn task).Alert := by
  have hmove : Move m {} (rest.spawn task) := .begin htask hpool
  obtain ⟨⟨leases, rfl⟩, hlabel, hstop⟩ := taskFor_eq_some htask
  have hnames : ∀ label id, (label, id) ∈ (spawn { m with leases } task).names →
      id = m.nextTask ∨ (label, id) ∈ m.names := by
    intro label id hmem
    obtain hmem | hmem := List.mem_append.1 hmem
    · obtain ⟨_, -, heq⟩ := List.mem_map.1 hmem
      cases heq
      exact .inl rfl
    · exact .inr hmem
  refine h.insert hmove rfl (.roused ?_ (fun _ => hstop) fun _ => hlabel) (fun other hne => ?_)
    fun label id hmem => ?_
  · exact mem_line_wake.2 (.inr List.mem_cons_self)
  · exact .of_move h.attends hmove nofun (((Heeds.refl other m).leases leases).spawn task)
      (fun hrunning => hrunning) fun label hmem => (hnames label other hmem).resolve_left hne
  · obtain rfl | hmem := hnames label id hmem
    · exact .inr (Nat.lt_succ_self _)
    · exact .inl hmem

/-- The tasks stay as they are. -/
theorem keep (h : m.Alert) (hmove : Move m d m') (htasks : m'.tasks = m.tasks)
    (hhelm : m'.helm = m.helm) (hdelivers : ∀ i x, d.change = some (i, x) → x.delivers = none)
    (hheeds : ∀ id, Heeds id m m') : m'.Alert := by
  have hrunning : m'.running = m.running := congrArg Prod.fst hhelm
  have hnames : m'.names = m.names := congrArg Prod.snd hhelm
  refine h.next hmove (fun id task htask => ?_)
    fun label id hmem => .inl (hnames ▸ hmem)
  exact .inl ⟨htasks ▸ htask, .of_move h.attends hmove hdelivers (hheeds id)
    (fun hid => hrunning.trans hid) fun label hmem => hnames ▸ hmem⟩

theorem drop {rest : Machine} {label : String} {lease : Lease Connection} (h : m.Alert)
    (hlease : m.takeLease label = some (lease, rest)) : (rest.reclaim lease).Alert := by
  have hmove : Move m _ (rest.reclaim lease) := .drop hlease
  obtain ⟨-, rfl⟩ := takeLease_eq_some hlease
  refine h.keep hmove (tasks_reclaim _ _) (by rw [helm_reclaim, helm_leases]) ?_ fun id =>
    ((Heeds.refl id m).leases _).reclaim lease
  intro i x hchange
  cases hchange
  rfl

theorem start (h : m.Alert) (hsite : m.sites[i]? = some site) :
    (m.commit i site.pool.start).Alert := by
  refine h.keep (.start hsite) rfl (helm_commit _ _ _) ?_ fun id => (Heeds.refl id m).commit i _
  intro i x hchange
  cases hchange
  rfl

theorem recycle (h : m.Alert) (recycling : Option RecyclingConfig)
    (hsite : m.sites[i]? = some site) : (m.commit i (site.pool.setRecycling recycling)).Alert := by
  refine h.keep (.recycle recycling hsite) rfl (helm_commit _ _ _) ?_ fun id =>
    (Heeds.refl id m).commit i _
  intro i x hchange
  cases hchange
  rfl

theorem sicken (h : m.Alert) (label : String) : (m.act (.sicken label)).Alert :=
  h.keep (.sicken label) rfl rfl nofun fun id => (Heeds.refl id m).leases _

/-- The task with this label is to be given up. -/
theorem cancel (h : m.Alert) (label : String) : (m.act (.cancel label)).Alert := by
  have hmove : Move m {} (m.act (.cancel label)) := .cancel label
  revert hmove
  rw [act]
  split
  · rename_i id hid
    split
    · rename_i task htask
      intro hmove
      obtain ⟨before, after, hnames, -⟩ := List.lookup_eq_some_iff.1 hid
      have hnamed : (label, id) ∈ m.names := by simp [hnames]
      have htended := h.tended id task htask
      refine h.insert hmove rfl ⟨.inr (.inl (mem_line_wake.2 (.inr List.mem_cons_self))),
        htended.stops, fun _ => htended.called (.inr ⟨label, hnamed⟩)⟩ (fun other _ => ?_)
        fun label id => .inl
      exact .still rfl (fun hmem => mem_line_wake.2 (.inl hmem)) (fun hrunning => hrunning) rfl
    · exact fun _ => h
  · exact fun _ => h

/-! ## Pools and the clock -/

end Alert

/-- A pool is put in the place of one that nobody watches yet. -/
theorem commit_append (m : Machine) (site : Site) (pool : Pool Connection)
    (hwatchers : site.watchers = []) :
    commit { m with sites := m.sites ++ [site] } m.sites.length pool =
      { m with sites := m.sites ++ [{ site with pool }] } := by
  have hget : (m.sites ++ [site])[m.sites.length]? = some site := by simp
  have hmodify : (m.sites ++ [site]).modify m.sites.length
      (fun site => { site with pool, watchers := [] }) = m.sites ++ [{ site with pool }] := by
    rw [List.modify_eq_set_getElem?, hget]
    simp [← hwatchers]
  simp only [commit, modifySite, hget, hmodify, Option.map_some, Option.getD_some, hwatchers]
  rfl

namespace Alert

theorem build (h : m.Alert) (config : PoolConfig) (policy : EvictionPolicy)
    (recycling : Option RecyclingConfig) (factory : Factory) :
    (m.build config policy recycling factory).Alert := by
  have hnew : ({ m with sites := m.sites ++ [{
      pool := .idle m.sites.length config policy recycling, factory }] } : Machine).Alert := by
    refine h.keep (.build config policy recycling factory) rfl rfl nofun fun id =>
      ⟨fun hmem => hmem, fun i site hsite => ⟨site, ?_, fun hmem => .inr ⟨hmem, .refl _⟩⟩⟩
    exact (List.getElem?_append_left (List.getElem?_eq_some_iff.1 hsite).1).trans hsite
  rw [Machine.build]
  refine Alert.flush ?_
  split
  · have hstart := hnew.start (List.getElem?_concat_length)
    rwa [commit_append m _ _ rfl] at hstart
  · exact hnew

theorem clock (h : m.Alert) (now : Instant) : ({ m with now } : Machine).Alert := by
  obtain ⟨trace, hrun⟩ := h.run
  refine ⟨⟨trace, hrun.switch m.runtime now⟩, h.runtime, fun id task htask => ?_, h.known⟩
  exact (h.tended id task htask).spared
    (.still rfl (fun hmem => hmem) (fun hrunning => hrunning) rfl)

theorem advance (h : m.Alert) (now : Instant) : (m.advance now).Alert := by
  have hclock := h.clock now
  have hmove : Move { m with now } {} (m.advance now) := .reschedule _ m.running _ _
  refine hclock.next hmove (fun id task htask => .inl ⟨htask, ?_⟩)
    fun label id => .inl
  exact .still rfl (fun hmem => mem_line_wake.2 (.inl hmem)) (fun hrunning => hrunning) rfl

end Alert

end Machine

end PooledSql
