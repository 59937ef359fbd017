import PooledSql.Proofs.Simulation.Lenders
import PooledSql.Proofs.Simulation.Rousing
import PooledSql.Proofs.Simulation.Verdicts

/-!
# Waiting

A task that does not run is in line, or it is blocked: it watches a pool that is not yet as the task
wants it, or its answer has not come, or its time has not. `Phase.Blocked` says what this means for
a phase. The task that runs goes on running until it is blocked or has ended, `Machine.Goes`, and
while another task runs or an action is performed, a task that is blocked stays so or is put in
line.
-/

namespace PooledSql

open Machine

variable {m m' : Machine} {id other : TaskId} {task task' : Task} {site site' : Site} {i : Nat}
variable {p p' : Pool Connection} {call target : CallId} {lease : Lease Connection} {phase : Phase}
variable {d : Deed}

/-- The pool is not yet as a task wants it that drains it, clears it or waits for its minimum. -/
def Phase.Lacks (p : Pool Connection) : Phase → Prop
  | .drainQueue => p.waiting.toList ≠ []
  | .drainLoans => p.loans.isEmpty = false
  | .clear => 0 < p.creating
  | .clearDestructions => 0 < p.destroying
  | .ready => p.available.length < p.config.min
  | _ => False

theorem Phase.Lacks.agrees (h : phase.Lacks p) (hagrees : p.Agrees p') : phase.Lacks p' := by
  cases phase with
  | drainQueue => exact fun hnil => h (hagrees.waiting.symm.trans hnil)
  | drainLoans => exact (congrArg Registry.isEmpty hagrees.loans).trans h
  | clear => exact h.trans_eq hagrees.creating.symm
  | clearDestructions => exact h.trans_eq hagrees.destroying.symm
  | ready =>
      rw [Lacks, hagrees.available, hagrees.config]
      exact h
  | _ => exact h

/-- A task in this phase has nothing to do: its answer has not come, or it waits for a time, or it
watches a pool that is not yet as the task wants it. -/
def Phase.Blocked (site : Site) (id : TaskId) : Phase → Prop
  | .await _ _ _ => ∀ lease, site.pool.calls.get? id ≠ some (.given lease)
  | .work _ _ _ | .creation _ _ | .validation _ _ _ | .destruction _ _ _ _ | .evict (some _) => True
  | phase => id ∈ site.watchers ∧ phase.Lacks site.pool

/-- A task that has come to watch such a pool is blocked. -/
theorem Phase.Lacks.blocked (h : phase.Lacks site.pool) (id : TaskId) :
    phase.Blocked { site with watchers := site.watchers ++ [id] } id := by
  have hmem : id ∈ site.watchers ++ [id] := List.mem_append_right _ List.mem_cons_self
  cases phase <;> first | exact ⟨hmem, h⟩ | exact h.elim

/-- What a task comes to that has been given up. -/
def Phase.isLast : Phase → Bool
  | .forget _ | .hangUp _ | .letGo _ _ | .finish _ => true
  | _ => false

theorem Phase.isLast_unwind (phase : Phase) : phase.unwind.isLast = true := by
  cases phase <;> rfl

theorem Phase.Blocked.isLast_eq_false (h : phase.Blocked site id) : phase.isLast = false := by
  cases phase <;> first | rfl | exact h.2.elim

/-- Between a deadline and its consequences no task is blocked. -/
theorem Phase.Blocked.mayStop (h : task.phase.Blocked site id) (hlabel : task.label.isSome) :
    task.mayStop = true := by
  rw [Task.mayStop, hlabel, Bool.true_and]
  split <;> rename_i heq
  iterate 5
    rw [heq] at h
    exact h.2.elim
  rfl

namespace Machine

/-! ## Who runs -/

/-- Who runs, and the tasks by their labels. -/
def helm (m : Machine) : Option TaskId × List (String × TaskId) := (m.running, m.names)

@[simp] theorem helm_wake (m : Machine) (tasks : List TaskId) :
    (m.wake tasks).helm = m.helm := rfl
@[simp] theorem helm_disarm (m : Machine) (id : TaskId) : (m.disarm id).helm = m.helm := rfl
@[simp] theorem helm_nextSample (m : Machine) : m.nextSample.helm = m.helm := rfl
@[simp] theorem helm_log (m : Machine) (log : Log) : { m with log }.helm = m.helm := rfl
@[simp] theorem helm_leases (m : Machine) (leases : List (String × Lease Connection)) :
    { m with leases }.helm = m.helm := rfl
@[simp] theorem helm_modifySite (m : Machine) (i : Nat) (f : Site → Site) :
    (m.modifySite i f).helm = m.helm := rfl
@[simp] theorem helm_putPool (m : Machine) (i : Nat) (pool : Pool Connection) :
    (m.putPool i pool).helm = m.helm := rfl
@[simp] theorem helm_putFactory (m : Machine) (i : Nat) (factory : Factory) :
    (m.putFactory i factory).helm = m.helm := rfl
@[simp] theorem helm_commit (m : Machine) (i : Nat) (pool : Pool Connection) :
    (m.commit i pool).helm = m.helm := rfl

@[simp] theorem helm_abortEvictor (m : Machine) (i : Nat) (evictor : TaskId) :
    (m.abortEvictor i evictor).helm = m.helm := rfl

@[simp] theorem helm_arm (m : Machine) (id : TaskId) (due : Instant) :
    (m.arm id due).helm = m.helm := by
  rw [arm]
  split <;> rfl

@[simp] theorem helm_proceed (m : Machine) (id : TaskId) (phase : Phase) :
    (m.proceed id phase).helm = m.helm := by
  rw [proceed]
  split <;> rfl

@[simp] theorem helm_reclaim (m : Machine) (lease : Lease Connection) :
    (m.reclaim lease).helm = m.helm := by
  rw [reclaim]
  split <;> rfl

@[simp] theorem helm_beginJob (m : Machine) (id : TaskId) (lease : Lease Connection) (job : Job) :
    (m.beginJob id lease job).helm = m.helm := by
  cases job with
  | keep label =>
      simp only [beginJob]
      split <;> simp
  | hold duration fails => simp [beginJob]
  | run statement request => simp [beginJob]

@[simp] theorem helm_takeAnswer (m : Machine) (id : TaskId) (task : Task) (pool : Pool Connection)
    (job : Job) (answer : Except PoolError (Lease Connection)) :
    (m.takeAnswer id task pool job answer).helm = m.helm := by
  cases answer <;> simp [takeAnswer]

theorem tasks_arm (m : Machine) (id : TaskId) (due : Instant) : (m.arm id due).tasks = m.tasks := by
  rw [arm]
  split <;> rfl

theorem sites_arm (m : Machine) (id : TaskId) (due : Instant) : (m.arm id due).sites = m.sites := by
  rw [arm]
  split <;> rfl

/-! ## The task that runs -/

/-- What the task that runs comes to in one part of its work: it goes on, or it is blocked, or it
has ended. -/
structure Goes (id : TaskId) (m m' : Machine) : Prop where
  names : m'.names = m.names
  runs : m'.running = some id ∨ ∀ task', m'.tasks.get? id = some task' →
    ∃ site', m'.sites[task'.pool]? = some site' ∧ task'.phase.Blocked site' id

namespace Goes

theorem of_helm (hrunning : m.running = some id) (h : m'.helm = m.helm) : Goes id m m' where
  names := congrArg Prod.snd h
  runs := .inl ((congrArg Prod.fst h).trans hrunning)

/-- The task has become blocked. -/
theorem suspend (hhelm : m'.helm = m.helm) (htask : m'.tasks.get? id = some task')
    (hsite : m'.sites[task'.pool]? = some site') (hblocked : task'.phase.Blocked site' id) :
    Goes id m m'.suspend where
  names := congrArg Prod.snd hhelm
  runs := by
    refine .inr fun task'' htask'' => ?_
    cases htask.symm.trans htask''
    exact ⟨site', hsite, hblocked⟩

/-- The task goes on when the pool is as it wants it, and watches the pool until then. -/
theorem proceedOrWatch {c : Prop} [Decidable c] {next : Phase} (hrunning : m.running = some id)
    (hhelm : m'.helm = m.helm) (htask : m'.tasks.get? id = some task')
    (hsite : m'.sites[task'.pool]? = some site') (hlacks : ¬ c → task'.phase.Lacks site'.pool) :
    Goes id m (if c then m'.proceed id next else m'.watch task'.pool id) := by
  split
  · exact of_helm hrunning ((helm_proceed _ _ _).trans hhelm)
  · rename_i hc
    have hwatched : (m'.modifySite task'.pool fun site =>
        { site with watchers := site.watchers ++ [id] }).sites[task'.pool]? =
          some { site' with watchers := site'.watchers ++ [id] } := by
      rw [modifySite, List.getElem?_modify_eq, hsite]
      rfl
    exact suspend ((helm_modifySite _ _ _).trans hhelm) htask hwatched ((hlacks hc).blocked id)

theorem ended (hnames : m'.names = m.names) (h : m'.tasks.get? id = none) : Goes id m m' where
  names := hnames
  runs := .inr fun task' htask' => by cases h.symm.trans htask'

theorem conclude (id : TaskId) (m : Machine) (task : Task) (outcome : Outcome) :
    Goes id m (m.conclude id task outcome) := by
  have hnone : (m.remove id).tasks.get? id = none := Registry.get?_erase_self
  rw [Machine.conclude]
  split
  · exact ended rfl hnone
  · exact ended rfl hnone

/-! ### By phases -/

variable (hrunning : m.running = some id) (htask : m.tasks.get? id = some task)
variable (hsite : m.sites[task.pool]? = some site)

include hrunning htask hsite

theorem awaitAnswer {handle : QueueHandle} {deadline : Option Instant} {job : Job}
    (hphase : task.phase = .await handle deadline job) :
    Goes id m (m.awaitAnswer id task site.pool handle deadline job) := by
  rw [Machine.awaitAnswer]
  split
  · exact of_helm hrunning (helm_takeAnswer _ _ _ _ _ _)
  · exact of_helm hrunning (helm_takeAnswer _ _ _ _ _ _)
  · rename_i hreceive
    have hgiven : ∀ lease, site.pool.calls.get? id ≠ some (.given lease) := by
      refine Pool.not_given_of_receive fun lease h => ?_
      rw [hreceive] at h
      cases h
    split
    · exact suspend rfl htask hsite (hphase ▸ hgiven)
    · rename_i timeout htimeout
      dsimp only
      generalize deadline.getD (m.now + timeout) = due
      split
      · exact of_helm hrunning (helm_proceed _ _ _)
      · split
        · refine suspend (by simp) (get?_proceed ((tasks_arm _ _ _).symm ▸ htask) _) ?_ hgiven
          rw [sites_proceed, sites_arm]
          exact hsite
        · refine suspend (by simp) (get?_proceed htask _) ?_ hgiven
          rw [sites_proceed]
          exact hsite

theorem stepCaller {phase : Phase} (hphase : task.phase = phase) :
    Goes id m (m.stepCaller id task site.pool phase) := by
  have hgoes : ∀ {m'}, m'.helm = m.helm → Goes id m m' := fun h => of_helm hrunning h
  cases phase with
  | ask priority job =>
      simp only [Machine.stepCaller]
      split <;> exact hgoes (by simp)
  | await handle deadline job => exact awaitAnswer hrunning htask hsite hphase
  | withdraw handle timeout job => exact hgoes (by simp [Machine.stepCaller])
  | lastLook timeout job =>
      simp only [Machine.stepCaller]
      split <;> exact hgoes (by simp)
  | work lease due job =>
      simp only [Machine.stepCaller]
      split
      · exact hgoes (by simp)
      · exact suspend rfl htask hsite (hphase ▸ trivial)
  | giveBack lease outcome =>
      simp only [Machine.stepCaller]
      split
      · exact hgoes (by simp)
      · split <;> exact hgoes (by simp)
  | discard lease outcome =>
      simp only [Machine.stepCaller]
      split
      · exact hgoes (by simp)
      · split <;> exact hgoes (by simp)
  | letGo lease outcome => exact hgoes (by simp [Machine.stepCaller])
  | forget handle => exact hgoes (by simp [Machine.stepCaller])
  | hangUp outcome =>
      simp only [Machine.stepCaller]
      split <;> exact hgoes (by simp)
  | _ => exact hgoes rfl

theorem stepFactory {phase : Phase} (hphase : task.phase = phase) :
    Goes id m (m.stepFactory id task site phase) := by
  have hgoes : ∀ {m'}, m'.helm = m.helm → Goes id m m' := fun h => of_helm hrunning h
  cases phase with
  | creation episode due =>
      simp only [Machine.stepFactory]
      split
      · exact hgoes (by simp)
      · exact suspend rfl htask hsite (hphase ▸ trivial)
  | validation x episode due =>
      simp only [Machine.stepFactory]
      split
      · exact hgoes (by simp)
      · exact suspend rfl htask hsite (hphase ▸ trivial)
  | destroy x outcome =>
      refine hgoes ?_
      simp only [Machine.stepFactory, helm_proceed]
      split
      · split <;> simp
      · simp
  | destruction episode due limit outcome =>
      simp only [Machine.stepFactory]
      split
      · exact hgoes (by simp)
      · split
        · exact hgoes (by simp)
        · exact suspend rfl htask hsite (hphase ▸ trivial)
  | create | validate => exact hgoes (by simp [Machine.stepFactory])
  | _ => exact hgoes rfl

theorem stepKeeper {phase : Phase} (hattended : site.pool.Attended) (hphase : task.phase = phase) :
    Goes id m (m.stepKeeper id task site phase) := by
  have hgoes : ∀ {m'}, m'.helm = m.helm → Goes id m m' := fun h => of_helm hrunning h
  cases phase with
  | evict due =>
      simp only [Machine.stepKeeper]
      split
      · exact hgoes (by simp)
      · split
        · refine suspend (by simp) (get?_proceed ((tasks_arm _ _ _).symm ▸ htask) _)
            (?_ : _ = some site) trivial
          rw [sites_proceed, sites_arm]
          exact hsite
        · split
          · exact hgoes (by simp)
          · exact suspend rfl htask hsite (hphase ▸ trivial)
  | drainQueue =>
      have hpurged : (m.putPool task.pool site.pool.purge).sites[task.pool]? =
          some { site with pool := site.pool.purge } := by
        rw [putPool, modifySite, List.getElem?_modify_eq, hsite]
        rfl
      refine proceedOrWatch hrunning rfl htask hpurged fun h => hphase ▸ fun hnil => h ?_
      exact (hattended.serves_purge.attended hattended).wf.isEmpty_iff.2 hnil
  | takeEvictor =>
      simp only [Machine.stepKeeper]
      split <;> exact hgoes (by simp)
  | drained evictor => cases evictor <;> exact hgoes (by simp [Machine.stepKeeper])
  | drainLoans =>
      exact proceedOrWatch hrunning rfl htask hsite fun h => hphase ▸ Bool.eq_false_of_not_eq_true h
  | clear | clearDestructions =>
      exact proceedOrWatch hrunning rfl htask hsite fun h => hphase ▸ Nat.pos_of_ne_zero h
  | ready => exact proceedOrWatch hrunning rfl htask hsite fun h => hphase ▸ not_le.1 h
  | drain | sweep => exact hgoes (by simp [Machine.stepKeeper])
  | _ => exact hgoes rfl

/-- What comes of the task that runs. -/
theorem stepTask (hattended : site.pool.Attended) : Goes id m (m.stepTask id task site) := by
  rw [Machine.stepTask]
  split
  · exact conclude id m task _
  all_goals first
    | exact stepCaller hrunning htask hsite rfl
    | exact stepFactory hrunning htask hsite rfl
    | exact stepKeeper hrunning htask hsite hattended rfl

end Goes

end Machine

/-! ## Answers that come -/

/-- The call that a lease is delivered to. -/
def Section.delivers {ρ : Type} : Section ρ → Option CallId
  | .deliver _ _ _ call _ _ => some call
  | _ => none

/-- A delivery gives the lease to its caller, if it awaits one, and changes no other answer. -/
theorem Pool.Attended.given_of_deliver (hp : p.Attended) {now : Instant} {sample : Duration}
    {before after : List (Action Connection)} {l : Lease Connection}
    (h : ((Section.deliver now sample before target l after).run p).calls.get? call =
      some (.given lease)) :
    p.calls.get? call = some (.given lease) ∨ target = call ∧ p.calls.get? call = some {} := by
  obtain ⟨calls, hother, hcall, hdeliver⟩ :=
    ({ p with outbox := before ++ after } : Pool Connection).deliver_cases target l
  have hcalls : ((Section.deliver now sample before target l after).run p).calls = calls := by
    rw [Section.run]
    obtain heq | heq := hdeliver <;> simp only [heq]
    exact (alike_reclaim _ _ _ _).calls
  rw [hcalls] at h
  by_cases heq : call = target
  · subst heq
    rw [hcall] at h
    obtain ⟨answer, hanswer, hresolve⟩ := Option.map_eq_some_iff.1 h
    obtain rfl | ⟨value, rfl⟩ | ⟨error, rfl⟩ := hp.plain hanswer
    · exact .inr ⟨rfl, hanswer⟩
    · exact .inl (hanswer.trans (congrArg some hresolve))
    · cases hresolve
  · exact .inl ((hother call heq).symm.trans h)

/-- A lease only comes as an answer by being delivered to a caller who awaits it. -/
theorem Pool.Attended.given_cases (hp : p.Attended) {x : Section Connection}
    (h : (x.run p).calls.get? call = some (.given lease)) :
    p.calls.get? call = some (.given lease) ∨
      x.delivers = some call ∧ p.calls.get? call = some {} := by
  have hframe := (x.frame p).calls
  cases x with
  | request now target priority =>
      obtain heq | heq := hframe <;> rw [heq] at h
      · exact .inl h
      · obtain ⟨-, hnew⟩ | ⟨-, hthere⟩ := Registry.get?_insert_cases h
        · cases hnew
        · exact .inl hthere
  | hangUp target =>
      replace hframe : _ = p.calls.erase target := hframe
      rw [hframe] at h
      exact .inl (Registry.get?_of_erase h).2
  | withdraw handle timeout =>
      rw [Section.run] at h
      cases hhandle : p.waiting.get? handle with
      | none =>
          rw [withdraw_of_none hhandle] at h
          exact .inl h
      | some target =>
          obtain ⟨waiting, -, heq⟩ := hp.withdraw_eq hhandle timeout
          rw [heq] at h
          obtain ⟨-, hnew⟩ | ⟨-, hthere⟩ := Registry.get?_insert_cases h
          · cases hnew
          · exact .inl hthere
  | deliver now sample before target l after =>
      exact (hp.given_of_deliver h).imp_right (And.imp_left (congrArg some))
  | _ =>
      rw [show _ = p.calls from hframe] at h
      exact .inl h

theorem Turn.delivers_eq_none {s' : Scene} (h : Turn m id task site phase d s')
    {x : Section Connection} (hchange : d.change = some (i, x)) : x.delivers = none := by
  cases h <;> cases hchange <;> rfl

namespace Machine

theorem Move.given_cases (hs : m.scene.Attends) (h : Move m d m') (hp' : m'.pool? i = some p')
    (hgiven : p'.calls.get? call = some (.given lease)) :
    (∃ p, m.pool? i = some p ∧ p.calls.get? call = some (.given lease)) ∨
      ∃ p x, m.pool? i = some p ∧ d.change = some (i, x) ∧ x.delivers = some call ∧
        p.calls.get? call = some {} := by
  cases hp : m.pool? i with
  | none =>
      obtain ⟨-, config, policy, recycling, rfl⟩ := h.of_pool?_none hp hp'
      cases hgiven
  | some p =>
      cases hp'.symm.trans (h.pool? hp)
      obtain ⟨-, heq⟩ | ⟨x, hchange, heq⟩ := d.run_cases i p <;> rw [heq] at hgiven
      · exact .inl ⟨p, rfl, hgiven⟩
      · obtain hgiven | ⟨hdelivers, hopen⟩ :=
          (hs.attended i p ((pool?_eq m i).symm.trans hp)).given_cases hgiven
        · exact .inl ⟨p, rfl, hgiven⟩
        · exact .inr ⟨p, x, rfl, hchange, hdelivers, hopen⟩

/-- A caller to whom a lease is delivered is woken, unless it runs. -/
theorem mem_line_deliver (hopen : site.pool.calls.get? call = some {})
    (outbox : List (Action Connection)) (hrunning : m.running ≠ some call) :
    call ∈ (m.deliver i { site.pool with outbox } call lease).line := by
  have hdeliver : (({ site.pool with outbox } : Pool Connection).deliver call lease).1 = none := by
    rw [Pool.deliver_fst, Pool.deliver, hopen]
    rfl
  rw [deliver]
  split <;> rename_i heq <;> rw [heq] at hdeliver
  · dsimp only
    split
    · rename_i h
      exact absurd h hrunning
    · exact mem_line_wake.2 (.inr List.mem_cons_self)
  · cases hdeliver

/-! ## Tasks that wait -/

/-- A task is not overlooked, goes on running if it runs, and is woken by its answer. -/
structure Spares (id : TaskId) (m m' : Machine) : Prop extends Heeds id m m' where
  running : m.running = some id → m'.running = some id
  names : ∀ label, (label, id) ∈ m'.names → (label, id) ∈ m.names
  given : m.running ≠ some id → ∀ (i : Nat) (lease : Lease Connection) (p' : Pool Connection),
    m'.pool? i = some p' → p'.calls.get? id = some (.given lease) →
    (∃ p, m.pool? i = some p ∧ p.calls.get? id = some (.given lease)) ∨ id ∈ m'.line

/-- No lease is delivered in the move. -/
theorem Spares.of_move (hs : m.scene.Attends) (hmove : Move m d m')
    (hdelivers : ∀ i x, d.change = some (i, x) → x.delivers = none) (hheeds : Heeds id m m')
    (hrunning : m.running = some id → m'.running = some id)
    (hnames : ∀ label, (label, id) ∈ m'.names → (label, id) ∈ m.names) : Spares id m m' where
  toHeeds := hheeds
  running := hrunning
  names := hnames
  given _ i lease p' hp' hgiven := by
    obtain h | ⟨p, x, -, hchange, hdeliver, -⟩ := hmove.given_cases hs hp' hgiven
    · exact .inl h
    · cases (hdelivers i x hchange).symm.trans hdeliver

/-- The task waits for something if it waits: it runs, is in line or is blocked. -/
structure Tended (m : Machine) (id : TaskId) (task : Task) : Prop where
  waits : m.running = some id ∨ id ∈ m.line ∨
    ∃ site, m.sites[task.pool]? = some site ∧ task.phase.Blocked site id
  /-- While it waits it can be given up, unless it has no label. -/
  stops : m.running = some id ∨ (task.label.isSome = true → task.mayStop = true)
  /-- A task that is to be given up, or can be named to be, still has its label or is on its way
  out. -/
  called : (task.cancelled = true ∨ ∃ label, (label, id) ∈ m.names) →
    task.label.isSome = true ∨ m.running = some id ∧ task.phase.isLast = true

theorem Heeds.blocked (h : Heeds id m m') (hsite : m.sites[i]? = some site)
    (hblocked : phase.Blocked site id)
    (hgiven : ∀ site' lease, m'.sites[i]? = some site' →
      site'.pool.calls.get? id = some (.given lease) →
      site.pool.calls.get? id = some (.given lease) ∨ id ∈ m'.line) :
    id ∈ m'.line ∨ ∃ site', m'.sites[i]? = some site' ∧ phase.Blocked site' id := by
  obtain ⟨site', hsite', hwatches⟩ := h.watches i site hsite
  replace hgiven := fun lease => hgiven site' lease hsite'
  suffices hsuff : id ∈ m'.line ∨ phase.Blocked site' id from
    hsuff.imp_right fun h => ⟨site', hsite', h⟩
  have hwatch : id ∈ site.watchers ∧ phase.Lacks site.pool →
      id ∈ m'.line ∨ id ∈ site'.watchers ∧ phase.Lacks site'.pool := by
    rintro ⟨hmem, hlacks⟩
    exact (hwatches hmem).imp_right (And.imp_right hlacks.agrees)
  cases phase with
  | await handle deadline job =>
      by_cases hline : id ∈ m'.line
      · exact .inl hline
      · exact .inr fun lease h => hblocked lease ((hgiven lease h).resolve_right hline)
  | work | creation | validation | destruction => exact .inr trivial
  | evict due =>
      cases due with
      | none => exact hwatch hblocked
      | some due => exact .inr trivial
  | _ => exact hwatch hblocked

theorem Tended.spared (h : m.Tended id task) (hspares : Spares id m m') : m'.Tended id task where
  waits := by
    obtain hrunning | hline | ⟨site, hsite, hblocked⟩ := h.waits
    · exact .inl (hspares.running hrunning)
    · exact .inr (.inl (hspares.line hline))
    · by_cases hrunning : m.running = some id
      · exact .inl (hspares.running hrunning)
      · refine .inr (hspares.blocked hsite hblocked fun site' lease hsite' hgiven => ?_)
        obtain ⟨p, hp, h⟩ | h :=
          hspares.given hrunning task.pool lease site'.pool (pool?_of_site hsite') hgiven
        · cases (pool?_of_site hsite).symm.trans hp
          exact .inl h
        · exact .inr h
  stops := h.stops.imp_left hspares.running
  called hcalled := by
    have hformer := h.called (hcalled.imp_right (Exists.imp hspares.names))
    exact hformer.imp_right (And.imp_left hspares.running)

end Machine

end PooledSql
