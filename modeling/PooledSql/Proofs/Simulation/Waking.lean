import PooledSql.Proofs.Simulation.Alertness

/-!
# Waking

Runs of the one thread, `Machine.Threaded`, are made of the steps that the scheduler takes, of
commands that may come at any time, and of jumps of the clock. A thread that stands still has left
no task behind: whoever is blocked in a pool has a reason that the pool shows.
-/

namespace PooledSql

open Machine

variable {m m' : Machine} {id : TaskId} {task : Task} {site : Site} {p : Pool Connection}
variable {command : Command}

/-- The pool and the lease of the command are there. -/
def Command.Applies (m : Machine) : Command → Prop
  | .acquire pool _ _ | .use pool _ _ _ _ | .drain pool _ | .clear pool _ | .ready pool _
  | .start pool | .recycle pool _ => pool < m.sites.length
  | .call db _ _ _ => db.pool < m.sites.length
  | .release pool label | .destroy pool label =>
    pool < m.sites.length ∧ (m.leases.lookup label).isSome = true
  | .drop label => (m.leases.lookup label).isSome = true
  | .sicken _ | .cancel _ => True

/-- What the pool shows of a task that is blocked: a caller is queued and awaits its answer, and
what drains the pool, clears it or waits for its minimum has not got it yet. Other tasks wait for a
time. -/
def Phase.HasReason (p : Pool Connection) (id : TaskId) : Phase → Prop
  | .await _ _ _ => id ∈ p.waiting.toList ∧ p.isPending id = true
  | .work _ _ _ | .creation _ _ | .validation _ _ _ | .destruction _ _ _ _ | .evict (some _) => True
  | phase => phase.Lacks p

namespace Machine

/-- Runs of the one thread. Commands may come while a task runs. -/
inductive Threaded : Machine → Prop where
  | idle (server : Server) (samples : List Duration) : Threaded { server, samples }
  /-- The scheduler takes its next step. -/
  | step {m m' : Machine} (h : Threaded m) (hstep : m.step? = some m') : Threaded m'
  | issue {m : Machine} {command : Command} (h : Threaded m) (happlies : command.Applies m) :
      Threaded (m.issue command)
  | build {m : Machine} (h : Threaded m) (config : PoolConfig) (policy : EvictionPolicy)
      (recycling : Option RecyclingConfig) (factory : Factory) :
      Threaded (m.build config policy recycling factory)
  /-- The clock moves and tasks are woken whose time has come. -/
  | advance {m : Machine} (h : Threaded m) (now : Instant) : Threaded (m.advance now)
  /-- The clock moves and nobody is woken. -/
  | clock {m : Machine} (h : Threaded m) (now : Instant) : Threaded { m with now }

/-! ## Commands -/

theorem takeLease_of_isSome {label : String} (h : (m.leases.lookup label).isSome = true) :
    ∃ lease rest, m.takeLease label = some (lease, rest) := by
  obtain ⟨lease, hlease⟩ := Option.isSome_iff_exists.1 h
  exact ⟨lease, _, by rw [takeLease, hlease, Option.map_some]⟩

theorem pool_lt_of_applies {rest : Machine} (happlies : command.Applies m)
    (htask : m.taskFor command = some (task, rest)) : task.pool < m.sites.length := by
  cases command with
  | acquire | use | call | drain | clear | ready =>
      cases htask
      exact happlies
  | release pool label | destroy pool label =>
      obtain ⟨⟨lease, m'⟩, -, heq⟩ := Option.map_eq_some_iff.1 htask
      cases heq
      exact happlies.1
  | _ => cases htask

theorem Alert.issue (h : m.Alert) (happlies : command.Applies m) : (m.issue command).Alert := by
  rw [Machine.issue]
  split
  · rename_i htask
    exact h.begin htask (pool_lt_of_applies happlies htask)
  · rename_i hnone
    cases command with
    | release pool label | destroy pool label =>
        obtain ⟨lease, rest, htake⟩ := takeLease_of_isSome happlies.2
        rw [taskFor, htake] at hnone
        cases hnone
    | drop label =>
        obtain ⟨lease, rest, htake⟩ := takeLease_of_isSome happlies
        rw [act, htake]
        exact (h.drop htake).flush
    | sicken label => exact h.sicken label
    | cancel label => exact h.cancel label
    | start pool =>
        rw [act]
        split
        · rename_i hsite
          exact (h.start hsite).flush
        · exact h
    | recycle pool config =>
        rw [act]
        split
        · rename_i hsite
          exact (h.recycle (some config) hsite).flush
        · exact h
    | _ => cases hnone

/-! ## Runs -/

theorem Threaded.alert (h : Threaded m) : m.Alert := by
  induction h with
  | idle server samples =>
      have hmove : Move { server } {} { server, samples } :=
        .elapse ⟨rfl, rfl, rfl, rfl, rfl, rfl, rfl, le_rfl, rfl⟩
      exact ⟨⟨_, (FreeRun.idle server).move hmove⟩, rfl,
        fun _ task htask => absurd htask.symm (Option.some_ne_none task),
        fun _ _ hmem => absurd hmem List.not_mem_nil⟩
  | step _ hstep ih => exact ih.step hstep
  | issue _ happlies ih => exact ih.issue happlies
  | build _ config policy recycling factory ih => exact ih.build config policy recycling factory
  | advance _ now ih => exact ih.advance now
  | clock _ now ih => exact ih.clock now

theorem Threaded.run (h : Threaded m) (fuel : Nat) : Threaded (m.run fuel) := by
  induction fuel generalizing m with
  | zero => exact h
  | succ fuel ih =>
      rw [Machine.run]
      split
      · rename_i hstep
        exact ih (h.step hstep)
      · exact h

theorem Threaded.rest (h : Threaded m) : Threaded m.rest := h.run patience

theorem Threaded.sleepUntil (h : Threaded m) (target : Instant) (fuel : Nat) :
    Threaded (sleepUntil target fuel m) := by
  induction fuel generalizing m with
  | zero => exact h.clock target
  | succ fuel ih =>
      rw [Machine.sleepUntil]
      split
      · rename_i due hdue
        split
        · exact ih (h.advance due).rest
        · exact h.clock target
      · exact h.clock target

theorem Threaded.sleep (h : Threaded m) (d : Duration) : Threaded (m.sleep d) :=
  h.rest.sleepUntil _ _

/-! ## Standstill -/

theorem outbox_of_firstAction_eq_none {k : Nat} {sites : List Site}
    (h : firstAction k sites = none) (hsite : site ∈ sites) : site.pool.outbox = [] := by
  induction sites generalizing k with
  | nil => cases hsite
  | cons other rest ih =>
      rw [firstAction] at h
      split at h
      · cases h
      · rename_i houtbox
        obtain rfl | hmem := List.mem_cons.1 hsite
        · exact houtbox
        · exact ih h hmem

/-- Nobody runs and nobody is in line, and every action has been performed. -/
structure IsStill (m : Machine) : Prop where
  running : m.running = none
  line : m.line = []
  outbox : ∀ (i : Nat) (site : Site), m.sites[i]? = some site → site.pool.outbox = []

theorem isStill_of_step? (hruntime : m.runtime = true) (hstill : m.step? = none) : m.IsStill := by
  rw [step?] at hstill
  split at hstill
  · cases hstill
  · rename_i hfirst
    split at hstill
    · split at hstill
      · split at hstill <;> cases hstill
      · cases hstill
    · rename_i hidle
      split at hstill
      · cases hstill
      · rename_i hline
        refine ⟨hidle, ?_, fun i site hsite => ?_⟩
        · cases h : m.line with
          | nil => rfl
          | cons id line => exact absurd h (hline id line hruntime)
        · exact outbox_of_firstAction_eq_none hfirst (List.mem_of_getElem? hsite)

/-- A request stands in the queue when no lease is on its way or has come. -/
theorem reason_of_await {handle : QueueHandle} (hattended : p.Attended)
    (hstanding : p.Standing id (some handle)) (houtbox : p.outbox = [])
    (hgiven : ∀ lease, p.calls.get? id ≠ some (.given lease)) :
    id ∈ p.waiting.toList ∧ p.isPending id = true := by
  cases hstanding with
  | queued hhandle hqueue =>
      have hmem := hattended.wf.mem_of_get? hqueue
      exact ⟨hmem, hattended.isPending hmem⟩
  | owed hleft howed hopen =>
      rw [Pool.owed, houtbox] at howed
      cases howed
  | given hleft hlease => exact absurd hlease (hgiven _)
  | refused hhandle => cases hhandle

/-- What blocks a task when nobody goes on any more is a reason that the pool shows. -/
theorem hasReason_of_blocked (hattended : site.pool.Attended) (houtbox : site.pool.outbox = [])
    (hstands : task.phase.Stands site.pool id) (hblocked : task.phase.Blocked site id) :
    task.phase.HasReason site.pool id := by
  cases hphase : task.phase with
  | await handle deadline job =>
      rw [hphase] at hstands hblocked
      exact reason_of_await hattended hstands houtbox hblocked
  | work | creation | validation | destruction => trivial
  | evict due =>
      cases due with
      | none =>
          rw [hphase] at hblocked
          exact hblocked.2
      | some due => trivial
  | _ =>
      rw [hphase] at hblocked
      exact hblocked.2

/-- No wake-up is missed: when the thread stands still, whoever is blocked has a reason. -/
theorem no_missed_wake_up (h : Threaded m) (hstill : m.step? = none)
    (htask : m.tasks.get? id = some task) :
    ∃ p, m.pool? task.pool = some p ∧ task.phase.HasReason p id := by
  have halert := h.alert
  have hstill := isStill_of_step? halert.runtime hstill
  obtain hrunning | hline | ⟨site, hsite, hblocked⟩ := (halert.tended id task htask).waits
  · cases hstill.running.symm.trans hrunning
  · rw [hstill.line] at hline
    cases hline
  · have hattended := halert.attends.attended _ _ (pools_of_site hsite)
    have hstands := halert.attends.stands_site htask hsite
    exact ⟨site.pool, pool?_of_site hsite,
      hasReason_of_blocked hattended (hstill.outbox _ _ hsite) hstands hblocked⟩

/-- A pool whose one connection is leased, a caller who waits for it and one who drains the pool. -/
def crowded : Machine :=
  let fresh := build { server := .echo 0 } { max := 1 } .standard none {}
  let leased := (fresh.issue (.acquire 0 "first" 0)).rest
  ((leased.issue (.acquire 0 "second" 0)).issue (.drain 0 "drain")).rest

theorem threaded_crowded : Threaded crowded := by
  have hidle : Threaded { server := .echo 0 } := .idle (.echo 0) []
  have hfresh := hidle.build { max := 1 } .standard none {}
  refine Threaded.rest (.issue (.issue (Threaded.rest (.issue hfresh ?_)) ?_) ?_) <;> cbv

/-- The caller waits for its lease and the other one for the queue to be empty. -/
theorem no_missed_wake_up_crowded : crowded.step? = none ∧
    (∃ caller p, crowded.tasks.get? 2 = some caller ∧ crowded.pool? caller.pool = some p ∧
      caller.phase.HasReason p 2) ∧
    ∃ p, crowded.tasks.get? 3 = some ⟨0, some "drain", .drainQueue, false⟩ ∧
      crowded.pool? 0 = some p ∧ Phase.drainQueue.HasReason p 3 := by
  have hstill : crowded.step? = none := by cbv
  have hcaller : (crowded.tasks.get? 2).isSome = true := by cbv
  obtain ⟨caller, hcaller⟩ := Option.isSome_iff_exists.1 hcaller
  obtain ⟨p, hp, hqueued⟩ := no_missed_wake_up threaded_crowded hstill hcaller
  have hdrain : crowded.tasks.get? 3 = some ⟨0, some "drain", .drainQueue, false⟩ := by cbv
  obtain ⟨p', hp', hwaiting⟩ := no_missed_wake_up threaded_crowded hstill hdrain
  exact ⟨hstill, ⟨caller, p, hcaller, hp, hqueued⟩, p', hdrain, hp', hwaiting⟩

end Machine

end PooledSql
