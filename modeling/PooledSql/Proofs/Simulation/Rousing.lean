import PooledSql.Proofs.Simulation.Attendance

/-!
# Rousing

A task that waits for a change of a pool is a watcher of its site until a critical section puts it
in line. `Machine.Heeds` says of a task and two machines that the task is not overlooked from one to
the other: it stays in line, and as long as it is not put there it goes on watching a pool in which
nothing has changed that a task can wait for. Every operation of the machine is of this kind for all
tasks but its own.
-/

namespace PooledSql

open Machine

variable {m m' m₀ : Machine} {id other : TaskId} {task : Task} {site : Site} {i : Nat}
variable {pool : Pool Connection}

/-- What a task can wait for is the same in both pools. -/
structure Pool.Agrees (p p' : Pool Connection) : Prop where
  config : p'.config = p.config
  waiting : p'.waiting.toList = p.waiting.toList
  loans : p'.loans = p.loans
  creating : p'.creating = p.creating
  destroying : p'.destroying = p.destroying
  available : p'.available = p.available

namespace Pool.Agrees

variable {p p' p'' : Pool Connection}

theorem refl (p : Pool Connection) : p.Agrees p := ⟨rfl, rfl, rfl, rfl, rfl, rfl⟩

theorem trans (h : p.Agrees p') (h' : p'.Agrees p'') : p.Agrees p'' where
  config := h'.config.trans h.config
  waiting := h'.waiting.trans h.waiting
  loans := h'.loans.trans h.loans
  creating := h'.creating.trans h.creating
  destroying := h'.destroying.trans h.destroying
  available := h'.available.trans h.available

/-- The answers that callers await are not waited for in this way, nor are actions. -/
theorem of_eq (h : p' = { p with calls := p'.calls, outbox := p'.outbox }) : p.Agrees p' := by
  rw [h]
  exact ⟨rfl, rfl, rfl, rfl, rfl, rfl⟩

end Pool.Agrees

theorem Pool.agrees_hangUp (p : Pool Connection) (call : CallId) : p.Agrees (p.hangUp call).2 :=
  ⟨rfl, rfl, rfl, rfl, rfl, rfl⟩

/-- Where every caller in the queue is there, purging changes nothing. -/
theorem Pool.Attended.agrees_purge (h : pool.Attended) : pool.Agrees pool.purge := by
  refine ⟨rfl, ?_, rfl, rfl, rfl, rfl⟩
  have hall : ∀ call ∈ pool.waiting.toList, pool.isPending call = true := fun call hcall =>
    h.isPending hcall
  exact (h.wf.toList_retain _).trans (List.filter_eq_self.2 hall)

namespace Machine

/-! ## The line -/

theorem mem_line_wake {tasks : List TaskId} :
    id ∈ (m.wake tasks).line ↔ id ∈ m.line ∨ id ∈ tasks := by
  rw [wake]
  generalize m.line = line
  induction tasks generalizing line with
  | nil => simp
  | cons task tasks ih =>
      rw [List.foldl_cons, ih, List.mem_cons]
      split
      · rename_i hmem
        rw [List.contains_iff_mem] at hmem
        constructor
        · exact fun h => h.imp_right .inr
        · rintro (h | rfl | h)
          · exact .inl h
          · exact .inl hmem
          · exact .inr h
      · rw [List.mem_append, List.mem_singleton, or_assoc]

end Machine

/-- The task is not overlooked from one machine to the other. -/
structure Machine.Heeds (id : TaskId) (m m' : Machine) : Prop where
  line : id ∈ m.line → id ∈ m'.line
  watches : ∀ (i : Nat) (site : Site), m.sites[i]? = some site →
    ∃ site', m'.sites[i]? = some site' ∧ (id ∈ site.watchers →
      id ∈ m'.line ∨ id ∈ site'.watchers ∧ site.pool.Agrees site'.pool)

namespace Machine.Heeds

theorem refl (id : TaskId) (m : Machine) : Heeds id m m :=
  ⟨fun h => h, fun _ site h => ⟨site, h, fun hmem => .inr ⟨hmem, .refl _⟩⟩⟩

theorem trans (h : Heeds id m₀ m) (h' : Heeds id m m') : Heeds id m₀ m' := by
  refine ⟨fun hmem => h'.line (h.line hmem), fun i site hsite => ?_⟩
  obtain ⟨site', hsite', hwatches⟩ := h.watches i site hsite
  obtain ⟨site'', hsite'', hwatches'⟩ := h'.watches i site' hsite'
  refine ⟨site'', hsite'', fun hmem => ?_⟩
  obtain hline | ⟨hmem', hagrees⟩ := hwatches hmem
  · exact .inl (h'.line hline)
  · exact (hwatches' hmem').imp_right (And.imp_right hagrees.trans)

/-- Sites and line stay as they are. -/
theorem still (h : Heeds id m₀ m) (hsites : m'.sites = m.sites) (hline : m'.line = m.line) :
    Heeds id m₀ m' := by
  refine h.trans ⟨fun hmem => hline ▸ hmem, fun i site hsite => ?_⟩
  exact ⟨site, hsites ▸ hsite, fun hmem => .inr ⟨hmem, .refl _⟩⟩

/-! ## Operations -/

theorem wake (h : Heeds id m₀ m) (tasks : List TaskId) : Heeds id m₀ (m.wake tasks) := by
  refine h.trans ⟨fun hmem => mem_line_wake.2 (.inl hmem), fun i site hsite => ?_⟩
  exact ⟨site, hsite, fun hmem => .inr ⟨hmem, .refl _⟩⟩

theorem suspend (h : Heeds id m₀ m) : Heeds id m₀ m.suspend := h.still rfl rfl

theorem arm (h : Heeds id m₀ m) (task : TaskId) (due : Instant) :
    Heeds id m₀ (m.arm task due) := by
  rw [Machine.arm]
  split
  · exact h.still rfl rfl
  · exact h

theorem disarm (h : Heeds id m₀ m) (task : TaskId) : Heeds id m₀ (m.disarm task) :=
  h.still rfl rfl

theorem nextSample (h : Heeds id m₀ m) : Heeds id m₀ m.nextSample := h.still rfl rfl

theorem log (h : Heeds id m₀ m) (log : Log) : Heeds id m₀ { m with log } := h.still rfl rfl

theorem leases (h : Heeds id m₀ m) (leases : List (String × Lease Connection)) :
    Heeds id m₀ { m with leases } :=
  h.still rfl rfl

theorem proceed (h : Heeds id m₀ m) (task : TaskId) (phase : Phase) :
    Heeds id m₀ (m.proceed task phase) := by
  rw [Machine.proceed]
  split
  · exact h.still rfl rfl
  · exact h

/-- A site is changed, but not its watchers nor what they wait for. -/
theorem modifySite (h : Heeds id m₀ m) {f : Site → Site}
    (hwatchers : ∀ site : Site, id ∈ site.watchers → id ∈ (f site).watchers)
    (hpool : ∀ site, m.sites[i]? = some site → site.pool.Agrees (f site).pool) :
    Heeds id m₀ (m.modifySite i f) := by
  refine h.trans ⟨fun hmem => hmem, fun j site hsite => ?_⟩
  rw [Machine.modifySite, List.getElem?_modify, hsite]
  refine ⟨_, rfl, fun hmem => .inr ?_⟩
  split
  · rename_i hij
    subst hij
    exact ⟨hwatchers site hmem, hpool site hsite⟩
  · exact ⟨hmem, .refl _⟩

theorem putPool (h : Heeds id m₀ m)
    (hpool : ∀ site, m.sites[i]? = some site → site.pool.Agrees pool) :
    Heeds id m₀ (m.putPool i pool) :=
  h.modifySite (fun _ hmem => hmem) hpool

theorem putFactory (h : Heeds id m₀ m) (i : Nat) (factory : Factory) :
    Heeds id m₀ (m.putFactory i factory) :=
  h.modifySite (fun _ hmem => hmem) fun _ _ => .refl _

theorem evictor (h : Heeds id m₀ m) (i : Nat) (evictor : EvictorHandle) :
    Heeds id m₀ (m.modifySite i fun site => { site with evictor }) :=
  h.modifySite (fun _ hmem => hmem) fun _ _ => .refl _

theorem abortEvictor (h : Heeds id m₀ m) (i : Nat) (evictor : TaskId) :
    Heeds id m₀ (m.abortEvictor i evictor) :=
  (h.evictor i _).wake _

/-- Whoever watches the pool is put in line. -/
theorem commit (h : Heeds id m₀ m) (i : Nat) (pool : Pool Connection) :
    Heeds id m₀ (m.commit i pool) := by
  refine h.trans ⟨fun hmem => mem_line_wake.2 (.inl hmem), fun j site hsite => ?_⟩
  have hsites : (m.commit i pool).sites = m.sites.modify i fun site =>
    { site with pool, watchers := [] } := rfl
  rw [hsites, List.getElem?_modify, hsite]
  refine ⟨_, rfl, fun hmem => ?_⟩
  split
  · rename_i hij
    subst hij
    refine .inl (mem_line_wake.2 (.inr ?_))
    rw [hsite]
    exact hmem
  · exact .inr ⟨hmem, .refl _⟩

theorem watch (h : Heeds id m₀ m) (i : Nat) (task : TaskId) : Heeds id m₀ (m.watch i task) := by
  refine Heeds.suspend (h.modifySite (fun site hmem => ?_) fun site hsite => ?_)
  · exact List.mem_append_left _ hmem
  · exact .refl _

/-- All other watchers go on watching. -/
theorem filterWatchers (h : Heeds id m₀ m) (hne : id ≠ other)
    (hsites : m'.sites = m.sites.map fun site =>
      { site with watchers := site.watchers.filter (· != other) })
    (hline : m'.line = m.line) : Heeds id m₀ m' := by
  refine h.trans ⟨fun hmem => hline ▸ hmem, fun i site hsite => ?_⟩
  rw [hsites, List.getElem?_map, hsite]
  refine ⟨_, rfl, fun hmem => .inr ⟨List.mem_filter.2 ⟨hmem, ?_⟩, .refl _⟩⟩
  exact bne_iff_ne.2 hne

theorem remove (h : Heeds id m₀ m) (hne : id ≠ other) : Heeds id m₀ (m.remove other) :=
  h.filterWatchers hne rfl rfl

theorem giveUp (h : Heeds id m₀ m) (hne : id ≠ other) (task : Task) :
    Heeds id m₀ (m.giveUp other task) :=
  h.filterWatchers hne rfl rfl

theorem conclude (h : Heeds id m₀ m) (hne : id ≠ other) (task : Task) (outcome : Outcome) :
    Heeds id m₀ (m.conclude other task outcome) := by
  rw [Machine.conclude]
  split
  · exact (h.remove hne).log _
  · exact h.remove hne

theorem reclaim (h : Heeds id m₀ m) (lease : Lease Connection) :
    Heeds id m₀ (m.reclaim lease) := by
  rw [Machine.reclaim]
  split
  · exact (h.commit _ _).nextSample
  · exact h

theorem spawn (h : Heeds id m₀ m) (task : Task) : Heeds id m₀ (m.spawn task) :=
  (h.wake [m.nextTask]).still rfl rfl

/-! ## Actions -/

theorem deliver (h : Heeds id m₀ m) (hsite : m.sites[i]? = some site)
    (outbox : List (Action Connection)) (call : CallId) (lease : Lease Connection) :
    Heeds id m₀ (m.deliver i { site.pool with outbox } call lease) := by
  rw [Machine.deliver]
  split
  · rename_i pool hdeliver
    have hagrees : ∀ site, m.sites[i]? = some site → site.pool.Agrees pool := by
      intro site' hsite'
      cases hsite.symm.trans hsite'
      obtain ⟨calls, -, -, heq | heq⟩ :=
        ({ site.pool with outbox } : Pool Connection).deliver_cases call lease <;>
        cases heq.symm.trans hdeliver
      exact .of_eq rfl
    dsimp only
    split
    · exact h.putPool hagrees
    · exact (h.putPool hagrees).wake _
  · exact (h.commit _ _).nextSample

theorem launch (h : Heeds id m₀ m) (hsite : m.sites[i]? = some site)
    (outbox : List (Action Connection)) (action : Action Connection) (phase : Phase) :
    Heeds id m₀ (m.launch i { site.pool with outbox } action phase) := by
  rw [Machine.launch]
  split
  · refine (h.putPool fun site' hsite' => ?_).spawn _
    cases hsite.symm.trans hsite'
    exact .of_eq rfl
  · exact h.commit _ _

theorem perform (h : Heeds id m₀ m) (hsite : m.sites[i]? = some site)
    (outbox : List (Action Connection)) (action : Action Connection) :
    Heeds id m₀ (m.perform i { site.pool with outbox } action) := by
  cases action with
  | deliver call lease => exact h.deliver hsite outbox call lease
  | evict => exact (h.launch hsite outbox _ _).evictor _ _
  | create | validate | destroy => exact h.launch hsite outbox _ _

/-! ## Turns -/

theorem takeAnswer (h : Heeds id m₀ m) (hsite : m.sites[i]? = some site) (hpool : task.pool = i)
    {call : CallId} {receipt : Deferred.Receipt PoolError (Lease Connection)}
    (hreceive : site.pool.receive call = (receipt, pool)) (job : Job)
    (answer : Except PoolError (Lease Connection)) :
    Heeds id m₀ (m.takeAnswer call task pool job answer) := by
  have hput : Heeds id m₀ (m.putPool task.pool (pool.hangUp call).2) := by
    refine h.putPool fun site' hsite' => ?_
    rw [hpool] at hsite'
    cases hsite.symm.trans hsite'
    rw [hangUp_receive hreceive]
    exact site.pool.agrees_hangUp call
  cases answer with
  | error e => exact hput.proceed _ _
  | ok lease =>
      cases job with
      | keep label =>
          simp only [Machine.takeAnswer, beginJob]
          split <;> exact ((hput.disarm call).leases _).proceed _ _
      | hold duration fails => exact ((hput.disarm _).arm _ _).proceed _ _
      | run statement request => exact (((hput.disarm call).log _).arm _ _).proceed _ _

theorem awaitAnswer (h : Heeds id m₀ m) (hsite : m.sites[task.pool]? = some site)
    (call : CallId) (handle : QueueHandle) (deadline : Option Instant) (job : Job) :
    Heeds id m₀ (m.awaitAnswer call task site.pool handle deadline job) := by
  rw [Machine.awaitAnswer]
  split
  · exact h.takeAnswer hsite rfl ‹_› job _
  · exact h.takeAnswer hsite rfl ‹_› job _
  · split
    · exact h.suspend
    · dsimp only
      split
      · exact h.proceed _ _
      · split
        · exact ((h.arm _ _).proceed _ _).suspend
        · exact (h.proceed _ _).suspend

theorem stepCaller (h : Heeds id m₀ m) (hsite : m.sites[task.pool]? = some site) (call : CallId)
    (phase : Phase) : Heeds id m₀ (m.stepCaller call task site.pool phase) := by
  cases phase with
  | ask priority job =>
      simp only [Machine.stepCaller]
      split <;> exact (h.commit _ _).proceed _ _
  | await handle deadline job => exact h.awaitAnswer hsite call handle deadline job
  | withdraw handle timeout job => exact (h.commit _ _).proceed _ _
  | lastLook timeout job =>
      simp only [Machine.stepCaller]
      split
      · exact h.takeAnswer hsite rfl ‹_› job _
      · exact h.proceed _ _
  | work lease due job =>
      simp only [Machine.stepCaller]
      split
      · exact h.proceed _ _
      · exact h.suspend
  | giveBack lease outcome =>
      simp only [Machine.stepCaller]
      split
      · exact h.proceed _ _
      · split
        · exact (h.commit _ _).nextSample.proceed _ _
        · exact (h.commit _ _).nextSample.proceed _ _
        · exact (h.commit _ _).proceed _ _
  | discard lease outcome =>
      simp only [Machine.stepCaller]
      split
      · exact h.proceed _ _
      · split <;> exact (h.commit _ _).proceed _ _
  | letGo lease outcome => exact (h.reclaim lease).proceed _ _
  | forget handle => exact (h.commit _ _).proceed _ _
  | hangUp outcome =>
      have hput : Heeds id m₀ (m.putPool task.pool (site.pool.hangUp call).2) := by
        refine h.putPool fun site' hsite' => ?_
        cases hsite.symm.trans hsite'
        exact site.pool.agrees_hangUp call
      simp only [Machine.stepCaller]
      split <;> rename_i heq <;> rw [heq] at hput <;> exact hput.proceed _ _
  | _ => exact h

theorem stepFactory (h : Heeds id m₀ m) (call : TaskId) (task : Task) (site : Site)
    (phase : Phase) : Heeds id m₀ (m.stepFactory call task site phase) := by
  cases phase with
  | create => exact ((h.putFactory _ _).arm _ _).proceed _ _
  | creation episode due =>
      simp only [Machine.stepFactory]
      split
      · exact (((h.log _).putFactory _ _).commit _ _).proceed _ _
      · exact h.suspend
  | validate x => exact (((h.log _).putFactory _ _).arm _ _).proceed _ _
  | validation x episode due =>
      simp only [Machine.stepFactory]
      split
      · exact (h.commit _ _).proceed _ _
      · exact h.suspend
  | destroy x outcome =>
      simp only [Machine.stepFactory]
      refine Heeds.proceed ?_ _ _
      split
      · split
        · exact (((h.log _).putFactory _ _).arm _ _).arm _ _
        · exact ((h.log _).putFactory _ _).arm _ _
      · exact ((h.log _).putFactory _ _).arm _ _
  | destruction episode due limit outcome =>
      simp only [Machine.stepFactory]
      split
      · exact ((h.disarm _).commit _ _).proceed _ _
      · split
        · exact ((h.disarm _).commit _ _).proceed _ _
        · exact h.suspend
  | _ => exact h

theorem stepKeeper (h : Heeds id m₀ m) (hsite : m.sites[task.pool]? = some site)
    (hattended : site.pool.Attended) (call : TaskId) (phase : Phase) :
    Heeds id m₀ (m.stepKeeper call task site phase) := by
  cases phase with
  | evict due =>
      simp only [Machine.stepKeeper]
      split
      · exact h.proceed _ _
      · split
        · exact ((h.arm _ _).proceed _ _).suspend
        · split
          · exact (h.commit _ _).proceed _ _
          · exact h.suspend
  | drain => exact (h.commit _ _).proceed _ _
  | drainQueue =>
      have hput : Heeds id m₀ (m.putPool task.pool site.pool.purge) := by
        refine h.putPool fun site' hsite' => ?_
        cases hsite.symm.trans hsite'
        exact hattended.agrees_purge
      simp only [Machine.stepKeeper]
      split
      · exact hput.proceed _ _
      · exact hput.watch _ _
  | takeEvictor =>
      simp only [Machine.stepKeeper]
      split
      · exact ((h.commit _ _).evictor _ _).proceed _ _
      · exact (h.commit _ _).proceed _ _
  | drained evictor =>
      cases evictor with
      | none => exact h.proceed _ _
      | some evictor => exact (h.abortEvictor _ evictor).proceed _ _
  | sweep => exact (h.commit _ _).proceed _ _
  | drainLoans | clear | clearDestructions | ready =>
      simp only [Machine.stepKeeper]
      split
      · exact h.proceed _ _
      · exact h.watch _ _
  | _ => exact h

/-- A part of the work of one task overlooks no other one. -/
theorem stepTask (h : Heeds id m₀ m) (hsite : m.sites[task.pool]? = some site)
    (hattended : site.pool.Attended) (hne : id ≠ other) :
    Heeds id m₀ (m.stepTask other task site) := by
  rw [Machine.stepTask]
  split
  · exact h.conclude hne _ _
  all_goals first
    | exact h.stepCaller hsite other _
    | exact h.stepFactory other task site _
    | exact h.stepKeeper hsite hattended other _

end Machine.Heeds

end PooledSql
