import PooledSql.Proofs.Pool.Requests
import PooledSql.Proofs.Simulation.Audit

/-!
# Attendance

A task knows of its request only the handle, and that time is up when it is. `Phase.Stands` says
what this tells of the request in the pool, and `Scene.Attends` that it is so for all tasks and
that no queue holds a request that is not awaited. Every move keeps this: the section of a move is
about the request of the task that makes it or about none, and minds those of all others.
-/

namespace PooledSql

open Machine

variable {m m' : Machine} {s s' : Scene} {id : TaskId} {task task' : Task} {site : Site}
variable {phase : Phase} {d : Deed} {trace : List Deed} {i : Nat} {p p' : Pool Connection}
variable {call : CallId} {caller : Option CallId} {job : Job}

/-- Where the request of a task stands that is in this phase. -/
def Phase.Stands (p : Pool Connection) (call : CallId) : Phase → Prop
  | .ask _ _ => call ∉ p.waiting.toList ∧ call ∉ p.owed
  | .await handle _ _ | .forget handle => p.Standing call (some handle)
  | .withdraw handle timeout _ =>
    p.config.acquireTimeout = some timeout ∧ p.Standing call (some handle)
  | .lastLook timeout _ => p.config.acquireTimeout = some timeout ∧ p.Standing call none
  | .hangUp _ => call ∉ p.waiting.toList
  | _ => True

theorem Phase.Looks.standing (h : phase.Looks job) (hs : phase.Stands p call) :
    ∃ handle, p.Standing call handle := by
  cases h with
  | await handle deadline => exact ⟨some handle, hs⟩
  | lastLook timeout => exact ⟨none, hs.2⟩

/-- Whoever sees an answer is not queued any more. -/
theorem Phase.Looks.notMem_waiting (h : phase.Looks job) (hp : p.Attended)
    (hs : phase.Stands p call) (hreceive : (p.receive call).1 ≠ .nothing) :
    call ∉ p.waiting.toList := by
  obtain ⟨handle, hstanding⟩ := h.standing hs
  obtain hnothing | ⟨hqueue, -⟩ := hp.receipt hstanding
  · exact absurd hnothing hreceive
  · exact hqueue

/-- For other tasks, a pool that minds them stays as good. -/
theorem Pool.Minds.stands (h : Pool.Minds caller p p') (hne : some call ≠ caller)
    (hs : phase.Stands p call) : phase.Stands p' call := by
  cases phase with
  | ask priority job =>
      refine ⟨fun hmem => hs.1 ((h.waiting call hmem).resolve_right hne), fun hmem => ?_⟩
      obtain hmem | hmem | heq := h.owed call hmem
      · exact hs.2 hmem
      · exact hs.1 hmem
      · exact hne heq
  | await | forget => exact h.standing hne hs
  | withdraw | lastLook => exact ⟨(congrArg _ h.config).trans hs.1, h.standing hne hs.2⟩
  | hangUp => exact fun hmem => hs ((h.waiting call hmem).resolve_right hne)
  | _ => trivial

/-- The pools and the tasks agree on the requests that there are. -/
structure Scene.Attends (s : Scene) : Prop where
  attended : ∀ (i : Nat) (p : Pool Connection), s.pools[i]? = some p → p.Attended
  known : ∀ (i : Nat) (p : Pool Connection), s.pools[i]? = some p →
    ∀ call ∈ p.owed, call < s.nextTask
  stands : ∀ id task, s.tasks.get? id = some task →
    ∃ p, s.pools[task.pool]? = some p ∧ task.phase.Stands p id

theorem Scene.Attends.stands_site (h : m.scene.Attends) (htask : m.tasks.get? id = some task)
    (hsite : m.sites[task.pool]? = some site) : task.phase.Stands site.pool id := by
  obtain ⟨p, hp, hstands⟩ := h.stands id task htask
  cases (pools_of_site hsite).symm.trans hp
  exact hstands

/-- Whoever is queued has a task. -/
theorem Scene.Attends.mem_keys (h : s.Attends) (hs : s.Orderly) (hp : s.pools[i]? = some p)
    (hcall : call ∈ p.waiting.toList) : call ∈ s.tasks.keys := by
  obtain ⟨task, htask, -⟩ := hs.awaited i p hp call ((h.attended i p hp).mem_calls hcall)
  exact Registry.mem_keys_of_get? htask

/-! ## Sections of moves -/

/-- The pools mind all calls but one. -/
def Deed.Minds (s : Scene) (caller : Option CallId) (d : Deed) : Prop :=
  ∀ (i : Nat) (p : Pool Connection), s.pools[i]? = some p → Pool.Minds caller p (d.run i p)

/-- The section is about the request of one caller at most, and in its place. -/
def Deed.Proper (s : Scene) (caller : Option CallId) (d : Deed) : Prop :=
  ∀ (i : Nat) (x : Section Connection) (p : Pool Connection), d.change = some (i, x) →
    s.pools[i]? = some p → x.Proper p ∧ (x.caller p = none ∨ x.caller p = caller)

theorem minds_of_proper (hledger : Ledger trace s) (hs : s.Attends) (hready : d.Ready s)
    (hproper : d.Proper s caller) : d.Minds s caller := by
  intro i p hp
  have hattended := hs.attended i p hp
  obtain ⟨-, heq⟩ | ⟨x, hchange, heq⟩ := d.run_cases i p <;> rw [heq]
  · exact (hattended.serves_refl.minds hattended).mono
  · obtain ⟨hx, hcaller⟩ := hproper i x p hchange hp
    have hminds := Section.minds (hledger.placed i p hp).sound hattended
      (hready i x hchange p hp) hx
    obtain hcaller | hcaller := hcaller <;> rw [hcaller] at hminds
    · exact hminds.mono
    · exact hminds

/-- The section of a turn is about the request of its task or about none. -/
theorem Turn.proper (hs : m.scene.Attends) (h : Turn m id task site phase d s')
    (hphase : task.phase = phase) (htask : m.tasks.get? id = some task)
    (hsite : m.sites[task.pool]? = some site) : d.Proper m.scene (some id) := by
  have hp : m.scene.pools[task.pool]? = some site.pool := pools_of_site hsite
  have hattended := hs.attended _ _ hp
  have hstands : phase.Stands site.pool id := hphase ▸ hs.stands_site htask hsite
  intro i x p hchange hpool
  have hlooks : ∀ {job : Job}, phase.Looks job → (site.pool.receive id).1 ≠ .nothing →
      id ∉ site.pool.waiting.toList := fun hlooks => hlooks.notMem_waiting hattended hstands
  cases h with
  | ask | refused =>
      cases hchange
      cases hp.symm.trans hpool
      exact ⟨hstands.2, .inr rfl⟩
  | keep hlook h | hold hlook h | send hlook h =>
      cases hchange
      cases hp.symm.trans hpool
      exact ⟨hlooks hlook (by rw [h]; nofun), .inr rfl⟩
  | unanswered hlook h =>
      cases hchange
      cases hp.symm.trans hpool
      refine ⟨hlooks hlook ?_, .inr rfl⟩
      obtain h | ⟨h, -⟩ := h <;> rw [h] <;> nofun
  | withdraw =>
      cases hchange
      cases hp.symm.trans hpool
      exact ⟨trivial, hstands.2.get?.symm⟩
  | forget =>
      cases hchange
      cases hp.symm.trans hpool
      exact ⟨trivial, hstands.get?.symm⟩
  | hangUp =>
      cases hchange
      cases hp.symm.trans hpool
      exact ⟨hstands, .inr rfl⟩
  | _ => cases hchange <;> exact ⟨trivial, .inl rfl⟩

theorem Turn.minds (hledger : Ledger trace m.scene) (hs : m.scene.Attends)
    (h : Turn m id task site phase d s') (hphase : task.phase = phase)
    (htask : m.tasks.get? id = some task) (hsite : m.sites[task.pool]? = some site) :
    d.Minds m.scene (some id) :=
  minds_of_proper hledger hs (h.deed_ready hledger hphase htask hsite)
    (h.proper hs hphase htask hsite)

/-- The section of an act is about no request. -/
theorem Act.proper (h : Act m d s') : d.Proper m.scene none := by
  intro i x p hchange hpool
  have hact := h.isAct hchange
  cases x <;> first | exact ⟨trivial, .inl rfl⟩ | cases hact

theorem Act.minds (hledger : Ledger trace m.scene) (hs : m.scene.Attends) (h : Act m d s') :
    d.Minds m.scene none :=
  minds_of_proper hledger hs (h.deed_ready hledger) h.proper

theorem Machine.Move.proper (hs : m.scene.Attends) (h : Move m d m') {x : Section Connection}
    (hp : m.pool? i = some p) (hchange : d.change = some (i, x)) : x.Proper p := by
  rw [pool?_eq] at hp
  obtain ⟨id, task, site, htask, hsite, hturn⟩ | hact := h.cases
  · exact (hturn.proper hs rfl htask hsite i x p hchange hp).1
  · exact (hact.proper i x p hchange hp).1

/-! ## The task of a turn -/

theorem stands_afterWork (server : Server) (lease : Lease Connection) (job : Job) :
    (afterWork server lease job).Stands p call := by
  obtain ⟨outcome, h | h⟩ := afterWork_cases server lease job <;> rw [h] <;> trivial

/-- The task of a turn knows what has become of its request. -/
theorem Turn.stands (h : Turn m id task site phase d s') (hattended : site.pool.Attended)
    (hstands : phase.Stands site.pool id)
    (hcalls : phase.awaits = false → id ∉ site.pool.calls.keys) (hphase : task.phase = phase)
    (htask : m.tasks.get? id = some task)
    (htask' : s'.tasks.get? id = some task') :
    task'.phase.Stands (d.run task.pool site.pool) id := by
  cases h with
  | wait =>
      cases htask.symm.trans htask'
      exact hphase ▸ hstands
  | drainQueue =>
      cases htask.symm.trans htask'
      rw [hphase]
      trivial
  | finish => cases Registry.get?_erase_self.symm.trans htask'
  | @ask priority job handle pool h =>
      rw [Scene.phase_go htask', Deed.run_of_change rfl, Section.run, h]
      exact hattended.standing_request (hcalls rfl) hstands.2 h
  | keep hlooks h hnext =>
      rw [Scene.phase_go htask', hnext]
      split <;> trivial
  | await =>
      rw [Scene.phase_go htask']
      exact hstands
  | timeout hnothing htimeout hdue =>
      rw [Scene.phase_go htask']
      exact ⟨htimeout, hstands⟩
  | @withdraw handle timeout job =>
      rw [Scene.phase_go htask', Deed.run_of_change rfl]
      have hminds := hattended.minds_withdraw handle timeout
      exact ⟨(congrArg _ hminds.config).trans hstands.1,
        hattended.standing_withdraw hstands.2 hstands.1⟩
  | late =>
      rw [Scene.phase_go htask']
      exact hstands.2.notMem_waiting
  | forget =>
      rw [Scene.phase_go htask', Deed.run_of_change rfl]
      exact hattended.notMem_forget hstands
  | hangUp hnext =>
      rw [Scene.phase_go htask', hnext]
      split <;> trivial
  | worked =>
      rw [Scene.phase_go htask']
      exact stands_afterWork _ _ _
  | _ =>
      rw [Scene.phase_go htask']
      trivial

/-! ## Moves -/

/-- A task that goes on with its work while the pools mind the others. -/
theorem Turn.attends (hledger : Ledger trace m.scene) (hs : m.scene.Attends)
    (h : Turn m id task site phase d s') (hphase : task.phase = phase)
    (htask : m.tasks.get? id = some task) (hsite : m.sites[task.pool]? = some site) :
    s'.Attends := by
  have hminds := h.minds hledger hs hphase htask hsite
  have hadvances := h.advances hsite
  have hp : m.scene.pools[task.pool]? = some site.pool := pools_of_site hsite
  refine ⟨?_, ?_, ?_⟩
  · intro i p' hp'
    rw [hadvances i] at hp'
    obtain ⟨p, hp, rfl⟩ := Option.map_eq_some_iff.1 hp'
    exact (hminds i p hp).attended
  · intro i p' hp' call hcall
    rw [hadvances i] at hp'
    obtain ⟨p, hp, rfl⟩ := Option.map_eq_some_iff.1 hp'
    rw [h.nextTask]
    obtain hmem | hmem | heq := (hminds i p hp).owed call hcall
    · exact hs.known i p hp call hmem
    · exact hledger.fresh call (hs.mem_keys hledger.toOrderly hp hmem)
    · exact hledger.fresh call (Option.some_inj.1 heq ▸ Registry.mem_keys_of_get? htask)
  · intro other task' htask'
    by_cases hne : other = id
    · subst hne
      obtain ⟨next, heq, -⟩ := h.self hphase htask htask'
      have hpools : task'.pool = task.pool := by rw [heq]
      refine ⟨d.run task.pool site.pool, ?_, ?_⟩
      · rw [hpools, hadvances, hp, Option.map_some]
      · refine h.stands (hs.attended _ _ hp) (hphase ▸ hs.stands_site htask hsite)
          (fun hawaits hmem => ?_) hphase htask htask'
        obtain ⟨former, hformer, -, hformer'⟩ := hledger.awaited _ _ hp other hmem
        cases htask.symm.trans hformer
        rw [hphase, hawaits] at hformer'
        cases hformer'
    · obtain ⟨p, hpool, hstands⟩ := hs.stands other task' ((h.others hne).symm.trans htask')
      refine ⟨d.run task'.pool p, by rw [hadvances, hpool, Option.map_some], ?_⟩
      exact (hminds _ _ hpool).stands (fun heq => hne (Option.some_inj.1 heq)) hstands

theorem Phase.stands_unwind (hstop : task.mayStop = true) (h : task.phase.Stands p call) :
    task.phase.unwind.Stands p call := by
  rw [Task.mayStop, Bool.and_eq_true] at hstop
  obtain ⟨-, hstop⟩ := hstop
  cases hphase : task.phase <;> rw [hphase] at h hstop <;> trivial

theorem Phase.stands_of_isNew (h : phase.isNew = true) (hqueue : call ∉ p.waiting.toList)
    (howed : call ∉ p.owed) : phase.Stands p call := by
  cases phase with
  | ask => exact ⟨hqueue, howed⟩
  | _ => trivial

theorem Act.attends (hledger : Ledger trace m.scene) (hs : m.scene.Attends) (h : Act m d s') :
    s'.Attends := by
  have hs' := hledger.toOrderly
  have hnext := h.nextTask_le hs'
  obtain hadvances | ⟨config, policy, recycling, -, rfl⟩ := h.advances
  · have hminds := h.minds hledger hs
    refine ⟨?_, ?_, ?_⟩
    · intro i p' hp'
      rw [hadvances i] at hp'
      obtain ⟨p, hp, rfl⟩ := Option.map_eq_some_iff.1 hp'
      exact (hminds i p hp).attended
    · intro i p' hp' call hcall
      rw [hadvances i] at hp'
      obtain ⟨p, hp, rfl⟩ := Option.map_eq_some_iff.1 hp'
      refine lt_of_lt_of_le ?_ hnext
      obtain hmem | hmem | heq := (hminds i p hp).owed call hcall
      · exact hs.known i p hp call hmem
      · exact hs'.fresh call (hs.mem_keys hs' hp hmem)
      · cases heq
    · intro id task' htask'
      -- what the task has to do after the act it could have to do before
      obtain ⟨p, hp, hstands⟩ : ∃ p, m.scene.pools[task'.pool]? = some p ∧
          task'.phase.Stands p id := by
        obtain ⟨task, htask, hpool, hphase⟩ | ⟨task, htask, hstop, -, rfl⟩ |
          ⟨rfl, hnone, hnew, p, hp, -⟩ := h.origin hs' htask'
        · rw [hpool, hphase]
          exact hs.stands id task htask
        · obtain ⟨p, hp, hstands⟩ := hs.stands id task htask
          exact ⟨p, hp, Phase.stands_unwind hstop hstands⟩
        · refine ⟨p, hp, Phase.stands_of_isNew hnew ?_ ?_⟩
          · intro hmem
            exact Registry.get?_eq_none_iff.1 hnone (hs.mem_keys hs' hp hmem)
          · intro hmem
            exact lt_irrefl _ (hs.known _ p hp _ hmem)
      refine ⟨d.run task'.pool p, by rw [hadvances, hp, Option.map_some], ?_⟩
      exact (hminds _ _ hp).stands nofun hstands
  · have hget : ∀ {i : Nat} {p : Pool Connection}, (m.scene.pools ++
        [.idle m.scene.pools.length config policy recycling])[i]? = some p →
        m.scene.pools[i]? = some p ∨ ∃ id, p = .idle id config policy recycling := by
      intro i p hp
      rw [List.getElem?_append] at hp
      split at hp
      · exact .inl hp
      · exact .inr ⟨_, List.mem_singleton.1 (List.mem_of_getElem? hp)⟩
    refine ⟨?_, ?_, ?_⟩
    · intro i p hp
      obtain hp | ⟨id, rfl⟩ := hget hp
      · exact hs.attended i p hp
      · exact Pool.attended_idle id config policy recycling
    · intro i p hp call hcall
      obtain hp | ⟨id, rfl⟩ := hget hp
      · exact hs.known i p hp call hcall
      · cases hcall
    · intro id task htask
      obtain ⟨p, hp, hstands⟩ := hs.stands id task htask
      exact ⟨p, (List.getElem?_append_left (List.getElem?_eq_some_iff.1 hp).1).trans hp, hstands⟩

/-- In every run the pools and the tasks agree on the requests that there are. -/
theorem Machine.FreeRun.attends (h : FreeRun trace m) : m.scene.Attends := by
  induction h with
  | idle server =>
      exact ⟨fun _ p hp => absurd hp.symm (Option.some_ne_none p),
        fun _ p hp => absurd hp.symm (Option.some_ne_none p),
        fun _ task htask => absurd htask.symm (Option.some_ne_none task)⟩
  | move h hmove ih =>
      obtain ⟨id, task, site, htask, hsite, hturn⟩ | hact := hmove.cases
      · exact hturn.attends h.ledger ih rfl htask hsite
      · exact hact.attends h.ledger ih
  | switch h runtime now ih => exact { ih with }

/-- Every task has its pool. -/
theorem Machine.FreeRun.site_of_task (h : FreeRun trace m) (htask : m.tasks.get? id = some task) :
    ∃ site, m.sites[task.pool]? = some site := by
  obtain ⟨p, hp, -⟩ := h.attends.stands id task htask
  rw [← pool?_eq] at hp
  obtain ⟨site, hsite, -⟩ := Option.map_eq_some_iff.1 hp
  exact ⟨site, hsite⟩

end PooledSql
