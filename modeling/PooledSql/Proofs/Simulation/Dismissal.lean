import PooledSql.Proofs.Pool.Eviction
import PooledSql.Proofs.Simulation.Attendance
import PooledSql.Proofs.Simulation.Errands
import PooledSql.Proofs.Simulation.Shutdown

/-!
# The dismissal of the task that evicts

A pool sends for one task that evicts and keeps its handle. The first drain that ends takes the
handle and aborts the task, but not in one section, and a turn that the task has begun when it is
aborted is not broken off. So as long as the handle is with a drain the task goes on, and after that
it may evict once more, if it was past its sleep when it was aborted.
-/

namespace PooledSql

open Machine

variable {m m' : Machine} {s s' : Scene} {id other evictor : TaskId} {task task' : Task}
variable {site : Site} {phase next : Phase} {d : Deed} {trace t : List Deed} {i : Nat}
variable {p : Pool Connection} {errand : Errand} {now : Instant}

/-! ## One task -/

theorem Pool.evict_mem_outbox_iff :
    .evict ∈ p.outbox ↔ 0 < p.outbox.countP (Action.sendsFor .evict) := by
  rw [List.countP_pos_iff]
  constructor
  · exact fun hmem => ⟨_, hmem, rfl⟩
  · rintro ⟨action, hmem, hsends⟩
    cases action with
    | evict => exact hmem
    | _ => cases hsends

theorem Task.mem_errands :
    errand ∈ task.errands i ↔ task.pool = i ∧ task.phase.errand? = some errand := by
  rw [errands]
  by_cases hpool : task.pool = i <;> simp [hpool]

theorem Scene.of_mem_errands (hs : s.Orderly) (h : errand ∈ s.errands i) :
    ∃ id task, s.tasks.get? id = some task ∧ task.pool = i ∧ task.phase.errand? = some errand := by
  obtain ⟨⟨id, task⟩, hentry, herrand⟩ := List.mem_flatMap.1 h
  exact ⟨id, task, Registry.get?_of_mem_entries hs.tasks hentry, Task.mem_errands.1 herrand⟩

theorem Scene.Attends.errands_eq_nil (h : m.scene.Attends) (hs : m.scene.Orderly)
    (hp : m.pool? i = none) : m.scene.errands i = [] := by
  rw [List.eq_nil_iff_forall_not_mem]
  intro errand hmem
  obtain ⟨id, task, htask, rfl, -⟩ := Scene.of_mem_errands hs hmem
  obtain ⟨p, hp', -⟩ := h.stands id task htask
  cases hp.symm.trans ((pool?_eq _ _).trans hp')

/-- A pool sends for the task that evicts once, when it is started. -/
theorem Machine.Run.count_evict_le_one (h : Run trace m) (hp : m.pool? i = some p) :
    (m.errands i).count .evict + (!p.started).toNat ≤ 1 := by
  induction h generalizing p with
  | idle server => cases hp
  | @move trace m m' d h hmove ih =>
      have hledger := h.free.ledger
      cases hformer : m.pool? i with
      | none =>
          obtain ⟨rfl, config, policy, recycling, rfl⟩ := hmove.of_pool?_none hformer hp
          have htasks := hmove.errands hledger.toOrderly i .evict
          rw [h.free.attends.errands_eq_nil hledger.toOrderly hformer] at htasks
          rw [count_errands hp]
          exact Nat.add_le_add_right htasks 1
      | some q =>
          cases hp.symm.trans (hmove.pool? hformer)
          have hbefore := ih hformer
          obtain ⟨hstarted, hcount⟩ | ⟨hstarted, -, hstarts, hcount⟩ :=
            h.errands_cases hmove hformer q.withholds_evict
          · rw [hstarted]
            omega
          · rw [hstarted] at hbefore
            rw [hstarts]
            exact hcount.trans hbefore

theorem Machine.evictors_of_site (hsite : m.sites[i]? = some site) :
    m.scene.evictors[i]? = some site.evictor := by
  simp [scene, hsite]

/-! ## Where the handle is -/

/-- A drain of the pool has taken the handle of the task and has not aborted it yet. -/
def Scene.Holds (s : Scene) (i : Nat) (evictor : TaskId) : Prop :=
  ∃ id task, s.tasks.get? id = some task ∧ task.pool = i ∧ task.phase = .drained (some evictor)

/-- The handle of the task is with its pool or with a drain, or the task was aborted. -/
inductive Scene.Knows (s : Scene) (i : Nat) (evictor : TaskId) : Prop where
  | kept (h : s.evictors[i]? = some (.kept evictor))
  | taken (h : s.Holds i evictor)
  | aborted (h : ∃ time, s.evictors[i]? = some (.aborted time))

@[simp] theorem Scene.evictors_go (s : Scene) (id : TaskId) (phase : Phase) :
    (s.go id phase).evictors = s.evictors := by
  rw [go]
  split <;> rfl

theorem Machine.evictors_set_of_site (hsite : m.sites[i]? = some site) (handle : EvictorHandle) :
    (m.scene.evictors.set i handle)[i]? = some handle :=
  List.getElem?_set_self (List.getElem?_eq_some_iff.1 (evictors_of_site hsite)).1

/-- Only the end of a drain changes what a pool knows of the task. -/
theorem Turn.evictors (h : Turn m id task site phase d s') :
    s'.evictors = m.scene.evictors ∨
      (∃ evictor, phase = .takeEvictor ∧ site.evictor = .kept evictor ∧
        s' = { m.scene with evictors := m.scene.evictors.set task.pool .none }.go id
          (.drained (some evictor))) ∨
      ∃ evictor, phase = .drained (some evictor) ∧
        s' = { m.scene with evictors := m.scene.evictors.set task.pool (.aborted m.now) }.go id
          (.finish .done) := by
  cases h with
  | wait | drainQueue | finish => exact .inl rfl
  | letGo =>
      rw [Scene.evictors_go, scene_reclaim]
      split <;> exact .inl rfl
  | takeEvictor h => exact .inr (.inl ⟨_, rfl, h, rfl⟩)
  | abort => exact .inr (.inr ⟨_, rfl, rfl⟩)
  | _ => exact .inl (Scene.evictors_go _ _ _)

/-- A drain that has taken the handle keeps it or aborts the task. -/
theorem Turn.of_drained (h : Turn m id task site (.drained (some evictor)) d s') :
    s' = m.scene ∨
      s' = { m.scene with evictors := m.scene.evictors.set task.pool (.aborted m.now) }.go id
        (.finish .done) := by
  cases h with
  | wait => exact .inl rfl
  | abort => exact .inr rfl
  | keep hlooks | hold hlooks | send hlooks | unanswered hlooks => cases hlooks

theorem Scene.Holds.turn (h : m.scene.Holds i evictor) (hturn : Turn m id task site phase d s')
    (hphase : task.phase = phase) (htask : m.tasks.get? id = some task)
    (hsite : m.sites[task.pool]? = some site) : s'.Knows i evictor := by
  obtain ⟨other, t, ht, rfl, hholds⟩ := h
  by_cases hid : other = id
  · subst hid
    cases htask.symm.trans ht
    obtain rfl := hphase.symm.trans hholds
    obtain rfl | rfl := hturn.of_drained
    · exact .taken ⟨other, task, htask, rfl, hphase⟩
    · refine .aborted ⟨m.now, ?_⟩
      rw [Scene.evictors_go]
      exact evictors_set_of_site hsite _
  · exact .taken ⟨other, t, (hturn.others hid).trans ht, rfl, hholds⟩

/-- In a turn the handle stays where it is, or a drain takes it, or a drain that has taken it aborts
the task. -/
theorem Turn.handle (h : Turn m id task site phase d s') (hphase : task.phase = phase)
    (htask : m.tasks.get? id = some task) (hsite : m.sites[task.pool]? = some site)
    {handle : EvictorHandle} (hslot : m.scene.evictors[i]? = some handle) :
    s'.evictors[i]? = some handle ∨
      (∃ evictor, handle = .kept evictor ∧ s'.evictors[i]? = some .none ∧ s'.Holds i evictor) ∨
      ∃ evictor, m.scene.Holds i evictor ∧ s'.evictors[i]? = some (.aborted m.now) := by
  obtain hsame | ⟨evictor, -, hkept, rfl⟩ | ⟨evictor, hdrained, rfl⟩ := h.evictors
  · exact .inl (hsame ▸ hslot)
  · rw [Scene.evictors_go]
    by_cases hpool : task.pool = i
    · subst hpool
      rw [evictors_of_site hsite, hkept] at hslot
      cases hslot
      exact .inr (.inl ⟨evictor, rfl, evictors_set_of_site hsite _,
        ⟨id, _, Scene.get?_go_self htask _, rfl, rfl⟩⟩)
    · exact .inl ((List.getElem?_set_ne hpool).trans hslot)
  · rw [Scene.evictors_go]
    by_cases hpool : task.pool = i
    · subst hpool
      exact .inr (.inr ⟨evictor, ⟨id, task, htask, rfl, hphase.trans hdrained⟩,
        evictors_set_of_site hsite _⟩)
    · exact .inl ((List.getElem?_set_ne hpool).trans hslot)

/-- The handle of the task is not lost in a turn. -/
theorem Scene.Knows.turn (h : m.scene.Knows i evictor) (hturn : Turn m id task site phase d s')
    (hphase : task.phase = phase) (htask : m.tasks.get? id = some task)
    (hsite : m.sites[task.pool]? = some site) : s'.Knows i evictor := by
  cases h with
  | kept hslot =>
      obtain hsame | ⟨other, heq, -, hholds⟩ | ⟨-, -, haborted⟩ :=
        hturn.handle hphase htask hsite hslot
      · exact .kept hsame
      · cases heq
        exact .taken hholds
      · exact .aborted ⟨_, haborted⟩
  | taken h => exact h.turn hturn hphase htask hsite
  | aborted h =>
      obtain ⟨time, hslot⟩ := h
      obtain hsame | ⟨other, heq, -⟩ | ⟨-, -, haborted⟩ := hturn.handle hphase htask hsite hslot
      · exact .aborted ⟨time, hsame⟩
      · cases heq
      · exact .aborted ⟨_, haborted⟩

/-- An act that starts no task to evict leaves alone what the pool knows of one. -/
theorem Act.evictors (h : Act m d s') (hruntime : m.runtime = true)
    (hnot : ∀ before after, d.change ≠ some (i, .launch before .evict after))
    {handle : EvictorHandle} (hslot : m.scene.evictors[i]? = some handle) :
    s'.evictors[i]? = some handle := by
  cases h with
  | @launch index pool before after action evictors hpool houtbox hleases hevictors =>
      obtain ⟨-, rfl⟩ | ⟨rfl, rfl⟩ := hevictors
      · exact hslot
      · exact (List.getElem?_set_ne fun hi => hnot before after (by rw [hi])).trans hslot
  | abandon hpool houtbox hleases hnone => cases hruntime.symm.trans hnone
  | drop hlease hscene =>
      subst hscene
      split <;> exact hslot
  | build config policy recycling =>
      exact (List.getElem?_append_left (List.getElem?_eq_some_iff.1 hslot).1).trans hslot
  | _ => exact hslot

theorem Task.mayStop_of_drained {handle : Option TaskId} (h : task.phase = .drained handle) :
    task.mayStop = false := by
  rw [Task.mayStop, h, Bool.and_false]

theorem Scene.Knows.act (h : m.scene.Knows i evictor) (hs : m.scene.Orderly) (hact : Act m d s')
    (hruntime : m.runtime = true)
    (hnot : ∀ before after, d.change ≠ some (i, .launch before .evict after)) :
    s'.Knows i evictor := by
  cases h with
  | kept h => exact .kept (hact.evictors hruntime hnot h)
  | aborted h => exact .aborted (h.imp fun _ h => hact.evictors hruntime hnot h)
  | taken h =>
      obtain ⟨id, task, htask, rfl, hphase⟩ := h
      obtain ⟨task', htask', hpool, hsame⟩ :=
        hact.stays hs htask (Task.mayStop_of_drained hphase)
      exact .taken ⟨id, task', htask', hpool, hsame.trans hphase⟩

/-! ## Tasks that evict -/

theorem Turn.of_evicts (h : Turn m id task site phase d s') (hphase : task.phase = phase)
    (htask : m.tasks.get? id = some task) (htask' : s'.tasks.get? id = some task')
    (hevicts : task'.phase.errand? = some .evict) :
    task'.phase = phase ∨ phase.errand? = some .evict ∧ site.evictor.isAborted = false := by
  have hgone : ∀ {next : Phase}, task'.phase = next → next.errand? = none → False := by
    intro next heq hnone
    rw [heq, hnone] at hevicts
    cases hevicts
  cases h with
  | wait | drainQueue => exact .inl (Option.some_inj.1 (htask'.symm.trans htask) ▸ hphase)
  | finish => cases Registry.get?_erase_self.symm.trans htask'
  | evict h | evictLater h => exact .inr ⟨rfl, h⟩
  | keep hlooks h hnext =>
      refine (hgone (Scene.phase_go htask') ?_).elim
      rw [hnext]
      split <;> rfl
  | hangUp hnext =>
      refine (hgone (Scene.phase_go htask') ?_).elim
      rw [hnext]
      split <;> rfl
  | worked => exact (hgone (Scene.phase_go htask') (errand?_afterWork _ _ _)).elim
  | _ => exact (hgone (Scene.phase_go htask') rfl).elim

theorem Act.of_evicts (h : Act m d s') (htask' : s'.tasks.get? id = some task')
    (hevicts : task'.phase.errand? = some .evict) :
    (∃ task, m.tasks.get? id = some task ∧ task'.pool = task.pool ∧ task'.phase = task.phase) ∨
      (∃ before after, d.change = some (task'.pool, .launch before .evict after)) ∧
        s'.evictors[task'.pool]? = some (.kept id) := by
  have hadded : ∀ {task : Task}, task.phase.errand? = none →
      (m.tasks.insert m.nextTask task).get? id = some task' → m.tasks.get? id = some task' := by
    intro task hphase hnew
    obtain ⟨-, rfl⟩ | ⟨-, hthere⟩ := Registry.get?_insert_cases hnew
    · cases hphase.symm.trans hevicts
    · exact hthere
  cases h with
  | @launch index pool before after action evictors hpool houtbox hleases hevictors =>
      obtain ⟨rfl, rfl⟩ | ⟨-, hthere⟩ := Registry.get?_insert_cases htask'
      · rw [Action.errand?_phase] at hevicts
        obtain ⟨hne, -⟩ | ⟨rfl, rfl⟩ := hevictors
        · cases action <;> first | exact absurd rfl hne | cases hevicts
        · obtain ⟨site, hsite, -⟩ := Option.map_eq_some_iff.1 hpool
          exact .inr ⟨⟨before, after, rfl⟩, evictors_set_of_site hsite _⟩
      · exact .inl ⟨task', hthere, rfl, rfl⟩
  | @stop stopped task htask hstop =>
      obtain ⟨-, rfl⟩ | ⟨-, hthere⟩ := Registry.get?_insert_cases htask'
      · cases task.phase.errand?_unwind.symm.trans hevicts
      · exact .inl ⟨task', hthere, rfl, rfl⟩
  | @cancel cancelled task htask =>
      obtain ⟨rfl, rfl⟩ | ⟨-, hthere⟩ := Registry.get?_insert_cases htask'
      · exact .inl ⟨task, htask, rfl, rfl⟩
      · exact .inl ⟨task', hthere, rfl, rfl⟩
  | @begin task hphase hsite =>
      refine .inl ⟨task', hadded ?_ htask', rfl, rfl⟩
      cases htask : task.phase <;> rw [htask] at hphase <;>
        first | rfl | exact absurd hphase Bool.false_ne_true
  | @beginReturn label lease task hlease hphase hsite =>
      refine .inl ⟨task', hadded ?_ htask', rfl, rfl⟩
      obtain h | h := hphase <;> rw [h] <;> rfl
  | drop hlease hscene =>
      subst hscene
      refine .inl ⟨task', ?_, rfl, rfl⟩
      split at htask' <;> exact htask'
  | _ => exact .inl ⟨task', htask', rfl, rfl⟩

namespace Machine

/-- A task that evicts has just been started, or it was there before. In that case it is where it
was, unless its turn came and it had not been aborted. -/
theorem Move.of_evicts (h : Move m d m') (htask' : m'.tasks.get? id = some task')
    (hevicts : task'.phase.errand? = some .evict) :
    (∃ task, m.tasks.get? id = some task ∧ task'.pool = task.pool ∧
      task.phase.errand? = some .evict ∧ (task'.phase = task.phase ∨
        ∃ site, m.sites[task.pool]? = some site ∧ site.evictor.isAborted = false)) ∨
      (∃ before after, d.change = some (task'.pool, .launch before .evict after)) ∧
        m'.scene.evictors[task'.pool]? = some (.kept id) := by
  obtain ⟨turned, task, site, htask, hsite, hturn⟩ | hact := h.cases
  · refine .inl ?_
    by_cases hid : id = turned
    · subst hid
      obtain ⟨next, hnext, -⟩ := hturn.self rfl htask htask'
      have hpool : task'.pool = task.pool := by rw [hnext]
      obtain hsame | ⟨herrand, hgoes⟩ := hturn.of_evicts rfl htask htask' hevicts
      · exact ⟨task, htask, hpool, hsame ▸ hevicts, .inl hsame⟩
      · exact ⟨task, htask, hpool, herrand, .inr ⟨site, hsite, hgoes⟩⟩
    · exact ⟨task', (hturn.others hid).symm.trans htask', rfl, hevicts, .inl rfl⟩
  · obtain ⟨task, htask, hpool, hphase⟩ | hlaunched := hact.of_evicts htask' hevicts
    · exact .inl ⟨task, htask, hpool, hphase ▸ hevicts, .inl hphase⟩
    · exact .inr hlaunched

/-- A pool that sends for a task to evict has none. -/
theorem Run.evict_notMem (h : Run trace m) (hp : m.pool? i = some p) (hmem : .evict ∈ p.outbox) :
    .evict ∉ m.scene.errands i := by
  intro hlives
  have honce := h.count_evict_le_one hp
  rw [count_errands hp] at honce
  have hwaits := Pool.evict_mem_outbox_iff.1 hmem
  have := List.count_pos_iff.2 hlives
  omega

/-- The outbox from which a task is started that evicts. -/
theorem Run.outbox_of_launch {before after : List (Action Connection)} (h : Run trace m)
    (hmove : Move m d m') (hp : m.pool? i = some p)
    (hchange : d.change = some (i, .launch before .evict after)) : .evict ∈ p.outbox := by
  obtain ⟨-, hready, -⟩ := h.section_of_move hmove hp hchange
  rw [hready.1]
  exact List.mem_append_right _ List.mem_cons_self

/-- The handle of a task that evicts is not lost. -/
theorem Run.knows (h : Run trace m) (htask : m.tasks.get? id = some task)
    (hevicts : task.phase.errand? = some .evict) : m.scene.Knows task.pool id := by
  induction h generalizing task with
  | idle server => cases htask
  | @move trace m m' d h hmove ih =>
      obtain ⟨former, hformer, hpool, hbefore, -⟩ | ⟨-, hkept⟩ := hmove.of_evicts htask hevicts
      · rw [hpool]
        have hknows := ih hformer hbefore
        obtain ⟨turned, running, site, hrunning, hsite, hturn⟩ | hact := hmove.cases
        · exact hknows.turn hturn rfl hrunning hsite
        · refine hknows.act h.free.ledger.toOrderly hact h.runtime fun before after hchange => ?_
          obtain ⟨p, hp, -⟩ := h.free.attends.stands id former hformer
          rw [← pool?_eq] at hp
          refine h.evict_notMem hp (h.outbox_of_launch hmove hp hchange) ?_
          exact Registry.mem_gather hformer (Task.mem_errands.2 ⟨rfl, hbefore⟩)
      · exact .kept hkept

/-! ## Pools without the handle -/

/-- What becomes of the handle of a pool that starts no task to evict: a drain takes it, or a drain
that has taken it aborts the task. -/
theorem Move.evictors (h : Move m d m') (hruntime : m.runtime = true)
    (hsite : m.sites[i]? = some site)
    (hnot : ∀ before after, d.change ≠ some (i, .launch before .evict after)) :
    m'.scene.evictors[i]? = some site.evictor ∨
      (∃ evictor, site.evictor = .kept evictor ∧ m'.scene.evictors[i]? = some .none) ∨
      ∃ evictor, m.scene.Holds i evictor ∧ m'.scene.evictors[i]? = some (.aborted m.now) := by
  have hslot := evictors_of_site hsite
  obtain ⟨id, task, other, htask, hother, hturn⟩ | hact := h.cases
  · exact (hturn.handle rfl htask hother hslot).imp_right
      (Or.imp_left fun ⟨evictor, hkept, hnone, _⟩ => ⟨evictor, hkept, hnone⟩)
  · exact .inl (hact.evictors hruntime hnot hslot)

/-- The pool has not got the handle of a task that evicts, nor does it send for such a task. -/
structure Relieved (m : Machine) (i : Nat) : Prop where
  handle : ∀ evictor, m.scene.evictors[i]? ≠ some (.kept evictor)
  outbox : ∀ p, m.pool? i = some p → .evict ∉ p.outbox

theorem Relieved.not_launch (h : m.Relieved i) (hrun : Run trace m) (hmove : Move m d m')
    (hp : m.pool? i = some p) (before after : List (Action Connection)) :
    d.change ≠ some (i, .launch before .evict after) :=
  fun hchange => h.outbox p hp (hrun.outbox_of_launch hmove hp hchange)

/-- A quiet pool does not come to send for a task that evicts. -/
theorem Run.evict_notMem_outbox (h : Run trace m) (hmove : Move m d m') (hp : m.pool? i = some p)
    (hquiet : p.Quiet) (hnone : .evict ∉ p.outbox) : .evict ∉ (d.run i p).outbox := by
  obtain ⟨-, heq⟩ | ⟨x, hchange, heq⟩ := d.run_cases i p <;> rw [heq]
  · exact hnone
  · obtain ⟨hsound, hready, -⟩ := h.section_of_move hmove hp hchange
    obtain ⟨-, hcount⟩ | ⟨-, hdraining, -⟩ :=
      Section.outbox_cases (hquiet.withholds .evict) hsound hready
    · rw [Pool.evict_mem_outbox_iff] at hnone ⊢
      omega
    · cases hdraining.symm.trans hquiet.draining

theorem Relieved.move (h : m.Relieved i) (hrun : Run trace m) (hmove : Move m d m')
    (hp : m.pool? i = some p) (hquiet : p.Quiet) : m'.Relieved i := by
  obtain ⟨site, hsite, -⟩ := Option.map_eq_some_iff.1 hp
  refine ⟨fun evictor hkept => ?_, fun p' hp' => ?_⟩
  · obtain hsame | ⟨other, -, hnone⟩ | ⟨other, -, haborted⟩ :=
      hmove.evictors hrun.runtime hsite (h.not_launch hrun hmove hp)
    · exact h.handle evictor ((evictors_of_site hsite).trans (hsame.symm.trans hkept))
    · cases hnone.symm.trans hkept
    · cases haborted.symm.trans hkept
  · cases hp'.symm.trans (hmove.pool? hp)
    exact hrun.evict_notMem_outbox hmove hp hquiet (h.outbox p hp)

end Machine

/-! ## After the abort -/

/-- A drain that is about to end has taken the handle, if the pool had it. -/
theorem Turn.to_drained {handle : Option TaskId} (h : Turn m id task site phase d s')
    (hphase : task.phase = phase) (htask : m.tasks.get? id = some task)
    (htask' : s'.tasks.get? id = some task') (hdrained : task'.phase = .drained handle) :
    phase = .drained handle ∨
      d = {} ∧ ((∃ evictor, site.evictor = .kept evictor ∧ handle = some evictor ∧
          s'.evictors = m.scene.evictors.set task.pool .none) ∨
        (∀ evictor, site.evictor ≠ .kept evictor) ∧ handle = none ∧
          s'.evictors = m.scene.evictors) := by
  have hnext : ∀ {next : Phase}, task'.phase = next → next = .drained handle :=
    fun heq => heq.symm.trans hdrained
  cases h with
  | wait | drainQueue =>
      cases htask.symm.trans htask'
      exact .inl (hphase.symm.trans hdrained)
  | finish => cases Registry.get?_erase_self.symm.trans htask'
  | takeEvictor h =>
      cases hnext (Scene.phase_go htask')
      exact .inr ⟨rfl, .inl ⟨_, h, rfl, Scene.evictors_go _ _ _⟩⟩
  | leaveEvictor h =>
      cases hnext (Scene.phase_go htask')
      exact .inr ⟨rfl, .inr ⟨h, rfl, Scene.evictors_go _ _ _⟩⟩
  | keep hlooks h heq | hangUp heq =>
      have hnext := heq.symm.trans (hnext (Scene.phase_go htask'))
      split at hnext <;> cases hnext
  | @worked lease due job =>
      obtain ⟨outcome, hwork | hwork⟩ := afterWork_cases m.server lease job <;>
        cases hwork.symm.trans (hnext (Scene.phase_go htask'))
  | _ => cases hnext (Scene.phase_go htask')

namespace Machine

/-- A drain gets the handle from the pool. -/
theorem Move.holds (hs : m.scene.Orderly) (h : Move m d m') (hholds : m'.scene.Holds i evictor) :
    m.scene.Holds i evictor ∨ m.scene.evictors[i]? = some (.kept evictor) := by
  obtain ⟨id, task', htask', rfl, hphase'⟩ := hholds
  obtain ⟨task, htask, hpool, hphase⟩ | ⟨task, site, htask, hsite, hpool, hturn⟩ |
    ⟨task, -, hunwind⟩ | ⟨-, -, hnew, -⟩ := h.origin hs htask'
  · exact .inl ⟨id, task, htask, hpool.symm, hphase.symm.trans hphase'⟩
  · rw [hpool]
    obtain hphase | ⟨-, ⟨evictor, hkept, heq, -⟩ | ⟨-, heq, -⟩⟩ :=
      hturn.to_drained rfl htask htask' hphase'
    · exact .inl ⟨id, task, htask, rfl, hphase⟩
    · cases heq
      exact .inr (hkept ▸ evictors_of_site hsite)
    · cases heq
  · have hunwind := hunwind.symm.trans hphase'
    cases hphase : task.phase <;> rw [hphase] at hunwind <;> cases hunwind
  · rw [hphase'] at hnew
    cases hnew

/-- No drain has the handle either, so the task that evicts has been aborted if it is still
there. -/
structure Dismissed (m : Machine) (i : Nat) : Prop extends Relieved m i where
  released : ∀ evictor, ¬ m.scene.Holds i evictor

theorem Dismissed.move (h : m.Dismissed i) (hrun : Run trace m) (hmove : Move m d m')
    (hsite : m.sites[i]? = some site) (hquiet : site.pool.Quiet) :
    m'.Dismissed i ∧ m'.scene.evictors[i]? = some site.evictor := by
  have hp := pool?_of_site hsite
  have hslot := evictors_of_site hsite
  refine ⟨⟨h.toRelieved.move hrun hmove hp hquiet, fun evictor hholds => ?_⟩, ?_⟩
  · obtain hheld | hkept := hmove.holds hrun.free.ledger.toOrderly hholds
    · exact h.released evictor hheld
    · exact h.handle evictor hkept
  · obtain hsame | ⟨evictor, hkept, -⟩ | ⟨evictor, hholds, -⟩ :=
      hmove.evictors hrun.runtime hsite (h.not_launch hrun hmove hp)
    · exact hsame
    · exact absurd (hkept ▸ hslot) (h.handle evictor)
    · exact absurd hholds (h.released evictor)

theorem Dismissed.aborted (h : m.Dismissed i) (hrun : Run trace m)
    (htask : m.tasks.get? id = some task) (hpool : task.pool = i)
    (hevicts : task.phase.errand? = some .evict) :
    ∃ time, m.scene.evictors[i]? = some (.aborted time) := by
  subst hpool
  cases hrun.knows htask hevicts with
  | kept hkept => exact absurd hkept (h.handle id)
  | taken hholds => exact absurd hholds (h.released id)
  | aborted haborted => exact haborted

/-- The task that evicts for the pool was past its sleep when it was aborted, and has not ended. -/
def Outlasts (m : Machine) (i : Nat) : Prop :=
  ∃ id task site due time, m.tasks.get? id = some task ∧ task.pool = i ∧ m.sites[i]? = some site ∧
    task.phase = .evict (some due) ∧ site.evictor = .aborted time ∧ due ≤ time

/-- A task that was asleep when it was aborted does not wake to evict. -/
theorem Dismissed.outlasts_of_move (h : m.Dismissed i) (hrun : Run trace m) (hmove : Move m d m')
    (hsite : m.sites[i]? = some site) (hquiet : site.pool.Quiet) (houtlasts : m'.Outlasts i) :
    m.Outlasts i := by
  obtain ⟨id, task', site', due, time, htask', rfl, hsite', hphase', haborted, hdue⟩ := houtlasts
  have hslot := (h.move hrun hmove hsite hquiet).2
  rw [evictors_of_site hsite'] at hslot
  obtain ⟨task, htask, hpool, hevicts, hwhere⟩ | ⟨-, hkept⟩ :=
    hmove.of_evicts htask' (by rw [hphase']; rfl)
  · obtain hphase | ⟨other, hother, hgoes⟩ := hwhere
    · refine ⟨id, task, site, due, time, htask, hpool.symm, hsite, hphase ▸ hphase', ?_, hdue⟩
      rw [← haborted]
      exact (Option.some_inj.1 hslot).symm
    · obtain ⟨time', hslot'⟩ := h.aborted hrun htask hpool.symm hevicts
      rw [hpool, evictors_of_site hother, Option.some_inj] at hslot'
      rw [hslot'] at hgoes
      cases hgoes
  · rw [evictors_of_site hsite', haborted] at hkept
    cases hkept

end Machine

/-! ## The last eviction -/

/-- How often the pool evicts in a trace. -/
def evictions (trace : List Deed) (i : Nat) : Nat :=
  trace.countP fun d => (d.section? i).any Section.evicts

theorem evictions_append (trace trace' : List Deed) (i : Nat) :
    evictions (trace ++ trace') i = evictions trace i + evictions trace' i :=
  List.countP_append

theorem evictions_singleton (d : Deed) (i : Nat) :
    evictions [d] i = if (d.section? i).any Section.evicts then 1 else 0 :=
  List.countP_singleton

theorem Deed.evicts_iff : (d.section? i).any Section.evicts = true ↔
    ∃ now, d.change = some (i, .evict now) := by
  rw [Option.any_eq_true]
  constructor
  · rintro ⟨x, hx, hevicts⟩
    cases x with
    | evict now => exact ⟨now, section?_eq_some_iff.1 hx⟩
    | _ => cases hevicts
  · rintro ⟨now, hchange⟩
    exact ⟨.evict now, section?_eq_some_iff.2 hchange, rfl⟩

/-- Only a task that evicts does so. If it had been aborted, this was its last turn. -/
theorem Turn.of_eviction (h : Turn m id task site phase d s')
    (hchange : d.change = some (i, .evict now)) :
    task.pool = i ∧ phase.errand? = some .evict ∧ (site.evictor.isAborted = false ∨
      ∃ due time base, phase = .evict (some due) ∧ site.evictor = .aborted time ∧ due ≤ time ∧
        s' = Scene.go base id (.finish .done)) := by
  cases h with
  | evict h =>
      cases hchange
      exact ⟨rfl, rfl, .inl h⟩
  | outlast h hdue =>
      cases hchange
      exact ⟨rfl, rfl, .inr ⟨_, _, _, rfl, h, hdue, rfl⟩⟩
  | _ => cases hchange

/-- A task that comes to its end is not on its errand any more. -/
theorem Turn.count_errands_lt (hs : m.scene.Orderly) (h : Turn m id task site phase d s')
    (hphase : task.phase = phase) (htask : m.tasks.get? id = some task)
    (hsite : m.sites[task.pool]? = some site) (herrand : phase.errand? = some errand)
    {base : Scene} {outcome : Outcome} (hfinish : s' = base.go id (.finish outcome)) :
    (s'.errands task.pool).count errand < (m.scene.errands task.pool).count errand := by
  have hothers := Registry.countP_gather_le_of_others hs.tasks
    (h.orderly hs hphase htask hsite).tasks id
    (fun k value hne hk => (h.others hne).symm.trans hk) (Task.errands task.pool) (· == errand)
  have hbefore : (task.errands task.pool).countP (· == errand) = 1 := by
    rw [Task.errands, if_pos rfl, hphase, herrand]
    simp
  have hafter : ((s'.tasks.get? id).elim [] (Task.errands task.pool)).countP (· == errand) = 0 := by
    rw [hfinish, Scene.errands_go rfl]
    rfl
  rw [show m.scene.tasks = m.tasks from rfl, htask, Option.elim_some] at hothers
  change List.countP _ (s'.tasks.gather _) < List.countP _ (m.tasks.gather _)
  omega

namespace Machine

theorem Relieved.evict_notMem (h : m.Relieved i) (hp : m.pool? i = some p)
    (hnone : .evict ∉ m.scene.errands i) : .evict ∉ m.errands i := by
  have houtbox := mt Pool.evict_mem_outbox_iff.2 (h.outbox p hp)
  rw [← List.count_eq_zero] at hnone ⊢
  rw [count_errands hp]
  omega

/-- An eviction after the abort is the last turn of a task that was past its sleep. -/
theorem Dismissed.of_eviction (h : m.Dismissed i) (hrun : Run trace m) (hmove : Move m d m')
    (hsite : m.sites[i]? = some site) (hquiet : site.pool.Quiet)
    (hchange : d.change = some (i, .evict now)) : m.Outlasts i ∧ .evict ∉ m'.errands i := by
  have hp := pool?_of_site hsite
  obtain ⟨id, task, other, htask, hother, hturn⟩ | hact := hmove.cases
  · obtain ⟨rfl, hevicts, hlives⟩ := hturn.of_eviction hchange
    cases hsite.symm.trans hother
    obtain ⟨time, haborted⟩ := h.aborted hrun htask rfl hevicts
    rw [evictors_of_site hsite, Option.some_inj] at haborted
    obtain hlives | ⟨due, time, base, hphase, habort, hdue, hfinish⟩ := hlives
    · rw [haborted] at hlives
      cases hlives
    · refine ⟨⟨id, task, site, due, time, htask, rfl, hsite, hphase, habort, hdue⟩, ?_⟩
      -- there was one task that evicts, and this has come to its end
      have hone := hrun.count_evict_le_one hp
      rw [count_errands hp] at hone
      have hlast :=
        hturn.count_errands_lt hrun.free.ledger.toOrderly rfl htask hsite hevicts hfinish
      refine (h.move hrun hmove hsite hquiet).1.evict_notMem (hmove.pool? hp) fun hmem => ?_
      have := List.count_pos_iff.2 hmem
      omega
  · cases hact.isAct hchange

/-- Whoever evicts is on an errand of the pool. -/
theorem Move.evicts (h : Move m d m') (hchange : d.change = some (i, .evict now)) :
    .evict ∈ m.errands i := by
  obtain ⟨id, task, site, htask, -, hturn⟩ | hact := h.cases
  · obtain ⟨hpool, hevicts, -⟩ := hturn.of_eviction hchange
    exact List.mem_append_right _ (Registry.mem_gather htask (Task.mem_errands.2 ⟨hpool, hevicts⟩))
  · cases hact.isAct hchange

/-- A quiet pool without errands of a kind gets none. -/
theorem Run.errand_notMem (h : Run trace m) (hmove : Move m d m') (hp : m.pool? i = some p)
    (hquiet : p.Quiet) (hnone : errand ∉ m.errands i) : errand ∉ m'.errands i := by
  rw [← List.count_eq_zero] at hnone ⊢
  have hcount := h.count_errands_le hmove hp hquiet errand
  omega

/-- What comes after the abort: there was no eviction yet, or there was one and there is nobody
left to evict. -/
structure Lingers (m : Machine) (i : Nat) (t : List Deed) (m' : Machine) : Prop where
  dismissed : m'.Dismissed i
  outlasts : m'.Outlasts i → m.Outlasts i
  evictions : evictions t i = 0 ∨
    evictions t i = 1 ∧ m.Outlasts i ∧ .evict ∉ m'.errands i

theorem Lingers.move {m₀ : Machine} (h : Lingers m₀ i t m) (hrun : Run trace m)
    (hmove : Move m d m') (hsite : m.sites[i]? = some site) (hquiet : site.pool.Quiet) :
    Lingers m₀ i (t ++ [d]) m' where
  dismissed := (h.dismissed.move hrun hmove hsite hquiet).1
  outlasts houtlasts := h.outlasts (h.dismissed.outlasts_of_move hrun hmove hsite hquiet houtlasts)
  evictions := by
    rw [evictions_append, evictions_singleton]
    split
    · rename_i hevicts
      obtain ⟨now, hchange⟩ := Deed.evicts_iff.1 hevicts
      obtain hnone | ⟨-, -, hnobody⟩ := h.evictions
      · obtain ⟨houtlasts, hlast⟩ := h.dismissed.of_eviction hrun hmove hsite hquiet hchange
        exact .inr ⟨by rw [hnone], h.outlasts houtlasts, hlast⟩
      · exact absurd (hmove.evicts hchange) hnobody
    · refine h.evictions.imp_right fun ⟨hone, houtlasts, hnobody⟩ => ⟨hone, houtlasts, ?_⟩
      exact hrun.errand_notMem hmove (pool?_of_site hsite) hquiet hnobody

theorem Dismissed.lingers (h : m.Dismissed i) (hrun : Run trace m) (hpath : Path m t m')
    (hp : m.pool? i = some p) (hquiet : p.Quiet) : Lingers m i t m' := by
  induction hpath with
  | stay => exact ⟨h, fun houtlasts => houtlasts, .inl rfl⟩
  | @move m₁ m₂ t d hpath hmove ih =>
      obtain ⟨p₁, hp₁, hwanes⟩ := hpath.wanes hrun hp hquiet
      obtain ⟨site, hsite, rfl⟩ := Option.map_eq_some_iff.1 hp₁
      exact ih.move (hrun.path hpath) hmove hsite hwanes.quiet

/-- A task that was past its sleep when it was aborted can evict. -/
theorem Outlasts.exists_move (h : m.Outlasts i) :
    ∃ d m', Move m d m' ∧ d.change = some (i, .evict m.now) := by
  obtain ⟨id, task, site, due, time, htask, rfl, hsite, hphase, haborted, hdue⟩ := h
  exact ⟨_, _, .outlast htask hsite hphase haborted hdue, rfl⟩

/-- Once the task has been aborted, the pool evicts once more at most, and it can do so exactly if
the task was past its sleep then. -/
theorem Dismissed.evictions (h : m.Dismissed i) (hrun : Run trace m) (hp : m.pool? i = some p)
    (hquiet : p.Quiet) : (∀ t m', Path m t m' → evictions t i ≤ 1) ∧
      ((∃ t m', Path m t m' ∧ 0 < evictions t i) ↔ m.Outlasts i) := by
  refine ⟨fun t m' hpath => ?_, ?_, fun houtlasts => ?_⟩
  · obtain hnone | ⟨hone, -⟩ := (h.lingers hrun hpath hp hquiet).evictions <;> omega
  · rintro ⟨t, m', hpath, hpos⟩
    obtain hnone | ⟨-, houtlasts, -⟩ := (h.lingers hrun hpath hp hquiet).evictions
    · omega
    · exact houtlasts
  · obtain ⟨d, m', hmove, hchange⟩ := houtlasts.exists_move
    refine ⟨[] ++ [d], m', .move (.stay m) hmove, ?_⟩
    rw [List.nil_append, evictions_singleton, if_pos (Deed.evicts_iff.2 ⟨_, hchange⟩)]
    exact Nat.one_pos

end Machine

end PooledSql
