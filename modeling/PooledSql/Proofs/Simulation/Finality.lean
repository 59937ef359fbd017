import PooledSql.Proofs.Simulation.Dismissal

/-!
# After a drain

When a drain has ended, nobody waits and nothing is lent any more, all requests are refused, and the
pool sends for no connection to be made or validated. What it has sent for before may still begin: a
task that was started for a connection does not look again whether its pool drains. The task that
evicts has been aborted, unless another drain is about to do that, but if it was past its sleep then
it can evict once more.
-/

namespace PooledSql

open Machine

variable {m m' m₁ m₂ : Machine} {s s' : Scene} {id : TaskId} {task task' : Task} {site : Site}
variable {phase next : Phase} {d : Deed} {trace t : List Deed} {i : Nat} {p : Pool Connection}
variable {errand : Errand}

namespace Machine

/-- Where the pool sends for the task that evicts, this task is started before anything else. -/
def Prompt (m : Machine) (d : Deed) : Prop :=
  ∀ i p, m.pool? i = some p → .evict ∈ p.outbox →
    ∃ before after, d.change = some (i, .launch before .evict after)

/-- Runs inside a runtime in which the task that evicts is started within the section that sends
for it. -/
inductive PromptRun : List Deed → Machine → Prop where
  | idle (server : Server) : PromptRun [] { server }
  | move {trace : List Deed} {m m' : Machine} {d : Deed} (h : PromptRun trace m)
      (hmove : Move m d m') (hprompt : m.Prompt d) : PromptRun (trace ++ [d]) m'

theorem PromptRun.run (h : PromptRun trace m) : Run trace m := by
  induction h with
  | idle server => exact .idle server
  | move _ hmove _ ih => exact .move ih hmove

/-- A drain that is about to end has seen to it that the pool has no handle any more. -/
theorem PromptRun.relieved {evictor : Option TaskId} (h : PromptRun trace m)
    (htask : m.tasks.get? id = some task) (hphase : task.phase = .drained evictor) :
    m.Relieved task.pool := by
  induction h generalizing task with
  | idle server => cases htask
  | @move trace m m' d h hmove hprompt ih =>
      -- since it looked for the handle the pool has been quiet
      have hstays : ∀ {former : Task}, m.tasks.get? id = some former →
          former.phase = .drained evictor → m'.Relieved former.pool := by
        intro former hformer hdrained
        obtain ⟨p, hp, hfound⟩ := h.run.found hformer (by rw [hdrained]; rfl)
        rw [hdrained] at hfound
        exact (ih hformer hdrained).move h.run hmove hp hfound.toQuiet
      obtain ⟨former, hformer, hpool, hsame⟩ | ⟨former, site, hformer, hsite, hpool, hturn⟩ |
        ⟨former, -, hunwind⟩ | ⟨-, -, hnew, -⟩ := hmove.origin h.run.free.ledger.toOrderly htask
      · exact hpool ▸ hstays hformer (hsame.symm.trans hphase)
      · rw [hpool]
        obtain hdrained | ⟨rfl, hlooked⟩ := hturn.to_drained rfl hformer htask hphase
        · exact hstays hformer hdrained
        · refine ⟨fun other hkept => ?_, fun p' hp' hmem => ?_⟩
          · obtain ⟨-, -, -, heq⟩ | ⟨hnone, -, heq⟩ := hlooked <;> rw [heq] at hkept
            · cases (evictors_set_of_site hsite _).symm.trans hkept
            · rw [evictors_of_site hsite, Option.some_inj] at hkept
              exact hnone other hkept
          · -- the task that is sent for would have been started first
            cases hp'.symm.trans (hmove.pool? (pool?_of_site hsite))
            obtain ⟨before, after, hlaunch⟩ := hprompt _ _ (pool?_of_site hsite) hmem
            cases hlaunch
      · have hunwind := hunwind.symm.trans hphase
        cases hformer : former.phase <;> rw [hformer] at hunwind <;> cases hunwind
      · rw [hphase] at hnew
        cases hnew

theorem PromptRun.relieved_of_goesOn {evictor : Option TaskId} (h : PromptRun trace m)
    (hmove : Move m d m') (hgoes : m.GoesOn i id (.drained evictor) (.finish .done) m') :
    m'.Relieved i := by
  obtain ⟨task, htask, rfl, hphase, -⟩ := hgoes
  obtain ⟨p, hp, hfound⟩ := h.run.found htask (by rw [hphase]; rfl)
  rw [hphase] at hfound
  exact (h.relieved htask hphase).move h.run hmove hp hfound.toQuiet

/-! ## What follows -/

theorem Relieved.path (h : m.Relieved i) (hrun : Run trace m) (hpath : Path m t m')
    (hp : m.pool? i = some p) (hquiet : p.Quiet) : m'.Relieved i := by
  induction hpath with
  | stay => exact h
  | move hpath hmove ih =>
      obtain ⟨p₁, hp₁, hwanes⟩ := hpath.wanes hrun hp hquiet
      exact ih.move (hrun.path hpath) hmove hp₁ hwanes.quiet

theorem Path.count_errands (hrun : Run trace m) (hpath : Path m t m') (hp : m.pool? i = some p)
    (hquiet : p.Quiet) (errand : Errand) :
    (begun t i).count errand + (m'.errands i).count errand ≤ (m.errands i).count errand := by
  induction hpath with
  | stay => exact (Nat.zero_add _).le
  | @move m₁ m₂ t d hpath hmove ih =>
      obtain ⟨p₁, hp₁, hwanes⟩ := hpath.wanes hrun hp hquiet
      have hcount := (hrun.path hpath).count_errands_le hmove hp₁ hwanes.quiet errand
      rw [begun_append, List.count_append]
      omega

/-- Once a pool is quiet, the calls that begin and the errands that are left are among those that
the pool had sent for. -/
theorem Path.errands (hrun : Run trace m) (hpath : Path m t m') (hp : m.pool? i = some p)
    (hquiet : p.Quiet) : (begun t i ++ m'.errands i).Subperm (m.errands i) := by
  rw [List.subperm_ext_iff]
  intro errand _
  rw [List.count_append]
  exact hpath.count_errands hrun hp hquiet errand

end Machine

/-- After a drain nobody waits and nothing is lent, and every request is refused. The calls that
make or validate connections from then on are some of those that the pool had sent for before, and
no others are sent for. Unless another drain has the handle of the task that evicts, there is one
more eviction at most, which a task makes that was past its sleep when it was aborted. -/
theorem draining_is_final {evictor : Option TaskId} (hrun : PromptRun trace m)
    (hmove : Move m d m₁) (hdrained : m.GoesOn i id (.drained evictor) (.finish .done) m₁)
    (hpath : Path m₁ t m₂) :
    ∃ p, m₂.pool? i = some p ∧ p.status.pending = 0 ∧ p.status.borrowed = 0 ∧
      (∀ now call priority, p.request now call priority = (.error .draining, p)) ∧
      (begun t i ++ m₂.errands i).Subperm (m₁.errands i) ∧
      ((∀ evictor, ¬ m₂.scene.Holds i evictor) →
        (∀ t' m₃, Path m₂ t' m₃ → evictions t' i ≤ 1) ∧
        ((∃ t' m₃, Path m₂ t' m₃ ∧ 0 < evictions t' i) ↔ m₂.Outlasts i)) := by
  have hrun₁ := hrun.run.move hmove
  obtain ⟨p₁, hp₁, hdrained₁⟩ := (hrun.run.closing_of_drained hmove hdrained).pool
  have hrelieved₁ : m₁.Relieved i := hrun.relieved_of_goesOn hmove hdrained
  obtain ⟨p, hp, hwanes⟩ := hpath.wanes hrun₁ hp₁ hdrained₁.toQuiet
  refine ⟨p, hp, hwanes.quiet.waiting, (hwanes.drained hdrained₁).size_loans,
    hwanes.quiet.request, hpath.errands hrun₁ hp₁ hdrained₁.toQuiet, fun hreleased => ?_⟩
  have hdismissed : m₂.Dismissed i :=
    ⟨hrelieved₁.path hrun₁ hpath hp₁ hdrained₁.toQuiet, hreleased⟩
  exact hdismissed.evictions (hrun₁.path hpath) hp hwanes.quiet

/-! ## A connection and an eviction after the drain -/

namespace Machine

/-- No outbox sends for a task to evict, or this task is started next. -/
def isPrompt (m : Machine) (d : Deed) : Bool :=
  m.sites.zipIdx.all fun (site, i) =>
    site.pool.outbox.all (fun action => !action.sendsFor .evict) || match d.change with
    | some (index, .launch _ .evict _) => index == i
    | _ => false

theorem prompt_of_isPrompt (h : m.isPrompt d = true) : m.Prompt d := by
  intro i p hp hmem
  obtain ⟨site, hsite, rfl⟩ := Option.map_eq_some_iff.1 hp
  have hmember : (site, i) ∈ m.sites.zipIdx := List.mk_mem_zipIdx_iff_getElem?.2 hsite
  have hchecks := List.all_eq_true.1 h _ hmember
  rw [Bool.or_eq_true] at hchecks
  obtain hnone | hnext := hchecks
  · cases List.all_eq_true.1 hnone _ hmem
  · split at hnext
    · rename_i index before after hchange
      obtain rfl := beq_iff_eq.1 hnext
      exact ⟨before, after, hchange⟩
    · cases hnext

/-- Each choice in turn is prompt. -/
def followsPromptly (m : Machine) : List Choice → Bool
  | [] => true
  | choice :: choices =>
    match m.choose choice with
    | some (d, m') => m.isPrompt d && m'.followsPromptly choices
    | none => true

theorem PromptRun.follow (h : PromptRun trace m) (choices : List Choice)
    (hprompt : m.followsPromptly choices = true) :
    PromptRun (trace ++ (m.follow choices).1) (m.follow choices).2 := by
  induction choices generalizing trace m with
  | nil =>
      rw [Machine.follow, List.append_nil]
      exact h
  | cons choice choices ih =>
      rw [Machine.follow]
      rw [followsPromptly] at hprompt
      cases hchoose : m.choose choice with
      | none =>
          rw [List.append_nil]
          exact h
      | some next =>
          obtain ⟨d, m'⟩ := next
          rw [hchoose, Bool.and_eq_true] at hprompt
          rw [List.append_cons]
          exact ih (h.move (move_of_choose hchoose) (prompt_of_isPrompt hprompt.1)) hprompt.2

/-- No drain of the pool has the handle of a task. -/
def isReleased (m : Machine) (i : Nat) : Bool :=
  m.tasks.entries.all fun (_, task) => task.pool != i || match task.phase with
    | .drained (some _) => false
    | _ => true

theorem not_holds_of_isReleased (h : m.isReleased i = true) (evictor : TaskId) :
    ¬ m.scene.Holds i evictor := by
  rintro ⟨id, task, htask, rfl, hphase⟩
  have hchecks := List.all_eq_true.1 h _ (Registry.mem_entries_of_get? htask)
  simp [hphase] at hchecks

end Machine

/-- A pool is drained while its second connection is not sent for yet and the task that evicts is
past its sleep. -/
def drainedEarly : List Choice :=
  [.build { min := 2, evictionInterval := 5, idleTimeout := 5 } {}, .start 0, .perform 0,
    .perform 0, .part 0, .part 1, .part 1, .begin (.drain 0 "d"), .part 2, .part 2, .part 2,
    .part 2, .sleep 10]

/-- After the drain the connection is made, and the first one is evicted. -/
theorem drainedEarly_goesOn : ∃ trace m d m₁ t m₂ t' m₃ p, PromptRun trace m ∧ Move m d m₁ ∧
    m.Prompt d ∧ m.GoesOn 0 2 (.drained (some 0)) (.finish .done) m₁ ∧ Path m₁ t m₂ ∧
    m₁.errands 0 = [.create, .evict] ∧ begun t 0 = [.create] ∧
    (∀ evictor, ¬ m₂.scene.Holds 0 evictor) ∧ Path m₂ t' m₃ ∧ evictions t' 0 = 1 ∧
    m₃.pool? 0 = some p ∧ p.metrics.evictions = 1 := by
  refine ⟨_, _, _, _, _, _, _, _, _, (PromptRun.idle (.echo 0)).follow drainedEarly (by decide),
    move_of_choose (show Machine.choose _ (.part 2) = some _ from rfl),
    prompt_of_isPrompt (by decide), ⟨_, rfl, rfl, rfl, rfl⟩, path_follow _ [.perform 0, .part 3],
    ?_, ?_, not_holds_of_isReleased (by decide), path_follow _ [.outlast 0], ?_, rfl, ?_⟩ <;> decide

theorem draining_is_final_drainedEarly : ∃ trace m d m₁ t m₂ t' m₃ p, PromptRun trace m ∧
    Move m d m₁ ∧ m.GoesOn 0 2 (.drained (some 0)) (.finish .done) m₁ ∧ Path m₁ t m₂ ∧
    m₂.pool? 0 = some p ∧ p.status.pending = 0 ∧ p.status.borrowed = 0 ∧
    (∀ now call priority, p.request now call priority = (.error .draining, p)) ∧
    (.create :: m₂.errands 0).Subperm [.create, .evict] ∧
    (∀ evictor, ¬ m₂.scene.Holds 0 evictor) ∧ Path m₂ t' m₃ ∧ evictions t' 0 = 1 ∧
    m₂.Outlasts 0 ∧ ∀ t' m₃, Path m₂ t' m₃ → evictions t' 0 ≤ 1 := by
  obtain ⟨trace, m, d, m₁, t, m₂, t', m₃, -, hrun, hmove, -, hdrained, hpath, hbefore, hbegun,
    hreleased, hpath', hevicts, -⟩ := drainedEarly_goesOn
  obtain ⟨p, hp, hpending, hborrowed, hrefused, herrands, hevictions⟩ :=
    draining_is_final hrun hmove hdrained hpath
  obtain ⟨honce, houtlasts⟩ := hevictions hreleased
  rw [hbegun, hbefore] at herrands
  exact ⟨trace, m, d, m₁, t, m₂, t', m₃, p, hrun, hmove, hdrained, hpath, hp, hpending, hborrowed,
    hrefused, herrands, hreleased, hpath', hevicts,
    houtlasts.1 ⟨t', m₃, hpath', by rw [hevicts]; exact Nat.one_pos⟩, honce⟩

/-- Neither need the calls be over when the drain ends, nor the evictions. -/
theorem not_forall_over :
    (¬ ∀ i id trace m d evictor m₁ t m₂, PromptRun trace m → Move m d m₁ → m.Prompt d →
      m.GoesOn i id (.drained evictor) (.finish .done) m₁ → Path m₁ t m₂ → begun t i = []) ∧
    ¬ ∀ i id trace m d evictor m₁ t m₂, PromptRun trace m → Move m d m₁ → m.Prompt d →
      m.GoesOn i id (.drained evictor) (.finish .done) m₁ → Path m₁ t m₂ → evictions t i = 0 := by
  obtain ⟨trace, m, d, m₁, t, m₂, t', m₃, -, hrun, hmove, hprompt, hdrained, hpath, -, hbegun, -,
    hpath', hevicts, -⟩ := drainedEarly_goesOn
  constructor
  · intro h
    cases hbegun.symm.trans (h 0 2 trace m d _ m₁ t m₂ hrun hmove hprompt hdrained hpath)
  · intro h
    have hnone := h 0 2 trace m d _ m₁ _ m₃ hrun hmove hprompt hdrained (hpath.trans hpath')
    rw [evictions_append, hevicts] at hnone
    omega

end PooledSql
