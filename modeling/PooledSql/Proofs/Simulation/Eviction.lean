import PooledSql.Proofs.Pool.Eviction
import PooledSql.Proofs.Simulation.Audit
import PooledSql.Proofs.Simulation.Schedule

/-!
# Eviction in reachable states

Whatever has become of the node that the cursor was about to visit, the available resources of a
pool that can be reached are in order, so an eviction run goes round them.
-/

namespace PooledSql

namespace Pool

variable {ρ : Type} {p p' : Pool ρ} {evictor evictor' : Evictor ρ} {now now' : Instant}
variable {log exams : List (Examination ρ)} {tests : Nat}

/-- The resources in the order of the next run: those that this one did not come to, and then
those that it kept. -/
def upcoming (p : Pool ρ) (log : List (Examination ρ)) : List (Handle × Pooled ρ) :=
  p.tour.drop log.length ++ (log.filter (!·.evicted)).map Examination.entry

/-- A run goes on from where the last one stopped, if nothing has changed what is available. -/
theorem Inspection.exists_next (h : Inspection evictor now p tests log exams p')
    (hlength : exams.length = tests) {sections : List (Section ρ)}
    (hsections : ∀ s ∈ sections, s.evicts = false)
    (havailable : (sections.foldl Section.run p').available = p'.available)
    (evictor' : Evictor ρ) (now' : Instant) :
    ∃ run, EvictionRun.Ends evictor' now' (.begin (sections.foldl Section.run p')) run ∧
      run.log.map Examination.entry =
        (p.upcoming exams).take (min p.config.testsPerEviction p'.available.length) := by
  obtain ⟨run, hends, hinspection, -⟩ :=
    exists_ends (havailable.symm ▸ h.wf) evictor' now'
  have hconfig : (sections.foldl Section.run p').config = p.config :=
    (Section.config_foldl p' sections).trans h.config
  have htour : (sections.foldl Section.run p').tour = p'.tour := by
    rw [tour, havailable, Section.evictionCursor_foldl p' hsections, tour]
  refine ⟨run, hends, ?_⟩
  rw [hinspection.examined, htour, h.turn, havailable, hconfig, upcoming, hlength]

end Pool

namespace Machine

open Pool

variable {trace : List Deed} {m : Machine} {i : Nat} {p : Pool Connection}

/-- In every state that can be reached an eviction run comes to its end. It tests as many available
resources as it should, all of them different, going round the deque from where the cursor is; those
that the evictor gives up leave and are destroyed, and the others keep their order. The next run
goes on from there, whatever has been done that left the available resources alone. The standard
policy leaves the minimum as long as none of them is beyond the hard limit. -/
theorem eviction_goes_round (h : FreeRun trace m) (hp : m.pool? i = some p)
    (evictor : Evictor Connection) (now : Instant) :
    ∃ run, EvictionRun.Ends evictor now (.begin p) run ∧
      run.log.length = min p.config.testsPerEviction p.available.length ∧
      (run.log.map (·.handle)).Nodup ∧
      p.tour ~r p.available.entries ∧
      Inspection evictor now p run.log.length [] run.log run.pool ∧
      ((∀ log, evictor log = p.policy) → run.pool = p.evict now) ∧
      (∀ (sections : List (Section Connection)) (evictor' : Evictor Connection) (now' : Instant),
        (∀ s ∈ sections, s.evicts = false) →
        (sections.foldl Section.run run.pool).available = run.pool.available →
        ∃ run', EvictionRun.Ends evictor' now' (.begin (sections.foldl Section.run run.pool)) run' ∧
          run'.log.map Examination.entry = (p.upcoming run.log).take
            (min p.config.testsPerEviction run.pool.available.length)) ∧
      ((∀ log, evictor log = .standard) →
        (∀ x ∈ p.available.toList, x.idleTime now ≤ p.config.idleTimeout) →
        min p.config.min p.available.length ≤ run.pool.available.length) := by
  have hwf := (h.ledger.placed i p ((pool?_eq _ _).symm.trans hp)).sound.shelf
  obtain ⟨run, hends, hinspection, hpolicy⟩ := exists_ends hwf evictor now
  have hlength := hinspection.length
    ((length_tour hwf).symm ▸ Nat.min_le_right p.config.testsPerEviction p.available.length)
  refine ⟨run, hends, hlength, hinspection.nodup hwf, Deque.tour_isRotated _ _,
    hlength.symm ▸ hinspection, hpolicy, fun sections evictor' now' hsections havailable => ?_,
    hinspection.min_le⟩
  exact hinspection.exists_next hlength hsections havailable evictor' now'

/-- One test in a run, and a soft limit above which one resource is left. -/
def evictingConfig : PoolConfig where
  min := 1
  max := 2
  testsPerEviction := 1
  evictionInterval := 5
  softIdleTimeout := some 6

/-- Two resources of which one was to be tested next, when both have been lent and have come back:
its node has gone, and another one has its slot. -/
def staleCursor : List Deed × Machine :=
  scheduled [.build evictingConfig {},
    .start 0, .perform 0, .perform 0, .part 1, .part 1,
    .begin (.acquire 0 "a" 0), .part 2, .perform 0, .part 2,
    .begin (.acquire 0 "b" 0), .part 3, .perform 0, .part 4, .part 4, .perform 0, .part 3,
    .begin (.release 0 "a"), .part 5, .begin (.release 0 "b"), .part 6,
    .part 0, .sleep 5, .part 0,
    .begin (.acquire 0 "a" 0), .part 7, .perform 0, .part 7,
    .begin (.acquire 0 "b" 0), .part 8, .perform 0, .part 8,
    .begin (.release 0 "a"), .part 9, .begin (.release 0 "b"), .part 10]

/-- The run starts at the front, and gives up one of the two; the next run comes to the other. -/
theorem eviction_goes_round_staleCursor : ∃ p run run', staleCursor.2.pool? 0 = some p ∧
    p.evictionCursor.upcoming = some ⟨0, 2⟩ ∧ p.available.get? ⟨0, 2⟩ = none ∧
    EvictionRun.Ends (fun _ => .standard) 12 (.begin p) run ∧
    run.log.map (·.evicted) = [true] ∧ run.pool.available.length = 1 ∧
    EvictionRun.Ends (fun _ => .standard) 12 (.begin run.pool) run' ∧
    run'.log.map (·.handle) = [⟨0, 3⟩] := by
  have hrun : FreeRun staleCursor.1 staleCursor.2 := (run_scheduled _).free
  obtain ⟨p, hp, hcursor, hgone, hpolicy, hconfig, htour, havailable, hlast⟩ :
      ∃ p, staleCursor.2.pool? 0 = some p ∧ p.evictionCursor.upcoming = some ⟨0, 2⟩ ∧
        p.available.get? ⟨0, 2⟩ = none ∧ p.policy = .standard ∧
        p.config = evictingConfig.normalize ∧ p.tour.map (·.1) = [⟨1, 1⟩, ⟨0, 3⟩] ∧
        p.available.length = 2 ∧ (p.evict 12).available.length = 1 :=
    ⟨_, rfl, rfl, rfl, rfl, rfl, rfl, rfl, rfl⟩
  obtain ⟨run, hends, hlength, -, -, hinspection, hmemoryless, hnext, -⟩ :=
    eviction_goes_round hrun hp (fun _ => .standard) 12
  have hone : min p.config.testsPerEviction p.available.length = 1 := by
    rw [hconfig, havailable]
    rfl
  rw [hone] at hlength
  have hrest : run.pool.available.length = 1 := by
    rw [hmemoryless fun _ => hpolicy.symm, hlast]
  obtain ⟨e, hlog⟩ := List.length_eq_one_iff.1 hlength
  have hevicted : e.evicted = true := by
    have hcount := hinspection.available
    rw [hrest, havailable, hlog, List.countP_singleton] at hcount
    by_contra hkept
    rw [if_neg hkept] at hcount
    cases hcount
  obtain ⟨run', hends', hlog'⟩ :=
    hnext [] (fun _ => .standard) 12 (List.forall_mem_nil _) rfl
  refine ⟨p, run, run', hp, hcursor, hgone, hends, ?_, hrest, hends', ?_⟩
  · rw [hlog, List.map_singleton, hevicted]
  · have hhandles := congrArg (List.map (·.1)) hlog'
    rw [hrest, hconfig, Pool.upcoming, hlog] at hhandles
    simp only [List.filter_singleton, hevicted, List.map_take, List.map_append, List.map_drop,
      htour] at hhandles
    rw [List.map_map] at hhandles
    exact hhandles

end Machine

end PooledSql
