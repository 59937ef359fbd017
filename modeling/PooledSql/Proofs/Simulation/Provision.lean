import PooledSql.Proofs.Pool.Admission
import PooledSql.Proofs.Pool.Minimum
import PooledSql.Proofs.Simulation.Audit
import PooledSql.Proofs.Simulation.Runtime
import PooledSql.Proofs.Simulation.Schedule

/-!
# Provision

Two bounds of what a pool holds ready, in every state of a run inside a runtime. From above: with
a limit on those who wait, callers who wait and callers who are served are together no more than
the limit above all resources. From below: a pool that was started has its minimum, unless a
resource could not be made, and then has it again as soon as one is taken out.
-/

namespace PooledSql

open Machine

variable {m m' : Machine} {d : Deed} {trace : List Deed} {i : Nat} {p : Pool Connection}

namespace Machine

/-- What holds of a new pool and is kept by sections, every run keeps. -/
theorem Run.pool_induction {I : List Deed → Pool Connection → Prop}
    (hidle : ∀ trace config policy recycling, I trace (.idle i config policy recycling))
    (hstay : ∀ trace d p, (∀ x, d.change ≠ some (i, x)) → I trace p → I (trace ++ [d]) p)
    (hsection : ∀ trace d x p, d.change = some (i, x) → p.Sound [] → x.Ready p →
      x.abandons = false → I trace p → I (trace ++ [d]) (x.run p))
    (h : Run trace m) (hp : m.pool? i = some p) : I trace p := by
  induction h generalizing p with
  | idle server => cases hp
  | @move trace m m' d h hmove ih =>
      cases hformer : m.pool? i with
      | none =>
          -- only a pool that is built was not there before
          obtain ⟨-, config, policy, recycling, rfl⟩ := hmove.of_pool?_none hformer hp
          exact hidle _ config policy recycling
      | some q =>
          cases hp.symm.trans (hmove.pool? hformer)
          obtain ⟨hnone, heq⟩ | ⟨x, hchange, heq⟩ := d.run_cases i q <;> rw [heq]
          · exact hstay trace d q hnone (ih hformer)
          · obtain ⟨hsound, hready, hstarts⟩ := h.section_of_move hmove hformer hchange
            exact hsection trace d x q hchange hsound hready hstarts (ih hformer)

end Machine

/-! ## Those who wait -/

theorem Pool.covered_idle (most id : Nat) (config : PoolConfig) (policy : EvictionPolicy)
    (recycling : Option RecyclingConfig) :
    (Pool.idle id config policy recycling : Pool Connection).Covered most := by
  refine covered_of_waiting ?_
  rw [idle, (PriorityQueue.wf_ofSlots _).length_toList, PriorityQueue.toList_ofSlots]
  rfl

theorem Machine.Run.covered {most : Nat} (h : Run trace m) (hp : m.pool? i = some p)
    (hmost : p.config.maxWaiting = some most) : p.Covered most := by
  refine Run.pool_induction
    (I := fun _ p => p.config.maxWaiting = some most → p.Covered most) ?_ ?_ ?_ h hp hmost
  · intro _ config policy recycling _
    exact Pool.covered_idle most i config policy recycling
  · intro _ _ _ _ hcovered
    exact hcovered
  · intro _ _ x q _ hsound hready hstarts hcovered hmost
    rw [(Section.frame q x).config] at hmost
    exact Section.covered (hcovered hmost) hsound hready hstarts hmost

/-- A request is accepted if there is room for a resource or one on the shelf, however many wait. -/
theorem Pool.Sound.request_ok (hsound : p.Sound []) (hstarted : p.started = true)
    (hdraining : p.draining = false) (hroom : 0 < p.spare ∨ 0 < p.available.length)
    (now : Instant) (call : CallId) (priority : Nat) :
    ∃ k, (p.request now call priority).1 = .ok k := by
  have hfree : ∀ most, p.isCrowded most = false := by
    intro most
    obtain hspare | havailable := hroom
    · simp [isCrowded, hspare.ne']
    · have hsome : p.available.isEmpty = false := by
        rw [Bool.eq_false_iff, ne_eq, hsound.shelf.isEmpty_iff, ← List.length_eq_zero_iff,
          ← hsound.shelf.length_toList]
        exact havailable.ne'
      simp [isCrowded, hsome]
  simp only [request, hstarted, hdraining, if_true, Bool.false_eq_true, if_false, hfree]
  cases p.config.maxWaiting <;> exact ⟨_, rfl⟩

/-- With a limit on those who wait there are never more callers in the queue and with resources
than the limit above all resources, although requests are accepted beyond the limit as long as
there is room for a resource or one on the shelf. -/
theorem pending_add_borrowed_le {most : Nat} (h : Run trace m) (hp : m.pool? i = some p)
    (hmost : p.config.maxWaiting = some most) :
    p.status.pending + p.status.borrowed ≤ most + p.status.size ∧
      p.status.pending + p.status.borrowed ≤ most + p.status.max ∧
      (p.started = true → p.draining = false → 0 < p.spare ∨ 0 < p.available.length →
        ∀ now call priority, ∃ k, (p.request now call priority).1 = .ok k) := by
  have hsound := (h.free.ledger.placed i p ((pool?_eq _ _).symm.trans hp)).sound
  have hbound := (h.covered hp hmost).add_loans_le hsound
  refine ⟨hbound, hbound.trans (Nat.add_le_add_left hsound.room most), ?_⟩
  intro hstarted hdraining hroom now call priority
  exact hsound.request_ok hstarted hdraining hroom now call priority

/-- One caller waits, and may, for the one resource that there may be, which is on loan. -/
def crowded : List Deed × Machine :=
  scheduled [.build { max := 1, maxWaiting := some 1 } {},
    .begin (.acquire 0 "a" 0), .part 0, .perform 0, .part 1, .part 1, .perform 0, .part 0,
    .begin (.acquire 0 "b" 0), .part 2]

/-- The bound is reached. -/
theorem pending_add_borrowed_crowded : ∃ p, crowded.2.pool? 0 = some p ∧
    p.config.maxWaiting = some 1 ∧ p.status.pending + p.status.borrowed ≤ 1 + p.status.size ∧
    p.status.pending + p.status.borrowed = 2 ∧ p.status.size = 1 := by
  have hrun : Run crowded.1 crowded.2 := run_scheduled _
  have hbound := pending_add_borrowed_le (i := 0) hrun rfl rfl
  exact ⟨_, rfl, rfl, hbound.1, by decide, by decide⟩

/-! ## The minimum -/

/-- A resource of the pool could not be made. -/
def Deed.FailsCreation (i : Nat) (d : Deed) : Prop :=
  ∃ now, d.change = some (i, .creationEnded now none)

/-- A resource is taken out of the pool. -/
def Deed.Removes (i : Nat) (p : Pool Connection) (d : Deed) : Prop :=
  ∃ x, d.change = some (i, x) ∧ x.Removes p

theorem Section.failsCreation_eq_false {x : Section Connection} (hchange : d.change = some (i, x))
    (h : ¬ d.FailsCreation i) : x.failsCreation = false := by
  rw [Bool.eq_false_iff]
  intro hfails
  cases x with
  | creationEnded now made =>
      cases made with
      | none => exact h ⟨now, hchange⟩
      | some resource => cases hfails
  | _ => cases hfails

theorem Machine.Run.filled (h : Run trace m) (hp : m.pool? i = some p)
    (hmade : ∀ d ∈ trace, ¬ d.FailsCreation i) : p.Filled := by
  refine Run.pool_induction (I := fun trace p =>
    (∀ d ∈ trace, ¬ d.FailsCreation i) → p.Filled) ?_ ?_ ?_ h hp hmade
  · intro _ config policy recycling _ hstarted
    cases hstarted
  · intro trace d p _ hfilled hmade
    exact hfilled fun e he => hmade e (List.mem_append_left _ he)
  · intro trace d x p hchange hsound hready hstarts hfilled hmade
    have hlast := hmade d (List.mem_append_right _ List.mem_cons_self)
    exact Section.filled hsound hready hstarts (Section.failsCreation_eq_false hchange hlast)
      (hfilled fun e he => hmade e (List.mem_append_left _ he))

/-- A pool that was started and does not drain has its minimum as long as every resource could be
made. No other move takes it below the minimum, and whatever has happened before, it is back at its
minimum when a resource was taken out. -/
theorem minimum_maintained (h : Run trace m) (hp : m.pool? i = some p)
    (hstarted : p.started = true) (hdraining : p.draining = false) :
    ((∀ d ∈ trace, ¬ d.FailsCreation i) → p.status.min ≤ p.status.size) ∧
      ∀ d m' p', Move m d m' → m'.pool? i = some p' →
        (p.status.min ≤ p.status.size → ¬ d.FailsCreation i → p'.status.min ≤ p'.status.size) ∧
        (d.Removes i p → p'.status.min ≤ p'.status.size) := by
  refine ⟨fun hmade => h.filled hp hmade hstarted hdraining, ?_⟩
  intro d m' p' hmove hp'
  cases hp'.symm.trans (hmove.pool? hp)
  obtain ⟨hnone, heq⟩ | ⟨x, hchange, heq⟩ := d.run_cases i p <;> rw [heq]
  · refine ⟨fun hmin _ => hmin, ?_⟩
    rintro ⟨x, hchange, -⟩
    exact absurd hchange (hnone x)
  · obtain ⟨hsound, hready, hstarts⟩ := h.section_of_move hmove hp hchange
    constructor
    · intro hmin hmade
      exact Section.min_le_size hsound hready hstarts (Section.failsCreation_eq_false hchange hmade)
        hdraining hmin
    · rintro ⟨y, hy, hremoves⟩
      cases hchange.symm.trans hy
      exact Section.min_le_of_removes hsound hready hstarts hremoves hdraining

/-- One of the two connections that the pool keeps could not be made, and the other is on loan to a
caller who has it destroyed. -/
def short : List Deed × Machine :=
  scheduled [.build { min := 2 } { creation := { told := [{}, { fails := true }] } },
    .start 0, .perform 0, .perform 0, .part 0, .part 0, .part 1, .part 1,
    .begin (.acquire 0 "a" 0), .part 2, .perform 0, .part 2, .begin (.destroy 0 "a")]

/-- The pool is below its minimum until the connection is taken out. -/
theorem minimum_maintained_short : ∃ p p' d m', short.2.pool? 0 = some p ∧
    p.status.size = 1 ∧ p.status.min = 2 ∧ Move short.2 d m' ∧ d.Removes 0 p ∧
    m'.pool? 0 = some p' ∧ p'.status.min ≤ p'.status.size := by
  have hrun : Run short.1 short.2 := run_scheduled _
  have hmaintained := minimum_maintained (i := 0) hrun rfl rfl rfl
  have hmove := move_of_choose (show short.2.choose (.part 3) = some _ from rfl)
  refine ⟨_, _, _, _, rfl, by decide, by decide, hmove, ⟨_, rfl, trivial⟩, rfl, ?_⟩
  apply (hmaintained.2 _ _ _ hmove rfl).2
  exact ⟨_, rfl, trivial⟩

end PooledSql
