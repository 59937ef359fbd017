import PooledSql.Proofs.Pool.IdleOrder
import PooledSql.Proofs.Simulation.Attendance
import PooledSql.Proofs.Simulation.Clock
import PooledSql.Proofs.Simulation.Schedule

/-!
# Idle order in steady runs

Sections see the time of the machine. As long as the clock does not go back, what becomes ready is
stamped later than all that are available, so the order that a section keeps at its time is kept in
every state that can be reached.
-/

namespace PooledSql

open Machine

variable {trace : List Deed} {m m' : Machine} {d : Deed} {i : Nat} {s : Section Connection}
variable {p : Pool Connection} {id : TaskId} {task : Task} {site : Site} {phase : Phase}
variable {scene : Scene}

theorem Turn.now_of_time? (h : Turn m id task site phase d scene)
    (hchange : d.change = some (i, s)) : ∀ time ∈ s.time?, time = m.now := by
  cases h <;> cases hchange <;> rintro time (_ | _) <;> rfl

theorem Act.now_of_time? (h : Act m d scene) (hchange : d.change = some (i, s)) :
    ∀ time ∈ s.time?, time = m.now := by
  cases h with
  | stop =>
      rw [stopDeed] at hchange
      split at hchange <;> cases hchange
  | _ => cases hchange <;> rintro time (_ | _) <;> rfl

namespace Machine

theorem Move.now_of_time? (h : Move m d m') (hchange : d.change = some (i, s)) :
    ∀ time ∈ s.time?, time = m.now := by
  obtain ⟨id, task, site, -, -, hturn⟩ | hact := h.cases
  · exact hturn.now_of_time? hchange
  · exact hact.now_of_time? hchange

/-- What the section of a move does to the available resources. -/
theorem FreeRun.exists_draws (h : FreeRun trace m) (hmove : Move m d m') (hp : m.pool? i = some p)
    (hchange : d.change = some (i, s)) :
    ∃ taken rest, s.Draws m.now p taken rest (s.run p) := by
  obtain ⟨hsound, hready⟩ := h.section_of_move hmove hp hchange
  have hattended := h.attends.attended i p ((pool?_eq _ _).symm.trans hp)
  exact Section.exists_draws hsound hattended hready (hmove.proper h.attends hp hchange)
    (hmove.now_of_time? hchange)

theorem SteadyRun.idleOrder (h : SteadyRun trace m) (hp : m.pool? i = some p) :
    IdleOrder p.config.fifo m.now p.available.toList := by
  induction h generalizing p with
  | idle server => cases hp
  | @move trace m m' d h hmove ih =>
      cases hformer : m.pool? i with
      | none =>
          obtain ⟨-, config, policy, recycling, rfl⟩ := hmove.of_pool?_none hformer hp
          exact .nil _ _
      | some q =>
          cases hp.symm.trans (hmove.pool? hformer)
          obtain ⟨-, heq⟩ | ⟨s, hchange, heq⟩ := d.run_cases i q <;> rw [heq]
          · exact (ih hformer).mono hmove.now_le
          · obtain ⟨taken, rest, hdraws⟩ := h.free.exists_draws hmove hformer hchange
            exact (hdraws.idleOrder (ih hformer)).2.mono hmove.now_le
  | switch _ runtime hclock ih => exact (ih hp).mono hclock

/-- In every steady run the available resources of a pool are ready, and ordered by the times when
they became so. A resource that a section takes, to lend it or to have it validated, has been idle
longest of all that are available then, or shortest, as the configuration says; available then are
those that were so before and the one that the section brings. -/
theorem idle_order (h : SteadyRun trace m) (hp : m.pool? i = some p) :
    IdleOrder p.config.fifo m.now p.available.toList ∧
      ∀ d m' s, Move m d m' → d.change = some (i, s) → m'.pool? i = some (s.run p) ∧
        ∃ taken rest, s.Draws m.now p taken rest (s.run p) ∧
          ∀ before x after, taken = before ++ x :: after →
            x.IsNext p.config.fifo m.now (after ++ rest) := by
  have horder := h.idleOrder hp
  refine ⟨horder, fun d m' s hmove hchange => ⟨?_, ?_⟩⟩
  · rw [hmove.pool? hp, Deed.run_of_change hchange]
  · obtain ⟨taken, rest, hdraws⟩ := h.free.exists_draws hmove hp hchange
    exact ⟨taken, rest, hdraws, fun _ _ _ => hdraws.isNext horder⟩

/-- Two resources have become ready, the first at the start and the second five nanoseconds later;
two more have passed when somebody asks for one. -/
def twoReady (fifo : Bool) : List Deed × Machine :=
  scheduled [.build { max := 2, fifo } {},
    .begin (.acquire 0 "a" 0), .part 0, .perform 0, .part 1, .part 1, .perform 0, .part 0,
    .begin (.acquire 0 "b" 0), .part 2, .perform 0, .part 3, .part 3, .perform 0, .part 2,
    .begin (.release 0 "a"), .part 4, .sleep 5, .begin (.release 0 "b"), .part 5, .sleep 2,
    .begin (.acquire 0 "c" 0)]

/-- The request takes the resource with a number, which is in front of others. -/
def TakesInFront (fifo : Bool) (number : Nat) (stamps : List Instant) : Prop :=
  ∃ p d m' s x rest, (twoReady fifo).2.pool? 0 = some p ∧ p.available.toList = x :: rest ∧
    (x :: rest).map (·.lastIdleAt) = stamps ∧ Move (twoReady fifo).2 d m' ∧
    d.change = some (0, s) ∧ m'.pool? 0 = some (s.run p) ∧ (s.run p).serving = [x.item] ∧
    x.id = number ∧ x.IsNext fifo 7 rest

/-- The resource that has been idle longest is taken, or shortest. -/
theorem idle_order_twoReady : TakesInFront true 1 [0, 5] ∧ TakesInFront false 2 [5, 0] := by
  have htakes : ∀ fifo number stamps, (∃ p task site r, (twoReady fifo).2.pool? 0 = some p ∧
      (twoReady fifo).2.now = 7 ∧ p.config.fifo = fifo ∧
      p.available.toList.map (·.lastIdleAt) = stamps ∧ p.serving = [] ∧
      (Section.run p (.request 7 6 0)).serving = [(number, r)] ∧
      (twoReady fifo).2.tasks.get? 6 = some task ∧
      (twoReady fifo).2.sites[task.pool]? = some site ∧
      ((twoReady fifo).2.deed 6 task site).change = some (0, .request 7 6 0)) →
      TakesInFront fifo number stamps := by
    rintro fifo number stamps ⟨p, task, site, r, hp, hnow, hfifo, hstamps, hnone, hserving, htask,
      hsite, hchange⟩
    have hrun : SteadyRun (twoReady fifo).1 (twoReady fifo).2 := (run_scheduled _).steady
    have hmove := Move.part htask hsite
    obtain ⟨hp', taken, rest, hdraws, hnext⟩ := (idle_order hrun hp).2 _ _ _ hmove hchange
    have hperm := hdraws.serving
    rw [hserving, hnone] at hperm
    obtain ⟨x, rfl, hx⟩ := List.map_eq_singleton_iff.1 (List.singleton_perm.1 hperm).symm
    have hstock : p.available.toList = x :: rest := hdraws.stock
    rw [hnow, hfifo] at hnext
    exact ⟨p, _, _, _, x, rest, hp, hstock, hstock ▸ hstamps, hmove, hchange, hp',
      hx ▸ hserving, congrArg Prod.fst hx, hnext [] x [] rfl⟩
  exact ⟨htakes _ _ _ ⟨_, _, _, _, rfl, rfl, rfl, rfl, rfl, rfl, rfl, rfl, rfl⟩,
    htakes _ _ _ ⟨_, _, _, _, rfl, rfl, rfl, rfl, rfl, rfl, rfl, rfl, rfl⟩⟩

end Machine

end PooledSql
