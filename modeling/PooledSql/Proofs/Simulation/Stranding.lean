import PooledSql.Proofs.Pool.Settled
import PooledSql.Proofs.Simulation.Audit
import PooledSql.Proofs.Simulation.Runtime
import PooledSql.Proofs.Simulation.Schedule

/-!
# Stranded callers

Inside a runtime every pool is settled in every state of a run, as long as no caller has a resource
destroyed while others wait for room. Such a destruction makes room and does not dispatch, so the
one who waits is left alone until something else happens to the pool. The runs in which all states
are settled are exactly those in which this does not happen.
-/

namespace PooledSql

open Machine

variable {m m' : Machine} {d : Deed} {trace : List Deed} {i : Nat} {p : Pool Connection}

/-- The section of the deed strands a caller of the pool. -/
def Deed.Strands (i : Nat) (p : Pool Connection) (d : Deed) : Prop :=
  ∃ x, d.change = some (i, x) ∧ x.Strands p

namespace Machine

/-- Dispatch has nothing to do in any pool. -/
def Settled (m : Machine) : Prop := ∀ i p, m.pool? i = some p → p.Settled

/-- No caller is stranded by the deed. -/
def Calm (m : Machine) (d : Deed) : Prop := ∀ i p, m.pool? i = some p → ¬ d.Strands i p

/-- Runs in all states of which the pools are settled. -/
inductive SettledRun : List Deed → Machine → Prop where
  | idle (server : Server) : SettledRun [] { server }
  | move {trace : List Deed} {m m' : Machine} {d : Deed} (h : SettledRun trace m)
      (hmove : Move m d m') (hsettled : m'.Settled) : SettledRun (trace ++ [d]) m'

/-- Runs in which no caller is stranded. -/
inductive CalmRun : List Deed → Machine → Prop where
  | idle (server : Server) : CalmRun [] { server }
  | move {trace : List Deed} {m m' : Machine} {d : Deed} (h : CalmRun trace m)
      (hmove : Move m d m') (hcalm : m.Calm d) : CalmRun (trace ++ [d]) m'

end Machine

theorem Pool.settled_idle (id : Nat) (config : PoolConfig) (policy : EvictionPolicy)
    (recycling : Option RecyclingConfig) :
    (Pool.idle id config policy recycling : Pool Connection).Settled := by
  refine settled_of_waiting ?_
  rw [idle, (PriorityQueue.wf_ofSlots _).length_toList, PriorityQueue.toList_ofSlots]
  rfl

/-- A move keeps all pools settled, unless it strands a caller. -/
theorem settled_move_iff (h : Run trace m) (hsettled : m.Settled) (hmove : Move m d m') :
    m'.Settled ↔ m.Calm d := by
  have hpool : ∀ i p x, m.pool? i = some p → d.change = some (i, x) →
      ((x.run p).Settled ↔ ¬ x.Strands p) := by
    intro i p x hp hchange
    obtain ⟨hsound, hready, hstarts⟩ := h.section_of_move hmove hp hchange
    exact Section.settled_iff (hsettled i p hp) hsound hready hstarts
  refine ⟨?_, fun hcalm i p' hp' => ?_⟩
  · rintro hsettled' i p hp ⟨x, hchange, hstrands⟩
    have hafter := hmove.pool? hp
    rw [Deed.run, hchange] at hafter
    dsimp only at hafter
    rw [if_pos rfl] at hafter
    exact (hpool i p x hp hchange).1 (hsettled' i _ hafter) hstrands
  · cases hp : m.pool? i with
    | none =>
        -- only a pool that is built was not there before
        obtain ⟨-, config, policy, recycling, rfl⟩ := hmove.of_pool?_none hp hp'
        exact Pool.settled_idle i config policy recycling
    | some p =>
        have hafter := hmove.pool? hp
        cases hp'.symm.trans hafter
        rw [Deed.run]
        split
        · rename_i index x hchange
          split
          · rename_i hi
            subst hi
            apply (hpool index p x hp hchange).2
            intro hstrands
            exact hcalm index p hp ⟨x, hchange, hstrands⟩
          · exact hsettled i p hp
        · exact hsettled i p hp

theorem Machine.SettledRun.run (h : SettledRun trace m) : Run trace m := by
  induction h with
  | idle server => exact .idle server
  | move _ hmove _ ih => exact ih.move hmove

theorem Machine.SettledRun.settled (h : SettledRun trace m) : m.Settled := by
  cases h with
  | idle server => exact fun i p hp => absurd hp.symm (Option.some_ne_none p)
  | move _ _ hsettled => exact hsettled

theorem settledRun_iff_calm (trace : List Deed) (m : Machine) :
    SettledRun trace m ↔ CalmRun trace m := by
  constructor
  · intro h
    induction h with
    | idle server => exact .idle server
    | move h hmove hsettled ih =>
        exact .move ih hmove ((settled_move_iff h.run h.settled hmove).1 hsettled)
  · intro h
    induction h with
    | idle server => exact .idle server
    | move _ hmove hcalm ih =>
        exact .move ih hmove ((settled_move_iff ih.run ih.settled hmove).2 hcalm)

/-- The states of a run are settled exactly if no caller is stranded in it. Dispatching once more
would then do nothing in any of them. -/
theorem settled_exactly_in_calm_runs (trace : List Deed) (m : Machine) :
    (SettledRun trace m ↔ CalmRun trace m) ∧
      (CalmRun trace m → ∀ i p, m.pool? i = some p → p.Settled ∧
        ∀ now, (p.dispatch now).outbox = p.outbox) := by
  refine ⟨settledRun_iff_calm trace m, ?_⟩
  intro h i p hp
  have hsettled := ((settledRun_iff_calm trace m).2 h).settled i p hp
  exact ⟨hsettled, hsettled.dispatch_outbox⟩

/-- The one resource that there may be is destroyed by its borrower while another caller waits. -/
def stranded : List Deed × Machine :=
  scheduled [.build { max := 1 } {},
    .begin (.acquire 0 "a" 0), .part 0, .perform 0, .part 1, .part 1, .perform 0, .part 0, .part 0,
    .begin (.acquire 0 "b" 0), .part 2,
    .begin (.destroy 0 "a"), .part 3, .part 3]

theorem not_forall_settled : ¬ ∀ trace m, Run trace m → m.Settled := by
  intro h
  have hsettled : ((stranded.2.pool? 0).all fun p => decide p.Settled) = true := by
    cases hp : stranded.2.pool? 0 with
    | none => rfl
    | some p => exact decide_eq_true (h _ _ (run_scheduled _) 0 p hp)
  exact absurd hsettled (by decide)

end PooledSql
