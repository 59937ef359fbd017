import PooledSql.Proofs.Simulation.Capacity
import PooledSql.Proofs.Simulation.Ownership

/-!
# Destructions

A pool counts the resources that are being destroyed, and a clear waits until there are none. A
caller for whom a resource is destroyed may go away before that has come to its end; then nobody
counts it down. The count is too high by the number of such callers, and remains so.
-/

namespace PooledSql

/-- The action is to destroy a connection. -/
def Action.isDestruction : Action Connection → Bool
  | .destroy _ => true
  | _ => false

/-- The task destroys a connection, or waits until that is done. -/
def Phase.isDestruction : Phase → Bool
  | .destroy _ _ | .destruction _ _ _ _ => true
  | _ => false

/-- The calls that destroy connections of a pool, queued or running. -/
def Machine.destructions (m : Machine) (index : Nat) : Nat :=
  ((m.pool? index).map fun p => p.outbox.countP (·.isDestruction)).getD 0 +
    m.tasks.entries.countP fun entry => entry.2.pool == index && entry.2.phase.isDestruction

/-- The caller has gone for whom a connection of the pool was being destroyed. -/
def Event.forsakes (index : Nat) : Event → Bool
  | .forsaken pool => pool == index
  | _ => false

/-- The destructions of a pool that were forsaken in a trace. -/
def forsaken (trace : List Deed) (index : Nat) : Nat :=
  (happened trace).countP (·.forsakes index)

open Machine

variable {m : Machine} {trace : List Deed} {i : Nat} {p : Pool Connection}

theorem forsaken_append (trace trace' : List Deed) (i : Nat) :
    forsaken (trace ++ trace') i = forsaken trace i + forsaken trace' i := by
  rw [forsaken, happened, List.flatMap_append, List.countP_append]
  rfl

theorem forsaken_eq_zero_iff (trace : List Deed) (i : Nat) :
    forsaken trace i = 0 ↔ ∀ d ∈ trace, Event.forsaken i ∉ d.events := by
  rw [forsaken, List.countP_eq_zero]
  constructor
  · intro h d hd hevent
    exact h _ (List.mem_flatMap_of_mem hd hevent) (beq_self_eq_true i)
  · intro h event hevent
    obtain ⟨d, hd, hevent⟩ := List.mem_flatMap.1 hevent
    cases event with
    | forsaken pool =>
        intro hpool
        rw [Event.forsakes, beq_iff_eq] at hpool
        subst hpool
        exact h d hd hevent
    | _ => exact Bool.false_ne_true

/-- The duties to destroy that are gone are those that were forsaken. -/
theorem countP_sinks_destructions (trace : List Deed) (i : Nat) :
    (sinks trace).countP (Account.destructions.at i) = forsaken trace i := by
  have hsinks : sinks trace = (happened trace).flatMap Event.sinks := List.flatMap_assoc.symm
  rw [hsinks, forsaken]
  apply countP_flatMap_eq
  intro event _
  cases event with
  | forsaken pool =>
      cases hpool : pool == i <;>
        simp [Event.sinks, Event.forsakes, Account.at, Account.covers, hpool]
  | _ => simp [Event.sinks, Event.forsakes, Account.at, Account.covers]

/-- A pool counts the destructions that are queued or running, and those that were forsaken. -/
theorem destroying_eq (h : FreeRun trace m) (hp : m.pool? i = some p) :
    p.destroying = m.destructions i + forsaken trace i := by
  rw [destructions, hp, ← countP_sinks_destructions]
  refine h.ledger.book_eq_calls_add_sinks hp (a := .destructions) (fun _ => rfl) (fun _ => rfl)
    (fun action => ?_) fun phase pool => ?_
  · cases action <;> rfl
  · cases phase <;> cases hpool : pool == i <;>
      simp [Phase.tokens, tag, Account.at, Account.covers, Token.map, Phase.isDestruction, hpool]

/-- The count is right exactly if no destruction was forsaken; then it is zero whenever nothing is
being destroyed. Otherwise it is too high by what was forsaken, whatever comes after. -/
theorem destroying_exact_iff (h : Run trace m) (hp : m.pool? i = some p) :
    (p.destroying = m.destructions i ↔ ∀ d ∈ trace, Event.forsaken i ∉ d.events) ∧
      ((∀ d ∈ trace, Event.forsaken i ∉ d.events) → m.destructions i = 0 → p.destroying = 0) ∧
      ∀ t m' p', Path m t m' → m'.pool? i = some p' →
        m'.destructions i + forsaken trace i ≤ p'.destroying := by
  have hcount := destroying_eq h.free hp
  have hexact : p.destroying = m.destructions i ↔ ∀ d ∈ trace, Event.forsaken i ∉ d.events := by
    rw [← forsaken_eq_zero_iff]
    omega
  refine ⟨hexact, ?_, ?_⟩
  · intro hnone hidle
    exact (hexact.2 hnone).trans hidle
  · intro t m' p' hpath hp'
    have hlater := destroying_eq (h.path hpath).free hp'
    rw [forsaken_append] at hlater
    omega

/-- A caller has its lease destroyed and goes away while that goes on. -/
def destroyedAlone : List Deed × Machine :=
  scheduled [.build { max := 1 } { destruction := { delay := 100 } },
    .begin (.acquire 0 "a" 0), .part 0, .perform 0, .part 1, .part 1, .perform 0, .part 0, .part 0,
    .begin (.destroy 0 "a"), .part 2, .part 2, .stop 2, .part 2]

/-- Nothing is being destroyed any more, and no clear that waits for that will come to its end. -/
theorem destroying_exact_destroyedAlone : destroyedAlone.2.destructions 0 = 0 ∧
    ∀ t m' p', Path destroyedAlone.2 t m' → m'.pool? 0 = some p' → 0 < p'.destroying := by
  refine ⟨rfl, ?_⟩
  intro t m' p' hpath hp'
  have hcount := (destroying_exact_iff (i := 0) (run_scheduled _) rfl).2.2 t m' p' hpath hp'
  have hforsaken : 0 < forsaken destroyedAlone.1 0 := by decide
  exact hforsaken.trans_le ((Nat.le_add_left _ _).trans hcount)

theorem not_forall_destroying :
    ¬ ∀ trace m i p, Run trace m → m.pool? i = some p → p.destroying = m.destructions i := by
  intro h
  exact absurd (h _ destroyedAlone.2 0 _ (run_scheduled _) rfl) (by decide)

end PooledSql
