import PooledSql.Proofs.Pool.Checked
import PooledSql.Proofs.Simulation.Audit
import PooledSql.Proofs.Simulation.Schedule

/-!
# Capacity and books

The counters of a pool say what they should at any time, and no section counts down what is not
there. This holds with and without a runtime: what is counted for a task that cannot be started is
taken back.
-/

namespace PooledSql

/-- The action is to make a connection. -/
def Action.isCreation : Action Connection → Bool
  | .create => true
  | _ => false

/-- The action is to validate a connection. -/
def Action.isValidation : Action Connection → Bool
  | .validate _ => true
  | _ => false

/-- The task makes a connection. -/
def Phase.isCreation : Phase → Bool
  | .create | .creation _ _ => true
  | _ => false

/-- The task validates a connection. -/
def Phase.isValidation : Phase → Bool
  | .validate _ | .validation _ _ _ => true
  | _ => false

namespace Machine

/-- The calls that make connections of a pool, queued or running. -/
def creations (m : Machine) (index : Nat) : Nat :=
  ((m.pool? index).map fun p => p.outbox.countP (·.isCreation)).getD 0 +
    m.tasks.entries.countP fun entry => entry.2.pool == index && entry.2.phase.isCreation

/-- The calls that validate connections of a pool, queued or running. -/
def validations (m : Machine) (index : Nat) : Nat :=
  ((m.pool? index).map fun p => p.outbox.countP (·.isValidation)).getD 0 +
    m.tasks.entries.countP fun entry => entry.2.pool == index && entry.2.phase.isValidation

end Machine

open Machine

variable {m : Machine} {trace : List Deed} {i : Nat} {p : Pool Connection}

namespace Ledger

/-- A counter of calls is the number of those that are queued, of those that have a task and of
those that are gone. -/
theorem book_eq_calls_add_sinks (h : Ledger trace m.scene) (hp : m.pool? i = some p)
    {a : Account Nat} {queued : Action Connection → Bool} {runs : Phase → Bool}
    (ha : ∀ x, a.covers (.resource x) = false) (hleases : ∀ x, a.covers (.lease x) = false)
    (hqueued : ∀ action : Action Connection,
      action.tokens.countP (a.comap (·.number)).covers = (queued action).toNat)
    (hruns : ∀ (phase : Phase) (pool : Nat),
      (phase.tokens pool).countP (a.at i) = (pool == i && runs phase).toNat) :
    p.book (a.comap (·.number)) = p.outbox.countP queued +
      (m.tasks.entries.countP fun entry => entry.2.pool == i && runs entry.2.phase) +
        (sinks trace).countP (a.at i) := by
  have hbalance := h.balance_pool ((pool?_eq _ _).symm.trans hp) a
  have hinside : p.tokens.countP (a.comap (·.number)).covers = p.outbox.countP queued := by
    have hshelf : (p.shelf.map Token.resource).countP (a.comap (·.number)).covers = 0 := by
      rw [List.countP_map, List.countP_eq_zero]
      intro x _
      rw [Function.comp, ← Account.covers_map]
      exact Bool.eq_false_iff.1 (ha _)
    have hunreceived : (p.unreceived.map fun l => Token.lease l.item).countP
        (a.comap (·.number)).covers = 0 := by
      rw [List.countP_map, List.countP_eq_zero]
      intro x _
      rw [Function.comp, ← Account.covers_map]
      exact Bool.eq_false_iff.1 (hleases _)
    rw [Pool.tokens, List.countP_append, List.countP_append, hshelf, hunreceived,
      countP_flatMap_eq fun action _ => hqueued action]
    omega
  have houtside : m.scene.outside.countP (a.at i) =
      m.tasks.entries.countP fun entry => entry.2.pool == i && runs entry.2.phase := by
    have hkept : (m.leases.flatMap fun entry => tag entry.2.pool [.lease entry.2.item]).countP
        (a.at i) = 0 := by
      rw [countP_flatMap_eq (r := fun _ => false) fun entry _ => ?_]
      · rw [List.countP_false]
        rfl
      · simp [tag, Account.at, Token.map, hleases]
    have htasks : (m.tasks.gather Task.tokens).countP (a.at i) =
        m.tasks.entries.countP fun entry => entry.2.pool == i && runs entry.2.phase :=
      countP_flatMap_eq fun entry _ => hruns entry.2.phase entry.2.pool
    rw [Scene.outside, List.countP_append]
    exact congrArg₂ (· + ·) htasks hkept
  have := countP_sources_eq_zero ha i trace
  omega

/-- A counter of calls none of which is ever gone without an end. -/
theorem book_eq_calls (h : Ledger trace m.scene) (hp : m.pool? i = some p) {a : Account Nat}
    {queued : Action Connection → Bool} {runs : Phase → Bool}
    (ha : ∀ x, a.covers (.resource x) = false) (hleases : ∀ x, a.covers (.lease x) = false)
    (hdestruction : a.covers .destruction = false)
    (hqueued : ∀ action : Action Connection,
      action.tokens.countP (a.comap (·.number)).covers = (queued action).toNat)
    (hruns : ∀ (phase : Phase) (pool : Nat),
      (phase.tokens pool).countP (a.at i) = (pool == i && runs phase).toNat) :
    p.book (a.comap (·.number)) = p.outbox.countP queued +
      m.tasks.entries.countP fun entry => entry.2.pool == i && runs entry.2.phase := by
  have := h.book_eq_calls_add_sinks hp ha hleases hqueued hruns
  have := countP_sinks_eq_zero ha hdestruction i trace
  omega

/-- The counter of connections in the making. -/
theorem creating_eq_creations (h : Ledger trace m.scene) (hp : m.pool? i = some p) :
    p.creating = m.creations i := by
  rw [creations, hp]
  refine h.book_eq_calls hp (a := .creations) (fun _ => rfl) (fun _ => rfl) rfl
    (fun action => ?_) fun phase pool => ?_
  · cases action <;> rfl
  · cases phase <;> cases hpool : pool == i <;>
      simp [Phase.tokens, tag, Account.at, Account.covers, Token.map, Phase.isCreation, hpool]

end Ledger

/-- The counters are right, there are never more resources than may be, and no move counts
anything down below zero: the section checked for that gives the pool that the move leaves. -/
theorem capacity_and_books (h : FreeRun trace m) (hp : m.pool? i = some p) :
    p.allObjects = p.available.length + p.loans.size + p.validating ∧
      p.size = p.allObjects + p.creating ∧ p.size ≤ p.config.max ∧
      p.creating = m.creations i ∧ p.validating = m.validations i ∧
      ∀ d m', Move m d m' → ∀ x, d.change = some (i, x) →
        ∃ p', x.run? p = some p' ∧ m'.pool? i = some p' := by
  have hledger := h.ledger
  have hsound := (hledger.placed i p ((pool?_eq _ _).symm.trans hp)).sound
  refine ⟨?_, rfl, hsound.room, hledger.creating_eq_creations hp, ?_,
    fun d m' hmove x hchange => ?_⟩
  · have := hsound.books
    rw [List.length_nil] at this
    omega
  · rw [validations, hp]
    refine hledger.book_eq_calls hp (a := .validations) (fun _ => rfl) (fun _ => rfl) rfl
      (fun action => ?_) fun phase pool => ?_
    · cases action <;> rfl
    · cases phase <;> cases hpool : pool == i <;>
        simp [Phase.tokens, tag, Account.at, Account.covers, Token.map, Phase.isValidation, hpool]
  · have hready := hledger.ready_of_move hmove i x hchange p ((pool?_eq _ _).symm.trans hp)
    refine ⟨x.run p, Section.run?_eq hsound hready, ?_⟩
    rw [hmove.pool? hp, Deed.run, hchange]
    exact congrArg some (if_pos rfl)

/-- A pool that needs a connection, after the runtime has gone. -/
def stalled : Machine :=
  ({ (scheduled [.build { min := 1 } {}]).2 with runtime := false, now := 0 }.follow [.start 0]).2

theorem freeRun_stalled : ∃ trace, FreeRun trace stalled :=
  ⟨_, ((run_scheduled _).free.switch false 0).path (path_follow _ _)⟩

/-- The creation is counted until it turns out that it cannot be started. -/
theorem capacity_stalled : ∃ p, stalled.pool? 0 = some p ∧ p.creating = 1 ∧
    p.creating = stalled.creations 0 ∧ p.size ≤ p.config.max ∧
    ∃ p', Section.run? p (.abandon [] .create []) = some p' ∧ p'.creating = 0 := by
  obtain ⟨trace, hrun⟩ := freeRun_stalled
  obtain ⟨-, -, hmax, hcreations, -, hchecked⟩ := capacity_and_books (i := 0) hrun rfl
  obtain ⟨p', hp', -⟩ := hchecked _ _
    (move_of_choose (show stalled.choose (.perform 0) = some _ from rfl)) _ rfl
  refine ⟨_, rfl, rfl, hcreations, hmax, p', hp', ?_⟩
  cases hp'
  rfl

end PooledSql
