import PooledSql.Proofs.Simulation.Audit

/-!
# Inside a runtime

A runtime stays, and while it is there every task can be started: no action is abandoned and no
connection is lost.
-/

namespace PooledSql

open Machine

variable {m m' : Machine} {s' : Scene} {id : TaskId} {task : Task} {site : Site} {phase : Phase}
variable {d : Deed} {trace : List Deed}

@[simp] theorem Scene.runtime_go (s : Scene) (id : TaskId) (phase : Phase) :
    (s.go id phase).runtime = s.runtime := by
  rw [go]
  split <;> rfl

theorem Turn.runtime (h : Turn m id task site phase d s') : s'.runtime = m.runtime := by
  cases h with
  | letGo =>
      rw [Scene.runtime_go, scene_reclaim]
      split <;> rfl
  | wait | drainQueue | finish => rfl
  | _ => exact Scene.runtime_go _ _ _

theorem Act.runtime (h : Act m d s') : s'.runtime = m.runtime := by
  cases h with
  | drop hlease hscene =>
      rw [hscene]
      split <;> rfl
  | _ => rfl

theorem Machine.Move.runtime (h : Move m d m') : m'.runtime = m.runtime := by
  obtain ⟨id, task, site, -, -, hturn⟩ | hact := h.cases
  · exact hturn.runtime
  · exact hact.runtime

theorem Turn.kept (h : Turn m id task site phase d s') (pool : Nat) (x : Nat × Nat) :
    Event.lost pool x ∉ d.events := by
  cases h with
  | @created episode due made => cases made <;> simp
  | _ => simp

theorem Act.kept (h : Act m d s') (hruntime : m.runtime = true) (pool : Nat)
    (x : Nat × Nat) : Event.lost pool x ∉ d.events := by
  cases h with
  | abandon hpool houtbox hleases hnone => cases hruntime.symm.trans hnone
  | stop htask hstop =>
      rw [stopDeed]
      split <;> simp
  | _ => simp

/-- Inside a runtime nothing is lost. -/
theorem Machine.Move.kept (h : Move m d m') (hruntime : m.runtime = true) (pool : Nat)
    (x : Nat × Nat) : Event.lost pool x ∉ d.events := by
  obtain ⟨id, task, site, -, -, hturn⟩ | hact := h.cases
  · exact hturn.kept pool x
  · exact hact.kept hruntime pool x

theorem Machine.Run.runtime (h : Run trace m) : m.runtime = true := by
  induction h with
  | idle server => rfl
  | move _ hmove ih => exact hmove.runtime.trans ih

theorem Turn.starts (h : Turn m id task site phase d s') {i : Nat} {x : Section Connection}
    (hchange : d.change = some (i, x)) : x.abandons = false := by
  cases h <;> cases hchange <;> rfl

theorem Act.starts (h : Act m d s') (hruntime : m.runtime = true) {i : Nat}
    {x : Section Connection} (hchange : d.change = some (i, x)) : x.abandons = false := by
  cases h with
  | abandon hpool houtbox hleases hnone => cases hruntime.symm.trans hnone
  | stop htask hstop =>
      rw [stopDeed] at hchange
      split at hchange <;> cases hchange
  | _ => cases hchange <;> rfl

/-- Inside a runtime no action is abandoned. -/
theorem Machine.Move.starts (h : Move m d m') (hruntime : m.runtime = true) {i : Nat}
    {x : Section Connection} (hchange : d.change = some (i, x)) : x.abandons = false := by
  obtain ⟨id, task, site, -, -, hturn⟩ | hact := h.cases
  · exact hturn.starts hchange
  · exact hact.starts hruntime hchange

theorem Machine.Run.section_of_move {i : Nat} {p : Pool Connection} {x : Section Connection}
    (h : Run trace m) (hmove : Move m d m') (hp : m.pool? i = some p)
    (hchange : d.change = some (i, x)) : p.Sound [] ∧ x.Ready p ∧ x.abandons = false := by
  obtain ⟨hsound, hready⟩ := h.free.section_of_move hmove hp hchange
  exact ⟨hsound, hready, hmove.starts h.runtime hchange⟩

end PooledSql
