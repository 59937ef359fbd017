import PooledSql.Proofs.Simulation.Turn

/-!
# How pools change

The pools of a machine change by the sections that the deeds of its moves name, and by nothing
else. What every section keeps of a pool, every move keeps.
-/

namespace PooledSql

open Machine

variable {m : Machine} {s s' : Scene} {id : TaskId} {task : Task} {site : Site} {phase : Phase}
variable {d : Deed}

/-- A pool after a deed. -/
def Deed.run (d : Deed) (index : Nat) (p : Pool Connection) : Pool Connection :=
  match d.change with
  | some (i, x) => if i = index then x.run p else p
  | none => p

theorem Deed.run_of_change {i : Nat} {x : Section Connection} (h : d.change = some (i, x))
    (p : Pool Connection) : d.run i p = x.run p := by
  rw [run, h]
  exact if_pos rfl

/-- The deed is about no pool or another one. -/
theorem Deed.run_eq_self {i : Nat} (h : ∀ x, d.change ≠ some (i, x)) (p : Pool Connection) :
    d.run i p = p := by
  rw [run]
  split
  · rename_i index x hchange
    apply if_neg
    intro hi
    exact h x (hi ▸ hchange)
  · rfl

/-- A pool stays as it is, or its section runs. -/
theorem Deed.run_cases (d : Deed) (i : Nat) (p : Pool Connection) :
    (∀ x, d.change ≠ some (i, x)) ∧ d.run i p = p ∨
      ∃ x, d.change = some (i, x) ∧ d.run i p = x.run p := by
  by_cases h : ∃ x, d.change = some (i, x)
  · obtain ⟨x, hchange⟩ := h
    exact .inr ⟨x, hchange, run_of_change hchange p⟩
  · rw [not_exists] at h
    exact .inl ⟨h, run_eq_self h p⟩

/-- The section by which the deed changes the pool. -/
def Deed.section? (d : Deed) (i : Nat) : Option (Section Connection) :=
  d.change.bind fun (index, x) => if index = i then some x else none

theorem Deed.section?_eq_some_iff {i : Nat} {x : Section Connection} :
    d.section? i = some x ↔ d.change = some (i, x) := by
  rw [section?, Option.bind_eq_some_iff]
  constructor
  · rintro ⟨⟨index, y⟩, hchange, hx⟩
    obtain ⟨rfl, rfl⟩ : index = i ∧ y = x := by simpa using hx
    exact hchange
  · intro hchange
    exact ⟨(i, x), hchange, if_pos rfl⟩

theorem Deed.section?_eq_none_iff {i : Nat} :
    d.section? i = none ↔ ∀ x, d.change ≠ some (i, x) := by
  simp only [Option.eq_none_iff_forall_ne_some, ne_eq, section?_eq_some_iff]

@[simp] theorem Scene.pools_go (s : Scene) (id : TaskId) (phase : Phase) :
    (s.go id phase).pools = s.pools := by
  rw [go]
  split <;> rfl

/-- The pools change by the deed. -/
def Scene.Advances (s : Scene) (d : Deed) (s' : Scene) : Prop :=
  ∀ i, s'.pools[i]? = s.pools[i]?.map (d.run i)

theorem advances_of_eq {events : List Event} (h : s'.pools = s.pools) :
    s.Advances { events } s' := by
  intro i
  rw [h]
  exact Option.map_id'.symm

theorem advances_put {index : Nat} {x : Section Connection} {events : List Event}
    {p : Pool Connection} (hp : s.pools[index]? = some p)
    (h : s'.pools = s.pools.set index (x.run p)) :
    s.Advances { change := some (index, x), events } s' := by
  intro i
  obtain ⟨hindex, rfl⟩ := List.getElem?_eq_some_iff.1 hp
  rw [h, List.getElem?_set]
  by_cases hi : index = i
  · subst hi
    simp [hindex, Deed.run]
  · have hrun : Deed.run { change := some (index, x), events } i = id := by
      funext p
      exact if_neg hi
    rw [if_neg hi, hrun, Option.map_id, id]

/-- A section of a pool that there is not. -/
theorem advances_of_none {index : Nat} {x : Section Connection} {events : List Event}
    (hp : s.pools[index]? = none) (h : s'.pools = s.pools) :
    s.Advances { change := some (index, x), events } s' := by
  intro i
  rw [h]
  by_cases hi : index = i
  · subst hi
    rw [hp]
    rfl
  · have hrun : Deed.run { change := some (index, x), events } i = id := by
      funext p
      exact if_neg hi
    rw [hrun, Option.map_id, id]

/-- A lease that is let go changes the pool of its lender. -/
theorem advances_reclaim {lease : Lease Connection} (h : s'.pools = (match m.pool? lease.pool with
      | some pool => m.scene.put lease.pool (pool.reclaim m.now m.sample lease)
      | none => m.scene).pools) :
    m.scene.Advances { change := some (lease.pool, .reclaim m.now m.sample lease) } s' := by
  cases hlender : m.pool? lease.pool with
  | none =>
      rw [hlender] at h
      exact advances_of_none ((pool?_eq _ _).symm.trans hlender) h
  | some p =>
      rw [hlender] at h
      exact advances_put ((pool?_eq _ _).symm.trans hlender) h

theorem Turn.advances (h : Turn m id task site phase d s')
    (hsite : m.sites[task.pool]? = some site) : m.scene.Advances d s' := by
  have hp : m.scene.pools[task.pool]? = some site.pool := pools_of_site hsite
  cases h with
  | ask h | refused h | giveBack _ h | recycle _ h | giveBackRefused _ h | discard _ h
  | discardRefused _ h =>
      refine advances_put hp ?_
      rw [Scene.pools_go, Section.run, h]
      rfl
  | letGo =>
      refine advances_reclaim ?_
      rewrite [Scene.pools_go, scene_reclaim]
      rfl
  | drainQueue => exact advances_put hp rfl
  | finish => exact advances_of_eq rfl
  | wait => exact advances_of_eq rfl
  | await | timeout | late | worked | giveBackForeign | discardForeign | create | validate
  | destroy | evictLater | aborted | loansDrained | takeEvictor | leaveEvictor | abort | drained
  | clear | cleared | ready => exact advances_of_eq (Scene.pools_go _ _ _)
  | _ => exact advances_put hp (Scene.pools_go _ _ _)

/-- All acts but one change pools by their deeds; that one adds a pool. -/
theorem Act.advances (h : Act m d s') : m.scene.Advances d s' ∨
    ∃ config policy recycling, d = {} ∧ s' = { m.scene with
      pools := m.scene.pools ++ [.idle m.scene.pools.length config policy recycling]
      evictors := m.scene.evictors ++ [.none] } := by
  cases h with
  | build config policy recycling => exact .inr ⟨config, policy, recycling, rfl, rfl⟩
  | deliver hpool houtbox => exact .inl (advances_put ((pool?_eq _ _).symm.trans hpool) rfl)
  | launch hpool houtbox hleases hevictors =>
      exact .inl (advances_put ((pool?_eq _ _).symm.trans hpool) rfl)
  | abandon hpool houtbox hleases hruntime hevictors =>
      exact .inl (advances_put ((pool?_eq _ _).symm.trans hpool) rfl)
  | stop htask hstop =>
      rw [stopDeed]
      split <;> exact .inl (advances_of_eq rfl)
  | drop hlease hscene =>
      have hpools := congrArg Scene.pools hscene
      exact .inl (advances_reclaim hpools)
  | start hpool | recycle recycling hpool =>
      exact .inl (advances_put ((pool?_eq _ _).symm.trans hpool) rfl)
  | _ => exact .inl (advances_of_eq rfl)

/-- Sections that are no part of the work of a task. -/
def Section.isAct : Section Connection → Bool
  | .start | .setRecycling _ | .reclaim _ _ _ | .launch _ _ _ | .abandon _ _ _
  | .deliver _ _ _ _ _ _ => true
  | _ => false

theorem Act.isAct (h : Act m d s') {i : Nat} {x : Section Connection}
    (hchange : d.change = some (i, x)) : x.isAct = true := by
  cases h with
  | stop =>
      rw [stopDeed] at hchange
      split at hchange <;> cases hchange
  | _ => cases hchange <;> rfl

/-- A pool changes by the section of a move and by nothing else. -/
theorem Machine.Move.pool? {m' : Machine} (h : Move m d m') {i : Nat} {p : Pool Connection}
    (hp : m.pool? i = some p) : m'.pool? i = some (d.run i p) := by
  rw [pool?_eq] at hp ⊢
  obtain ⟨id, task, site, -, hsite, hturn⟩ | hact := h.cases
  · rw [hturn.advances hsite i, hp, Option.map_some]
  · obtain hadvances | ⟨config, policy, recycling, rfl, heq⟩ := hact.advances
    · rw [hadvances i, hp, Option.map_some]
    · rw [heq]
      exact (List.getElem?_append_left (List.getElem?_eq_some_iff.1 hp).1).trans hp

/-- A pool that was not there before is a new one, and nothing else has happened. -/
theorem Machine.Move.of_pool?_none {m' : Machine} (h : Move m d m') {i : Nat}
    {p' : Pool Connection} (hp : m.pool? i = none) (hp' : m'.pool? i = some p') :
    d = {} ∧ ∃ config policy recycling, p' = .idle i config policy recycling := by
  rw [pool?_eq] at hp hp'
  have hadvances : ¬ m.scene.Advances d m'.scene := by
    intro h
    rw [h i, hp] at hp'
    cases hp'
  obtain ⟨id, task, site, -, hsite, hturn⟩ | hact := h.cases
  · exact absurd (hturn.advances hsite) hadvances
  · obtain h | ⟨config, policy, recycling, rfl, heq⟩ := hact.advances
    · exact absurd h hadvances
    · refine ⟨rfl, config, policy, recycling, ?_⟩
      rw [heq, List.getElem?_append_right (List.getElem?_eq_none_iff.1 hp)] at hp'
      obtain ⟨hindex, hnew⟩ := List.getElem?_eq_some_iff.1 hp'
      have hi : i = m.scene.pools.length := by
        have := List.getElem?_eq_none_iff.1 hp
        rw [List.length_singleton] at hindex
        omega
      subst hi
      simpa using hnew.symm

end PooledSql
