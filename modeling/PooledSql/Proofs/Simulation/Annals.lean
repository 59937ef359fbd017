import PooledSql.Proofs.Simulation.Schedule

/-!
# Annals

The trace of a run tells what was done but not to what. Its annals tell of each move also the
machine before it, so what is said about a move may depend on the state in which it came. Every run
has annals.
-/

namespace PooledSql

open Machine

variable {m m' : Machine} {d : Deed} {trace : List Deed} {past : List (Machine × Deed)}

namespace Machine

/-- The machines before the moves of a run, with or without a runtime, and the deeds. -/
inductive Annals : List (Machine × Deed) → Machine → Prop where
  | idle (server : Server) : Annals [] { server }
  | move {past : List (Machine × Deed)} {m m' : Machine} {d : Deed} (h : Annals past m)
      (hmove : Move m d m') : Annals (past ++ [(m, d)]) m'
  | switch {past : List (Machine × Deed)} {m : Machine} (h : Annals past m) (runtime : Bool)
      (now : Instant) : Annals past { m with runtime, now }

theorem Annals.free (h : Annals past m) : FreeRun (past.map (·.2)) m := by
  induction h with
  | idle server => exact .idle server
  | move _ hmove ih =>
      rw [List.map_append]
      exact .move ih hmove
  | switch _ runtime now ih => exact .switch ih runtime now

theorem FreeRun.annals (h : FreeRun trace m) :
    ∃ past, Annals past m ∧ past.map (·.2) = trace := by
  induction h with
  | idle server => exact ⟨[], .idle server, rfl⟩
  | move _ hmove ih =>
      obtain ⟨past, hpast, rfl⟩ := ih
      exact ⟨_, .move hpast hmove, by rw [List.map_append]; rfl⟩
  | switch _ runtime now ih =>
      obtain ⟨past, hpast, heq⟩ := ih
      exact ⟨past, .switch hpast runtime now, heq⟩

/-- Each machine that the annals tell of was reached by what they tell before it. -/
theorem Annals.of_append {before after : List (Machine × Deed)} {m₀ : Machine} {d₀ : Deed}
    (h : Annals past m) (hpast : past = before ++ (m₀, d₀) :: after) :
    Annals before m₀ ∧ ∃ m', Move m₀ d₀ m' := by
  induction h generalizing after with
  | idle server => exact absurd hpast (by simp)
  | @move past m m' d h hmove ih =>
      obtain rfl | ⟨after, entry, rfl⟩ := after.eq_nil_or_concat
      · obtain ⟨rfl, heq⟩ := List.append_inj' hpast rfl
        cases heq
        exact ⟨h, m', hmove⟩
      · rw [List.concat_eq_append, ← List.cons_append, ← List.append_assoc] at hpast
        exact ih (List.append_inj' hpast rfl).1
  | switch _ runtime now ih => exact ih hpast

theorem Annals.of_mem {entry : Machine × Deed} (h : Annals past m) (hmem : entry ∈ past) :
    (∃ before, Annals before entry.1) ∧ ∃ m', Move entry.1 entry.2 m' := by
  obtain ⟨before, after, hpast⟩ := List.append_of_mem hmem
  obtain ⟨hbefore, hmove⟩ := h.of_append hpast
  exact ⟨⟨before, hbefore⟩, hmove⟩

/-- What did not hold at first and holds now has held ever since some move brought it about. -/
theorem Annals.since {P : Machine → Prop} {B : Machine → Deed → Prop}
    (hidle : ∀ server, ¬ P { server })
    (hmove : ∀ {past m d m'}, Annals past m → Move m d m' → P m' → P m ∨ B m d)
    (hswitch : ∀ {m : Machine} {runtime now}, P { m with runtime, now } → P m)
    (h : Annals past m) (hm : P m) : ∃ before m₀ d₀ after,
      past = before ++ (m₀, d₀) :: after ∧ B m₀ d₀ ∧ ∀ entry ∈ after, P entry.1 := by
  induction h with
  | idle server => exact absurd hm (hidle server)
  | @move past m m' d h hstep ih =>
      by_cases hbefore : P m
      · obtain ⟨before, m₀, d₀, after, rfl, hbrings, hafter⟩ := ih hbefore
        refine ⟨before, m₀, d₀, after ++ [(m, d)], by simp, hbrings, ?_⟩
        rw [List.forall_mem_append, List.forall_mem_singleton]
        exact ⟨hafter, hbefore⟩
      · have hbrings := (hmove h hstep hm).resolve_left hbefore
        exact ⟨past, m, d, [], rfl, hbrings, List.forall_mem_nil _⟩
  | switch _ runtime now ih => exact ih (hswitch hm)

/-- What some move brings about and every move keeps holds from then on. -/
theorem Annals.onwards {B : Machine → Deed → Prop} {J : List (Machine × Deed) → Machine → Prop}
    (hstart : ∀ {past m d m'}, Annals past m → Move m d m' → B m d → J (past ++ [(m, d)]) m')
    (hkeep : ∀ {past m d m'}, Annals past m → Move m d m' → J past m → J (past ++ [(m, d)]) m')
    (hswitch : ∀ {past} {m : Machine} {runtime now}, J past m → J past { m with runtime, now })
    (h : Annals past m) (hpast : ∃ entry ∈ past, B entry.1 entry.2) : J past m := by
  induction h with
  | idle server =>
      obtain ⟨entry, hmem, -⟩ := hpast
      exact absurd hmem List.not_mem_nil
  | @move past m m' d h hmove ih =>
      obtain ⟨entry, hmem, hbrings⟩ := hpast
      obtain hmem | hmem := List.mem_append.1 hmem
      · exact hkeep h hmove (ih ⟨entry, hmem, hbrings⟩)
      · rw [List.mem_singleton.1 hmem] at hbrings
        exact hstart h hmove hbrings
  | switch _ runtime now ih => exact hswitch (ih hpast)

/-- The annals of choices that are made one after the other. -/
def recount (m : Machine) : List Choice → List (Machine × Deed)
  | [] => []
  | choice :: choices =>
    match m.choose choice with
    | some (d, m') => (m, d) :: m'.recount choices
    | none => []

theorem Annals.follow (h : Annals past m) (choices : List Choice) :
    Annals (past ++ m.recount choices) (m.follow choices).2 := by
  induction choices generalizing past m with
  | nil =>
      rw [Machine.follow, recount, List.append_nil]
      exact h
  | cons choice choices ih =>
      rw [Machine.follow, recount]
      cases hchoose : m.choose choice with
      | none =>
          rw [List.append_nil]
          exact h
      | some next =>
          obtain ⟨d, m'⟩ := next
          have hnext := ih (h.move (move_of_choose hchoose))
          rw [List.append_assoc] at hnext
          exact hnext

end Machine

end PooledSql
