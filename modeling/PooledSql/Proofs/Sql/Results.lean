import Mathlib.Data.List.Forall2

/-!
# Results that may be errors

What a computation went through when its result, or its error, is known.
-/

namespace PooledSql

variable {ε α β : Type}

theorem Except.error_ne_ok {e : ε} {a : α} : (.error e : Except ε α) ≠ .ok a := nofun

theorem Except.ok_ne_error {e : ε} {a : α} : (.ok a : Except ε α) ≠ .error e := nofun

theorem Except.exists_of_bind_eq_ok {x : Except ε α} {f : α → Except ε β} {b : β}
    (h : x >>= f = .ok b) : ∃ a, x = .ok a ∧ f a = .ok b := by
  cases x with
  | error e => cases h
  | ok a => exact ⟨a, rfl, h⟩

theorem Except.exists_of_map_eq_ok {x : Except ε α} {f : α → β} {b : β}
    (h : (do return f (← x)) = (Except.ok b : Except ε β)) : ∃ a, x = .ok a ∧ f a = b := by
  obtain ⟨a, ha, hb⟩ := exists_of_bind_eq_ok h
  exact ⟨a, ha, Except.ok.inj hb⟩

theorem Except.eq_error_of_map {x : Except ε α} {f : α → β} {e : ε}
    (h : (do return f (← x)) = (Except.error e : Except ε β)) : x = .error e := by
  cases x with
  | error e' =>
      cases h
      rfl
  | ok a => cases h

theorem Except.eq_error_of_bind {x : Except ε α} {f : α → Except ε β} {e : ε}
    (h : x >>= f = .error e) : x = .error e ∨ ∃ a, x = .ok a ∧ f a = .error e := by
  cases x with
  | error e' =>
      cases h
      exact .inl rfl
  | ok a => exact .inr ⟨a, rfl, h⟩

/-- What a list is mapped to, item by item. -/
theorem Except.forall₂_of_mapM {f : α → Except ε β} {xs : List α} {ys : List β}
    (h : xs.mapM f = .ok ys) : List.Forall₂ (fun x y => f x = .ok y) xs ys := by
  induction xs generalizing ys with
  | nil =>
      cases h
      exact .nil
  | cons x xs ih =>
      rw [List.mapM_cons] at h
      obtain ⟨y, hy, h⟩ := exists_of_bind_eq_ok h
      obtain ⟨rest, hrest, h⟩ := exists_of_bind_eq_ok h
      cases h
      exact .cons hy (ih hrest)

theorem Except.exists_eq_ok_iff {x : Except ε α} : (∃ a, x = .ok a) ↔ ∀ e, x ≠ .error e := by
  cases x <;> simp

/-- A list is refused for the first item that is. -/
theorem Except.mapM_eq_error_iff {f : α → Except ε β} {xs : List α} {e : ε} :
    xs.mapM f = .error e ↔ ∃ before x after, xs = before ++ x :: after ∧ f x = .error e ∧
      ∀ y ∈ before, ∃ b, f y = .ok b := by
  induction xs with
  | nil => simp [pure, Except.pure]
  | cons y ys ih =>
      rw [List.mapM_cons]
      constructor
      · intro h
        cases hy : f y with
        | error e' =>
            rw [hy] at h
            cases h
            exact ⟨[], y, ys, rfl, hy, List.forall_mem_nil _⟩
        | ok b =>
            rw [hy] at h
            obtain ⟨before, x, after, rfl, hx, hbefore⟩ := ih.1 (eq_error_of_map h)
            exact ⟨y :: before, x, after, rfl, hx, List.forall_mem_cons.2 ⟨⟨b, hy⟩, hbefore⟩⟩
      · rintro ⟨before, x, after, heq, hx, hbefore⟩
        cases before with
        | nil =>
            cases heq
            rw [hx]
            rfl
        | cons z before =>
            cases heq
            obtain ⟨⟨b, hb⟩, hbefore⟩ := List.forall_mem_cons.1 hbefore
            rw [hb, ih.2 ⟨before, x, after, rfl, hx, hbefore⟩]
            rfl

/-- Two results have the same error, or both have none. -/
def Except.SameError (x : Except ε α) (y : Except ε β) : Prop := ∀ e, x = .error e ↔ y = .error e

theorem Except.SameError.map {x : Except ε α} {y : Except ε β} (h : SameError x y) {α' β' : Type}
    (f : α → α') (g : β → β') :
    SameError (do return f (← x) : Except ε α') (do return g (← y) : Except ε β') := by
  intro e
  constructor
  · intro he
    rw [(h e).1 (eq_error_of_map he)]
    rfl
  · intro he
    rw [(h e).2 (eq_error_of_map he)]
    rfl

theorem Except.SameError.bind {γ : Type} (x : Except ε α) {f : α → Except ε β} {g : α → Except ε γ}
    (h : ∀ a, SameError (f a) (g a)) : SameError (x >>= f) (x >>= g) := by
  cases x with
  | error e' =>
      intro e
      change Except.error e' = _ ↔ Except.error e' = _
      rw [Except.error.injEq, Except.error.injEq]
  | ok a => exact h a

theorem Except.SameError.mapM {γ : Type} {f : α → Except ε β} {g : α → Except ε γ} {xs : List α}
    (h : ∀ x ∈ xs, SameError (f x) (g x)) : SameError (xs.mapM f) (xs.mapM g) := by
  intro e
  rw [mapM_eq_error_iff, mapM_eq_error_iff]
  refine exists_congr fun before => exists_congr fun x => exists_congr fun after =>
    and_congr_right fun heq => ?_
  subst heq
  obtain ⟨hbefore, hrest⟩ := List.forall_mem_append.1 h
  refine and_congr (hrest x List.mem_cons_self e) (forall₂_congr fun y hy => ?_)
  rw [exists_eq_ok_iff, exists_eq_ok_iff]
  exact forall_congr' fun e => not_congr (hbefore y hy e)

end PooledSql
