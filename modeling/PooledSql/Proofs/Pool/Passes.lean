import PooledSql.Pool.Shutdown
import PooledSql.Proofs.Collections.PriorityQueue
import PooledSql.Proofs.Pool.Books

/-!
# Passes

Whatever a critical section does once it has taken note of its cause is a sequence of small moves:
one creation is ordered, one available resource is sent to be validated, lent or destroyed.
`Pass` lists these moves with what has to hold for them, and the passes of a section are shown to
be made of them. An invariant that every move keeps is kept by all passes.

An eviction run and a sweep go through the shelf step by step. `Clearing` is such a step, and both
are shown to be made of them.
-/

namespace PooledSql.Pool

open Relation (ReflTransGen)

variable {ρ : Type} {p p' p'' : Pool ρ} {now : Instant} {x : Pooled ρ} {rest : Deque (Pooled ρ)}

/-- A small move inside a critical section. -/
inductive Pass (now : Instant) : Pool ρ → Pool ρ → Prop where
  /-- One more resource is to be made. -/
  | order {p : Pool ρ} (room : p.size < p.config.max)
      (need : p.draining = false ∨ 0 < p.waiting.length) : Pass now p (p.orderCreation 1)
  /-- The first available resource is to be validated. -/
  | test {p : Pool ρ} {x : Pooled ρ} {rest : Deque (Pooled ρ)}
      (shift : p.available.shift = some (x, rest)) (testing : p.config.testOnBorrow = true)
      (need : p.validating < p.waiting.length) :
      Pass now p ({ p with available := rest, validating := p.validating + 1 }.post
        [.validate { x with stage := .validating }])
  /-- The first available resource is lent, if anybody waits. -/
  | lend {p : Pool ρ} {x : Pooled ρ} {rest : Deque (Pooled ρ)}
      (shift : p.available.shift = some (x, rest)) (testing : p.config.testOnBorrow = false) :
      Pass now p ({ p with available := rest }.lend now x)
  /-- Some available resource is to be destroyed. -/
  | cull {p : Pool ρ} {x : Pooled ρ} {rest : Deque (Pooled ρ)} {l r : List (Pooled ρ)}
      (wf : rest.Wf) (before : p.available.toList = l ++ x :: r) (after : rest.toList = l ++ r) :
      Pass now p ({ p with
        available := rest
        allObjects := p.allObjects - 1
        destroying := p.destroying + 1 }.post [.destroy x.condemn])
  /-- The eviction run goes on and evictions are counted. -/
  | note {p : Pool ρ} (evictionCursor : Cursor) (evictions : Nat) :
      Pass now p { p with evictionCursor, metrics := { p.metrics with evictions } }

/-- Moves one after the other. -/
abbrev Passes (now : Instant) : Pool ρ → Pool ρ → Prop := ReflTransGen (Pass now)

/-- What every move keeps, passes keep. -/
theorem Passes.keep {I : Pool ρ → Prop} (step : ∀ {p p'}, Pass now p p' → I p → I p')
    (h : Passes now p p') (hp : I p) : I p' := by
  induction h with
  | refl => exact hp
  | tail _ hlast ih => exact step hlast ih

/-- The two pools differ in their resources, queue, books and age limits only. -/
structure Alike (p p' : Pool ρ) : Prop where
  id : p'.id = p.id
  config : p'.config = p.config
  policy : p'.policy = p.policy
  started : p'.started = p.started
  draining : p'.draining = p.draining
  calls : p'.calls = p.calls
  nextResource : p'.nextResource = p.nextResource

theorem Alike.refl (p : Pool ρ) : p.Alike p := ⟨rfl, rfl, rfl, rfl, rfl, rfl, rfl⟩

theorem Alike.trans (h : p.Alike p') (h' : p'.Alike p'') : p.Alike p'' :=
  ⟨h'.1.trans h.1, h'.2.trans h.2, h'.3.trans h.3, h'.4.trans h.4, h'.5.trans h.5,
    h'.6.trans h.6, h'.7.trans h.7⟩

theorem alike_books {available : Deque (Pooled ρ)} {evictionCursor : Cursor}
    {waiting : PriorityQueue CallId} {loans : Registry Loan} {metrics : PoolMetrics}
    {allObjects validating creating destroying : Nat} {outbox : List (Action ρ)} :
    p.Alike { p with
      available, evictionCursor, waiting, loans, allObjects, validating, creating, destroying,
      metrics, outbox } :=
  ⟨rfl, rfl, rfl, rfl, rfl, rfl, rfl⟩

theorem alike_ensureMinimum (p : Pool ρ) : p.Alike p.ensureMinimum := by
  rw [ensureMinimum]
  split <;> exact alike_books

theorem alike_lend (p : Pool ρ) (now : Instant) (x : Pooled ρ) : p.Alike (p.lend now x) := by
  rw [lend]
  split <;> exact alike_books

/-! ## Ordering creations -/

@[simp] theorem orderCreation_zero (p : Pool ρ) : p.orderCreation 0 = p := by
  simp [orderCreation, post]

theorem orderCreation_succ (p : Pool ρ) (count : Nat) :
    p.orderCreation (count + 1) = (p.orderCreation count).orderCreation 1 := by
  simp only [orderCreation, post, List.replicate_succ', List.replicate_zero, List.nil_append,
    List.append_assoc, Nat.add_assoc]

@[simp] theorem size_orderCreation (p : Pool ρ) (count : Nat) :
    (p.orderCreation count).size = p.size + count := by
  simp only [size, orderCreation, post]
  omega

theorem passes_orderCreation {count : Nat} (room : p.size + count ≤ p.config.max)
    (need : count = 0 ∨ p.draining = false ∨ 0 < p.waiting.length) :
    Passes now p (p.orderCreation count) := by
  induction count with
  | zero => rw [orderCreation_zero]
  | succ count ih =>
      have hneed : p.draining = false ∨ 0 < p.waiting.length := need.resolve_left (by omega)
      rw [orderCreation_succ]
      refine (ih (by omega) (.inr hneed)).tail (.order ?_ hneed)
      rw [size_orderCreation]
      exact room

theorem passes_ensureMinimum (hnormal : p.config.IsNormal) (hroom : p.size ≤ p.config.max) :
    Passes now p p.ensureMinimum := by
  have := hnormal.min_le_max
  rw [ensureMinimum]
  split
  · exact .refl
  · rename_i hdraining
    exact passes_orderCreation (by omega) (.inr (.inl (by simpa using hdraining)))

/-! ## Serving callers -/

theorem passes_orderValidation {count : Nat} (testing : p.config.testOnBorrow = true)
    (need : count ≤ p.waiting.length - p.validating) :
    Passes now p (p.orderValidation count) := by
  induction count generalizing p with
  | zero => exact .refl
  | succ count ih =>
      rw [orderValidation]
      split
      · rename_i shift
        refine .head (.test shift testing (by omega)) (ih testing ?_)
        change count ≤ p.waiting.length - (p.validating + 1)
        omega
      · exact .refl

theorem passes_lendSome {count : Nat} (testing : p.config.testOnBorrow = false) :
    Passes now p (p.lendSome now count) := by
  induction count generalizing p with
  | zero => exact .refl
  | succ count ih =>
      rw [lendSome]
      split
      · rename_i shift
        exact .head (.lend shift testing) (ih (by rwa [(alike_lend _ _ _).config]))
      · exact .refl

theorem passes_dispatch (hroom : p.size ≤ p.config.max) : Passes now p (p.dispatch now) := by
  rw [dispatch]
  split
  · exact .refl
  · rename_i hwaiting
    have horder : Passes now p
        (p.orderCreation (min (p.waiting.length - p.allocable) p.spare)) := by
      refine passes_orderCreation ?_ (.inr (.inr (Nat.pos_of_ne_zero hwaiting)))
      simp only [spare]
      omega
    refine horder.trans ?_
    dsimp only
    split
    · rename_i testing
      exact passes_orderValidation testing (Nat.min_le_left _ _)
    · rename_i testing
      exact passes_lendSome (by simpa using testing)

/-- A step of a dispatch: creations are ordered, or the first available resource is sent to be
validated or is lent. -/
inductive Dispatching (now : Instant) : Pool ρ → Pool ρ → Prop where
  | order {p : Pool ρ} (count : Nat) : Dispatching now p (p.orderCreation count)
  | test {p : Pool ρ} {x : Pooled ρ} {rest : Deque (Pooled ρ)}
      (shift : p.available.shift = some (x, rest)) :
      Dispatching now p ({ p with available := rest, validating := p.validating + 1 }.post
        [.validate { x with stage := .validating }])
  | lend {p : Pool ρ} {x : Pooled ρ} {rest : Deque (Pooled ρ)}
      (shift : p.available.shift = some (x, rest)) :
      Dispatching now p ({ p with available := rest }.lend now x)

/-- The steps of a dispatch, one after the other. -/
abbrev Dispatchings (now : Instant) : Pool ρ → Pool ρ → Prop := ReflTransGen (Dispatching now)

theorem dispatchings_orderValidation (p : Pool ρ) (now : Instant) (count : Nat) :
    Dispatchings now p (p.orderValidation count) := by
  induction count generalizing p with
  | zero => exact .refl
  | succ count ih =>
      rw [orderValidation]
      split
      · exact .head (.test ‹_›) (ih _)
      · exact .refl

theorem dispatchings_lendSome (p : Pool ρ) (now : Instant) (count : Nat) :
    Dispatchings now p (p.lendSome now count) := by
  induction count generalizing p with
  | zero => exact .refl
  | succ count ih =>
      rw [lendSome]
      split
      · exact .head (.lend ‹_›) (ih _)
      · exact .refl

theorem dispatchings_dispatch (p : Pool ρ) (now : Instant) :
    Dispatchings now p (p.dispatch now) := by
  rw [dispatch]
  split
  · exact .refl
  · refine .head (.order (min (p.waiting.length - p.allocable) p.spare)) ?_
    dsimp only
    split
    · exact dispatchings_orderValidation _ now _
    · exact dispatchings_lendSome _ now _

/-! ## Taking from the shelf -/

theorem length_of_shift (h : p.available.Wf) (hs : p.available.shift = some (x, rest)) :
    p.available.length = rest.length + 1 := by
  obtain ⟨hwf, hlist⟩ := h.of_shift hs
  rw [h.length_toList, hwf.length_toList, hlist]
  rfl

theorem length_of_take {l r : List (Pooled ρ)} (h : p.available.Wf) (hrest : rest.Wf)
    (hold : p.available.toList = l ++ x :: r) (hnew : rest.toList = l ++ r) :
    p.available.length = rest.length + 1 := by
  rw [h.length_toList, hrest.length_toList, hold, hnew]
  simp only [List.length_append, List.length_cons]
  omega

/-! ## Destroying -/

theorem passes_retire {l r : List (Pooled ρ)} (wf : rest.Wf)
    (before : p.available.toList = l ++ x :: r) (after : rest.toList = l ++ r)
    (hnormal : p.config.IsNormal) (hroom : p.size ≤ p.config.max) :
    Passes now p (({ p with available := rest } : Pool ρ).retire x) := by
  refine .head (.cull wf before after) (passes_ensureMinimum hnormal ?_)
  refine le_trans ?_ hroom
  change p.allObjects - 1 + p.creating ≤ p.allObjects + p.creating
  omega

theorem available_retire (p : Pool ρ) (x : Pooled ρ) : (p.retire x).available = p.available := by
  rw [retire, ensureMinimum]
  split <;> rfl

/-! ## Clearing the shelf -/

/-- A step of an eviction run or of a sweep: the cursor moves on, or a resource is taken from
anywhere on the shelf and destroyed. -/
inductive Clearing : Pool ρ → Pool ρ → Prop where
  | skip {p : Pool ρ} (evictionCursor : Cursor) : Clearing p { p with evictionCursor }
  | take {p : Pool ρ} {x : Pooled ρ} {rest : Deque (Pooled ρ)} (evictionCursor : Cursor)
      (evictions : Nat)
      (taken : p.available.Wf → rest.Wf ∧
        ∃ l r, p.available.toList = l ++ x :: r ∧ rest.toList = l ++ r) :
      Clearing p ({ p with
        available := rest
        evictionCursor
        metrics := { p.metrics with evictions } }.retire x)

/-- Steps one after the other. -/
abbrev Clearings : Pool ρ → Pool ρ → Prop := ReflTransGen Clearing

theorem clearing_evictVisited (p : Pool ρ) : Clearing p p.evictVisited := by
  rw [evictVisited]
  split
  · rename_i x rest cursor hremove
    obtain ⟨k, -, hk⟩ := Option.bind_eq_some_iff.1 (congrArg Prod.fst hremove)
    exact .take cursor _ fun hwf => hwf.of_remove hk
  · exact .skip _

theorem clearings_evictSome (p : Pool ρ) (now : Instant) (count : Nat) :
    Clearings p (p.evictSome now count) := by
  induction count generalizing p with
  | zero => exact .refl
  | succ count ih =>
      rw [evictSome]
      split
      · exact .single (.skip _)
      · rename_i k cursor hnext
        refine .head (.skip cursor) ?_
        dsimp only
        split
        · exact .head (clearing_evictVisited _) (ih _)
        · exact ih _

theorem clearings_sweepSome (p : Pool ρ) (fuel : Nat) : Clearings p (p.sweepSome fuel) := by
  induction fuel generalizing p with
  | zero => exact .refl
  | succ fuel ih =>
      rw [sweepSome]
      split
      · rename_i x rest hshift
        refine .head (.take p.evictionCursor p.metrics.evictions fun hwf => ?_) (ih _)
        obtain ⟨hrest, hlist⟩ := hwf.of_shift hshift
        exact ⟨hrest, [], rest.toList, hlist, rfl⟩
      · exact .refl

/-- A sweep takes everything from the shelf. -/
theorem length_sweepSome {fuel : Nat} (hwf : p.available.Wf) (hfuel : p.available.length ≤ fuel) :
    (p.sweepSome fuel).available.length = 0 := by
  induction fuel generalizing p with
  | zero => exact Nat.le_zero.1 hfuel
  | succ fuel ih =>
      rw [sweepSome]
      split
      · rename_i x rest hshift
        have hlength := length_of_shift hwf hshift
        apply ih <;> rw [available_retire]
        · exact (hwf.of_shift hshift).1
        · change rest.length ≤ fuel
          omega
      · rename_i hshift
        rw [hwf.length_toList, hwf.shift_eq_none_iff.1 hshift]
        rfl

end PooledSql.Pool
