import PooledSql.Proofs.Pool.Conservation

/-!
# Settled pools

A pool is settled if dispatching once more would do nothing: whoever waits without a resource in
sight waits because no more may be made, and no resource lies on the shelf for a caller who waits.
Dispatch settles every pool, and every section keeps a pool settled, with one exception: a caller
who has a resource destroyed makes room that nobody is told of.
-/

namespace PooledSql

namespace Pool

variable {ρ : Type} {p p' : Pool ρ} {now : Instant} {x : Pooled ρ} {rest : Deque (Pooled ρ)}
variable {hand : List Nat}

/-- Dispatch has nothing to do. -/
structure Settled (p : Pool ρ) : Prop where
  /-- Resources are made for those who wait, as long as there is room. -/
  spare : p.allocable < p.waiting.length → p.spare = 0
  /-- Those who wait are served from the shelf, or what is on it is validated for them. -/
  shelf : 0 < p.available.length →
    p.waiting.length ≤ if p.config.testOnBorrow then p.validating else 0

instance (p : Pool ρ) : Decidable p.Settled :=
  decidable_of_iff ((p.allocable < p.waiting.length → p.spare = 0) ∧ (0 < p.available.length →
    p.waiting.length ≤ if p.config.testOnBorrow then p.validating else 0))
    ⟨fun h => ⟨h.1, h.2⟩, fun h => ⟨h.1, h.2⟩⟩

/-- Fewer callers and resources on the shelf and more resources in sight do no harm. -/
theorem Settled.mono (h : p.Settled) (hconfig : p'.config = p.config)
    (hwaiting : p'.waiting.length ≤ p.waiting.length) (hallocable : p.allocable ≤ p'.allocable)
    (hspare : p'.spare ≤ p.spare) (havailable : p'.available.length ≤ p.available.length)
    (hvalidating : p.validating ≤ p'.validating) : p'.Settled where
  spare hlt := by
    have := h.spare (by omega)
    omega
  shelf hpos := by
    have hshelf := h.shelf (hpos.trans_le havailable)
    rw [hconfig]
    split at hshelf <;> rename_i htesting
    · rw [if_pos htesting]
      omega
    · rw [if_neg htesting]
      omega

theorem settled_of_waiting (h : p.waiting.length = 0) : p.Settled where
  spare hlt := absurd hlt (by omega)
  shelf _ := h.trans_le (Nat.zero_le _)

@[simp] theorem allocable_orderCreation (p : Pool ρ) (count : Nat) :
    (p.orderCreation count).allocable = p.allocable + count :=
  (Nat.add_assoc _ _ _).symm

@[simp] theorem spare_orderCreation (p : Pool ρ) (count : Nat) :
    (p.orderCreation count).spare = p.spare - count := by
  rw [spare, size_orderCreation, spare, Nat.sub_add_eq]
  rfl

theorem Settled.orderCreation (h : p.Settled) (count : Nat) : (p.orderCreation count).Settled :=
  h.mono rfl le_rfl (by simp) (by simp) le_rfl le_rfl

/-- Filling up keeps a pool settled. -/
theorem Settled.ensureMinimum (h : p.Settled) : p.ensureMinimum.Settled := by
  rw [Pool.ensureMinimum]
  split
  · exact h
  · exact h.orderCreation _

/-! ## Dispatch -/

/-- The shelf and the queue are in order. -/
structure Shaped (p : Pool ρ) : Prop where
  shelf : p.available.Wf
  queue : p.waiting.Wf

theorem Sound.shaped (h : p.Sound hand) : p.Shaped := ⟨h.shelf, h.queue⟩

theorem Shaped.shelve (h : p.Shaped) (now : Instant) (x : Pooled ρ) : (p.shelve now x).Shaped :=
  ⟨(shelve_available h.shelf now x).1, h.queue⟩

theorem Shaped.lend (h : p.Shaped) (now : Instant) (x : Pooled ρ) : (p.lend now x).Shaped := by
  obtain ⟨call, waiting, hwaiting, -, -, heq⟩ | ⟨waiting, hwaiting, -, -, heq⟩ :=
    lend_cases h.queue now x <;> rw [heq]
  · exact ⟨h.shelf, hwaiting⟩
  · exact Shaped.shelve (p := { p with waiting }) ⟨h.shelf, hwaiting⟩ now x

theorem Shaped.of_shift (h : p.Shaped) (hs : p.available.shift = some (x, rest)) :
    ({ p with available := rest } : Pool ρ).Shaped :=
  ⟨(h.shelf.of_shift hs).1, h.queue⟩

theorem Shaped.ensureMinimum (h : p.Shaped) : p.ensureMinimum.Shaped := by
  rw [Pool.ensureMinimum]
  split <;> exact ⟨h.shelf, h.queue⟩

/-- A caller gets the resource, or nobody waits any more and it goes back. -/
theorem length_lend (h : p.Shaped) (now : Instant) (x : Pooled ρ) :
    ((p.lend now x).available.length = p.available.length ∧
      (p.lend now x).waiting.length < p.waiting.length) ∨ (p.lend now x).waiting.length = 0 := by
  obtain ⟨call, waiting, hwaiting, -, ⟨stale, hlist, -⟩, heq⟩ | ⟨waiting, hwaiting, hnil, -, heq⟩ :=
    lend_cases h.queue now x <;> rw [heq]
  · refine .inl ⟨rfl, ?_⟩
    have := hwaiting.length_toList
    have := h.queue.length_toList
    change waiting.length < p.waiting.length
    simp only [hlist, List.length_append, List.length_cons] at *
    omega
  · exact .inr (hwaiting.length_toList.trans (by rw [hnil]; rfl))

/-- Lending changes the shelf, the queue and the loans. -/
theorem books_lend (p : Pool ρ) (now : Instant) (x : Pooled ρ) :
    (p.lend now x).validating = p.validating ∧ (p.lend now x).creating = p.creating ∧
      (p.lend now x).allObjects = p.allObjects := by
  rw [lend]
  split <;> exact ⟨rfl, rfl, rfl⟩

theorem books_lendSome (p : Pool ρ) (now : Instant) (count : Nat) :
    (p.lendSome now count).validating = p.validating ∧
      (p.lendSome now count).creating = p.creating ∧
      (p.lendSome now count).allObjects = p.allObjects ∧
      (p.lendSome now count).config = p.config := by
  induction count generalizing p with
  | zero => exact ⟨rfl, rfl, rfl, rfl⟩
  | succ count ih =>
      rw [lendSome]
      split
      · rename_i x rest hshift
        obtain ⟨hvalidating, hcreating, hall⟩ := books_lend { p with available := rest } now x
        obtain ⟨hvalidating', hcreating', hall', hconfig'⟩ :=
          ih (lend { p with available := rest } now x)
        exact ⟨hvalidating'.trans hvalidating, hcreating'.trans hcreating, hall'.trans hall,
          hconfig'.trans (alike_lend { p with available := rest } now x).config⟩
      · exact ⟨rfl, rfl, rfl, rfl⟩

theorem waiting_lendSome_le (h : p.Shaped) (now : Instant) (count : Nat) :
    (p.lendSome now count).waiting.length ≤ p.waiting.length := by
  induction count generalizing p with
  | zero => exact le_rfl
  | succ count ih =>
      rw [lendSome]
      split
      · rename_i x rest hshift
        have htaken := h.of_shift hshift
        refine (ih (htaken.lend now x)).trans ?_
        obtain ⟨-, hlt⟩ | hnone := length_lend htaken now x
        · exact hlt.le
        · exact hnone.trans_le (Nat.zero_le _)
      · exact le_rfl

/-- So many callers get resources, unless nobody waits any more. -/
theorem length_lendSome (h : p.Shaped) (now : Instant) {count : Nat}
    (hcount : count ≤ p.available.length) :
    ((p.lendSome now count).available.length + count = p.available.length ∧
      (p.lendSome now count).waiting.length + count ≤ p.waiting.length) ∨
      (p.lendSome now count).waiting.length = 0 := by
  induction count generalizing p with
  | zero => exact .inl ⟨rfl, le_rfl⟩
  | succ count ih =>
      rw [lendSome]
      cases hshift : p.available.shift with
      | none =>
          have := h.shelf.length_toList
          rw [h.shelf.shift_eq_none_iff] at hshift
          simp only [hshift, List.length_nil] at this
          omega
      | some entry =>
          obtain ⟨x, rest⟩ := entry
          have hlength := length_of_shift h.shelf hshift
          have htaken := h.of_shift hshift
          have hlent := htaken.lend now x
          dsimp only
          obtain ⟨havailable, hwaiting⟩ | hnone := length_lend htaken now x
          · change _ = rest.length at havailable
            change _ < p.waiting.length at hwaiting
            have := ih hlent (by omega)
            omega
          · exact .inr (Nat.le_zero.1 (hnone ▸ waiting_lendSome_le hlent now count))

/-- So many resources go to be validated. -/
theorem length_orderValidation (h : p.available.Wf) {count : Nat}
    (hcount : count ≤ p.available.length) :
    (p.orderValidation count).available.length + count = p.available.length ∧
      (p.orderValidation count).validating = p.validating + count ∧
      (p.orderValidation count).waiting = p.waiting ∧
      (p.orderValidation count).creating = p.creating ∧
      (p.orderValidation count).allObjects = p.allObjects ∧
      (p.orderValidation count).config = p.config := by
  induction count generalizing p with
  | zero => exact ⟨rfl, rfl, rfl, rfl, rfl, rfl⟩
  | succ count ih =>
      rw [orderValidation]
      cases hshift : p.available.shift with
      | none =>
          have := h.length_toList
          rw [h.shift_eq_none_iff] at hshift
          simp only [hshift, List.length_nil] at this
          omega
      | some entry =>
          obtain ⟨x, rest⟩ := entry
          have hlength := length_of_shift h hshift
          dsimp only
          obtain ⟨havailable, hvalidating, hrest⟩ := ih
            (p := ({ p with available := rest, validating := p.validating + 1 } : Pool ρ).post
              [.validate { x with stage := .validating }])
            (h.of_shift hshift).1 (by change count ≤ rest.length; omega)
          change _ = rest.length at havailable
          change _ = p.validating + 1 + count at hvalidating
          exact ⟨by omega, by omega, hrest⟩

/-- As many resources are made as are missing for those who wait, or as many as may be. -/
theorem spare_of_ordered (p : Pool ρ) :
    let ordered := p.orderCreation (min (p.waiting.length - p.allocable) p.spare)
    ordered.allocable < p.waiting.length → ordered.spare = 0 := by
  simp only [allocable_orderCreation, spare_orderCreation]
  omega

/-- Dispatch settles a pool. -/
theorem settled_dispatch (h : p.Shaped) (now : Instant) : (p.dispatch now).Settled := by
  rw [dispatch]
  dsimp only
  split
  · rename_i hnone
    exact settled_of_waiting hnone
  · have hspare := p.spare_of_ordered
    have hordered : (p.orderCreation (min (p.waiting.length - p.allocable) p.spare)).Shaped :=
      ⟨h.shelf, h.queue⟩
    have hwaiting : (p.orderCreation (min (p.waiting.length - p.allocable) p.spare)).waiting =
        p.waiting := rfl
    dsimp only at hspare
    generalize p.orderCreation (min (p.waiting.length - p.allocable) p.spare) = q at *
    rw [← hwaiting] at hspare ⊢
    split
    · rename_i htesting
      obtain ⟨havailable, hvalidating, hsame, hcreating, hall, hconfig⟩ := length_orderValidation
        hordered.shelf (Nat.min_le_right (q.waiting.length - q.validating) q.available.length)
      refine ⟨fun hlt => ?_, fun hpos => ?_⟩
      · have := hspare (by simp only [allocable, hsame, hcreating] at *; omega)
        simp only [spare, size, hconfig, hall, hcreating] at *
        exact this
      · rw [hconfig, if_pos htesting, hsame]
        omega
    · rename_i htesting
      obtain ⟨hvalidating, hcreating, hall, hconfig⟩ := books_lendSome q now
        (min q.available.length q.waiting.length)
      obtain ⟨havailable, hserved⟩ | hnone := length_lendSome hordered now
        (Nat.min_le_left q.available.length q.waiting.length)
      · refine ⟨fun hlt => ?_, fun hpos => ?_⟩
        · have := hspare (by simp only [allocable, hvalidating, hcreating] at *; omega)
          simp only [spare, size, hconfig, hall, hcreating] at *
          exact this
        · rw [hconfig, if_neg htesting]
          omega
      · exact settled_of_waiting hnone

/-- Dispatching a settled pool does nothing. -/
theorem Settled.dispatch_outbox (h : p.Settled) (now : Instant) :
    (p.dispatch now).outbox = p.outbox := by
  rw [dispatch]
  dsimp only
  split
  · rfl
  · rename_i hsome
    have hnone : min (p.waiting.length - p.allocable) p.spare = 0 := by
      have := h.spare
      omega
    rw [hnone, orderCreation_zero]
    have hshelf := h.shelf
    split
    · rename_i htesting
      rw [if_pos htesting] at hshelf
      have hzero : min (p.waiting.length - p.validating) p.available.length = 0 := by omega
      rw [hzero, orderValidation]
    · rename_i htesting
      rw [if_neg htesting] at hshelf
      have hzero : min p.available.length p.waiting.length = 0 := by omega
      rw [hzero, lendSome]

/-! ## Sections -/

/-- A pool in which those who wait are served already. -/
theorem settled_of_served
    (h : p.waiting.length ≤ if p.config.testOnBorrow then p.validating else 0) : p.Settled where
  spare hlt := by
    simp only [allocable] at hlt
    split at h <;> omega
  shelf _ := h

theorem Settled.post (h : p.Settled) (actions : List (Action ρ)) : (p.post actions).Settled :=
  h.mono rfl le_rfl le_rfl le_rfl le_rfl le_rfl

theorem Settled.start (h : p.Settled) : p.start.Settled := by
  rw [Pool.start]
  split
  · exact h
  · refine Settled.ensureMinimum (Settled.post ?_ _)
    exact h.mono rfl le_rfl le_rfl le_rfl le_rfl le_rfl

theorem Settled.forget (h : p.Settled) (hqueue : p.waiting.Wf) (handle : QueueHandle) :
    (p.forget handle).Settled := by
  rw [Pool.forget]
  split
  · rename_i hremove
    have := hqueue.length_of_remove hremove
    exact h.mono rfl (by dsimp only; omega) le_rfl le_rfl le_rfl le_rfl
  · exact h

theorem Settled.withdraw (h : p.Settled) (hqueue : p.waiting.Wf) (handle : QueueHandle)
    (timeout : Duration) : (p.withdraw handle timeout).Settled := by
  obtain heq | ⟨call, waiting, calls, metrics, hremove, -, heq⟩ :=
    p.withdraw_cases handle timeout <;> rw [heq]
  · exact h
  · have := hqueue.length_of_remove hremove
    exact h.mono rfl (by dsimp only; omega) le_rfl le_rfl le_rfl le_rfl

theorem Settled.hangUp (h : p.Settled) (call : CallId) : (p.hangUp call).2.Settled :=
  h.mono rfl le_rfl le_rfl le_rfl le_rfl le_rfl

theorem Settled.purge (h : p.Settled) (hqueue : p.waiting.Wf) : p.purge.Settled :=
  h.mono rfl (hqueue.length_retain_le _) le_rfl le_rfl le_rfl le_rfl

theorem Settled.request (h : p.Settled) (hsound : p.Sound []) (now : Instant) (call : CallId)
    (priority : Nat) : (p.request now call priority).2.Settled := by
  have hawake : (if p.started then p else p.start).Settled := by
    split
    · exact h
    · exact h.start
  have hshaped : (if p.started then p else p.start).Shaped := by
    split
    · exact hsound.shaped
    · exact hsound.deal_start.sound.shaped
  obtain ⟨q, hq, ⟨e, heq⟩ | heq⟩ := request_cases p now call priority <;> rw [heq] <;>
    rw [← hq] at hawake hshaped
  · exact hawake
  · refine settled_dispatch (p := q.join call priority) ?_ now
    exact ⟨hshaped.shelf, (hshaped.queue.enqueue call priority).1⟩

/-- A lease that comes back is followed by dispatch. -/
theorem settled_giveBack {l : Lease ρ} (h : p.Shaped) (hl : l.id ∈ p.loans.keys) (now : Instant)
    (sample : Duration) : (p.giveBack now sample l).2.Settled := by
  obtain ⟨loan, hloan⟩ := Option.isSome_iff_exists.1 (Registry.get?_isSome_iff.2 hl)
  have hgone : (p.endLoan l.id).writeOff.Shaped := ⟨h.shelf, h.queue⟩
  have hback : (p.endLoan l.id).Shaped := ⟨h.shelf, h.queue⟩
  obtain heq | heq := giveBack_eq hloan now sample <;> rw [heq]
  · exact settled_dispatch hgone.ensureMinimum now
  · exact settled_dispatch (hback.shelve now _) now

theorem settled_reclaim {l : Lease ρ} (h : p.Shaped) (hl : l.id ∈ p.loans.keys) (now : Instant)
    (sample : Duration) : (p.reclaim now sample l).Settled := by
  have hsettled := settled_giveBack h hl now sample
  obtain heq | ⟨x, heq⟩ := reclaim_eq p now sample l <;> rw [heq]
  · exact hsettled
  · exact hsettled.post _

theorem settled_creationEnded (h : p.Shaped) (now : Instant) (made : Option ρ) :
    (p.creationEnded now made).Settled := by
  cases made with
  | none =>
      have hfailed : p.failCreation.Shaped := ⟨h.shelf, h.queue⟩
      exact settled_dispatch hfailed now
  | some r =>
      have hadmitted : p.endCreation.Shaped := ⟨h.shelf, h.queue⟩
      exact settled_dispatch (hadmitted.shelve now _) now

/-- A resource in hand is destroyed; those who wait are served already. -/
theorem settled_retire
    (h : p.waiting.length ≤ if p.config.testOnBorrow then p.validating else 0) (x : Pooled ρ) :
    (p.retire x).Settled :=
  Settled.ensureMinimum (settled_of_served h)

theorem Shaped.retire (h : p.Shaped) (x : Pooled ρ) : (p.retire x).Shaped :=
  Shaped.ensureMinimum ⟨h.shelf, h.queue⟩

/-- A resource that has passed its validation goes to a caller, or nobody waits any more. -/
theorem length_validated (h : p.Shaped) (now : Instant) (x : Pooled ρ) :
    ((p.endValidation.lend now x).available.length = p.available.length ∧
      (p.endValidation.lend now x).waiting.length < p.waiting.length) ∨
      (p.endValidation.lend now x).waiting.length = 0 :=
  length_lend (p := p.endValidation) ⟨h.shelf, h.queue⟩ now x

theorem books_validated (p : Pool ρ) (now : Instant) (x : Pooled ρ) :
    (p.endValidation.lend now x).validating = p.validating - 1 ∧
      (p.endValidation.lend now x).creating = p.creating ∧
      (p.endValidation.lend now x).allObjects = p.allObjects ∧
      (p.endValidation.lend now x).config = p.config := by
  obtain ⟨hvalidating, hcreating, hall⟩ := books_lend p.endValidation now x
  exact ⟨hvalidating, hcreating, hall, (alike_lend p.endValidation now x).config⟩

/-- A resource that was validated goes to a caller or back to the shelf. -/
theorem settled_validationEnded (h : p.Settled) (hshaped : p.Shaped)
    (hvalidating : 0 < p.validating) (now : Instant) (x : Pooled ρ) (valid : Bool) :
    (p.validationEnded now x valid).Settled := by
  cases valid with
  | true =>
      rw [validationEnded_true]
      obtain ⟨hvalidating', hcreating, hall, hconfig⟩ := books_validated p now x
      obtain ⟨havailable, hwaiting⟩ | hnone := length_validated hshaped now x
      · refine ⟨fun hlt => ?_, fun hpos => ?_⟩
        · have hspare := h.spare
          simp only [allocable, spare, size, hconfig, hall, hcreating, hvalidating',
            havailable] at *
          exact hspare (by omega)
        · have hshelf := h.shelf (havailable ▸ hpos)
          rw [hconfig, hvalidating']
          split at hshelf <;> rename_i htesting
          · rw [if_pos htesting]
            exact Nat.le_sub_one_of_lt (hwaiting.trans_le hshelf)
          · exact absurd hwaiting (by omega)
      · exact settled_of_waiting hnone
  | false =>
      have hfailed : p.failValidation.Shaped := ⟨hshaped.shelf, hshaped.queue⟩
      exact settled_dispatch (hfailed.retire x) now

/-- A resource from the shelf is destroyed. -/
theorem Settled.retire_of_shelf (h : p.Settled) (hpos : 0 < p.available.length)
    (available : Deque (Pooled ρ)) (evictionCursor : Cursor) (metrics : PoolMetrics)
    (x : Pooled ρ) : ({ p with available, evictionCursor, metrics }.retire x).Settled := by
  refine settled_retire ?_ x
  exact h.shelf hpos

theorem Settled.clearing (h : p.Settled) (hshaped : p.Shaped) (hclear : Clearing p p') :
    p'.Settled ∧ p'.Shaped := by
  cases hclear with
  | skip evictionCursor =>
      exact ⟨h.mono rfl le_rfl le_rfl le_rfl le_rfl le_rfl, hshaped.shelf, hshaped.queue⟩
  | @take x rest evictionCursor evictions taken =>
      obtain ⟨hwf, l, r, hold, hnew⟩ := taken hshaped.shelf
      have hpos : 0 < p.available.length := by
        rw [length_of_take hshaped.shelf hwf hold hnew]
        omega
      refine ⟨h.retire_of_shelf hpos rest evictionCursor _ x, Shaped.retire ?_ x⟩
      exact ⟨hwf, hshaped.queue⟩

theorem Settled.clearings (h : p.Settled) (hshaped : p.Shaped) (hclear : Clearings p p') :
    p'.Settled ∧ p'.Shaped := by
  induction hclear with
  | refl => exact ⟨h, hshaped⟩
  | tail _ hlast ih => exact ih.1.clearing ih.2 hlast

/-- Having a resource destroyed makes room for one. Nobody is told of it, unless the pool needs the
room to be filled up. -/
theorem settled_discard_iff {l : Lease ρ} (h : p.Settled) (hsound : p.Sound [])
    (hl : l.id ∈ p.loans.keys) : (p.discard l).2.Settled ↔
      ¬ (p.allocable < p.waiting.length ∧ (p.draining = true ∨ p.config.min < p.size)) := by
  obtain ⟨loan, hloan⟩ := Option.isSome_iff_exists.1 (Registry.get?_isSome_iff.2 hl)
  have hpos : 0 < p.allObjects := by
    have := hsound.books
    have := Registry.size_erase hsound.loans hl
    omega
  have hspare := h.spare
  have hroom := hsound.room
  simp only [discard, hloan, ensureMinimum]
  split <;> rename_i hdraining <;> refine ⟨fun hsettled => ?_, fun hnot => ⟨fun hlt => ?_, h.shelf⟩⟩
  · rintro ⟨hwait, -⟩
    have := hsettled.spare hwait
    simp only [allocable, spare, size] at *
    omega
  · have hserved : ¬ p.allocable < p.waiting.length := fun hwait => hnot ⟨hwait, .inl hdraining⟩
    exact absurd hlt hserved
  · rintro ⟨hwait, hdrain | hsize⟩
    · exact hdraining hdrain
    · have hfull := hsettled.spare
      simp only [allocable, spare, size, orderCreation, Pool.post] at *
      omega
  · have hserved : ¬ (p.allocable < p.waiting.length ∧ p.config.min < p.size) :=
      fun hwait => hnot ⟨hwait.1, .inr hwait.2⟩
    simp only [allocable, spare, size, orderCreation, Pool.post] at *
    omega

end Pool

namespace Section

open Pool

variable {ρ : Type} {p : Pool ρ}

/-- A caller waits and could have a resource made, but does not learn of it. -/
def Strands (p : Pool ρ) : Section ρ → Prop
  | .discard _ => p.allocable < p.waiting.length ∧ (p.draining = true ∨ p.config.min < p.size)
  | _ => False

/-- Every section inside a runtime keeps a pool settled, unless it strands a caller. -/
theorem settled_iff {s : Section ρ} (h : p.Settled) (hsound : p.Sound []) (hs : s.Ready p)
    (hruntime : s.abandons = false) : (s.run p).Settled ↔ ¬ s.Strands p := by
  have hsame : ∀ {q : Pool ρ}, q.config = p.config → q.waiting = p.waiting →
      q.available = p.available → q.validating = p.validating → q.creating = p.creating →
      q.allObjects = p.allObjects → q.Settled := by
    intro q hconfig hwaiting havailable hvalidating hcreating hall
    refine h.mono hconfig ?_ ?_ ?_ ?_ ?_ <;>
      simp only [hconfig, hwaiting, havailable, hvalidating, hcreating, hall, allocable, spare,
        size, le_refl]
  have hshaped := hsound.shaped
  have hkept : (s.run p).Settled → ¬ s.Strands p → ((s.run p).Settled ↔ ¬ s.Strands p) :=
    fun hsettled hnot => ⟨fun _ => hnot, fun _ => hsettled⟩
  cases s with
  | start => exact hkept h.start id
  | request now call priority => exact hkept (h.request hsound now call priority) id
  | withdraw handle timeout => exact hkept (h.withdraw hsound.queue handle timeout) id
  | forget handle => exact hkept (h.forget hsound.queue handle) id
  | hangUp call => exact hkept (h.hangUp call) id
  | giveBack now sample lease => exact hkept (settled_giveBack hshaped hs now sample) id
  | discard lease => exact settled_discard_iff h hsound hs
  | reclaim now sample lease => exact hkept (settled_reclaim hshaped hs now sample) id
  | creationEnded now made => exact hkept (settled_creationEnded hshaped now made) id
  | validationEnded now x valid =>
      exact hkept (settled_validationEnded h hshaped hs.1 now x valid) id
  | destructionEnded succeeded => exact hkept (hsame rfl rfl rfl rfl rfl rfl) id
  | evict now => exact hkept (h.clearings hshaped (clearings_evictSome p now _)).1 id
  | purge => exact hkept (h.purge hsound.queue) id
  | beginDrain =>
      exact hkept (Settled.purge (p := { p with draining := true })
        (hsame rfl rfl rfl rfl rfl rfl) hsound.queue) id
  | sweep => exact hkept (h.clearings hshaped (clearings_sweepSome p _)).1 id
  | setRecycling | launch => exact hkept (hsame rfl rfl rfl rfl rfl rfl) id
  | abandon before action after => cases hruntime
  | deliver now sample before call lease after =>
      refine hkept ?_ id
      obtain ⟨calls, -, heq⟩ :=
        deliver_calls ({ p with outbox := before ++ after } : Pool ρ) call lease
      rw [run]
      obtain heq | heq := heq <;> simp only [heq]
      · exact hsame rfl rfl rfl rfl rfl rfl
      · have hsettled := settled_reclaim (p := { p with outbox := [], calls })
          ⟨hshaped.shelf, hshaped.queue⟩ hs.2.1 now sample
        exact hsettled.mono rfl le_rfl le_rfl le_rfl le_rfl le_rfl

end Section

end PooledSql
