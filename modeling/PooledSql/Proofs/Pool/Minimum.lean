import PooledSql.Proofs.Pool.Frame
import PooledSql.Proofs.Pool.Settled

/-!
# The minimum

A pool that has been started is filled up to its minimum, and every section that takes a resource
out of it fills it up again before it ends. Beside that a pool loses a resource only when one that
was counted already could not be made. `Section.Removes` lists the sections that take resources
out; `Pool.Replaces` is what each of them does, and `Pool.Grows` what all others do.
-/

namespace PooledSql

namespace Pool

variable {ρ : Type} {p p' p'' : Pool ρ} {now : Instant} {sample : Duration} {x : Pooled ρ}
variable {l : Lease ρ} {call : CallId}

/-- The pool has its minimum once it has been started, until it drains. -/
def Filled (p : Pool ρ) : Prop :=
  p.started = true → p.draining = false → p.config.min ≤ p.size

/-- No resource is taken out. -/
structure Grows (p p' : Pool ρ) : Prop where
  config : p'.config = p.config
  draining : p'.draining = p.draining
  size : p.size ≤ p'.size
  destroying : p'.destroying = p.destroying
  filled : p.Filled → p'.Filled

/-- Resources are taken out, and the pool is filled up again. -/
structure Replaces (p p' : Pool ρ) : Prop where
  config : p'.config = p.config
  draining : p'.draining = p.draining
  destroying : p.destroying < p'.destroying
  size : p.draining = false → p.config.min ≤ p'.size

theorem grows_of_le (hconfig : p'.config = p.config) (hstarted : p'.started = p.started)
    (hdraining : p'.draining = p.draining) (hsize : p.size ≤ p'.size)
    (hdestroying : p'.destroying = p.destroying) : Grows p p' where
  config := hconfig
  draining := hdraining
  size := hsize
  destroying := hdestroying
  filled h hstarted' hdraining' := by
    have hmin := h (hstarted ▸ hstarted') (hdraining ▸ hdraining')
    rw [hconfig]
    exact hmin.trans hsize

theorem grows_refl (p : Pool ρ) : Grows p p := grows_of_le rfl rfl rfl le_rfl rfl

theorem Grows.trans (h : Grows p p') (h' : Grows p' p'') : Grows p p'' where
  config := h'.config.trans h.config
  draining := h'.draining.trans h.draining
  size := h.size.trans h'.size
  destroying := h'.destroying.trans h.destroying
  filled := h'.filled ∘ h.filled

theorem Replaces.filled (h : Replaces p p') : p'.Filled := by
  intro _ hdraining
  rw [h.config]
  exact h.size (h.draining ▸ hdraining)

theorem Replaces.grows (h : Replaces p p') (h' : Grows p' p'') : Replaces p p'' where
  config := h'.config.trans h.config
  draining := h'.draining.trans h.draining
  destroying := h.destroying.trans_eq h'.destroying.symm
  size hdraining := (h.size hdraining).trans h'.size

theorem Grows.replaces (h : Grows p p') (h' : Replaces p' p'') : Replaces p p'' where
  config := h'.config.trans h.config
  draining := h'.draining.trans h.draining
  destroying := h.destroying.symm.trans_lt h'.destroying
  size hdraining := h.config ▸ h'.size (h.draining.trans hdraining)

theorem Replaces.trans (h : Replaces p p') (h' : Replaces p' p'') : Replaces p p'' where
  config := h'.config.trans h.config
  draining := h'.draining.trans h.draining
  destroying := h.destroying.trans h'.destroying
  size hdraining := h.config ▸ h'.size (h.draining.trans hdraining)

/-! ## Passes -/

theorem grows_orderCreation (p : Pool ρ) (count : Nat) : Grows p (p.orderCreation count) :=
  grows_of_le rfl rfl rfl (by simp) rfl

theorem grows_ensureMinimum (p : Pool ρ) : Grows p p.ensureMinimum := by
  rw [ensureMinimum]
  split
  · exact grows_refl p
  · exact grows_orderCreation p _

theorem min_le_size_ensureMinimum (hdraining : p.draining = false) :
    p.config.min ≤ p.ensureMinimum.size := by
  rw [ensureMinimum, if_neg (by simp [hdraining]), size_orderCreation]
  omega

theorem grows_lend (p : Pool ρ) (now : Instant) (x : Pooled ρ) : Grows p (p.lend now x) := by
  rw [lend]
  split <;> exact grows_of_le rfl rfl rfl le_rfl rfl

theorem Dispatching.grows (h : Dispatching now p p') : Grows p p' := by
  cases h with
  | order count => exact grows_orderCreation p count
  | test shift => exact grows_of_le rfl rfl rfl le_rfl rfl
  | @lend x rest shift =>
      have htaken : Grows p { p with available := rest } := grows_of_le rfl rfl rfl le_rfl rfl
      exact htaken.trans (grows_lend _ now x)

theorem Dispatchings.grows (h : Dispatchings now p p') : Grows p p' := by
  induction h with
  | refl => exact grows_refl p
  | tail _ hlast ih => exact ih.trans hlast.grows

theorem grows_dispatch (p : Pool ρ) (now : Instant) : Grows p (p.dispatch now) :=
  (dispatchings_dispatch p now).grows

/-- A resource is off the books and the pool is filled up. -/
theorem replaces_ensureMinimum (hconfig : p'.config = p.config)
    (hdraining : p'.draining = p.draining) (hdestroying : p'.destroying = p.destroying + 1) :
    Replaces p p'.ensureMinimum where
  config := (grows_ensureMinimum p').config.trans hconfig
  draining := (grows_ensureMinimum p').draining.trans hdraining
  destroying := by
    rw [(grows_ensureMinimum p').destroying, hdestroying]
    exact Nat.lt_succ_self _
  size h := hconfig ▸ min_le_size_ensureMinimum (hdraining.trans h)

/-! ## Removals -/

/-- The lease is due for recycling when it comes back. -/
def IsDue (p : Pool ρ) (now : Instant) (sample : Duration) (l : Lease ρ) : Prop :=
  ∃ loan, p.loans.get? l.id = some loan ∧
    p.recycles sample (Instant.since now (l.returned loan).createdAt) = true

/-- That depends on the loans and on the size of the pool. -/
theorem isDue_congr (hconfig : p'.config = p.config) (hrecycling : p'.recycling = p.recycling)
    (hloans : p'.loans = p.loans) (hsize : p'.size = p.size) :
    p'.IsDue now sample l ↔ p.IsDue now sample l := by
  simp only [IsDue, recycles, hconfig, hrecycling, hloans, hsize]

theorem giveBack_upkeep (hl : l.id ∈ p.loans.keys) (now : Instant) (sample : Duration) :
    (p.IsDue now sample l ∧ Replaces p (p.giveBack now sample l).2) ∨
      (¬ p.IsDue now sample l ∧ Grows p (p.giveBack now sample l).2) := by
  obtain ⟨loan, hloan⟩ := Option.isSome_iff_exists.1 (Registry.get?_isSome_iff.2 hl)
  cases hdue : p.recycles sample (Instant.since now (l.returned loan).createdAt) with
  | true =>
      rw [giveBack_recycled hloan hdue]
      refine .inl ⟨⟨loan, hloan, hdue⟩, Replaces.grows ?_ (grows_dispatch _ now)⟩
      exact replaces_ensureMinimum rfl rfl rfl
  | false =>
      rw [giveBack_kept hloan hdue]
      refine .inr ⟨?_, Grows.trans ?_ (grows_dispatch _ now)⟩
      · rintro ⟨loan', hloan', hdue'⟩
        cases hloan.symm.trans hloan'
        cases hdue.symm.trans hdue'
      · exact grows_of_le rfl rfl rfl le_rfl rfl

theorem reclaim_upkeep (hl : l.id ∈ p.loans.keys) (now : Instant) (sample : Duration) :
    (p.IsDue now sample l ∧ Replaces p (p.reclaim now sample l)) ∨
      (¬ p.IsDue now sample l ∧ Grows p (p.reclaim now sample l)) := by
  have hback := giveBack_upkeep hl now sample
  obtain heq | ⟨x, heq⟩ := reclaim_eq p now sample l <;> rw [heq]
  · exact hback
  · refine hback.imp (And.imp_right fun h => h.grows ?_) (And.imp_right fun h => h.trans ?_) <;>
      exact grows_of_le rfl rfl rfl le_rfl rfl

/-- What an eviction or a sweep does: it takes resources from the shelf, or it leaves the shelf
alone. -/
def Culls (p p' : Pool ρ) : Prop :=
  (p'.available.length < p.available.length ∧ Replaces p p') ∨
    (p'.available.length = p.available.length ∧ Grows p p')

theorem Culls.trans (h : Culls p p') (h' : Culls p' p'') : Culls p p'' := by
  obtain ⟨hlt, hreplaces⟩ | ⟨heq, hgrows⟩ := h
  · obtain ⟨hlt', hreplaces'⟩ | ⟨heq', hgrows'⟩ := h'
    · exact .inl ⟨hlt'.trans hlt, hreplaces.trans hreplaces'⟩
    · exact .inl ⟨heq'.trans_lt hlt, hreplaces.grows hgrows'⟩
  · obtain ⟨hlt', hreplaces'⟩ | ⟨heq', hgrows'⟩ := h'
    · exact .inl ⟨hlt'.trans_eq heq, hgrows.replaces hreplaces'⟩
    · exact .inr ⟨heq'.trans heq, hgrows.trans hgrows'⟩

theorem culls_refl (p : Pool ρ) : Culls p p := .inr ⟨rfl, grows_refl p⟩

theorem Sound.culls_clearing (h : p.Sound []) (hclear : Clearing p p') : Culls p p' := by
  cases hclear with
  | skip evictionCursor => exact .inr ⟨rfl, grows_of_le rfl rfl rfl le_rfl rfl⟩
  | take evictionCursor evictions taken =>
      obtain ⟨hwf, left, right, hold, hnew⟩ := taken h.shelf
      have hlength := length_of_take h.shelf hwf hold hnew
      refine .inl ⟨?_, replaces_ensureMinimum rfl rfl rfl⟩
      rw [available_retire]
      exact Nat.lt_of_succ_le hlength.ge

theorem Sound.culls_clearings (h : p.Sound []) (hclear : Clearings p p') : Culls p p' := by
  induction hclear with
  | refl => exact culls_refl p
  | tail hclear hlast ih => exact ih.trans ((h.clearings hclear).culls_clearing hlast)

/-! ## Sections -/

/-- Starting a pool fills it up. -/
theorem grows_start (p : Pool ρ) : Grows p p.start := by
  obtain heq | ⟨-, -, heq⟩ := p.start_eq <;> rw [heq]
  · exact grows_refl p
  · have hfill := grows_ensureMinimum p.wake
    refine ⟨hfill.config, hfill.draining, hfill.size, hfill.destroying, ?_⟩
    intro _ _ hdraining
    rw [hfill.config]
    exact min_le_size_ensureMinimum (hfill.draining ▸ hdraining)

theorem grows_request (p : Pool ρ) (now : Instant) (call : CallId) (priority : Nat) :
    Grows p (p.request now call priority).2 := by
  have hawake : Grows p (if p.started then p else p.start) := by
    split
    · exact grows_refl p
    · exact grows_start p
  obtain ⟨q, hq, ⟨e, heq⟩ | heq⟩ := request_cases p now call priority <;> rw [heq] <;>
    rw [← hq] at hawake
  · exact hawake
  · have hjoin : Grows q (q.join call priority) := grows_of_le rfl rfl rfl le_rfl rfl
    exact (hawake.trans hjoin).trans (grows_dispatch _ now)

theorem grows_forget (p : Pool ρ) (handle : QueueHandle) : Grows p (p.forget handle) := by
  rw [forget]
  split <;> exact grows_of_le rfl rfl rfl le_rfl rfl

theorem grows_withdraw (p : Pool ρ) (handle : QueueHandle) (timeout : Duration) :
    Grows p (p.withdraw handle timeout) := by
  obtain heq | ⟨call, waiting, calls, metrics, -, -, heq⟩ := p.withdraw_cases handle timeout <;>
    rw [heq] <;> exact grows_of_le rfl rfl rfl le_rfl rfl

theorem replaces_discard (hl : l.id ∈ p.loans.keys) : Replaces p (p.discard l).2 := by
  obtain ⟨loan, hloan⟩ := Option.isSome_iff_exists.1 (Registry.get?_isSome_iff.2 hl)
  rw [discard_eq hloan]
  exact replaces_ensureMinimum rfl rfl rfl

theorem grows_creationEnded (hcreating : 0 < p.creating) (now : Instant) (r : ρ) :
    Grows p (p.creationEnded now (some r)) := by
  have hshelved : Grows p (p.endCreation.shelve now (.fresh p.nextResource r now)) := by
    refine grows_of_le rfl rfl rfl ?_ rfl
    change p.allObjects + p.creating ≤ p.allObjects + 1 + (p.creating - 1)
    omega
  exact hshelved.trans (grows_dispatch _ now)

theorem grows_validated (p : Pool ρ) (now : Instant) (x : Pooled ρ) :
    Grows p (p.validationEnded now x true) := by
  have hended : Grows p p.endValidation := grows_of_le rfl rfl rfl le_rfl rfl
  exact hended.trans (grows_lend _ now x)

theorem replaces_validationEnded (p : Pool ρ) (now : Instant) (x : Pooled ρ) :
    Replaces p (p.validationEnded now x false) := by
  have hretired : Replaces p (p.failValidation.retire x) := replaces_ensureMinimum rfl rfl rfl
  exact hretired.grows (grows_dispatch _ now)

end Pool

namespace Section

open Pool

variable {ρ : Type} {p : Pool ρ} {s : Section ρ}

/-- The section takes resources out of the pool to have them destroyed. -/
def Removes (p : Pool ρ) : Section ρ → Prop
  | .giveBack now sample lease | .reclaim now sample lease => p.IsDue now sample lease
  | .discard _ => True
  | .validationEnded _ _ valid => valid = false
  | .evict now => (p.evict now).available.length < p.available.length
  | .sweep => 0 < p.available.length
  | .deliver now sample _ call lease _ =>
    (p.deliver call lease).1.isSome = true ∧ p.IsDue now sample lease
  | _ => False

/-- A resource could not be made. -/
def failsCreation : Section ρ → Bool
  | .creationEnded _ none => true
  | _ => false

/-- A lease that leaves the outbox is delivered, or comes back. -/
theorem deliver_upkeep {now : Instant} {sample : Duration} {before after : List (Action ρ)}
    {call : CallId} {l : Lease ρ} (hl : l.id ∈ p.loans.keys) :
    ((deliver now sample before call l after).Removes p ∧
      Replaces p (run p (.deliver now sample before call l after))) ∨
    (¬ (deliver now sample before call l after).Removes p ∧
      Grows p (run p (.deliver now sample before call l after))) := by
  obtain ⟨calls, -, heq⟩ := deliver_calls ({ p with outbox := before ++ after } : Pool ρ) call l
  have hdue : ({ p with outbox := [], calls } : Pool ρ).IsDue now sample l ↔
      p.IsDue now sample l := isDue_congr rfl rfl rfl rfl
  rw [run, Removes, ← deliver_fst p (before ++ after)]
  obtain heq | heq := heq <;> simp only [heq]
  · exact .inr ⟨by simp, grows_of_le rfl rfl rfl le_rfl rfl⟩
  · have hback := reclaim_upkeep (p := { p with outbox := [], calls }) hl now sample
    rw [hdue] at hback
    obtain ⟨hdue, hreplaces⟩ | ⟨hdue, hgrows⟩ := hback
    · exact .inl ⟨⟨rfl, hdue⟩, hreplaces.1, hreplaces.2, hreplaces.3, hreplaces.4⟩
    · exact .inr ⟨fun h => hdue h.2, hgrows.1, hgrows.2, hgrows.3, hgrows.4, hgrows.5⟩

/-- What a section does to the size of a pool: it fills up what it takes out, or it takes nothing
out and loses no resource, unless one could not be made. -/
theorem upkeep (hsound : p.Sound []) (hs : s.Ready p) (hruntime : s.abandons = false) :
    (s.Removes p ∧ Replaces p (s.run p)) ∨
      (¬ s.Removes p ∧ (s.run p).destroying ≤ p.destroying ∧ (s.failsCreation = false →
        p.size ≤ (s.run p).size ∧ (p.Filled → (s.run p).Filled))) := by
  have hkept : ∀ {p' : Pool ρ}, ¬ s.Removes p → Grows p p' →
      (s.Removes p ∧ Replaces p p') ∨ (¬ s.Removes p ∧ p'.destroying ≤ p.destroying ∧
        (s.failsCreation = false → p.size ≤ p'.size ∧ (p.Filled → p'.Filled))) := fun hnot h =>
    .inr ⟨hnot, h.destroying.le, fun _ => ⟨h.size, h.filled⟩⟩
  cases s with
  | start => exact hkept id (grows_start p)
  | request now call priority => exact hkept id (grows_request p now call priority)
  | withdraw handle timeout => exact hkept id (grows_withdraw p handle timeout)
  | forget handle => exact hkept id (grows_forget p handle)
  | giveBack now sample lease =>
      obtain h | ⟨hnot, hgrows⟩ := giveBack_upkeep hs now sample
      · exact .inl h
      · exact hkept hnot hgrows
  | discard lease => exact .inl ⟨trivial, replaces_discard hs⟩
  | reclaim now sample lease =>
      obtain h | ⟨hnot, hgrows⟩ := reclaim_upkeep hs now sample
      · exact .inl h
      · exact hkept hnot hgrows
  | creationEnded now made =>
      cases made with
      | none =>
          refine .inr ⟨id, ?_, fun h => by cases h⟩
          rw [run, creationEnded_none, (grows_dispatch _ now).destroying]
          rfl
      | some resource => exact hkept id (grows_creationEnded hs now resource)
  | validationEnded now x valid =>
      cases valid with
      | true => exact hkept Bool.noConfusion (grows_validated p now x)
      | false => exact .inl ⟨rfl, replaces_validationEnded p now x⟩
  | destructionEnded succeeded =>
      refine .inr ⟨id, Nat.sub_le _ _, fun _ => ⟨le_rfl, fun h => ?_⟩⟩
      exact h
  | evict now =>
      obtain ⟨hlt, hreplaces⟩ | ⟨heq, hgrows⟩ :=
        hsound.culls_clearings (clearings_evictSome p now _)
      · exact .inl ⟨hlt, hreplaces⟩
      · exact hkept heq.not_lt hgrows
  | beginDrain =>
      refine .inr ⟨id, le_rfl, fun _ => ⟨le_rfl, fun _ _ hdraining => ?_⟩⟩
      cases hdraining
  | sweep =>
      have hempty := length_sweepSome hsound.shelf le_rfl
      obtain ⟨hlt, hreplaces⟩ | ⟨heq, hgrows⟩ :=
        hsound.culls_clearings (clearings_sweepSome p p.available.length)
      · exact .inl ⟨Nat.zero_lt_of_lt hlt, hreplaces⟩
      · -- the sweep empties the shelf, so where it takes nothing there was nothing
        exact hkept (heq.symm.trans hempty).not_gt hgrows
  | abandon before action after => cases hruntime
  | deliver now sample before call lease after =>
      obtain h | ⟨hnot, hgrows⟩ := deliver_upkeep hs.2.1
      · exact .inl h
      · exact hkept hnot hgrows
  | _ => exact hkept id (grows_of_le rfl rfl rfl le_rfl rfl)

/-- A section removes a resource exactly if there are more to be destroyed afterwards. -/
theorem removes_iff (hsound : p.Sound []) (hs : s.Ready p) (hruntime : s.abandons = false) :
    s.Removes p ↔ p.destroying < (s.run p).destroying := by
  obtain ⟨hremoves, hreplaces⟩ | ⟨hnot, hle, -⟩ := upkeep hsound hs hruntime
  · exact ⟨fun _ => hreplaces.destroying, fun _ => hremoves⟩
  · exact ⟨fun h => absurd h hnot, fun h => absurd h hle.not_gt⟩

/-- A removal leaves the pool filled up, whatever it was before. -/
theorem min_le_of_removes (hsound : p.Sound []) (hs : s.Ready p) (hruntime : s.abandons = false)
    (hremoves : s.Removes p) (hdraining : p.draining = false) :
    (s.run p).config.min ≤ (s.run p).size := by
  obtain ⟨-, hreplaces⟩ | ⟨hnot, -⟩ := upkeep hsound hs hruntime
  · rw [hreplaces.config]
    exact hreplaces.size hdraining
  · exact absurd hremoves hnot

/-- Nothing else takes the pool below its minimum, unless a resource could not be made. -/
theorem min_le_size (hsound : p.Sound []) (hs : s.Ready p) (hruntime : s.abandons = false)
    (hmade : s.failsCreation = false) (hdraining : p.draining = false)
    (h : p.config.min ≤ p.size) : (s.run p).config.min ≤ (s.run p).size := by
  rw [(frame p s).config]
  obtain ⟨-, hreplaces⟩ | ⟨-, -, hgrows⟩ := upkeep hsound hs hruntime
  · exact hreplaces.size hdraining
  · exact h.trans (hgrows hmade).1

theorem filled (hsound : p.Sound []) (hs : s.Ready p) (hruntime : s.abandons = false)
    (hmade : s.failsCreation = false) (h : p.Filled) : (s.run p).Filled := by
  obtain ⟨-, hreplaces⟩ | ⟨-, -, hgrows⟩ := upkeep hsound hs hruntime
  · exact hreplaces.filled
  · exact (hgrows hmade).2 h

end Section

end PooledSql
