import PooledSql.Proofs.Pool.Conservation

/-!
# Closing pools

A pool is quiet once it drains and nobody waits any more: requests are refused, nothing is made or
lent, and its resources become fewer and fewer. `Section.wanes` says this of every section at once;
that a pool stays drained, and stays empty once it is, follows from it.
-/

namespace PooledSql

namespace Pool

variable {ρ : Type} {p p' p'' : Pool ρ} {now : Instant} {x : Pooled ρ} {l : Lease ρ}
  {call : CallId}

/-- No request is accepted and nobody waits. -/
structure Quiet (p : Pool ρ) : Prop where
  draining : p.draining = true
  waiting : p.waiting.length = 0

/-- Neither is anything on loan. -/
structure Drained (p : Pool ρ) : Prop extends p.Quiet where
  loans : p.loans.keys = []

theorem Drained.size_loans (h : p.Drained) : p.loans.size = 0 := by
  rw [← Registry.length_keys, h.loans]
  rfl

/-- The pool is quiet and has become no larger. -/
structure Wanes (p p' : Pool ρ) : Prop where
  quiet : p'.Quiet
  loans : ∀ n ∈ p'.loans.keys, n ∈ p.loans.keys
  creating : p'.creating ≤ p.creating
  validating : p'.validating ≤ p.validating
  size : p'.size ≤ p.size
  rest : p'.size + p'.destroying ≤ p.size + p.destroying

theorem Wanes.trans (h : Wanes p p') (h' : Wanes p' p'') : Wanes p p'' where
  quiet := h'.quiet
  loans n hn := h.loans n (h'.loans n hn)
  creating := h'.creating.trans h.creating
  validating := h'.validating.trans h.validating
  size := h'.size.trans h.size
  rest := h'.rest.trans h.rest

theorem Wanes.drained (h : Wanes p p') (hdrained : p.Drained) : p'.Drained where
  toQuiet := h.quiet
  loans := List.eq_nil_iff_forall_not_mem.2 fun n hn => by
    have := h.loans n hn
    rw [hdrained.loans] at this
    cases this

/-! ## Passes of quiet pools -/

namespace Quiet

theorem ensureMinimum (h : p.Quiet) : p.ensureMinimum = p := by
  rw [Pool.ensureMinimum, if_pos h.draining]

theorem dispatch (h : p.Quiet) (now : Instant) : p.dispatch now = p := by
  rw [Pool.dispatch]
  exact if_pos h.waiting

theorem lend (h : p.Quiet) (now : Instant) (x : Pooled ρ) : p.lend now x = p.shelve now x := by
  rw [Pool.lend, h.waiting, takePending]

theorem retire (h : p.Quiet) (x : Pooled ρ) :
    p.retire x = p.writeOff.post [.destroy x.condemn] :=
  ensureMinimum ⟨h.draining, h.waiting⟩

theorem start (h : p.Quiet) : p.start = p := by
  rw [Pool.start, h.draining]
  rfl

/-- A quiet pool refuses every request. -/
theorem request (h : p.Quiet) (now : Instant) (call : CallId) (priority : Nat) :
    p.request now call priority = (.error .draining, p) := by
  rw [Pool.request, h.start, ite_self, if_pos h.draining]

end Quiet

/-! ## Sections of quiet pools -/

/-- Nothing changes but what lies on the shelf, in the outbox and in the answers. -/
theorem Quiet.wanes_of_eq (h : p.Quiet) (hdraining : p'.draining = p.draining)
    (hwaiting : p'.waiting.length ≤ p.waiting.length) (hloans : p'.loans = p.loans)
    (hall : p'.allObjects = p.allObjects) (hcreating : p'.creating = p.creating)
    (hvalidating : p'.validating = p.validating) (hdestroying : p'.destroying = p.destroying) :
    Wanes p p' where
  quiet := ⟨hdraining.trans h.draining, Nat.le_zero.1 (h.waiting ▸ hwaiting)⟩
  loans n hn := hloans ▸ hn
  creating := hcreating.le
  validating := hvalidating.le
  size := by simp only [Pool.size, hall, hcreating, le_refl]
  rest := by simp only [Pool.size, hall, hcreating, hdestroying, le_refl]

theorem Quiet.wanes_refl (h : p.Quiet) : Wanes p p :=
  h.wanes_of_eq rfl le_rfl rfl rfl rfl rfl rfl

theorem Wanes.post (h : Wanes p p') (actions : List (Action ρ)) : Wanes p (p'.post actions) :=
  ⟨⟨h.quiet.draining, h.quiet.waiting⟩, h.loans, h.creating, h.validating, h.size, h.rest⟩

theorem Quiet.wanes_endLoan (h : p.Quiet) (id : Nat) : Wanes p (p.endLoan id) where
  quiet := ⟨h.draining, h.waiting⟩
  loans _ hn := (Registry.mem_keys_erase.1 hn).2
  creating := le_rfl
  validating := le_rfl
  size := le_rfl
  rest := le_rfl

/-- What is destroyed was counted before. -/
theorem Quiet.wanes_writeOff (h : p.Quiet) (hpos : 0 < p.allObjects) : Wanes p p.writeOff where
  quiet := ⟨h.draining, h.waiting⟩
  loans _ hn := hn
  creating := le_rfl
  validating := le_rfl
  size := by
    simp only [Pool.size, writeOff]
    omega
  rest := by
    simp only [Pool.size, writeOff]
    omega

theorem Quiet.wanes_retire (h : p.Quiet) (hpos : 0 < p.allObjects) (x : Pooled ρ) :
    Wanes p (p.retire x) := by
  rw [h.retire]
  exact (h.wanes_writeOff hpos).post _

theorem Quiet.wanes_forget (h : p.Quiet) (hqueue : p.waiting.Wf) (handle : QueueHandle) :
    Wanes p (p.forget handle) := by
  rw [forget]
  split
  · rename_i hremove
    have := hqueue.length_of_remove hremove
    exact h.wanes_of_eq rfl (by dsimp only; omega) rfl rfl rfl rfl rfl
  · exact h.wanes_refl

theorem Quiet.wanes_withdraw (h : p.Quiet) (hqueue : p.waiting.Wf) (handle : QueueHandle)
    (timeout : Duration) : Wanes p (p.withdraw handle timeout) := by
  obtain heq | ⟨call, waiting, calls, metrics, hremove, -, heq⟩ :=
    p.withdraw_cases handle timeout <;> rw [heq]
  · exact h.wanes_refl
  · have := hqueue.length_of_remove hremove
    exact h.wanes_of_eq rfl (by dsimp only; omega) rfl rfl rfl rfl rfl

theorem Quiet.wanes_purge (h : p.Quiet) (hqueue : p.waiting.Wf) : Wanes p p.purge :=
  h.wanes_of_eq rfl (hqueue.length_retain_le _) rfl rfl rfl rfl rfl

theorem Quiet.wanes_shelve (h : p.Quiet) (now : Instant) (x : Pooled ρ) :
    Wanes p (p.shelve now x) :=
  h.wanes_of_eq rfl le_rfl rfl rfl rfl rfl rfl

/-- A loan ends; its resource goes to the shelf or is destroyed by the one who brought it. -/
theorem Quiet.wanes_giveBack (h : p.Quiet) (hsound : p.Sound []) (hl : l.id ∈ p.loans.keys)
    (now : Instant) (sample : Duration) : Wanes p (p.giveBack now sample l).2 := by
  obtain ⟨loan, hloan⟩ := Option.isSome_iff_exists.1 (Registry.get?_isSome_iff.2 hl)
  have hended := h.wanes_endLoan l.id
  obtain heq | heq := giveBack_eq hloan now sample <;> rw [heq] <;> dsimp only
  · have hgone := hended.trans
      (hended.quiet.wanes_writeOff (hsound.of_loan hl).1.allObjects_pos)
    rwa [hgone.quiet.ensureMinimum, hgone.quiet.dispatch]
  · have hshelved := hended.trans (hended.quiet.wanes_shelve now (l.returned loan))
    rwa [hshelved.quiet.dispatch]

theorem Quiet.wanes_reclaim (h : p.Quiet) (hsound : p.Sound []) (hl : l.id ∈ p.loans.keys)
    (now : Instant) (sample : Duration) : Wanes p (p.reclaim now sample l) := by
  have hwanes := h.wanes_giveBack hsound hl now sample
  obtain heq | ⟨x, heq⟩ := reclaim_eq p now sample l <;> rw [heq]
  · exact hwanes
  · exact hwanes.post _

theorem Quiet.wanes_discard (h : p.Quiet) (hsound : p.Sound []) (hl : l.id ∈ p.loans.keys) :
    Wanes p (p.discard l).2 := by
  obtain ⟨loan, hloan⟩ := Option.isSome_iff_exists.1 (Registry.get?_isSome_iff.2 hl)
  have hended := h.wanes_endLoan l.id
  have hgone := hended.trans (hended.quiet.wanes_writeOff (hsound.of_loan hl).1.allObjects_pos)
  rw [discard_eq hloan]
  dsimp only
  rwa [hgone.quiet.ensureMinimum]

/-- A resource that was being made goes to the shelf, if it came to be. -/
theorem Quiet.wanes_creationEnded (h : p.Quiet) (hcreating : 0 < p.creating) (now : Instant)
    (made : Option ρ) : Wanes p (p.creationEnded now made) := by
  cases made with
  | none =>
      have hfailed : Wanes p p.failCreation := by
        refine ⟨⟨h.draining, h.waiting⟩, fun _ hn => hn, Nat.sub_le _ _, le_rfl, ?_, ?_⟩ <;>
          simp only [Pool.size, failCreation] <;> omega
      rwa [creationEnded_none, hfailed.quiet.dispatch]
  | some r =>
      have hadmitted : Wanes p p.endCreation := by
        refine ⟨⟨h.draining, h.waiting⟩, fun _ hn => hn, Nat.sub_le _ _, le_rfl, ?_, ?_⟩ <;>
          simp only [Pool.size, endCreation] <;> omega
      have hshelved := hadmitted.trans
        (hadmitted.quiet.wanes_shelve now (.fresh p.nextResource r now))
      rwa [creationEnded_some, hshelved.quiet.dispatch]

/-- A resource that was being validated goes to the shelf or is destroyed. -/
theorem Quiet.wanes_validationEnded (h : p.Quiet) (hpos : 0 < p.allObjects) (now : Instant)
    (x : Pooled ρ) (valid : Bool) : Wanes p (p.validationEnded now x valid) := by
  have hended : ∀ metrics, Wanes p { p with validating := p.validating - 1, metrics } := fun _ =>
    ⟨⟨h.draining, h.waiting⟩, fun n hn => hn, le_rfl, Nat.sub_le _ _, le_rfl, le_rfl⟩
  cases valid with
  | true =>
      have hquiet : p.endValidation.Quiet := (hended p.metrics).quiet
      rw [validationEnded_true, hquiet.lend]
      exact (hended p.metrics).trans (hquiet.wanes_shelve now x)
  | false =>
      have hquiet : p.failValidation.Quiet := (hended _).quiet
      have hretired := hquiet.wanes_retire hpos x
      rw [validationEnded_false, hretired.quiet.dispatch]
      exact (hended _).trans hretired

theorem Quiet.wanes_clearing (h : p.Quiet) (hsound : p.Sound []) (hclear : Clearing p p') :
    Wanes p p' := by
  cases hclear with
  | skip evictionCursor => exact h.wanes_of_eq rfl le_rfl rfl rfl rfl rfl rfl
  | @take x rest evictionCursor evictions taken =>
      obtain ⟨hwf, l, r, hold, hnew⟩ := taken hsound.shelf
      have hretired := Quiet.wanes_retire (p := { p with
          available := rest
          evictionCursor
          metrics := { p.metrics with evictions } })
        ⟨h.draining, h.waiting⟩ (hsound.take hwf hold hnew).allObjects_pos x
      exact ⟨hretired.quiet, hretired.loans, hretired.creating, hretired.validating,
        hretired.size, hretired.rest⟩

theorem Quiet.wanes_clearings (h : p.Quiet) (hsound : p.Sound []) (hclear : Clearings p p') :
    Wanes p p' := by
  induction hclear with
  | refl => exact h.wanes_refl
  | tail hclear hlast ih =>
      exact ih.trans (ih.quiet.wanes_clearing (hsound.clearings hclear) hlast)

/-- A lease that leaves the outbox is delivered, or comes back. -/
theorem Quiet.wanes_delivery {before after : List (Action ρ)} (h : p.Quiet) (hsound : p.Sound [])
    (houtbox : p.outbox = before ++ .deliver call l :: after) (hloan : l.id ∈ p.loans.keys)
    (hl : l.pool = p.id) (now : Instant) (sample : Duration) :
    Wanes p (Section.run p (.deliver now sample before call l after)) := by
  have hunpost := (hsound.deal_unpost houtbox).sound
  rw [Section.run]
  obtain ⟨calls, heq, hdeal⟩ | ⟨calls, heq, hdeal⟩ := hunpost.deal_deliver call hl <;>
    simp only [heq]
  · exact h.wanes_of_eq rfl le_rfl rfl rfl rfl rfl rfl
  · have hempty : ({ p with outbox := [], calls } : Pool ρ).Sound [] := { hdeal.sound with }
    have hquiet : ({ p with outbox := [], calls } : Pool ρ).Quiet := ⟨h.draining, h.waiting⟩
    have hback := hquiet.wanes_reclaim hempty hloan now sample
    exact ⟨⟨hback.quiet.draining, hback.quiet.waiting⟩, hback.loans, hback.creating,
      hback.validating, hback.size, hback.rest⟩

end Pool

/-- Inside a runtime every section leaves a quiet pool quiet, and no larger. -/
theorem Section.wanes {ρ : Type} {p : Pool ρ} {s : Section ρ} (h : p.Quiet) (hsound : p.Sound [])
    (hs : s.Ready p) (hruntime : s.abandons = false) : Pool.Wanes p (s.run p) := by
  cases s with
  | start =>
      rw [run, h.start]
      exact h.wanes_refl
  | request now call priority =>
      rw [run, h.request]
      exact h.wanes_refl
  | withdraw handle timeout => exact h.wanes_withdraw hsound.queue handle timeout
  | forget handle => exact h.wanes_forget hsound.queue handle
  | hangUp call => exact h.wanes_of_eq rfl le_rfl rfl rfl rfl rfl rfl
  | giveBack now sample lease => exact h.wanes_giveBack hsound hs now sample
  | discard lease => exact h.wanes_discard hsound hs
  | reclaim now sample lease => exact h.wanes_reclaim hsound hs now sample
  | creationEnded now made => exact h.wanes_creationEnded hs now made
  | validationEnded now x valid =>
      have hpos : 0 < p.allObjects := by
        have := hsound.books
        have := hs.1
        omega
      exact h.wanes_validationEnded hpos now x valid
  | destructionEnded succeeded =>
      refine ⟨⟨h.draining, h.waiting⟩, fun n hn => hn, le_rfl, le_rfl, le_rfl, ?_⟩
      change p.size + (p.destroying - 1) ≤ p.size + p.destroying
      omega
  | evict now => exact h.wanes_clearings hsound (Pool.clearings_evictSome p now _)
  | purge => exact h.wanes_purge hsound.queue
  | beginDrain =>
      have hbegun : ({ p with draining := true } : Pool ρ).Quiet := ⟨rfl, h.waiting⟩
      have hpurged := hbegun.wanes_purge hsound.queue
      exact ⟨hpurged.quiet, hpurged.loans, hpurged.creating, hpurged.validating, hpurged.size,
        hpurged.rest⟩
  | sweep => exact h.wanes_clearings hsound (Pool.clearings_sweepSome p _)
  | setRecycling | launch => exact h.wanes_of_eq rfl le_rfl rfl rfl rfl rfl rfl
  | abandon before action after => cases hruntime
  | deliver now sample before call lease after =>
      exact h.wanes_delivery hsound hs.1 hs.2.1 hs.2.2 now sample

end PooledSql
