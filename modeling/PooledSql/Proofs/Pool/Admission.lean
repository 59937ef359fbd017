import PooledSql.Proofs.Pool.Settled

/-!
# Admission

A request is accepted while fewer than the limit wait, and beyond it as long as there is room to
make a resource or one is on the shelf. So no more than the limit wait without a resource in sight:
`Pool.Covered` says this together with what makes the second exception safe, that a resource on the
shelf is for nobody who waits. Nothing else looks at the limit. What takes a resource out of sight
makes room for another one, and dispatch fills it.
-/

namespace PooledSql

namespace Pool

variable {ρ : Type} {p p' : Pool ρ} {now : Instant} {x : Pooled ρ} {l : Lease ρ}
variable {hand : List Nat} {most : Nat}

/-- All but so many of those who wait have a resource in sight, and what is on the shelf is for
none of them. -/
structure Covered (most : Nat) (p : Pool ρ) : Prop where
  waiting : p.waiting.length ≤ most + p.allocable
  shelf : 0 < p.available.length →
    p.waiting.length ≤ if p.config.testOnBorrow then p.validating else 0

/-- All but so many of those who wait have a resource in sight or room for one. -/
def Coverable (most : Nat) (p : Pool ρ) : Prop :=
  p.waiting.length ≤ most + p.allocable + p.spare

/-- Fewer callers and resources on the shelf and more resources in sight do no harm. -/
theorem Covered.mono (h : p.Covered most) (hconfig : p'.config = p.config)
    (hwaiting : p'.waiting.length ≤ p.waiting.length) (hallocable : p.allocable ≤ p'.allocable)
    (havailable : p'.available.length ≤ p.available.length)
    (hvalidating : p.validating ≤ p'.validating) : p'.Covered most where
  waiting := by
    have := h.waiting
    omega
  shelf hpos := by
    have hshelf := h.shelf (hpos.trans_le havailable)
    rw [hconfig]
    split at hshelf <;> rename_i htesting
    · rw [if_pos htesting]
      omega
    · rw [if_neg htesting]
      omega

theorem covered_of_waiting (h : p.waiting.length = 0) : p.Covered most where
  waiting := h.trans_le (Nat.zero_le _)
  shelf _ := h.trans_le (Nat.zero_le _)

/-! ## Passes -/

/-- A resource that is destroyed makes room for another one. -/
theorem Sound.spare_of_cull (h : p.Sound hand) (hpos : 0 < p.allObjects) (p' : Pool ρ)
    (hconfig : p'.config = p.config) (hall : p'.allObjects = p.allObjects - 1)
    (hcreating : p'.creating = p.creating) : p'.spare = p.spare + 1 := by
  have hroom := h.room
  simp only [spare, size, hconfig, hall, hcreating] at *
  omega

/-- Resources in sight and room for them are exchanged for each other, and what is lent to a caller
takes him off the queue. -/
theorem Coverable.pass (h : p.Coverable most) (hsound : p.Sound hand) (hpass : Pass now p p') :
    p'.Coverable most := by
  rw [Coverable] at h ⊢
  cases hpass with
  | order room need =>
      change p.waiting.length ≤ _
      rw [allocable_orderCreation, spare_orderCreation]
      simp only [spare] at h ⊢
      omega
  | @test x rest shift testing need =>
      have hlength := length_of_shift hsound.shelf shift
      change p.waiting.length ≤ most + (rest.length + (p.validating + 1) + p.creating) + p.spare
      simp only [allocable] at h
      omega
  | @lend x rest shift testing =>
      have hlength := length_of_shift hsound.shelf shift
      have htaken := hsound.shaped.of_shift shift
      have hconfig := (alike_lend { p with available := rest } now x).config
      obtain ⟨hvalidating, hcreating, hall⟩ := books_lend { p with available := rest } now x
      obtain ⟨havailable, hwaiting⟩ | hnone := length_lend htaken now x
      · change _ = rest.length at havailable
        change _ < p.waiting.length at hwaiting
        simp only [allocable, spare, size, hvalidating, hcreating, hall, hconfig] at h ⊢
        omega
      · omega
  | @cull x rest left right wf before after =>
      have hlength := length_of_take hsound.shelf wf before after
      have hpos := (hsound.take wf before after).allObjects_pos
      have hspare := hsound.spare_of_cull hpos (({ p with
        available := rest
        allObjects := p.allObjects - 1
        destroying := p.destroying + 1 } : Pool ρ).post [.destroy x.condemn]) rfl rfl rfl
      rw [hspare]
      change p.waiting.length ≤ most + (rest.length + p.validating + p.creating) + _
      simp only [allocable] at h
      omega
  | note => exact h

theorem Coverable.passes (h : p.Coverable most) (hsound : p.Sound hand)
    (hpasses : Passes now p p') : p'.Coverable most := by
  have hkeep : ∀ {q q' : Pool ρ}, Pass now q q' → q.Sound hand ∧ q.Coverable most →
      q'.Sound hand ∧ q'.Coverable most := fun hpass h =>
    ⟨h.1.pass hpass, h.2.pass h.1 hpass⟩
  exact (hpasses.keep hkeep ⟨hsound, h⟩).2

/-- A pool that is covered stays so in every pass: if a resource is taken from the shelf, nobody
waits for it. -/
theorem Covered.pass (h : p.Covered most) (hsound : p.Sound hand) (hpass : Pass now p p') :
    p'.Covered most := by
  cases hpass with
  | order => exact h.mono rfl le_rfl (by simp) le_rfl le_rfl
  | @test x rest shift testing need =>
      have hlength := length_of_shift hsound.shelf shift
      have hallocable : p.allocable ≤ rest.length + (p.validating + 1) + p.creating := by
        simp only [allocable]
        omega
      have hless : rest.length ≤ p.available.length := by omega
      exact h.mono rfl le_rfl hallocable hless (Nat.le_succ _)
  | @lend x rest shift testing =>
      have hlength := length_of_shift hsound.shelf shift
      have hnone := h.shelf (by omega)
      rw [testing] at hnone
      change p.waiting.length ≤ 0 at hnone
      obtain ⟨-, hwaiting⟩ | hnone' := length_lend (hsound.shaped.of_shift shift) now x
      · change _ < p.waiting.length at hwaiting
        omega
      · exact covered_of_waiting hnone'
  | @cull x rest left right wf before after =>
      have hlength := length_of_take hsound.shelf wf before after
      have hserved := h.shelf (by omega)
      refine ⟨?_, fun _ => hserved⟩
      change p.waiting.length ≤ most + (rest.length + p.validating + p.creating)
      split at hserved <;> omega
  | note => exact h.mono rfl le_rfl le_rfl le_rfl le_rfl

theorem Covered.passes (h : p.Covered most) (hsound : p.Sound hand) (hpasses : Passes now p p') :
    p'.Covered most := by
  have hkeep : ∀ {q q' : Pool ρ}, Pass now q q' → q.Sound hand ∧ q.Covered most →
      q'.Sound hand ∧ q'.Covered most := fun hpass h =>
    ⟨h.1.pass hpass, h.2.pass h.1 hpass⟩
  exact (hpasses.keep hkeep ⟨hsound, h⟩).2

/-- Dispatch fills the room that there is for those who wait. -/
theorem Coverable.dispatch (h : p.Coverable most) (hsound : p.Sound hand) (now : Instant) :
    (p.dispatch now).Covered most where
  waiting := by
    have hafter := h.passes hsound (hsound.passes_dispatch now)
    have hspare := (settled_dispatch hsound.shaped now).spare
    rw [Coverable] at hafter
    omega
  shelf := (settled_dispatch hsound.shaped now).shelf

theorem Coverable.refill (h : p.Coverable most) (hsound : p.Sound hand) (now : Instant) :
    (p.ensureMinimum.dispatch now).Covered most := by
  have hfill := hsound.passes_ensureMinimum now
  exact (h.passes hsound hfill).dispatch (hsound.passes hfill) now

/-! ## Sections -/

theorem Covered.start (h : p.Covered most) (hsound : p.Sound []) : p.start.Covered most := by
  obtain heq | ⟨-, -, heq⟩ := p.start_eq <;> rw [heq]
  · exact h
  · have hwake : p.wake.Covered most := h.mono rfl le_rfl le_rfl le_rfl le_rfl
    exact hwake.passes hsound.wake (hsound.wake.passes_ensureMinimum 0)

/-- A request beyond the limit has a resource on the shelf or room for one. -/
theorem Covered.join {call : CallId} {priority : Nat} (h : p.Covered most) (hsound : p.Sound [])
    (hcrowded : p.isCrowded most = false) : (p.join call priority).Coverable most := by
  obtain ⟨hwf, left, right, hold, hnew⟩ := hsound.queue.enqueue call priority
  have hlength : (p.waiting.enqueue call priority).2.length = p.waiting.length + 1 := by
    rw [hwf.length_toList, hsound.queue.length_toList, hold, hnew]
    simp only [List.length_append, List.length_cons]
    omega
  rw [Coverable]
  change (p.waiting.enqueue call priority).2.length ≤ most + p.allocable + p.spare
  rw [hlength]
  have hwaiting := h.waiting
  have hshelf := h.shelf
  by_cases hspare : p.spare < 1
  · by_cases havailable : p.available.isEmpty = true
    · have hfew : p.waiting.length < most := by simpa [isCrowded, hspare, havailable] using hcrowded
      omega
    · have hpos : 0 < p.available.length := by
        rw [hsound.shelf.isEmpty_iff] at havailable
        rw [hsound.shelf.length_toList]
        exact List.length_pos_of_ne_nil havailable
      have hserved := hshelf hpos
      simp only [allocable] at *
      split at hserved <;> omega
  · omega

theorem Covered.request {call : CallId} (h : p.Covered most) (hsound : p.Sound [])
    (hcall : call ∉ p.calls.keys) (hmost : p.config.maxWaiting = some most) (now : Instant)
    (priority : Nat) : (p.request now call priority).2.Covered most := by
  have hawake : (if p.started then p else p.start).Covered most := by
    split
    · exact h
    · exact h.start hsound
  have hsame := alike_awake p
  have hsound' := hsound.awake
  rw [Pool.request]
  generalize (if p.started then p else p.start) = q at *
  have hmost' : q.config.maxWaiting = some most := hsame.config ▸ hmost
  have hcall' : call ∉ q.calls.keys := hsame.calls ▸ hcall
  split
  · exact hawake
  · simp only [hmost']
    split
    · exact hawake
    · rename_i hcrowded
      exact (hawake.join hsound' (by simpa using hcrowded)).dispatch
        (hsound'.join hcall' priority) now

theorem Covered.forget (h : p.Covered most) (hqueue : p.waiting.Wf) (handle : QueueHandle) :
    (p.forget handle).Covered most := by
  rw [Pool.forget]
  split
  · rename_i hremove
    have := hqueue.length_of_remove hremove
    exact h.mono rfl (by dsimp only; omega) le_rfl le_rfl le_rfl
  · exact h

theorem Covered.withdraw (h : p.Covered most) (hqueue : p.waiting.Wf) (handle : QueueHandle)
    (timeout : Duration) : (p.withdraw handle timeout).Covered most := by
  obtain heq | ⟨call, waiting, calls, metrics, hremove, -, heq⟩ :=
    p.withdraw_cases handle timeout <;> rw [heq]
  · exact h
  · have := hqueue.length_of_remove hremove
    exact h.mono rfl (by dsimp only; omega) le_rfl le_rfl le_rfl

/-- A resource in hand that goes to the shelf does as well as one in the making. -/
theorem Coverable.shelve {q : Pool ρ} (hwf : q.available.Wf)
    (hwaiting : q.waiting.length ≤ most + (q.allocable + 1) + q.spare) (now : Instant)
    (x : Pooled ρ) : (q.shelve now x).Coverable most := by
  obtain ⟨-, hlength, -⟩ := shelve_available hwf now x
  rw [Coverable, allocable, hlength]
  change q.waiting.length ≤ most + (q.available.length + 1 + q.validating + q.creating) + q.spare
  rw [allocable] at hwaiting
  omega

theorem Covered.giveBack (h : p.Covered most) (hsound : p.Sound []) (hl : l.id ∈ p.loans.keys)
    (now : Instant) (sample : Duration) : (p.giveBack now sample l).2.Covered most := by
  obtain ⟨loan, hloan⟩ := Option.isSome_iff_exists.1 (Registry.get?_isSome_iff.2 hl)
  obtain ⟨hback, -⟩ := hsound.of_loan hl
  have hwaiting := h.waiting
  obtain heq | heq := giveBack_eq hloan now sample <;> rw [heq]
  · have hgone : (p.endLoan l.id).writeOff.Coverable most :=
      hwaiting.trans (Nat.le_add_right _ _)
    exact hgone.refill hback.writeOff now
  · refine Coverable.dispatch ?_ (Sound.shelve (x := l.returned loan) hback) now
    refine Coverable.shelve hback.shelf ?_ now _
    change p.waiting.length ≤ most + (p.allocable + 1) + p.spare
    omega

theorem Covered.reclaim (h : p.Covered most) (hsound : p.Sound []) (hl : l.id ∈ p.loans.keys)
    (now : Instant) (sample : Duration) : (p.reclaim now sample l).Covered most := by
  have hback := h.giveBack hsound hl now sample
  obtain heq | ⟨x, heq⟩ := reclaim_eq p now sample l <;> rw [heq]
  · exact hback
  · exact hback.mono rfl le_rfl le_rfl le_rfl le_rfl

theorem Covered.discard (h : p.Covered most) (hsound : p.Sound []) (hl : l.id ∈ p.loans.keys) :
    (p.discard l).2.Covered most := by
  obtain ⟨loan, hloan⟩ := Option.isSome_iff_exists.1 (Registry.get?_isSome_iff.2 hl)
  obtain ⟨hback, -⟩ := hsound.of_loan hl
  have hgone : (p.endLoan l.id).writeOff.Covered most := h.mono rfl le_rfl le_rfl le_rfl le_rfl
  rw [discard_eq hloan]
  exact hgone.passes hback.writeOff (hback.writeOff.passes_ensureMinimum 0)

/-- A resource that could not be made leaves its room to another one. -/
theorem Covered.creationEnded (h : p.Covered most) (hsound : p.Sound [])
    (hcreating : 0 < p.creating) (now : Instant) (made : Option ρ) :
    (p.creationEnded now made).Covered most := by
  have hwaiting := h.waiting
  cases made with
  | none =>
      refine Coverable.dispatch ?_ hsound.failCreation now
      have hroom := hsound.room
      simp only [Coverable, allocable, spare, size, failCreation] at *
      omega
  | some r =>
      refine Coverable.dispatch ?_ (hsound.deal_endCreation hcreating now r).sound now
      refine Coverable.shelve (hsound.endCreation hcreating).shelf ?_ now _
      have hroom := hsound.room
      simp only [allocable, spare, size, endCreation] at *
      omega

/-- A resource that was validated goes to a caller or back to the shelf, or leaves its room to
another one. -/
theorem Covered.validationEnded (h : p.Covered most) (hsound : p.Sound [])
    (hvalidating : 0 < p.validating) (hdistinct : ∀ n, p.tally [x.id] n ≤ 1)
    (hnumbered : x.id < p.nextResource) (now : Instant) (valid : Bool) :
    (p.validationEnded now x valid).Covered most := by
  have hwaiting := h.waiting
  cases valid with
  | true =>
      rw [validationEnded_true]
      obtain ⟨hvalidating', hcreating, -, hconfig⟩ := books_validated p now x
      obtain ⟨havailable, hless⟩ | hnone := length_validated hsound.shaped now x
      · refine ⟨?_, fun hpos => ?_⟩
        · simp only [allocable, hvalidating', hcreating, havailable] at *
          omega
        · have hshelf := h.shelf (havailable ▸ hpos)
          rw [hconfig, hvalidating']
          split at hshelf <;> rename_i htesting
          · rw [if_pos htesting]
            exact Nat.le_sub_one_of_lt (hless.trans_le hshelf)
          · exact absurd hless (by omega)
      · exact covered_of_waiting hnone
  | false =>
      have hfailed := hsound.failValidation hvalidating hdistinct hnumbered
      have hpos : 0 < p.allObjects := hfailed.allObjects_pos
      have hroom := hsound.room
      rw [validationEnded_false, retire_eq]
      refine Coverable.refill ?_ hfailed.condemn now
      simp only [Coverable, allocable, spare, size, post, writeOff, failValidation] at *
      omega

theorem Covered.purge (h : p.Covered most) (hqueue : p.waiting.Wf) : p.purge.Covered most :=
  h.mono rfl (hqueue.length_retain_le _) le_rfl le_rfl le_rfl

/-- With the loans they are no more than the limit above all resources. -/
theorem Covered.add_loans_le (h : p.Covered most) (hsound : p.Sound []) :
    p.waiting.length + p.loans.size ≤ most + p.size := by
  have := h.waiting
  have := hsound.books
  simp only [allocable, size, List.length_nil] at *
  omega

end Pool

namespace Section

open Pool

variable {ρ : Type} {p : Pool ρ} {most : Nat}

/-- Every section inside a runtime keeps a pool covered. -/
theorem covered {s : Section ρ} (h : p.Covered most) (hsound : p.Sound []) (hs : s.Ready p)
    (hruntime : s.abandons = false) (hmost : p.config.maxWaiting = some most) :
    (s.run p).Covered most := by
  cases s with
  | start => exact h.start hsound
  | request now call priority => exact h.request hsound hs hmost now priority
  | withdraw handle timeout => exact h.withdraw hsound.queue handle timeout
  | forget handle => exact h.forget hsound.queue handle
  | giveBack now sample lease => exact h.giveBack hsound hs now sample
  | discard lease => exact h.discard hsound hs
  | reclaim now sample lease => exact h.reclaim hsound hs now sample
  | creationEnded now made => exact h.creationEnded hsound hs now made
  | validationEnded now x valid => exact h.validationEnded hsound hs.1 hs.2.1 hs.2.2 now valid
  | evict now => exact h.passes hsound (hsound.passes_evictSome now _)
  | purge => exact h.purge hsound.queue
  | beginDrain =>
      have hbegun : ({ p with draining := true } : Pool ρ).Covered most :=
        h.mono rfl le_rfl le_rfl le_rfl le_rfl
      exact hbegun.purge hsound.queue
  | sweep => exact h.passes hsound (hsound.passes_sweepSome 0 _)
  | abandon before action after => cases hruntime
  | deliver now sample before call lease after =>
      obtain ⟨calls, heq, hdeal⟩ | ⟨calls, heq, hdeal⟩ :=
        (hsound.deal_unpost hs.1).sound.deal_deliver call hs.2.2 <;> rw [run] <;> simp only [heq]
      · exact h.mono rfl le_rfl le_rfl le_rfl le_rfl
      · have hempty : ({ p with outbox := [], calls } : Pool ρ).Covered most :=
          h.mono rfl le_rfl le_rfl le_rfl le_rfl
        have hback := hempty.reclaim { hdeal.sound with } hs.2.1 now sample
        exact hback.mono rfl le_rfl le_rfl le_rfl le_rfl
  | _ => exact h.mono rfl le_rfl le_rfl le_rfl le_rfl

end Section

end PooledSql
