import PooledSql.Proofs.Pool.Conservation
import PooledSql.Proofs.Pool.Minimum

/-!
# Metrics

Nothing in a pool reads its metrics, so a section that forgot one of them would do no harm.
`Section.Accrues` says of a section by how much the metrics move on, as far as they are about
resources and leases: the resources that were made and are not gone are counted in the pool or on
their way out of it, and those that were acquired and did not come back are on loan.
-/

namespace PooledSql

variable {ρ : Type}

namespace Pool

variable {p p' p'' : Pool ρ} {now : Instant} {x : Pooled ρ} {hand : List Nat} {l : Lease ρ}

/-- The resources that are in the pool, are being destroyed or were destroyed, or could not be. -/
def everCounted (p : Pool ρ) : Nat :=
  p.allObjects + p.destroying + p.metrics.destroyed + p.metrics.destroyFailures

/-- No resource is made or lost and no lease comes back. -/
structure Steady (p p' : Pool ρ) : Prop where
  created : p'.metrics.created = p.metrics.created
  createFailures : p'.metrics.createFailures = p.metrics.createFailures
  resources : p'.everCounted = p.everCounted
  loans : p'.metrics.acquisitions + p.loans.size = p.metrics.acquisitions + p'.loans.size

theorem Steady.refl (p : Pool ρ) : p.Steady p := ⟨rfl, rfl, rfl, rfl⟩

theorem Steady.trans (h : p.Steady p') (h' : p'.Steady p'') : p.Steady p'' where
  created := h'.created.trans h.created
  createFailures := h'.createFailures.trans h.createFailures
  resources := h'.resources.trans h.resources
  loans := by
    have := h.loans
    have := h'.loans
    omega

/-- A resource that is taken off the books is being destroyed. -/
theorem everCounted_writeOff (hpos : 0 < p.allObjects) (hall : p'.allObjects = p.allObjects - 1)
    (hdestroying : p'.destroying = p.destroying + 1)
    (hdestroyed : p'.metrics.destroyed = p.metrics.destroyed)
    (hfailed : p'.metrics.destroyFailures = p.metrics.destroyFailures) :
    p'.everCounted = p.everCounted := by
  rw [everCounted, everCounted, hall, hdestroying, hdestroyed, hfailed]
  omega

/-! ## Passes -/

/-- A resource that is lent is acquired. -/
theorem Sound.steady_lend (h : p.Sound (x.id :: hand)) (now : Instant) :
    p.Steady (p.lend now x) := by
  obtain ⟨call, waiting, -, -, -, heq⟩ | ⟨waiting, -, -, -, heq⟩ :=
    lend_cases h.queue now x <;> rw [heq]
  · refine ⟨rfl, rfl, rfl, ?_⟩
    have := Registry.size_insert x.loan h.notMem_loans
    change p.metrics.acquisitions + 1 + p.loans.size =
      p.metrics.acquisitions + (p.loans.insert x.id x.loan).size
    omega
  · exact ⟨rfl, rfl, rfl, rfl⟩

theorem Sound.steady_pass (h : p.Sound hand) (hpass : Pass now p p') : p.Steady p' := by
  cases hpass with
  | @lend x rest shift testing =>
      have hlend := (h.of_shift shift).steady_lend now
      exact ⟨hlend.created, hlend.createFailures, hlend.resources, hlend.loans⟩
  | @cull x rest l r wf before after =>
      have hpos : 0 < p.allObjects := (h.take wf before after).allObjects_pos
      exact ⟨rfl, rfl, everCounted_writeOff hpos rfl rfl rfl rfl, rfl⟩
  | _ => exact ⟨rfl, rfl, rfl, rfl⟩

theorem Sound.steady_passes (h : p.Sound hand) (hpasses : Passes now p p') : p.Steady p' := by
  induction hpasses with
  | refl => exact .refl p
  | tail hfirst hlast ih => exact ih.trans ((h.passes hfirst).steady_pass hlast)

theorem Sound.steady_ensureMinimum (h : p.Sound hand) : p.Steady p.ensureMinimum :=
  h.steady_passes (h.passes_ensureMinimum 0)

theorem Sound.steady_dispatch (h : p.Sound hand) (now : Instant) : p.Steady (p.dispatch now) :=
  h.steady_passes (h.passes_dispatch now)

/-- A resource in hand is destroyed. -/
theorem Sound.steady_retire (h : p.Sound [x.id]) : p.Steady (p.retire x) := by
  have hbooks : p.Steady (p.writeOff.post [.destroy x.condemn]) :=
    ⟨rfl, rfl, everCounted_writeOff h.allObjects_pos rfl rfl rfl rfl, rfl⟩
  exact hbooks.trans h.condemn.steady_ensureMinimum

theorem Sound.steady_start (h : p.Sound []) : p.Steady p.start := by
  obtain heq | ⟨-, -, heq⟩ := p.start_eq <;> rw [heq]
  · exact .refl p
  · have hwake : p.Steady p.wake := ⟨rfl, rfl, rfl, rfl⟩
    exact hwake.trans h.wake.steady_ensureMinimum

theorem Sound.steady_request {call : CallId} (h : p.Sound []) (hcall : call ∉ p.calls.keys)
    (now : Instant) (priority : Nat) : p.Steady (p.request now call priority).2 := by
  have hawake : p.Steady (if p.started then p else p.start) := by
    split
    · exact .refl p
    · exact h.steady_start
  have hsound := h.awake
  have hcalls := (alike_awake p).calls
  obtain ⟨q, hq, ⟨e, heq⟩ | heq⟩ := request_cases p now call priority <;> rw [heq] <;>
    rw [← hq] at hawake hsound hcalls
  · exact hawake
  · have hjoin : q.Steady (q.join call priority) := ⟨rfl, rfl, rfl, rfl⟩
    exact (hawake.trans hjoin).trans ((hsound.join (hcalls ▸ hcall) priority).steady_dispatch now)

theorem steady_withdraw (p : Pool ρ) (handle : QueueHandle) (timeout : Duration) :
    p.Steady (p.withdraw handle timeout) := by
  rw [withdraw]
  split
  · rename_i call waiting hremove
    obtain ⟨calls, -, heq⟩ := reject_calls ({ p with
      waiting
      metrics := { p.metrics with acquireTimeouts := p.metrics.acquireTimeouts + 1 } } : Pool ρ)
      call (.acquireTimeout timeout)
    rw [heq]
    exact ⟨rfl, rfl, rfl, rfl⟩
  · exact .refl p

theorem steady_forget (p : Pool ρ) (handle : QueueHandle) : p.Steady (p.forget handle) := by
  rw [forget]
  split <;> exact ⟨rfl, rfl, rfl, rfl⟩

end Pool

namespace Section

open Pool

variable {p p' p'' : Pool ρ} {s : Section ρ} {l : Lease ρ} {now : Instant} {sample : Duration}

/-- A lease comes back: it is released, destroyed or let go, or nobody awaits it any more. -/
def returns (p : Pool ρ) : Section ρ → Bool
  | .giveBack _ _ _ | .discard _ | .reclaim _ _ _ => true
  | .deliver _ _ _ call lease _ => (p.deliver call lease).1.isSome
  | _ => false

/-- How many resources are lost because a task cannot be started. -/
def lost : Section ρ → Nat
  | .abandon _ action _ => action.lost.length
  | _ => 0

/-- By how much a section moves the metrics on. -/
structure Accrues (p : Pool ρ) (s : Section ρ) (p' : Pool ρ) : Prop where
  created : p'.metrics.created = p.metrics.created + s.made
  createFailures : p'.metrics.createFailures = p.metrics.createFailures + s.failsCreation.toNat
  resources : p'.everCounted + s.lost = p.everCounted + s.made
  loans : p'.metrics.acquisitions + p.loans.size =
    p.metrics.acquisitions + p'.loans.size + (s.returns p).toNat

theorem Accrues.steady (h : s.Accrues p p') (h' : p'.Steady p'') : s.Accrues p p'' where
  created := h'.created.trans h.created
  createFailures := h'.createFailures.trans h.createFailures
  resources := by rw [h'.resources, h.resources]
  loans := by
    have := h.loans
    have := h'.loans
    omega

theorem accrues_of_steady (h : p.Steady p') (hmade : s.made = 0) (hfails : s.failsCreation = false)
    (hlost : s.lost = 0) (hreturns : s.returns p = false) : s.Accrues p p' where
  created := by rw [h.created, hmade, Nat.add_zero]
  createFailures := by rw [h.createFailures, hfails, Bool.toNat_false, Nat.add_zero]
  resources := by rw [h.resources, hmade, hlost]
  loans := by rw [h.loans, hreturns, Bool.toNat_false, Nat.add_zero]

/-- A loan has ended, with nothing else. -/
theorem accrues_loan (h : p.Sound []) (hl : l.id ∈ p.loans.keys) (hmetrics : p'.metrics = p.metrics)
    (hresources : p'.everCounted = p.everCounted) (hloans : p'.loans = p.loans.erase l.id)
    (hmade : s.made = 0) (hfails : s.failsCreation = false) (hlost : s.lost = 0)
    (hreturns : s.returns p = true) : s.Accrues p p' where
  created := by rw [hmetrics, hmade, Nat.add_zero]
  createFailures := by rw [hmetrics, hfails, Bool.toNat_false, Nat.add_zero]
  resources := by rw [hresources, hmade, hlost]
  loans := by
    have := Registry.size_erase h.loans hl
    rw [hmetrics, hreturns, hloans, Bool.toNat_true]
    omega

/-- A lease that comes back ends its loan, and the resource is kept or destroyed. -/
theorem accrues_giveBack (h : p.Sound []) (hl : l.id ∈ p.loans.keys) (now : Instant)
    (sample : Duration) :
    (giveBack now sample l).Accrues p (p.giveBack now sample l).2 := by
  obtain ⟨loan, hloan⟩ := Option.isSome_iff_exists.1 (Registry.get?_isSome_iff.2 hl)
  have hback := (h.of_loan hl).1
  obtain heq | heq := giveBack_eq hloan now sample <;> rw [heq]
  · have hbooks : (giveBack now sample l).Accrues p (p.endLoan l.id).writeOff :=
      accrues_loan h hl rfl
        (everCounted_writeOff (h.allObjects_pos_of_loan hl) rfl rfl rfl rfl) rfl rfl rfl rfl rfl
    exact hbooks.steady (hback.writeOff.steady_passes (hback.writeOff.passes_refill now))
  · have hshelve : (giveBack now sample l).Accrues p
        ((p.endLoan l.id).shelve now (l.returned loan)) :=
      accrues_loan h hl rfl rfl rfl rfl rfl rfl rfl
    have hshelved : ((p.endLoan l.id).shelve now (l.returned loan)).Sound [] :=
      Sound.shelve (x := l.returned loan) hback
    exact hshelve.steady (hshelved.steady_dispatch now)

theorem accrues_discard (h : p.Sound []) (hl : l.id ∈ p.loans.keys) :
    (discard l).Accrues p (p.discard l).2 := by
  obtain ⟨loan, hloan⟩ := Option.isSome_iff_exists.1 (Registry.get?_isSome_iff.2 hl)
  have hback := (h.of_loan hl).1
  rw [discard_eq hloan]
  have hbooks : (discard l).Accrues p (p.endLoan l.id).writeOff :=
    accrues_loan h hl rfl
      (everCounted_writeOff (h.allObjects_pos_of_loan hl) rfl rfl rfl rfl) rfl rfl rfl rfl rfl
  exact hbooks.steady hback.writeOff.steady_ensureMinimum

theorem accrues_reclaim (h : p.Sound []) (hl : l.id ∈ p.loans.keys) (now : Instant)
    (sample : Duration) : (reclaim now sample l).Accrues p (p.reclaim now sample l) := by
  obtain ⟨hcreated, hfailures, hresources, hloans⟩ := accrues_giveBack h hl now sample
  obtain heq | ⟨x, heq⟩ := reclaim_eq p now sample l <;> rw [heq] <;>
    exact ⟨hcreated, hfailures, hresources, hloans⟩

theorem accrues_creationEnded (h : p.Sound []) (hcreating : 0 < p.creating) (now : Instant)
    (made : Option ρ) : (creationEnded now made).Accrues p (p.creationEnded now made) := by
  cases made with
  | none =>
      have hbooks : (creationEnded now none).Accrues p p.failCreation := ⟨rfl, rfl, rfl, rfl⟩
      exact hbooks.steady (h.failCreation.steady_dispatch now)
  | some r =>
      have hbooks : (creationEnded now (some r)).Accrues p
          (p.endCreation.shelve now (.fresh p.nextResource r now)) := by
        refine ⟨rfl, rfl, ?_, rfl⟩
        change p.allObjects + 1 + p.destroying + p.metrics.destroyed + p.metrics.destroyFailures =
          p.allObjects + p.destroying + p.metrics.destroyed + p.metrics.destroyFailures + 1
        omega
      exact hbooks.steady ((h.deal_endCreation hcreating now r).sound.steady_dispatch now)

theorem steady_validationEnded {x : Pooled ρ} {valid : Bool} (h : p.Sound [])
    (hx : (validationEnded now x valid).Ready p) : p.Steady (p.validationEnded now x valid) := by
  obtain ⟨hvalidating, hdistinct, hnumbered⟩ := hx
  cases valid with
  | true =>
      have hlend := (h.endValidation hvalidating hdistinct hnumbered).steady_lend now
      exact ⟨hlend.created, hlend.createFailures, hlend.resources, hlend.loans⟩
  | false =>
      have hfailed := h.failValidation hvalidating hdistinct hnumbered
      have hretire := hfailed.steady_retire.trans (hfailed.deal_retire.sound.steady_dispatch now)
      exact ⟨hretire.created, hretire.createFailures, hretire.resources, hretire.loans⟩

/-- A destruction that ends is counted, as one that succeeded or not. -/
theorem steady_destructionEnded (hdestroying : 0 < p.destroying) (succeeded : Bool) :
    p.Steady (p.destructionEnded succeeded) := by
  refine ⟨?_, ?_, ?_, ?_⟩ <;> cases succeeded <;> try rfl
  · change p.allObjects + (p.destroying - 1) + p.metrics.destroyed +
      (p.metrics.destroyFailures + 1) = p.everCounted
    rw [everCounted]
    omega
  · change p.allObjects + (p.destroying - 1) + (p.metrics.destroyed + 1) +
      p.metrics.destroyFailures = p.everCounted
    rw [everCounted]
    omega

/-- What is counted for an action that cannot be performed is lost. -/
theorem accrues_abandon {before after : List (Action ρ)} {action : Action ρ} (h : p.Sound [])
    (hs : (abandon before action after).Ready p) :
    (abandon before action after).Accrues p (run p (.abandon before action after)) := by
  obtain ⟨-, -, -, hvalidating, hdestroying⟩ := hs
  refine ⟨?_, ?_, ?_, ?_⟩ <;> cases action <;> try rfl
  · have := h.books
    have hpos : 1 ≤ p.validating := hvalidating
    change p.allObjects - 1 + p.destroying + p.metrics.destroyed + p.metrics.destroyFailures + 1 =
      p.allObjects + p.destroying + p.metrics.destroyed + p.metrics.destroyFailures
    omega
  · have hpos : 1 ≤ p.destroying := hdestroying
    change p.allObjects + (p.destroying - 1) + p.metrics.destroyed + p.metrics.destroyFailures +
      1 = p.allObjects + p.destroying + p.metrics.destroyed + p.metrics.destroyFailures
    omega

/-- A lease leaves the outbox. If it comes back, its loan ends. -/
theorem accrues_deliver {before after : List (Action ρ)} {call : CallId} (h : p.Sound [])
    (hs : (deliver now sample before call l after).Ready p) :
    (deliver now sample before call l after).Accrues p
      (run p (.deliver now sample before call l after)) := by
  obtain ⟨houtbox, hl, hlender⟩ := hs
  rw [run]
  obtain ⟨calls, heq, -⟩ | ⟨calls, heq, hdeal⟩ :=
      (h.deal_unpost houtbox).sound.deal_deliver call hlender <;>
    simp only [heq]
  · refine accrues_of_steady ⟨rfl, rfl, rfl, rfl⟩ rfl rfl rfl ?_
    rw [returns, ← deliver_fst p (before ++ after), heq]
    rfl
  · have hempty : ({ p with outbox := [], calls } : Pool ρ).Sound [] := { hdeal.sound with }
    obtain ⟨hcreated, hfailures, hresources, hloans⟩ := accrues_reclaim hempty hl now sample
    refine ⟨hcreated, hfailures, hresources, ?_⟩
    rw [returns, ← deliver_fst p (before ++ after), heq]
    exact hloans

/-- Every section moves the metrics on by what it makes, loses and takes back. -/
theorem accrues (h : p.Sound []) (hs : s.Ready p) : s.Accrues p (s.run p) := by
  have hsteady : ∀ {p' : Pool ρ}, p.Steady p' → s.made = 0 → s.failsCreation = false →
      s.lost = 0 → s.returns p = false → s.Accrues p p' := accrues_of_steady
  cases s with
  | request now call priority => exact hsteady (h.steady_request hs now priority) rfl rfl rfl rfl
  | start => exact hsteady h.steady_start rfl rfl rfl rfl
  | withdraw handle timeout => exact hsteady (steady_withdraw p handle timeout) rfl rfl rfl rfl
  | forget handle => exact hsteady (steady_forget p handle) rfl rfl rfl rfl
  | giveBack now sample lease => exact accrues_giveBack h hs now sample
  | discard lease => exact accrues_discard h hs
  | reclaim now sample lease => exact accrues_reclaim h hs now sample
  | creationEnded now made => exact accrues_creationEnded h hs now made
  | validationEnded now x valid => exact hsteady (steady_validationEnded h hs) rfl rfl rfl rfl
  | destructionEnded succeeded =>
      exact hsteady (steady_destructionEnded hs succeeded) rfl rfl rfl rfl
  | evict now => exact hsteady (h.steady_passes (h.passes_evictSome now _)) rfl rfl rfl rfl
  | sweep => exact hsteady (h.steady_passes (h.passes_sweepSome 0 _)) rfl rfl rfl rfl
  | abandon before action after => exact accrues_abandon h hs
  | deliver now sample before call lease after => exact accrues_deliver h hs
  | _ => exact hsteady ⟨rfl, rfl, rfl, rfl⟩ rfl rfl rfl rfl

end Section

end PooledSql
