import PooledSql.Pool.Shutdown
import PooledSql.Proofs.Pool.Books

/-!
# Pools that never recycle

`Pool.recode` gives a pool other age limits and changes nothing else. Only the decision at a return
looks at them; so where neither the old limits nor the new ones ever recycle anything, everything
that can happen to a pool happens to the recoded pool in the same way.
-/

namespace PooledSql

variable {ρ : Type}

/-- Nothing is ever recycled by age. -/
def NeverDue (r : Option RecyclingConfig) : Prop := ∀ c, r = some c → c.timeout = none

/-- The age limits of a pool are kept, or neither these nor the new ones recycle anything. -/
def Immaterial (f : Nat → Option RecyclingConfig → Option RecyclingConfig) : Prop :=
  ∀ i r, f i r = r ∨ NeverDue r ∧ NeverDue (f i r)

/-- Age limits that recycle nothing are left out. -/
def omitNeverDue (_ : Nat) : Option RecyclingConfig → Option RecyclingConfig
  | some ⟨none, _⟩ => none
  | r => r

theorem immaterial_omitNeverDue : Immaterial omitNeverDue := by
  intro i r
  rcases r with _ | ⟨_ | timeout, jitter⟩
  · exact .inl rfl
  · exact .inr ⟨fun c hc => by cases hc; rfl, nofun⟩
  · exact .inl rfl

namespace Pool

variable {f : Nat → Option RecyclingConfig → Option RecyclingConfig} {p : Pool ρ}

/-- The pool with other age limits. -/
def recode (f : Nat → Option RecyclingConfig → Option RecyclingConfig) (p : Pool ρ) : Pool ρ :=
  { p with recycling := f p.id p.recycling }

theorem recycles_eq_false (h : NeverDue p.recycling) (sample age : Duration) :
    p.recycles sample age = false := by
  rw [recycles, Bool.and_eq_false_iff]
  refine .inr ?_
  cases hr : p.recycling with
  | none => rfl
  | some c => simp only [RecyclingConfig.isDue, h c hr]

theorem recycles_recode (hf : Immaterial f) (p : Pool ρ) (sample age : Duration) :
    (p.recode f).recycles sample age = p.recycles sample age := by
  obtain hsame | ⟨hold, hnew⟩ := hf p.id p.recycling
  · rw [recode, hsame]
  · rw [recycles_eq_false hold, recycles_eq_false]
    exact hnew

@[simp] theorem config_recode (p : Pool ρ) : (p.recode f).config = p.config := rfl
@[simp] theorem started_recode (p : Pool ρ) : (p.recode f).started = p.started := rfl
@[simp] theorem draining_recode (p : Pool ρ) : (p.recode f).draining = p.draining := rfl
@[simp] theorem available_recode (p : Pool ρ) : (p.recode f).available = p.available := rfl
@[simp] theorem waiting_recode (p : Pool ρ) : (p.recode f).waiting = p.waiting := rfl
@[simp] theorem calls_recode (p : Pool ρ) : (p.recode f).calls = p.calls := rfl
@[simp] theorem loans_recode (p : Pool ρ) : (p.recode f).loans = p.loans := rfl
@[simp] theorem nextTested_recode (p : Pool ρ) : (p.recode f).nextTested = p.nextTested := rfl

/-! ## Passes -/

theorem ensureMinimum_recode (p : Pool ρ) :
    (p.recode f).ensureMinimum = p.ensureMinimum.recode f := by
  rw [ensureMinimum, ensureMinimum, draining_recode]
  cases p.draining <;> rfl

theorem retire_recode (p : Pool ρ) (x : Pooled ρ) :
    (p.recode f).retire x = (p.retire x).recode f :=
  ensureMinimum_recode (p.writeOff.post [.destroy x.condemn])

theorem lend_recode (p : Pool ρ) (now : Instant) (x : Pooled ρ) :
    (p.recode f).lend now x = (p.lend now x).recode f := by
  have htake : takePending (p.recode f).isPending p.waiting.length p.waiting =
    takePending p.isPending p.waiting.length p.waiting := rfl
  rw [lend, lend, waiting_recode, htake]
  rcases takePending p.isPending p.waiting.length p.waiting with ⟨_ | _, _⟩ <;> rfl

theorem orderValidation_recode (p : Pool ρ) (count : Nat) :
    (p.recode f).orderValidation count = (p.orderValidation count).recode f := by
  induction count generalizing p with
  | zero => rfl
  | succ count ih =>
      rw [orderValidation, orderValidation, available_recode]
      cases p.available.shift with
      | none => rfl
      | some next =>
          exact ih (({ p with available := next.2, validating := p.validating + 1 } : Pool ρ).post
            [.validate { next.1 with stage := .validating }])

theorem lendSome_recode (p : Pool ρ) (now : Instant) (count : Nat) :
    (p.recode f).lendSome now count = (p.lendSome now count).recode f := by
  induction count generalizing p with
  | zero => rfl
  | succ count ih =>
      rw [lendSome, lendSome, available_recode]
      cases p.available.shift with
      | none => rfl
      | some next =>
          have hlend := lend_recode (f := f) ({ p with available := next.2 } : Pool ρ) now next.1
          exact (congrArg (·.lendSome now count) hlend).trans (ih _)

theorem dispatch_recode (p : Pool ρ) (now : Instant) :
    (p.recode f).dispatch now = (p.dispatch now).recode f := by
  rw [dispatch, dispatch]
  dsimp only
  by_cases hzero : p.waiting.length = 0
  · rw [if_pos hzero]
    exact if_pos hzero
  · rw [if_neg hzero]
    refine (if_neg hzero).trans ?_
    have horder : (p.recode f).orderCreation
          (min (p.waiting.length - (p.recode f).allocable) (p.recode f).spare) =
        (p.orderCreation (min (p.waiting.length - p.allocable) p.spare)).recode f := rfl
    rw [waiting_recode, horder]
    generalize p.orderCreation (min (p.waiting.length - p.allocable) p.spare) = q
    rw [config_recode]
    cases q.config.testOnBorrow with
    | true => exact orderValidation_recode q _
    | false => exact lendSome_recode q now _

/-! ## What callers do -/

theorem start_recode (p : Pool ρ) : (p.recode f).start = p.start.recode f := by
  rw [start, start, draining_recode, started_recode]
  cases p.draining || p.started with
  | true => rfl
  | false => exact ensureMinimum_recode p.wake

theorem accept_recode (p : Pool ρ) (now : Instant) (call : CallId) (priority : Nat) :
    request.accept now call priority (p.recode f) =
      ((request.accept now call priority p).1,
        (request.accept now call priority p).2.recode f) :=
  congrArg (Prod.mk _) (dispatch_recode (p.join call priority) now)

theorem request_recode (p : Pool ρ) (now : Instant) (call : CallId) (priority : Nat) :
    (p.recode f).request now call priority =
      ((p.request now call priority).1, (p.request now call priority).2.recode f) := by
  have hawake : (if (p.recode f).started then p.recode f else (p.recode f).start) =
      (if p.started then p else p.start).recode f := by
    rw [started_recode]
    cases p.started with
    | true => rfl
    | false => exact start_recode p
  rw [request, request, hawake]
  generalize (if p.started then p else p.start) = q
  by_cases hdraining : q.draining = true
  · rw [if_pos hdraining]
    exact if_pos hdraining
  · rw [if_neg hdraining]
    refine (if_neg hdraining).trans ?_
    rw [config_recode]
    cases q.config.maxWaiting with
    | none => exact accept_recode q now call priority
    | some max =>
        dsimp only
        by_cases hcrowded : q.isCrowded max = true
        · rw [if_pos hcrowded]
          exact if_pos hcrowded
        · rw [if_neg hcrowded]
          exact (if_neg hcrowded).trans (accept_recode q now call priority)

theorem withdraw_recode (p : Pool ρ) (handle : QueueHandle) (timeout : Duration) :
    (p.recode f).withdraw handle timeout = (p.withdraw handle timeout).recode f := by
  rw [withdraw, withdraw, waiting_recode]
  cases p.waiting.remove handle with
  | none => rfl
  | some next =>
      dsimp only [reject, recode]
      cases p.calls.get? next.1 <;> rfl

theorem forget_recode (p : Pool ρ) (handle : QueueHandle) :
    (p.recode f).forget handle = (p.forget handle).recode f := by
  rw [forget, forget, waiting_recode]
  cases p.waiting.remove handle <;> rfl

theorem deliver_recode (p : Pool ρ) (call : CallId) (l : Lease ρ) :
    (p.recode f).deliver call l = ((p.deliver call l).1, (p.deliver call l).2.recode f) := by
  rw [deliver, deliver, calls_recode]
  cases p.calls.get? call <;> rfl

theorem receive_recode (p : Pool ρ) (call : CallId) :
    (p.recode f).receive call = ((p.receive call).1, (p.receive call).2.recode f) := by
  rw [receive, receive, calls_recode]
  cases p.calls.get? call <;> rfl

theorem hangUp_recode (p : Pool ρ) (call : CallId) :
    (p.recode f).hangUp call = ((p.hangUp call).1, (p.hangUp call).2.recode f) := by
  have hreceive : ((p.recode f).receive call).1 = (p.receive call).1 := by
    rw [receive_recode]
  rw [hangUp, hangUp, hreceive]
  rfl

/-- The only place where the age limits of a pool are looked at. -/
theorem giveBack_recode (hf : Immaterial f) (p : Pool ρ) (now : Instant) (sample : Duration)
    (l : Lease ρ) :
    (p.recode f).giveBack now sample l =
      ((p.giveBack now sample l).1, (p.giveBack now sample l).2.recode f) := by
  cases hloan : p.loans.get? l.id with
  | none =>
      have hloan' : (p.recode f).loans.get? l.id = none := hloan
      rw [giveBack_of_none hloan, giveBack_of_none hloan']
  | some loan =>
      have hloan' : (p.recode f).loans.get? l.id = some loan := hloan
      have hrecycles := recycles_recode hf p sample
        (Instant.since now (l.returned loan).createdAt)
      cases hdue : p.recycles sample (Instant.since now (l.returned loan).createdAt) with
      | true =>
          rw [giveBack_recycled hloan hdue, giveBack_recycled hloan' (hrecycles.trans hdue)]
          have hfill := ensureMinimum_recode (f := f) (p.endLoan l.id).writeOff
          exact congrArg (Prod.mk _)
            ((congrArg (·.dispatch now) hfill).trans (dispatch_recode _ now))
      | false =>
          rw [giveBack_kept hloan hdue, giveBack_kept hloan' (hrecycles.trans hdue)]
          exact congrArg (Prod.mk _)
            (dispatch_recode ((p.endLoan l.id).shelve now (l.returned loan)) now)

theorem discard_recode (p : Pool ρ) (l : Lease ρ) :
    (p.recode f).discard l = ((p.discard l).1, (p.discard l).2.recode f) := by
  cases hloan : p.loans.get? l.id with
  | none =>
      have hloan' : (p.recode f).loans.get? l.id = none := hloan
      rw [discard_of_none hloan, discard_of_none hloan']
  | some loan =>
      have hloan' : (p.recode f).loans.get? l.id = some loan := hloan
      rw [discard_eq hloan, discard_eq hloan']
      exact congrArg (Prod.mk _) (ensureMinimum_recode (p.endLoan l.id).writeOff)

theorem reclaim_recode (hf : Immaterial f) (p : Pool ρ) (now : Instant) (sample : Duration)
    (l : Lease ρ) : (p.recode f).reclaim now sample l = (p.reclaim now sample l).recode f := by
  rw [reclaim, reclaim, giveBack_recode hf]
  rcases p.giveBack now sample l with ⟨_ | _ | _, _⟩ <;> rfl

/-! ## What the tasks of a pool do -/

theorem creationEnded_recode (p : Pool ρ) (now : Instant) (made : Option ρ) :
    (p.recode f).creationEnded now made = (p.creationEnded now made).recode f := by
  cases made with
  | none => exact dispatch_recode p.failCreation now
  | some r => exact dispatch_recode (p.endCreation.shelve now (.fresh p.nextResource r now)) now

theorem validationEnded_recode (p : Pool ρ) (now : Instant) (x : Pooled ρ) (valid : Bool) :
    (p.recode f).validationEnded now x valid = (p.validationEnded now x valid).recode f := by
  cases valid with
  | true => exact lend_recode p.endValidation now x
  | false =>
      have hretire := retire_recode (f := f) p.failValidation x
      exact (congrArg (·.dispatch now) hretire).trans (dispatch_recode _ now)

theorem evictVisited_recode (p : Pool ρ) :
    (p.recode f).evictVisited = p.evictVisited.recode f := by
  have hremove : (p.recode f).evictionCursor.remove (p.recode f).available =
    p.evictionCursor.remove p.available := rfl
  rw [evictVisited, evictVisited, hremove]
  rcases p.evictionCursor.remove p.available with ⟨_ | ⟨x, available⟩, cursor⟩
  · rfl
  · exact retire_recode ({ p with
      available
      evictionCursor := cursor
      metrics := { p.metrics with evictions := p.metrics.evictions + 1 } } : Pool ρ) x

theorem evictSome_recode (p : Pool ρ) (now : Instant) (count : Nat) :
    (p.recode f).evictSome now count = (p.evictSome now count).recode f := by
  induction count generalizing p with
  | zero => rfl
  | succ count ih =>
      rw [evictSome, evictSome, nextTested_recode]
      rcases p.nextTested with ⟨_ | handle, cursor⟩
      · rfl
      · have hnote : { p.recode f with evictionCursor := cursor } =
            ({ p with evictionCursor := cursor } : Pool ρ).recode f := rfl
        dsimp only
        rw [hnote]
        generalize ({ p with evictionCursor := cursor } : Pool ρ) = q
        have hevicted : (q.recode f).isEvicted now handle = q.isEvicted now handle := rfl
        rw [hevicted, evictVisited_recode]
        cases q.isEvicted now handle <;> exact ih _

theorem evict_recode (p : Pool ρ) (now : Instant) :
    (p.recode f).evict now = (p.evict now).recode f :=
  evictSome_recode p now _

theorem destructionEnded_recode (p : Pool ρ) (succeeded : Bool) :
    (p.recode f).destructionEnded succeeded = (p.destructionEnded succeeded).recode f := rfl

theorem purge_recode (p : Pool ρ) : (p.recode f).purge = p.purge.recode f := rfl

theorem beginDrain_recode (p : Pool ρ) : (p.recode f).beginDrain = p.beginDrain.recode f := rfl

theorem sweepSome_recode (p : Pool ρ) (fuel : Nat) :
    (p.recode f).sweepSome fuel = (p.sweepSome fuel).recode f := by
  induction fuel generalizing p with
  | zero => rfl
  | succ fuel ih =>
      rw [sweepSome, sweepSome, available_recode]
      cases p.available.shift with
      | none => rfl
      | some next =>
          have hretire :=
            retire_recode (f := f) ({ p with available := next.2 } : Pool ρ) next.1
          exact (congrArg (·.sweepSome fuel) hretire).trans (ih _)

theorem sweep_recode (p : Pool ρ) : (p.recode f).sweep = p.sweep.recode f := sweepSome_recode p _

theorem abandon_recode (p : Pool ρ) (action : Action ρ) :
    (p.recode f).abandon action = (p.abandon action).recode f := by
  cases action <;> rfl

end Pool

end PooledSql
