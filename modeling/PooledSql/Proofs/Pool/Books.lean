import PooledSql.Pool.Borrowing
import PooledSql.Pool.Upkeep

/-!
# What a section takes note of

A section first takes note of its cause. The pool is started or a request joins the queue; or the
loan of a resource is over, or its creation or validation, and the resource is in hand. Then the
resource goes to the shelf, to a caller or off the books, and callers are served. The pools that
lie between have names here, and the sections are written with them.
-/

namespace PooledSql.Pool

variable {ρ : Type} {p : Pool ρ} {now : Instant} {sample : Duration} {l : Lease ρ} {loan : Loan}

/-- A pool starts, and asks for the task that evicts. -/
def wake (p : Pool ρ) : Pool ρ :=
  { p with started := true }.post (if p.config.evictionInterval = 0 then [] else [.evict])

/-- A request joins the queue. -/
def join (p : Pool ρ) (call : CallId) (priority : Nat) : Pool ρ :=
  { p with
    waiting := (p.waiting.enqueue call priority).2
    calls := p.calls.insert call {} }

/-- A loan is over. -/
def endLoan (p : Pool ρ) (id : Nat) : Pool ρ := { p with loans := p.loans.erase id }

/-- A resource in hand will be destroyed. -/
def writeOff (p : Pool ρ) : Pool ρ :=
  { p with allObjects := p.allObjects - 1, destroying := p.destroying + 1 }

/-- A resource has been made, and gets a number. -/
def endCreation (p : Pool ρ) : Pool ρ :=
  { p with
    creating := p.creating - 1
    nextResource := p.nextResource + 1
    allObjects := p.allObjects + 1
    metrics := { p.metrics with created := p.metrics.created + 1 } }

/-- A resource could not be made. -/
def failCreation (p : Pool ρ) : Pool ρ :=
  { p with
    creating := p.creating - 1
    metrics := { p.metrics with createFailures := p.metrics.createFailures + 1 } }

/-- A validation is over. -/
def endValidation (p : Pool ρ) : Pool ρ := { p with validating := p.validating - 1 }

/-- A validation is over, and the resource is no good. -/
def failValidation (p : Pool ρ) : Pool ρ :=
  { p with
    validating := p.validating - 1
    metrics := { p.metrics with validationFailures := p.metrics.validationFailures + 1 } }

/-! ## Sections -/

theorem start_eq (p : Pool ρ) :
    p.start = p ∨ p.started = false ∧ p.draining = false ∧ p.start = p.wake.ensureMinimum := by
  rw [start]
  split
  · exact .inl rfl
  · rename_i hrests
    rw [Bool.or_eq_true, not_or, Bool.not_eq_true, Bool.not_eq_true] at hrests
    exact .inr ⟨hrests.2, hrests.1, rfl⟩

/-- A request starts the pool. It is refused then, or joins the queue before that is served. -/
theorem request_cases (p : Pool ρ) (now : Instant) (call : CallId) (priority : Nat) :
    ∃ q, q = (if p.started then p else p.start) ∧
      ((∃ e, p.request now call priority = (.error e, q)) ∨
        p.request now call priority =
          (.ok (q.waiting.enqueue call priority).1, (q.join call priority).dispatch now)) := by
  refine ⟨_, rfl, ?_⟩
  rw [request]
  generalize (if p.started then p else p.start) = q
  split
  · exact .inl ⟨_, rfl⟩
  · split
    · split
      · exact .inl ⟨_, rfl⟩
      · exact .inr rfl
    · exact .inr rfl

theorem retire_eq (p : Pool ρ) (x : Pooled ρ) :
    p.retire x = (p.writeOff.post [.destroy x.condemn]).ensureMinimum := rfl

theorem giveBack_of_none (hloan : p.loans.get? l.id = none) (now : Instant) (sample : Duration) :
    p.giveBack now sample l = (.error .notInPool, p) := by
  rw [giveBack, hloan]

theorem giveBack_recycled (hloan : p.loans.get? l.id = some loan)
    (hdue : p.recycles sample (Instant.since now (l.returned loan).createdAt) = true) :
    p.giveBack now sample l = (.ok (some (l.returned loan).condemn),
      (p.endLoan l.id).writeOff.ensureMinimum.dispatch now) := by
  rw [giveBack, hloan]
  exact if_pos hdue

theorem giveBack_kept (hloan : p.loans.get? l.id = some loan)
    (hkeep : p.recycles sample (Instant.since now (l.returned loan).createdAt) = false) :
    p.giveBack now sample l =
      (.ok none, ((p.endLoan l.id).shelve now (l.returned loan)).dispatch now) := by
  rw [giveBack, hloan]
  exact if_neg (Bool.eq_false_iff.1 hkeep)

/-- A lease that comes back is due for recycling or goes back to the shelf. -/
theorem giveBack_eq (hloan : p.loans.get? l.id = some loan) (now : Instant) (sample : Duration) :
    p.giveBack now sample l = (.ok (some (l.returned loan).condemn),
        (p.endLoan l.id).writeOff.ensureMinimum.dispatch now) ∨
      p.giveBack now sample l =
        (.ok none, ((p.endLoan l.id).shelve now (l.returned loan)).dispatch now) := by
  cases hdue : p.recycles sample (Instant.since now (l.returned loan).createdAt) with
  | true => exact .inl (giveBack_recycled hloan hdue)
  | false => exact .inr (giveBack_kept hloan hdue)

theorem discard_of_none (hloan : p.loans.get? l.id = none) :
    p.discard l = (.error .notInPool, p) := by
  rw [discard, hloan]

theorem discard_eq (hloan : p.loans.get? l.id = some loan) :
    p.discard l = (.ok (l.returned loan).condemn, (p.endLoan l.id).writeOff.ensureMinimum) := by
  rw [discard, hloan]
  rfl

/-- Reclaiming is giving back, and what is due for recycling is destroyed by the pool. -/
theorem reclaim_eq (p : Pool ρ) (now : Instant) (sample : Duration) (l : Lease ρ) :
    p.reclaim now sample l = (p.giveBack now sample l).2 ∨
      ∃ x, p.reclaim now sample l = (p.giveBack now sample l).2.post [.destroy x] := by
  rw [reclaim]
  split
  · rename_i x q heq
    exact .inr ⟨x, by rw [heq]⟩
  · rename_i r q hnot heq
    exact .inl (by rw [heq])

theorem creationEnded_none (p : Pool ρ) (now : Instant) :
    p.creationEnded now none = p.failCreation.dispatch now := rfl

theorem creationEnded_some (p : Pool ρ) (now : Instant) (r : ρ) :
    p.creationEnded now (some r) =
      (p.endCreation.shelve now (.fresh p.nextResource r now)).dispatch now := rfl

theorem validationEnded_true (p : Pool ρ) (now : Instant) (x : Pooled ρ) :
    p.validationEnded now x true = p.endValidation.lend now x := rfl

theorem validationEnded_false (p : Pool ρ) (now : Instant) (x : Pooled ρ) :
    p.validationEnded now x false = (p.failValidation.retire x).dispatch now := rfl

end PooledSql.Pool
