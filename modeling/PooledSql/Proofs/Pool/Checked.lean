import PooledSql.Proofs.Pool.Conservation

/-!
# Counting down

The counters of a pool are natural numbers and `0 - 1` is `0`, so a count too many would go
unnoticed. Here every function that counts down is written once more, with a result only if there
was something to count down. `Section.run?_eq` says that every section that is ready has this
result, and that it is the pool that comes of the section.
-/

namespace PooledSql

/-- One less, if there is one. -/
def less? : Nat → Option Nat
  | 0 => none
  | n + 1 => some n

theorem less?_eq {n : Nat} (h : 0 < n) : less? n = some (n - 1) := by
  cases n with
  | zero => cases h
  | succ n => rfl

namespace Pool

variable {ρ : Type}

def retire? (p : Pool ρ) (pooled : Pooled ρ) : Option (Pool ρ) := do
  let allObjects ← less? p.allObjects
  let p := { p with allObjects, destroying := p.destroying + 1 }
  return (p.post [.destroy pooled.condemn]).ensureMinimum

def giveBack? (p : Pool ρ) (now : Instant) (sample : Duration) (lease : Lease ρ) :
    Option (Except PoolError (Option (Pooled ρ)) × Pool ρ) :=
  match p.loans.get? lease.id with
  | none => some (.error .notInPool, p)
  | some loan =>
    let pooled := lease.returned loan
    let p := { p with loans := p.loans.erase lease.id }
    if p.recycles sample (Instant.since now pooled.createdAt) then do
      let allObjects ← less? p.allObjects
      let p := { p with allObjects, destroying := p.destroying + 1 }
      return (.ok (some pooled.condemn), p.ensureMinimum.dispatch now)
    else some (.ok none, (p.shelve now pooled).dispatch now)

def discard? (p : Pool ρ) (lease : Lease ρ) : Option (Except PoolError (Pooled ρ) × Pool ρ) :=
  match p.loans.get? lease.id with
  | none => some (.error .notInPool, p)
  | some loan => do
    let allObjects ← less? p.allObjects
    let p := { p with
      loans := p.loans.erase lease.id
      allObjects
      destroying := p.destroying + 1 }
    return (.ok (lease.returned loan).condemn, p.ensureMinimum)

def reclaim? (p : Pool ρ) (now : Instant) (sample : Duration) (lease : Lease ρ) :
    Option (Pool ρ) := do
  match ← p.giveBack? now sample lease with
  | (.ok (some pooled), p) => return p.post [.destroy pooled]
  | (_, p) => return p

def creationEnded? (p : Pool ρ) (now : Instant) (made : Option ρ) : Option (Pool ρ) := do
  let creating ← less? p.creating
  let p := { p with creating }
  match made with
  | some resource =>
    let p := { p with
      nextResource := p.nextResource + 1
      allObjects := p.allObjects + 1
      metrics := { p.metrics with created := p.metrics.created + 1 } }
    return (p.shelve now (.fresh (p.nextResource - 1) resource now)).dispatch now
  | none =>
    return { p with
      metrics := { p.metrics with createFailures := p.metrics.createFailures + 1 } }.dispatch now

def validationEnded? (p : Pool ρ) (now : Instant) (pooled : Pooled ρ) (valid : Bool) :
    Option (Pool ρ) := do
  let validating ← less? p.validating
  let p := { p with validating }
  if valid then return p.lend now pooled
  else
    let p ← { p with
      metrics := { p.metrics with
        validationFailures := p.metrics.validationFailures + 1 } }.retire? pooled
    return p.dispatch now

def destructionEnded? (p : Pool ρ) (succeeded : Bool) : Option (Pool ρ) := do
  let destroying ← less? p.destroying
  return { p with
    destroying
    metrics :=
      if succeeded then { p.metrics with destroyed := p.metrics.destroyed + 1 }
      else { p.metrics with destroyFailures := p.metrics.destroyFailures + 1 } }

def evictVisited? (p : Pool ρ) : Option (Pool ρ) :=
  match p.evictionCursor.remove p.available with
  | (some (pooled, available), evictionCursor) =>
    { p with
      available, evictionCursor
      metrics := { p.metrics with evictions := p.metrics.evictions + 1 } }.retire? pooled
  | (none, evictionCursor) => some { p with evictionCursor }

def evictSome? (p : Pool ρ) (now : Instant) : Nat → Option (Pool ρ)
  | 0 => some p
  | count + 1 =>
    match p.nextTested with
    | (none, evictionCursor) => some { p with evictionCursor }
    | (some h, evictionCursor) => do
      let p := { p with evictionCursor }
      let p ← if p.isEvicted now h then p.evictVisited? else some p
      p.evictSome? now count

def sweepSome? (p : Pool ρ) : Nat → Option (Pool ρ)
  | 0 => some p
  | fuel + 1 =>
    match p.available.shift with
    | some (pooled, available) => do
      let p ← { p with available }.retire? pooled
      p.sweepSome? fuel
    | none => some p

def abandon? (p : Pool ρ) : Action ρ → Option (Pool ρ)
  | .create => do
    let creating ← less? p.creating
    return { p with creating }
  | .validate _ => do
    let validating ← less? p.validating
    let allObjects ← less? p.allObjects
    return { p with validating, allObjects }
  | .destroy _ => do
    let destroying ← less? p.destroying
    return { p with destroying }
  | .evict | .deliver _ _ => some p

end Pool

/-- A section with every count down checked. -/
def Section.run? {ρ : Type} (p : Pool ρ) : Section ρ → Option (Pool ρ)
  | .giveBack now sample lease => (p.giveBack? now sample lease).map (·.2)
  | .discard lease => (p.discard? lease).map (·.2)
  | .reclaim now sample lease => p.reclaim? now sample lease
  | .creationEnded now made => p.creationEnded? now made
  | .validationEnded now pooled valid => p.validationEnded? now pooled valid
  | .destructionEnded succeeded => p.destructionEnded? succeeded
  | .evict now => p.evictSome? now (min p.config.testsPerEviction p.available.length)
  | .sweep => p.sweepSome? p.available.length
  | .abandon before action after =>
    ({ p with outbox := before ++ after } : Pool ρ).abandon? action
  | .deliver now sample before call lease after =>
    match ({ p with outbox := before ++ after } : Pool ρ).deliver call lease with
    | (none, p) => some p
    | (some lease, p) => do
      let reclaimed ← { p with outbox := [] }.reclaim? now sample lease
      return { reclaimed with outbox := reclaimed.outbox ++ p.outbox }
  | s => some (s.run p)

namespace Pool

variable {ρ : Type} {p : Pool ρ} {x : Pooled ρ} {l : Lease ρ}

theorem Sound.retire?_eq {hand : List Nat} (h : p.Sound (x.id :: hand)) :
    p.retire? x = some (p.retire x) := by
  rw [retire?, less?_eq h.allObjects_pos]
  rfl

theorem Sound.giveBack?_eq (h : p.Sound []) (hl : l.id ∈ p.loans.keys) (now : Instant)
    (sample : Duration) : p.giveBack? now sample l = some (p.giveBack now sample l) := by
  cases hloan : p.loans.get? l.id with
  | none => simp only [giveBack?, giveBack, hloan]
  | some loan =>
      simp only [giveBack?, giveBack, hloan, less?_eq (h.allObjects_pos_of_loan hl)]
      split <;> rfl

theorem Sound.discard?_eq (h : p.Sound []) (hl : l.id ∈ p.loans.keys) :
    p.discard? l = some (p.discard l) := by
  cases hloan : p.loans.get? l.id with
  | none => simp only [discard?, discard, hloan]
  | some loan =>
      simp only [discard?, discard, hloan, less?_eq (h.allObjects_pos_of_loan hl)]
      rfl

theorem Sound.reclaim?_eq (h : p.Sound []) (hl : l.id ∈ p.loans.keys) (now : Instant)
    (sample : Duration) : p.reclaim? now sample l = some (p.reclaim now sample l) := by
  rw [reclaim?, reclaim, h.giveBack?_eq hl now sample]
  rcases p.giveBack now sample l with ⟨r, q⟩
  rcases r with e | _ | x <;> rfl

theorem creationEnded?_eq (hcreating : 0 < p.creating) (now : Instant) (made : Option ρ) :
    p.creationEnded? now made = some (p.creationEnded now made) := by
  rw [creationEnded?, less?_eq hcreating]
  cases made <;> rfl

theorem Sound.validationEnded?_eq (h : p.Sound []) (hvalidating : 0 < p.validating)
    (hdistinct : ∀ n, p.tally [x.id] n ≤ 1) (hnumbered : x.id < p.nextResource) (now : Instant)
    (valid : Bool) : p.validationEnded? now x valid = some (p.validationEnded now x valid) := by
  have hsound := h.failValidation hvalidating hdistinct hnumbered
  rw [validationEnded?, validationEnded, less?_eq hvalidating]
  cases valid with
  | true => rfl
  | false => exact congrArg (·.bind fun p => some (p.dispatch now)) hsound.retire?_eq

theorem Sound.evictVisited?_eq (h : p.Sound []) : p.evictVisited? = some p.evictVisited := by
  simp only [evictVisited?, evictVisited]
  rcases hremove : p.evictionCursor.remove p.available with ⟨_ | ⟨x, rest⟩, cursor⟩
  · rfl
  · obtain ⟨k, -, hk⟩ := Option.bind_eq_some_iff.1 (congrArg Prod.fst hremove)
    obtain ⟨hwf, l, r, hold, hnew⟩ := h.shelf.of_remove hk
    have hsound : ({ p with
      available := rest
      evictionCursor := cursor
      metrics := { p.metrics with evictions := p.metrics.evictions + 1 } } : Pool ρ).Sound [x.id] :=
      { h.take hwf hold hnew with }
    exact hsound.retire?_eq

theorem Sound.evictSome?_eq (h : p.Sound []) (now : Instant) (count : Nat) :
    p.evictSome? now count = some (p.evictSome now count) := by
  induction count generalizing p with
  | zero => rfl
  | succ count ih =>
      simp only [evictSome?, evictSome]
      rcases p.nextTested with ⟨_ | k, cursor⟩
      · rfl
      · have hnoted : ({ p with evictionCursor := cursor } : Pool ρ).Sound [] := { h with }
        dsimp only
        split
        · rw [hnoted.evictVisited?_eq]
          exact ih (hnoted.clearings (.single (clearing_evictVisited _)))
        · exact ih hnoted

theorem Sound.sweepSome?_eq (h : p.Sound []) (fuel : Nat) :
    p.sweepSome? fuel = some (p.sweepSome fuel) := by
  induction fuel generalizing p with
  | zero => rfl
  | succ fuel ih =>
      simp only [sweepSome?, sweepSome]
      rcases hshift : p.available.shift with _ | ⟨x, rest⟩
      · rfl
      · have hsound := h.of_shift hshift
        dsimp only
        rw [hsound.retire?_eq]
        exact ih hsound.deal_retire.sound

theorem Sound.abandon?_eq {action : Action ρ} (h : p.Sound [])
    (hcreating : action.tokens.countP Account.creations.covers ≤ p.creating)
    (hvalidating : action.tokens.countP Account.validations.covers ≤ p.validating)
    (hdestroying : action.tokens.countP Account.destructions.covers ≤ p.destroying) :
    p.abandon? action = some (p.abandon action) := by
  cases action with
  | create =>
      rw [abandon?, less?_eq hcreating]
      rfl
  | validate x =>
      have hpos : 0 < p.validating := hvalidating
      have := h.books
      rw [abandon?, less?_eq hpos, less?_eq (by omega)]
      rfl
  | destroy x =>
      rw [abandon?, less?_eq hdestroying]
      rfl
  | _ => rfl

end Pool

/-- In a section that is ready nothing is counted down below zero. -/
theorem Section.run?_eq {ρ : Type} {p : Pool ρ} {s : Section ρ} (h : p.Sound [])
    (hs : s.Ready p) : s.run? p = some (s.run p) := by
  cases s with
  | giveBack now sample lease =>
      rw [run?, h.giveBack?_eq hs now sample]
      rfl
  | discard lease =>
      rw [run?, h.discard?_eq hs]
      rfl
  | reclaim now sample lease => exact h.reclaim?_eq hs now sample
  | creationEnded now made => exact Pool.creationEnded?_eq hs now made
  | validationEnded now x valid => exact h.validationEnded?_eq hs.1 hs.2.1 hs.2.2 now valid
  | destructionEnded succeeded =>
      rw [run?, Pool.destructionEnded?, less?_eq hs]
      rfl
  | evict now => exact h.evictSome?_eq now _
  | sweep => exact h.sweepSome?_eq _
  | abandon before action after =>
      obtain ⟨-, -, hcreating, hvalidating, hdestroying⟩ := hs
      exact Pool.Sound.abandon?_eq (p := { p with outbox := before ++ after }) { h with }
        hcreating hvalidating hdestroying
  | deliver now sample before call lease after =>
      obtain ⟨houtbox, hloan, hpool⟩ := hs
      have hunpost : ({ p with outbox := before ++ after } : Pool ρ).Sound [] := { h with }
      rw [run?, run]
      obtain ⟨calls, heq, -⟩ | ⟨calls, heq, hdeal⟩ := hunpost.deal_deliver call hpool <;>
        simp only [heq]
      have hempty : ({ p with outbox := [], calls } : Pool ρ).Sound [] := { hdeal.sound with }
      rw [hempty.reclaim?_eq hloan now sample]
      rfl
  | _ => rfl

end PooledSql
