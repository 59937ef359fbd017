import PooledSql.Proofs.Pool.Section

/-!
# What sections leave alone

A section changes resources, queue and books. Beside these it changes only whether the pool has
been started or is draining, its age limits, the number of the next resource and the answers that
callers await.
-/

namespace PooledSql

variable {ρ : Type}

namespace Pool

variable {p p' : Pool ρ} {now : Instant}

/-! ## Passes -/

theorem Dispatching.alike (h : Dispatching now p p') : p.Alike p' := by
  cases h with
  | lend shift => exact alike_books.trans (alike_lend _ now _)
  | _ => exact alike_books

theorem Dispatchings.alike (h : Dispatchings now p p') : p.Alike p' := by
  induction h with
  | refl => exact .refl p
  | tail _ hlast ih => exact ih.trans hlast.alike

theorem alike_dispatch (p : Pool ρ) (now : Instant) : p.Alike (p.dispatch now) :=
  (dispatchings_dispatch p now).alike

theorem alike_retire (p : Pool ρ) (x : Pooled ρ) : p.Alike (p.retire x) := by
  rw [retire_eq]
  exact alike_books.trans (alike_ensureMinimum _)

theorem Clearing.alike (h : Clearing p p') : p.Alike p' := by
  cases h with
  | skip evictionCursor => exact alike_books
  | take evictionCursor evictions taken => exact alike_books.trans (alike_retire _ _)

theorem Clearings.alike (h : Clearings p p') : p.Alike p' := by
  induction h with
  | refl => exact .refl p
  | tail _ hlast ih => exact ih.trans hlast.alike

/-! ## Sections -/

theorem alike_start (p : Pool ρ) : Alike { p with started := p.start.started } p.start := by
  obtain heq | ⟨-, -, heq⟩ := p.start_eq <;> rw [heq]
  · exact .refl p
  · have h := alike_ensureMinimum p.wake
    exact ⟨h.1, h.2, h.3, rfl, h.5, h.6, h.7⟩

theorem alike_awake (p : Pool ρ) : Alike { p with
    started := (if p.started then p else p.start).started } (if p.started then p else p.start) := by
  split
  · exact .refl p
  · exact alike_start p

/-- A request is refused or its answer is awaited. -/
theorem alike_request (p : Pool ρ) (now : Instant) (call : CallId) (priority : Nat) :
    ∃ q : Pool ρ, q.Alike (p.request now call priority).2 ∧ q.config = p.config ∧
      q.draining = p.draining ∧ q.nextResource = p.nextResource ∧
      (q.calls = p.calls ∨ q.calls = p.calls.insert call {}) := by
  have hawake := alike_awake p
  obtain ⟨q, hq, ⟨e, h⟩ | h⟩ := request_cases p now call priority <;> rw [h] <;>
    rw [← hq] at hawake
  · exact ⟨_, hawake, rfl, rfl, rfl, .inl rfl⟩
  · refine ⟨_, alike_dispatch (q.join call priority) now, hawake.config, hawake.draining,
      hawake.nextResource, .inr ?_⟩
    exact congrArg (·.insert call {}) hawake.calls

/-- Nobody awaits the answer to a request that is refused. -/
theorem request_error {p p' : Pool ρ} {now : Instant} {call : CallId} {priority : Nat}
    {e : PoolError} (h : p.request now call priority = (.error e, p')) : p'.calls = p.calls := by
  have hawake := alike_awake p
  obtain ⟨q, hq, ⟨e, heq⟩ | heq⟩ := request_cases p now call priority <;> rw [← hq] at hawake <;>
    cases heq.symm.trans h
  exact hawake.calls

theorem alike_forget (p : Pool ρ) (handle : QueueHandle) : p.Alike (p.forget handle) := by
  rw [forget]
  split <;> exact alike_books

/-- An answer is settled; the same callers await theirs. -/
theorem reject_calls (p : Pool ρ) (call : CallId) (error : PoolError) :
    ∃ calls, (∀ other, other ∈ calls.keys ↔ other ∈ p.calls.keys) ∧
      p.reject call error = { p with calls } := by
  rw [reject]
  cases hcall : p.calls.get? call with
  | none => exact ⟨p.calls, fun _ => .rfl, rfl⟩
  | some d =>
      refine ⟨p.calls.insert call (d.reject error).2, fun other => ?_, rfl⟩
      rw [Registry.mem_keys_insert, or_iff_right_of_imp]
      rintro rfl
      exact Registry.mem_keys_of_get? hcall

/-- A withdrawn request leaves the queue, or it was not there any more. -/
theorem withdraw_cases (p : Pool ρ) (handle : QueueHandle) (timeout : Duration) :
    p.withdraw handle timeout = p ∨ ∃ call waiting calls metrics,
      p.waiting.remove handle = some (call, waiting) ∧
      (∀ other, other ∈ calls.keys ↔ other ∈ p.calls.keys) ∧
      p.withdraw handle timeout = { p with waiting, calls, metrics } := by
  rw [withdraw]
  split
  · rename_i call waiting hremove
    obtain ⟨calls, hkeys, heq⟩ := reject_calls ({ p with
      waiting
      metrics := { p.metrics with acquireTimeouts := p.metrics.acquireTimeouts + 1 } } : Pool ρ)
      call (.acquireTimeout timeout)
    exact .inr ⟨call, waiting, calls, _, hremove, hkeys, heq⟩
  · exact .inl rfl

theorem alike_giveBack (p : Pool ρ) (now : Instant) (sample : Duration) (l : Lease ρ) :
    p.Alike (p.giveBack now sample l).2 := by
  cases hloan : p.loans.get? l.id with
  | none =>
      rw [giveBack_of_none hloan]
      exact .refl p
  | some loan =>
      obtain heq | heq := giveBack_eq hloan now sample <;> rw [heq]
      · exact (alike_books.trans (alike_ensureMinimum _)).trans (alike_dispatch _ now)
      · exact alike_books.trans (alike_dispatch _ now)

theorem alike_discard (p : Pool ρ) (l : Lease ρ) : p.Alike (p.discard l).2 := by
  cases hloan : p.loans.get? l.id with
  | none =>
      rw [discard_of_none hloan]
      exact .refl p
  | some loan =>
      rw [discard_eq hloan]
      exact alike_books.trans (alike_ensureMinimum _)

theorem alike_reclaim (p : Pool ρ) (now : Instant) (sample : Duration) (l : Lease ρ) :
    p.Alike (p.reclaim now sample l) := by
  obtain heq | ⟨x, heq⟩ := reclaim_eq p now sample l <;> rw [heq]
  · exact alike_giveBack p now sample l
  · exact (alike_giveBack p now sample l).trans alike_books

theorem alike_validationEnded (p : Pool ρ) (now : Instant) (x : Pooled ρ) (valid : Bool) :
    p.Alike (p.validationEnded now x valid) := by
  cases valid with
  | true =>
      rw [validationEnded_true]
      exact alike_books.trans (alike_lend _ now x)
  | false =>
      rw [validationEnded_false]
      exact (alike_books.trans (alike_retire _ x)).trans (alike_dispatch _ now)

theorem alike_abandon (p : Pool ρ) (action : Action ρ) : p.Alike (p.abandon action) := by
  cases action <;> exact alike_books

/-- A lease is delivered or comes back, and the answer is settled with it if it was not. -/
theorem deliver_cases (p : Pool ρ) (call : CallId) (l : Lease ρ) :
    ∃ calls, (∀ other, other ≠ call → calls.get? other = p.calls.get? other) ∧
      calls.get? call = (p.calls.get? call).map (fun d => (d.resolve l).2) ∧
      (p.deliver call l = (none, { p with calls }) ∨
        p.deliver call l = (some l, { p with calls })) := by
  rw [deliver]
  cases hcall : p.calls.get? call with
  | none => exact ⟨p.calls, fun _ _ => rfl, hcall, .inr rfl⟩
  | some d =>
      refine ⟨p.calls.insert call (d.resolve l).2, fun other hne => ?_, ?_, ?_⟩
      · exact Registry.get?_insert_of_ne hne
      · rw [Registry.get?_insert_self, Option.map_some]
      · simp only [Deferred.resolve]
        split
        · exact .inr rfl
        · split
          · exact .inl rfl
          · exact .inr rfl

/-- Whether a lease comes back does not depend on the actions that wait. -/
theorem deliver_fst (p : Pool ρ) (outbox : List (Action ρ)) (call : CallId) (l : Lease ρ) :
    (({ p with outbox } : Pool ρ).deliver call l).1 = (p.deliver call l).1 := by
  simp only [deliver]
  cases p.calls.get? call <;> rfl

/-- The same callers await their answers. -/
theorem deliver_calls (p : Pool ρ) (call : CallId) (l : Lease ρ) :
    ∃ calls, (∀ other, other ∈ calls.keys ↔ other ∈ p.calls.keys) ∧
      (p.deliver call l = (none, { p with calls }) ∨
        p.deliver call l = (some l, { p with calls })) := by
  obtain ⟨calls, hother, hcall, hdeliver⟩ := p.deliver_cases call l
  refine ⟨calls, fun other => ?_, hdeliver⟩
  rw [← Registry.get?_isSome_iff, ← Registry.get?_isSome_iff]
  by_cases hne : other = call
  · rw [hne, hcall, Option.isSome_map]
  · rw [hother other hne]

end Pool

namespace Section

open Pool

variable {p : Pool ρ}

/-- The section makes the pool drain. -/
def drains : Section ρ → Bool
  | .beginDrain => true
  | _ => false

/-- How many resources the section adds to those that were ever made. -/
def made : Section ρ → Nat
  | .creationEnded _ (some _) => 1
  | _ => 0

/-- The answers that callers await afterwards. -/
def Answers (p : Pool ρ) (calls : Registry (Deferred PoolError (Lease ρ))) : Section ρ → Prop
  | .request _ call _ => calls = p.calls ∨ calls = p.calls.insert call {}
  | .hangUp call => calls = p.calls.erase call
  | .withdraw _ _ | .deliver _ _ _ _ _ _ => ∀ call, call ∈ calls.keys ↔ call ∈ p.calls.keys
  | _ => calls = p.calls

/-- What a section changes of the configuration, the numbers and the answers of a pool. -/
structure Frame (p : Pool ρ) (s : Section ρ) (p' : Pool ρ) : Prop where
  config : p'.config = p.config
  draining : p'.draining = (p.draining || s.drains)
  nextResource : p'.nextResource = p.nextResource + s.made
  calls : s.Answers p p'.calls

theorem frame (p : Pool ρ) (s : Section ρ) : s.Frame p (s.run p) := by
  have hsame : ∀ {p' : Pool ρ}, p.Alike p' → ∀ {s : Section ρ}, s.drains = false →
      s.made = 0 → s.Answers p p.calls → s.Frame p p' := by
    intro p' h s hdrains hmade hcalls
    refine ⟨h.config, ?_, ?_, ?_⟩
    · rw [h.draining, hdrains, Bool.or_false]
    · rw [h.nextResource, hmade, Nat.add_zero]
    · rwa [h.calls]
  cases s with
  | start =>
      have h := alike_start p
      exact ⟨h.config, h.draining.trans (Bool.or_false _).symm, h.nextResource, h.calls⟩
  | request now call priority =>
      obtain ⟨q, h, hconfig, hdraining, hnext, hcalls⟩ := alike_request p now call priority
      refine ⟨h.config.trans hconfig, ?_, h.nextResource.trans hnext, ?_⟩
      · exact (h.draining.trans hdraining).trans (Bool.or_false _).symm
      · exact hcalls.imp h.calls.trans h.calls.trans
  | withdraw handle timeout =>
      rw [run]
      obtain heq | ⟨call, waiting, calls, metrics, -, hkeys, heq⟩ :=
        p.withdraw_cases handle timeout <;> rw [heq]
      · exact ⟨rfl, (Bool.or_false _).symm, rfl, fun _ => .rfl⟩
      · exact ⟨rfl, (Bool.or_false _).symm, rfl, hkeys⟩
  | hangUp call | setRecycling recycling => exact ⟨rfl, (Bool.or_false _).symm, rfl, rfl⟩
  | forget handle => exact hsame (alike_forget p handle) rfl rfl rfl
  | giveBack now sample lease => exact hsame (alike_giveBack p now sample lease) rfl rfl rfl
  | discard lease => exact hsame (alike_discard p lease) rfl rfl rfl
  | reclaim now sample lease => exact hsame (alike_reclaim p now sample lease) rfl rfl rfl
  | creationEnded now resource =>
      cases resource with
      | none =>
          have h : p.Alike (p.failCreation.dispatch now) := alike_books.trans (alike_dispatch _ now)
          exact hsame h rfl rfl rfl
      | some r =>
          have h := alike_dispatch (p.endCreation.shelve now (.fresh p.nextResource r now)) now
          exact ⟨h.config, h.draining.trans (Bool.or_false _).symm, h.nextResource, h.calls⟩
  | validationEnded now x valid => exact hsame (alike_validationEnded p now x valid) rfl rfl rfl
  | destructionEnded succeeded => exact hsame alike_books rfl rfl rfl
  | evict now => exact hsame (clearings_evictSome p now _).alike rfl rfl rfl
  | purge => exact hsame alike_books rfl rfl rfl
  | beginDrain => exact ⟨rfl, (Bool.or_true _).symm, rfl, rfl⟩
  | sweep => exact hsame (clearings_sweepSome p _).alike rfl rfl rfl
  | launch before action after => exact hsame alike_books rfl rfl rfl
  | abandon before action after =>
      exact hsame (alike_books.trans (alike_abandon _ action)) rfl rfl rfl
  | deliver now sample before call lease after =>
      obtain ⟨calls, hkeys, hdeliver⟩ :=
        deliver_calls ({ p with outbox := before ++ after } : Pool ρ) call lease
      rw [run]
      obtain heq | heq := hdeliver <;> simp only [heq]
      · exact ⟨rfl, (Bool.or_false _).symm, rfl, hkeys⟩
      · have h := alike_reclaim ({ p with outbox := [], calls } : Pool ρ) now sample lease
        refine ⟨h.config, h.draining.trans (Bool.or_false _).symm, h.nextResource, ?_⟩
        intro other
        rw [h.calls]
        exact hkeys other

end Section

end PooledSql
