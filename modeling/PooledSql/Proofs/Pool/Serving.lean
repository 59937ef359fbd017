import PooledSql.Proofs.Pool.Standing

/-!
# Serving the queue

Those whose turn it is leave the queue in order, are owed leases and are counted as acquisitions;
the answers are the same. That is all that passes do to requests, and all that most sections do.
-/

namespace PooledSql

variable {ρ : Type}

namespace Pool

variable {p p' p'' : Pool ρ} {now : Instant} {call : CallId} {handle : Option QueueHandle}

/-- Those who are served leave the queue and are owed leases; all others stand where they did. -/
theorem Attended.minds_of_served {served : List CallId} (h : p.Attended)
    (hconfig : p'.config = p.config) (hcalls : p'.calls = p.calls) (hwf : p'.waiting.Wf)
    (hlist : p.waiting.toList = served ++ p'.waiting.toList)
    (hages : p.waiting.Ages (· ∈ served) p'.waiting)
    (howed : ∀ call, call ∈ p'.owed ↔ call ∈ p.owed ∨ call ∈ served) : Minds none p p' := by
  have hnodup := h.nodup
  rw [hlist, List.nodup_append'] at hnodup
  have hmem : ∀ call ∈ p'.waiting.toList, call ∈ p.waiting.toList := fun call hcall =>
    hlist ▸ List.mem_append_right _ hcall
  refine ⟨hconfig, ⟨hwf, ?_, hnodup.2.1, ?_, ?_, fun hget => h.plain (hcalls ▸ hget)⟩, ?_,
    fun _ hgiven => hcalls ▸ hgiven, fun call hcall => .inl (hmem call hcall), ?_⟩
  · rw [hages.length, h.slots, hconfig]
  · intro call hcall
    rw [hcalls]
    exact h.pending call (hmem call hcall)
  · intro call hcall
    rw [howed, not_or]
    exact ⟨h.unowed call (hmem call hcall), fun hserved => hnodup.2.2 hserved hcall⟩
  · intro call handle _ hs
    by_cases hserved : call ∈ served
    · have hqueue : call ∈ p.waiting.toList := hlist ▸ List.mem_append_left _ hserved
      have hspent : ∀ k, handle = some k → p'.waiting.Spent k := by
        rintro k rfl
        cases hs with
        | queued hhandle hget =>
            cases hhandle
            refine ((hages.get? hget).resolve_left fun hget' => ?_).2
            exact hnodup.2.2 hserved (hwf.mem_of_get? hget')
        | owed hleft | given hleft | refused _ _ hleft => exact absurd hqueue hleft.queue
      exact .owed ⟨hnodup.2.2 hserved, hspent⟩ ((howed call).2 (.inr hserved))
        (hcalls ▸ h.pending call hqueue)
    · exact hs.mono hconfig (hmem call) hages hserved (fun hmem => (howed call).2 (.inl hmem))
        (congrArg (·.get? call) hcalls)
  · intro call hcall
    obtain hmem | hserved := (howed call).1 hcall
    · exact .inl hmem
    · exact .inr (.inl (hlist ▸ List.mem_append_left _ hserved))

/-- Some from the front of the queue leave it and are owed leases, and are counted; the answers are
the same. -/
structure Serves (p p' : Pool ρ) : Prop where
  config : p'.config = p.config
  calls : p'.calls = p.calls
  wf : p'.waiting.Wf
  served : ∃ served, p.waiting.toList = served ++ p'.waiting.toList ∧
    p.waiting.Ages (· ∈ served) p'.waiting ∧ p'.owed = p.owed ++ served ∧
    p'.metrics.acquisitions = p.metrics.acquisitions + served.length

/-- The queue, the leases on their way and the answers are the same. -/
theorem Attended.serves_of_eq (h : p.Attended) (hconfig : p'.config = p.config)
    (hcalls : p'.calls = p.calls) (hacquisitions : p'.metrics.acquisitions = p.metrics.acquisitions)
    (hwaiting : p'.waiting = p.waiting) (howed : p'.owed = p.owed) : p.Serves p' where
  config := hconfig
  calls := hcalls
  wf := hwaiting ▸ h.wf
  served := ⟨[], by rw [hwaiting]; rfl, by rw [hwaiting]; exact .refl _, by simp [howed],
    hacquisitions⟩

theorem Attended.serves_refl (h : p.Attended) : p.Serves p := h.serves_of_eq rfl rfl rfl rfl rfl

theorem Attended.serves_post (h : p.Attended) {actions : List (Action ρ)}
    (hactions : actions.flatMap Action.calls = []) : p.Serves (p.post actions) :=
  h.serves_of_eq rfl rfl rfl rfl (by rw [owed_post, hactions, List.append_nil])

theorem Serves.trans (h : p.Serves p') (h' : p'.Serves p'') : p.Serves p'' where
  config := h'.config.trans h.config
  calls := h'.calls.trans h.calls
  wf := h'.wf
  served := by
    obtain ⟨first, hlist, hages, howed, hacquisitions⟩ := h.served
    obtain ⟨second, hlist', hages', howed', hacquisitions'⟩ := h'.served
    refine ⟨first ++ second, ?_, ?_, ?_, ?_⟩
    · rw [hlist, hlist', List.append_assoc]
    · exact (hages.mono fun _ => List.mem_append_left _).trans
        (hages'.mono fun _ => List.mem_append_right _)
    · rw [howed', howed, List.append_assoc]
    · rw [hacquisitions', hacquisitions, List.length_append, Nat.add_assoc]

theorem Serves.minds (h : p.Serves p') (hp : p.Attended) : Minds none p p' := by
  obtain ⟨served, hlist, hages, howed, -⟩ := h.served
  exact hp.minds_of_served h.config h.calls h.wf hlist hages fun call => by
    rw [howed, List.mem_append]

theorem Serves.attended (h : p.Serves p') (hp : p.Attended) : p'.Attended := (h.minds hp).attended

theorem Serves.standing (h : p.Serves p') (hp : p.Attended) (hs : p.Standing call handle) :
    p'.Standing call handle := (h.minds hp).standing nofun hs

/-! ## Passes -/

@[simp] theorem owed_orderCreation (p : Pool ρ) (count : Nat) :
    (p.orderCreation count).owed = p.owed := by
  rw [orderCreation, owed_post, List.flatMap_replicate]
  simp [Action.calls, owed]

@[simp] theorem owed_ensureMinimum (p : Pool ρ) : p.ensureMinimum.owed = p.owed := by
  rw [ensureMinimum]
  split
  · rfl
  · exact owed_orderCreation _ _

theorem Attended.serves_orderCreation (h : p.Attended) (count : Nat) :
    p.Serves (p.orderCreation count) :=
  h.serves_of_eq rfl rfl rfl rfl (owed_orderCreation p count)

theorem Attended.serves_ensureMinimum (h : p.Attended) : p.Serves p.ensureMinimum := by
  rw [ensureMinimum]
  split
  · exact h.serves_refl
  · exact h.serves_orderCreation _

theorem Serves.ensureMinimum (hp : p.Serves p') (h : p.Attended) : p.Serves p'.ensureMinimum :=
  hp.trans (hp.attended h).serves_ensureMinimum

theorem Attended.serves_retire (h : p.Attended) (x : Pooled ρ) : p.Serves (p.retire x) := by
  have hpost : p.Serves (p.writeOff.post [.destroy x.condemn]) :=
    h.serves_of_eq rfl rfl rfl rfl (by rw [owed_post]; exact List.append_nil _)
  exact hpost.ensureMinimum h

theorem Serves.retire (hp : p.Serves p') (h : p.Attended) (x : Pooled ρ) :
    p.Serves (p'.retire x) :=
  hp.trans ((hp.attended h).serves_retire x)

/-- Where all are pending, the first in the queue is taken. -/
theorem takePending_eq {isPending : CallId → Bool} {q : PriorityQueue CallId} (hwf : q.Wf)
    (hpending : ∀ call ∈ q.toList, isPending call = true) :
    takePending isPending q.length q = match q.dequeue with
      | some (call, rest) => (some call, rest)
      | none => (none, q) := by
  cases hdequeue : q.dequeue with
  | none => cases q.length <;> simp [takePending, hdequeue]
  | some item =>
      obtain ⟨call, rest⟩ := item
      obtain ⟨-, hlist⟩ := hwf.of_dequeue hdequeue
      rw [hwf.length_toList, hlist, List.length_cons, takePending, hdequeue]
      exact if_pos (hpending call (by simp [hlist]))

theorem Attended.serves_lend (h : p.Attended) (now : Instant) (x : Pooled ρ) :
    p.Serves (p.lend now x) := by
  rw [lend, takePending_eq h.wf fun _ => h.isPending]
  cases hdequeue : p.waiting.dequeue with
  | none => exact h.serves_of_eq rfl rfl rfl rfl rfl
  | some item =>
      obtain ⟨call, rest⟩ := item
      obtain ⟨hwf, hlist⟩ := h.wf.of_dequeue hdequeue
      refine ⟨rfl, rfl, hwf, [call], hlist, ?_, owed_post _ _, rfl⟩
      exact (PriorityQueue.ages_dequeue hdequeue).mono fun _ => List.mem_singleton.2

theorem Attended.serves_dispatching (h : p.Attended) (hstep : Dispatching now p p') :
    p.Serves p' := by
  cases hstep with
  | order count => exact h.serves_orderCreation count
  | test => exact h.serves_of_eq rfl rfl rfl rfl (by rw [owed_post]; exact List.append_nil _)
  | @lend x rest shift =>
      have htake : p.Serves { p with available := rest } := h.serves_of_eq rfl rfl rfl rfl rfl
      exact htake.trans ((htake.attended h).serves_lend now x)

theorem Attended.serves_dispatchings (h : p.Attended) (hsteps : Dispatchings now p p') :
    p.Serves p' := by
  induction hsteps with
  | refl => exact h.serves_refl
  | tail _ hlast ih => exact ih.trans ((ih.attended h).serves_dispatching hlast)

theorem Attended.serves_dispatch (h : p.Attended) (now : Instant) : p.Serves (p.dispatch now) :=
  h.serves_dispatchings (dispatchings_dispatch p now)

theorem Serves.dispatch (hp : p.Serves p') (h : p.Attended) (now : Instant) :
    p.Serves (p'.dispatch now) :=
  hp.trans ((hp.attended h).serves_dispatch now)

theorem Attended.serves_pass (h : p.Attended) (hpass : Pass now p p') : p.Serves p' := by
  cases hpass with
  | order => exact h.serves_orderCreation 1
  | test shift => exact h.serves_dispatching (.test shift : Dispatching now _ _)
  | lend shift => exact h.serves_dispatching (.lend shift)
  | cull => exact h.serves_of_eq rfl rfl rfl rfl (by rw [owed_post]; exact List.append_nil _)
  | note => exact h.serves_of_eq rfl rfl rfl rfl rfl

theorem Attended.serves_passes (h : p.Attended) (hpasses : Passes now p p') : p.Serves p' := by
  induction hpasses with
  | refl => exact h.serves_refl
  | tail _ hlast ih => exact ih.trans ((ih.attended h).serves_pass hlast)

/-! ## Serving sections -/

/-- Nobody is served because the pool is started. -/
@[simp] theorem owed_start (p : Pool ρ) : p.start.owed = p.owed := by
  rw [start]
  split
  · rfl
  · have hnone : (if p.config.evictionInterval = 0 then [] else [.evict] :
        List (Action ρ)).flatMap Action.calls = [] := by split <;> rfl
    rw [owed_ensureMinimum, owed_post, hnone]
    exact List.append_nil _

theorem Attended.serves_start (h : p.Attended) : p.Serves p.start := by
  obtain heq | ⟨-, -, heq⟩ := p.start_eq <;> rw [heq]
  · exact h.serves_refl
  · have hstart : p.Serves { p with started := true } := h.serves_of_eq rfl rfl rfl rfl rfl
    have hnone : (if p.config.evictionInterval = 0 then [] else [.evict] :
        List (Action ρ)).flatMap Action.calls = [] := by split <;> rfl
    have hwake : p.Serves p.wake := hstart.trans ((hstart.attended h).serves_post hnone)
    exact hwake.ensureMinimum h

theorem Attended.serves_giveBack (h : p.Attended) (now : Instant) (sample : Duration)
    (l : Lease ρ) : p.Serves (p.giveBack now sample l).2 := by
  cases hloan : p.loans.get? l.id with
  | none =>
      rw [giveBack_of_none hloan]
      exact h.serves_refl
  | some loan =>
      obtain heq | heq := giveBack_eq hloan now sample <;> rw [heq]
      · have hgone : p.Serves (p.endLoan l.id).writeOff := h.serves_of_eq rfl rfl rfl rfl rfl
        exact (hgone.ensureMinimum h).dispatch h now
      · have hshelved : p.Serves ((p.endLoan l.id).shelve now (l.returned loan)) :=
          h.serves_of_eq rfl rfl rfl rfl rfl
        exact hshelved.dispatch h now

theorem Attended.serves_discard (h : p.Attended) (l : Lease ρ) : p.Serves (p.discard l).2 := by
  cases hloan : p.loans.get? l.id with
  | none =>
      rw [discard_of_none hloan]
      exact h.serves_refl
  | some loan =>
      rw [discard_eq hloan]
      have hgone : p.Serves (p.endLoan l.id).writeOff := h.serves_of_eq rfl rfl rfl rfl rfl
      exact hgone.ensureMinimum h

theorem Attended.serves_reclaim (h : p.Attended) (now : Instant) (sample : Duration)
    (l : Lease ρ) : p.Serves (p.reclaim now sample l) := by
  have hback := h.serves_giveBack now sample l
  obtain heq | ⟨x, heq⟩ := reclaim_eq p now sample l <;> rw [heq]
  · exact hback
  · exact hback.trans ((hback.attended h).serves_post rfl)

theorem Attended.serves_creationEnded (h : p.Attended) (now : Instant) (made : Option ρ) :
    p.Serves (p.creationEnded now made) := by
  cases made with
  | none =>
      have hfailed : p.Serves p.failCreation := h.serves_of_eq rfl rfl rfl rfl rfl
      exact hfailed.dispatch h now
  | some r =>
      have hshelved : p.Serves (p.endCreation.shelve now (.fresh p.nextResource r now)) :=
        h.serves_of_eq rfl rfl rfl rfl rfl
      exact hshelved.dispatch h now

theorem Attended.serves_validationEnded (h : p.Attended) (now : Instant) (x : Pooled ρ)
    (valid : Bool) : p.Serves (p.validationEnded now x valid) := by
  cases valid with
  | true =>
      have hended : p.Serves p.endValidation := h.serves_of_eq rfl rfl rfl rfl rfl
      exact hended.trans ((hended.attended h).serves_lend now x)
  | false =>
      have hfailed : p.Serves p.failValidation := h.serves_of_eq rfl rfl rfl rfl rfl
      exact (hfailed.retire h x).dispatch h now

/-- Nobody is dropped from a queue that is attended. -/
theorem Attended.serves_purge (h : p.Attended) : p.Serves p.purge := by
  have hlist : (p.waiting.retain p.isPending).toList = p.waiting.toList := by
    rw [h.wf.toList_retain]
    exact List.filter_eq_self.2 fun _ => h.isPending
  refine ⟨rfl, rfl, h.wf.retain _, [], hlist.symm, ?_, (List.append_nil _).symm, rfl⟩
  refine (h.wf.ages_of_mem (PriorityQueue.ages_retain p.isPending p.waiting)).mono ?_
  rintro call ⟨hgone, hmem⟩
  rw [h.isPending hmem] at hgone
  cases hgone

theorem Attended.serves_unpost (h : p.Attended) {before after : List (Action ρ)}
    {action : Action ρ} (houtbox : p.outbox = before ++ action :: after)
    (hleases : action.leases = []) : p.Serves { p with outbox := before ++ after } := by
  refine h.serves_of_eq rfl rfl rfl rfl ?_
  rw [owed, owed, houtbox, List.flatMap_append, List.flatMap_append, List.flatMap_cons,
    Action.calls_of_leases hleases, List.nil_append]

theorem Attended.serves_abandon (h : p.Attended) (action : Action ρ) :
    p.Serves (p.abandon action) := by
  cases action <;> exact h.serves_of_eq rfl rfl rfl rfl rfl

/-- The actions that were waiting wait on behind those of a section. -/
theorem Attended.minds_requeue {q : Pool ρ} (h : p.Attended)
    (hq : Serves { p with outbox := [] } q) :
    Minds none p { q with outbox := q.outbox ++ p.outbox } := by
  obtain ⟨served, hlist, hages, howed, -⟩ := hq.served
  refine h.minds_of_served hq.config hq.calls hq.wf hlist hages fun call => ?_
  change call ∈ (q.outbox ++ p.outbox).flatMap Action.calls ↔ _
  rw [List.flatMap_append, List.mem_append, or_comm]
  exact or_congr_right (by rw [← owed, howed]; rfl)

end Pool

end PooledSql
