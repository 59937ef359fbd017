import PooledSql.Proofs.Pool.Serving

/-!
# Requests

What callers do: a request joins the queue or is taken out of it, its answer is looked for or not
awaited any more, and a lease that is owed is delivered. Each section is about the request of one
caller at most and minds those of all others.
-/

namespace PooledSql

variable {ρ : Type}

namespace Pool

variable {p p' : Pool ρ} {now : Instant} {call : CallId} {handle : Option QueueHandle}
variable {k : QueueHandle} {l : Lease ρ}

/-! ## The caller's own sections -/

theorem Attended.minds_join (h : p.Attended) (hcall : call ∉ p.calls.keys)
    (howed : call ∉ p.owed) (priority : Nat) : Minds (some call) p (p.join call priority) := by
  obtain ⟨hwf, l, r, hold, hnew⟩ := h.wf.enqueue call priority
  change (p.join call priority).waiting.toList = l ++ call :: r at hnew
  -- no node is taken out, so the handles of the others go on to mean them
  have hages : p.waiting.Ages (fun _ => False) (p.join call priority).waiting :=
    h.wf.ages_enqueue call priority
  have hmem : ∀ other, other ∈ (p.join call priority).waiting.toList ↔
      other = call ∨ other ∈ p.waiting.toList := by
    intro other
    rw [hold, hnew]
    simp only [List.mem_append, List.mem_cons]
    tauto
  have hget : ∀ other, other ≠ call →
      (p.join call priority).calls.get? other = p.calls.get? other := fun other hne =>
    Registry.get?_insert_of_ne hne
  have hopen : (p.join call priority).calls.get? call = some {} := Registry.get?_insert_self
  have hqueue : call ∉ p.waiting.toList := fun hmem => hcall (h.mem_calls hmem)
  refine ⟨rfl, ⟨hwf, hages.length.trans h.slots, ?_, ?_, ?_, ?_⟩, ?_, ?_, ?_, fun _ => .inl⟩
  · rw [hnew]
    exact List.nodup_middle.2 (List.nodup_cons.2 (hold ▸ ⟨hqueue, h.nodup⟩))
  · intro other hother
    obtain rfl | hne := eq_or_ne other call
    · exact hopen
    · exact (hget other hne).trans (h.pending other (((hmem other).1 hother).resolve_left hne))
  · intro other hother
    obtain rfl | hother := (hmem other).1 hother
    · exact howed
    · exact h.unowed other hother
  · intro other answer hanswer
    obtain rfl | hne := eq_or_ne other call
    · cases hopen.symm.trans hanswer
      exact .inl rfl
    · exact h.plain ((hget other hne).symm.trans hanswer)
  · intro other handle hne hs
    rw [ne_eq, Option.some.injEq] at hne
    exact hs.mono rfl (fun hother => ((hmem other).1 hother).resolve_left hne) hages not_false
      (fun h => h) (hget other hne)
  · intro other lease hne hgiven
    rw [ne_eq, Option.some.injEq] at hne
    exact (hget other hne).trans hgiven
  · intro other hother
    obtain rfl | hother := (hmem other).1 hother
    · exact .inr rfl
    · exact .inl hother

/-- A request leaves the queue. -/
theorem Attended.minds_remove {waiting : PriorityQueue CallId} (h : p.Attended)
    (hremove : p.waiting.remove k = some (call, waiting)) (hwaiting : p'.waiting = waiting)
    (hconfig : p'.config = p.config) (howed : p'.owed = p.owed)
    (hcalls : ∀ other, other ≠ call → p'.calls.get? other = p.calls.get? other)
    (hplain : ∀ answer, p'.calls.get? call = some answer → answer.IsPlain) :
    Minds (some call) p p' := by
  subst hwaiting
  obtain ⟨hwf, l, r, hold, hnew⟩ := h.wf.of_remove hremove
  have hages := PriorityQueue.ages_remove hremove
  have hsub : ∀ other ∈ p'.waiting.toList, other ∈ p.waiting.toList ∧ other ≠ call := by
    have hnodup := h.nodup
    rw [hold, List.nodup_middle, List.nodup_cons] at hnodup
    intro other hother
    rw [hnew] at hother
    refine ⟨?_, fun heq => hnodup.1 (heq ▸ hother)⟩
    rw [hold]
    simp only [List.mem_append, List.mem_cons] at hother ⊢
    tauto
  have hslots : p'.waiting.slots.length = p'.config.priorityRange := by
    rw [hages.length, h.slots, hconfig]
  refine ⟨hconfig, ⟨hwf, hslots, ?_, ?_, ?_, ?_⟩, ?_, ?_,
    fun other hother => .inl (hsub other hother).1, fun other hother => .inl (howed ▸ hother)⟩
  · have hnodup := h.nodup
    rw [hold, List.nodup_middle, List.nodup_cons] at hnodup
    exact hnew ▸ hnodup.2
  · intro other hother
    rw [hcalls other (hsub other hother).2]
    exact h.pending other (hsub other hother).1
  · intro other hother
    rw [howed]
    exact h.unowed other (hsub other hother).1
  · intro other answer hanswer
    by_cases hne : other = call
    · exact hplain answer (hne ▸ hanswer)
    · exact h.plain ((hcalls other hne).symm.trans hanswer)
  · intro other handle hne hs
    rw [ne_eq, Option.some.injEq] at hne
    exact hs.mono hconfig (fun hother => (hsub other hother).1) hages hne (fun h => howed ▸ h)
      (hcalls other hne)
  · intro other lease hne hgiven
    rw [ne_eq, Option.some.injEq] at hne
    exact (hcalls other hne).trans hgiven

/-- The order of the others is the same. -/
theorem Attended.toList_of_remove {waiting : PriorityQueue CallId} (h : p.Attended)
    (hremove : p.waiting.remove k = some (call, waiting)) :
    waiting.toList = p.waiting.toList.erase call := by
  obtain ⟨-, l, r, hold, hnew⟩ := h.wf.of_remove hremove
  have hnodup := h.nodup
  rw [hold, List.nodup_middle, List.nodup_cons, List.mem_append, not_or] at hnodup
  rw [hnew, hold, List.erase_append_right _ hnodup.1.1, List.erase_cons_head]

theorem Attended.notMem_of_remove {waiting : PriorityQueue CallId} (h : p.Attended)
    (hremove : p.waiting.remove k = some (call, waiting)) : call ∉ waiting.toList := by
  rw [h.toList_of_remove hremove]
  exact h.nodup.not_mem_erase

theorem forget_of_none (hk : p.waiting.get? k = none) : p.forget k = p := by
  rw [forget, PriorityQueue.remove_of_none hk]

theorem withdraw_of_none (hk : p.waiting.get? k = none) (timeout : Duration) :
    p.withdraw k timeout = p := by
  rw [withdraw, PriorityQueue.remove_of_none hk]

theorem Attended.forget_eq (h : p.Attended) (hk : p.waiting.get? k = some call) :
    ∃ waiting, p.waiting.remove k = some (call, waiting) ∧ p.forget k = { p with waiting } := by
  obtain ⟨waiting, hremove⟩ := h.wf.remove_of_get? hk
  exact ⟨waiting, hremove, by rw [forget, hremove]⟩

/-- The request that a handle means is refused and leaves the queue. -/
theorem Attended.withdraw_eq (h : p.Attended) (hk : p.waiting.get? k = some call)
    (timeout : Duration) : ∃ waiting, p.waiting.remove k = some (call, waiting) ∧
      p.withdraw k timeout = { p with
        waiting
        metrics := { p.metrics with acquireTimeouts := p.metrics.acquireTimeouts + 1 }
        calls := p.calls.insert call (.refused (.acquireTimeout timeout)) } := by
  obtain ⟨waiting, hremove⟩ := h.wf.remove_of_get? hk
  refine ⟨waiting, hremove, ?_⟩
  rw [withdraw, hremove]
  simp only [reject, h.pending call (h.wf.mem_of_get? hk), Deferred.reject_open]

theorem Attended.minds_forget (h : p.Attended) (k : QueueHandle) :
    Minds (p.waiting.get? k) p (p.forget k) := by
  cases hk : p.waiting.get? k with
  | none =>
      rw [forget_of_none hk]
      exact h.serves_refl.minds h
  | some call =>
      obtain ⟨waiting, hremove, heq⟩ := h.forget_eq hk
      rw [heq]
      exact h.minds_remove hremove rfl rfl rfl (fun _ _ => rfl) fun _ => h.plain

theorem Attended.minds_withdraw (h : p.Attended) (k : QueueHandle) (timeout : Duration) :
    Minds (p.waiting.get? k) p (p.withdraw k timeout) := by
  cases hk : p.waiting.get? k with
  | none =>
      rw [withdraw_of_none hk]
      exact h.serves_refl.minds h
  | some call =>
      obtain ⟨waiting, hremove, heq⟩ := h.withdraw_eq hk timeout
      rw [heq]
      refine h.minds_remove hremove rfl rfl rfl (fun other hne => ?_) fun answer hanswer => ?_
      · exact Registry.get?_insert_of_ne hne
      · rw [Registry.get?_insert_self] at hanswer
        cases hanswer
        exact .inr (.inr ⟨_, rfl⟩)

theorem Left.get? (h : p.Left call (some k)) : p.waiting.get? k = none := (h.spent k rfl).get?

/-- The handle is not needed any more. -/
theorem Left.forgo (h : p.Left call handle) : p.Left call none := ⟨h.queue, nofun⟩

/-- The handle of a request means it or nothing. -/
theorem Standing.get? (h : p.Standing call (some k)) :
    p.waiting.get? k = some call ∨ p.waiting.get? k = none := by
  cases h with
  | queued hhandle hqueue =>
      cases hhandle
      exact .inl hqueue
  | owed hleft | given hleft | refused _ _ hleft => exact .inr hleft.get?

theorem Standing.notMem_of_none (h : p.Standing call (some k)) (hk : p.waiting.get? k = none) :
    call ∉ p.waiting.toList := by
  cases h with
  | queued hhandle hqueue =>
      cases hhandle
      cases hk.symm.trans hqueue
  | owed hleft | given hleft | refused _ _ hleft => exact hleft.queue

theorem Standing.get?_of_mem (h : p.Standing call (some k)) (hmem : call ∈ p.waiting.toList) :
    p.waiting.get? k = some call :=
  h.get?.resolve_right fun hk => h.notMem_of_none hk hmem

/-- A request without a handle has left the queue. -/
theorem Standing.notMem_waiting (h : p.Standing call none) : call ∉ p.waiting.toList := by
  cases h with
  | queued hhandle => cases hhandle
  | owed hleft | given hleft | refused _ _ hleft => exact hleft.queue

/-- At its deadline a request that is queued is refused; any other stands where it did. -/
theorem Attended.standing_withdraw {timeout : Duration} (h : p.Attended)
    (hs : p.Standing call (some k)) (htimeout : p.config.acquireTimeout = some timeout) :
    (p.withdraw k timeout).Standing call none := by
  cases hs with
  | queued hhandle hqueue =>
      cases hhandle
      obtain ⟨waiting, hremove, heq⟩ := h.withdraw_eq hqueue timeout
      rw [heq]
      exact .refused rfl htimeout ⟨h.notMem_of_remove hremove, nofun⟩ Registry.get?_insert_self
  | owed hleft howed hopen =>
      rw [withdraw_of_none hleft.get?]
      exact .owed hleft.forgo howed hopen
  | given hleft hgiven =>
      rw [withdraw_of_none hleft.get?]
      exact .given hleft.forgo hgiven
  | refused hhandle => cases hhandle

/-- The queue forgets a request by its handle. -/
theorem Attended.notMem_forget (h : p.Attended) (hs : p.Standing call (some k)) :
    call ∉ (p.forget k).waiting.toList := by
  cases hs with
  | queued hhandle hqueue =>
      cases hhandle
      obtain ⟨waiting, hremove, heq⟩ := h.forget_eq hqueue
      rw [heq]
      exact h.notMem_of_remove hremove
  | owed hleft | given hleft | refused _ _ hleft =>
      rw [forget_of_none hleft.get?]
      exact hleft.queue

theorem Attended.serves_awake (h : p.Attended) : p.Serves (if p.started then p else p.start) := by
  split
  · exact h.serves_refl
  · exact h.serves_start

/-- A request is refused, or it joins the queue before that is served. -/
theorem Attended.request_cases (h : p.Attended) (hcall : call ∉ p.calls.keys)
    (howed : call ∉ p.owed) (now : Instant) (priority : Nat) :
    ∃ q, p.Serves q ∧ q.owed = p.owed ∧ Minds (some call) q (q.join call priority) ∧
      ((∃ e, p.request now call priority = (.error e, q)) ∨
        p.request now call priority =
          (.ok (q.waiting.enqueue call priority).1, (q.join call priority).dispatch now)) := by
  have hawake := h.serves_awake
  obtain ⟨q, hq, hrequest⟩ := p.request_cases now call priority
  rw [← hq] at hawake
  have howed' : q.owed = p.owed := by
    rw [hq]
    split
    · rfl
    · exact owed_start p
  have hcall' : call ∉ q.calls.keys := hawake.calls ▸ hcall
  have hjoin := (hawake.attended h).minds_join hcall' (howed' ▸ howed) priority
  exact ⟨q, hawake, howed', hjoin, hrequest⟩

theorem Attended.minds_request (h : p.Attended) (hcall : call ∉ p.calls.keys)
    (howed : call ∉ p.owed) (now : Instant) (priority : Nat) :
    Minds (some call) p (p.request now call priority).2 := by
  obtain ⟨q, hawake, -, hjoin, ⟨e, heq⟩ | heq⟩ := h.request_cases hcall howed now priority <;>
    rw [heq]
  · exact (hawake.minds h).mono
  · have hdispatch := hjoin.attended.serves_dispatch now
    exact ((hawake.minds h).mono.trans hjoin).trans (hdispatch.minds hjoin.attended).mono

/-- A request that is accepted has a handle of its own. -/
theorem Attended.standing_request {priority : Nat} (h : p.Attended) (hcall : call ∉ p.calls.keys)
    (howed : call ∉ p.owed) (hrequest : p.request now call priority = (.ok k, p')) :
    p'.Standing call (some k) := by
  obtain ⟨q, hawake, -, hjoin, ⟨e, heq⟩ | heq⟩ := h.request_cases hcall howed now priority <;>
    cases heq.symm.trans hrequest
  have hget := (hawake.attended h).wf.get?_enqueue call priority
  exact (hjoin.attended.serves_dispatch now).standing hjoin.attended (.queued rfl hget)

/-- A caller who is not queued stops awaiting the answer. -/
theorem Attended.minds_hangUp (h : p.Attended) (hcall : call ∉ p.waiting.toList) :
    Minds (some call) p (p.hangUp call).2 := by
  have hget : ∀ other, other ≠ call →
      (p.calls.erase call).get? other = p.calls.get? other := fun other hne =>
    Registry.get?_erase_of_ne hne
  have hattended : (p.hangUp call).2.Attended := by
    refine ⟨h.wf, h.slots, h.nodup, ?_, h.unowed, ?_⟩
    · intro other hother
      exact (hget other fun heq => hcall (heq ▸ hother)).trans (h.pending other hother)
    · intro other answer hanswer
      change (p.calls.erase call).get? other = some answer at hanswer
      exact h.plain (Registry.get?_of_erase hanswer).2
  refine ⟨rfl, hattended, ?_, ?_, fun _ => .inl, fun _ => .inl⟩
  · intro other handle hne hs
    rw [ne_eq, Option.some.injEq] at hne
    exact hs.of_waiting_eq rfl rfl (fun h => h) (hget other hne)
  · intro other lease hne hgiven
    rw [ne_eq, Option.some.injEq] at hne
    exact (hget other hne).trans hgiven

/-! ## Receipts -/

theorem receive_fst {answer : Deferred PoolError (Lease ρ)}
    (h : p.calls.get? call = some answer) : (p.receive call).1 = answer.tryReceive.1 := by
  rw [receive, h]

/-- What a caller learns who looks for the answer to its request. -/
theorem Attended.receipt (h : p.Attended) (hs : p.Standing call handle) :
    (p.receive call).1 = .nothing ∨ call ∉ p.waiting.toList ∧
      ((∃ lease, p.calls.get? call = some (.given lease) ∧
        (p.receive call).1 = .message (.ok lease)) ∨
      ∃ timeout, handle = none ∧ p.config.acquireTimeout = some timeout ∧
        (p.receive call).1 = .message (.error (.acquireTimeout timeout))) := by
  cases hs with
  | queued hhandle hqueue =>
      exact .inl (receive_fst (h.pending call (h.wf.mem_of_get? hqueue)))
  | owed hleft howed hopen => exact .inl (receive_fst hopen)
  | given hleft hgiven => exact .inr ⟨hleft.queue, .inl ⟨_, hgiven, receive_fst hgiven⟩⟩
  | refused hhandle htimeout hleft hrefused =>
      exact .inr ⟨hleft.queue, .inr ⟨_, hhandle, htimeout, receive_fst hrefused⟩⟩

/-! ## Deliveries -/

/-- A lease leaves the outbox, and its caller gets it if the lease was owed. -/
theorem Attended.minds_resolve {before after : List (Action ρ)}
    {calls : Registry (Deferred PoolError (Lease ρ))} (h : p.Attended)
    (houtbox : p.outbox = before ++ .deliver call l :: after)
    (hother : ∀ other, other ≠ call → calls.get? other = p.calls.get? other)
    (hcall : calls.get? call = (p.calls.get? call).map fun d => (d.resolve l).2) :
    Minds none p { p with outbox := before ++ after, calls } := by
  have howed : ∀ other, other ∈ p.owed ↔ other = call ∨
      other ∈ ({ p with outbox := before ++ after, calls } : Pool ρ).owed := by
    intro other
    simp only [owed, houtbox, List.flatMap_append, List.flatMap_cons, Action.calls,
      List.mem_append, List.mem_singleton]
    tauto
  have hqueue : call ∉ p.waiting.toList := fun hmem =>
    h.unowed call hmem ((howed call).2 (.inl rfl))
  have hattended : ({ p with outbox := before ++ after, calls } : Pool ρ).Attended := by
    refine ⟨h.wf, h.slots, h.nodup, ?_, ?_, ?_⟩
    · intro other hmem
      exact (hother other fun heq => hqueue (heq ▸ hmem)).trans (h.pending other hmem)
    · intro other hmem hmem'
      exact h.unowed other hmem ((howed other).2 (.inr hmem'))
    · intro other answer hanswer
      by_cases hne : other = call
      · subst hne
        obtain ⟨former, hformer, rfl⟩ := Option.map_eq_some_iff.1 (hcall.symm.trans hanswer)
        exact (h.plain hformer).resolve l
      · exact h.plain ((hother other hne).symm.trans hanswer)
  refine ⟨rfl, hattended, ?_, ?_, fun _ => .inl,
    fun other hmem => .inl ((howed other).2 (.inr hmem))⟩
  · intro other handle _ hs
    -- the caller was owed the lease, and where its answer was open it is given now
    by_cases hne : other = call
    · subst hne
      cases hs with
      | queued hhandle hget => exact absurd (h.wf.mem_of_get? hget) hqueue
      | owed hleft _ hopen =>
          have hgiven : calls.get? other = some (.given l) := by simp [hcall, hopen]
          exact .given ⟨hleft.1, hleft.2⟩ hgiven
      | @given lease hleft hgiven =>
          have hsame : calls.get? other = some (.given lease) := by simp [hcall, hgiven]
          exact .given ⟨hleft.1, hleft.2⟩ hsame
      | refused hhandle htimeout hleft hrefused =>
          exact .refused hhandle htimeout ⟨hleft.1, hleft.2⟩ (by simp [hcall, hrefused])
    · exact hs.of_waiting_eq rfl rfl (fun hmem => ((howed other).1 hmem).resolve_left hne)
        (hother other hne)
  · intro other lease _ hgiven
    by_cases hne : other = call
    · subst hne
      simp [hcall, hgiven]
    · exact (hother other hne).trans hgiven

theorem Attended.minds_delivery {before after : List (Action ρ)} (h : p.Attended)
    (houtbox : p.outbox = before ++ .deliver call l :: after) (now : Instant)
    (sample : Duration) :
    Minds none p (Section.run p (.deliver now sample before call l after)) := by
  obtain ⟨calls, hother, hcall, hdeliver⟩ :=
    deliver_cases ({ p with outbox := before ++ after } : Pool ρ) call l
  have hresolve := h.minds_resolve houtbox hother hcall
  rw [Section.run]
  obtain heq | heq := hdeliver <;> simp only [heq]
  · exact hresolve
  · have hempty : ({ p with outbox := [], calls } : Pool ρ).Attended :=
      { hresolve.attended with unowed := fun _ _ => List.not_mem_nil }
    exact hresolve.trans (hresolve.attended.minds_requeue (hempty.serves_reclaim now sample l))

end Pool

namespace Section

open Pool

variable {p : Pool ρ} {x : Section ρ}

/-- The call whose request the section is about, if it is about one. -/
def caller (p : Pool ρ) : Section ρ → Option CallId
  | .request _ call _ | .hangUp call => some call
  | .withdraw handle _ | .forget handle => p.waiting.get? handle
  | _ => none

/-- A call is not used again while a lease is on its way to it, and its request has left the queue
before its caller hangs up. -/
def Proper (p : Pool ρ) : Section ρ → Prop
  | .request _ call _ => call ∉ p.owed
  | .hangUp call => call ∉ p.waiting.toList
  | _ => True

/-- The section is about the request of one caller. -/
def isPersonal : Section ρ → Bool
  | .request _ _ _ | .withdraw _ _ | .forget _ | .hangUp _ | .deliver _ _ _ _ _ _ => true
  | _ => false

/-- All that the other sections do to requests is to serve the queue. -/
theorem serves (hsound : p.Sound []) (h : p.Attended) (hx : x.Ready p)
    (hpersonal : x.isPersonal = false) : p.Serves (x.run p) := by
  cases x with
  | start => exact h.serves_start
  | giveBack now sample lease => exact h.serves_giveBack now sample lease
  | discard lease => exact h.serves_discard lease
  | reclaim now sample lease => exact h.serves_reclaim now sample lease
  | creationEnded now made => exact h.serves_creationEnded now made
  | validationEnded now pooled valid => exact h.serves_validationEnded now pooled valid
  | destructionEnded succeeded =>
      refine h.serves_of_eq rfl rfl ?_ rfl rfl
      rw [run, Pool.destructionEnded]
      cases succeeded <;> rfl
  | evict now => exact h.serves_passes (hsound.passes_evictSome now _)
  | purge => exact h.serves_purge
  | beginDrain =>
      have hdrain : p.Serves { p with draining := true } := h.serves_of_eq rfl rfl rfl rfl rfl
      exact hdrain.trans (hdrain.attended h).serves_purge
  | sweep => exact h.serves_passes (hsound.passes_sweepSome 0 _)
  | setRecycling recycling => exact h.serves_of_eq rfl rfl rfl rfl rfl
  | launch before action after => exact h.serves_unpost hx.1 hx.2
  | abandon before action after =>
      have hunpost := h.serves_unpost hx.1 hx.2.1
      exact hunpost.trans ((hunpost.attended h).serves_abandon action)
  | request | withdraw | forget | hangUp | deliver => exact absurd hpersonal Bool.noConfusion

/-- What every section does to the requests of others. -/
theorem minds (hsound : p.Sound []) (h : p.Attended) (hx : x.Ready p) (hproper : x.Proper p) :
    Minds (x.caller p) p (x.run p) := by
  cases x with
  | request now call priority => exact h.minds_request hx hproper now priority
  | withdraw handle timeout => exact h.minds_withdraw handle timeout
  | forget handle => exact h.minds_forget handle
  | hangUp call => exact h.minds_hangUp hproper
  | deliver now sample before call lease after => exact h.minds_delivery hx.1 now sample
  | _ => exact (serves hsound h hx rfl).minds h

end Section

end PooledSql
