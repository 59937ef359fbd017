import PooledSql.Proofs.Pool.Frame

/-!
# Conservation

Every critical section that is ready leaves the pool sound and exchanges exactly the tokens that
it takes and gives. Each section is followed to the point where only passes are left; these keep
both.
-/

namespace PooledSql

namespace Pool

variable {ρ : Type} {p p' p'' : Pool ρ} {now : Instant} {x : Pooled ρ} {rest : Deque (Pooled ρ)}
variable {hand hand' : List (Token ρ)} {l : Lease ρ} {call : CallId}

/-- A sound pool comes of an exchange. -/
structure Deal (hand : List (Token ρ)) (p : Pool ρ) (hand' : List (Token ρ)) (p' : Pool ρ) :
    Prop where
  sound : p'.Sound []
  exchange : Exchange hand p hand' p'

theorem Deal.refl (h : p.Sound []) (hand : List (Token ρ)) : Deal hand p hand p := ⟨h, .refl hand p⟩

/-- An exchange goes on with a deal. -/
theorem Exchange.deal {hand'' : List (Token ρ)} (h : Exchange hand p hand' p')
    (h' : Deal hand' p' hand'' p'') : Deal hand p hand'' p'' :=
  ⟨h'.sound, h.trans h'.exchange⟩

theorem Deal.trans {hand'' : List (Token ρ)} (h : Deal hand p hand' p')
    (h' : Deal hand' p' hand'' p'') : Deal hand p hand'' p'' :=
  h.exchange.deal h'

theorem Deal.passes (h : Deal hand p hand' p') (hpasses : Passes now p' p'') :
    Deal hand p hand' p'' := by
  refine ⟨h.sound.passes hpasses, h.exchange.trans ?_⟩
  have := (h.sound.exchange_passes hpasses).frame hand'
  rwa [List.append_nil] at this

/-- The pool is filled up and callers are served. -/
theorem Sound.passes_ensureMinimum {hand : List Nat} (h : p.Sound hand) (now : Instant) :
    Passes now p p.ensureMinimum :=
  Pool.passes_ensureMinimum h.normal h.room

@[inherit_doc Sound.passes_ensureMinimum]
theorem Sound.passes_dispatch {hand : List Nat} (h : p.Sound hand) (now : Instant) :
    Passes now p (p.dispatch now) :=
  Pool.passes_dispatch h.room

theorem Sound.passes_refill {hand : List Nat} (h : p.Sound hand) (now : Instant) :
    Passes now p (p.ensureMinimum.dispatch now) := by
  have hfill := h.passes_ensureMinimum now
  exact hfill.trans ((h.passes hfill).passes_dispatch now)

/-! ## Starting -/

theorem Sound.wake (h : p.Sound []) : p.wake.Sound [] := { h with }

theorem Sound.deal_wake (h : p.Sound []) : Deal [] p [] p.wake := by
  refine ⟨h.wake, ?_⟩
  have hstart : Exchange [] p [] { p with started := true } :=
    exchange_books rfl rfl rfl rfl fun _ => rfl
  rw [Pool.wake]
  split
  · rw [post, List.append_nil]
    exact hstart
  · exact hstart.trans (exchange_post _ .evict (by simp [Action.leases]))

theorem Sound.deal_start (h : p.Sound []) : Deal [] p [] p.start := by
  obtain heq | ⟨-, -, heq⟩ := p.start_eq <;> rw [heq]
  · exact .refl h []
  · exact h.deal_wake.passes (h.wake.passes_ensureMinimum 0)

theorem Sound.awake (h : p.Sound []) : (if p.started then p else p.start).Sound [] := by
  split
  · exact h
  · exact h.deal_start.sound

/-! ## Requests -/

/-- The books and what is in hand have not changed, but leases have come to callers and gone. -/
theorem exchange_calls (come gone : List (Lease ρ)) (havailable : p'.available = p.available)
    (houtbox : p'.outbox = p.outbox) (hid : p'.id = p.id) (hbook : ∀ a, p'.book a = p.book a)
    (hcalls : ∀ q, p'.unreceived.countP q + gone.countP q =
      p.unreceived.countP q + come.countP q)
    (hlender : ∀ l ∈ come, l.pool = p.id) :
    Exchange (come.map fun l => .lease l.item) p (gone.map fun l => .lease l.item) p' where
  balance a := by
    have := hcalls (a.covers ∘ fun l => .lease l.item)
    rw [hbook]
    simp only [tokens, Pool.shelf, havailable, houtbox, List.countP_append, List.countP_map]
    omega
  lender l hl := by
    classical
    rcases hl with hl | hl
    · exact .inl (by rwa [delivering, houtbox] at hl)
    · have := hcalls (decide <| · = l)
      have hpos : 0 < p'.unreceived.countP (decide <| · = l) :=
        List.countP_pos_iff.2 ⟨l, hl, by simp⟩
      by_cases hold : 0 < p.unreceived.countP (decide <| · = l)
      · obtain ⟨l', hmem, heq⟩ := List.countP_pos_iff.1 hold
        rw [decide_eq_true_eq] at heq
        exact .inr (.inl (heq ▸ hmem))
      · have hcome : 0 < come.countP (decide <| · = l) := by omega
        obtain ⟨l', hmem, heq⟩ := List.countP_pos_iff.1 hcome
        rw [decide_eq_true_eq] at heq
        exact .inr (.inr (heq ▸ hlender l' hmem))
  id := hid

theorem Sound.deal_join (h : p.Sound []) (hcall : call ∉ p.calls.keys) (priority : Nat) :
    Deal [] p [] (p.join call priority) where
  sound := { h with
    queue := (h.queue.enqueue call priority).1
    calls := Registry.nodup_keys_insert h.calls
    unsent := by
      intro other d hd hready
      obtain ⟨-, rfl⟩ | ⟨-, hthere⟩ := Registry.get?_insert_cases hd
      · rfl
      · exact h.unsent hthere hready }
  exchange := by
    refine exchange_calls [] [] rfl rfl rfl (fun _ => rfl) (fun q => ?_) (by simp)
    exact Registry.countP_gather_add _ _ _ hcall

theorem Sound.join (h : p.Sound []) (hcall : call ∉ p.calls.keys) (priority : Nat) :
    (p.join call priority).Sound [] :=
  (h.deal_join hcall priority).sound

theorem Sound.deal_request (h : p.Sound []) (hcall : call ∉ p.calls.keys) (priority : Nat) :
    Deal [] p [] (p.request now call priority).2 := by
  have hstarted : Deal [] p [] (if p.started then p else p.start) := by
    split
    · exact .refl h []
    · exact h.deal_start
  have hcalls : (if p.started then p else p.start).calls = p.calls := (alike_awake p).calls
  obtain ⟨q, hq, ⟨e, heq⟩ | heq⟩ := request_cases p now call priority <;> rw [heq] <;>
    rw [← hq] at hstarted hcalls
  · exact hstarted
  · have hjoined := hstarted.trans (hstarted.sound.deal_join (hcalls ▸ hcall) priority)
    exact hjoined.passes (hjoined.sound.passes_dispatch now)

/-- A request leaves the queue. -/
theorem Sound.deal_forget (h : p.Sound []) (handle : QueueHandle) :
    Deal [] p [] (p.forget handle) := by
  rw [forget]
  split
  · rename_i item waiting hremove
    exact ⟨{ h with queue := (h.queue.of_remove hremove).1 },
      exchange_books rfl rfl rfl rfl fun _ => rfl⟩
  · exact .refl h []

/-- The answer to a request changes, and a lease may come with it. -/
theorem Sound.deal_answer {d d' : Deferred PoolError (Lease ρ)} (h : p.Sound [])
    (hcall : p.calls.get? call = some d) (hunsent : d'.settling = .ready → d'.message = none)
    (come : List (Lease ρ))
    (hcome : ∀ q, d'.unread.countP q = d.unread.countP q + come.countP q)
    (hlender : ∀ l ∈ come, l.pool = p.id) :
    Deal (come.map fun l => .lease l.item) p [] { p with calls := p.calls.insert call d' } where
  sound := { h with
    calls := Registry.nodup_keys_insert h.calls
    unsent := by
      intro other e he hready
      obtain ⟨-, rfl⟩ | ⟨-, hthere⟩ := Registry.get?_insert_cases he
      · exact hunsent hready
      · exact h.unsent hthere hready }
  exchange := by
    refine exchange_calls come [] rfl rfl rfl (fun _ => rfl) (fun q => ?_) hlender
    change ((p.calls.insert call d').gather _).countP q + 0 =
      (p.calls.gather _).countP q + come.countP q
    have := Registry.countP_gather_insert p.calls call d' Deferred.unread q
    have := Registry.countP_gather_erase Deferred.unread q h.calls hcall
    have := hcome q
    omega

/-- A rejected answer has no lease in it. -/
theorem Sound.deal_reject (h : p.Sound []) (call : CallId) (error : PoolError) :
    Deal [] p [] (p.reject call error) := by
  rw [reject]
  cases hcall : p.calls.get? call with
  | none => exact .refl h []
  | some d =>
      have hunsent := h.unsent hcall
      refine h.deal_answer hcall ?_ [] (fun q => ?_) (by simp) <;> rw [Deferred.reject]
      · split
        · exact hunsent
        · split <;> exact fun hready => by cases hready
      · split
        · rfl
        · rename_i hready
          rw [ne_eq, not_not] at hready
          have hnone : d.unread = [] := by rw [Deferred.unread, hunsent hready]
          rw [hnone]
          split
          · rfl
          · simp only [Deferred.unread, hunsent hready, List.countP_nil]

theorem Sound.deal_withdraw (h : p.Sound []) (handle : QueueHandle) (timeout : Duration) :
    Deal [] p [] (p.withdraw handle timeout) := by
  rw [withdraw]
  split
  · rename_i call waiting hremove
    have hgone : Deal [] p [] { p with
        waiting
        metrics := { p.metrics with acquireTimeouts := p.metrics.acquireTimeouts + 1 } } :=
      ⟨{ h with queue := (h.queue.of_remove hremove).1 },
        exchange_books rfl rfl rfl rfl fun _ => rfl⟩
    exact hgone.trans (hgone.sound.deal_reject call _)
  · exact .refl h []

/-- Hanging up yields the lease that had come. -/
theorem hangUp_fst (p : Pool ρ) (call : CallId) :
    (p.hangUp call).1.toList = ((p.calls.get? call).map Deferred.unread).getD [] := by
  simp only [hangUp, receive]
  cases p.calls.get? call with
  | none => rfl
  | some d =>
      obtain ⟨status, settling, awaiting, message⟩ := d
      cases message with
      | none =>
          by_cases hopen : settling = .ready ∧ awaiting = .open <;>
            simp [Deferred.tryReceive, Deferred.unread, hopen]
      | some m => cases m <;> rfl

theorem Sound.deal_hangUp (h : p.Sound []) (call : CallId) :
    Deal [] p ((p.hangUp call).1.toList.map fun l => .lease l.item) (p.hangUp call).2 where
  sound := { h with
    calls := Registry.nodup_keys_erase h.calls
    unsent := by
      intro other d hd
      change (p.calls.erase call).get? other = some d at hd
      exact h.unsent (Registry.get?_of_erase hd).2 }
  exchange := by
    refine exchange_calls [] _ rfl rfl rfl (fun _ => rfl) (fun q => ?_) (by simp)
    rw [hangUp_fst]
    change ((p.calls.erase call).gather _).countP q + _ = (p.calls.gather _).countP q + 0
    cases hcall : p.calls.get? call with
    | none =>
        rw [Registry.erase_of_notMem (Registry.get?_eq_none_iff.1 hcall)]
        rfl
    | some d => exact (Registry.countP_gather_erase _ _ h.calls hcall).symm

/-! ## Returns -/

/-- The loan ends and the resource is in hand. -/
theorem Sound.of_loan (h : p.Sound []) (hl : l.id ∈ p.loans.keys) :
    (p.endLoan l.id).Sound [l.id] ∧
      Exchange [.lease l.item] p [.resource l.item] (p.endLoan l.id) := by
  have hperm := Registry.perm_keys_erase h.loans hl
  have hcount : ∀ n, p.loans.keys.countP (· == n) =
      [l.id].countP (· == n) + (p.loans.erase l.id).keys.countP (· == n) := by
    intro n
    rw [hperm.countP_eq, countP_cons_eq_add]
  have htally : ∀ n, (p.endLoan l.id).tally [l.id] n = p.tally [] n := by
    intro n
    have := hcount n
    change _ + p.shelf.countP _ + (p.loans.erase l.id).keys.countP _ = _
    simp only [tally, List.countP_nil]
    omega
  refine ⟨{ h with distinct := ?_, numbered := ?_, books := ?_ }, ?_⟩
  · exact fun n => htally n ▸ h.distinct n
  · exact fun n hn => h.numbered n (htally n ▸ hn)
  · have := h.books
    have := Registry.size_erase h.loans hl
    change p.allObjects = 1 + p.available.length + (p.loans.erase l.id).size + p.validating
    simp only [List.length_nil] at *
    omega
  · refine exchange_books rfl rfl rfl rfl fun a => ?_
    cases a with
    | leases n =>
        have := hcount n
        change (p.loans.erase l.id).keys.countP _ + [l.id].countP (· == n) =
          p.loans.keys.countP _ + 0
        omega
    | _ => rfl

/-- A loan that ends is counted among all resources. -/
theorem Sound.allObjects_pos_of_loan (h : p.Sound []) (hl : l.id ∈ p.loans.keys) :
    0 < p.allObjects :=
  (h.of_loan hl).1.allObjects_pos

/-- A resource in hand is to be destroyed by the one who has it. -/
theorem Sound.deal_writeOff (h : p.Sound [x.id]) :
    Deal [.resource x.item] p [.resource x.item, .destruction] p.writeOff :=
  ⟨h.writeOff, exchange_books rfl rfl rfl rfl fun a => by cases a <;> rfl⟩

theorem Sound.deal_shelve (h : p.Sound [x.id]) (now : Instant) :
    Deal [.resource x.item] p [] (p.shelve now x) :=
  ⟨h.shelve, exchange_shelve h.shelf⟩

theorem Sound.deal_lend (h : p.Sound [x.id]) (now : Instant) :
    Deal [.resource x.item] p [] (p.lend now x) :=
  ⟨h.lend, h.exchange_lend⟩

theorem Sound.condemn (h : p.Sound [x.id]) : (p.writeOff.post [.destroy x.condemn]).Sound [] :=
  { h.writeOff with }

/-- A resource in hand is to be destroyed by a task of the pool. -/
theorem Sound.deal_retire (h : p.Sound [x.id]) : Deal [.resource x.item] p [] (p.retire x) := by
  have hpost : Deal [.resource x.item] p [] (p.writeOff.post [.destroy x.condemn]) :=
    ⟨h.condemn, h.deal_writeOff.exchange.trans
      (exchange_post _ (.destroy x.condemn) (by simp [Action.leases]))⟩
  exact hpost.passes (hpost.sound.passes_ensureMinimum 0)

/-- What a returned lease is exchanged for. -/
theorem Sound.deal_giveBack (h : p.Sound []) (hl : l.id ∈ p.loans.keys) (now : Instant)
    (sample : Duration) : Deal [.lease l.item] p (Section.gives p (.giveBack now sample l))
      (p.giveBack now sample l).2 := by
  obtain ⟨loan, hloan⟩ := Option.isSome_iff_exists.1 (Registry.get?_isSome_iff.2 hl)
  obtain ⟨hsound, hexchange⟩ := h.of_loan hl
  obtain heq | heq := giveBack_eq hloan now sample <;> rw [Section.gives, heq]
  · have hdeal := Sound.deal_writeOff (x := l.returned loan) hsound
    exact hexchange.deal (hdeal.passes (hdeal.sound.passes_refill now))
  · have hdeal := Sound.deal_shelve (x := l.returned loan) hsound now
    exact hexchange.deal (hdeal.passes (hdeal.sound.passes_dispatch now))

theorem Sound.deal_discard (h : p.Sound []) (hl : l.id ∈ p.loans.keys) :
    Deal [.lease l.item] p (Section.gives p (.discard l)) (p.discard l).2 := by
  obtain ⟨loan, hloan⟩ := Option.isSome_iff_exists.1 (Registry.get?_isSome_iff.2 hl)
  obtain ⟨hsound, hexchange⟩ := h.of_loan hl
  rw [Section.gives, discard_eq hloan]
  have hdeal := Sound.deal_writeOff (x := l.returned loan) hsound
  exact hexchange.deal (hdeal.passes (hdeal.sound.passes_ensureMinimum 0))

theorem Sound.deal_reclaim (h : p.Sound []) (hl : l.id ∈ p.loans.keys) (now : Instant)
    (sample : Duration) : Deal [.lease l.item] p [] (p.reclaim now sample l) := by
  have hdeal := h.deal_giveBack hl now sample
  rw [Section.gives] at hdeal
  rw [reclaim]
  split
  · rename_i x q heq
    simp only [heq] at hdeal
    exact ⟨{ hdeal.sound with }, hdeal.exchange.trans
      (exchange_post _ (.destroy x) (by simp [Action.leases]))⟩
  · rename_i r q hnot heq
    rw [heq] at hdeal
    split at hdeal
    · rename_i x hr
      exact (hnot x hr).elim
    · exact hdeal

/-! ## Upkeep -/

/-- A resource that has just been made is in hand. -/
theorem Sound.endCreation (h : p.Sound []) (hcreating : 0 < p.creating) :
    p.endCreation.Sound [p.nextResource] := by
  have htally : ∀ n, p.endCreation.tally [p.nextResource] n =
      [p.nextResource].countP (· == n) + p.tally [] n := by
    intro n
    change _ + p.shelf.countP _ + p.loans.keys.countP _ = _
    simp only [tally, List.countP_nil]
    omega
  have hnew : ∀ n, 0 < [p.nextResource].countP (· == n) ↔ n = p.nextResource := by
    intro n
    rw [countP_eq_pos_iff, List.mem_singleton]
  refine { h with distinct := fun n => ?_, numbered := fun n hn => ?_, books := ?_, room := ?_ }
  · rw [htally]
    have := h.numbered n
    have := h.distinct n
    have := hnew n
    have : [p.nextResource].countP (· == n) ≤ 1 := List.countP_le_length
    by_cases hn : n = p.nextResource <;> omega
  · change n < p.nextResource + 1
    rw [htally] at hn
    have := h.numbered n
    have := hnew n
    omega
  · have := h.books
    change p.allObjects + 1 = 1 + p.available.length + p.loans.size + p.validating
    simp only [List.length_nil] at this
    omega
  · have := h.room
    simp only [size, Pool.endCreation] at *
    omega

/-- The room for a resource that is not made is free again. -/
theorem Sound.of_failure (h : p.Sound []) (metrics : PoolMetrics) :
    ({ p with creating := p.creating - 1, metrics } : Pool ρ).Sound [] := by
  refine { h with room := ?_ }
  have := h.room
  simp only [size] at *
  omega

theorem Sound.failCreation (h : p.Sound []) : p.failCreation.Sound [] := h.of_failure _

/-- A resource that was made is shelved with its number. -/
theorem Sound.deal_endCreation (h : p.Sound []) (hcreating : 0 < p.creating) (now : Instant)
    (r : ρ) :
    Deal [.creation, .resource (p.nextResource, r)] p []
      (p.endCreation.shelve now (.fresh p.nextResource r now)) := by
  have hended : Exchange [.creation, .resource (p.nextResource, r)] p
      [.resource (p.nextResource, r)] p.endCreation := by
    refine exchange_books rfl rfl rfl rfl fun a => ?_
    cases a with
    | creations => exact Nat.sub_add_cancel hcreating
    | _ => rfl
  exact hended.deal
    (Sound.deal_shelve (x := .fresh p.nextResource r now) (h.endCreation hcreating) now)

theorem Sound.deal_creationEnded (h : p.Sound []) (hcreating : 0 < p.creating) (now : Instant)
    (made : Option ρ) : Deal (Section.takes p (.creationEnded now made)) p []
      (p.creationEnded now made) := by
  cases made with
  | none =>
      have hend : Deal [.creation] p [] p.failCreation := by
        refine ⟨h.failCreation, exchange_books rfl rfl rfl rfl fun a => ?_⟩
        cases a with
        | creations => exact Nat.sub_add_cancel hcreating
        | _ => rfl
      exact hend.passes (hend.sound.passes_dispatch now)
  | some r =>
      have hmade := h.deal_endCreation hcreating now r
      exact hmade.passes (hmade.sound.passes_dispatch now)

/-- A resource that has been validated is in hand. -/
theorem Sound.of_validation (h : p.Sound []) (hvalidating : 0 < p.validating)
    (hdistinct : ∀ n, p.tally [x.id] n ≤ 1) (hnumbered : x.id < p.nextResource)
    (metrics : PoolMetrics) :
    ({ p with validating := p.validating - 1, metrics } : Pool ρ).Sound [x.id] := by
  refine { h with distinct := hdistinct, numbered := fun n hn => ?_, books := ?_ }
  · have := h.numbered n
    have : 0 < [x.id].countP (· == n) ↔ n = x.id := by
      rw [countP_eq_pos_iff, List.mem_singleton]
    change 0 < [x.id].countP _ + p.shelf.countP _ + p.loans.keys.countP _ at hn
    simp only [tally, List.countP_nil] at *
    by_cases hx : n = x.id
    · exact hx ▸ hnumbered
    · omega
  · have := h.books
    change p.allObjects = 1 + p.available.length + p.loans.size + (p.validating - 1)
    simp only [List.length_nil] at this
    omega

theorem Sound.endValidation (h : p.Sound []) (hvalidating : 0 < p.validating)
    (hdistinct : ∀ n, p.tally [x.id] n ≤ 1) (hnumbered : x.id < p.nextResource) :
    p.endValidation.Sound [x.id] :=
  h.of_validation hvalidating hdistinct hnumbered _

theorem Sound.failValidation (h : p.Sound []) (hvalidating : 0 < p.validating)
    (hdistinct : ∀ n, p.tally [x.id] n ≤ 1) (hnumbered : x.id < p.nextResource) :
    p.failValidation.Sound [x.id] :=
  h.of_validation hvalidating hdistinct hnumbered _

theorem exchange_validation (hvalidating : 0 < p.validating) (metrics : PoolMetrics) :
    Exchange [.resource x.item, .validation] p [.resource x.item]
      { p with validating := p.validating - 1, metrics } := by
  refine exchange_books rfl rfl rfl rfl fun a => ?_
  cases a with
  | validations => exact Nat.sub_add_cancel hvalidating
  | _ => rfl

theorem Sound.deal_validationEnded (h : p.Sound []) (hvalidating : 0 < p.validating)
    (hdistinct : ∀ n, p.tally [x.id] n ≤ 1) (hnumbered : x.id < p.nextResource) (now : Instant)
    (valid : Bool) : Deal [.resource x.item, .validation] p [] (p.validationEnded now x valid) := by
  have hend := exchange_validation (x := x) hvalidating
  cases valid with
  | true =>
      have hsound := h.endValidation hvalidating hdistinct hnumbered
      exact (hend p.metrics).deal (hsound.deal_lend now)
  | false =>
      have hretire := (h.failValidation hvalidating hdistinct hnumbered).deal_retire
      exact (hend _).deal (hretire.passes (hretire.sound.passes_dispatch now))

theorem Sound.deal_destructionEnded (h : p.Sound []) (hdestroying : 0 < p.destroying)
    (succeeded : Bool) : Deal [.destruction] p [] (p.destructionEnded succeeded) := by
  refine ⟨{ h with }, exchange_books rfl rfl rfl rfl fun a => ?_⟩
  cases a with
  | destructions => exact Nat.sub_add_cancel hdestroying
  | _ => rfl

/-! ## Eviction and shutdown -/

theorem Sound.passes_clearing (h : p.Sound []) (hclear : Clearing p p') (now : Instant) :
    Passes now p p' := by
  cases hclear with
  | skip evictionCursor => exact .single (.note _ p.metrics.evictions)
  | take evictionCursor evictions taken =>
      obtain ⟨hwf, l, r, hold, hnew⟩ := taken h.shelf
      refine .head (.note evictionCursor evictions) ?_
      exact passes_retire hwf hold hnew h.normal h.room

theorem Sound.passes_clearings (h : p.Sound []) (hclear : Clearings p p') (now : Instant) :
    Passes now p p' := by
  induction hclear with
  | refl => exact .refl
  | tail _ hlast ih => exact ih.trans ((h.passes ih).passes_clearing hlast now)

theorem Sound.clearings (h : p.Sound []) (hclear : Clearings p p') : p'.Sound [] :=
  h.passes (h.passes_clearings hclear 0)

theorem Sound.passes_evictSome (h : p.Sound []) (now : Instant) (count : Nat) :
    Passes now p (p.evictSome now count) :=
  h.passes_clearings (clearings_evictSome p now count) now

theorem Sound.passes_sweepSome (h : p.Sound []) (now : Instant) (fuel : Nat) :
    Passes now p (p.sweepSome fuel) :=
  h.passes_clearings (clearings_sweepSome p fuel) now

theorem Sound.deal_purge (h : p.Sound []) : Deal [] p [] p.purge :=
  ⟨{ h with queue := h.queue.retain _ }, exchange_books rfl rfl rfl rfl fun _ => rfl⟩

theorem Sound.deal_beginDrain (h : p.Sound []) : Deal [] p [] p.beginDrain :=
  ⟨{ h with queue := h.queue.retain _ }, exchange_books rfl rfl rfl rfl fun _ => rfl⟩

theorem Sound.deal_setRecycling (h : p.Sound []) (recycling : Option RecyclingConfig) :
    Deal [] p [] (p.setRecycling recycling) :=
  ⟨{ h with }, exchange_books rfl rfl rfl rfl fun _ => rfl⟩

/-! ## Actions -/

/-- An action leaves the outbox with its tokens. -/
theorem exchange_unpost {before after : List (Action ρ)} {action : Action ρ}
    (houtbox : p.outbox = before ++ action :: after) :
    Exchange [] p action.tokens { p with outbox := before ++ after } where
  balance a := by
    change p.book a + _ = p.book a + _
    simp only [tokens, Pool.shelf, unreceived, houtbox, List.flatMap_append, List.flatMap_cons,
      List.countP_append, List.countP_nil]
    omega
  lender l hl := by
    simp only [delivering, houtbox, List.flatMap_append, List.flatMap_cons,
      List.mem_append] at hl ⊢
    tauto
  id := rfl

theorem Sound.deal_unpost {before after : List (Action ρ)} {action : Action ρ} (h : p.Sound [])
    (houtbox : p.outbox = before ++ action :: after) :
    Deal [] p action.tokens { p with outbox := before ++ after } :=
  ⟨{ h with }, exchange_unpost houtbox⟩

/-- What is counted for an action is taken back. -/
theorem Sound.deal_abandon {action : Action ρ} (h : p.Sound []) (hleases : action.leases = [])
    (hcreating : action.tokens.countP Account.creations.covers ≤ p.creating)
    (hvalidating : action.tokens.countP Account.validations.covers ≤ p.validating)
    (hdestroying : action.tokens.countP Account.destructions.covers ≤ p.destroying) :
    Deal action.tokens p (action.lost.map .resource) (p.abandon action) := by
  cases action with
  | evict => exact .refl h []
  | create =>
      refine ⟨h.of_failure p.metrics, exchange_books rfl rfl rfl rfl fun a => ?_⟩
      cases a with
      | creations => exact Nat.sub_add_cancel hcreating
      | _ => rfl
  | validate x =>
      refine ⟨{ h with books := ?_, room := ?_ }, exchange_books rfl rfl rfl rfl fun a => ?_⟩
      · have := h.books
        have hpos : 1 ≤ p.validating := hvalidating
        change p.allObjects - 1 = 0 + p.available.length + p.loans.size + (p.validating - 1)
        simp only [List.length_nil] at this
        omega
      · have := h.room
        change p.allObjects - 1 + p.creating ≤ p.config.max
        simp only [size] at this
        omega
      · cases a with
        | validations => exact Nat.sub_add_cancel hvalidating
        | _ => rfl
  | destroy x =>
      refine ⟨{ h with }, exchange_books rfl rfl rfl rfl fun a => ?_⟩
      cases a with
      | destructions => exact Nat.sub_add_cancel hdestroying
      | _ => rfl
  | deliver call l => cases hleases

/-- A caller gets a lease, or it comes back and no answer has changed. -/
theorem Sound.deal_deliver (h : p.Sound []) (call : CallId) (hl : l.pool = p.id) :
    (∃ calls, p.deliver call l = (none, { p with calls }) ∧
      Deal [.lease l.item] p [] { p with calls }) ∨
    ∃ calls, p.deliver call l = (some l, { p with calls }) ∧ Deal [] p [] { p with calls } := by
  rw [deliver]
  cases hcall : p.calls.get? call with
  | none => exact .inr ⟨p.calls, rfl, .refl h []⟩
  | some d =>
      simp only [Deferred.resolve]
      split
      · exact .inr ⟨_, rfl, h.deal_answer hcall (h.unsent hcall) [] (fun _ => rfl) (by simp)⟩
      · rename_i hready
        rw [ne_eq, not_not] at hready
        split
        · refine .inl ⟨_, rfl, h.deal_answer hcall (by simp) [l] (fun q => ?_) (by simpa using hl)⟩
          have hnone : d.unread = [] := by rw [Deferred.unread, h.unsent hcall hready]
          rw [hnone]
          exact (Nat.zero_add _).symm
        · exact .inr ⟨_, rfl, h.deal_answer hcall (by simp) [] (fun _ => rfl) (by simp)⟩

/-- The actions that were waiting wait on behind those of a section. -/
theorem Exchange.queue (h : Exchange hand { p with outbox := [] } hand' p') :
    Exchange hand p hand' { p' with outbox := p'.outbox ++ p.outbox } where
  balance a := by
    have := h.balance a
    change p'.book a + _ = p.book a + _
    change p'.book a + _ = p.book a + _ at this
    simp only [tokens, Pool.shelf, unreceived, List.flatMap_append, List.countP_append,
      List.flatMap_nil, List.countP_nil] at *
    omega
  lender l hl := by
    have := h.lender l
    simp only [delivering, unreceived, List.flatMap_append, List.mem_append, List.flatMap_nil,
      List.not_mem_nil] at *
    tauto
  id := h.id

theorem Sound.deal_delivery {before after : List (Action ρ)} (h : p.Sound [])
    (houtbox : p.outbox = before ++ .deliver call l :: after) (hloan : l.id ∈ p.loans.keys)
    (hl : l.pool = p.id) (now : Instant) (sample : Duration) :
    Deal [] p [] (Section.run p (.deliver now sample before call l after)) := by
  have hunpost := h.deal_unpost houtbox
  rw [Section.run]
  obtain ⟨calls, heq, hdeal⟩ | ⟨calls, heq, hdeal⟩ := hunpost.sound.deal_deliver call hl <;>
    simp only [heq]
  · exact hunpost.trans hdeal
  · have hempty : ({ p with outbox := [], calls } : Pool ρ).Sound [] := { hdeal.sound with }
    have hback := hempty.deal_reclaim hloan now sample
    refine ⟨{ hback.sound with }, hunpost.exchange.trans ?_⟩
    have hframe := hdeal.exchange.frame [.lease l.item]
    exact hframe.trans (Exchange.queue hback.exchange)

end Pool

/-- Every section that is ready is a deal. -/
theorem Section.deal {ρ : Type} {p : Pool ρ} {s : Section ρ} (h : p.Sound []) (hs : s.Ready p) :
    Pool.Deal (s.takes p) p (s.gives p) (s.run p) := by
  cases s with
  | start => exact h.deal_start
  | request now call priority => exact h.deal_request hs priority
  | withdraw handle timeout => exact h.deal_withdraw handle timeout
  | forget handle => exact h.deal_forget handle
  | hangUp call => exact h.deal_hangUp call
  | giveBack now sample lease => exact h.deal_giveBack hs now sample
  | discard lease => exact h.deal_discard hs
  | reclaim now sample lease => exact h.deal_reclaim hs now sample
  | creationEnded now made => exact h.deal_creationEnded hs now made
  | validationEnded now x valid => exact h.deal_validationEnded hs.1 hs.2.1 hs.2.2 now valid
  | destructionEnded succeeded => exact h.deal_destructionEnded hs succeeded
  | evict now => exact (Pool.Deal.refl h []).passes (h.passes_evictSome now _)
  | purge => exact h.deal_purge
  | beginDrain => exact h.deal_beginDrain
  | sweep => exact (Pool.Deal.refl h []).passes (h.passes_sweepSome 0 _)
  | setRecycling recycling => exact h.deal_setRecycling recycling
  | launch before action after => exact h.deal_unpost hs.1
  | abandon before action after =>
      obtain ⟨houtbox, hleases, hcreating, hvalidating, hdestroying⟩ := hs
      have hunpost := h.deal_unpost houtbox
      exact hunpost.trans
        (hunpost.sound.deal_abandon hleases hcreating hvalidating hdestroying)
  | deliver now sample before call lease after =>
      exact h.deal_delivery hs.1 hs.2.1 hs.2.2 now sample

end PooledSql
