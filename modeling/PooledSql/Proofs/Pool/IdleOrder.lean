import PooledSql.Proofs.Pool.Orders
import PooledSql.Proofs.Pool.Requests

/-!
# Idle order

A resource that becomes ready is stamped with the time and comes to one end of those that are
available: to the back of a pool that hands out what has been idle longest, and else to the front.
Resources are taken from the front. Which resource becomes ready is fixed by the section,
`Section.brought`. So `Draws` says of a section that what was available, with what becomes ready, is
what it takes followed by what is left; the order by the stamps is kept, and whatever is taken has
been idle longest, or shortest, of all that there are.
-/

namespace PooledSql

variable {ρ : Type}

/-- The resource that an action has validated, or hands to a caller. -/
def Action.served? : Action ρ → Option (Nat × ρ)
  | .validate x => some x.item
  | .deliver _ l => some l.item
  | .evict | .create | .destroy _ => none

/-- All resources are ready, and the times when they became so rise or fall from the front. -/
structure IdleOrder (fifo : Bool) (now : Instant) (l : List (Pooled ρ)) : Prop where
  ordered : l.Pairwise fun x y =>
    if fifo then x.lastIdleAt ≤ y.lastIdleAt else y.lastIdleAt ≤ x.lastIdleAt
  idle : ∀ x ∈ l, x.stage = .idle
  past : ∀ x ∈ l, x.lastIdleAt ≤ now

/-- The resource has been idle as long as any of the others, or as short. -/
def Pooled.IsNext (x : Pooled ρ) (fifo : Bool) (now : Instant) (l : List (Pooled ρ)) : Prop :=
  ∀ y ∈ l, if fifo then y.idleTime now ≤ x.idleTime now else x.idleTime now ≤ y.idleTime now

namespace IdleOrder

variable {fifo : Bool} {now later : Instant} {l l' : List (Pooled ρ)} {x : Pooled ρ}

theorem nil (fifo : Bool) (now : Instant) : IdleOrder fifo now ([] : List (Pooled ρ)) :=
  ⟨.nil, List.forall_mem_nil _, List.forall_mem_nil _⟩

theorem sublist (h : IdleOrder fifo now l) (hl : l'.Sublist l) : IdleOrder fifo now l' where
  ordered := h.ordered.sublist hl
  idle x hx := h.idle x (hl.subset hx)
  past x hx := h.past x (hl.subset hx)

theorem mono (h : IdleOrder fifo now l) (hnow : now ≤ later) : IdleOrder fifo later l :=
  ⟨h.ordered, h.idle, fun x hx => (h.past x hx).trans hnow⟩

/-- A resource becomes ready and comes to its end. -/
theorem settle (h : IdleOrder fifo now l) (x : Pooled ρ) :
    IdleOrder fifo now (if fifo then l ++ [x.settle now] else x.settle now :: l) := by
  have hmem : ∀ y, y ∈ (if fifo then l ++ [x.settle now] else x.settle now :: l) →
      y ∈ l ∨ y = x.settle now := by
    intro y hy
    split at hy <;> simpa [or_comm] using hy
  refine ⟨?_, fun y hy => ?_, fun y hy => ?_⟩
  · cases fifo with
    | true =>
        refine List.pairwise_append.2 ⟨h.ordered, List.pairwise_singleton _ _, ?_⟩
        intro y hy z hz
        rw [List.mem_singleton.1 hz]
        exact h.past y hy
    | false => exact List.pairwise_cons.2 ⟨fun y hy => h.past y hy, h.ordered⟩
  · obtain hy | rfl := hmem y hy
    · exact h.idle y hy
    · rfl
  · obtain hy | rfl := hmem y hy
    · exact h.past y hy
    · exact le_rfl

/-- Whatever is at the front of others is next. -/
theorem isNext {before after : List (Pooled ρ)} (h : IdleOrder fifo now (before ++ x :: after)) :
    x.IsNext fifo now after := by
  intro y hy
  have hxy := List.rel_of_pairwise_cons (List.pairwise_append.1 h.ordered).2.1 hy
  cases fifo with
  | true => exact Nat.sub_le_sub_left hxy now
  | false => exact Nat.sub_le_sub_left hxy now

end IdleOrder

namespace Pool

variable {p p' p'' q : Pool ρ} {now : Instant} {sample : Duration} {x : Pooled ρ} {l : Lease ρ}
variable {brought : Option (Pooled ρ)} {taken rest : List (Pooled ρ)}

/-- The resources on their way from the shelf. -/
def serving (p : Pool ρ) : List (Nat × ρ) := p.outbox.filterMap Action.served?

/-- The resource that becomes ready when a lease comes back: the one on loan, unless it is due for
recycling. -/
def readied (p : Pool ρ) (now : Instant) (sample : Duration) (l : Lease ρ) : Option (Pooled ρ) :=
  match p.loans.get? l.id with
  | some loan =>
    if p.recycles sample (Instant.since now (l.returned loan).createdAt) then none
    else some (l.returned loan)
  | none => none

/-- Somebody waits for a resource. -/
def isSought (p : Pool ρ) : Bool := p.waiting.toList.any p.isPending

/-- The available resources, with one that becomes ready. -/
def stock (p : Pool ρ) (now : Instant) : Option (Pooled ρ) → List (Pooled ρ)
  | none => p.available.toList
  | some x =>
    if p.config.fifo then p.available.toList ++ [x.settle now]
    else x.settle now :: p.available.toList

theorem serving_post (p : Pool ρ) (actions : List (Action ρ)) :
    (p.post actions).serving = p.serving ++ actions.filterMap Action.served? :=
  List.filterMap_append

/-- What is available is what it was, and nothing is taken from it. -/
structure Still (p p' : Pool ρ) : Prop where
  config : p'.config = p.config
  available : p'.available = p.available
  serving : p'.serving = p.serving

theorem Still.trans (h : Still p p') (h' : Still p' p'') : Still p p'' :=
  ⟨h'.config.trans h.config, h'.available.trans h.available, h'.serving.trans h.serving⟩

theorem still_refl (p : Pool ρ) : Still p p := ⟨rfl, rfl, rfl⟩

theorem still_post (p : Pool ρ) {actions : List (Action ρ)}
    (h : actions.filterMap Action.served? = []) : Still p (p.post actions) :=
  ⟨rfl, rfl, by rw [serving_post, h, List.append_nil]⟩

theorem still_orderCreation (p : Pool ρ) (count : Nat) : Still p (p.orderCreation count) := by
  refine ⟨rfl, rfl, ?_⟩
  rw [orderCreation, serving_post, List.filterMap_replicate_of_none rfl]
  exact List.append_nil _

theorem still_ensureMinimum (p : Pool ρ) : Still p p.ensureMinimum := by
  rw [ensureMinimum]
  split
  · exact still_refl p
  · exact still_orderCreation p _

theorem still_retire (p : Pool ρ) (x : Pooled ρ) : Still p (p.retire x) := by
  have hbooks : Still p p.writeOff := ⟨rfl, rfl, rfl⟩
  exact (hbooks.trans (still_post _ rfl)).trans (still_ensureMinimum _)

theorem still_start (p : Pool ρ) : Still p p.start := by
  obtain heq | ⟨-, -, heq⟩ := p.start_eq <;> rw [heq]
  · exact still_refl p
  · have hstart : Still p { p with started := true } := ⟨rfl, rfl, rfl⟩
    have hnone : (if p.config.evictionInterval = 0 then [] else [.evict] :
        List (Action ρ)).filterMap Action.served? = [] := by split <;> rfl
    exact (hstart.trans (still_post _ hnone)).trans (still_ensureMinimum p.wake)

theorem still_discard (p : Pool ρ) (l : Lease ρ) : Still p (p.discard l).2 := by
  cases hloan : p.loans.get? l.id with
  | none =>
      rw [discard_of_none hloan]
      exact still_refl p
  | some loan =>
      rw [discard_eq hloan]
      have hgone : Still p (p.endLoan l.id).writeOff := ⟨rfl, rfl, rfl⟩
      exact hgone.trans (still_ensureMinimum _)

/-- What was available, with what has become ready, is what is taken and what is left then; some
of this may go as well, but not to callers. -/
structure Draws (now : Instant) (p : Pool ρ) (brought : Option (Pooled ρ))
    (taken rest : List (Pooled ρ)) (p' : Pool ρ) : Prop where
  config : p'.config = p.config
  stock : p.stock now brought = taken ++ rest
  left : p'.available.toList.Sublist rest
  serving : p'.serving = p.serving ++ taken.map Pooled.item

theorem Still.draws (h : Still p p') (now : Instant) :
    Draws now p none [] p.available.toList p' where
  config := h.config
  stock := rfl
  left := by rw [h.available]
  serving := h.serving.trans (List.append_nil _).symm

theorem Draws.after (h : Draws now q brought taken rest p') (hq : Still p q) :
    Draws now p brought taken rest p' where
  config := h.config.trans hq.config
  stock := by
    rw [← h.stock]
    cases brought with
    | none => exact congrArg Deque.toList hq.available.symm
    | some x => simp only [Pool.stock, hq.config, hq.available]
  left := h.left
  serving := by rw [h.serving, hq.serving]

theorem Draws.still (h : Draws now p brought taken rest q) (hq : Still q p') :
    Draws now p brought taken rest p' where
  config := hq.config.trans h.config
  stock := h.stock
  left := by
    rw [hq.available]
    exact h.left
  serving := by rw [hq.serving, h.serving]

/-- A resource becomes ready before others are taken. -/
theorem Draws.shelve (h : Draws now (p.shelve now x) none taken rest p')
    (hwf : p.available.Wf) : Draws now p (some x) taken rest p' where
  config := h.config
  stock := by
    rw [← h.stock, Pool.stock, Pool.stock, Pool.shelve]
    dsimp only
    split
    · exact (hwf.toList_push _).symm
    · exact (hwf.toList_unshift _).symm
  left := h.left
  serving := h.serving

theorem draws_shelve (hwf : p.available.Wf) (now : Instant) (x : Pooled ρ) :
    ∃ rest, Draws now p (some x) [] rest (p.shelve now x) :=
  ⟨_, ((still_refl _).draws now).shelve hwf⟩

/-! ## Taking resources -/

/-- A resource is taken from the front, and then others are. -/
theorem Draws.cons {available : Deque (Pooled ρ)} (h : Draws now q none taken rest p')
    (hwf : p.available.Wf) (hshift : p.available.shift = some (x, available))
    (hconfig : q.config = p.config) (havailable : q.available = available)
    (hserving : q.serving = p.serving ++ [x.item]) :
    Draws now p none (x :: taken) rest p' where
  config := h.config.trans hconfig
  stock := by
    have hrest : available.toList = taken ++ rest := havailable ▸ h.stock
    rw [Pool.stock, (hwf.of_shift hshift).2, hrest, List.cons_append]
  left := h.left
  serving := by rw [h.serving, hserving, List.append_assoc, List.map_cons, List.singleton_append]

theorem draws_orderValidation (hwf : p.available.Wf) (now : Instant) (count : Nat) :
    ∃ taken rest, Draws now p none taken rest (p.orderValidation count) := by
  induction count generalizing p with
  | zero => exact ⟨_, _, (still_refl p).draws now⟩
  | succ count ih =>
      rw [orderValidation]
      split
      · rename_i x available hshift
        obtain ⟨taken, rest, hdraws⟩ := ih (p := ({ p with
          available, validating := p.validating + 1 } : Pool ρ).post
            [.validate { x with stage := .validating }]) (hwf.of_shift hshift).1
        exact ⟨x :: taken, rest, hdraws.cons hwf hshift rfl rfl (serving_post _ _)⟩
      · exact ⟨_, _, (still_refl p).draws now⟩

/-- While anybody waits, a resource is lent and does not go back. -/
theorem Attended.lend_eq (h : p.Attended) (hwaiting : 0 < p.waiting.length) (now : Instant)
    (x : Pooled ρ) : ∃ call waiting, waiting.length + 1 = p.waiting.length ∧
      p.lend now x = { p with
        waiting
        loans := p.loans.insert x.id x.loan
        metrics := { p.metrics with acquisitions := p.metrics.acquisitions + 1 }
        }.post [.deliver call (x.lease p.id)] := by
  rw [lend, takePending_eq h.wf fun _ => h.isPending]
  cases hdequeue : p.waiting.dequeue with
  | none =>
      rw [h.wf.length_toList, h.wf.dequeue_eq_none hdequeue] at hwaiting
      cases hwaiting
  | some item =>
      obtain ⟨call, waiting⟩ := item
      obtain ⟨hwf, hlist⟩ := h.wf.of_dequeue hdequeue
      refine ⟨call, waiting, ?_, rfl⟩
      rw [h.wf.length_toList, hlist, hwf.length_toList, List.length_cons]

theorem Attended.draws_lendSome (h : p.Attended) (hwf : p.available.Wf) (now : Instant)
    {count : Nat} (hcount : count ≤ p.waiting.length) :
    ∃ taken rest, Draws now p none taken rest (p.lendSome now count) := by
  induction count generalizing p with
  | zero => exact ⟨_, _, (still_refl p).draws now⟩
  | succ count ih =>
      rw [lendSome]
      split
      · rename_i x available hshift
        have htake : p.Serves { p with available } := h.serves_of_eq rfl rfl rfl rfl rfl
        have hlent := (htake.trans ((htake.attended h).serves_lend now x)).attended h
        obtain ⟨call, waiting, hlength, heq⟩ :=
          (htake.attended h).lend_eq (Nat.zero_lt_of_lt hcount) now x
        rw [heq] at hlent ⊢
        change waiting.length + 1 = p.waiting.length at hlength
        have hleft : count ≤ waiting.length := by omega
        obtain ⟨taken, rest, hdraws⟩ := ih hlent (hwf.of_shift hshift).1 hleft
        exact ⟨x :: taken, rest, hdraws.cons hwf hshift rfl rfl (serving_post _ _)⟩
      · exact ⟨_, _, (still_refl p).draws now⟩

theorem Attended.draws_dispatch (h : p.Attended) (hwf : p.available.Wf) (now : Instant) :
    ∃ taken rest, Draws now p none taken rest (p.dispatch now) := by
  rw [dispatch]
  dsimp only
  split
  · exact ⟨_, _, (still_refl p).draws now⟩
  · have horder := still_orderCreation p (min (p.waiting.length - p.allocable) p.spare)
    split
    · obtain ⟨taken, rest, hdraws⟩ := draws_orderValidation (p := p.orderCreation
        (min (p.waiting.length - p.allocable) p.spare)) hwf now _
      exact ⟨taken, rest, hdraws.after horder⟩
    · obtain ⟨taken, rest, hdraws⟩ := ((h.serves_orderCreation _).attended h).draws_lendSome hwf now
        (Nat.min_le_right _ _)
      exact ⟨taken, rest, hdraws.after horder⟩

/-! ## Destroying resources -/

theorem Draws.trans {rest' : List (Pooled ρ)} (h : Draws now p none [] rest q)
    (h' : Draws now q none [] rest' p') : Draws now p none [] rest p' where
  config := h'.config.trans h.config
  stock := h.stock
  left := by
    have hleft : q.available.toList = rest' := h'.stock
    exact (hleft ▸ h'.left).trans h.left
  serving := by rw [h'.serving, h.serving, List.map_nil, List.append_nil]

/-- A resource leaves the shelf, from any place. -/
theorem draws_leave {before after : List (Pooled ρ)} (hconfig : p'.config = p.config)
    (hold : p.available.toList = before ++ x :: after)
    (hnew : p'.available.toList = before ++ after) (hserving : p'.serving = p.serving) :
    Draws now p none [] p.available.toList p' where
  config := hconfig
  stock := rfl
  left := by
    rw [hold, hnew]
    exact (List.Sublist.refl _).append (List.sublist_cons_self _ _)
  serving := hserving.trans (List.append_nil _).symm

theorem Sound.draws_clearing (h : p.Sound []) (hclear : Clearing p p') (now : Instant) :
    Draws now p none [] p.available.toList p' := by
  cases hclear with
  | skip evictionCursor =>
      have hskip : Still p { p with evictionCursor } := ⟨rfl, rfl, rfl⟩
      exact hskip.draws now
  | take evictionCursor evictions taken =>
      obtain ⟨-, before, after, hold, hnew⟩ := taken h.shelf
      refine Draws.still ?_ (still_retire _ _)
      exact draws_leave rfl hold hnew rfl

theorem Sound.draws_clearings (h : p.Sound []) (hclear : Clearings p p') (now : Instant) :
    Draws now p none [] p.available.toList p' := by
  induction hclear with
  | refl => exact (still_refl p).draws now
  | tail hclear hlast ih => exact ih.trans ((h.clearings hclear).draws_clearing hlast now)

/-! ## Parts of sections -/

theorem Attended.draws_request {call : CallId} (h : p.Attended) (hwf : p.available.Wf)
    (hcall : call ∉ p.calls.keys) (howed : call ∉ p.owed) (now : Instant) (priority : Nat) :
    ∃ taken rest, Draws now p none taken rest (p.request now call priority).2 := by
  have hawake : Still p (if p.started then p else p.start) ∧
      (if p.started then p else p.start).owed = p.owed := by
    split
    · exact ⟨still_refl p, rfl⟩
    · exact ⟨still_start p, owed_start p⟩
  have hserves := h.serves_awake
  obtain ⟨q, hq, ⟨e, heq⟩ | heq⟩ := p.request_cases now call priority <;>
    rw [heq] <;> rw [← hq] at hawake hserves
  · exact ⟨_, _, hawake.1.draws now⟩
  · have hjoin :=
      (hserves.attended h).minds_join (hserves.calls ▸ hcall) (hawake.2 ▸ howed) priority
    obtain ⟨taken, rest, hdraws⟩ :=
      hjoin.attended.draws_dispatch (hawake.1.available ▸ hwf) now
    have hjoined : Still q (q.join call priority) := ⟨rfl, rfl, rfl⟩
    exact ⟨taken, rest, hdraws.after (hawake.1.trans hjoined)⟩

/-- A resource becomes ready, and is handed on if it is next. -/
theorem Attended.draws_ready (h : p.Attended) (hwf : p.available.Wf) (now : Instant)
    (x : Pooled ρ) :
    ∃ taken rest, Draws now p (some x) taken rest ((p.shelve now x).dispatch now) := by
  have hshelve : p.Serves (p.shelve now x) := h.serves_of_eq rfl rfl rfl rfl rfl
  obtain ⟨taken, rest, hdraws⟩ :=
    (hshelve.attended h).draws_dispatch (shelve_available hwf now x).1 now
  exact ⟨taken, rest, hdraws.shelve hwf⟩

/-- A resource that comes back becomes ready, or has to be destroyed. -/
theorem Attended.draws_giveBack (h : p.Attended) (hwf : p.available.Wf) (now : Instant)
    (sample : Duration) (l : Lease ρ) : ∃ taken rest,
      Draws now p (p.readied now sample l) taken rest (p.giveBack now sample l).2 := by
  cases hloan : p.loans.get? l.id with
  | none =>
      rw [readied, hloan, giveBack_of_none hloan]
      exact ⟨_, _, (still_refl p).draws now⟩
  | some loan =>
      rw [readied, hloan]
      dsimp only
      cases hdue : p.recycles sample (Instant.since now (l.returned loan).createdAt) with
      | true =>
          rw [if_pos rfl, giveBack_recycled hloan hdue]
          have hgone : p.Serves (p.endLoan l.id).writeOff := h.serves_of_eq rfl rfl rfl rfl rfl
          have hstill := still_ensureMinimum (p.endLoan l.id).writeOff
          obtain ⟨taken, rest, hdraws⟩ := ((hgone.ensureMinimum h).attended h).draws_dispatch
            (hstill.available.symm ▸ hwf) now
          exact ⟨taken, rest, (hdraws.after hstill).after ⟨rfl, rfl, rfl⟩⟩
      | false =>
          rw [if_neg Bool.false_ne_true, giveBack_kept hloan hdue]
          have hended : p.Serves (p.endLoan l.id) := h.serves_of_eq rfl rfl rfl rfl rfl
          obtain ⟨taken, rest, hdraws⟩ :=
            (hended.attended h).draws_ready hwf now (l.returned loan)
          exact ⟨taken, rest, hdraws.after ⟨rfl, rfl, rfl⟩⟩

theorem Attended.draws_reclaim (h : p.Attended) (hwf : p.available.Wf) (now : Instant)
    (sample : Duration) (l : Lease ρ) : ∃ taken rest,
      Draws now p (p.readied now sample l) taken rest (p.reclaim now sample l) := by
  obtain ⟨taken, rest, hdraws⟩ := h.draws_giveBack hwf now sample l
  refine ⟨taken, rest, ?_⟩
  obtain heq | ⟨x, heq⟩ := reclaim_eq p now sample l <;> rw [heq]
  · exact hdraws
  · exact hdraws.still (still_post _ rfl)

/-- A resource that has been made becomes ready. -/
theorem Attended.draws_creationEnded (h : p.Attended) (hwf : p.available.Wf) (now : Instant)
    (made : Option ρ) : ∃ taken rest,
      Draws now p (made.map (.fresh p.nextResource · now)) taken rest
        (p.creationEnded now made) := by
  cases made with
  | none =>
      have hfailed : p.Serves p.failCreation := h.serves_of_eq rfl rfl rfl rfl rfl
      obtain ⟨taken, rest, hdraws⟩ := (hfailed.attended h).draws_dispatch hwf now
      exact ⟨taken, rest, hdraws.after ⟨rfl, rfl, rfl⟩⟩
  | some r =>
      have hadmitted : p.Serves p.endCreation := h.serves_of_eq rfl rfl rfl rfl rfl
      obtain ⟨taken, rest, hdraws⟩ :=
        (hadmitted.attended h).draws_ready hwf now (.fresh p.nextResource r now)
      exact ⟨taken, rest, hdraws.after ⟨rfl, rfl, rfl⟩⟩

/-- A resource that has failed its validation is destroyed. -/
theorem Attended.draws_rejected (h : p.Attended) (hwf : p.available.Wf) (now : Instant)
    (x : Pooled ρ) :
    ∃ taken rest, Draws now p none taken rest (p.validationEnded now x false) := by
  have hfailed : p.Serves p.failValidation := h.serves_of_eq rfl rfl rfl rfl rfl
  have hstill := still_retire p.failValidation x
  obtain ⟨taken, rest, hdraws⟩ :=
    ((hfailed.retire h x).attended h).draws_dispatch (hstill.available.symm ▸ hwf) now
  exact ⟨taken, rest, (hdraws.after hstill).after ⟨rfl, rfl, rfl⟩⟩

end Pool

namespace Section

open Pool

variable {p p' : Pool ρ} {s : Section ρ} {now : Instant} {x : Pooled ρ} {l : Lease ρ}
variable {taken rest : List (Pooled ρ)}

/-- The time at which the section runs, if it looks at the clock. -/
def time? : Section ρ → Option Instant
  | .request now _ _ | .giveBack now _ _ | .reclaim now _ _ | .creationEnded now _
  | .validationEnded now _ _ | .evict now | .deliver now _ _ _ _ _ => some now
  | _ => none

/-- The resource that becomes ready in the section: one that comes back and is not due for
recycling, also from a caller who has gone, one that has just been made, or one that was found to be
good and that nobody waits for. -/
def brought (p : Pool ρ) : Section ρ → Option (Pooled ρ)
  | .giveBack now sample lease | .reclaim now sample lease => p.readied now sample lease
  | .creationEnded now made => made.map (.fresh p.nextResource · now)
  | .validationEnded _ pooled true => if p.isSought then none else some pooled
  | .deliver now sample _ call lease _ => (p.deliver call lease).1.bind (p.readied now sample)
  | _ => none

/-- The resource that the section lends although it was not available: one that was found to be good
and that somebody waits for. -/
def handed (p : Pool ρ) : Section ρ → List (Nat × ρ)
  | .validationEnded _ pooled true => if p.isSought then [pooled.item] else []
  | _ => []

/-- What was available, with what becomes ready, is what the section takes and what is left then.
What it takes is on its way to a caller or to be validated afterwards, and nothing else comes on its
way but a resource that has just been validated. -/
structure Draws (now : Instant) (p : Pool ρ) (s : Section ρ) (taken rest : List (Pooled ρ))
    (p' : Pool ρ) : Prop where
  config : p'.config = p.config
  stock : p.stock now (s.brought p) = taken ++ rest
  left : p'.available.toList.Sublist rest
  serving : (p'.serving ++ s.performs.filterMap Action.served?).Perm
    (p.serving ++ (s.handed p ++ taken.map Pooled.item))

theorem draws_of_pool (h : Pool.Draws now p (s.brought p) taken rest p') (hs : s.performs = [])
    (hhanded : s.handed p = []) : s.Draws now p taken rest p' where
  config := h.config
  stock := h.stock
  left := h.left
  serving := by
    rw [hs, hhanded, h.serving, List.nil_append]
    exact .of_eq (List.append_nil _)

/-- A resource that has been validated is handed to a caller, or becomes ready again. -/
theorem draws_approved (hsound : p.Sound []) (now : Instant) (x : Pooled ρ) :
    ∃ taken rest, (validationEnded now x true).Draws now p taken rest
      (p.validationEnded now x true) := by
  rw [validationEnded_true]
  obtain ⟨call, waiting, -, hcall, ⟨stale, hqueue, -⟩, heq⟩ | ⟨waiting, -, -, hnone, heq⟩ :=
    lend_cases (p := p.endValidation) hsound.queue now x <;> rw [heq]
  · have hsought : p.isSought = true :=
      List.any_eq_true.2 ⟨call, hqueue ▸ List.mem_append_right _ List.mem_cons_self, hcall⟩
    refine ⟨[], p.available.toList, rfl, ?_, List.Sublist.refl _, ?_⟩
    · rw [brought, if_pos hsought]
      rfl
    · rw [handed, if_pos hsought]
      exact .of_eq ((List.append_nil _).trans (serving_post _ _))
  · have hsought : ¬ p.isSought = true := by
      rw [isSought, List.any_eq_true]
      rintro ⟨call, hmem, hcall⟩
      exact Bool.false_ne_true ((hnone call hmem).symm.trans hcall)
    obtain ⟨rest, hdraws⟩ := draws_shelve
      (p := { p.endValidation with waiting }) hsound.shelf now x
    refine ⟨[], rest, draws_of_pool ?_ rfl (if_neg hsought)⟩
    rw [brought, if_neg hsought]
    exact hdraws.after ⟨rfl, rfl, rfl⟩

theorem perm_unpost {before after : List (Action ρ)} {action : Action ρ}
    (houtbox : p.outbox = before ++ action :: after) :
    ((before ++ after).filterMap Action.served? ++ [action].filterMap Action.served?).Perm
      p.serving := by
  rw [serving, houtbox, ← List.filterMap_append, List.append_assoc]
  exact .filterMap _ (.append_left _ List.perm_append_comm)

/-- An action leaves the outbox, and what is available stays as it is. -/
theorem draws_unpost {before after : List (Action ρ)} {action : Action ρ}
    (houtbox : p.outbox = before ++ action :: after) (hperforms : s.performs = [action])
    (hbrought : s.brought p = none) (hhanded : s.handed p = [])
    (hconfig : p'.config = p.config) (havailable : p'.available = p.available)
    (houtbox' : p'.outbox = before ++ after) :
    s.Draws now p [] p.available.toList p' where
  config := hconfig
  stock := by rw [hbrought, Pool.stock, List.nil_append]
  left := by rw [havailable]
  serving := by
    rw [hperforms, hhanded, serving, houtbox']
    exact (perm_unpost houtbox).trans (.of_eq (List.append_nil _).symm)

/-- A lease that nobody awaits comes back. -/
theorem draws_deliver {before after : List (Action ρ)} {call : CallId} (h : p.Attended)
    (hwf : p.available.Wf) (houtbox : p.outbox = before ++ .deliver call l :: after)
    (now : Instant) (sample : Duration) :
    ∃ taken rest, (deliver now sample before call l after).Draws now p taken rest
      (run p (.deliver now sample before call l after)) := by
  obtain ⟨calls, hother, hcall, hdeliver⟩ :=
    deliver_cases ({ p with outbox := before ++ after } : Pool ρ) call l
  have hresolve := h.minds_resolve houtbox hother hcall
  have hback : (p.deliver call l).1 =
      (({ p with outbox := before ++ after } : Pool ρ).deliver call l).1 := by
    rw [Pool.deliver, Pool.deliver]
    cases p.calls.get? call <;> rfl
  rw [run]
  obtain heq | heq := hdeliver <;> rw [heq] at hback <;> simp only [heq]
  · refine ⟨_, _, draws_unpost houtbox rfl ?_ rfl rfl rfl rfl⟩
    rw [brought, hback]
    rfl
  · have hempty : ({ p with outbox := [], calls } : Pool ρ).Attended :=
      { hresolve.attended with unowed := fun _ _ => List.not_mem_nil }
    obtain ⟨taken, rest, hdraws⟩ := hempty.draws_reclaim hwf now sample l
    have hbrought : (deliver now sample before call l after).brought p =
        ({ p with outbox := [], calls } : Pool ρ).readied now sample l := by
      rw [brought, hback]
      rfl
    refine ⟨taken, rest, hdraws.config, ?_, hdraws.left, ?_⟩
    · rw [hbrought, ← hdraws.stock]
      cases ({ p with outbox := [], calls } : Pool ρ).readied now sample l <;> rfl
    · have hserving : (({ p with outbox := [], calls } : Pool ρ).reclaim now sample l).serving =
          taken.map Pooled.item := hdraws.serving
      rw [serving] at hserving
      rw [serving, List.filterMap_append, hserving, List.append_assoc]
      exact List.perm_append_comm.trans ((perm_unpost houtbox).append_right _)

/-- What every section does to the available resources. -/
theorem exists_draws (hsound : p.Sound []) (h : p.Attended) (hs : s.Ready p)
    (hproper : s.Proper p) (htime : ∀ time ∈ s.time?, time = now) :
    ∃ taken rest, s.Draws now p taken rest (s.run p) := by
  have hstill : ∀ {p' : Pool ρ}, s.performs = [] → s.brought p = none → s.handed p = [] →
      Still p p' → ∃ taken rest, s.Draws now p taken rest p' :=
    fun hperforms hbrought hhanded hkept =>
      ⟨_, _, draws_of_pool (hbrought ▸ hkept.draws now) hperforms hhanded⟩
  have hwf := hsound.shelf
  cases s with
  | start => exact hstill rfl rfl rfl (still_start p)
  | request time call priority =>
      obtain rfl := htime time rfl
      obtain ⟨taken, rest, hdraws⟩ := h.draws_request hwf hs hproper time priority
      exact ⟨_, _, draws_of_pool hdraws rfl rfl⟩
  | withdraw handle timeout =>
      rw [run]
      obtain heq | ⟨call, waiting, calls, metrics, -, -, heq⟩ :=
        p.withdraw_cases handle timeout <;> rw [heq] <;> exact hstill rfl rfl rfl ⟨rfl, rfl, rfl⟩
  | forget handle =>
      rw [run, Pool.forget]
      split <;> exact hstill rfl rfl rfl ⟨rfl, rfl, rfl⟩
  | giveBack time sample lease =>
      obtain rfl := htime time rfl
      obtain ⟨taken, rest, hdraws⟩ := h.draws_giveBack hwf time sample lease
      exact ⟨_, _, draws_of_pool hdraws rfl rfl⟩
  | discard lease => exact hstill rfl rfl rfl (still_discard p lease)
  | reclaim time sample lease =>
      obtain rfl := htime time rfl
      obtain ⟨taken, rest, hdraws⟩ := h.draws_reclaim hwf time sample lease
      exact ⟨_, _, draws_of_pool hdraws rfl rfl⟩
  | creationEnded time made =>
      obtain rfl := htime time rfl
      obtain ⟨taken, rest, hdraws⟩ := h.draws_creationEnded hwf time made
      exact ⟨_, _, draws_of_pool hdraws rfl rfl⟩
  | validationEnded time x valid =>
      obtain rfl := htime time rfl
      cases valid with
      | true => exact draws_approved hsound time x
      | false =>
          obtain ⟨taken, rest, hdraws⟩ := h.draws_rejected hwf time x
          exact ⟨_, _, draws_of_pool hdraws rfl rfl⟩
  | evict time =>
      obtain rfl := htime time rfl
      have hclear : Clearings p (p.evict time) := clearings_evictSome p time _
      exact ⟨_, _, draws_of_pool (hsound.draws_clearings hclear time) rfl rfl⟩
  | sweep =>
      have hclear : Clearings p p.sweep := clearings_sweepSome p _
      exact ⟨_, _, draws_of_pool (hsound.draws_clearings hclear now) rfl rfl⟩
  | launch before action after =>
      exact ⟨_, _, draws_unpost hs.1 rfl rfl rfl rfl rfl rfl⟩
  | abandon before action after =>
      rw [run]
      cases action <;> exact ⟨_, _, draws_unpost hs.1 rfl rfl rfl rfl rfl rfl⟩
  | deliver time sample before call lease after =>
      obtain rfl := htime time rfl
      exact draws_deliver h hwf hs.1 time sample
  | _ => exact hstill rfl rfl rfl ⟨rfl, rfl, rfl⟩

/-- The order is kept. -/
theorem Draws.idleOrder (h : s.Draws now p taken rest p')
    (hp : IdleOrder p.config.fifo now p.available.toList) :
    IdleOrder p.config.fifo now (taken ++ rest) ∧
      IdleOrder p'.config.fifo now p'.available.toList := by
  have hstock : IdleOrder p.config.fifo now (p.stock now (s.brought p)) := by
    cases s.brought p with
    | none => exact hp
    | some x => exact hp.settle x
  rw [h.stock] at hstock
  refine ⟨hstock, ?_⟩
  rw [h.config]
  exact hstock.sublist (h.left.trans (List.sublist_append_right _ _))

/-- What a section takes has been idle longest, or shortest, of all that are available then. -/
theorem Draws.isNext {before after : List (Pooled ρ)}
    (h : s.Draws now p taken rest p')
    (hp : IdleOrder p.config.fifo now p.available.toList) (htaken : taken = before ++ x :: after) :
    x.IsNext p.config.fifo now (after ++ rest) := by
  have horder := (h.idleOrder hp).1
  rw [htaken, List.append_assoc, List.cons_append] at horder
  exact horder.isNext

end Section

end PooledSql
