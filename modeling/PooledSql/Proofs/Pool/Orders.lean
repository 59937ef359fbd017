import PooledSql.Proofs.Pool.Closing
import PooledSql.Proofs.Pool.Frame

/-!
# What sections put into the outbox

The errands that an outbox holds are counted here by their kind. Passes send for resources to be
made and validated, and only the start of a pool sends for the task that evicts. A quiet pool sends
for nothing. Both come from one count over the actions that a pool withholds.
-/

namespace PooledSql

variable {ρ : Type}

/-- What a pool sends a task for. -/
inductive Errand where
  | create
  | validate
  | evict
  deriving DecidableEq

/-- The errand of an action; destructions are not looked at here. -/
def Action.errand? : Action ρ → Option Errand
  | .create => some .create
  | .validate _ => some .validate
  | .evict => some .evict
  | .destroy _ | .deliver _ _ => none

/-- The action sends a task on such an errand. -/
def Action.sendsFor (errand : Errand) (action : Action ρ) : Bool := action.errand? == some errand

namespace Pool

variable {p p' p'' : Pool ρ} {now : Instant} {q : Action ρ → Bool} {hand : List Nat}

/-- The passes of the pool put no such action into the outbox: they put no such action into any,
or the pool is quiet and does nothing but destroy. -/
structure Withholds (q : Action ρ → Bool) (p : Pool ρ) : Prop where
  destroy : ∀ x, q (.destroy x) = false
  rest : p.Quiet ∨ q .create = false ∧ (∀ x, q (.validate x) = false) ∧
    ∀ call lease, q (.deliver call lease) = false

/-- The pool goes on to withhold the actions, and there are as many in its outbox as before. -/
structure Silent (q : Action ρ → Bool) (p p' : Pool ρ) : Prop where
  started : p'.started = p.started
  outbox : p'.outbox.countP q = p.outbox.countP q
  withholds : p'.Withholds q

/-- No pass sends for the task that evicts. -/
theorem withholds_evict (p : Pool ρ) : p.Withholds (Action.sendsFor .evict) where
  destroy _ := rfl
  rest := .inr ⟨rfl, fun _ => rfl, fun _ _ => rfl⟩

/-- A quiet pool sends for nothing. -/
theorem Quiet.withholds (h : p.Quiet) (errand : Errand) : p.Withholds (Action.sendsFor errand) where
  destroy _ := rfl
  rest := .inl h

theorem Withholds.of_draining (h : p.Withholds q)
    (hdraining : p.draining = true → p'.draining = true)
    (hwaiting : p'.waiting.length ≤ p.waiting.length) : p'.Withholds q where
  destroy := h.destroy
  rest := by
    refine h.rest.imp_left fun hquiet => ⟨hdraining hquiet.draining, ?_⟩
    exact Nat.le_zero.1 (hwaiting.trans_eq hquiet.waiting)

theorem Withholds.silent (h : p.Withholds q) (hdraining : p'.draining = p.draining)
    (hwaiting : p'.waiting.length ≤ p.waiting.length) (hstarted : p'.started = p.started)
    (houtbox : p'.outbox.countP q = p.outbox.countP q) : Silent q p p' :=
  ⟨hstarted, houtbox, h.of_draining hdraining.trans hwaiting⟩

theorem Withholds.silent_refl (h : p.Withholds q) : Silent q p p := ⟨rfl, rfl, h⟩

theorem Silent.trans (h : Silent q p p') (h' : Silent q p' p'') : Silent q p p'' :=
  ⟨h'.started.trans h.started, h'.outbox.trans h.outbox, h'.withholds⟩

theorem Withholds.silent_post_destroy (h : p.Withholds q) (x : Pooled ρ) :
    Silent q p (p.post [.destroy x]) := by
  refine h.silent rfl le_rfl rfl ?_
  rw [Pool.post, List.countP_append, List.countP_singleton, h.destroy]
  rfl

/-! ## Passes -/

/-- A pool that is quiet has nobody to lend to. -/
theorem Withholds.silent_lend (h : p.Withholds q) (now : Instant) (x : Pooled ρ) :
    Silent q p (p.lend now x) := by
  obtain hquiet | hnone := h.rest
  · rw [hquiet.lend]
    exact h.silent rfl le_rfl rfl rfl
  · have hrest : ∀ {p' : Pool ρ}, p'.Withholds q := ⟨h.destroy, .inr hnone⟩
    rw [lend]
    split
    · refine ⟨rfl, ?_, hrest⟩
      rw [Pool.post, List.countP_append, List.countP_singleton, hnone.2.2]
      rfl
    · exact ⟨rfl, rfl, hrest⟩

/-- Nothing is made or validated for a pool that is quiet. -/
theorem Withholds.pass (h : p.Withholds q) (hpass : Pass now p p') : Silent q p p' := by
  cases hpass with
  | order room need =>
      refine h.silent rfl le_rfl rfl ?_
      obtain hquiet | hnone := h.rest
      · obtain hdraining | hwaiting := need
        · exact absurd (hdraining.symm.trans hquiet.draining) Bool.false_ne_true
        · exact absurd hquiet.waiting hwaiting.ne'
      · rw [orderCreation, Pool.post, List.countP_append, List.countP_replicate, hnone.1]
        rfl
  | test shift testing need =>
      refine h.silent rfl le_rfl rfl ?_
      obtain hquiet | hnone := h.rest
      · exact absurd hquiet.waiting (Nat.zero_lt_of_lt need).ne'
      · rw [Pool.post, List.countP_append, List.countP_singleton, hnone.2.1]
        rfl
  | @lend x rest shift testing =>
      have htaken : Silent q p { p with available := rest } := h.silent rfl le_rfl rfl rfl
      exact htaken.trans (htaken.withholds.silent_lend now x)
  | @cull x rest left right wf before after =>
      have hgone : Silent q p { p with
          available := rest
          allObjects := p.allObjects - 1
          destroying := p.destroying + 1 } := h.silent rfl le_rfl rfl rfl
      exact hgone.trans (hgone.withholds.silent_post_destroy _)
  | note => exact h.silent rfl le_rfl rfl rfl

theorem Withholds.passes (h : p.Withholds q) (hpasses : Passes now p p') : Silent q p p' := by
  induction hpasses with
  | refl => exact h.silent_refl
  | tail _ hlast ih => exact ih.trans (ih.withholds.pass hlast)

/-- Passes go on from where the pool has come to. -/
theorem Silent.passes (h : Silent q p p') (hpasses : Passes now p' p'') : Silent q p p'' :=
  h.trans (h.withholds.passes hpasses)

theorem Silent.ensureMinimum (h : Silent q p p') (hsound : p'.Sound hand) :
    Silent q p p'.ensureMinimum :=
  h.passes (hsound.passes_ensureMinimum 0)

theorem Silent.dispatch (h : Silent q p p') (hsound : p'.Sound hand) (now : Instant) :
    Silent q p (p'.dispatch now) :=
  h.passes (hsound.passes_dispatch now)

/-! ## Sections -/

variable {l : Lease ρ} {call : CallId}

theorem Withholds.silent_giveBack (h : p.Withholds q) (hsound : p.Sound [])
    (hl : l.id ∈ p.loans.keys) (now : Instant) (sample : Duration) :
    Silent q p (p.giveBack now sample l).2 := by
  obtain ⟨loan, hloan⟩ := Option.isSome_iff_exists.1 (Registry.get?_isSome_iff.2 hl)
  obtain ⟨hback, -⟩ := hsound.of_loan hl
  obtain heq | heq := giveBack_eq hloan now sample <;> rw [heq]
  · have hgone : Silent q p (p.endLoan l.id).writeOff := h.silent rfl le_rfl rfl rfl
    exact hgone.passes (hback.writeOff.passes_refill now)
  · have hshelved : Silent q p ((p.endLoan l.id).shelve now (l.returned loan)) :=
      h.silent rfl le_rfl rfl rfl
    exact hshelved.dispatch (Sound.shelve (x := l.returned loan) hback) now

theorem Withholds.silent_reclaim (h : p.Withholds q) (hsound : p.Sound [])
    (hl : l.id ∈ p.loans.keys) (now : Instant) (sample : Duration) :
    Silent q p (p.reclaim now sample l) := by
  have hback := h.silent_giveBack hsound hl now sample
  obtain heq | ⟨x, heq⟩ := reclaim_eq p now sample l <;> rw [heq]
  · exact hback
  · exact hback.trans (hback.withholds.silent_post_destroy _)

theorem Withholds.silent_discard (h : p.Withholds q) (hsound : p.Sound [])
    (hl : l.id ∈ p.loans.keys) : Silent q p (p.discard l).2 := by
  obtain ⟨loan, hloan⟩ := Option.isSome_iff_exists.1 (Registry.get?_isSome_iff.2 hl)
  obtain ⟨hback, -⟩ := hsound.of_loan hl
  have hgone : Silent q p (p.endLoan l.id).writeOff := h.silent rfl le_rfl rfl rfl
  rw [discard_eq hloan]
  exact hgone.ensureMinimum hback.writeOff

theorem Withholds.silent_creationEnded (h : p.Withholds q) (hsound : p.Sound [])
    (hcreating : 0 < p.creating) (now : Instant) (made : Option ρ) :
    Silent q p (p.creationEnded now made) := by
  cases made with
  | none =>
      have hfailed : Silent q p p.failCreation := h.silent rfl le_rfl rfl rfl
      exact hfailed.dispatch hsound.failCreation now
  | some r =>
      have hshelved : Silent q p (p.endCreation.shelve now (.fresh p.nextResource r now)) :=
        h.silent rfl le_rfl rfl rfl
      exact hshelved.dispatch (hsound.deal_endCreation hcreating now r).sound now

theorem Withholds.silent_validationEnded {x : Pooled ρ} (h : p.Withholds q) (hsound : p.Sound [])
    (hvalidating : 0 < p.validating) (hdistinct : ∀ n, p.tally [x.id] n ≤ 1)
    (hnumbered : x.id < p.nextResource) (now : Instant) (valid : Bool) :
    Silent q p (p.validationEnded now x valid) := by
  cases valid with
  | true =>
      have hended : Silent q p p.endValidation := h.silent rfl le_rfl rfl rfl
      exact hended.trans (hended.withholds.silent_lend now x)
  | false =>
      have hfailed := hsound.failValidation hvalidating hdistinct hnumbered
      have hgone : Silent q p p.failValidation.writeOff := h.silent rfl le_rfl rfl rfl
      have hposted := hgone.trans (hgone.withholds.silent_post_destroy x.condemn)
      exact hposted.passes (hfailed.condemn.passes_refill now)

theorem Withholds.silent_forget (h : p.Withholds q) (hqueue : p.waiting.Wf)
    (handle : QueueHandle) : Silent q p (p.forget handle) := by
  rw [forget]
  split
  · rename_i hremove
    have := hqueue.length_of_remove hremove
    exact h.silent rfl (by dsimp only; omega) rfl rfl
  · exact h.silent_refl

theorem Withholds.silent_withdraw (h : p.Withholds q) (hqueue : p.waiting.Wf)
    (handle : QueueHandle) (timeout : Duration) : Silent q p (p.withdraw handle timeout) := by
  obtain heq | ⟨call, waiting, calls, metrics, hremove, -, heq⟩ :=
    p.withdraw_cases handle timeout <;> rw [heq]
  · exact h.silent_refl
  · have := hqueue.length_of_remove hremove
    exact h.silent rfl (by dsimp only; omega) rfl rfl

/-- A pool that is started asks for the task that evicts, and for nothing else that it withholds. -/
theorem Withholds.start_cases (h : p.Withholds q) (hsound : p.Sound []) :
    p.start = p ∨ p.started = false ∧ p.draining = false ∧ p.start.started = true ∧
      p.start.outbox.countP q ≤ p.outbox.countP q + 1 ∧ p.start.Withholds q := by
  obtain heq | ⟨hstarted, hdraining, heq⟩ := p.start_eq <;> rw [heq]
  · exact .inl rfl
  · have hwake : p.wake.Withholds q := h.of_draining (fun hdraining => hdraining) le_rfl
    have hfill := hwake.silent_refl.ensureMinimum hsound.wake
    refine .inr ⟨hstarted, hdraining, hfill.started, ?_, hfill.withholds⟩
    rw [hfill.outbox, wake, Pool.post, List.countP_append]
    refine Nat.add_le_add_left ?_ _
    split
    · exact Nat.zero_le _
    · exact List.countP_le_length

theorem Withholds.awake_cases (h : p.Withholds q) (hsound : p.Sound []) :
    (if p.started then p else p.start) = p ∨ p.started = false ∧ p.draining = false ∧
      (if p.started then p else p.start).started = true ∧
      (if p.started then p else p.start).outbox.countP q ≤ p.outbox.countP q + 1 ∧
      (if p.started then p else p.start).Withholds q := by
  split
  · exact .inl rfl
  · exact h.start_cases hsound

/-- A request that is accepted asks for nothing that is withheld from all outboxes. -/
theorem Sound.silent_request (hsound : p.Sound []) (hq : ∀ p' : Pool ρ, p'.Withholds q)
    (hcall : call ∉ p.calls.keys) (now : Instant) (priority : Nat) :
    Silent q (if p.started then p else p.start) (p.request now call priority).2 := by
  have hcalls := (alike_awake p).calls
  have hawake := hsound.awake
  obtain ⟨p', hp', ⟨e, heq⟩ | heq⟩ := request_cases p now call priority <;> rw [heq] <;>
    rw [← hp'] at hcalls hawake ⊢
  · exact (hq p').silent_refl
  · have hjoined : Silent q p' (p'.join call priority) := ⟨rfl, rfl, hq _⟩
    exact hjoined.dispatch (hawake.join (hcalls ▸ hcall) priority) now

end Pool

namespace Section

open Pool

variable {p : Pool ρ} {s : Section ρ} {q : Action ρ → Bool}

/-- The action that leaves the outbox to be performed. -/
def performs : Section ρ → List (Action ρ)
  | .launch _ action _ | .abandon _ action _ => [action]
  | .deliver _ _ _ call lease _ => [.deliver call lease]
  | _ => []

theorem countP_perform {before after : List (Action ρ)} {action : Action ρ}
    (houtbox : p.outbox = before ++ action :: after) :
    (before ++ after).countP q + [action].countP q = p.outbox.countP q := by
  rw [houtbox, List.countP_append, List.countP_append, countP_cons_eq_add q action after]
  omega

/-- Actions that a pool withholds leave its outbox when they are performed, and none comes into it
unless the pool is started. -/
theorem outbox_cases (h : p.Withholds q) (hsound : p.Sound []) (hs : s.Ready p) :
    ((s.run p).started = p.started ∧
      (s.run p).outbox.countP q + s.performs.countP q = p.outbox.countP q) ∨
    (p.started = false ∧ p.draining = false ∧ (s.run p).started = true ∧ s.performs = [] ∧
      (s.run p).outbox.countP q ≤ p.outbox.countP q + 1) := by
  -- a section that neither starts the pool nor performs an action is silent
  have hkept : ∀ {p' : Pool ρ}, s.performs = [] → Silent q p p' →
      (p'.started = p.started ∧ p'.outbox.countP q + s.performs.countP q = p.outbox.countP q) ∨
      (p.started = false ∧ p.draining = false ∧ p'.started = true ∧ s.performs = [] ∧
        p'.outbox.countP q ≤ p.outbox.countP q + 1) := by
    intro p' hperforms hsilent
    rw [hperforms]
    exact .inl ⟨hsilent.started, hsilent.outbox⟩
  cases s with
  | start =>
      obtain heq | ⟨hstarted, hdraining, hstarts, hcount, -⟩ := h.start_cases hsound
      · rw [run, heq]
        exact hkept rfl h.silent_refl
      · exact .inr ⟨hstarted, hdraining, hstarts, rfl, hcount⟩
  | request now call priority =>
      obtain hquiet | hnone := h.rest
      · rw [run, hquiet.request]
        exact hkept rfl h.silent_refl
      · have hserved := hsound.silent_request (q := q) (fun _ => ⟨h.destroy, .inr hnone⟩) hs
          now priority
        obtain heq | ⟨hstarted, hdraining, hstarts, hcount, -⟩ := h.awake_cases hsound
        · rw [heq] at hserved
          exact hkept rfl hserved
        · exact .inr ⟨hstarted, hdraining, hserved.started.trans hstarts, rfl,
            hserved.outbox.trans_le hcount⟩
  | withdraw handle timeout => exact hkept rfl (h.silent_withdraw hsound.queue handle timeout)
  | forget handle => exact hkept rfl (h.silent_forget hsound.queue handle)
  | giveBack now sample lease => exact hkept rfl (h.silent_giveBack hsound hs now sample)
  | discard lease => exact hkept rfl (h.silent_discard hsound hs)
  | reclaim now sample lease => exact hkept rfl (h.silent_reclaim hsound hs now sample)
  | creationEnded now made => exact hkept rfl (h.silent_creationEnded hsound hs now made)
  | validationEnded now x valid =>
      exact hkept rfl (h.silent_validationEnded hsound hs.1 hs.2.1 hs.2.2 now valid)
  | evict now => exact hkept rfl (h.passes (hsound.passes_evictSome now _))
  | purge => exact hkept rfl (h.silent rfl (hsound.queue.length_retain_le _) rfl rfl)
  | beginDrain =>
      refine hkept rfl ⟨rfl, rfl, h.of_draining (fun _ => rfl) ?_⟩
      exact hsound.queue.length_retain_le _
  | sweep => exact hkept rfl (h.passes (hsound.passes_sweepSome 0 _))
  | launch before action after => exact .inl ⟨rfl, countP_perform hs.1⟩
  | abandon before action after =>
      have hsame : (run p (.abandon before action after)).started = p.started ∧
          (run p (.abandon before action after)).outbox = before ++ after := by
        rw [run]
        cases action <;> exact ⟨rfl, rfl⟩
      refine .inl ⟨hsame.1, ?_⟩
      rw [hsame.2]
      exact countP_perform hs.1
  | deliver now sample before call lease after =>
      refine .inl ?_
      rw [← countP_perform hs.1]
      obtain ⟨calls, heq, hdeal⟩ | ⟨calls, heq, hdeal⟩ :=
        (hsound.deal_unpost hs.1).sound.deal_deliver call hs.2.2 <;> rw [run] <;> simp only [heq]
      · exact ⟨trivial, rfl⟩
      · -- the caller has gone, so the lease comes back to a pool with an empty outbox
        have hempty : ({ p with outbox := [], calls } : Pool ρ).Withholds q :=
          h.of_draining (fun hdraining => hdraining) le_rfl
        have hback := hempty.silent_reclaim { hdeal.sound with } hs.2.1 now sample
        refine ⟨hback.started, ?_⟩
        rw [List.countP_append, hback.outbox, List.countP_nil, Nat.zero_add]
        rfl
  | _ => exact hkept rfl (h.silent rfl le_rfl rfl rfl)

end Section

end PooledSql
