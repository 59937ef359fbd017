import PooledSql.Proofs.Pool.Orders

/-!
# Provenance

Where the things come from that a pool holds after a section. When a resource was made is written
down with it as long as the pool keeps it, and is copied from one record to the next; actions that
wait go on waiting until they are performed; and a pool that validates resources before it lends
them sends no lease to a caller but when a validation has just ended well.
-/

namespace PooledSql

variable {ρ : Type}

/-- The number of a resource and when it was made. -/
def Pooled.record (x : Pooled ρ) : Nat × Instant := (x.id, x.createdAt)

/-- What an action says of the resources that the pool keeps. -/
def Action.records : Action ρ → List (Nat × Instant)
  | .validate x => [x.record]
  | .evict | .create | .destroy _ | .deliver _ _ => []

namespace Registry

variable {α : Type} {r : Registry α} {key : Nat} {value : α}

theorem entries_erase_subset (r : Registry α) (key : Nat) : (r.erase key).entries ⊆ r.entries :=
  List.filter_subset_self _

theorem entries_insert_subset (r : Registry α) (key : Nat) (value : α) :
    (r.insert key value).entries ⊆ (key, value) :: r.entries :=
  List.cons_subset_cons _ (entries_erase_subset r key)

end Registry

namespace Pool

variable {p p' p'' : Pool ρ} {now : Instant} {x : Pooled ρ} {l : Lease ρ} {hand : List Nat}
variable {held : List (Nat × Instant)}

/-- When the resources were made that are on the shelf, wait to be validated or are on loan. -/
def records (p : Pool ρ) : List (Nat × Instant) :=
  p.available.toList.map Pooled.record ++ (p.outbox.flatMap Action.records ++
    p.loans.entries.map fun entry => (entry.1, entry.2.createdAt))

theorem mem_records {r : Nat × Instant} : r ∈ p.records ↔
    (∃ x ∈ p.available.toList, x.record = r) ∨ (∃ x, .validate x ∈ p.outbox ∧ x.record = r) ∨
      ∃ loan, (r.1, loan) ∈ p.loans.entries ∧ loan.createdAt = r.2 := by
  simp only [Pool.records, List.mem_append, List.mem_map, List.mem_flatMap]
  refine or_congr Iff.rfl (or_congr ?_ ?_)
  · constructor
    · rintro ⟨action, hmem, hr⟩
      cases action <;> simp only [Action.records, List.mem_singleton, List.not_mem_nil] at hr
      exact ⟨_, hmem, hr.symm⟩
    · rintro ⟨x, hmem, rfl⟩
      exact ⟨_, hmem, List.mem_singleton_self _⟩
  · constructor
    · rintro ⟨⟨n, loan⟩, hmem, rfl⟩
      exact ⟨loan, hmem, rfl⟩
    · rintro ⟨loan, hmem, hr⟩
      exact ⟨_, hmem, Prod.ext rfl hr⟩

/-- The records of a pool whose shelf, outbox and loans hold nothing but what was there and what is
known of the resources in hand. -/
theorem records_subset
    (havailable : p'.available.toList.map Pooled.record ⊆
      held ++ p.available.toList.map Pooled.record)
    (houtbox : p'.outbox.flatMap Action.records ⊆ held ++ p.outbox.flatMap Action.records)
    (hloans : (p'.loans.entries.map fun entry => (entry.1, entry.2.createdAt)) ⊆
      held ++ p.loans.entries.map fun entry => (entry.1, entry.2.createdAt)) :
    p'.records ⊆ held ++ p.records := by
  intro r hr
  simp only [records, List.mem_append] at hr ⊢
  obtain hr | hr | hr := hr
  · obtain hr | hr := List.mem_append.1 (havailable hr)
    · exact .inl hr
    · exact .inr (.inl hr)
  · obtain hr | hr := List.mem_append.1 (houtbox hr)
    · exact .inl hr
    · exact .inr (.inr (.inl hr))
  · obtain hr | hr := List.mem_append.1 (hloans hr)
    · exact .inl hr
    · exact .inr (.inr (.inr hr))

/-- What the pool keeps is known from before or of a resource in hand, the actions that waited go on
waiting, and while resources are tested no lease is sent. -/
structure Continues (held : List (Nat × Instant)) (p p' : Pool ρ) : Prop where
  config : p'.config = p.config
  records : p'.records ⊆ held ++ p.records
  outbox : p.outbox ⊆ p'.outbox
  delivering : p.config.testOnBorrow = true → p'.delivering.Sublist p.delivering

theorem Continues.refl (p : Pool ρ) : Continues [] p p :=
  ⟨rfl, List.Subset.refl _, List.Subset.refl _, fun _ => List.Sublist.refl _⟩

theorem Continues.trans (h : Continues held p p') (h' : Continues [] p' p'') :
    Continues held p p'' where
  config := h'.config.trans h.config
  records := List.Subset.trans h'.records h.records
  outbox := List.Subset.trans h.outbox h'.outbox
  delivering htest := (h'.delivering (h.config ▸ htest)).trans (h.delivering htest)

/-- A resource comes to hand on the way. -/
theorem Continues.before (h : Continues [] p p') (h' : Continues held p' p'') :
    Continues held p p'' where
  config := h'.config.trans h.config
  records := List.Subset.trans h'.records (List.append_subset.2 ⟨List.subset_append_left _ _,
    List.Subset.trans h.records (List.subset_append_right _ _)⟩)
  outbox := List.Subset.trans h.outbox h'.outbox
  delivering htest := (h'.delivering (h.config ▸ htest)).trans (h.delivering htest)

/-- What is known of a resource in hand was known of it in the pool. -/
theorem Continues.known (h : Continues held p p') (hheld : held ⊆ p.records) :
    Continues [] p p' where
  config := h.config
  records := List.Subset.trans h.records (List.append_subset.2 ⟨hheld, List.Subset.refl _⟩)
  outbox := h.outbox
  delivering := h.delivering

/-- Nothing has changed of what is held or sent. -/
theorem continues_of_eq (hconfig : p'.config = p.config) (havailable : p'.available = p.available)
    (houtbox : p'.outbox = p.outbox) (hloans : p'.loans = p.loans) : Continues [] p p' where
  config := hconfig
  records := by rw [Pool.records, havailable, houtbox, hloans]; exact List.Subset.refl _
  outbox := by rw [houtbox]; exact List.Subset.refl _
  delivering _ := by rw [Pool.delivering, houtbox]; exact List.Sublist.refl _

/-- An action is put into the outbox that carries no lease and tells of resources in hand. -/
theorem continues_post (actions : List (Action ρ)) (hleases : actions.flatMap Action.leases = [])
    (hrecords : actions.flatMap Action.records ⊆ held) : Continues held p (p.post actions) where
  config := rfl
  records := by
    refine records_subset (List.subset_append_right _ _) ?_ (List.subset_append_right _ _)
    rw [post, List.flatMap_append]
    exact List.append_subset.2 ⟨List.subset_append_right _ _,
      List.Subset.trans hrecords (List.subset_append_left _ _)⟩
  outbox := List.subset_append_left _ _
  delivering _ := by
    rw [Pool.delivering, post, List.flatMap_append, hleases, List.append_nil]
    exact List.Sublist.refl _

/-- A resource in hand is put on the shelf. -/
theorem continues_shelve (hwf : p.available.Wf) (now : Instant) (x : Pooled ρ) :
    Continues [x.record] p (p.shelve now x) where
  config := rfl
  records := by
    refine records_subset ?_ (List.subset_append_right _ _) (List.subset_append_right _ _)
    rw [shelve]
    dsimp only
    split
    · rw [hwf.toList_push, List.map_append]
      exact List.append_subset.2 ⟨List.subset_append_right _ _, List.subset_append_left _ _⟩
    · rw [hwf.toList_unshift, List.map_cons]
      exact List.Subset.refl _
  outbox := List.Subset.refl _
  delivering _ := List.Sublist.refl _

/-- A resource in hand is lent, or put on the shelf. -/
theorem Sound.continues_lend (h : p.Sound hand) (now : Instant) (x : Pooled ρ) :
    (p.lend now x).records ⊆ x.record :: p.records ∧ p.outbox ⊆ (p.lend now x).outbox := by
  obtain ⟨call, waiting, -, -, -, heq⟩ | ⟨waiting, -, -, -, heq⟩ :=
    lend_cases h.queue now x <;> rw [heq]
  · refine ⟨?_, List.subset_append_left _ _⟩
    change _ ⊆ [x.record] ++ p.records
    refine records_subset (List.subset_append_right _ _) ?_ ?_
    · rw [post, List.flatMap_append]
      exact List.append_subset.2 ⟨List.subset_append_right _ _, List.nil_subset _⟩
    · exact List.map_subset _ (Registry.entries_insert_subset p.loans x.id x.loan)
  · have hshelve := continues_shelve (p := { p with waiting }) h.shelf now x
    exact ⟨hshelve.records, hshelve.outbox⟩

/-- The actions that were waiting wait on behind those of a section. -/
theorem Continues.queue (h : Continues [] { p with outbox := [] } p') :
    Continues [] p { p' with outbox := p'.outbox ++ p.outbox } where
  config := h.config
  records := by
    intro r hr
    have hnew : r ∈ p'.records → _ := fun hr => h.records hr
    simp only [Pool.records, List.flatMap_append, List.flatMap_nil, List.nil_append,
      List.mem_append] at hr hnew ⊢
    tauto
  outbox := List.subset_append_right _ _
  delivering htest := by
    have hnone := List.sublist_nil.1 (h.delivering htest)
    rw [Pool.delivering] at hnone
    rw [Pool.delivering, Pool.delivering, List.flatMap_append, hnone]
    exact List.Sublist.refl _

/-! ## Passes -/

theorem Sound.continues_pass (h : p.Sound hand) (hpass : Pass now p p') : Continues [] p p' := by
  -- a resource that is taken from the shelf
  have htake : ∀ {x : Pooled ρ} {rest : Deque (Pooled ρ)} {l r : List (Pooled ρ)},
      p.available.toList = l ++ x :: r → rest.toList = l ++ r →
      Continues [] p { p with available := rest } ∧ [x.record] ⊆ p.records := by
    intro x rest l r before after
    refine ⟨⟨rfl, records_subset ?_ (List.Subset.refl _) (List.Subset.refl _),
      List.Subset.refl _, fun _ => List.Sublist.refl _⟩, ?_⟩
    · rw [before, after]
      exact List.map_subset _ (List.append_subset.2 ⟨List.subset_append_left _ _,
        List.Subset.trans (List.subset_cons_self _ _) (List.subset_append_right _ _)⟩)
    · refine List.cons_subset.2 ⟨mem_records.2 (.inl ⟨x, ?_, rfl⟩), List.nil_subset _⟩
      rw [before]
      exact List.mem_append_right _ List.mem_cons_self
  cases hpass with
  | order room need =>
      have hcount : Continues [] p { p with creating := p.creating + 1 } :=
        continues_of_eq rfl rfl rfl rfl
      exact hcount.trans (continues_post [.create] rfl (List.Subset.refl _))
  | @test x rest shift testing need =>
      obtain ⟨hwf, hlist⟩ := h.shelf.of_shift shift
      obtain ⟨htaken, hrecord⟩ := htake (l := []) hlist rfl
      have hcount : Continues [] { p with available := rest }
          { p with available := rest, validating := p.validating + 1 } :=
        continues_of_eq rfl rfl rfl rfl
      have hpost : Continues [x.record] { p with available := rest, validating := p.validating + 1 }
          _ := continues_post [.validate { x with stage := .validating }] rfl (List.Subset.refl _)
      exact ((htaken.trans hcount).before hpost).known hrecord
  | @lend x rest shift testing =>
      obtain ⟨hwf, hlist⟩ := h.shelf.of_shift shift
      obtain ⟨htaken, hrecord⟩ := htake (l := []) hlist rfl
      obtain ⟨hrecords, houtbox⟩ := (h.of_shift shift).continues_lend now x
      refine ⟨(alike_lend _ _ _).config, ?_, houtbox, fun htest => ?_⟩
      · exact List.Subset.trans hrecords (List.append_subset.2 ⟨hrecord, htaken.records⟩)
      · cases testing.symm.trans htest
  | @cull x rest l r wf before after =>
      have hcount : Continues [] { p with available := rest } { p with
          available := rest
          allObjects := p.allObjects - 1
          destroying := p.destroying + 1 } := continues_of_eq rfl rfl rfl rfl
      exact ((htake before after).1.trans hcount).trans
        (continues_post [.destroy x.condemn] rfl (List.Subset.refl _))
  | note => exact continues_of_eq rfl rfl rfl rfl

theorem Sound.continues_passes (h : p.Sound hand) (hpasses : Passes now p p') :
    Continues [] p p' := by
  induction hpasses with
  | refl => exact .refl p
  | tail hfirst hlast ih => exact ih.trans ((h.passes hfirst).continues_pass hlast)

/-- Passes go on from where the pool has come to. -/
theorem Continues.passes (h : Continues held p p') (hsound : p'.Sound hand)
    (hpasses : Passes now p' p'') : Continues held p p'' :=
  h.trans (hsound.continues_passes hpasses)

theorem Continues.ensureMinimum (h : Continues held p p') (hsound : p'.Sound hand) :
    Continues held p p'.ensureMinimum :=
  h.passes hsound (hsound.passes_ensureMinimum 0)

theorem Continues.dispatch (h : Continues held p p') (hsound : p'.Sound hand) (now : Instant) :
    Continues held p (p'.dispatch now) :=
  h.passes hsound (hsound.passes_dispatch now)

/-! ## Parts of sections -/

theorem Sound.continues_retire (h : p.Sound [x.id]) : Continues [] p (p.retire x) := by
  have hcount : Continues [] p p.writeOff := continues_of_eq rfl rfl rfl rfl
  have hpost := hcount.trans (continues_post [.destroy x.condemn] rfl (List.Subset.refl _))
  exact hpost.ensureMinimum h.condemn

theorem Sound.continues_start (h : p.Sound []) : Continues [] p p.start := by
  obtain heq | ⟨-, -, heq⟩ := p.start_eq <;> rw [heq]
  · exact .refl p
  · have hstart : Continues [] p { p with started := true } := continues_of_eq rfl rfl rfl rfl
    have hwake : Continues [] p p.wake := by
      refine hstart.trans (continues_post _ ?_ ?_) <;> split <;>
        first | rfl | exact List.Subset.refl _
    exact hwake.ensureMinimum h.wake

theorem Sound.continues_request {call : CallId} (h : p.Sound []) (hcall : call ∉ p.calls.keys)
    (now : Instant) (priority : Nat) : Continues [] p (p.request now call priority).2 := by
  have hawake : Continues [] p (if p.started then p else p.start) := by
    split
    · exact .refl p
    · exact h.continues_start
  have hsound := h.awake
  have hcalls := (alike_awake p).calls
  obtain ⟨q, hq, ⟨e, heq⟩ | heq⟩ := request_cases p now call priority <;> rw [heq] <;>
    rw [← hq] at hawake hsound hcalls
  · exact hawake
  · have hjoin : Continues [] q (q.join call priority) := continues_of_eq rfl rfl rfl rfl
    exact (hawake.trans hjoin).dispatch (hsound.join (hcalls ▸ hcall) priority) now

theorem continues_withdraw (p : Pool ρ) (handle : QueueHandle) (timeout : Duration) :
    Continues [] p (p.withdraw handle timeout) := by
  obtain heq | ⟨call, waiting, calls, metrics, -, -, heq⟩ :=
    p.withdraw_cases handle timeout <;> rw [heq]
  · exact .refl p
  · exact continues_of_eq rfl rfl rfl rfl

theorem continues_forget (p : Pool ρ) (handle : QueueHandle) :
    Continues [] p (p.forget handle) := by
  rw [forget]
  split <;> exact continues_of_eq rfl rfl rfl rfl

/-- A loan ends, and the resource is kept in the record that is made again. -/
theorem continues_loan {loan : Loan} (hloan : p.loans.get? l.id = some loan) :
    Continues [] p (p.endLoan l.id) ∧ [(l.returned loan).record] ⊆ p.records := by
  refine ⟨⟨rfl, records_subset (List.Subset.refl _) (List.Subset.refl _) ?_,
    List.Subset.refl _, fun _ => List.Sublist.refl _⟩, ?_⟩
  · exact List.map_subset _ (Registry.entries_erase_subset _ _)
  · refine List.cons_subset.2 ⟨mem_records.2 (.inr (.inr ⟨loan, ?_, rfl⟩)), List.nil_subset _⟩
    exact Registry.mem_entries_of_get? hloan

theorem Sound.continues_giveBack (h : p.Sound []) (hl : l.id ∈ p.loans.keys) (now : Instant)
    (sample : Duration) : Continues [] p (p.giveBack now sample l).2 := by
  obtain ⟨loan, hloan⟩ := Option.isSome_iff_exists.1 (Registry.get?_isSome_iff.2 hl)
  obtain ⟨hback, -⟩ := h.of_loan hl
  obtain ⟨hended, hrecord⟩ := continues_loan hloan
  obtain heq | heq := giveBack_eq hloan now sample <;> rw [heq]
  · have hcount : Continues [] (p.endLoan l.id) (p.endLoan l.id).writeOff :=
      continues_of_eq rfl rfl rfl rfl
    exact (hended.trans hcount).passes hback.writeOff (hback.writeOff.passes_refill now)
  · have hshelve := hended.before (continues_shelve hback.shelf now (l.returned loan))
    exact (hshelve.known hrecord).dispatch (Sound.shelve (x := l.returned loan) hback) now

theorem Sound.continues_discard (h : p.Sound []) (hl : l.id ∈ p.loans.keys) :
    Continues [] p (p.discard l).2 := by
  obtain ⟨loan, hloan⟩ := Option.isSome_iff_exists.1 (Registry.get?_isSome_iff.2 hl)
  obtain ⟨hback, -⟩ := h.of_loan hl
  have hcount : Continues [] (p.endLoan l.id) (p.endLoan l.id).writeOff :=
    continues_of_eq rfl rfl rfl rfl
  rw [discard_eq hloan]
  exact ((continues_loan hloan).1.trans hcount).ensureMinimum hback.writeOff

theorem Sound.continues_reclaim (h : p.Sound []) (hl : l.id ∈ p.loans.keys) (now : Instant)
    (sample : Duration) : Continues [] p (p.reclaim now sample l) := by
  have hback := h.continues_giveBack hl now sample
  obtain heq | ⟨x, heq⟩ := reclaim_eq p now sample l <;> rw [heq]
  · exact hback
  · exact hback.trans (continues_post [.destroy x] rfl (List.Subset.refl _))

end Pool

namespace Section

open Pool

variable {p p' p'' : Pool ρ} {s : Section ρ} {now : Instant} {sample : Duration} {l : Lease ρ}
variable {x : Pooled ρ}

/-- What is known of the resource that comes into the pool. -/
def brings (p : Pool ρ) : Section ρ → List (Nat × Instant)
  | .creationEnded now (some _) => [(p.nextResource, now)]
  | .validationEnded _ x _ => [x.record]
  | _ => []

/-- A validation has ended well. -/
def approves : Section ρ → Bool
  | .validationEnded _ _ valid => valid
  | _ => false

/-- What a pool holds after a section comes from before, or the section brings it. -/
structure Continues (p : Pool ρ) (s : Section ρ) (p' : Pool ρ) : Prop where
  config : p'.config = p.config
  records : p'.records ⊆ s.brings p ++ p.records
  outbox : ∀ action ∈ p.outbox, action ∈ p'.outbox ∨ action ∈ s.performs
  delivering : p.config.testOnBorrow = true → s.approves = false →
    p'.delivering.Sublist p.delivering

theorem continues_of_pool {held : List (Nat × Instant)} (h : Pool.Continues held p p')
    (hheld : held ⊆ s.brings p) : s.Continues p p' where
  config := h.config
  records := List.Subset.trans h.records
    (List.append_subset.2 ⟨List.Subset.trans hheld (List.subset_append_left _ _),
      List.subset_append_right _ _⟩)
  outbox _ hmem := .inl (h.outbox hmem)
  delivering htest _ := h.delivering htest

theorem Continues.trans (h : s.Continues p p') (h' : Pool.Continues [] p' p'') :
    s.Continues p p'' where
  config := h'.config.trans h.config
  records := List.Subset.trans h'.records h.records
  outbox action hmem := (h.outbox action hmem).imp_left fun hmem => h'.outbox hmem
  delivering htest happroves :=
    (h'.delivering (h.config ▸ htest)).trans (h.delivering htest happroves)

theorem continues_creationEnded (h : p.Sound []) (hcreating : 0 < p.creating) (now : Instant)
    (made : Option ρ) : (creationEnded now made).Continues p (p.creationEnded now made) := by
  cases made with
  | none =>
      have hcount : Pool.Continues [] p p.failCreation := continues_of_eq rfl rfl rfl rfl
      exact continues_of_pool (hcount.dispatch h.failCreation now) (List.nil_subset _)
  | some r =>
      have hcount : Pool.Continues [] p p.endCreation := continues_of_eq rfl rfl rfl rfl
      have hshelve := hcount.before
        (continues_shelve (h.endCreation hcreating).shelf now (.fresh p.nextResource r now))
      have hshelved := (h.deal_endCreation hcreating now r).sound
      exact continues_of_pool (hshelve.dispatch hshelved now) (List.Subset.refl _)

theorem continues_validationEnded {valid : Bool} (h : p.Sound [])
    (hx : (validationEnded now x valid).Ready p) :
    (validationEnded now x valid).Continues p (p.validationEnded now x valid) := by
  obtain ⟨hvalidating, hdistinct, hnumbered⟩ := hx
  cases valid with
  | true =>
      have hended := h.endValidation hvalidating hdistinct hnumbered
      obtain ⟨hrecords, houtbox⟩ := hended.continues_lend now x
      exact ⟨(alike_lend _ now x).config, hrecords, fun _ hmem => .inl (houtbox hmem),
        fun _ h => by cases h⟩
  | false =>
      have hfailed := h.failValidation hvalidating hdistinct hnumbered
      have hcount : Pool.Continues [] p p.failValidation := continues_of_eq rfl rfl rfl rfl
      have hretire := hcount.trans hfailed.continues_retire
      exact continues_of_pool (hretire.dispatch hfailed.deal_retire.sound now) (List.nil_subset _)

/-- An action leaves the outbox, and what it tells of a resource is not known any more. -/
theorem continues_unpost {before after : List (Action ρ)} {action : Action ρ}
    (houtbox : p.outbox = before ++ action :: after) (hperforms : action ∈ s.performs)
    (hconfig : p'.config = p.config) (havailable : p'.available = p.available)
    (hloans : p'.loans = p.loans) (houtbox' : p'.outbox = before ++ after) : s.Continues p p' where
  config := hconfig
  records := by
    have hsubset : p'.records ⊆ [] ++ p.records := by
      refine records_subset ?_ ?_ ?_
      · rw [havailable]
        exact List.Subset.refl _
      · rw [houtbox, houtbox', List.flatMap_append, List.flatMap_append, List.flatMap_cons]
        exact List.append_subset.2 ⟨List.subset_append_left _ _, List.Subset.trans
          (List.subset_append_right _ _) (List.subset_append_right _ _)⟩
      · rw [hloans]
        exact List.Subset.refl _
    exact List.Subset.trans hsubset (List.subset_append_right _ _)
  outbox other hmem := by
    rw [houtbox, List.mem_append, List.mem_cons] at hmem
    rw [houtbox', List.mem_append]
    obtain hmem | rfl | hmem := hmem
    · exact .inl (.inl hmem)
    · exact .inr hperforms
    · exact .inl (.inr hmem)
  delivering _ _ := by
    rw [Pool.delivering, Pool.delivering, houtbox, houtbox', List.flatMap_append,
      List.flatMap_append, List.flatMap_cons]
    exact (List.Sublist.refl _).append (List.sublist_append_right _ _)

/-- A lease leaves the outbox. If it comes back, what its return puts into the outbox goes before
the actions that waited. -/
theorem continues_deliver {before after : List (Action ρ)} {call : CallId} (h : p.Sound [])
    (hs : (deliver now sample before call l after).Ready p) :
    (deliver now sample before call l after).Continues p
      (run p (.deliver now sample before call l after)) := by
  obtain ⟨houtbox, hl, hlender⟩ := hs
  rw [run]
  obtain ⟨calls, heq, -⟩ | ⟨calls, heq, hdeal⟩ :=
      (h.deal_unpost houtbox).sound.deal_deliver call hlender <;>
    simp only [heq]
  · exact continues_unpost houtbox List.mem_cons_self rfl rfl rfl rfl
  · have hempty : ({ p with outbox := [], calls } : Pool ρ).Sound [] := { hdeal.sound with }
    have hunpost : (deliver now sample before call l after).Continues p
        { p with outbox := before ++ after, calls } :=
      continues_unpost houtbox List.mem_cons_self rfl rfl rfl rfl
    exact hunpost.trans (hempty.continues_reclaim hl now sample).queue

/-- Every section leaves the pool with what was there and what it brings. -/
theorem continues (h : p.Sound []) (hs : s.Ready p) : s.Continues p (s.run p) := by
  have hkept : ∀ {p' : Pool ρ}, Pool.Continues [] p p' → s.Continues p p' :=
    fun hcontinues => continues_of_pool hcontinues (List.nil_subset _)
  cases s with
  | request now call priority => exact hkept (h.continues_request hs now priority)
  | start => exact hkept h.continues_start
  | withdraw handle timeout => exact hkept (continues_withdraw p handle timeout)
  | forget handle => exact hkept (continues_forget p handle)
  | giveBack now sample lease => exact hkept (h.continues_giveBack hs now sample)
  | discard lease => exact hkept (h.continues_discard hs)
  | reclaim now sample lease => exact hkept (h.continues_reclaim hs now sample)
  | creationEnded now made => exact continues_creationEnded h hs now made
  | validationEnded now x valid => exact continues_validationEnded h hs
  | evict now => exact hkept (h.continues_passes (h.passes_evictSome now _))
  | sweep => exact hkept (h.continues_passes (h.passes_sweepSome 0 _))
  | launch before action after =>
      exact continues_unpost hs.1 List.mem_cons_self rfl rfl rfl rfl
  | abandon before action after =>
      rw [run]
      cases action <;> exact continues_unpost hs.1 List.mem_cons_self rfl rfl rfl rfl
  | deliver now sample before call lease after => exact continues_deliver h hs
  | _ => exact hkept (continues_of_eq rfl rfl rfl rfl)

/-- A validation that ends well lends the resource, or puts it on the shelf when nobody waits. -/
theorem approved_cases (h : p.Sound []) (hs : (validationEnded now x true).Ready p) :
    (∃ call, (run p (.validationEnded now x true)).outbox =
        p.outbox ++ [.deliver call (x.lease p.id)]) ∨
      (run p (.validationEnded now x true)).outbox = p.outbox := by
  have hended := h.endValidation hs.1 hs.2.1 hs.2.2
  rw [run, validationEnded_true]
  obtain ⟨call, waiting, -, -, -, heq⟩ | ⟨waiting, -, -, -, heq⟩ :=
    lend_cases hended.queue now x <;> rw [heq]
  · exact .inl ⟨call, rfl⟩
  · exact .inr rfl

/-- A resource that was found to be bad is to be destroyed. -/
theorem destroy_mem_rejected (h : p.Sound [])
    (hs : (validationEnded now x false).Ready p) :
    .destroy x.condemn ∈ (run p (.validationEnded now x false)).outbox := by
  have hcondemned := (h.failValidation hs.1 hs.2.1 hs.2.2).condemn
  have hrefilled := (Continues.refl _).passes hcondemned (hcondemned.passes_refill now)
  exact hrefilled.outbox (List.mem_append_right _ (List.mem_singleton_self _))

end Section

end PooledSql
