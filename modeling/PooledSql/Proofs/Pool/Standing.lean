import PooledSql.Proofs.Collections.Generations
import PooledSql.Proofs.Pool.Conservation

/-!
# Where requests stand

A request that was accepted is queued, or a lease is on its way to its caller, or the lease has
come, or its time was up. `Pool.Standing` says which, together with what the handle of the request
means, and `Pool.Attended` that the queue agrees with the answers. From one pool to the next,
`Pool.Minds` says that the requests of all callers but one go on standing.
-/

namespace PooledSql

variable {ρ : Type}

/-- The calls that the lease of an action is for. -/
def Action.calls : Action ρ → List CallId
  | .deliver call _ => [call]
  | _ => []

theorem Action.calls_of_leases {action : Action ρ} (h : action.leases = []) :
    action.calls = [] := by
  cases action with
  | deliver call l => cases h
  | _ => rfl

namespace Deferred

variable {ε α : Type}

/-- Settled with a value that was not received yet. -/
def given (value : α) : Deferred ε α where
  status := .fulfilled
  settling := .used
  message := some (.ok value)

/-- Settled with an error that was not received yet. -/
def refused (error : ε) : Deferred ε α where
  status := .rejected
  settling := .used
  message := some (.error error)

/-- It is open, or it was settled and the message was not received yet. -/
def IsPlain (d : Deferred ε α) : Prop :=
  d = {} ∨ (∃ value, d = given value) ∨ ∃ error, d = refused error

@[simp] theorem resolve_open (value : α) :
    ({} : Deferred ε α).resolve value = (none, given value) := rfl
@[simp] theorem resolve_given (value other : α) :
    (given value : Deferred ε α).resolve other = (some other, given value) := rfl
@[simp] theorem resolve_refused (error : ε) (value : α) :
    (refused error : Deferred ε α).resolve value = (some value, refused error) := rfl
@[simp] theorem reject_open (error : ε) :
    ({} : Deferred ε α).reject error = (true, refused error) := rfl

theorem IsPlain.resolve {d : Deferred ε α} (h : d.IsPlain) (value : α) :
    (d.resolve value).2.IsPlain := by
  obtain rfl | ⟨other, rfl⟩ | ⟨error, rfl⟩ := h
  · exact .inr (.inl ⟨value, rfl⟩)
  · exact .inr (.inl ⟨other, rfl⟩)
  · exact .inr (.inr ⟨error, rfl⟩)

end Deferred

namespace Pool

variable {p p' p'' : Pool ρ} {call : CallId} {handle : Option QueueHandle} {k : QueueHandle}

/-- The calls that a lease is on its way to. -/
def owed (p : Pool ρ) : List CallId := p.outbox.flatMap Action.calls

theorem owed_post (p : Pool ρ) (actions : List (Action ρ)) :
    (p.post actions).owed = p.owed ++ actions.flatMap Action.calls := List.flatMap_append

/-- The request is not queued any more, and will not be taken for another one. -/
structure Left (p : Pool ρ) (call : CallId) (handle : Option QueueHandle) : Prop where
  queue : call ∉ p.waiting.toList
  spent : ∀ k, handle = some k → p.waiting.Spent k

/-- Such a request does not come back when the queue ages. -/
theorem Left.ages {gone : CallId → Prop} (h : p.Left call handle)
    (hmem : call ∈ p'.waiting.toList → call ∈ p.waiting.toList)
    (hages : p.waiting.Ages gone p'.waiting) : p'.Left call handle where
  queue hcall := h.queue (hmem hcall)
  spent k hk := hages.spent (h.spent k hk)

/-- Where the request of a call stands that has a handle, or had one. -/
inductive Standing (p : Pool ρ) (call : CallId) (handle : Option QueueHandle) : Prop where
  | queued {k : QueueHandle} (hhandle : handle = some k) (hqueue : p.waiting.get? k = some call)
  | owed (hleft : p.Left call handle) (howed : call ∈ p.owed) (hopen : p.calls.get? call = some {})
  | given {lease : Lease ρ} (hleft : p.Left call handle)
      (hgiven : p.calls.get? call = some (.given lease))
  /-- Its time was up while it was queued, and it has no handle any more. -/
  | refused {timeout : Duration} (hhandle : handle = none)
      (htimeout : p.config.acquireTimeout = some timeout) (hleft : p.Left call handle)
      (hrefused : p.calls.get? call = some (.refused (.acquireTimeout timeout)))

/-- A request stands where it did when nothing has changed for it. -/
theorem Standing.mono {gone : CallId → Prop} (h : p.Standing call handle)
    (hconfig : p'.config = p.config)
    (hmem : call ∈ p'.waiting.toList → call ∈ p.waiting.toList)
    (hages : p.waiting.Ages gone p'.waiting) (hgone : ¬ gone call)
    (howed : call ∈ p.owed → call ∈ p'.owed)
    (hcalls : p'.calls.get? call = p.calls.get? call) : p'.Standing call handle := by
  cases h with
  | queued hhandle hqueue =>
      exact .queued hhandle ((hages.get? hqueue).resolve_right fun h => hgone h.1)
  | owed hleft hmem' hopen => exact .owed (hleft.ages hmem hages) (howed hmem') (hcalls.trans hopen)
  | given hleft hgiven => exact .given (hleft.ages hmem hages) (hcalls.trans hgiven)
  | refused hhandle htimeout hleft hrefused =>
      exact .refused hhandle (hconfig ▸ htimeout) (hleft.ages hmem hages) (hcalls.trans hrefused)

theorem Standing.of_waiting_eq (h : p.Standing call handle) (hconfig : p'.config = p.config)
    (hwaiting : p'.waiting = p.waiting) (howed : call ∈ p.owed → call ∈ p'.owed)
    (hcalls : p'.calls.get? call = p.calls.get? call) : p'.Standing call handle := by
  have hages : p.waiting.Ages (fun _ => False) p'.waiting := hwaiting ▸ .refl _
  exact h.mono hconfig (fun hmem => hwaiting ▸ hmem) hages not_false howed hcalls

/-- All who are in the queue are there once, their callers await the answers, and no lease is on
its way to them. -/
structure Attended (p : Pool ρ) : Prop where
  wf : p.waiting.Wf
  slots : p.waiting.slots.length = p.config.priorityRange
  nodup : p.waiting.toList.Nodup
  pending : ∀ call ∈ p.waiting.toList, p.calls.get? call = some {}
  unowed : ∀ call ∈ p.waiting.toList, call ∉ p.owed
  plain : ∀ {call answer}, p.calls.get? call = some answer → answer.IsPlain

theorem isPending_of_get? {answer : Deferred PoolError (Lease ρ)}
    (h : p.calls.get? call = some answer) : p.isPending call = answer.isPending := by
  rw [isPending, h]

theorem Attended.isPending (h : p.Attended) (hcall : call ∈ p.waiting.toList) :
    p.isPending call = true :=
  isPending_of_get? (h.pending call hcall)

theorem Attended.mem_calls (h : p.Attended) (hcall : call ∈ p.waiting.toList) :
    call ∈ p.calls.keys :=
  Registry.mem_keys_of_get? (h.pending call hcall)

theorem attended_idle (id : Nat) (config : PoolConfig) (policy : EvictionPolicy)
    (recycling : Option RecyclingConfig) :
    (idle id config policy recycling : Pool ρ).Attended := by
  have hwf : (idle id config policy recycling : Pool ρ).waiting.Wf :=
    PriorityQueue.wf_ofSlots _
  have hempty : (idle id config policy recycling : Pool ρ).waiting.toList = [] :=
    PriorityQueue.toList_ofSlots _
  have hslots : (idle id config policy recycling : Pool ρ).waiting.slots.length =
      config.normalize.priorityRange := by
    have hpos := config.isNormal_normalize.priorityRange_pos
    simp only [idle, PriorityQueue.ofSlots, List.length_cons, List.length_replicate]
    omega
  exact ⟨hwf, hslots, by simp [hempty], by simp [hempty], by simp [hempty], fun h => by cases h⟩

/-! ## Bystanders -/

/-- From one pool to the next, with one caller at most who brings it about: the queue goes on being
attended, the requests of all others go on standing, and nobody else comes into the queue. -/
structure Minds (caller : Option CallId) (p p' : Pool ρ) : Prop where
  config : p'.config = p.config
  attended : p'.Attended
  standing : ∀ {call handle}, some call ≠ caller → p.Standing call handle →
    p'.Standing call handle
  given : ∀ {call lease}, some call ≠ caller → p.calls.get? call = some (.given lease) →
    p'.calls.get? call = some (.given lease)
  waiting : ∀ call ∈ p'.waiting.toList, call ∈ p.waiting.toList ∨ some call = caller
  owed : ∀ call ∈ p'.owed, call ∈ p.owed ∨ call ∈ p.waiting.toList ∨ some call = caller

theorem Minds.trans {caller : Option CallId} (h : Minds caller p p') (h' : Minds caller p' p'') :
    Minds caller p p'' where
  config := h'.config.trans h.config
  attended := h'.attended
  standing hne hs := h'.standing hne (h.standing hne hs)
  given hne hgiven := h'.given hne (h.given hne hgiven)
  waiting call hcall := (h'.waiting call hcall).elim (h.waiting call) .inr
  owed call hcall := by
    obtain hcall | hcall | hcall := h'.owed call hcall
    · exact h.owed call hcall
    · exact .inr (h.waiting call hcall)
    · exact .inr (.inr hcall)

theorem Minds.mono {caller : Option CallId} (h : Minds none p p') : Minds caller p p' where
  config := h.config
  attended := h.attended
  standing _ hs := h.standing nofun hs
  given _ hgiven := h.given nofun hgiven
  waiting call hcall := (h.waiting call hcall).imp_right nofun
  owed call hcall := (h.owed call hcall).imp_right fun h => h.imp_right nofun

end Pool

end PooledSql
