import PooledSql.Proofs.Simulation.Tokens

/-!
# The ledger

A `Ledger` ties the trace of a run to the scene: on every account, what the books of a pool say and
what was ever made is what the pool has, what is outside, and what is gone. The rest of it says
that tasks, labels and numbers are not mixed up. From it follows that every section that a move
can bring about is ready.
-/

namespace PooledSql

/-- The tokens that came into being in a trace. -/
def sources (trace : List Deed) : List Tag := trace.flatMap Deed.sources

/-- The tokens that went in a trace. -/
def sinks (trace : List Deed) : List Tag := trace.flatMap Deed.sinks

/-- The task awaits the answer to its request. -/
def Phase.awaits : Phase → Bool
  | .await _ _ _ | .withdraw _ _ _ | .lastLook _ _ | .forget _ | .hangUp _ => true
  | _ => false

/-- A task that somebody called for can be in this phase. -/
def Phase.isCalled : Phase → Bool
  | .forget _ | .create | .creation _ _ | .validate _ | .validation _ _ _ | .evict _ => false
  | _ => true

/-- The books of pools on an account; those of a pool that there is not are empty. -/
def Scene.book (s : Scene) (index : Nat) (a : Account Nat) : Nat :=
  (s.pools[index]?.map fun p => p.book (a.comap (·.number))).getD 0

/-- How many tokens a pool has. -/
def Scene.inside (s : Scene) (index : Nat) (a : Account Nat) : Nat :=
  (s.pools[index]?.map fun p => p.tokens.countP (a.comap (·.number)).covers).getD 0

/-- A sound pool in its place; the leases on their way to callers are its own. -/
structure Pool.Placed (i : Nat) (p : Pool Connection) : Prop where
  sound : p.Sound []
  id : p.id = i
  lender : ∀ l, l ∈ p.delivering ∨ l ∈ p.unreceived → l.pool = i

/-- A task of the pool awaits the answer to the call. -/
def Scene.Awaits (s : Scene) (i : Nat) (call : CallId) : Prop :=
  ∃ task, s.tasks.get? call = some task ∧ task.pool = i ∧ task.phase.awaits = true

/-- Tasks and labels are in order. -/
structure Scene.Orderly (s : Scene) : Prop where
  tasks : s.tasks.keys.Nodup
  fresh : ∀ id ∈ s.tasks.keys, id < s.nextTask
  labels : (s.leases.map (·.1)).Nodup
  called : ∀ id task, s.tasks.get? id = some task → task.label.isSome = true →
    task.phase.isCalled = true
  awaited : ∀ (i : Nat) (p : Pool Connection), s.pools[i]? = some p → ∀ call ∈ p.calls.keys,
    s.Awaits i call

/-- The trace of a run and the scene at its end fit together. -/
structure Ledger (trace : List Deed) (s : Scene) : Prop extends s.Orderly where
  placed : ∀ (i : Nat) (p : Pool Connection), s.pools[i]? = some p → p.Placed i
  balance : ∀ i a, s.book i a + (sources trace).countP (a.at i) =
    s.inside i a + s.outside.countP (a.at i) + (sinks trace).countP (a.at i)
  /-- No number is given to two resources. -/
  once : ∀ i n, (sources trace).countP ((Account.resources (·.1 == n)).at i) ≤ 1
  numbered : ∀ i n, 0 < (sources trace).countP ((Account.resources (·.1 == n)).at i) →
    ∃ p, s.pools[i]? = some p ∧ n < p.nextResource

/-! ## Sources and sinks -/

theorem sources_append (trace : List Deed) (d : Deed) :
    sources (trace ++ [d]) = sources trace ++ d.sources := by
  simp [sources]

theorem sinks_append (trace : List Deed) (d : Deed) :
    sinks (trace ++ [d]) = sinks trace ++ d.sinks := by
  simp [sinks]

/-- Only resources come into being. -/
theorem countP_sources_eq_zero {a : Account Nat} (h : ∀ x, a.covers (.resource x) = false)
    (i : Nat) (trace : List Deed) : (sources trace).countP (a.at i) = 0 := by
  rw [List.countP_eq_zero]
  intro t ht
  simp only [sources, Deed.sources, List.mem_flatMap] at ht
  obtain ⟨d, -, e, -, ht⟩ := ht
  cases e <;> simp only [Event.sources, List.mem_singleton, List.not_mem_nil] at ht
  subst ht
  simp [Account.at, h]

/-- Only resources go, and duties to destroy. -/
theorem countP_sinks_eq_zero {a : Account Nat} (h : ∀ x, a.covers (.resource x) = false)
    (h' : a.covers .destruction = false) (i : Nat) (trace : List Deed) :
    (sinks trace).countP (a.at i) = 0 := by
  rw [List.countP_eq_zero]
  intro t ht
  simp only [sinks, Deed.sinks, List.mem_flatMap] at ht
  obtain ⟨d, -, e, -, ht⟩ := ht
  cases e <;> simp only [Event.sinks, List.mem_singleton, List.not_mem_nil] at ht <;> subst ht <;>
    simp [Account.at, h, h']

/-- A resource of the number that is not on loan. -/
def Token.isFree {ρ : Type} (n : Nat) : Token ρ → Bool
  | .resource x => x.1 == n
  | _ => false

theorem countP_eq_add_of_disjoint {α : Type} {l : List α} {a b c : α → Bool}
    (h : ∀ t, (a t).toNat = (b t).toNat + (c t).toNat) : l.countP a = l.countP b + l.countP c := by
  induction l with
  | nil => rfl
  | cons t l ih =>
      have := h t
      simp only [List.countP_cons]
      cases ha : a t <;> cases hb : b t <;> cases hc : c t <;> simp_all <;> omega

namespace Ledger

variable {trace : List Deed} {s : Scene} {i : Nat} {p : Pool Connection}

theorem balance_pool (h : Ledger trace s) (hp : s.pools[i]? = some p) (a : Account Nat) :
    p.book (a.comap (·.number)) + (sources trace).countP (a.at i) =
      p.tokens.countP (a.comap (·.number)).covers + s.outside.countP (a.at i) +
        (sinks trace).countP (a.at i) := by
  have := h.balance i a
  simpa [Scene.book, Scene.inside, hp] using this

/-- A token outside is one of those that the books are about. -/
theorem book_pos (h : Ledger trace s) (hp : s.pools[i]? = some p) {a : Account Nat}
    (ha : ∀ x, a.covers (.resource x) = false)
    (hout : 0 < s.outside.countP (a.at i)) : 0 < p.book (a.comap (·.number)) := by
  have := h.balance_pool hp a
  have := countP_sources_eq_zero ha i trace
  omega

/-- The lender of a lease outside is there and has the loan. -/
theorem loan_of_outside (h : Ledger trace s) {l : Lease Connection}
    (hl : (l.pool, .lease (l.id, l.resource.number)) ∈ s.outside) :
    ∃ p, s.pools[l.pool]? = some p ∧ l.id ∈ p.loans.keys := by
  have ha : ∀ x, (Account.leases l.id : Account Nat).covers (.resource x) = false := fun _ => rfl
  have hout : 0 < s.outside.countP ((Account.leases l.id).at l.pool) :=
    List.countP_pos_iff.2 ⟨_, hl, by simp [Account.at, Account.covers]⟩
  cases hp : s.pools[l.pool]? with
  | none =>
      have := h.balance l.pool (.leases l.id)
      have := countP_sources_eq_zero ha l.pool trace
      simp only [Scene.book, Scene.inside, hp, Option.map_none, Option.getD_none] at *
      omega
  | some p => exact ⟨p, rfl, countP_eq_pos_iff.1 (h.book_pos hp ha hout)⟩

/-- A resource that is being validated is nowhere else. -/
theorem ready_validation (h : Ledger trace s) (hp : s.pools[i]? = some p) {x : Pooled Connection}
    (hresource : (i, .resource x.mark) ∈ s.outside) (hvalidation : (i, .validation) ∈ s.outside)
    (now : Instant) (valid : Bool) : (Section.validationEnded now x valid).Ready p := by
  have hvalidating : 0 < p.validating := h.book_pos (a := .validations) hp (fun _ => rfl)
    (List.countP_pos_iff.2 ⟨_, hvalidation, by simp [Account.at, Account.covers]⟩)
  -- every place of a number is counted among the resources, of which there is at most one
  have hplaces : ∀ n, p.tally [x.id] n ≤
      (sources trace).countP ((Account.resources (·.1 == n)).at i) := by
    intro n
    have hall := h.balance_pool hp (.resources (·.1 == n))
    have hleases := h.balance_pool hp (.leases n)
    have hnone : (sources trace).countP ((Account.leases n).at i) = 0 :=
      countP_sources_eq_zero (fun _ => rfl) i trace
    have hkept : (sinks trace).countP ((Account.leases n).at i) = 0 :=
      countP_sinks_eq_zero (fun _ => rfl) rfl i trace
    have hinside := countP_eq_add_of_disjoint (l := p.tokens)
      (a := ((Account.resources (·.1 == n)).comap (·.number)).covers)
      (b := Token.isFree n) (c := ((Account.leases n).comap (·.number)).covers)
      (fun t => by cases t <;> simp [Account.comap, Account.covers, Token.isFree])
    have houtside := countP_eq_add_of_disjoint (l := s.outside)
      (a := (Account.resources (·.1 == n)).at i)
      (b := fun t => t.1 == i && t.2.isFree n) (c := (Account.leases n).at i)
      (fun t => by
        obtain ⟨j, t⟩ := t
        cases t <;> simp [Account.at, Account.covers, Token.isFree])
    have hshelf : p.shelf.countP (·.1 == n) ≤ p.tokens.countP (Token.isFree n) := by
      rw [Pool.tokens, List.countP_append, List.countP_map]
      exact Nat.le_add_right _ _
    have hhand : [x.id].countP (· == n) ≤ s.outside.countP fun t => t.1 == i && t.2.isFree n := by
      by_cases hn : x.id = n
      · have : 0 < s.outside.countP fun t => t.1 == i && t.2.isFree n :=
          List.countP_pos_iff.2 ⟨_, hresource, by simp [Token.isFree, Pooled.mark, hn]⟩
        exact List.countP_le_length.trans this
      · simp [hn]
    simp only [Pool.tally, Account.comap, Pool.book] at *
    omega
  refine ⟨hvalidating, fun n => (hplaces n).trans (h.once i n), ?_⟩
  have hpos : 0 < p.tally [x.id] x.id := by simp [Pool.tally]
  obtain ⟨p', hp', hlt⟩ := h.numbered i x.id (hpos.trans_le (hplaces x.id))
  cases hp.symm.trans hp'
  exact hlt

end Ledger

end PooledSql
