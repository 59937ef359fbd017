import PooledSql.Proofs.Pool.Inventory

/-!
# Exchange

A critical section takes something from the world outside the pool and gives something back: a
resource, a lease, the duty to make, validate or destroy. Such things are counted as tokens. A
pool has tokens of its own, on the shelf and in actions and answers that are on their way, and
books that say how many there must be. `Pool.Exchange` says of a change of the pool that the books
move with the tokens, whichever kind is counted.
-/

namespace PooledSql

variable {ρ : Type}

/-- What is counted. Resources are named by their numbers. -/
inductive Token (ρ : Type) where
  /-- A resource that is not on loan. -/
  | resource (x : Nat × ρ)
  | lease (x : Nat × ρ)
  /-- A task that makes, validates or destroys a resource, begun or still to be started. -/
  | creation
  | validation
  | destruction

/-- What a count is about. -/
inductive Account (ρ : Type) where
  /-- The resources that pass a test, on loan or not. -/
  | resources (q : Nat × ρ → Bool)
  /-- The leases of a number. -/
  | leases (n : Nat)
  | creations
  | validations
  | destructions

/-- The token counts. -/
def Account.covers : Account ρ → Token ρ → Bool
  | .resources q, .resource x | .resources q, .lease x => q x
  | .leases n, .lease x => x.1 == n
  | .creations, .creation | .validations, .validation | .destructions, .destruction => true
  | _, _ => false

/-- The tokens that an action carries. -/
def Action.tokens : Action ρ → List (Token ρ)
  | .evict => []
  | .create => [.creation]
  | .validate x => [.resource x.item, .validation]
  | .destroy x => [.resource x.item, .destruction]
  | .deliver _ l => [.lease l.item]

namespace Pool

variable {p p' p'' : Pool ρ} {now : Instant} {x : Pooled ρ} {rest : Deque (Pooled ρ)}
variable {hand hand' hand'' : List (Token ρ)}

/-- The tokens of a pool. -/
def tokens (p : Pool ρ) : List (Token ρ) :=
  p.shelf.map .resource ++ (p.outbox.flatMap Action.tokens ++
    p.unreceived.map fun l => .lease l.item)

/-- What the books of a pool say on an account. There is no book of resources. -/
def book (p : Pool ρ) : Account ρ → Nat
  | .resources _ => 0
  | .leases n => p.loans.keys.countP (· == n)
  | .creations => p.creating
  | .validations => p.validating
  | .destructions => p.destroying

/-- From one pool, with tokens in hand, to another: on every account, the books have changed by as
much as the tokens. -/
structure Exchange (hand : List (Token ρ)) (p : Pool ρ) (hand' : List (Token ρ)) (p' : Pool ρ) :
    Prop where
  balance : ∀ a : Account ρ,
    p'.book a + (hand.countP a.covers + p.tokens.countP a.covers) =
      p.book a + (hand'.countP a.covers + p'.tokens.countP a.covers)
  /-- The leases on their way were lent by the pool. -/
  lender : ∀ l, l ∈ p'.delivering ∨ l ∈ p'.unreceived →
    l ∈ p.delivering ∨ l ∈ p.unreceived ∨ l.pool = p.id
  id : p'.id = p.id

theorem Exchange.refl (hand : List (Token ρ)) (p : Pool ρ) : Exchange hand p hand p :=
  ⟨fun _ => rfl, fun _ hl => hl.imp_right .inl, rfl⟩

theorem Exchange.trans (h : Exchange hand p hand' p') (h' : Exchange hand' p' hand'' p'') :
    Exchange hand p hand'' p'' where
  balance a := by
    have := h.balance a
    have := h'.balance a
    omega
  lender l hl := by
    rcases h'.lender l hl with hl | hl | hl
    · exact h.lender l (.inl hl)
    · exact h.lender l (.inr hl)
    · exact .inr (.inr (hl.trans h.id))
  id := h'.id.trans h.id

/-- Tokens that stay in hand do not matter. -/
theorem Exchange.frame (h : Exchange hand p hand' p') (kept : List (Token ρ)) :
    Exchange (kept ++ hand) p (kept ++ hand') p' where
  balance a := by
    have := h.balance a
    simp only [List.countP_append]
    omega
  lender := h.lender
  id := h.id

/-! ## Small exchanges -/

/-- The books and what is in hand have changed, but nothing that the pool holds. -/
theorem exchange_books (havailable : p'.available = p.available) (houtbox : p'.outbox = p.outbox)
    (hcalls : p'.calls = p.calls) (hid : p'.id = p.id)
    (hbook : ∀ a : Account ρ,
      p'.book a + hand.countP a.covers = p.book a + hand'.countP a.covers) :
    Exchange hand p hand' p' where
  balance a := by
    have htokens : p'.tokens = p.tokens := by
      simp only [tokens, Pool.shelf, unreceived, havailable, houtbox, hcalls]
    have := hbook a
    rw [htokens]
    omega
  lender l hl := by
    simp only [delivering, unreceived, houtbox, hcalls] at hl ⊢
    exact hl.imp_right .inl
  id := hid

theorem exchange_take {l r : List (Pooled ρ)} (hold : p.available.toList = l ++ x :: r)
    (hnew : rest.toList = l ++ r) :
    Exchange [] p [.resource x.item] ({ p with available := rest }) where
  balance a := by
    change p.book a + _ = p.book a + _
    simp only [tokens, Pool.shelf, hold, hnew, unreceived, List.map_append, List.map_cons,
      List.countP_append, countP_cons_eq_add _ (Token.resource x.item)
        (r.map Pooled.item |>.map Token.resource), List.countP_nil]
    omega
  lender l hl := hl.imp_right .inl
  id := rfl

theorem exchange_shelve (hwf : p.available.Wf) :
    Exchange [.resource x.item] p [] (p.shelve now x) where
  balance a := by
    have hcount : ∀ c : Token ρ → Bool, ((p.shelve now x).shelf.map .resource).countP c =
        (p.shelf.map .resource).countP c + [Token.resource x.item].countP c := by
      intro c
      rw [List.countP_map, List.countP_map, (shelve_available hwf now x).2.2]
      rfl
    change p.book a + _ = p.book a + (_ + ((p.shelve now x).shelf.map Token.resource ++
      (p.outbox.flatMap Action.tokens ++ p.unreceived.map fun l => Token.lease l.item)).countP _)
    simp only [tokens, List.countP_append, hcount, List.countP_nil]
    omega
  lender l hl := hl.imp_right .inl
  id := rfl

/-- An action takes the tokens in hand with it. -/
theorem exchange_post (p : Pool ρ) (action : Action ρ)
    (hlender : ∀ l ∈ action.leases, l.pool = p.id) :
    Exchange action.tokens p [] (p.post [action]) where
  balance a := by
    change p.book a + _ = p.book a + _
    simp only [tokens, Pool.shelf, unreceived, post, List.flatMap_append, List.flatMap_singleton,
      List.countP_append, List.countP_nil]
    omega
  lender l hl := by
    simp only [delivering, post, List.flatMap_append, List.flatMap_singleton,
      List.mem_append] at hl
    rcases hl with (hl | hl) | hl
    · exact .inl hl
    · exact .inr (.inr (hlender l hl))
    · exact .inr (.inl hl)
  id := rfl

/-! ## Moves -/

theorem Sound.exchange_lend {hand : List Nat} (h : p.Sound (x.id :: hand)) :
    Exchange [.resource x.item] p [] (p.lend now x) := by
  obtain ⟨call, waiting, -, -, -, heq⟩ | ⟨waiting, -, -, -, heq⟩ :=
    lend_cases h.queue now x <;> rw [heq]
  · have hlend : Exchange [.resource x.item] p [.lease x.item] { p with
        waiting
        loans := p.loans.insert x.id x.loan
        metrics := { p.metrics with acquisitions := p.metrics.acquisitions + 1 } } := by
      refine exchange_books rfl rfl rfl rfl fun a => ?_
      cases a with
      | leases n =>
          simp only [book, Registry.keys_insert, Registry.erase_of_notMem h.notMem_loans]
          rw [countP_cons_eq_add _ x.id p.loans.keys]
          change _ + 0 = _ + [x.id].countP (· == n)
          omega
      | _ => rfl
    refine hlend.trans (exchange_post _ (.deliver call (x.lease p.id)) ?_)
    simp [Action.leases, Pooled.lease]
  · have hshelve : Exchange [.resource x.item] { p with waiting } []
        (({ p with waiting } : Pool ρ).shelve now x) := exchange_shelve h.shelf
    have hqueue : Exchange [.resource x.item] p [.resource x.item] { p with waiting } :=
      exchange_books rfl rfl rfl rfl fun _ => rfl
    exact hqueue.trans hshelve

/-- What every move inside a section exchanges: nothing with the world outside. -/
theorem Sound.exchange_pass {hand : List Nat} (h : p.Sound hand) (hpass : Pass now p p') :
    Exchange [] p [] p' := by
  cases hpass with
  | order room need =>
      have horder : Exchange [] p [.creation] { p with creating := p.creating + 1 } :=
        exchange_books rfl rfl rfl rfl fun a => by cases a <;> rfl
      exact horder.trans (exchange_post _ .create (by simp [Action.leases]))
  | @test x rest shift testing need =>
      obtain ⟨-, hlist⟩ := h.shelf.of_shift shift
      have htest : Exchange [.resource x.item] ({ p with available := rest } : Pool ρ)
          [.resource x.item, .validation]
          { p with available := rest, validating := p.validating + 1 } :=
        exchange_books rfl rfl rfl rfl fun a => by cases a <;> rfl
      exact ((exchange_take (l := []) hlist rfl).trans htest).trans
        (exchange_post _ (.validate { x with stage := .validating }) (by simp [Action.leases]))
  | lend shift testing =>
      obtain ⟨-, hlist⟩ := h.shelf.of_shift shift
      exact (exchange_take (l := []) hlist rfl).trans (h.of_shift shift).exchange_lend
  | @cull x rest l r wf before after =>
      have hcull : Exchange [.resource x.item] ({ p with available := rest } : Pool ρ)
          [.resource x.item, .destruction] { p with
            available := rest
            allObjects := p.allObjects - 1
            destroying := p.destroying + 1 } :=
        exchange_books rfl rfl rfl rfl fun a => by cases a <;> rfl
      exact ((exchange_take before after).trans hcull).trans
        (exchange_post _ (.destroy x.condemn) (by simp [Action.leases]))
  | note evictionCursor evictions => exact exchange_books rfl rfl rfl rfl fun _ => rfl

theorem Sound.exchange_passes {hand : List Nat} (h : p.Sound hand) (hpasses : Passes now p p') :
    Exchange [] p [] p' := by
  induction hpasses with
  | refl => exact .refl _ _
  | tail hfirst hlast ih => exact ih.trans ((h.passes hfirst).exchange_pass hlast)

end Pool

end PooledSql
