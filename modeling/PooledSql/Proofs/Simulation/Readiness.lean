import PooledSql.Proofs.Simulation.Flow

/-!
# Readiness

Every section of a move finds its pool ready. Whoever brings a section about holds a token for it,
or the outbox has one, and the books of the pool count each of them.
-/

namespace PooledSql

open Machine

variable {m : Machine} {s s' : Scene} {id : TaskId} {task : Task} {site : Site} {phase : Phase}
variable {d : Deed} {trace : List Deed} {i : Nat} {p : Pool Connection}

/-- The pool of the section of a deed is ready for it. -/
def Deed.Ready (s : Scene) (d : Deed) : Prop :=
  ∀ index x, d.change = some (index, x) → ∀ p, s.pools[index]? = some p → x.Ready p

theorem ready_change {index : Nat} {x : Section Connection} {events : List Event}
    (h : ∀ p, s.pools[index]? = some p → x.Ready p) :
    Deed.Ready s { change := some (index, x), events } := by
  rintro _ _ heq p hp
  cases heq
  exact h p hp

theorem ready_events (events : List Event) : Deed.Ready s { events } := by
  rintro _ _ heq
  cases heq

namespace Ledger

/-- A token inside is one of those that the books are about. -/
theorem inside_le_book (h : Ledger trace s) (hp : s.pools[i]? = some p) {a : Account Nat}
    (ha : ∀ x, a.covers (.resource x) = false) :
    p.tokens.countP (a.comap (·.number)).covers ≤ p.book (a.comap (·.number)) := by
  have := h.balance_pool hp a
  have := countP_sources_eq_zero ha i trace
  omega

/-- The tokens of an action in the outbox are inside. -/
theorem action_le_book (h : Ledger trace s) (hp : s.pools[i]? = some p)
    {before after : List (Action Connection)} {action : Action Connection}
    (houtbox : p.outbox = before ++ action :: after) {a : Account Nat}
    (ha : ∀ x, a.covers (.resource x) = false) :
    action.tokens.countP (a.comap (·.number)).covers ≤ p.book (a.comap (·.number)) := by
  refine le_trans ?_ (h.inside_le_book hp ha)
  simp only [Pool.tokens, houtbox, List.flatMap_append, List.flatMap_cons, List.countP_append]
  omega

/-- The loan of a lease that is outside is with its lender. -/
theorem mem_loans (h : Ledger trace s) {l : Lease Connection}
    (hl : (l.pool, .lease (l.id, l.resource.number)) ∈ s.outside) (hp : s.pools[l.pool]? = some p) :
    l.id ∈ p.loans.keys := by
  obtain ⟨p', hp', hloan⟩ := h.loan_of_outside hl
  cases hp.symm.trans hp'
  exact hloan

end Ledger

theorem Turn.deed_ready (hledger : Ledger trace m.scene) (h : Turn m id task site phase d s')
    (hphase : task.phase = phase) (htask : m.tasks.get? id = some task)
    (hsite : m.sites[task.pool]? = some site) : d.Ready m.scene := by
  have hp : m.scene.pools[task.pool]? = some site.pool := pools_of_site hsite
  have hid : site.pool.id = task.pool := (hledger.placed _ _ hp).id
  have hholds : ∀ {t}, t ∈ phase.tokens task.pool → t ∈ m.scene.outside :=
    fun ht => Scene.mem_outside htask (by rwa [Task.tokens, hphase])
  cases h with
  | ask | refused =>
      apply ready_change
      intro p hp hcall
      obtain ⟨task', htask', -, hawaits⟩ := hledger.awaited _ p hp id hcall
      cases htask.symm.trans htask'
      rw [hphase] at hawaits
      exact Bool.false_ne_true hawaits
  | giveBack hlender | recycle hlender | giveBackRefused hlender | discard hlender
  | discardRefused hlender =>
      apply ready_change
      intro p hp
      rw [← hid, ← hlender] at hp
      exact hledger.mem_loans (hholds (List.mem_singleton_self _)) hp
  | letGo =>
      exact ready_change fun p hp => hledger.mem_loans (hholds (List.mem_singleton_self _)) hp
  | created =>
      refine ready_change fun p hp => hledger.book_pos hp (a := .creations) (fun _ => rfl) ?_
      exact List.countP_pos_iff.2 ⟨_, hholds (List.mem_singleton_self _), by
        simp [Account.at, Account.covers, Token.map]⟩
  | @validated x episode due valid =>
      apply ready_change
      intro p hp
      exact hledger.ready_validation hp (hholds (List.mem_cons_self ..))
        (hholds (List.mem_cons_of_mem _ (List.mem_singleton_self _))) m.now valid
  | destroyed =>
      refine ready_change fun p hp => hledger.book_pos hp (a := .destructions) (fun _ => rfl) ?_
      exact List.countP_pos_iff.2 ⟨_, hholds (List.mem_singleton_self _), by
        simp [Account.at, Account.covers, Token.map]⟩
  | keep | hold | send | unanswered | withdraw | forget | hangUp | evict | outlast | drain
  | drainQueue | queueDrained | sweep => exact ready_change fun _ _ => trivial
  | _ => exact ready_events _

theorem Act.deed_ready (hledger : Ledger trace m.scene) (h : Act m d s') : d.Ready m.scene := by
  cases h with
  | @deliver index pool before after call lease hpool houtbox =>
      apply ready_change
      intro p hp
      cases hp.symm.trans ((pool?_eq _ _).symm.trans hpool)
      have hmem : lease ∈ pool.delivering := by simp [Pool.delivering, houtbox, Action.leases]
      have hplaced := hledger.placed _ _ hp
      refine ⟨houtbox, ?_, (hplaced.lender lease (.inl hmem)).trans hplaced.id.symm⟩
      have hpos := hledger.action_le_book hp houtbox (a := .leases lease.id) fun _ => rfl
      have hone : (Action.deliver call lease).tokens.countP
          ((Account.leases lease.id : Account Nat).comap (·.number)).covers = 1 := by
        simp [Action.tokens, Account.comap, Account.covers, Lease.item]
      rw [hone] at hpos
      exact countP_eq_pos_iff.1 hpos
  | launch hpool houtbox hleases =>
      apply ready_change
      intro p hp
      cases hp.symm.trans ((pool?_eq _ _).symm.trans hpool)
      exact ⟨houtbox, hleases⟩
  | abandon hpool houtbox hleases =>
      apply ready_change
      intro p hp
      cases hp.symm.trans ((pool?_eq _ _).symm.trans hpool)
      exact ⟨houtbox, hleases,
        hledger.action_le_book hp houtbox (a := .creations) fun _ => rfl,
        hledger.action_le_book hp houtbox (a := .validations) fun _ => rfl,
        hledger.action_le_book hp houtbox (a := .destructions) fun _ => rfl⟩
  | @stop id task htask hstop =>
      rw [stopDeed]
      split <;> exact ready_events _
  | drop hlease =>
      exact ready_change fun p hp => hledger.mem_loans (Scene.mem_outside_of_lookup hlease) hp
  | start | recycle => exact ready_change fun _ _ => trivial
  | _ => exact ready_events _

end PooledSql
