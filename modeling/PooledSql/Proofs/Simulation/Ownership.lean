import PooledSql.Proofs.Simulation.Audit
import PooledSql.Proofs.Simulation.Runtime
import PooledSql.Proofs.Simulation.Schedule

/-!
# Ownership

Inside a runtime every connection that was ever made is in exactly one place, or its destruction
has begun: it is on the shelf of its pool, lent, being validated, or about to be destroyed. Places
are looked up wherever something can be held: in the pool, in the actions that wait in its outbox,
in the answers that were not received, by tasks and under labels.
-/

namespace PooledSql

/-- Where a resource can be. -/
inductive Place where
  | shelf
  /-- In a lease. -/
  | lease
  | validation
  /-- A destruction that has not begun. -/
  | destruction
  deriving DecidableEq, Repr

/-- A resource in a place. -/
structure Holding where
  place : Place
  /-- The number in its pool and that of its connection. -/
  resource : Nat × Nat
  deriving DecidableEq, Repr

def Action.holdings : Action Connection → List Holding
  | .validate x => [⟨.validation, x.mark⟩]
  | .destroy x => [⟨.destruction, x.mark⟩]
  | .deliver _ l => [⟨.lease, l.mark⟩]
  | .evict | .create => []

/-- What a task of a pool holds in a phase, and to which pool that belongs. -/
def Phase.holdings (pool : Nat) : Phase → List (Nat × Holding)
  | .work l _ _ | .giveBack l _ | .discard l _ | .letGo l _ => [(l.pool, ⟨.lease, l.mark⟩)]
  | .validate x | .validation x _ _ => [(pool, ⟨.validation, x.mark⟩)]
  | .destroy x _ => [(pool, ⟨.destruction, x.mark⟩)]
  | _ => []

def Pool.holdings (p : Pool Connection) : List Holding :=
  p.available.toList.map (fun x => ⟨.shelf, x.mark⟩) ++
    (p.outbox.flatMap Action.holdings ++ p.unreceived.map fun l => ⟨.lease, l.mark⟩)

/-- What the tasks hold and what is kept under labels. -/
def Machine.held (m : Machine) : List (Nat × Holding) :=
  m.tasks.entries.flatMap (fun entry => entry.2.phase.holdings entry.2.pool) ++
    m.leases.map fun entry => (entry.2.pool, ⟨.lease, entry.2.mark⟩)

/-- Where the resources of a pool are. -/
def Machine.holdings (m : Machine) (index : Nat) : List Holding :=
  ((m.pool? index).map Pool.holdings).getD [] ++
    (m.held.filter (·.1 == index)).map (·.2)

/-- The numbers of the resources that are in leases. -/
def Machine.lent (m : Machine) (index : Nat) : List Nat :=
  ((m.holdings index).filter (·.place == .lease)).map (·.resource.1)

/-- The resource of a pool that was made. -/
def Event.made? (index : Nat) : Event → Option (Nat × Nat)
  | .created pool x => if pool = index then some x else none
  | _ => none

/-- The resource of a pool whose destruction has begun. -/
def Event.destroyed? (index : Nat) : Event → Option (Nat × Nat)
  | .destroyBegun pool x => if pool = index then some x else none
  | _ => none

/-- The resource of a pool that was lost. -/
def Event.lost? (index : Nat) : Event → Option (Nat × Nat)
  | .lost pool x => if pool = index then some x else none
  | _ => none

/-- What happened in a trace. -/
def happened (trace : List Deed) : List Event := trace.flatMap (·.events)

/-- The resources of a pool that were ever made. -/
def made (trace : List Deed) (index : Nat) : List (Nat × Nat) :=
  (happened trace).filterMap (Event.made? index)

/-- The resources of a pool that were handed to the factory to be destroyed. -/
def destroyed (trace : List Deed) (index : Nat) : List (Nat × Nat) :=
  (happened trace).filterMap (Event.destroyed? index)

/-- The resources of a pool that were neither kept nor destroyed, since no task could be started. -/
def lost (trace : List Deed) (index : Nat) : List (Nat × Nat) :=
  (happened trace).filterMap (Event.lost? index)

theorem destroyed_append (trace trace' : List Deed) (i : Nat) :
    destroyed (trace ++ trace') i = destroyed trace i ++ destroyed trace' i := by
  simp [destroyed, happened]

theorem lost_append (trace trace' : List Deed) (i : Nat) :
    lost (trace ++ trace') i = lost trace i ++ lost trace' i := by
  simp [lost, happened]

open Machine

variable {m m' : Machine} {trace : List Deed} {i : Nat} {p : Pool Connection} {d : Deed}

/-! ## Looking up places -/

theorem Machine.mem_holdings_of_pool {y : Holding} (hp : m.pool? i = some p)
    (hy : y ∈ p.holdings) : y ∈ m.holdings i := by
  rw [holdings, hp]
  exact List.mem_append_left _ hy

theorem Machine.mem_holdings_of_held {y : Holding} (hy : (i, y) ∈ m.held) : y ∈ m.holdings i :=
  List.mem_append_right _ (List.mem_map.2 ⟨_, List.mem_filter.2 ⟨hy, beq_self_eq_true i⟩, rfl⟩)

theorem Machine.mem_holdings_of_task {y : Holding} {id : TaskId} {task : Task}
    (htask : m.tasks.get? id = some task) (hy : (i, y) ∈ task.phase.holdings task.pool) :
    y ∈ m.holdings i :=
  mem_holdings_of_held (List.mem_append_left _
    (List.mem_flatMap.2 ⟨(id, task), Registry.mem_entries_of_get? htask, hy⟩))

/-- A holding is in the pool, or a task has it, or it is a lease that is kept. -/
theorem Machine.of_mem_holdings (hs : m.scene.Orderly) {y : Holding} (hy : y ∈ m.holdings i) :
    (∃ p, m.pool? i = some p ∧ y ∈ p.holdings) ∨
      (∃ id task, m.tasks.get? id = some task ∧ (i, y) ∈ task.phase.holdings task.pool) ∨
      ∃ entry ∈ m.leases, entry.2.pool = i ∧ y = ⟨.lease, entry.2.mark⟩ := by
  obtain hy | hy := List.mem_append.1 hy
  · cases hp : m.pool? i with
    | none =>
        rw [hp] at hy
        exact absurd hy List.not_mem_nil
    | some p =>
        rw [hp] at hy
        exact .inl ⟨p, rfl, hy⟩
  · obtain ⟨⟨pool, y⟩, hmem, rfl⟩ := List.mem_map.1 hy
    obtain ⟨hheld, hpool⟩ := List.mem_filter.1 hmem
    obtain rfl : pool = i := beq_iff_eq.1 hpool
    obtain hmem | hmem := List.mem_append.1 hheld
    · obtain ⟨⟨id, task⟩, hentry, hmem⟩ := List.mem_flatMap.1 hmem
      exact .inr (.inl ⟨id, task, Registry.get?_of_mem_entries hs.tasks hentry, hmem⟩)
    · obtain ⟨entry, hentry, heq⟩ := List.mem_map.1 hmem
      cases heq
      exact .inr (.inr ⟨entry, hentry, rfl, rfl⟩)

/-! ## Counting places -/

/-- The token that a holding is. -/
def Holding.token : Holding → Token Nat
  | ⟨.lease, x⟩ => .lease x
  | ⟨_, x⟩ => .resource x

/-- The account is about resources only. -/
structure Account.IsMaterial (a : Account Nat) : Prop where
  creation : a.covers .creation = false
  validation : a.covers .validation = false
  destruction : a.covers .destruction = false

variable {a : Account Nat}

theorem countP_flatMap_congr {α β γ : Type} {f : α → List β} {g : α → List γ} {q : β → Bool}
    {r : γ → Bool} (h : ∀ x, (f x).countP q = (g x).countP r) (l : List α) :
    (l.flatMap f).countP q = (l.flatMap g).countP r := by
  rw [List.countP_flatMap, List.countP_flatMap]
  exact congrArg List.sum (List.map_congr_left fun x _ => h x)

theorem Action.countP_holdings (ha : a.IsMaterial) (action : Action Connection) :
    action.holdings.countP (fun h => a.covers h.token) =
      action.tokens.countP (a.comap (·.number)).covers := by
  cases action <;> simp [holdings, tokens, List.countP_cons, ← Account.covers_map, Token.map,
    ha.creation, ha.validation, ha.destruction, Holding.token, Pooled.mark, Lease.mark, Pooled.item,
    Lease.item]

theorem Phase.countP_holdings (ha : a.IsMaterial) (phase : Phase) (pool i : Nat) :
    (phase.holdings pool).countP (fun h => h.1 == i && a.covers h.2.token) =
      (phase.tokens pool).countP (a.at i) := by
  cases phase <;> simp [holdings, tokens, tag, Account.at, List.countP_cons, Token.map,
    ha.creation, ha.validation, ha.destruction, Holding.token, Pooled.mark, Lease.mark, Pooled.item,
    Lease.item]

theorem Pool.countP_holdings (ha : a.IsMaterial) (p : Pool Connection) :
    p.holdings.countP (fun h => a.covers h.token) =
      p.tokens.countP (a.comap (·.number)).covers := by
  have hshelf : (p.available.toList.map fun x => (⟨.shelf, x.mark⟩ : Holding)).countP
      (fun h => a.covers h.token) =
      (p.shelf.map Token.resource).countP (a.comap (·.number)).covers := by
    rw [shelf, List.map_map, List.countP_map, List.countP_map]
    apply List.countP_congr
    intro x _
    rw [Function.comp, Function.comp, ← Account.covers_map]
    rfl
  have hunreceived : (p.unreceived.map fun l => (⟨.lease, l.mark⟩ : Holding)).countP
      (fun h => a.covers h.token) =
      (p.unreceived.map fun l => Token.lease l.item).countP (a.comap (·.number)).covers := by
    rw [List.countP_map, List.countP_map]
    apply List.countP_congr
    intro x _
    rw [Function.comp, Function.comp, ← Account.covers_map]
    rfl
  rw [holdings, tokens, List.countP_append, List.countP_append, List.countP_append,
    List.countP_append, hshelf, hunreceived,
    countP_flatMap_congr (Action.countP_holdings ha) p.outbox]

theorem Machine.countP_held (ha : a.IsMaterial) (m : Machine) (i : Nat) :
    m.held.countP (fun h => h.1 == i && a.covers h.2.token) = m.scene.outside.countP (a.at i) := by
  have hkept :
      (m.leases.map fun entry => ((entry.2.pool, ⟨.lease, entry.2.mark⟩) : Nat × Holding)) =
      m.leases.flatMap fun entry => [(entry.2.pool, ⟨.lease, entry.2.mark⟩)] :=
    List.map_eq_flatMap
  rw [held, Scene.outside, List.countP_append, List.countP_append, hkept]
  refine congrArg₂ (· + ·) ?_ ?_
  · exact countP_flatMap_congr
      (fun entry : Nat × Task => Phase.countP_holdings ha entry.2.phase entry.2.pool i) _
  · refine countP_flatMap_congr (fun entry => ?_) _
    simp [tag, Account.at, Token.map, Holding.token, Lease.mark, Lease.item]

/-- On an account, the places of a pool are what it has inside and outside. -/
theorem Machine.countP_holdings (ha : a.IsMaterial) (m : Machine) (i : Nat) :
    (m.holdings i).countP (fun h => a.covers h.token) =
      m.scene.inside i a + m.scene.outside.countP (a.at i) := by
  rw [holdings, List.countP_append, List.countP_map, List.countP_filter, ← countP_held ha,
    Scene.inside, ← pool?_eq]
  refine congrArg₂ (· + ·) ?_ ?_
  · cases m.pool? i with
    | none => rfl
    | some p => exact Pool.countP_holdings ha p
  · apply List.countP_congr
    intro h _
    rw [Function.comp, Bool.and_comm]

/-! ## Counting events -/

theorem Machine.Run.kept (h : Run trace m) : ∀ pool x, Event.lost pool x ∉ happened trace := by
  induction h with
  | idle server => exact fun _ _ => List.not_mem_nil
  | move h hmove ih =>
      intro pool x hmem
      rw [happened, List.flatMap_append, List.mem_append] at hmem
      obtain hmem | hmem := hmem
      · exact ih pool x hmem
      · exact hmove.kept h.runtime pool x (by simpa using hmem)

theorem made_append (trace : List Deed) (d : Deed) (i : Nat) :
    made (trace ++ [d]) i = made trace i ++ d.events.filterMap (Event.made? i) := by
  simp [made, happened]

theorem count_made (trace : List Deed) (i : Nat) (x : Nat × Nat) :
    (made trace i).count x = (sources trace).countP ((Account.resources (· == x)).at i) := by
  have hsources : sources trace = (happened trace).flatMap Event.sources :=
    List.flatMap_assoc.symm
  rw [made, List.count, List.countP_filterMap, hsources]
  refine (countP_flatMap_eq fun e _ => ?_).symm
  cases e with
  | created pool y =>
      by_cases hpool : pool = i <;> cases hx : y == x <;>
        simp [Event.sources, Event.made?, Account.at, Account.covers, hpool, hx]
  | _ => rfl

/-- Resources go by being destroyed or lost. -/
theorem count_destroyed_add_lost (trace : List Deed) (i : Nat) (x : Nat × Nat) :
    (destroyed trace i).count x + (lost trace i).count x =
      (sinks trace).countP ((Account.resources (· == x)).at i) := by
  have hsinks : sinks trace = (happened trace).flatMap Event.sinks := List.flatMap_assoc.symm
  have hgone : (sinks trace).countP ((Account.resources (· == x)).at i) =
      (happened trace).countP fun e => e.destroyed? i == some x || e.lost? i == some x := by
    rw [hsinks]
    refine countP_flatMap_eq fun e _ => ?_
    cases e with
    | destroyBegun pool y =>
        by_cases hpool : pool = i <;> cases hx : y == x <;>
          simp [Event.sinks, Event.destroyed?, Event.lost?, Account.at, Account.covers, hpool, hx]
    | lost pool y =>
        by_cases hpool : pool = i <;> cases hx : y == x <;>
          simp [Event.sinks, Event.destroyed?, Event.lost?, Account.at, Account.covers, hpool, hx]
    | forsaken pool =>
        simp [Event.sinks, Event.destroyed?, Event.lost?, Account.at, Account.covers]
    | _ => rfl
  have hcount : ∀ f : Event → Option (Nat × Nat),
      ((happened trace).filterMap f).count x = (happened trace).countP (f · == some x) := by
    intro f
    rw [List.count, List.countP_filterMap]
    apply List.countP_congr
    intro e _
    cases f e <;> simp
  rw [hgone, destroyed, lost, hcount, hcount]
  refine (countP_eq_add_of_disjoint fun e => ?_).symm
  cases e <;> simp [Event.destroyed?, Event.lost?]

/-- Every resource that was made is in one place, or it was destroyed or lost. -/
theorem Machine.FreeRun.perm_made (h : FreeRun trace m) (i : Nat) :
    ((m.holdings i).map (·.resource) ++ (destroyed trace i ++ lost trace i)).Perm
      (made trace i) := by
  rw [List.perm_iff_count]
  intro x
  have hbalance := h.ledger.balance i (.resources (· == x))
  have hplaces := countP_holdings (a := .resources (· == x)) ⟨rfl, rfl, rfl⟩ m i
  have hcount : ((m.holdings i).map (·.resource)).count x = (m.holdings i).countP fun h =>
      (Account.resources (· == x)).covers h.token := by
    rw [List.count, List.countP_map]
    apply List.countP_congr
    intro h _
    obtain ⟨place, y⟩ := h
    cases place <;> rfl
  have hbook : m.scene.book i (.resources (· == x)) = 0 := by
    rw [Scene.book]
    cases m.scene.pools[i]? <;> rfl
  have hgone := count_destroyed_add_lost trace i x
  rw [List.count_append, List.count_append, count_made]
  omega

/-- Where nothing is lost, every resource that was made is in one place or destroyed. -/
theorem Machine.Run.perm_made (h : Run trace m) (i : Nat) :
    ((m.holdings i).map (·.resource) ++ destroyed trace i).Perm (made trace i) := by
  have hnone : lost trace i = [] := by
    rw [lost, List.filterMap_eq_nil_iff]
    intro e he
    cases e with
    | lost pool x => exact absurd he (h.kept pool x)
    | _ => rfl
  have hperm := h.free.perm_made i
  rwa [hnone, List.append_nil] at hperm

theorem Machine.FreeRun.nodup_made (h : FreeRun trace m) (i : Nat) :
    ((made trace i).map (·.1)).Nodup := by
  rw [List.nodup_iff_count_le_one]
  intro n
  have honce := h.ledger.once i n
  have hsources : sources trace = (happened trace).flatMap Event.sources :=
    List.flatMap_assoc.symm
  rw [List.count, List.countP_map, made, List.countP_filterMap]
  rw [hsources] at honce
  refine le_of_eq_of_le (countP_flatMap_eq fun e _ => ?_).symm honce
  cases e with
  | created pool y =>
      by_cases hpool : pool = i <;> cases hn : y.1 == n <;>
        simp [Event.sources, Event.made?, Account.at, Account.covers, hpool, hn]
  | _ => rfl

/-- No number is in two places, or in one and among those that are gone. -/
theorem Machine.FreeRun.nodup_numbers (h : FreeRun trace m) (i : Nat) :
    ((m.holdings i).map (·.resource.1) ++ ((destroyed trace i).map (·.1) ++
      (lost trace i).map (·.1))).Nodup := by
  have hnodup := ((h.perm_made i).map (·.1)).nodup_iff.2 (h.nodup_made i)
  rwa [List.map_append, List.map_append, List.map_map] at hnodup

theorem Machine.FreeRun.nodup_destroyed (h : FreeRun trace m) (i : Nat) :
    (destroyed trace i).Nodup :=
  (List.Nodup.of_append_left (List.Nodup.of_append_right (h.nodup_numbers i))).of_map

/-- A resource is in one place. -/
theorem Machine.FreeRun.holding_unique (h : FreeRun trace m) {x y : Holding}
    (hx : x ∈ m.holdings i) (hy : y ∈ m.holdings i) (hnumber : x.resource.1 = y.resource.1) :
    x = y :=
  List.inj_on_of_nodup_map (List.Nodup.of_append_left (h.nodup_numbers i)) hx hy hnumber

/-- The leases of a number that a pool has lent are in its books. -/
theorem Machine.FreeRun.count_lent (h : FreeRun trace m) (i n : Nat) :
    (m.lent i).count n = m.scene.book i (.leases n) := by
  have hbalance := h.ledger.balance i (.leases n)
  have hplaces := countP_holdings (a := .leases n) ⟨rfl, rfl, rfl⟩ m i
  have hcount : (m.lent i).count n =
      (m.holdings i).countP fun h => (Account.leases n).covers h.token := by
    rw [lent, List.count, List.countP_map, List.countP_filter]
    apply List.countP_congr
    intro h _
    obtain ⟨place, y⟩ := h
    cases place <;> simp [Holding.token, Account.covers]
  have := countP_sources_eq_zero (a := .leases n) (fun _ => rfl) i trace
  have := countP_sinks_eq_zero (a := .leases n) (fun _ => rfl) rfl i trace
  omega

/-- The loans of a pool are those of its leases, wherever these are. -/
theorem Machine.FreeRun.perm_loans (h : FreeRun trace m) (hp : m.pool? i = some p) :
    p.loans.keys.Perm (m.lent i) := by
  rw [List.perm_iff_count]
  intro n
  rw [h.count_lent, Scene.book, ← pool?_eq, hp]
  rfl

/-- The lender of a lease that is somewhere is there and has the loan. -/
theorem Machine.FreeRun.loan_of_lease (h : FreeRun trace m) {x : Nat × Nat}
    (hx : ⟨.lease, x⟩ ∈ m.holdings i) : ∃ p, m.pool? i = some p ∧ x.1 ∈ p.loans.keys := by
  have hlent : x.1 ∈ m.lent i :=
    List.mem_map.2 ⟨_, List.mem_filter.2 ⟨hx, rfl⟩, rfl⟩
  cases hp : m.pool? i with
  | some p => exact ⟨p, rfl, (h.perm_loans hp).mem_iff.2 hlent⟩
  | none =>
      have hcount := h.count_lent i x.1
      rw [Scene.book, ← pool?_eq, hp] at hcount
      exact absurd hlent (List.count_eq_zero.1 hcount)

/-! ## Destructions -/

theorem Turn.of_destroyBegun {id : TaskId} {task : Task} {site : Site} {phase : Phase}
    {s' : Scene} {x : Nat × Nat} (h : Turn m id task site phase d s')
    (hmem : Event.destroyBegun i x ∈ d.events) :
    ∃ y outcome, phase = .destroy y outcome ∧ task.pool = i ∧ y.mark = x := by
  cases h with
  | @destroy y outcome =>
      obtain ⟨hpool, hx⟩ : i = task.pool ∧ x = y.mark := by simpa using hmem
      exact ⟨y, outcome, rfl, hpool.symm, hx.symm⟩
  | @created episode due made => cases made <;> simp at hmem
  | _ => simp at hmem

theorem Act.destroyBegun_notMem {s' : Scene} (h : Act m d s') (x : Nat × Nat) :
    Event.destroyBegun i x ∉ d.events := by
  cases h with
  | @abandon index pool before after action => cases action <;> simp [Action.lost]
  | stop htask hstop =>
      rw [stopDeed]
      split <;> simp
  | _ => simp

/-- What the factory is told to destroy was about to be destroyed. -/
theorem Machine.Move.of_destroyBegun {x : Nat × Nat} (h : Move m d m')
    (hmem : Event.destroyBegun i x ∈ d.events) : ⟨.destruction, x⟩ ∈ m.holdings i := by
  obtain ⟨id, task, site, htask, -, hturn⟩ | hact := h.cases
  · obtain ⟨y, outcome, hphase, hpool, hx⟩ := hturn.of_destroyBegun hmem
    refine mem_holdings_of_task htask ?_
    rw [hphase, ← hpool, ← hx]
    exact List.mem_singleton_self _
  · exact absurd hmem (hact.destroyBegun_notMem x)

/-- Inside a runtime, every resource of a pool that was ever made is in one place or was handed
to the factory to be destroyed. The loans of the pool are those of the leases that there are, and
these hold resources that were not destroyed. Nothing is destroyed twice or from another place. -/
theorem exclusive_ownership (h : Run trace m) (hp : m.pool? i = some p) :
    ((m.holdings i).map (·.resource) ++ destroyed trace i).Perm (made trace i) ∧
      ((made trace i).map (·.1)).Nodup ∧
      p.loans.keys.Perm (m.lent i) ∧ (m.lent i).Nodup ∧
      (∀ x, ⟨.lease, x⟩ ∈ m.holdings i → x ∈ made trace i ∧ x ∉ destroyed trace i) ∧
      ((destroyed trace i).map (·.1)).Nodup ∧
      ∀ d m' x, Move m d m' → .destroyBegun i x ∈ d.events →
        ⟨.destruction, x⟩ ∈ m.holdings i ∧ x ∉ destroyed trace i ∧
          ∀ y ∈ m.holdings i, y.resource.1 = x.1 → y.place = .destruction := by
  have hperm := h.perm_made i
  have hmade := h.free.nodup_made i
  have hnodup : (((m.holdings i).map (·.resource)).map (·.1) ++
      (destroyed trace i).map (·.1)).Nodup := by
    rw [← List.map_append]
    exact (hperm.map _).nodup_iff.2 hmade
  obtain ⟨hplaces, hdestroyed, hdisjoint⟩ := List.nodup_append'.1 hnodup
  have hnot : ∀ y ∈ m.holdings i, y.resource ∉ destroyed trace i := fun y hy hmem =>
    hdisjoint (List.mem_map_of_mem (List.mem_map_of_mem hy)) (List.mem_map_of_mem hmem)
  rw [List.map_map] at hplaces
  refine ⟨hperm, hmade, h.free.perm_loans hp, ?_, fun x hx => ⟨?_, hnot _ hx⟩, hdestroyed,
    fun d m' x hmove hmem => ?_⟩
  · exact hplaces.sublist (List.filter_sublist.map _)
  · exact hperm.subset (List.mem_append_left _ (List.mem_map_of_mem hx))
  · have hplace := hmove.of_destroyBegun hmem
    refine ⟨hplace, hnot _ hplace, ?_⟩
    intro y hy heq
    exact congrArg Holding.place (List.inj_on_of_nodup_map hplaces hy hplace heq)

/-- Two connections are lent, and one of them is being destroyed. -/
def lentAndDestroyed : List Deed × Machine :=
  scheduled [.build { max := 2 } {},
    .begin (.acquire 0 "a" 0), .part 0, .perform 0, .part 1, .part 1, .perform 0, .part 0,
    .begin (.acquire 0 "b" 0), .part 2, .perform 0, .part 3, .part 3, .perform 0, .part 2,
    .begin (.destroy 0 "b"), .part 4, .part 4]

theorem exclusive_ownership_lentAndDestroyed :
    lentAndDestroyed.2.holdings 0 = [⟨.lease, (1, 1)⟩] ∧ destroyed lentAndDestroyed.1 0 = [(2, 2)] ∧
      (((lentAndDestroyed.2.holdings 0).map (·.resource)) ++ destroyed lentAndDestroyed.1 0).Perm
        (made lentAndDestroyed.1 0) :=
  ⟨by decide, by decide, (exclusive_ownership (i := 0) (run_scheduled _) rfl).1⟩

end PooledSql
