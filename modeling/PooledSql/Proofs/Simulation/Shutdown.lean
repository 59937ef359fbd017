import PooledSql.Proofs.Simulation.Closing
import PooledSql.Proofs.Simulation.Ownership

/-!
# Shutdown

A pool is shut down by a drain that ends and a clear that begins after that and ends. Then nothing
is lent, made or destroyed any more, and if nothing was being validated either while the clear
swept the shelf, every connection that was ever made has been destroyed and the pool remains empty.
But a clear does not wait for validations: one that was begun for a caller who has gone since can
end after the clear, and its connection is put on the shelf again. The pool is empty for good
exactly if the clear leaves nothing in validation and nothing on the shelf.
-/

namespace PooledSql

open Machine

variable {m m' : Machine} {trace : List Deed} {i : Nat} {p : Pool Connection} {d : Deed}

/-! ## Pools without resources -/

/-- The account on which a holding that is not on the shelf is counted. -/
def Holding.account : Holding → Option (Account Nat)
  | ⟨.shelf, _⟩ => none
  | ⟨.lease, x⟩ => some (.leases x.1)
  | ⟨.validation, _⟩ => some .validations
  | ⟨.destruction, _⟩ => some .destructions

theorem countP_flatMap_pos {α β : Type} {f : α → List β} {q : β → Bool} {l : List α} {a : α}
    (ha : a ∈ l) (h : 0 < (f a).countP q) : 0 < (l.flatMap f).countP q := by
  obtain ⟨b, hb, hq⟩ := List.countP_pos_iff.1 h
  exact List.countP_pos_iff.2 ⟨b, List.mem_flatMap.2 ⟨a, ha, hb⟩, hq⟩

theorem Action.counts {h : Holding} {action : Action Connection} (hmem : h ∈ action.holdings) :
    ∃ a, h.account = some a ∧ 0 < action.tokens.countP (a.comap (·.number)).covers := by
  cases action with
  | validate x | destroy x | deliver call l =>
      obtain rfl := List.mem_singleton.1 hmem
      refine ⟨_, rfl, ?_⟩
      simp [tokens, Account.comap, Account.covers, Lease.mark, Lease.item]
  | _ => cases hmem

theorem Phase.counts {h : Holding} {pool : Nat} {phase : Phase}
    (hmem : (i, h) ∈ phase.holdings pool) :
    ∃ a, h.account = some a ∧ 0 < (phase.tokens pool).countP (a.at i) := by
  cases phase with
  | work | giveBack | discard | letGo | validate | validation | destroy =>
      cases List.mem_singleton.1 hmem
      refine ⟨_, rfl, ?_⟩
      simp [tokens, tag, Token.map, Account.at, Account.covers, Lease.mark, Lease.item]
  | _ => cases hmem

/-- What a pool with an empty shelf holds is counted. -/
theorem Pool.counts {h : Holding} (hshelf : p.available.toList = []) (hmem : h ∈ p.holdings) :
    ∃ a, h.account = some a ∧ 0 < p.tokens.countP (a.comap (·.number)).covers := by
  rw [holdings, hshelf, List.map_nil, List.nil_append, List.mem_append] at hmem
  simp only [tokens, List.countP_append]
  obtain hmem | hmem := hmem
  · obtain ⟨action, haction, hmem⟩ := List.mem_flatMap.1 hmem
    obtain ⟨a, ha, hpos⟩ := Action.counts hmem
    have := countP_flatMap_pos haction hpos
    exact ⟨a, ha, by omega⟩
  · obtain ⟨l, hl, rfl⟩ := List.mem_map.1 hmem
    refine ⟨_, rfl, Nat.add_pos_right _ (Nat.add_pos_right _ ?_)⟩
    refine List.countP_pos_iff.2 ⟨_, List.mem_map_of_mem hl, ?_⟩
    simp [Account.comap, Account.covers, Lease.mark, Lease.item]

theorem Machine.counts_held {h : Holding} (hmem : (i, h) ∈ m.held) :
    ∃ a, h.account = some a ∧ 0 < m.scene.outside.countP (a.at i) := by
  simp only [Scene.outside, List.countP_append]
  obtain hmem | hmem := List.mem_append.1 hmem
  · obtain ⟨entry, hentry, hmem⟩ := List.mem_flatMap.1 hmem
    obtain ⟨a, ha, hpos⟩ := Phase.counts hmem
    exact ⟨a, ha, Nat.add_pos_left (countP_flatMap_pos hentry hpos) _⟩
  · obtain ⟨entry, hentry, heq⟩ := List.mem_map.1 hmem
    cases heq
    refine ⟨_, rfl, Nat.add_pos_right _ (countP_flatMap_pos hentry ?_)⟩
    simp [tag, Token.map, Account.at, Account.covers, Lease.mark, Lease.item]

/-- Nothing is held of a pool with an empty shelf and all counters at zero. -/
theorem Machine.FreeRun.holdings_eq_nil (h : FreeRun trace m) (hp : m.pool? i = some p)
    (hshelf : p.available.length = 0) (hloans : p.loans.keys = []) (hvalidating : p.validating = 0)
    (hdestroying : p.destroying = 0) : m.holdings i = [] := by
  have hledger := h.ledger
  have hp' := (pool?_eq _ _).symm.trans hp
  have hempty : p.available.toList = [] := by
    rw [← List.length_eq_zero_iff, ← (hledger.placed i p hp').sound.shelf.length_toList]
    exact hshelf
  rw [List.eq_nil_iff_forall_not_mem]
  intro x hmem
  obtain ⟨a, ha, hpos⟩ : ∃ a, x.account = some a ∧
      0 < p.tokens.countP (a.comap (·.number)).covers + m.scene.outside.countP (a.at i) := by
    rw [holdings, hp, List.mem_append] at hmem
    obtain hmem | hmem := hmem
    · obtain ⟨a, ha, hpos⟩ := Pool.counts hempty hmem
      exact ⟨a, ha, Nat.add_pos_left hpos _⟩
    · obtain ⟨⟨j, y⟩, hfilter, rfl⟩ := List.mem_map.1 hmem
      obtain ⟨hheld, hj⟩ := List.mem_filter.1 hfilter
      obtain rfl := beq_iff_eq.1 hj
      obtain ⟨a, ha, hpos⟩ := counts_held hheld
      exact ⟨a, ha, Nat.add_pos_right _ hpos⟩
  -- but the books say that there is nothing on the account
  have hbook : p.book (a.comap (·.number)) = 0 ∧ ∀ x, a.covers (.resource x) = false := by
    obtain ⟨place, y⟩ := x
    cases place <;> cases ha
    · refine ⟨?_, fun _ => rfl⟩
      change p.loans.keys.countP _ = 0
      rw [hloans, List.countP_nil]
    · exact ⟨hvalidating, fun _ => rfl⟩
    · exact ⟨hdestroying, fun _ => rfl⟩
  have hbalance := hledger.balance_pool hp' a
  have hsources := countP_sources_eq_zero hbook.2 i trace
  omega

/-! ## Drained and cleared pools -/

namespace Machine

/-- A task of the pool goes on to another phase and has not been given up. -/
def GoesOn (m : Machine) (i : Nat) (id : TaskId) (phase next : Phase) (m' : Machine) : Prop :=
  ∃ task, m.tasks.get? id = some task ∧ task.pool = i ∧ task.phase = phase ∧
    m'.tasks.get? id = some { task with phase := next }

/-- Runs in which a drain of the pool has ended, and after that a clear was begun and has ended.
The pool is told as it was when the clear swept it. -/
inductive Shutdown (i : Nat) (swept : Pool Connection) : List Deed → Machine → Prop where
  | cleared {m₀ m₁ m₂ m₃ m₄ m₅ : Machine} {t₀ t₁ t₂ : List Deed} {d₀ d₁ d₂ : Deed}
      {evictor : Option TaskId} (drain clear : TaskId) (hrun : Run t₀ m₀)
      (hdrain : Move m₀ d₀ m₁)
      (hdrained : m₀.GoesOn i drain (.drained evictor) (.finish .done) m₁)
      (hbetween : Path m₁ t₁ m₂) (hlater : m₁.nextTask ≤ clear)
      (hsweep : Move m₂ d₁ m₃) (hsweeps : m₂.GoesOn i clear .sweep .clearDestructions m₃)
      (hswept : m₂.pool? i = some swept)
      (hmeanwhile : Path m₃ t₂ m₄)
      (hend : Move m₄ d₂ m₅)
      (hended : m₄.GoesOn i clear .clearDestructions (.finish .done) m₅) :
      Shutdown i swept (t₀ ++ [d₀] ++ t₁ ++ [d₁] ++ t₂ ++ [d₂]) m₅

/-- A task that was closing its pool and goes on does so by closing it. -/
theorem Move.of_goesOn {id : TaskId} {phase next : Phase} (hs : m.scene.Orderly)
    (h : Move m d m') (hgoes : m.GoesOn i id phase next m') (hclosing : phase.isClosing = true)
    (hne : next ≠ phase) (hp : m.pool? i = some p) : Phase.Closes p (d.run i p) phase next := by
  obtain ⟨task, htask, rfl, rfl, htask'⟩ := hgoes
  obtain ⟨former, hformer, -, hphase⟩ | ⟨former, q, hformer, -, hq, hcloses⟩ | ⟨-, hlabel⟩ :=
    h.closes hs htask'
  · cases hformer.symm.trans htask
    exact absurd hphase hne
  · cases hformer.symm.trans htask
    cases hq.symm.trans hp
    exact hcloses
  · exact absurd rfl (hlabel task htask hclosing)

/-- Inside a runtime a quiet pool never becomes larger. -/
theorem Path.wanes {trace' : List Deed} (hrun : Run trace m) (hpath : Path m trace' m')
    (hp : m.pool? i = some p) (hquiet : p.Quiet) : ∃ p', m'.pool? i = some p' ∧ p.Wanes p' := by
  induction hpath with
  | stay => exact ⟨p, hp, hquiet.wanes_refl⟩
  | move hpath hmove ih =>
      obtain ⟨p', hp', hwanes⟩ := ih
      exact ⟨_, hmove.pool? hp', hwanes.trans (hmove.wanes (hrun.path hpath) hp' hwanes.quiet)⟩

/-- A pool whose drain ends is drained. -/
theorem Run.closing_of_drained {id : TaskId} {evictor : Option TaskId} (h : Run trace m)
    (hmove : Move m d m') (hgoes : m.GoesOn i id (.drained evictor) (.finish .done) m') :
    Closing i m'.nextTask m' := by
  obtain ⟨task, htask, rfl, hphase, -⟩ := hgoes
  obtain ⟨p, hp, hfound⟩ := h.found htask (by rw [hphase]; rfl)
  rw [hphase] at hfound
  refine ⟨⟨_, hmove.pool? hp, (hmove.wanes h hp hfound.toQuiet).drained hfound⟩,
    fun id task _ hid htask => absurd hid (Nat.not_le.2 ?_)⟩
  exact (h.move hmove).free.ledger.fresh id (Registry.mem_keys_of_get? htask)

end Machine

/-- A clear that goes on has found nothing in the making. -/
theorem Machine.Closing.creating_eq_zero {first id : TaskId} {phase next : Phase}
    (h : Closing i first m) (hid : first ≤ id) (hgoes : m.GoesOn i id phase next m')
    (hclearing : phase.isClearing = true) (hp : m.pool? i = some p) : p.creating = 0 := by
  obtain ⟨task, htask, hpool, rfl, -⟩ := hgoes
  exact h.cleared id task p hid htask hpool hclearing hp

/-- The pool is empty and every resource of it that was ever made has been destroyed. -/
structure Machine.Emptied (m : Machine) (i : Nat) (trace : List Deed) : Prop where
  pool : ∃ p, m.pool? i = some p ∧ p.size = 0 ∧ p.available.length = 0
  destroyed : (destroyed trace i).Perm (made trace i)

theorem Machine.Run.emptied (h : Run trace m) (hp : m.pool? i = some p) (hdrained : p.Drained)
    (hrest : p.size + p.destroying = 0) : m.Emptied i trace := by
  have hbooks := (h.free.ledger.placed i p ((pool?_eq _ _).symm.trans hp)).sound.books
  have hsize : p.size = p.allObjects + p.creating := rfl
  rw [List.length_nil] at hbooks
  refine ⟨⟨p, hp, by omega, by omega⟩, ?_⟩
  have hperm := h.perm_made i
  rwa [h.free.holdings_eq_nil hp (by omega) hdrained.loans (by omega) (by omega), List.map_nil,
    List.nil_append] at hperm

/-- What a shutdown leaves. -/
theorem Machine.Shutdown.cases {swept : Pool Connection} (h : Shutdown i swept trace m) :
    Run trace m ∧ ∃ p, m.pool? i = some p ∧ p.Drained ∧ p.creating = 0 ∧ p.destroying = 0 ∧
      (swept.validating = 0 → p.size = 0) := by
  obtain ⟨drain, clear, hrun, hdrain, hdrained, hbetween, hlater, hsweep, hsweeps, hswept,
    hmeanwhile, hend, hended⟩ := h
  rename_i m₀ m₁ m₂ m₃ m₄ t₀ t₁ t₂ d₀ d₁ d₂ _
  have hrun₁ := hrun.move hdrain
  have hrun₂ := hrun₁.path hbetween
  have hrun₃ := hrun₂.move hsweep
  have hrun₄ := hrun₃.path hmeanwhile
  have hclosing₂ := (hrun.closing_of_drained hdrain hdrained).path hrun₁ hbetween
  have hclosing₄ := (hclosing₂.move hrun₂ hsweep).path hrun₃ hmeanwhile
  -- the sweep takes everything from the shelf
  obtain ⟨p₂, hp₂, hdrained₂⟩ := hclosing₂.pool
  cases hswept.symm.trans hp₂
  have hsound₂ := (hrun₂.free.ledger.placed i swept ((pool?_eq _ _).symm.trans hswept)).sound
  have hp₃ := hsweep.pool? hswept
  have hwanes₃ := hsweep.wanes hrun₂ hswept hdrained₂.toQuiet
  have hsize₃ : swept.validating = 0 → (d₁.run i swept).size = 0 := by
    intro hvalidating
    have hcreating := hclosing₂.creating_eq_zero hlater hsweeps rfl hswept
    have hempty : (d₁.run i swept).available.length = 0 := by
      have hcloses := hsweep.of_goesOn hrun₂.free.ledger.toOrderly hsweeps rfl
        (fun heq => by cases heq) hswept
      generalize d₁.run i swept = p at hcloses
      cases hcloses
      exact Pool.length_sweepSome hsound₂.shelf le_rfl
    have hsound₃ := (hrun₃.free.ledger.placed i _ ((pool?_eq _ _).symm.trans hp₃)).sound
    have hbooks := hsound₃.books
    have hloans := (hwanes₃.drained hdrained₂).size_loans
    have := hwanes₃.creating
    have := hwanes₃.validating
    rw [List.length_nil] at hbooks
    rw [Pool.size]
    omega
  -- and what comes after it does not make the pool larger
  obtain ⟨p₄, hp₄, hwanes₄⟩ := hmeanwhile.wanes hrun₃ hp₃ hwanes₃.quiet
  have hcreating := hclosing₄.creating_eq_zero hlater hended rfl hp₄
  have hcloses := hend.of_goesOn hrun₄.free.ledger.toOrderly hended rfl
    (fun heq => by cases heq) hp₄
  have hp₅ := hend.pool? hp₄
  generalize d₂.run i p₄ = p₅ at hcloses hp₅
  cases hcloses with
  | cleared hdestroying =>
      refine ⟨hrun₄.move hend, p₄, hp₅, ?_, hcreating, hdestroying, fun hvalidating => ?_⟩
      · exact hwanes₄.drained (hwanes₃.drained hdrained₂)
      · exact Nat.le_zero.1 (hsize₃ hvalidating ▸ hwanes₄.size)

/-- After a shutdown everything that is left of the pool is in validation or on the shelf, and the
pool is and remains empty, with every connection destroyed, exactly if there is nothing. This is
so if nothing was in validation when the clear swept the shelf. -/
theorem shutdown_complete_iff {swept : Pool Connection} (h : Shutdown i swept trace m)
    (hp : m.pool? i = some p) :
    p.size = p.available.length + p.validating ∧
      ((∀ t m', Path m t m' → m'.Emptied i (trace ++ t)) ↔
        p.available.length = 0 ∧ p.validating = 0) ∧
      (swept.validating = 0 → p.available.length = 0 ∧ p.validating = 0) := by
  obtain ⟨hrun, p', hp', hdrained, hcreating, hdestroying, hswept⟩ := h.cases
  cases hp'.symm.trans hp
  have hsize : p.size = p.available.length + p.validating := by
    have hbooks := (hrun.free.ledger.placed i p ((pool?_eq _ _).symm.trans hp)).sound.books
    have hloans := hdrained.size_loans
    rw [List.length_nil] at hbooks
    rw [Pool.size]
    omega
  refine ⟨hsize, ⟨fun hemptied => ?_, fun hempty t m' hpath => ?_⟩, fun hvalidating => ?_⟩
  · obtain ⟨q, hq, hzero, -⟩ := (hemptied [] m (.stay m)).pool
    cases hq.symm.trans hp
    omega
  · obtain ⟨q, hq, hwanes⟩ := hpath.wanes hrun hp hdrained.toQuiet
    refine (hrun.path hpath).emptied hq (hwanes.drained hdrained) ?_
    have := hwanes.rest
    omega
  · have := hswept hvalidating
    omega

/-- A connection is lent and given back while its pool drains. -/
def lentWhileDraining : List Choice :=
  [.build { max := 1, testOnBorrow := true } {},
    .begin (.acquire 0 "a" 0), .part 0, .perform 0, .part 1, .part 1, .perform 0, .part 2, .part 2,
    .perform 0, .part 0,
    .begin (.drain 0 "b"), .part 3, .part 3, .begin (.release 0 "a"), .part 4, .part 3, .part 3]

theorem shutdown_complete_lentWhileDraining : ∃ swept trace m, Shutdown 0 swept trace m ∧
    swept.available.length = 1 ∧ m.Emptied 0 trace ∧ destroyed trace 0 = [(1, 1)] := by
  obtain ⟨swept, trace, m, h, hswept, hvalidating, hdestroyed⟩ : ∃ swept trace m,
      Shutdown 0 swept trace m ∧ swept.available.length = 1 ∧ swept.validating = 0 ∧
        destroyed trace 0 = [(1, 1)] := by
    refine ⟨_, _, _, .cleared 3 5 (run_scheduled lentWhileDraining)
      (move_of_choose (show Machine.choose _ (.part 3) = some _ from rfl)) ⟨_, rfl, rfl, rfl, rfl⟩
      (path_follow _ [.begin (.clear 0 "c"), .part 5]) (by decide)
      (move_of_choose (show Machine.choose _ (.part 5) = some _ from rfl)) ⟨_, rfl, rfl, rfl, rfl⟩
      rfl (path_follow _ [.perform 0, .part 6, .part 6])
      (move_of_choose (show Machine.choose _ (.part 5) = some _ from rfl))
      ⟨_, rfl, rfl, rfl, rfl⟩, rfl, rfl, by decide⟩
  obtain ⟨-, p, hp, -⟩ := h.cases
  obtain ⟨-, hcomplete, hempty⟩ := shutdown_complete_iff h hp
  have hemptied := hcomplete.2 (hempty hvalidating) [] m (.stay m)
  rw [List.append_nil] at hemptied
  exact ⟨swept, trace, m, h, hswept, hemptied, hdestroyed⟩

/-- A connection is validated for a caller whose time is up before the pool is drained. -/
def validatedLate : List Choice :=
  [.build { max := 1, testOnBorrow := true, acquireTimeout := some 10 }
      { validation := { delay := 100 } },
    .begin (.acquire 0 "a" 0), .part 0, .perform 0, .part 1, .part 1, .perform 0, .part 2,
    .part 0, .sleep 10, .part 0, .part 0, .part 0, .part 0,
    .begin (.drain 0 "b"), .part 3, .part 3, .part 3, .part 3]

theorem not_forall_emptied :
    ¬ ∀ i swept trace m, Shutdown i swept trace m → m.Emptied i trace := by
  intro h
  have hshutdown : Shutdown 0 _ _ _ := .cleared 3 4 (run_scheduled validatedLate)
    (move_of_choose (show Machine.choose _ (.part 3) = some _ from rfl)) ⟨_, rfl, rfl, rfl, rfl⟩
    (path_follow _ [.begin (.clear 0 "c"), .part 4]) (by decide)
    (move_of_choose (show Machine.choose _ (.part 4) = some _ from rfl)) ⟨_, rfl, rfl, rfl, rfl⟩
    rfl (.stay _)
    (move_of_choose (show Machine.choose _ (.part 4) = some _ from rfl)) ⟨_, rfl, rfl, rfl, rfl⟩
  obtain ⟨p, hp, hsize, -⟩ := (h 0 _ _ _ hshutdown).pool
  cases hp
  exact absurd hsize (by decide)

end PooledSql
