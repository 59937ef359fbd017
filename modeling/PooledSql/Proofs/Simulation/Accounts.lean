import PooledSql.Proofs.Simulation.Readiness

/-!
# Accounts

A move keeps the accounts of a ledger: what a section does to the books and tokens of its pool and
what the move does to the tokens outside cancel out.
-/

namespace PooledSql

open Machine

variable {m : Machine} {s s' : Scene} {id : TaskId} {task : Task} {site : Site} {phase : Phase}
variable {d : Deed} {trace : List Deed} {i : Nat} {p : Pool Connection}

/-! ## Resources that are made -/

/-- What comes into being with a deed is a resource with the next number of its pool. -/
def Deed.Makes (s : Scene) (d : Deed) : Prop :=
  d.sources = [] ∨ ∃ i x p n, d.change = some (i, x) ∧ x.made = 1 ∧ s.pools[i]? = some p ∧
    d.sources = [(i, .resource (p.nextResource, n))]

theorem Turn.makes (h : Turn m id task site phase d s') (hsite : m.sites[task.pool]? = some site) :
    d.Makes m.scene := by
  cases h with
  | @created episode due made hmade =>
      cases made with
      | none => exact .inl rfl
      | some c =>
          exact .inr ⟨task.pool, _, site.pool, c.number, rfl, rfl, pools_of_site hsite, rfl⟩
  | _ => exact .inl rfl

theorem Act.makes (h : Act m d s') : d.Makes m.scene := by
  cases h with
  | @abandon index pool before after action =>
      refine .inl ?_
      cases action <;> rfl
  | stop =>
      rw [stopDeed]
      split <;> exact .inl rfl
  | _ => exact .inl rfl

/-! ## Books, tokens and numbers -/

theorem Pool.Placed.section {x : Section Connection} (h : p.Placed i) (hx : x.Ready p) :
    (x.run p).Placed i where
  sound := (Section.deal h.sound hx).sound
  id := (Section.deal h.sound hx).exchange.id.trans h.id
  lender l hl := by
    rcases (Section.deal h.sound hx).exchange.lender l hl with hl | hl | hl
    · exact h.lender l (.inl hl)
    · exact h.lender l (.inr hl)
    · exact hl.trans h.id

theorem Pool.placed_idle (i : Nat) (config : PoolConfig) (policy : EvictionPolicy)
    (recycling : Option RecyclingConfig) : (idle i config policy recycling).Placed i where
  sound := sound_idle i config policy recycling
  id := rfl
  lender _ hl := absurd hl (by simp [delivering, unreceived, idle])

/-- A deed changes the books and the tokens of pools by what its section takes and gives. -/
theorem book_add_takes
    (hplaced : ∀ (i : Nat) (p : Pool Connection), s.pools[i]? = some p → p.Placed i)
    (hadvances : s.Advances d s') (hready : d.Ready s) (i : Nat) (a : Account Nat) :
    s'.book i a + ((d.takes s).countP (a.at i) + s.inside i a) =
      s.book i a + ((d.gives s).countP (a.at i) + s'.inside i a) := by
  rw [Scene.book, Scene.book, Scene.inside, Scene.inside, hadvances i]
  cases hchange : d.change with
  | none =>
      have hrun : d.run i = id := by
        funext p
        exact Deed.run_eq_self (by simp [hchange]) p
      simp only [Deed.takes, Deed.gives, hchange, hrun, Option.map_id, id, List.countP_nil]
  | some change =>
      obtain ⟨index, x⟩ := change
      simp only [Deed.takes, Deed.gives, hchange]
      by_cases hi : index = i
      · subst hi
        cases hp : s.pools[index]? with
        | none => rfl
        | some p =>
            have hdeal := Section.deal (hplaced index p hp).sound (hready index x hchange p hp)
            have hbalance := hdeal.exchange.balance (a.comap (·.number))
            simp only [Option.map_some, Option.getD_some, countP_tag, Deed.run_of_change hchange]
            exact hbalance
      · have hrun : d.run i = id := by
          funext p
          exact Deed.run_eq_self (by simp [hchange, hi]) p
        have hnone : ∀ tokens : Pool Connection → List (Token Connection),
            ((s.pools[index]?.map fun p => tag index (tokens p)).getD []).countP (a.at i) = 0 := by
          intro tokens
          cases s.pools[index]? with
          | none => rfl
          | some p => exact countP_tag_of_ne (Ne.symm hi) a _
        rw [hnone, hnone, hrun, Option.map_id, id]

namespace Ledger

theorem balance_move (h : Ledger trace s) (hadvances : s.Advances d s') (hready : d.Ready s)
    (hflow : Flow s d s') (i : Nat) (a : Account Nat) :
    s'.book i a + (sources (trace ++ [d])).countP (a.at i) =
      s'.inside i a + s'.outside.countP (a.at i) + (sinks (trace ++ [d])).countP (a.at i) := by
  have := h.balance i a
  have := book_add_takes h.placed hadvances hready i a
  have := hflow (a.at i)
  simp only [sources_append, sinks_append, List.countP_append]
  omega

theorem placed_move (h : Ledger trace s) (hadvances : s.Advances d s') (hready : d.Ready s)
    (i : Nat) (p' : Pool Connection) (hp' : s'.pools[i]? = some p') : p'.Placed i := by
  rw [hadvances i] at hp'
  obtain ⟨p, hp, rfl⟩ := Option.map_eq_some_iff.1 hp'
  have hplaced := h.placed i p hp
  obtain ⟨-, heq⟩ | ⟨x, hchange, heq⟩ := d.run_cases i p
  · rwa [heq]
  · rw [heq]
    exact hplaced.section (hready i x hchange p hp)

/-- The numbers that were given to resources of a pool are below the next. -/
theorem nextResource_move (hadvances : s.Advances d s') (hp : s.pools[i]? = some p) :
    ∃ p', s'.pools[i]? = some p' ∧ p.nextResource ≤ p'.nextResource ∧
      ∀ x, d.change = some (i, x) → p'.nextResource = p.nextResource + x.made := by
  refine ⟨d.run i p, by rw [hadvances i, hp, Option.map_some], ?_⟩
  obtain ⟨hnone, heq⟩ | ⟨x, hchange, heq⟩ := d.run_cases i p
  · rw [heq]
    refine ⟨le_rfl, ?_⟩
    intro y hy
    exact absurd hy (hnone y)
  · have hnext := (Section.frame p x).nextResource
    rw [heq]
    refine ⟨by omega, ?_⟩
    intro y hy
    cases hchange.symm.trans hy
    exact hnext

theorem numbered_move (h : Ledger trace s) (hadvances : s.Advances d s') (hmakes : d.Makes s)
    (i n : Nat)
    (hpos : 0 < (sources (trace ++ [d])).countP ((Account.resources (·.1 == n)).at i)) :
    ∃ p, s'.pools[i]? = some p ∧ n < p.nextResource := by
  rw [sources_append, List.countP_append] at hpos
  have hold : 0 < (sources trace).countP ((Account.resources (·.1 == n)).at i) →
      ∃ p, s'.pools[i]? = some p ∧ n < p.nextResource := by
    intro hpos
    obtain ⟨p, hp, hlt⟩ := h.numbered i n hpos
    obtain ⟨p', hp', hle, -⟩ := nextResource_move hadvances hp
    exact ⟨p', hp', hlt.trans_le hle⟩
  obtain hnone | ⟨j, x, p, c, hchange, hmade, hp, hsources⟩ := hmakes
  · rw [hnone] at hpos
    exact hold hpos
  · obtain ⟨p', hp', -, hnext⟩ := nextResource_move hadvances hp
    rw [hsources] at hpos
    by_cases hn : j = i ∧ p.nextResource = n
    · obtain ⟨rfl, rfl⟩ := hn
      refine ⟨p', hp', ?_⟩
      have := hnext x hchange
      omega
    · have hnew : [((j, .resource (p.nextResource, c)) : Tag)].countP
          ((Account.resources (·.1 == n)).at i) = 0 := by
        simpa [Account.at, Account.covers] using hn
      rw [hnew] at hpos
      exact hold hpos

theorem once_move (h : Ledger trace s) (hmakes : d.Makes s) (i n : Nat) :
    (sources (trace ++ [d])).countP ((Account.resources (·.1 == n)).at i) ≤ 1 := by
  have honce := h.once i n
  rw [sources_append, List.countP_append]
  obtain hnone | ⟨j, x, p, c, -, -, hp, hsources⟩ := hmakes
  · rw [hnone]
    exact honce
  · rw [hsources]
    by_cases hn : j = i ∧ p.nextResource = n
    · obtain ⟨rfl, rfl⟩ := hn
      -- the next number is not one of those that were given
      have hzero : (sources trace).countP
          ((Account.resources (·.1 == p.nextResource)).at j) = 0 := by
        by_contra hne
        obtain ⟨p', hp', hlt⟩ := h.numbered j _ (Nat.pos_of_ne_zero hne)
        cases hp.symm.trans hp'
        exact lt_irrefl _ hlt
      rw [hzero, zero_add]
      exact List.countP_le_length
    · have hnew : [((j, .resource (p.nextResource, c)) : Tag)].countP
          ((Account.resources (·.1 == n)).at i) = 0 := by
        simpa [Account.at, Account.covers] using hn
      rw [hnew]
      exact honce

end Ledger

end PooledSql
