import PooledSql.Proofs.Pool.Minimum
import PooledSql.Proofs.Pool.Orders

/-!
# Recycling

A lease comes back to its pool in one of three sections: it is given back, it is let go, or it is
found that nobody awaits it when it is delivered. In all of them the resource is destroyed if it is
old enough and the pool stays at its minimum without it, and is offered to the next caller
otherwise.
-/

namespace PooledSql

variable {ρ : Type}

namespace Pool

variable {p p' : Pool ρ} {now : Instant} {sample age : Duration} {x : Pooled ρ} {l : Lease ρ}
variable {loan : Loan} {hand : List Nat} {r : Nat × ρ}

/-- A resource is recycled that has reached its age limit, less a part of the jitter, if it is one
too many. -/
theorem recycles_iff : p.recycles sample age = true ↔ p.config.min < p.size ∧
    ∃ c t, p.recycling = some c ∧ c.timeout = some t ∧ t - min sample c.jitter ≤ age := by
  rw [recycles, Bool.and_eq_true, decide_eq_true_iff]
  refine and_congr Iff.rfl ?_
  cases p.recycling with
  | none => simp
  | some c => cases htimeout : c.timeout <;> simp [RecyclingConfig.isDue, htimeout]

/-! ## Resources that are offered -/

/-- The resource is on the shelf, or on its way from there to a caller. -/
def Offers (p : Pool ρ) (r : Nat × ρ) : Prop :=
  (∃ x ∈ p.available.toList, x.item = r) ∨ (∃ x, .validate x ∈ p.outbox ∧ x.item = r) ∨
    ∃ call l, .deliver call l ∈ p.outbox ∧ l.item = r

theorem Offers.mono (h : p.Offers r) (havailable : p.available.toList ⊆ p'.available.toList)
    (houtbox : p.outbox ⊆ p'.outbox) : p'.Offers r := by
  obtain ⟨x, hx, hr⟩ | ⟨x, hx, hr⟩ | ⟨call, l, hl, hr⟩ := h
  · exact .inl ⟨x, havailable hx, hr⟩
  · exact .inr (.inl ⟨x, houtbox hx, hr⟩)
  · exact .inr (.inr ⟨call, l, houtbox hl, hr⟩)

theorem mem_shelve (hwf : p.available.Wf) (now : Instant) (x : Pooled ρ) :
    x.settle now ∈ (p.shelve now x).available.toList ∧
      p.available.toList ⊆ (p.shelve now x).available.toList := by
  rw [shelve]
  dsimp only
  split
  · rw [hwf.toList_push]
    exact ⟨List.mem_append_right _ (List.mem_singleton_self _), List.subset_append_left _ _⟩
  · rw [hwf.toList_unshift]
    exact ⟨List.mem_cons_self, List.subset_cons_self _ _⟩

/-- A resource in hand is lent, or put on the shelf. -/
theorem Sound.offers_lend (h : p.Sound hand) (now : Instant) (x : Pooled ρ) :
    (p.lend now x).Offers x.item ∧ ∀ r, p.Offers r → (p.lend now x).Offers r := by
  obtain ⟨call, waiting, -, -, -, heq⟩ | ⟨waiting, -, -, -, heq⟩ :=
    lend_cases h.queue now x <;> rw [heq]
  · refine ⟨.inr (.inr ⟨call, _, List.mem_append_right _ (List.mem_singleton_self _), rfl⟩),
      fun r hr => hr.mono (List.Subset.refl _) (List.subset_append_left _ _)⟩
  · obtain ⟨hmem, hsubset⟩ := mem_shelve (p := { p with waiting }) h.shelf now x
    exact ⟨.inl ⟨_, hmem, rfl⟩, fun r hr => hr.mono hsubset (List.Subset.refl _)⟩

/-- A pass goes on to offer what was offered, unless it has something destroyed. -/
theorem Sound.offers_pass (h : p.Sound hand) (hpass : Pass now p p') (hr : p.Offers r) :
    p'.Offers r ∨ p.destroying < p'.destroying := by
  -- the resource is still offered, or it was taken from the shelf
  have htake : ∀ {x : Pooled ρ} {rest : Deque (Pooled ρ)},
      p.available.shift = some (x, rest) →
      ({ p with available := rest } : Pool ρ).Offers r ∨ x.item = r := by
    intro x rest hshift
    obtain ⟨-, hlist⟩ := h.shelf.of_shift hshift
    obtain ⟨y, hy, hr⟩ | hposted := hr
    · rw [hlist] at hy
      obtain rfl | hy := List.mem_cons.1 hy
      · exact .inr hr
      · exact .inl (.inl ⟨y, hy, hr⟩)
    · exact .inl (.inr hposted)
  cases hpass with
  | order room need =>
      exact .inl (hr.mono (List.Subset.refl _) (List.subset_append_left _ _))
  | @test x rest shift testing need =>
      obtain hr | rfl := htake shift
      · exact .inl (hr.mono (List.Subset.refl _) (List.subset_append_left _ _))
      · exact .inl (.inr (.inl ⟨_, List.mem_append_right _ (List.mem_singleton_self _), rfl⟩))
  | @lend x rest shift testing =>
      obtain ⟨hlent, hrest⟩ := (h.of_shift shift).offers_lend now x
      obtain hr | rfl := htake shift
      · exact .inl (hrest r hr)
      · exact .inl hlent
  | cull => exact .inr (Nat.lt_succ_self _)
  | note => exact .inl hr

theorem Pass.destroying_le (h : Pass now p p') : p.destroying ≤ p'.destroying := by
  cases h with
  | @lend x rest shift testing =>
      exact (grows_lend ({ p with available := rest } : Pool ρ) now x).destroying.ge
  | cull => exact Nat.le_succ _
  | _ => exact le_rfl

theorem Passes.destroying_le (h : Passes now p p') : p.destroying ≤ p'.destroying := by
  induction h with
  | refl => exact le_rfl
  | tail _ hlast ih => exact ih.trans hlast.destroying_le

theorem Sound.offers_passes (h : p.Sound hand) (hpasses : Passes now p p') (hr : p.Offers r) :
    p'.Offers r ∨ p.destroying < p'.destroying := by
  induction hpasses with
  | refl => exact .inl hr
  | tail hfirst hlast ih =>
      obtain hr | hlt := ih
      · exact ((h.passes hfirst).offers_pass hlast hr).imp_right
          (Passes.destroying_le hfirst).trans_lt
      · exact .inr (hlt.trans_le hlast.destroying_le)

theorem Sound.offers_dispatch (h : p.Sound hand) (now : Instant) (hr : p.Offers r) :
    (p.dispatch now).Offers r :=
  (h.offers_passes (h.passes_dispatch now) hr).resolve_right
    (grows_dispatch p now).destroying.le.not_gt

/-! ## Leases that come back -/

/-- The resource is offered again; if nobody waits it is on the shelf. -/
def Restores (p : Pool ρ) (r : Nat × ρ) (p' : Pool ρ) : Prop :=
  p'.Offers r ∧ (p.waiting.length = 0 → ∃ x ∈ p'.available.toList, x.item = r)

/-- A lease that is given back is recycled or kept, by the age that the books say. -/
theorem Sound.giveBack_cases (h : p.Sound []) (hloan : p.loans.get? l.id = some loan)
    (now : Instant) (sample : Duration) :
    (p.recycles sample (Instant.since now loan.createdAt) = true ∧
      (p.giveBack now sample l).1 = .ok (some (l.returned loan).condemn) ∧
      p.config.min ≤ (p.giveBack now sample l).2.size) ∨
    (p.recycles sample (Instant.since now loan.createdAt) = false ∧
      (p.giveBack now sample l).1 = .ok none ∧
      p.Restores l.item (p.giveBack now sample l).2) := by
  obtain ⟨hback, -⟩ := h.of_loan (Registry.mem_keys_of_get? hloan)
  cases hdue : p.recycles sample (Instant.since now loan.createdAt) with
  | true =>
      rw [giveBack_recycled hloan hdue]
      have hlt : p.config.min < p.size := (recycles_iff.1 hdue).1
      refine .inl ⟨rfl, rfl,
        le_trans ?_ ((grows_ensureMinimum _).trans (grows_dispatch _ now)).size⟩
      change p.config.min ≤ p.allObjects - 1 + p.creating
      rw [size] at hlt
      omega
  | false =>
      rw [giveBack_kept hloan hdue]
      obtain ⟨hmem, -⟩ := mem_shelve (p := p.endLoan l.id) h.shelf now (l.returned loan)
      refine .inr ⟨rfl, rfl, ?_, fun hzero => ?_⟩
      · exact (Sound.shelve (x := l.returned loan) hback).offers_dispatch now (.inl ⟨_, hmem, rfl⟩)
      · rw [dispatch, if_pos]
        · exact ⟨_, hmem, rfl⟩
        · exact hzero

/-- The same decision is made for a lease that is let go. -/
theorem Sound.reclaim_cases (h : p.Sound []) (hloan : p.loans.get? l.id = some loan)
    (now : Instant) (sample : Duration) :
    (p.recycles sample (Instant.since now loan.createdAt) = true ∧
      .destroy (l.returned loan).condemn ∈ (p.reclaim now sample l).outbox ∧
      p.config.min ≤ (p.reclaim now sample l).size) ∨
    (p.recycles sample (Instant.since now loan.createdAt) = false ∧
      p.Restores l.item (p.reclaim now sample l)) := by
  obtain ⟨hdue, hfst, hsize⟩ | ⟨hkeep, hfst, hrestores⟩ := h.giveBack_cases hloan now sample
  · rcases hback : p.giveBack now sample l with ⟨answer, q⟩
    rw [hback] at hfst hsize
    cases (show answer = _ from hfst)
    simp only [reclaim, hback]
    exact .inl ⟨hdue, List.mem_append_right _ (List.mem_singleton_self _), hsize⟩
  · rcases hback : p.giveBack now sample l with ⟨answer, q⟩
    rw [hback] at hfst hrestores
    cases (show answer = _ from hfst)
    simp only [reclaim, hback]
    exact .inr ⟨hkeep, hrestores⟩

end Pool

namespace Section

open Pool

variable {p : Pool ρ} {s : Section ρ} {now : Instant} {sample : Duration} {l : Lease ρ}

/-- In this section a lease comes back to the pool. A caller who is done, or whose job went well,
gives it back; a lease is let go when it is dropped, when its caller has gone, and when another
pool has refused it. -/
inductive TakesBack (p : Pool ρ) (now : Instant) (sample : Duration) (l : Lease ρ) :
    Section ρ → Prop where
  | giveBack : TakesBack p now sample l (.giveBack now sample l)
  | reclaim : TakesBack p now sample l (.reclaim now sample l)
  /-- Nobody awaits it any more when it is delivered. -/
  | deliver {before after : List (Action ρ)} {call : CallId}
      (h : (p.deliver call l).1.isSome = true) :
      TakesBack p now sample l (.deliver now sample before call l after)

/-- The resource of the lease is to be destroyed: the one who gave the lease back has it, or an
action waits for it. -/
def Recycles (p : Pool ρ) (l : Lease ρ) (s : Section ρ) : Prop :=
  ∃ x, x.item = l.item ∧ (.destroy x ∈ (s.run p).outbox ∨
    ∃ now sample, s = .giveBack now sample l ∧ (p.giveBack now sample l).1 = .ok (some x))

/-- In every section a lease that comes back is recycled or kept, by the age that the books say. -/
theorem TakesBack.cases (hback : s.TakesBack p now sample l) (h : p.Sound []) (hs : s.Ready p) :
    ∃ loan, p.loans.get? l.id = some loan ∧
      ((p.recycles sample (Instant.since now loan.createdAt) = true ∧ s.Recycles p l ∧
          p.config.min ≤ (s.run p).size) ∨
        (p.recycles sample (Instant.since now loan.createdAt) = false ∧
          p.Restores l.item (s.run p))) := by
  have hlent : l.id ∈ p.loans.keys := by
    cases hback with
    | giveBack | reclaim => exact hs
    | deliver => exact hs.2.1
  obtain ⟨loan, hloan⟩ := Option.isSome_iff_exists.1 (Registry.get?_isSome_iff.2 hlent)
  refine ⟨loan, hloan, ?_⟩
  cases hback with
  | giveBack =>
      obtain ⟨hdue, hfst, hsize⟩ | ⟨hkeep, -, hrestores⟩ := h.giveBack_cases hloan now sample
      · exact .inl ⟨hdue, ⟨_, rfl, .inr ⟨now, sample, rfl, hfst⟩⟩, hsize⟩
      · exact .inr ⟨hkeep, hrestores⟩
  | reclaim =>
      obtain ⟨hdue, hposted, hsize⟩ | ⟨hkeep, hrestores⟩ := h.reclaim_cases hloan now sample
      · exact .inl ⟨hdue, ⟨_, rfl, .inl hposted⟩, hsize⟩
      · exact .inr ⟨hkeep, hrestores⟩
  | @deliver before after call hunawaited =>
      obtain ⟨calls, heq, -⟩ | ⟨calls, heq, hdeal⟩ :=
        (h.deal_unpost hs.1).sound.deal_deliver call hs.2.2
      · rw [← deliver_fst p (before ++ after), heq] at hunawaited
        cases hunawaited
      · have hempty : ({ p with outbox := [], calls } : Pool ρ).Sound [] := { hdeal.sound with }
        rw [Recycles, run]
        simp only [heq]
        obtain ⟨hdue, hposted, hsize⟩ | ⟨hkeep, hoffers, hshelf⟩ :=
          hempty.reclaim_cases hloan now sample
        · exact .inl ⟨hdue, ⟨_, rfl, .inl (List.mem_append_left _ hposted)⟩, hsize⟩
        · exact .inr ⟨hkeep, hoffers.mono (List.Subset.refl _) (List.subset_append_left _ _),
            hshelf⟩

end Section

end PooledSql
