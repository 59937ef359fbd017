import Mathlib
import PooledSql.Collections.Registry

/-!
# Counting in registries

What the values of a registry hold between them is counted with `Registry.gather`. Inserting and
erasing change such a count by what the one value holds, as long as no number occurs twice.
-/

namespace PooledSql.Registry

variable {α β : Type} {r r' : Registry α} {key other : Nat} {value found : α}

/-- All that the values of a registry hold. -/
def gather (r : Registry α) (f : α → List β) : List β := r.entries.flatMap fun entry => f entry.2

@[simp] theorem keys_empty : (empty : Registry α).keys = [] := rfl
@[simp] theorem get?_empty : (empty : Registry α).get? key = none := rfl
@[simp] theorem gather_empty (f : α → List β) : (empty : Registry α).gather f = [] := rfl
@[simp] theorem length_keys (r : Registry α) : r.keys.length = r.size := by simp [keys, size]

theorem isEmpty_iff : r.isEmpty = true ↔ r.keys = [] := by simp [isEmpty, keys]

/-! ## Looking up -/

theorem get?_isSome_iff : (r.get? key).isSome = true ↔ key ∈ r.keys := by
  obtain ⟨entries⟩ := r
  induction entries with
  | nil => simp [get?, keys]
  | cons entry entries ih =>
      obtain ⟨k, v⟩ := entry
      simp only [get?, keys, List.map_cons, List.mem_cons, List.lookup_cons] at ih ⊢
      by_cases h : key = k
      · simp [h]
      · simp [beq_false_of_ne h, h, ih]

theorem get?_eq_none_iff : r.get? key = none ↔ key ∉ r.keys := by
  rw [← get?_isSome_iff]
  simp

theorem mem_keys_of_get? (h : r.get? key = some value) : key ∈ r.keys :=
  get?_isSome_iff.1 (by simp [h])

theorem mem_entries_of_get? (h : r.get? key = some value) : (key, value) ∈ r.entries := by
  obtain ⟨before, after, hentries, -⟩ := List.lookup_eq_some_iff.1 h
  rw [hentries]
  simp

theorem get?_of_mem_entries (hkeys : r.keys.Nodup) (h : (key, value) ∈ r.entries) :
    r.get? key = some value := by
  obtain ⟨found, hfound⟩ := Option.isSome_iff_exists.1
    (get?_isSome_iff.2 (List.mem_map_of_mem h))
  rw [hfound]
  have hpair := List.inj_on_of_nodup_map hkeys h (mem_entries_of_get? hfound) rfl
  rw [(Prod.mk.inj hpair).2]

theorem get?_erase : (r.erase key).get? other = if other = key then none else r.get? other := by
  obtain ⟨entries⟩ := r
  induction entries with
  | nil => simp [get?, erase]
  | cons entry entries ih =>
      obtain ⟨k, v⟩ := entry
      simp only [get?, erase, List.filter_cons, List.lookup_cons] at ih ⊢
      by_cases hother : other = k
      · subst hother
        by_cases hkey : other = key
        · subst hkey
          simpa using ih
        · simp [hkey]
      · by_cases hkey : k = key
        · simp [hkey, beq_false_of_ne (hkey ▸ hother), ih]
        · simp [hkey, beq_false_of_ne hother, List.lookup_cons, ih]

theorem get?_insert :
    (r.insert key value).get? other = if other = key then some value else r.get? other := by
  change List.lookup other ((key, value) :: (r.erase key).entries) = _
  rw [List.lookup_cons]
  by_cases h : other = key
  · simp [h]
  · rw [beq_false_of_ne h, if_neg h]
    exact get?_erase.trans (if_neg h)

theorem get?_erase_of_ne (h : other ≠ key) : (r.erase key).get? other = r.get? other :=
  get?_erase.trans (if_neg h)

theorem get?_insert_of_ne (h : other ≠ key) : (r.insert key value).get? other = r.get? other :=
  get?_insert.trans (if_neg h)

/-- What is found after an entry was erased was there before. -/
theorem get?_of_erase (h : (r.erase key).get? other = some found) :
    other ≠ key ∧ r.get? other = some found := by
  rw [get?_erase] at h
  split at h
  · cases h
  · exact ⟨‹_›, h⟩

/-- What is found after an entry was made is that entry or was there before. -/
theorem get?_insert_cases (h : (r.insert key value).get? other = some found) :
    (other = key ∧ found = value) ∨ (other ≠ key ∧ r.get? other = some found) := by
  rw [get?_insert] at h
  split at h
  · exact .inl ⟨‹_›, (Option.some_inj.1 h).symm⟩
  · exact .inr ⟨‹_›, h⟩

/-! ## Numbers -/

theorem get?_erase_self : (r.erase key).get? key = none := get?_erase.trans (if_pos rfl)

theorem get?_insert_self : (r.insert key value).get? key = some value :=
  get?_insert.trans (if_pos rfl)

theorem keys_erase : (r.erase key).keys = r.keys.filter (· != key) := by
  simp only [keys, erase, List.filter_map]
  rfl

theorem nodup_keys_erase (h : r.keys.Nodup) : (r.erase key).keys.Nodup := by
  rw [keys_erase]
  exact h.filter _

theorem keys_insert : (r.insert key value).keys = key :: (r.erase key).keys := rfl

theorem nodup_keys_insert (h : r.keys.Nodup) : (r.insert key value).keys.Nodup := by
  rw [keys_insert, List.nodup_cons]
  exact ⟨by simp [keys_erase], nodup_keys_erase h⟩

theorem mem_keys_insert : other ∈ (r.insert key value).keys ↔ other = key ∨ other ∈ r.keys := by
  rw [keys_insert, List.mem_cons, keys_erase, List.mem_filter]
  by_cases h : other = key <;> simp [h]

theorem mem_keys_erase : other ∈ (r.erase key).keys ↔ other ≠ key ∧ other ∈ r.keys := by
  rw [keys_erase, List.mem_filter, bne_iff_ne, and_comm]

theorem erase_of_notMem (h : key ∉ r.keys) : r.erase key = r := by
  obtain ⟨entries⟩ := r
  simp only [erase, Registry.mk.injEq, List.filter_eq_self, bne_iff_ne]
  rintro entry hentry rfl
  exact h (List.mem_map_of_mem hentry)

theorem perm_keys_erase (hkeys : r.keys.Nodup) (h : key ∈ r.keys) :
    r.keys.Perm (key :: (r.erase key).keys) := by
  rw [keys_erase, ← hkeys.erase_eq_filter]
  exact List.perm_cons_erase h

theorem size_erase (hkeys : r.keys.Nodup) (h : key ∈ r.keys) :
    (r.erase key).size + 1 = r.size := by
  rw [← length_keys, ← length_keys, (perm_keys_erase hkeys h).length_eq]
  rfl

theorem erase_insert (r : Registry α) (key : Nat) (value : α) :
    (r.insert key value).erase key = r.erase key := by
  simp [insert, erase]

theorem size_insert (value : α) (h : key ∉ r.keys) : (r.insert key value).size = r.size + 1 := by
  rw [insert, erase_of_notMem h]
  rfl

/-! ## Counting -/

theorem mem_gather {f : α → List β} {b : β} (h : r.get? key = some value) (hb : b ∈ f value) :
    b ∈ r.gather f :=
  List.mem_flatMap.2 ⟨(key, value), mem_entries_of_get? h, hb⟩

/-- What an entry holds is gone from a list when the entry is. -/
theorem countP_flatMap_filter {κ : Type} [BEq κ] [LawfulBEq κ] {l : List (κ × α)} {k : κ}
    (f : κ × α → List β) (q : β → Bool) (hkeys : (l.map (·.1)).Nodup)
    (h : l.lookup k = some value) :
    (l.flatMap f).countP q =
      ((l.filter (·.1 != k)).flatMap f).countP q + (f (k, value)).countP q := by
  obtain ⟨before, after, rfl, hbefore⟩ := List.lookup_eq_some_iff.1 h
  rw [List.map_append, List.map_cons, List.nodup_append, List.nodup_cons] at hkeys
  obtain ⟨-, ⟨hafter, -⟩, -⟩ := hkeys
  have hfilter : (before ++ (k, value) :: after).filter (·.1 != k) = before ++ after := by
    rw [List.filter_append, List.filter_cons_of_neg (by simp)]
    congr 1 <;> rw [List.filter_eq_self] <;> intro entry hentry
    · rw [bne_iff_ne]
      have := hbefore entry hentry
      rw [bne_iff_ne] at this
      exact this.symm
    · rw [bne_iff_ne]
      intro heq
      rw [← heq] at hafter
      exact hafter (List.mem_map.2 ⟨entry, hentry, rfl⟩)
  rw [hfilter]
  simp only [List.flatMap_append, List.flatMap_cons, List.countP_append]
  omega

theorem countP_gather_erase (f : α → List β) (q : β → Bool) (hkeys : r.keys.Nodup)
    (h : r.get? key = some value) :
    (r.gather f).countP q = ((r.erase key).gather f).countP q + (f value).countP q :=
  countP_flatMap_filter (fun entry => f entry.2) q hkeys h

theorem countP_gather_insert (r : Registry α) (key : Nat) (value : α) (f : α → List β)
    (q : β → Bool) :
    ((r.insert key value).gather f).countP q =
      ((r.erase key).gather f).countP q + (f value).countP q := by
  simp only [gather, insert, List.flatMap_cons, List.countP_append]
  omega

theorem countP_gather_add (value : α) (f : α → List β) (q : β → Bool) (h : key ∉ r.keys) :
    ((r.insert key value).gather f).countP q = (r.gather f).countP q + (f value).countP q := by
  rw [countP_gather_insert, erase_of_notMem h]

/-- The values of a registry whose entries are all in another one hold no more. -/
theorem countP_gather_le (hkeys : r'.keys.Nodup)
    (h : ∀ k value, r'.get? k = some value → r.get? k = some value) (f : α → List β)
    (q : β → Bool) : (r'.gather f).countP q ≤ (r.gather f).countP q := by
  have hsubset : r'.entries ⊆ r.entries := by
    rintro ⟨k, v⟩ hmem
    exact mem_entries_of_get? (h k v (get?_of_mem_entries hkeys hmem))
  obtain ⟨l, hperm, hsub⟩ := List.subperm_of_subset (List.Nodup.of_map _ hkeys) hsubset
  rw [gather, gather, ← (hperm.flatMap_right _).countP_eq]
  exact (hsub.flatMap _).countP_le

theorem countP_gather_eq (hkeys : r.keys.Nodup) (key : Nat) (f : α → List β) (q : β → Bool) :
    (r.gather f).countP q =
      ((r.erase key).gather f).countP q + ((r.get? key).elim [] f).countP q := by
  cases hget : r.get? key with
  | none =>
      rw [erase_of_notMem (get?_eq_none_iff.1 hget)]
      rfl
  | some value => exact countP_gather_erase f q hkeys hget

/-- What the values hold becomes more by no more than what the value of one number holds, if all
others are the same or gone. -/
theorem countP_gather_le_of_others (hkeys : r.keys.Nodup) (hkeys' : r'.keys.Nodup) (key : Nat)
    (h : ∀ k value, k ≠ key → r'.get? k = some value → r.get? k = some value) (f : α → List β)
    (q : β → Bool) :
    (r'.gather f).countP q + ((r.get? key).elim [] f).countP q ≤
      (r.gather f).countP q + ((r'.get? key).elim [] f).countP q := by
  have hothers : ((r'.erase key).gather f).countP q ≤ ((r.erase key).gather f).countP q := by
    apply countP_gather_le (nodup_keys_erase hkeys')
    intro k value hk
    obtain ⟨hne, hthere⟩ := get?_of_erase hk
    rw [get?_erase_of_ne hne]
    exact h k value hne hthere
  have hbefore := countP_gather_eq hkeys key f q
  have hafter := countP_gather_eq hkeys' key f q
  omega

/-- What is held, by number, without the values that hold nothing. -/
def shares (r : Registry α) (f : α → List β) : List (Nat × List β) :=
  (r.entries.map fun entry => (entry.1, f entry.2)).filter (!·.2.isEmpty)

theorem gather_eq_flatMap (r : Registry α) (f : α → List β) :
    r.gather f = (r.shares f).flatMap (·.2) := by
  rw [gather, shares]
  induction r.entries with
  | nil => rfl
  | cons entry entries ih =>
      rw [List.flatMap_cons, List.map_cons, List.filter_cons, ih]
      cases hf : f entry.2 <;> simp

theorem mem_shares (hkeys : r.keys.Nodup) {f : α → List β} {held : List β} :
    (key, held) ∈ r.shares f ↔ held ≠ [] ∧ (r.get? key).elim [] f = held := by
  simp only [shares, List.mem_filter, List.mem_map, Prod.mk.injEq, Prod.exists, ne_eq,
    Bool.not_eq_true', List.isEmpty_eq_false_iff]
  constructor
  · rintro ⟨⟨k, value, hmem, rfl, rfl⟩, hheld⟩
    rw [get?_of_mem_entries hkeys hmem]
    exact ⟨hheld, rfl⟩
  · rintro ⟨hheld, rfl⟩
    cases hget : r.get? key with
    | none =>
        rw [hget] at hheld
        exact absurd rfl hheld
    | some value =>
        rw [hget] at hheld
        exact ⟨⟨key, value, mem_entries_of_get? hget, rfl, rfl⟩, hheld⟩

theorem nodup_shares (hkeys : r.keys.Nodup) (f : α → List β) : (r.shares f).Nodup := by
  refine List.Nodup.filter _ (List.Nodup.of_map (·.1) ?_)
  rw [List.map_map]
  exact hkeys

/-- Registries in which each number holds the same hold the same between them. -/
theorem perm_gather (hkeys : r.keys.Nodup) (hkeys' : r'.keys.Nodup) {f : α → List β}
    (h : ∀ k, (r'.get? k).elim [] f = (r.get? k).elim [] f) :
    (r'.gather f).Perm (r.gather f) := by
  rw [gather_eq_flatMap, gather_eq_flatMap]
  apply List.Perm.flatMap_right
  rw [List.perm_ext_iff_of_nodup (nodup_shares hkeys' f) (nodup_shares hkeys f)]
  rintro ⟨k, held⟩
  rw [mem_shares hkeys', mem_shares hkeys, h]

/-- What the values hold changes by what the value of one number holds, if all others hold the
same. -/
theorem countP_gather_of_others (hkeys : r.keys.Nodup) (hkeys' : r'.keys.Nodup) (key : Nat)
    {f : α → List β} (h : ∀ k, k ≠ key → (r'.get? k).elim [] f = (r.get? k).elim [] f)
    (q : β → Bool) :
    (r'.gather f).countP q + ((r.get? key).elim [] f).countP q =
      (r.gather f).countP q + ((r'.get? key).elim [] f).countP q := by
  have hothers : ((r'.erase key).gather f).countP q = ((r.erase key).gather f).countP q := by
    apply (perm_gather (nodup_keys_erase hkeys) (nodup_keys_erase hkeys') fun k => ?_).countP_eq
    rw [get?_erase, get?_erase]
    split
    · rfl
    · rename_i hne
      exact h k hne
  have hbefore := countP_gather_eq hkeys key f q
  have hafter := countP_gather_eq hkeys' key f q
  omega

end PooledSql.Registry
