import Mathlib
import PooledSql.Collections.Cursor

/-!
# The order of a deque

`Deque.Lists` says that the links of a deque spell out a list of entries: every entry's handle
means its value, the neighbours' slots agree, and every other slot is free. Each operation is
then described by what it does to that list, and no later proof looks at a link again.
-/

namespace PooledSql.Deque

variable {α : Type} {d e : Deque α} {es l r : List (Handle × α)} {k : Handle} {v w : α}

/-- The slot of an entry. -/
abbrev slotOf (entry : Handle × α) : Nat := entry.1.index

/-- Exactly the slots without a node are free, each once. -/
structure FreeSlots (d : Deque α) : Prop where
  nodup : d.free.Nodup
  vacant : ∀ i, i ∈ d.free ↔ ∃ g, d.slots[i]? = some ⟨g, none⟩

/-- The deque holds these entries, from front to back. -/
structure Lists (d : Deque α) (es : List (Handle × α)) : Prop where
  nodup : (es.map slotOf).Nodup
  head : d.head = es.head?.map slotOf
  tail : d.tail = es.getLast?.map slotOf
  length : d.length = es.length
  slot : ∀ {l k v r}, es = l ++ (k, v) :: r →
    d.slots[k.index]? = some ⟨k.generation, some ⟨v, l.getLast?.map slotOf, r.head?.map slotOf⟩⟩
  occupied : ∀ {i g n}, d.slots[i]? = some ⟨g, some n⟩ → i ∈ es.map slotOf
  free : d.FreeSlots

/-- The links are in order. -/
def Wf (d : Deque α) : Prop := d.Lists d.entries

/-! ## Looking -/

theorem Lists.node? (h : d.Lists (l ++ (k, v) :: r)) :
    d.node? k.index = some ⟨v, l.getLast?.map slotOf, r.head?.map slotOf⟩ := by
  simp [Deque.node?, h.slot rfl]

theorem Lists.handleAt (h : d.Lists (l ++ (k, v) :: r)) : d.handleAt k.index = k := by
  simp [Deque.handleAt, h.slot rfl]

theorem Lists.nodeOf? (h : d.Lists (l ++ (k, v) :: r)) :
    d.nodeOf? k = some ⟨v, l.getLast?.map slotOf, r.head?.map slotOf⟩ := by
  simp [Deque.nodeOf?, h.slot rfl]

theorem slot_notMem (h : ((l ++ (k, v) :: r).map slotOf).Nodup) :
    k.index ∉ l.map slotOf ∧ k.index ∉ r.map slotOf := by
  rw [List.map_append, List.map_cons, List.nodup_append, List.nodup_cons] at h
  obtain ⟨-, ⟨hr, -⟩, hl⟩ := h
  exact ⟨fun hmem => hl _ hmem _ (by simp [slotOf]) rfl, hr⟩

/-- An entry is last when its slot is. -/
theorem getLast?_slot_iff (h : ((l ++ (k, v) :: r).map slotOf).Nodup) :
    (l ++ (k, v) :: r).getLast?.map slotOf = some k.index ↔ r = [] := by
  constructor
  · intro heq
    rcases List.eq_nil_or_concat r with rfl | ⟨r, last, rfl⟩
    · rfl
    · refine absurd ?_ (slot_notMem h).2
      simp only [List.concat_eq_append, ← List.cons_append, ← List.append_assoc,
        List.getLast?_append, List.getLast?_singleton, Option.some_or, Option.map_some,
        Option.some.injEq] at heq
      simp [← heq]
  · rintro rfl
    simp [slotOf]

/-- An entry is first when its slot is. -/
theorem head?_slot_iff (h : ((l ++ (k, v) :: r).map slotOf).Nodup) :
    (l ++ (k, v) :: r).head?.map slotOf = some k.index ↔ l = [] := by
  cases l with
  | nil => simp [slotOf]
  | cons first l =>
      have := (slot_notMem h).1
      simp only [List.map_cons, List.mem_cons, not_or] at this
      simp [Ne.symm this.1]

/-- A handle that means a node is the handle of an entry. -/
theorem Lists.mem_of_nodeOf? {n : Node α} (h : d.Lists es) (hn : d.nodeOf? k = some n) :
    ∃ l r, es = l ++ (k, n.value) :: r := by
  obtain ⟨⟨g, node⟩, hslot, hnode⟩ := Option.bind_eq_some_iff.1 hn
  split at hnode
  · rename_i hg
    obtain rfl : node = some n := hnode
    obtain ⟨⟨k', v'⟩, hmem, hk⟩ := List.mem_map.1 (h.occupied hslot)
    obtain ⟨l, r, rfl⟩ := List.append_of_mem hmem
    have hentry := h.slot rfl
    rw [show k'.index = k.index from hk, hslot] at hentry
    simp only [Option.some.injEq, Slot.mk.injEq] at hentry
    obtain ⟨hgen, rfl⟩ := hentry
    obtain rfl : k' = k := by
      cases k; cases k'
      simp only [Handle.mk.injEq]
      exact ⟨hk, hgen.symm.trans hg⟩
    exact ⟨l, r, rfl⟩
  · cases hnode

/-- Walking on with more fuel than entries meets the entries and no more. -/
theorem Lists.walk (h : d.Lists es) (l r : List (Handle × α)) (hsplit : es = l ++ r) {fuel : Nat}
    (hfuel : r.length ≤ fuel) : d.walk fuel (r.head?.map slotOf) = r := by
  induction r generalizing l fuel with
  | nil => cases fuel <;> rfl
  | cons entry r ih =>
      obtain ⟨k, v⟩ := entry
      subst hsplit
      obtain ⟨fuel, rfl⟩ : ∃ n, fuel = n + 1 := Nat.exists_eq_add_one.2 (Nat.zero_lt_of_lt hfuel)
      have hrest := ih (l ++ [(k, v)]) (by simp) (Nat.le_of_succ_le_succ hfuel)
      simp only [List.head?_cons, Option.map_some, Deque.walk, h.node?, h.handleAt, hrest]

theorem Lists.entries (h : d.Lists es) : d.entries = es := by
  rw [Deque.entries, h.length, h.head]
  exact h.walk [] es rfl le_rfl

theorem Lists.toList (h : d.Lists es) : d.toList = es.map (·.2) := by
  rw [Deque.toList, h.entries]

theorem Lists.wf (h : d.Lists es) : d.Wf := by
  rw [Wf, h.entries]
  exact h

theorem Wf.length_toList (h : d.Wf) : d.length = d.toList.length := by
  rw [Deque.toList, List.length_map]
  exact h.length

theorem Wf.isEmpty_iff (h : d.Wf) : d.isEmpty = true ↔ d.toList = [] := by
  rw [isEmpty, beq_iff_eq, h.length_toList, List.length_eq_zero_iff]

theorem lists_empty : (empty : Deque α).Lists [] where
  nodup := by simp
  head := rfl
  tail := rfl
  length := rfl
  slot h := by simp at h
  occupied h := by simp [empty] at h
  free := ⟨by simp [empty], by simp [empty]⟩

theorem wf_empty : (empty : Deque α).Wf := lists_empty.wf

@[simp] theorem toList_empty : (empty : Deque α).toList = [] := rfl
@[simp] theorem length_empty : (empty : Deque α).length = 0 := rfl

/-! ## Links -/

theorem getElem?_slots_modifyNode (d : Deque α) (i j : Nat) (f : Node α → Node α) :
    (d.modifyNode i f).slots[j]? =
      if i = j then d.slots[j]?.map fun slot => { slot with node := slot.node.map f }
      else d.slots[j]? := by
  simp only [modifyNode, Array.getElem?_modify]

theorem FreeSlots.modifyNode (h : d.FreeSlots) (i : Nat) (f : Node α → Node α) :
    (d.modifyNode i f).FreeSlots := by
  refine ⟨h.nodup, ?_⟩
  intro j
  rw [getElem?_slots_modifyNode]
  refine (h.vacant j).trans ?_
  split
  · cases d.slots[j]? with
    | none => simp
    | some slot => cases slot with | mk g node => cases node <;> simp
  · rfl

theorem getElem?_slots_linkNext (d : Deque α) (prev next : Option Nat) (j : Nat) :
    (d.linkNext prev next).slots[j]? =
      if prev = some j then
        d.slots[j]?.map fun slot => { slot with node := slot.node.map fun n => { n with next } }
      else d.slots[j]? := by
  cases prev with
  | none => rfl
  | some i => simp only [linkNext, getElem?_slots_modifyNode, Option.some.injEq]

theorem getElem?_slots_linkPrev (d : Deque α) (next prev : Option Nat) (j : Nat) :
    (d.linkPrev next prev).slots[j]? =
      if next = some j then
        d.slots[j]?.map fun slot => { slot with node := slot.node.map fun n => { n with prev } }
      else d.slots[j]? := by
  cases next with
  | none => rfl
  | some i => simp only [linkPrev, getElem?_slots_modifyNode, Option.some.injEq]

/-- Linking leaves every node in its slot. -/
theorem occupied_of_linkNext {prev next : Option Nat} {j g : Nat} {n : Node α}
    (h : (d.linkNext prev next).slots[j]? = some ⟨g, some n⟩) :
    ∃ n, d.slots[j]? = some ⟨g, some n⟩ := by
  rw [getElem?_slots_linkNext] at h
  split at h
  · obtain ⟨⟨g', node⟩, hslot, heq⟩ := Option.map_eq_some_iff.1 h
    cases node <;> cases heq
    exact ⟨_, hslot⟩
  · exact ⟨_, h⟩

theorem occupied_of_linkPrev {next prev : Option Nat} {j g : Nat} {n : Node α}
    (h : (d.linkPrev next prev).slots[j]? = some ⟨g, some n⟩) :
    ∃ n, d.slots[j]? = some ⟨g, some n⟩ := by
  rw [getElem?_slots_linkPrev] at h
  split at h
  · obtain ⟨⟨g', node⟩, hslot, heq⟩ := Option.map_eq_some_iff.1 h
    cases node <;> cases heq
    exact ⟨_, hslot⟩
  · exact ⟨_, h⟩

theorem head_linkNext (d : Deque α) (prev next : Option Nat) :
    (d.linkNext prev next).head = if prev = none then next else d.head := by
  cases prev <;> rfl

theorem tail_linkPrev (d : Deque α) (next prev : Option Nat) :
    (d.linkPrev next prev).tail = if next = none then prev else d.tail := by
  cases next <;> rfl

@[simp] theorem tail_linkNext (d : Deque α) (prev next : Option Nat) :
    (d.linkNext prev next).tail = d.tail := by
  cases prev <;> rfl

@[simp] theorem head_linkPrev (d : Deque α) (next prev : Option Nat) :
    (d.linkPrev next prev).head = d.head := by
  cases next <;> rfl

@[simp] theorem length_linkNext (d : Deque α) (prev next : Option Nat) :
    (d.linkNext prev next).length = d.length := by
  cases prev <;> rfl

@[simp] theorem length_linkPrev (d : Deque α) (next prev : Option Nat) :
    (d.linkPrev next prev).length = d.length := by
  cases next <;> rfl

theorem FreeSlots.linkNext (h : d.FreeSlots) (prev next : Option Nat) :
    (d.linkNext prev next).FreeSlots := by
  cases prev with
  | none => exact ⟨h.nodup, h.vacant⟩
  | some i => exact h.modifyNode i _

theorem FreeSlots.linkPrev (h : d.FreeSlots) (next prev : Option Nat) :
    (d.linkPrev next prev).FreeSlots := by
  cases next with
  | none => exact ⟨h.nodup, h.vacant⟩
  | some i => exact h.modifyNode i _

/-! ## Adding -/

/-- A new node gets a slot that no entry has. -/
structure Allocates (d : Deque α) (node : Node α) (i : Nat) (e : Deque α) : Prop where
  slot : ∃ g, e.slots[i]? = some ⟨g, some node⟩
  other : ∀ j, j ≠ i → e.slots[j]? = d.slots[j]?
  vacant : ∀ g n, d.slots[i]? ≠ some ⟨g, some n⟩
  free : e.FreeSlots
  head : e.head = d.head
  tail : e.tail = d.tail
  length : e.length = d.length + 1

theorem FreeSlots.allocate (h : d.FreeSlots) (node : Node α) :
    d.Allocates node (d.allocate node).1 (d.allocate node).2 := by
  rw [Deque.allocate]
  split
  · rename_i i free hfree
    obtain ⟨g, hg⟩ := (h.vacant i).1 (by simp [hfree])
    have hnodup := h.nodup
    rw [hfree, List.nodup_cons] at hnodup
    have hslots : ∀ j, (d.slots.modify i fun slot => { slot with node := some node })[j]? =
        if i = j then some ⟨g, some node⟩ else d.slots[j]? := by
      intro j
      rw [Array.getElem?_modify]
      split
      · rename_i hij
        rw [← hij, hg]
        rfl
      · rfl
    refine ⟨⟨g, by simp [hslots]⟩, fun j hj => ?_, fun g' n hn => ?_, ⟨hnodup.2, fun j => ?_⟩,
      rfl, rfl, rfl⟩
    · simp [hslots, hj.symm]
    · rw [hg] at hn
      cases hn
    · have hj := h.vacant j
      rw [hfree, List.mem_cons] at hj
      rw [hslots]
      split
      · rename_i hij
        subst hij
        simp [hnodup.1]
      · rename_i hij
        rw [← hj]
        simp [Ne.symm hij]
  · rename_i hfree
    refine ⟨⟨0, by simp⟩, fun j hj => ?_, fun g n hn => ?_, ⟨by simp [hfree], fun j => ?_⟩,
      rfl, rfl, rfl⟩
    · rw [Array.getElem?_push, if_neg hj]
    · have := (Array.getElem?_eq_some_iff.1 hn).1
      omega
    · have hj := h.vacant j
      rw [hfree] at hj
      rw [Array.getElem?_push, hfree]
      split
      · simp
      · exact hj

theorem Allocates.notMem {node : Node α} {i : Nat} (ha : d.Allocates node i e)
    (h : d.Lists es) : i ∉ es.map slotOf := by
  intro hmem
  obtain ⟨⟨k, v⟩, hentry, rfl⟩ := List.mem_map.1 hmem
  obtain ⟨l, r, rfl⟩ := List.append_of_mem hentry
  exact ha.vacant _ _ (h.slot rfl)

/-- A slot in use has the new node or an entry. -/
theorem Allocates.occupied {node n : Node α} {i j g : Nat} (ha : d.Allocates node i e)
    (h : d.Lists es) (hj : e.slots[j]? = some ⟨g, some n⟩) : j = i ∨ j ∈ es.map slotOf := by
  by_cases hji : j = i
  · exact .inl hji
  · rw [ha.other _ hji] at hj
    exact .inr (h.occupied hj)

theorem Allocates.tail_ne {node : Node α} {i : Nat} (ha : d.Allocates node i e)
    (h : d.Lists es) : d.tail ≠ some i := by
  rw [h.tail]
  intro heq
  obtain ⟨entry, hlast, rfl⟩ := Option.map_eq_some_iff.1 heq
  exact ha.notMem h (List.mem_map_of_mem (List.mem_of_getLast? hlast))

theorem Allocates.head_ne {node : Node α} {i : Nat} (ha : d.Allocates node i e)
    (h : d.Lists es) : d.head ≠ some i := by
  rw [h.head]
  intro heq
  obtain ⟨entry, hfirst, rfl⟩ := Option.map_eq_some_iff.1 heq
  exact ha.notMem h (List.mem_map_of_mem (List.mem_of_head? hfirst))

theorem Allocates.index_ne {node : Node α} {i : Nat} (ha : d.Allocates node i e)
    (h : d.Lists (l ++ (k, w) :: r)) : k.index ≠ i :=
  fun hki => ha.notMem h (by simp [← hki, slotOf])

/-- The entries before a new one that is linked behind the tail. -/
theorem Allocates.slot_linkNext {node : Node α} (new : Handle × α)
    (ha : d.Allocates node (slotOf new) e) (h : d.Lists (l ++ (k, w) :: r)) :
    (e.linkNext d.tail (some (slotOf new))).slots[k.index]? = some ⟨k.generation,
      some ⟨w, l.getLast?.map slotOf, (r ++ [new]).head?.map slotOf⟩⟩ := by
  rw [getElem?_slots_linkNext, ha.other _ (ha.index_ne h), h.slot rfl]
  split
  · rename_i hlast
    obtain rfl := (getLast?_slot_iff h.nodup).1 (h.tail ▸ hlast)
    rfl
  · rename_i hlast
    cases r with
    | nil => exact absurd (h.tail.trans ((getLast?_slot_iff h.nodup).2 rfl)) hlast
    | cons next r => rfl

/-- The entries behind a new one that is linked before the head. -/
theorem Allocates.slot_linkPrev {node : Node α} (new : Handle × α)
    (ha : d.Allocates node (slotOf new) e) (h : d.Lists (l ++ (k, w) :: r)) :
    (e.linkPrev d.head (some (slotOf new))).slots[k.index]? = some ⟨k.generation,
      some ⟨w, (new :: l).getLast?.map slotOf, r.head?.map slotOf⟩⟩ := by
  rw [getElem?_slots_linkPrev, ha.other _ (ha.index_ne h), h.slot rfl]
  split
  · rename_i hfirst
    obtain rfl := (head?_slot_iff h.nodup).1 (h.head ▸ hfirst)
    rfl
  · rename_i hfirst
    cases l with
    | nil => exact absurd (h.head.trans ((head?_slot_iff h.nodup).2 rfl)) hfirst
    | cons next l => rw [List.getLast?_cons_cons]

theorem Lists.push (h : d.Lists es) (v : α) :
    (d.push v).2.Lists (es ++ [((d.push v).1, v)]) := by
  have ha := h.free.allocate ⟨v, d.tail, none⟩
  rw [Deque.push]
  generalize d.allocate ⟨v, d.tail, none⟩ = place at ha ⊢
  obtain ⟨i, e⟩ := place
  change d.Allocates _ i e at ha
  obtain ⟨g, hg⟩ := ha.slot
  have hslot : (e.linkNext d.tail (some i)).slots[i]? = some ⟨g, some ⟨v, d.tail, none⟩⟩ := by
    rw [getElem?_slots_linkNext, if_neg (ha.tail_ne h), hg]
  have hhandle : ({ e.linkNext d.tail (some i) with tail := some i } : Deque α).handleAt i =
      ⟨i, g⟩ := by
    simp [Deque.handleAt, hslot]
  have hfree := ha.free.linkNext d.tail (some i)
  simp only [hhandle]
  refine ⟨?_, ?_, by simp, by simp [ha.length, h.length], ?_, fun hj => ?_,
    hfree.nodup, hfree.vacant⟩
  · rw [List.map_append, List.nodup_append]
    refine ⟨h.nodup, by simp, ?_⟩
    rintro j hj _ hi rfl
    obtain rfl : j = i := List.mem_singleton.1 hi
    exact ha.notMem h hj
  · change (e.linkNext d.tail (some i)).head = _
    rw [head_linkNext, ha.head, h.head, h.tail]
    cases es with
    | nil => rfl
    | cons entry es =>
        rw [if_neg (by simp)]
        rfl
  · intro l k w r hsplit
    rcases List.eq_nil_or_concat r with rfl | ⟨r, last, rfl⟩
    · obtain ⟨rfl, heq⟩ := List.append_inj' hsplit rfl
      cases heq
      simpa [h.tail] using hslot
    · rw [List.concat_eq_append] at hsplit ⊢
      rw [← List.cons_append, ← List.append_assoc] at hsplit
      obtain ⟨rfl, heq⟩ := List.append_inj' hsplit rfl
      cases heq
      exact Allocates.slot_linkNext (⟨i, g⟩, v) ha h
  · obtain ⟨n, hj⟩ := occupied_of_linkNext hj
    obtain rfl | hmem := ha.occupied h hj
    · simp
    · simp [hmem]

theorem Lists.unshift (h : d.Lists es) (v : α) :
    (d.unshift v).2.Lists (((d.unshift v).1, v) :: es) := by
  have ha := h.free.allocate ⟨v, none, d.head⟩
  rw [Deque.unshift]
  generalize d.allocate ⟨v, none, d.head⟩ = place at ha ⊢
  obtain ⟨i, e⟩ := place
  change d.Allocates _ i e at ha
  obtain ⟨g, hg⟩ := ha.slot
  have hslot : (e.linkPrev d.head (some i)).slots[i]? = some ⟨g, some ⟨v, none, d.head⟩⟩ := by
    rw [getElem?_slots_linkPrev, if_neg (ha.head_ne h), hg]
  have hhandle : ({ e.linkPrev d.head (some i) with head := some i } : Deque α).handleAt i =
      ⟨i, g⟩ := by
    simp [Deque.handleAt, hslot]
  have hfree := ha.free.linkPrev d.head (some i)
  simp only [hhandle]
  refine ⟨List.nodup_cons.2 ⟨ha.notMem h, h.nodup⟩, rfl, ?_, by simp [ha.length, h.length], ?_,
    fun hj => ?_, hfree.nodup, hfree.vacant⟩
  · change (e.linkPrev d.head (some i)).tail = _
    rw [tail_linkPrev, ha.tail, h.head, h.tail]
    cases es with
    | nil => rfl
    | cons entry es => rw [if_neg (by simp), List.getLast?_cons_cons]
  · intro l k w r hsplit
    cases l with
    | nil =>
        cases hsplit
        simpa [h.head] using hslot
    | cons first l =>
        obtain ⟨rfl, rfl⟩ := List.cons.inj hsplit
        exact Allocates.slot_linkPrev (⟨i, g⟩, v) ha h
  · obtain ⟨n, hj⟩ := occupied_of_linkPrev hj
    obtain rfl | hmem := ha.occupied h hj
    · exact List.mem_cons_self
    · exact List.mem_cons_of_mem _ hmem

/-! ## Taking out -/

/-- The deque with a slot freed, before the neighbours are joined. -/
def vacate (d : Deque α) (i : Nat) : Deque α :=
  { d with
    slots := d.slots.modify i fun slot => ⟨slot.generation + 1, none⟩
    free := i :: d.free
    length := d.length - 1 }

theorem FreeSlots.vacate (h : d.FreeSlots) {i g : Nat} {n : Node α}
    (hslot : d.slots[i]? = some ⟨g, some n⟩) : (d.vacate i).FreeSlots := by
  have hi : i ∉ d.free := by
    rw [h.vacant, hslot]
    simp
  refine ⟨List.nodup_cons.2 ⟨hi, h.nodup⟩, ?_⟩
  intro j
  simp only [Deque.vacate, List.mem_cons, Array.getElem?_modify]
  split
  · rename_i hij
    simp [← hij, hslot]
  · rename_i hij
    rw [← h.vacant]
    simp [Ne.symm hij]

theorem getElem?_slots_vacate_of_ne {i j : Nat} (h : i ≠ j) :
    (d.vacate i).slots[j]? = d.slots[j]? := by
  simp only [vacate, Array.getElem?_modify, if_neg h]

/-- An entry of two lists together is in the second or in the first. -/
theorem append_eq_append_cons {l r l' r' : List (Handle × α)} {entry : Handle × α}
    (h : l ++ r = l' ++ entry :: r') :
    (∃ a, l' = l ++ a ∧ r = a ++ entry :: r') ∨ ∃ a, l = l' ++ entry :: a ∧ r' = a ++ r := by
  rcases List.append_eq_append_iff.1 h with ⟨a, hl, hr⟩ | ⟨a, hl, hr⟩
  · exact .inl ⟨a, hl, hr⟩
  · cases a with
    | nil => exact .inl ⟨[], by simpa using hl.symm, by simpa using hr.symm⟩
    | cons first a =>
        obtain ⟨rfl, rfl⟩ := List.cons.inj hr
        exact .inr ⟨a, hl, rfl⟩

/-- The entries on both sides of a freed slot, once they are joined. -/
theorem Lists.slot_of_join {l' r' : List (Handle × α)} {k' : Handle}
    (h : d.Lists (l ++ (k, v) :: r)) (hsplit : l ++ r = l' ++ (k', w) :: r') :
    (((d.vacate k.index).linkNext (l.getLast?.map slotOf) (r.head?.map slotOf)).linkPrev
      (r.head?.map slotOf) (l.getLast?.map slotOf)).slots[k'.index]? =
      some ⟨k'.generation, some ⟨w, l'.getLast?.map slotOf, r'.head?.map slotOf⟩⟩ := by
  have hout := slot_notMem h.nodup
  have hnodup : ((l ++ r).map slotOf).Nodup :=
    h.nodup.sublist (((List.sublist_cons_self _ _).append_left l).map slotOf)
  have hne : k.index ≠ k'.index := by
    rintro heq
    have hmem : k'.index ∈ (l ++ r).map slotOf := by simp [hsplit, slotOf]
    rw [← heq, List.map_append, List.mem_append] at hmem
    exact hmem.elim hout.1 hout.2
  rw [List.map_append, List.nodup_append] at hnodup
  obtain ⟨hl, hr, hlr⟩ := hnodup
  rw [getElem?_slots_linkPrev, getElem?_slots_linkNext, getElem?_slots_vacate_of_ne hne]
  rcases append_eq_append_cons hsplit with ⟨a, rfl, rfl⟩ | ⟨a, rfl, rfl⟩
  · have hold := h.slot (show _ = (l ++ (k, v) :: a) ++ (k', w) :: r' by simp)
    have hlast : l.getLast?.map slotOf ≠ some k'.index := by
      intro heq
      obtain ⟨entry, hentry, hindex⟩ := Option.map_eq_some_iff.1 heq
      exact hlr _ (List.mem_map_of_mem (List.mem_of_getLast? hentry)) _
        (by simp [slotOf]) hindex
    rw [if_neg hlast, hold]
    split
    · rename_i hfirst
      obtain rfl := (head?_slot_iff hr).1 hfirst
      simp
    · rename_i hfirst
      cases a with
      | nil => exact absurd ((head?_slot_iff hr).2 rfl) hfirst
      | cons next a => simp [List.getLast?_append, List.getLast?_cons]
  · have hold := h.slot (show _ = l' ++ (k', w) :: (a ++ (k, v) :: r) by simp)
    have hfirst : r.head?.map slotOf ≠ some k'.index := by
      intro heq
      obtain ⟨entry, hentry, hindex⟩ := Option.map_eq_some_iff.1 heq
      exact hlr k'.index (by simp [slotOf]) _ (List.mem_map_of_mem (List.mem_of_head? hentry))
        hindex.symm
    rw [if_neg hfirst, hold]
    split
    · rename_i hlast
      obtain rfl := (getLast?_slot_iff hl).1 hlast
      simp
    · rename_i hlast
      cases a with
      | nil => exact absurd ((getLast?_slot_iff hl).2 rfl) hlast
      | cons next a => simp

theorem Lists.unlink (h : d.Lists (l ++ (k, v) :: r)) :
    ∃ e, d.unlink k.index = some (v, e) ∧ e.Lists (l ++ r) := by
  have hentry : d.slots[k.index]? = _ := h.slot rfl
  refine ⟨((d.vacate k.index).linkNext (l.getLast?.map slotOf) (r.head?.map slotOf)).linkPrev
    (r.head?.map slotOf) (l.getLast?.map slotOf), ?_, ?_, ?_, ?_, ?_, h.slot_of_join, ?_, ?_⟩
  · rw [Deque.unlink, h.node?]
    rfl
  · exact h.nodup.sublist (((List.sublist_cons_self _ _).append_left l).map slotOf)
  · rw [head_linkPrev, head_linkNext]
    cases l with
    | nil => simp
    | cons first l =>
        rw [if_neg (by simp [List.getLast?_cons])]
        exact h.head
  · rw [tail_linkPrev, tail_linkNext]
    cases r with
    | nil => simp
    | cons next r =>
        rw [if_neg (by simp)]
        refine h.tail.trans ?_
        simp [List.getLast?_append, List.getLast?_cons]
  · have := h.length
    simp only [length_linkPrev, length_linkNext, vacate, List.length_append,
      List.length_cons] at this ⊢
    omega
  · intro j g n hj
    obtain ⟨n, hj⟩ := occupied_of_linkPrev hj
    obtain ⟨n, hj⟩ := occupied_of_linkNext hj
    rw [vacate, Array.getElem?_modify] at hj
    split at hj
    · rename_i heq
      rw [← heq, hentry] at hj
      cases hj
    · rename_i hne
      have hmem := h.occupied hj
      simp only [List.map_append, List.map_cons, List.mem_append, List.mem_cons] at hmem ⊢
      rcases hmem with hl | rfl | hr
      · exact .inl hl
      · exact absurd rfl hne
      · exact .inr hr
  · exact ((h.free.vacate hentry).linkNext _ _).linkPrev _ _

/-- Visiting the entries `r` behind the entries `l` takes out those that fail the test. -/
theorem Lists.retainFrom (keep : α → Bool) (h : d.Lists (l ++ r)) :
    (Id.run (d.retainFrom (fun v => pure (keep v)) r.length (r.head?.map slotOf))).Lists
      (l ++ r.filter fun entry => keep entry.2) := by
  induction r generalizing l d with
  | nil => exact h
  | cons entry r ih =>
      obtain ⟨k, v⟩ := entry
      simp only [List.length_cons, List.head?_cons, Option.map_some, Deque.retainFrom, h.node?,
        pure_bind]
      by_cases hv : keep v = true
      · rw [if_pos hv, List.filter_cons, if_pos hv]
        simpa using ih (l := l ++ [(k, v)]) (by simpa using h)
      · obtain ⟨e, he, hr⟩ := h.unlink
        rw [if_neg hv, List.filter_cons, if_neg hv, show d.unlink (slotOf (k, v)) = _ from he]
        exact ih hr

theorem Lists.retain (keep : α → Bool) (h : d.Lists es) :
    (d.retain keep).Lists (es.filter fun entry => keep entry.2) := by
  rw [Deque.retain, Deque.retainM, h.length, h.head]
  exact Lists.retainFrom (l := []) keep h

theorem Lists.shift_nil (h : d.Lists ([] : List (Handle × α))) : d.shift = none := by
  simp [Deque.shift, h.head]

theorem Lists.shift_cons (h : d.Lists ((k, v) :: r)) :
    ∃ e, d.shift = some (v, e) ∧ e.Lists r := by
  obtain ⟨e, he, hr⟩ := Lists.unlink (l := []) h
  exact ⟨e, by simpa [Deque.shift, h.head] using he, hr⟩

theorem Lists.remove (h : d.Lists (l ++ (k, v) :: r)) :
    ∃ e, d.remove k = some (v, e) ∧ e.Lists (l ++ r) := by
  rw [Deque.remove, if_pos (by simp [Deque.contains, h.nodeOf?])]
  exact h.unlink

/-! ## The values -/

theorem Wf.lists (h : d.Wf) : d.Lists d.entries := h

theorem Wf.push (h : d.Wf) (v : α) : (d.push v).2.Wf := (h.lists.push v).wf

theorem Wf.toList_push (h : d.Wf) (v : α) : (d.push v).2.toList = d.toList ++ [v] := by
  rw [(h.lists.push v).toList, h.lists.toList]
  simp

theorem Wf.unshift (h : d.Wf) (v : α) : (d.unshift v).2.Wf := (h.lists.unshift v).wf

theorem Wf.toList_unshift (h : d.Wf) (v : α) : (d.unshift v).2.toList = v :: d.toList := by
  rw [(h.lists.unshift v).toList, h.lists.toList]
  simp

/-- Shifting takes the first value. -/
theorem Wf.of_shift (h : d.Wf) (hs : d.shift = some (v, e)) :
    e.Wf ∧ d.toList = v :: e.toList := by
  have hl := h.lists
  rw [hl.toList]
  cases hes : d.entries with
  | nil => simp [(hes ▸ hl).shift_nil] at hs
  | cons entry r =>
      obtain ⟨k, w⟩ := entry
      obtain ⟨e', he, hr⟩ := (hes ▸ hl).shift_cons
      cases he.symm.trans hs
      exact ⟨hr.wf, by simp [hr.toList]⟩

theorem Wf.shift_eq_none_iff (h : d.Wf) : d.shift = none ↔ d.toList = [] := by
  have hl := h.lists
  rw [hl.toList]
  cases hes : d.entries with
  | nil => simp [(hes ▸ hl).shift_nil]
  | cons entry r =>
      obtain ⟨e, he, -⟩ := (hes ▸ hl).shift_cons
      simp [he]

/-- Removal takes one value out and keeps the order of the others. -/
theorem Wf.of_remove (h : d.Wf) (hr : d.remove k = some (v, e)) :
    e.Wf ∧ ∃ l r, d.toList = l ++ v :: r ∧ e.toList = l ++ r := by
  have hl := h.lists
  have hcontains : d.contains k = true := by
    by_contra hnot
    simp [Deque.remove, hnot] at hr
  obtain ⟨n, hn⟩ := Option.isSome_iff_exists.1 hcontains
  obtain ⟨l, r, hes⟩ := hl.mem_of_nodeOf? hn
  rw [hes] at hl
  obtain ⟨e', he, hlr⟩ := hl.remove
  cases he.symm.trans hr
  exact ⟨hlr.wf, l.map (·.2), r.map (·.2), by simp [hl.toList], by simp [hlr.toList]⟩

theorem Wf.retain (h : d.Wf) (keep : α → Bool) : (d.retain keep).Wf := (h.lists.retain keep).wf

theorem Wf.toList_retain (h : d.Wf) (keep : α → Bool) :
    (d.retain keep).toList = d.toList.filter keep := by
  rw [(h.lists.retain keep).toList, h.lists.toList, List.filter_map]
  rfl

end PooledSql.Deque
