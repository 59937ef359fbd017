import PooledSql.Proofs.Collections.Deque

/-!
# The arena of a deque

The operations of a deque are total: a link to a slot without a node changes nothing, a slot that
is not there has generation zero. Here each of them is written once more with a fault in place of
what should not happen: an index is that of a slot, a linked slot is occupied, a generation is a
word of 64 bits, and a deque that loses a node is not empty. `Lists.tryPush_eq` and the lemmas
like it say that a deque whose links are in order never comes to a fault, as long as the
generations fit. A slot's generation counts the nodes that were taken out of it.
-/

namespace PooledSql

/-- What a deque cannot go on from. -/
inductive ArenaFault where
  /-- An index is not that of a slot. -/
  | outOfRange
  /-- A linked index does not refer to an occupied slot. -/
  | vacant
  /-- A generation does not fit into its word. -/
  | generation
  /-- A deque of length zero loses a node. -/
  | length
  /-- There are more nodes to visit than the deque has. -/
  | endless
  deriving DecidableEq, Repr

namespace Deque

variable {α σ : Type} {d e : Deque α} {es l r : List (Handle × α)} {k : Handle} {v : α}

/-- The generation of a slot; that of a slot to come is zero. -/
def generation (d : Deque α) (i : Nat) : Nat := (d.handleAt i).generation

/-- Every generation fits into a word of 64 bits. -/
def Fits (d : Deque α) : Prop := ∀ i, d.generation i < 2 ^ 64

/-! ## Operations with faults -/

/-- The slot has to exist. -/
def needSlot (d : Deque α) (i : Nat) : Except ArenaFault Unit :=
  if i < d.slots.size then .ok () else .error .outOfRange

/-- The slot that is linked, if one is, has to be occupied. -/
def needNode (d : Deque α) : Option Nat → Except ArenaFault Unit
  | none => .ok ()
  | some i => do
    d.needSlot i
    if (d.node? i).isSome then .ok () else .error .vacant

def tryAllocate (d : Deque α) (node : Node α) : Except ArenaFault (Nat × Deque α) := do
  match d.free with
  | i :: _ => d.needSlot i
  | [] => .ok ()
  return d.allocate node

def tryPush (d : Deque α) (value : α) : Except ArenaFault (Handle × Deque α) := do
  let (index, e) ← d.tryAllocate ⟨value, d.tail, none⟩
  e.needNode d.tail
  let e := { e.linkNext d.tail (some index) with tail := some index }
  e.needSlot index
  return (e.handleAt index, e)

def tryUnshift (d : Deque α) (value : α) : Except ArenaFault (Handle × Deque α) := do
  let (index, e) ← d.tryAllocate ⟨value, none, d.head⟩
  e.needNode d.head
  let e := { e.linkPrev d.head (some index) with head := some index }
  e.needSlot index
  return (e.handleAt index, e)

def tryUnlink (d : Deque α) (index : Nat) : Except ArenaFault (Option (α × Deque α)) :=
  match d.node? index with
  | none => .ok none
  | some node =>
    if 2 ^ 64 ≤ d.generation index + 1 then .error .generation
    else if d.length = 0 then .error .length
    else do
      let e := d.vacate index
      e.needNode node.prev
      let e := e.linkNext node.prev node.next
      e.needNode node.next
      return some (node.value, e.linkPrev node.next node.prev)

def tryShift (d : Deque α) : Except ArenaFault (Option (α × Deque α)) :=
  match d.head with
  | none => .ok none
  | some index => d.tryUnlink index

def tryPop (d : Deque α) : Except ArenaFault (Option (α × Deque α)) :=
  match d.tail with
  | none => .ok none
  | some index => d.tryUnlink index

def tryRemove (d : Deque α) (h : Handle) : Except ArenaFault (Option (α × Deque α)) :=
  if d.contains h then d.tryUnlink h.index else .ok none

/-- The test is a program that keeps a state of its own. -/
def tryRetainFrom (keep : α → StateM σ Bool) :
    Nat → Option Nat → Deque α → σ → Except ArenaFault (Deque α × σ)
  | _, none, d, s => .ok (d, s)
  | 0, some _, _, _ => .error .endless
  | fuel + 1, some index, d, s =>
    match d.node? index with
    | none => .ok (d, s)
    | some node =>
      match (keep node.value).run s with
      | (true, s) => tryRetainFrom keep fuel node.next d s
      | (false, s) => do
        match ← d.tryUnlink index with
        | some (_, e) => tryRetainFrom keep fuel node.next e s
        | none => tryRetainFrom keep fuel node.next d s

def tryRetain (keep : α → StateM σ Bool) (d : Deque α) (s : σ) :
    Except ArenaFault (Deque α × σ) :=
  tryRetainFrom keep d.length d.head d s

/-! ## Generations -/

theorem Lists.generation (h : d.Lists (l ++ (k, v) :: r)) :
    d.generation k.index = k.generation := by
  rw [Deque.generation, h.handleAt]

/-- Generations depend on the slots only, and of these on the generations. -/
theorem generation_congr {i : Nat}
    (h : e.slots[i]?.map (·.generation) = d.slots[i]?.map (·.generation)) :
    e.generation i = d.generation i := by
  simp only [Deque.generation, Deque.handleAt, h]

@[simp] theorem generation_modifyNode (d : Deque α) (i j : Nat) (f : Node α → Node α) :
    (d.modifyNode j f).generation i = d.generation i := by
  refine generation_congr ?_
  rw [getElem?_slots_modifyNode]
  split
  · rw [Option.map_map]
    rfl
  · rfl

@[simp] theorem generation_linkNext (d : Deque α) (prev next : Option Nat) (i : Nat) :
    (d.linkNext prev next).generation i = d.generation i := by
  cases prev with
  | none => rfl
  | some j => exact generation_modifyNode d i j _

@[simp] theorem generation_linkPrev (d : Deque α) (next prev : Option Nat) (i : Nat) :
    (d.linkPrev next prev).generation i = d.generation i := by
  cases next with
  | none => rfl
  | some j => exact generation_modifyNode d i j _

/-- A new slot starts as if it had been there. -/
@[simp] theorem generation_allocate (d : Deque α) (node : Node α) (i : Nat) :
    (d.allocate node).2.generation i = d.generation i := by
  rw [allocate]
  split
  · refine generation_congr ?_
    dsimp only
    rw [Array.getElem?_modify]
    split
    · rw [Option.map_map]
      rfl
    · rfl
  · simp only [Deque.generation, Deque.handleAt, Array.getElem?_push]
    split
    · rename_i hi
      simp [hi]
    · rfl

theorem generation_push (d : Deque α) (v : α) (i : Nat) :
    (d.push v).2.generation i = d.generation i :=
  (generation_linkNext _ _ _ _).trans (generation_allocate _ _ _)

theorem generation_unshift (d : Deque α) (v : α) (i : Nat) :
    (d.unshift v).2.generation i = d.generation i :=
  (generation_linkPrev _ _ _ _).trans (generation_allocate _ _ _)

/-- The handle of a new node has the generation that its slot had. -/
theorem generation_fst_push (d : Deque α) (v : α) :
    (d.push v).1.generation = d.generation (d.push v).1.index :=
  generation_push d v _

theorem generation_fst_unshift (d : Deque α) (v : α) :
    (d.unshift v).1.generation = d.generation (d.unshift v).1.index :=
  generation_unshift d v _

theorem generation_vacate {i j g : Nat} {n : Node α} (h : d.slots[i]? = some ⟨g, some n⟩) :
    (d.vacate i).generation j = d.generation j + if j = i then 1 else 0 := by
  by_cases hji : j = i
  · subst hji
    simp [Deque.generation, Deque.handleAt, vacate, Array.getElem?_modify, h]
  · rw [if_neg hji]
    refine generation_congr ?_
    rw [getElem?_slots_vacate_of_ne (Ne.symm hji)]

/-- Taking a node out raises the generation of its slot by one, and no other. -/
theorem generation_unlink {i j : Nat} (h : d.unlink i = some (v, e)) :
    e.generation j = d.generation j + if j = i then 1 else 0 := by
  obtain ⟨n, hn, heq⟩ := Option.map_eq_some_iff.1 h
  cases heq
  obtain ⟨⟨g, node⟩, hslot, hnode⟩ := Option.bind_eq_some_iff.1 hn
  obtain rfl : node = some n := hnode
  rw [generation_linkPrev, generation_linkNext]
  exact generation_vacate hslot

/-! ## No faults -/

theorem size_slots_linkNext (d : Deque α) (prev next : Option Nat) :
    (d.linkNext prev next).slots.size = d.slots.size := by
  cases prev with
  | none => rfl
  | some i => exact Array.size_modify

theorem size_slots_linkPrev (d : Deque α) (next prev : Option Nat) :
    (d.linkPrev next prev).slots.size = d.slots.size := by
  cases next with
  | none => rfl
  | some i => exact Array.size_modify

theorem needSlot_of_slot {i : Nat} {slot : Slot α} (h : d.slots[i]? = some slot) :
    d.needSlot i = .ok () :=
  if_pos (Array.getElem?_eq_some_iff.1 h).1

theorem needNode_of_slot {i g : Nat} {n : Node α} (h : d.slots[i]? = some ⟨g, some n⟩) :
    d.needNode (some i) = .ok () := by
  rw [needNode, needSlot_of_slot h]
  simp [node?, h, bind, Except.bind]

/-- A linked slot is occupied as soon as the entry there is. -/
theorem needNode_slotOf {entry : Option (Handle × α)}
    (h : ∀ k v, entry = some (k, v) → ∃ g n, d.slots[k.index]? = some ⟨g, some n⟩) :
    d.needNode (entry.map slotOf) = .ok () := by
  rcases entry with _ | ⟨k, v⟩
  · rfl
  · obtain ⟨g, n, hslot⟩ := h k v rfl
    exact needNode_of_slot hslot

theorem Lists.slot_of_mem (h : d.Lists es) (hmem : (k, v) ∈ es) :
    ∃ g n, d.slots[k.index]? = some ⟨g, some n⟩ := by
  obtain ⟨l, r, rfl⟩ := List.append_of_mem hmem
  exact ⟨_, _, h.slot rfl⟩

theorem FreeSlots.tryAllocate_eq (h : d.FreeSlots) (node : Node α) :
    d.tryAllocate node = .ok (d.allocate node) := by
  rw [tryAllocate]
  split
  · rename_i i free hfree
    obtain ⟨g, hg⟩ := (h.vacant i).1 (by simp [hfree])
    rw [needSlot_of_slot hg]
    rfl
  · rfl

/-- The slots of entries are as occupied after an allocation as before. -/
theorem Allocates.slot_of_mem {node : Node α} {i : Nat} (ha : d.Allocates node i e)
    (h : d.Lists es) (hmem : (k, v) ∈ es) : ∃ g n, e.slots[k.index]? = some ⟨g, some n⟩ := by
  have hne : k.index ≠ i := by
    rintro rfl
    exact ha.notMem h (List.mem_map_of_mem hmem)
  rw [ha.other _ hne]
  exact h.slot_of_mem hmem

theorem Lists.tryPush_eq (h : d.Lists es) (v : α) : d.tryPush v = .ok (d.push v) := by
  have ha := h.free.allocate ⟨v, d.tail, none⟩
  rw [tryPush, h.free.tryAllocate_eq, Deque.push]
  generalize d.allocate ⟨v, d.tail, none⟩ = place at ha ⊢
  obtain ⟨i, e⟩ := place
  change d.Allocates _ i e at ha
  have hnode : e.needNode d.tail = .ok () := by
    rw [h.tail]
    exact needNode_slotOf fun k w hlast => ha.slot_of_mem h (List.mem_of_getLast? hlast)
  have hslot : ({ e.linkNext d.tail (some i) with tail := some i } : Deque α).needSlot i =
      .ok () := by
    obtain ⟨g, hg⟩ := ha.slot
    refine if_pos ?_
    rw [size_slots_linkNext]
    exact (Array.getElem?_eq_some_iff.1 hg).1
  simp only [hnode, hslot, bind, Except.bind, pure, Except.pure]

theorem Lists.tryUnshift_eq (h : d.Lists es) (v : α) : d.tryUnshift v = .ok (d.unshift v) := by
  have ha := h.free.allocate ⟨v, none, d.head⟩
  rw [tryUnshift, h.free.tryAllocate_eq, Deque.unshift]
  generalize d.allocate ⟨v, none, d.head⟩ = place at ha ⊢
  obtain ⟨i, e⟩ := place
  change d.Allocates _ i e at ha
  have hnode : e.needNode d.head = .ok () := by
    rw [h.head]
    exact needNode_slotOf fun k w hfirst => ha.slot_of_mem h (List.mem_of_head? hfirst)
  have hslot : ({ e.linkPrev d.head (some i) with head := some i } : Deque α).needSlot i =
      .ok () := by
    obtain ⟨g, hg⟩ := ha.slot
    refine if_pos ?_
    rw [size_slots_linkPrev]
    exact (Array.getElem?_eq_some_iff.1 hg).1
  simp only [hnode, hslot, bind, Except.bind, pure, Except.pure]

/-- The neighbours of a node that is taken out are in their slots still. -/
theorem Lists.slot_vacate_of_mem {k' : Handle} {w : α} (h : d.Lists (l ++ (k, v) :: r))
    (hmem : (k', w) ∈ l ++ r) : ∃ g n, (d.vacate k.index).slots[k'.index]? = some ⟨g, some n⟩ := by
  have hout := slot_notMem h.nodup
  have hslots := List.mem_append.1 hmem
  have hne : k.index ≠ k'.index := by
    intro heq
    rw [heq] at hout
    exact hslots.elim (fun hl => hout.1 (List.mem_map_of_mem hl))
      fun hr => hout.2 (List.mem_map_of_mem hr)
  rw [getElem?_slots_vacate_of_ne hne]
  refine h.slot_of_mem (v := w) ?_
  simp only [List.mem_append, List.mem_cons]
  exact hslots.imp_right .inr

theorem Lists.tryUnlink_eq (h : d.Lists (l ++ (k, v) :: r))
    (he : d.unlink k.index = some (v, e)) (hfits : e.Fits) :
    d.tryUnlink k.index = .ok (some (v, e)) := by
  have hgeneration := hfits k.index
  rw [generation_unlink he, if_pos rfl] at hgeneration
  have hlength : d.length ≠ 0 := by simp [h.length]
  have hprev : (d.vacate k.index).needNode (l.getLast?.map slotOf) = .ok () :=
    needNode_slotOf fun k' w hlast =>
      h.slot_vacate_of_mem (List.mem_append_left _ (List.mem_of_getLast? hlast))
  have hnext : ((d.vacate k.index).linkNext (l.getLast?.map slotOf)
      (r.head?.map slotOf)).needNode (r.head?.map slotOf) = .ok () := by
    refine needNode_slotOf fun k' w hfirst => ?_
    obtain ⟨g, n, hslot⟩ :=
      h.slot_vacate_of_mem (List.mem_append_right _ (List.mem_of_head? hfirst))
    rw [getElem?_slots_linkNext, hslot]
    split <;> exact ⟨_, _, rfl⟩
  rw [Deque.unlink, h.node?] at he
  cases he
  rw [tryUnlink, h.node?]
  simp only [hprev, hnext, if_neg (Nat.not_le.2 hgeneration), if_neg hlength, bind, Except.bind,
    pure, Except.pure]
  rfl

end Deque

end PooledSql
