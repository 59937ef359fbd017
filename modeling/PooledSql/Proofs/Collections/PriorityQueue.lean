import PooledSql.Collections.PriorityQueue
import PooledSql.Proofs.Collections.Deque

/-!
# The order of a priority queue

A priority queue is well formed when every slot is. Its operations are described by the list of
the items in the order in which they leave.
-/

namespace PooledSql.PriorityQueue

variable {α : Type} {q q' : PriorityQueue α} {item : α}

/-- Every slot is in order. -/
def Wf (q : PriorityQueue α) : Prop := ∀ d ∈ q.slots, d.Wf

theorem foldr_length_eq {slots : List (Deque α)} (h : ∀ d ∈ slots, d.Wf) :
    slots.foldr (fun d rest => d.length + rest) 0 = (slots.flatMap (·.toList)).length := by
  induction slots with
  | nil => rfl
  | cons d slots ih =>
      rw [List.foldr_cons, List.flatMap_cons, List.length_append,
        ih fun d hd => h d (List.mem_cons_of_mem _ hd), (h d List.mem_cons_self).length_toList]

theorem Wf.length_toList (h : q.Wf) : q.length = q.toList.length := foldr_length_eq h

theorem Wf.isEmpty_iff (h : q.Wf) : q.isEmpty = true ↔ q.toList = [] := by
  simp only [isEmpty, List.all_eq_true, toList, List.flatMap_eq_nil_iff]
  exact forall₂_congr fun d hd => (h d hd).isEmpty_iff

theorem wf_ofSlots (count : Nat) : (ofSlots count : PriorityQueue α).Wf := by
  intro d hd
  simp only [ofSlots, List.mem_cons, List.mem_replicate] at hd
  obtain rfl : d = .empty := by tauto
  exact Deque.wf_empty

@[simp] theorem toList_ofSlots (count : Nat) : (ofSlots count : PriorityQueue α).toList = [] := by
  simp [toList, ofSlots]

/-! ## Changing one slot -/

/-- A slot stands between the slots before it and those behind it. -/
theorem slots_eq_append {i : Nat} {d : Deque α} (h : q.slots[i]? = some d) :
    ∃ before after, q.slots = before ++ d :: after ∧
      ∀ e : Deque α, q.slots.set i e = before ++ e :: after := by
  obtain ⟨hi, rfl⟩ := List.getElem?_eq_some_iff.1 h
  refine ⟨q.slots.take i, q.slots.drop (i + 1), ?_, fun e => ?_⟩
  · rw [List.getElem_cons_drop, List.take_append_drop]
  · rw [List.set_eq_take_append_cons_drop, if_pos hi]

theorem Wf.replace {before after : List (Deque α)} {d e : Deque α} (h : q.Wf) (he : e.Wf)
    (hslots : q.slots = before ++ d :: after) (hslots' : q'.slots = before ++ e :: after) :
    q'.Wf := by
  intro c hc
  rw [hslots', List.mem_append, List.mem_cons] at hc
  rcases hc with hc | rfl | hc
  · exact h c (by simp [hslots, hc])
  · exact he
  · exact h c (by simp [hslots, hc])

/-- An item that is added stands among the others, which keep their order. -/
theorem Wf.enqueue (h : q.Wf) (item : α) (priority : Nat) :
    (q.enqueue item priority).2.Wf ∧ ∃ l r, q.toList = l ++ r ∧
      (q.enqueue item priority).2.toList = l ++ item :: r := by
  have hpos := List.length_pos_iff.2 q.slots_ne_nil
  obtain ⟨d, hd⟩ : ∃ d, q.slots[min priority (q.slots.length - 1)]? = some d :=
    ⟨_, List.getElem?_eq_getElem (by omega)⟩
  obtain ⟨before, after, hslots, hset⟩ := slots_eq_append hd
  have hnew : (q.enqueue item priority).2.slots = before ++ (d.push item).2 :: after := by
    simp [PriorityQueue.enqueue, hd, hset]
  have hwf : d.Wf := h d (by simp [hslots])
  refine ⟨h.replace (hwf.push item) hslots hnew, before.flatMap (·.toList) ++ d.toList,
    after.flatMap (·.toList), ?_, ?_⟩
  · simp [toList, hslots]
  · simp [toList, hnew, hwf.toList_push]

/-- A removal takes one item out and keeps the order of the others. -/
theorem Wf.of_remove {k : QueueHandle} (h : q.Wf) (hr : q.remove k = some (item, q')) :
    q'.Wf ∧ ∃ l r, q.toList = l ++ item :: r ∧ q'.toList = l ++ r := by
  simp only [PriorityQueue.remove, Option.bind_eq_bind, Option.bind_eq_some_iff,
    Option.pure_def, Option.some.injEq, Prod.mk.injEq] at hr
  obtain ⟨d, hd, ⟨item', e⟩, he, rfl, rfl⟩ := hr
  obtain ⟨before, after, hslots, hset⟩ := slots_eq_append hd
  obtain ⟨hwf, l, r, hold, hnew⟩ := (h d (by simp [hslots])).of_remove he
  refine ⟨h.replace hwf hslots (hset e), before.flatMap (·.toList) ++ l,
    r ++ after.flatMap (·.toList), ?_, ?_⟩
  · simp [toList, hslots, hold]
  · simp [toList, hset, hnew]

theorem Wf.length_of_remove {k : QueueHandle} (h : q.Wf) (hr : q.remove k = some (item, q')) :
    q.length = q'.length + 1 := by
  obtain ⟨hwf, l, r, hold, hnew⟩ := h.of_remove hr
  rw [hwf.length_toList, h.length_toList, hold, hnew]
  simp only [List.length_append, List.length_cons]
  omega

/-! ## Taking the first item -/

theorem of_shiftFirst {slots rest : List (Deque α)} (h : ∀ d ∈ slots, d.Wf)
    (hs : shiftFirst slots = some (item, rest)) :
    (∀ d ∈ rest, d.Wf) ∧ slots.flatMap (·.toList) = item :: rest.flatMap (·.toList) := by
  induction slots generalizing rest with
  | nil => simp [shiftFirst] at hs
  | cons d slots ih =>
      have hd := h d List.mem_cons_self
      have hslots := fun e he => h e (List.mem_cons_of_mem d he)
      rw [shiftFirst] at hs
      split at hs
      · rename_i value e hshift
        cases hs
        obtain ⟨he, hlist⟩ := hd.of_shift hshift
        exact ⟨List.forall_mem_cons.2 ⟨he, hslots⟩, by simp [hlist]⟩
      · rename_i hshift
        obtain ⟨⟨value, tail⟩, hfound, heq⟩ := Option.map_eq_some_iff.1 hs
        cases heq
        obtain ⟨htail, hlist⟩ := ih hslots hfound
        refine ⟨List.forall_mem_cons.2 ⟨hd, htail⟩, ?_⟩
        simp [hd.shift_eq_none_iff.1 hshift, hlist]

theorem shiftFirst_eq_none {slots : List (Deque α)} (h : ∀ d ∈ slots, d.Wf)
    (hs : shiftFirst slots = none) : slots.flatMap (·.toList) = [] := by
  induction slots with
  | nil => rfl
  | cons d slots ih =>
      rw [shiftFirst] at hs
      split at hs
      · cases hs
      · rename_i hshift
        have htail := ih (fun e he => h e (List.mem_cons_of_mem d he))
          (Option.map_eq_none_iff.1 hs)
        rw [List.flatMap_cons, htail,
          (h d List.mem_cons_self).shift_eq_none_iff.1 hshift]
        rfl

/-- The item that is dequeued was the first. -/
theorem Wf.of_dequeue (h : q.Wf) (hd : q.dequeue = some (item, q')) :
    q'.Wf ∧ q.toList = item :: q'.toList := by
  rw [PriorityQueue.dequeue] at hd
  split at hd
  · rename_i hshift
    cases hd
    exact of_shiftFirst h hshift
  · cases hd

theorem Wf.dequeue_eq_none (h : q.Wf) (hd : q.dequeue = none) : q.toList = [] := by
  rw [PriorityQueue.dequeue] at hd
  split at hd
  · cases hd
  · rename_i hshift
    exact shiftFirst_eq_none h hshift

/-! ## Keeping some -/

theorem retainSlots_val {keep : α → Bool} (slots : List (Deque α)) :
    (Id.run (retainSlots (fun item => pure (keep item)) slots)).1 =
      slots.map (·.retain keep) := by
  induction slots with
  | nil => rfl
  | cons d slots ih =>
      rw [List.map_cons, ← ih]
      rfl

theorem slots_retain (keep : α → Bool) (q : PriorityQueue α) :
    (q.retain keep).slots = q.slots.map (·.retain keep) := by
  rw [← retainSlots_val]
  rfl

theorem Wf.retain (h : q.Wf) (keep : α → Bool) : (q.retain keep).Wf := by
  intro d hd
  rw [slots_retain] at hd
  obtain ⟨e, he, rfl⟩ := List.mem_map.1 hd
  exact (h e he).retain keep

/-- Exactly the items that pass the test are kept, in their order. -/
theorem Wf.toList_retain (h : q.Wf) (keep : α → Bool) :
    (q.retain keep).toList = q.toList.filter keep := by
  rw [toList, slots_retain, toList, List.flatMap_map, List.filter_flatMap]
  exact List.flatMap_congr fun d hd => (h d hd).toList_retain keep

theorem Wf.length_retain_le (h : q.Wf) (keep : α → Bool) : (q.retain keep).length ≤ q.length := by
  rw [(h.retain keep).length_toList, h.length_toList, h.toList_retain]
  exact List.length_filter_le _ _

end PooledSql.PriorityQueue
