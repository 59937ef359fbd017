import PooledSql.Proofs.Collections.PriorityQueue

/-!
# Generations

A handle means its value as long as that is in the deque, and nothing afterwards, whatever comes
to stand in its slot. `Deque.Ages` compares a deque with what becomes of it: a slot keeps its node
or has lost it, and then its generation too. The slots of a priority queue age together.
-/

namespace PooledSql

variable {α : Type} {gone gone' : α → Prop} {v : α}

/-- A slot keeps its node and generation, or loses both with a value that may be gone. -/
inductive Slot.Ages (gone : α → Prop) : Slot α → Slot α → Prop where
  | keep {g : Nat} {node node' : Option (Node α)}
      (h : ∀ n, node = some n → node'.map (·.value) = some n.value) : Ages gone ⟨g, node⟩ ⟨g, node'⟩
  | lose {g g' : Nat} {node node' : Option (Node α)} (hlt : g < g')
      (h : ∀ n, node = some n → gone n.value) : Ages gone ⟨g, node⟩ ⟨g', node'⟩

namespace Slot

variable {s s' s'' : Slot α}

theorem Ages.refl (s : Slot α) : s.Ages gone s := by
  obtain ⟨g, node⟩ := s
  refine .keep ?_
  rintro n rfl
  rfl

theorem Ages.trans (h : s.Ages gone s') (h' : s'.Ages gone s'') : s.Ages gone s'' := by
  cases h with
  | keep h =>
      cases h' with
      | keep h' =>
          refine .keep ?_
          intro n hn
          obtain ⟨n', hn', hvalue⟩ := Option.map_eq_some_iff.1 (h n hn)
          exact (h' n' hn').trans (congrArg some hvalue)
      | lose hlt h' =>
          refine .lose hlt ?_
          intro n hn
          obtain ⟨n', hn', hvalue⟩ := Option.map_eq_some_iff.1 (h n hn)
          exact hvalue ▸ h' n' hn'
  | lose hlt h =>
      cases h' with
      | keep => exact .lose hlt h
      | lose hlt' => exact .lose (hlt.trans hlt') h

theorem Ages.mono (hgone : ∀ v, gone v → gone' v) (h : s.Ages gone s') : s.Ages gone' s' := by
  cases h with
  | keep h => exact .keep h
  | lose hlt h => exact .lose hlt fun n hn => hgone _ (h n hn)

theorem Ages.generation_le (h : s.Ages gone s') : s.generation ≤ s'.generation := by
  cases h with
  | keep => exact le_rfl
  | lose hlt => exact hlt.le

end Slot

namespace Deque

variable {d e f : Deque α} {k : Handle}

/-- One deque becomes the other, and only values that may be gone are taken out. -/
def Ages (gone : α → Prop) (d e : Deque α) : Prop :=
  ∀ (i : Nat) (s : Slot α), d.slots[i]? = some s → ∃ s', e.slots[i]? = some s' ∧ s.Ages gone s'

/-- The node that the handle meant has been taken out. -/
def Spent (d : Deque α) (k : Handle) : Prop :=
  ∃ s, d.slots[k.index]? = some s ∧ k.generation < s.generation

theorem ages_of_slots (h : e.slots = d.slots) : d.Ages gone e := by
  intro i s hs
  exact ⟨s, h ▸ hs, .refl s⟩

theorem Ages.refl (d : Deque α) : d.Ages gone d := ages_of_slots rfl

theorem Ages.trans (h : d.Ages gone e) (h' : e.Ages gone f) : d.Ages gone f := by
  intro i s hs
  obtain ⟨s', hs', hages⟩ := h i s hs
  obtain ⟨s'', hs'', hages'⟩ := h' i s' hs'
  exact ⟨s'', hs'', hages.trans hages'⟩

theorem Ages.mono (hgone : ∀ v, gone v → gone' v) (h : d.Ages gone e) : d.Ages gone' e := by
  intro i s hs
  obtain ⟨s', hs', hages⟩ := h i s hs
  exact ⟨s', hs', hages.mono hgone⟩

/-! ## What a handle means -/

theorem get?_eq_some_iff :
    d.get? k = some v ↔ ∃ n, d.slots[k.index]? = some ⟨k.generation, some n⟩ ∧ n.value = v := by
  simp only [get?, nodeOf?, Option.map_eq_some_iff, Option.bind_eq_some_iff]
  constructor
  · rintro ⟨n, ⟨⟨g, node⟩, hslot, hnode⟩, hvalue⟩
    split at hnode
    · rename_i hg
      cases hg
      cases hnode
      exact ⟨n, hslot, hvalue⟩
    · cases hnode
  · rintro ⟨n, hslot, hvalue⟩
    exact ⟨n, ⟨_, hslot, if_pos rfl⟩, hvalue⟩

theorem Spent.get? (h : d.Spent k) : d.get? k = none := by
  obtain ⟨s, hs, hlt⟩ := h
  rw [Deque.get?, nodeOf?, hs, Option.bind_some, if_neg hlt.ne']
  rfl

theorem Ages.spent (h : d.Ages gone e) (hk : d.Spent k) : e.Spent k := by
  obtain ⟨s, hs, hlt⟩ := hk
  obtain ⟨s', hs', hages⟩ := h _ s hs
  exact ⟨s', hs', hlt.trans_le hages.generation_le⟩

/-- A handle goes on to mean its value, unless that is gone. -/
theorem Ages.get? (h : d.Ages gone e) (hk : d.get? k = some v) :
    e.get? k = some v ∨ gone v ∧ e.Spent k := by
  obtain ⟨n, hslot, rfl⟩ := get?_eq_some_iff.1 hk
  obtain ⟨s', hs', hages⟩ := h _ _ hslot
  cases hages with
  | keep hnode =>
      obtain ⟨n', hn', hvalue⟩ := Option.map_eq_some_iff.1 (hnode n rfl)
      refine .inl (get?_eq_some_iff.2 ⟨n', ?_, hvalue⟩)
      rw [hs', hn']
  | lose hlt hgone => exact .inr ⟨hgone n rfl, _, hs', hlt⟩

theorem Wf.mem_of_get? (h : d.Wf) (hk : d.get? k = some v) : v ∈ d.toList := by
  obtain ⟨n, hn, rfl⟩ := Option.map_eq_some_iff.1 hk
  obtain ⟨l, r, hentries⟩ := h.lists.mem_of_nodeOf? hn
  rw [toList, hentries]
  simp

theorem Wf.remove_of_get? (h : d.Wf) (hk : d.get? k = some v) : ∃ e, d.remove k = some (v, e) := by
  obtain ⟨n, hn, rfl⟩ := Option.map_eq_some_iff.1 hk
  obtain ⟨l, r, hentries⟩ := h.lists.mem_of_nodeOf? hn
  have hlists := h.lists
  rw [hentries] at hlists
  obtain ⟨e, he, -⟩ := hlists.remove
  exact ⟨e, he⟩

/-- Only values that are there can be lost. -/
theorem Wf.ages_of_mem (h : d.Wf) (hages : d.Ages gone e) :
    d.Ages (fun v => gone v ∧ v ∈ d.toList) e := by
  intro i s hs
  obtain ⟨s', hs', hslot⟩ := hages i s hs
  refine ⟨s', hs', ?_⟩
  cases hslot with
  | keep hnode => exact .keep hnode
  | @lose g g' node node' hlt hgone =>
      refine .lose hlt ?_
      rintro n rfl
      have hk : d.get? ⟨i, g⟩ = some n.value := get?_eq_some_iff.2 ⟨n, hs, rfl⟩
      exact ⟨hgone n rfl, h.mem_of_get? hk⟩

theorem remove_of_none (hk : d.get? k = none) : d.remove k = none := by
  rw [remove, if_neg]
  simpa [contains, get?] using hk

theorem Wf.get?_push (h : d.Wf) (v : α) : (d.push v).2.get? (d.push v).1 = some v := by
  have hpush := h.lists.push v
  rw [Deque.get?, hpush.nodeOf?]
  rfl

/-! ## Operations -/

theorem ages_linkNext (d : Deque α) (prev next : Option Nat) :
    d.Ages gone (d.linkNext prev next) := by
  intro i s hs
  rw [getElem?_slots_linkNext, hs]
  split
  · refine ⟨_, rfl, .keep ?_⟩
    rintro n hn
    rw [hn]
    rfl
  · exact ⟨s, rfl, .refl s⟩

theorem ages_linkPrev (d : Deque α) (next prev : Option Nat) :
    d.Ages gone (d.linkPrev next prev) := by
  intro i s hs
  rw [getElem?_slots_linkPrev, hs]
  split
  · refine ⟨_, rfl, .keep ?_⟩
    rintro n hn
    rw [hn]
    rfl
  · exact ⟨s, rfl, .refl s⟩

theorem FreeSlots.ages_allocate (h : d.FreeSlots) (node : Node α) :
    d.Ages gone (d.allocate node).2 := by
  intro i s hs
  rw [Deque.allocate]
  split
  · rename_i index free hfree
    obtain ⟨g, hg⟩ := (h.vacant index).1 (by simp [hfree])
    dsimp only
    rw [Array.getElem?_modify, hs]
    split
    · rename_i hi
      rw [hi, hs] at hg
      cases hg
      exact ⟨_, rfl, .keep fun _ hnode => by cases hnode⟩
    · exact ⟨s, rfl, .refl s⟩
  · have hlt := (Array.getElem?_eq_some_iff.1 hs).1
    dsimp only
    rw [Array.getElem?_push, if_neg hlt.ne, hs]
    exact ⟨s, rfl, .refl s⟩

theorem FreeSlots.ages_push (h : d.FreeSlots) (v : α) : d.Ages gone (d.push v).2 := by
  have hlinked : d.Ages gone ((d.allocate ⟨v, d.tail, none⟩).2.linkNext d.tail
      (some (d.allocate ⟨v, d.tail, none⟩).1)) := (h.ages_allocate _).trans (ages_linkNext _ _ _)
  exact hlinked.trans (ages_of_slots rfl)

/-- The value of the node is gone with it. -/
theorem ages_unlink {i : Nat} (h : d.unlink i = some (v, e)) : d.Ages (· = v) e := by
  obtain ⟨n, hn, heq⟩ := Option.map_eq_some_iff.1 h
  cases heq
  obtain ⟨⟨g, node⟩, hslot, hnode⟩ := Option.bind_eq_some_iff.1 hn
  have hvacate : d.Ages (· = n.value) (d.vacate i) := by
    intro j s hs
    rw [vacate]
    dsimp only
    rw [Array.getElem?_modify, hs]
    split
    · rename_i hi
      rw [← hi, hslot] at hs
      cases hs
      refine ⟨_, rfl, .lose (Nat.lt_succ_self _) ?_⟩
      intro n' hn'
      cases hnode.symm.trans hn'
      rfl
    · exact ⟨s, rfl, .refl s⟩
  exact (hvacate.trans (ages_linkNext _ _ _)).trans (ages_linkPrev _ _ _)

theorem ages_shift (h : d.shift = some (v, e)) : d.Ages (· = v) e := by
  obtain ⟨i, -, hi⟩ := Option.bind_eq_some_iff.1 h
  exact ages_unlink hi

theorem ages_remove (h : d.remove k = some (v, e)) : d.Ages (· = v) e := by
  rw [remove] at h
  split at h
  · exact ages_unlink h
  · cases h

theorem ages_retainFrom (keep : α → Bool) (fuel : Nat) (start : Option Nat) (d : Deque α) :
    d.Ages (keep · = false) (Id.run (d.retainFrom (fun v => pure (keep v)) fuel start)) := by
  induction fuel generalizing start d with
  | zero => exact .refl d
  | succ fuel ih =>
      cases start with
      | none => exact .refl d
      | some i =>
          rw [retainFrom]
          cases hn : d.node? i with
          | none => exact .refl d
          | some n =>
              simp only [pure_bind]
              split
              · exact ih n.next d
              · rename_i hkeep
                have hunlink : ∃ e, d.unlink i = some (n.value, e) := by
                  rw [unlink, hn]
                  exact ⟨_, rfl⟩
                obtain ⟨e, he⟩ := hunlink
                rw [he]
                refine Ages.trans ((ages_unlink he).mono ?_) (ih n.next e)
                rintro _ rfl
                exact Bool.eq_false_iff.2 hkeep

theorem ages_retain (keep : α → Bool) (d : Deque α) : d.Ages (keep · = false) (d.retain keep) :=
  ages_retainFrom keep d.length d.head d

end Deque

namespace PriorityQueue

variable {q q' q'' : PriorityQueue α} {item : α} {k : QueueHandle}

/-- The item that a handle means, if it is still queued. -/
def get? (q : PriorityQueue α) (k : QueueHandle) : Option α := q.slots[k.slot]?.bind (·.get? k.node)

/-- The item that the handle meant has left the queue. -/
def Spent (q : PriorityQueue α) (k : QueueHandle) : Prop :=
  ∃ d, q.slots[k.slot]? = some d ∧ d.Spent k.node

/-- One queue becomes the other slot by slot, and only items that may be gone are taken out. -/
structure Ages (gone : α → Prop) (q q' : PriorityQueue α) : Prop where
  length : q'.slots.length = q.slots.length
  slot : ∀ (i : Nat) (d : Deque α), q.slots[i]? = some d →
    ∃ e, q'.slots[i]? = some e ∧ d.Ages gone e

theorem Ages.refl (q : PriorityQueue α) : q.Ages gone q := ⟨rfl, fun _ d hd => ⟨d, hd, .refl d⟩⟩

theorem Ages.trans (h : q.Ages gone q') (h' : q'.Ages gone q'') : q.Ages gone q'' where
  length := h'.length.trans h.length
  slot i d hd := by
    obtain ⟨e, he, hages⟩ := h.slot i d hd
    obtain ⟨f, hf, hages'⟩ := h'.slot i e he
    exact ⟨f, hf, hages.trans hages'⟩

theorem Ages.mono (hgone : ∀ v, gone v → gone' v) (h : q.Ages gone q') : q.Ages gone' q' where
  length := h.length
  slot i d hd := by
    obtain ⟨e, he, hages⟩ := h.slot i d hd
    exact ⟨e, he, hages.mono hgone⟩

/-! ## What a handle means -/

theorem Spent.get? (h : q.Spent k) : q.get? k = none := by
  obtain ⟨d, hd, hk⟩ := h
  rw [PriorityQueue.get?, hd, Option.bind_some, hk.get?]

theorem Ages.spent (h : q.Ages gone q') (hk : q.Spent k) : q'.Spent k := by
  obtain ⟨d, hd, hk⟩ := hk
  obtain ⟨e, he, hages⟩ := h.slot _ d hd
  exact ⟨e, he, hages.spent hk⟩

/-- A handle goes on to mean its item, unless that is gone. -/
theorem Ages.get? (h : q.Ages gone q') (hk : q.get? k = some v) :
    q'.get? k = some v ∨ gone v ∧ q'.Spent k := by
  obtain ⟨d, hd, hk⟩ := Option.bind_eq_some_iff.1 hk
  obtain ⟨e, he, hages⟩ := h.slot _ d hd
  obtain hk | ⟨hgone, hspent⟩ := hages.get? hk
  · exact .inl (Option.bind_eq_some_iff.2 ⟨e, he, hk⟩)
  · exact .inr ⟨hgone, e, he, hspent⟩

theorem Wf.mem_of_get? (h : q.Wf) (hk : q.get? k = some v) : v ∈ q.toList := by
  obtain ⟨d, hd, hk⟩ := Option.bind_eq_some_iff.1 hk
  have hmem := List.mem_of_getElem? hd
  exact List.mem_flatMap.2 ⟨d, hmem, (h d hmem).mem_of_get? hk⟩

/-- Only items that are queued can be lost. -/
theorem Wf.ages_of_mem (h : q.Wf) (hages : q.Ages gone q') :
    q.Ages (fun v => gone v ∧ v ∈ q.toList) q' := by
  refine ⟨hages.length, fun i d hd => ?_⟩
  obtain ⟨e, he, hdeque⟩ := hages.slot i d hd
  have hmem := List.mem_of_getElem? hd
  refine ⟨e, he, ((h d hmem).ages_of_mem hdeque).mono ?_⟩
  rintro v ⟨hgone, hv⟩
  exact ⟨hgone, List.mem_flatMap.2 ⟨d, hmem, hv⟩⟩

theorem Wf.remove_of_get? (h : q.Wf) (hk : q.get? k = some v) :
    ∃ q', q.remove k = some (v, q') := by
  obtain ⟨d, hd, hk⟩ := Option.bind_eq_some_iff.1 hk
  obtain ⟨e, he⟩ := (h d (List.mem_of_getElem? hd)).remove_of_get? hk
  simp only [remove, hd, he, Option.bind_eq_bind, Option.bind_some, Option.pure_def]
  exact ⟨_, rfl⟩

theorem remove_of_none (hk : q.get? k = none) : q.remove k = none := by
  cases hd : q.slots[k.slot]? with
  | none => simp [remove, hd]
  | some d =>
      rw [PriorityQueue.get?, hd, Option.bind_some] at hk
      simp [remove, hd, Deque.remove_of_none hk]

/-! ## Operations -/

/-- One slot ages and the others stay as they are. -/
theorem ages_set {i : Nat} {d e : Deque α} (hd : q.slots[i]? = some d) (h : d.Ages gone e)
    (hslots : q'.slots = q.slots.set i e) : q.Ages gone q' := by
  refine ⟨by rw [hslots, List.length_set], fun j c hc => ?_⟩
  obtain ⟨hi, rfl⟩ := List.getElem?_eq_some_iff.1 hd
  rw [hslots, List.getElem?_set]
  split
  · rename_i hij
    subst hij
    rw [List.getElem?_eq_getElem hi] at hc
    cases hc
    exact ⟨e, rfl, h⟩
  · exact ⟨c, hc, .refl c⟩

/-- A new item is pushed into one of the slots. -/
theorem Wf.enqueue_slot (h : q.Wf) (item : α) (priority : Nat) : ∃ i d, q.slots[i]? = some d ∧
    d.Wf ∧ (q.enqueue item priority).2.slots = q.slots.set i (d.push item).2 ∧
      (q.enqueue item priority).1 = ⟨i, (d.push item).1⟩ := by
  have hpos := List.length_pos_iff.2 q.slots_ne_nil
  obtain ⟨d, hd⟩ : ∃ d, q.slots[min priority (q.slots.length - 1)]? = some d :=
    ⟨_, List.getElem?_eq_getElem (by omega)⟩
  have hwf : d.Wf := h d (List.mem_of_getElem? hd)
  exact ⟨_, d, hd, hwf, by simp [PriorityQueue.enqueue, hd], by simp [PriorityQueue.enqueue, hd]⟩

theorem Wf.ages_enqueue (h : q.Wf) (item : α) (priority : Nat) :
    q.Ages gone (q.enqueue item priority).2 := by
  obtain ⟨i, d, hd, hwf, hslots, -⟩ := h.enqueue_slot item priority
  exact ages_set hd (hwf.lists.free.ages_push item) hslots

/-- The item comes behind all that are as urgent or more, and before the others. -/
theorem Wf.enqueue_order (h : q.Wf) (hnodup : q.toList.Nodup) (item : α) (priority : Nat) :
    ∃ l r, q.toList = l ++ r ∧ (q.enqueue item priority).2.toList = l ++ item :: r ∧
      ∀ k v, q.get? k = some v → (v ∈ l ↔ k.slot ≤ (q.enqueue item priority).1.slot) := by
  obtain ⟨i, d, hd, hwf, hslots, hhandle⟩ := h.enqueue_slot item priority
  obtain ⟨hi, rfl⟩ := List.getElem?_eq_some_iff.1 hd
  have hsplit : q.toList = (q.slots.take (i + 1)).flatMap (·.toList) ++
      (q.slots.drop (i + 1)).flatMap (·.toList) := by
    rw [← List.flatMap_append, List.take_append_drop]
    rfl
  refine ⟨_, _, hsplit, ?_, fun k v hk => ?_⟩
  · have htake : (q.slots.take (i + 1)).flatMap (·.toList) =
        (q.slots.take i).flatMap (·.toList) ++ q.slots[i].toList := by
      rw [List.take_add_one, hd, List.flatMap_append, Option.toList_some, List.flatMap_singleton]
    rw [htake, toList, hslots, List.set_eq_take_append_cons_drop, if_pos hi]
    simp [hwf.toList_push]
  · obtain ⟨c, hc, hv⟩ := Option.bind_eq_some_iff.1 hk
    have hmem := (h c (List.mem_of_getElem? hc)).mem_of_get? hv
    rw [hhandle]
    constructor
    · intro hleft
      by_contra hlt
      rw [not_le] at hlt
      rw [hsplit, List.nodup_append'] at hnodup
      refine hnodup.2.2 hleft (List.mem_flatMap.2 ⟨c, ?_, hmem⟩)
      refine List.mem_of_getElem? (i := k.slot - (i + 1)) ?_
      rw [List.getElem?_drop, Nat.add_sub_cancel' hlt, hc]
    · intro hle
      refine List.mem_flatMap.2 ⟨c, ?_, hmem⟩
      refine List.mem_of_getElem? (i := k.slot) ?_
      rw [List.getElem?_take, if_pos (Nat.lt_succ_of_le hle), hc]

/-- It gets a handle of its own. -/
theorem Wf.get?_enqueue (h : q.Wf) (item : α) (priority : Nat) :
    (q.enqueue item priority).2.get? (q.enqueue item priority).1 = some item := by
  obtain ⟨i, d, hd, hwf, hslots, hhandle⟩ := h.enqueue_slot item priority
  have hlt : i < q.slots.length := (List.getElem?_eq_some_iff.1 hd).1
  rw [PriorityQueue.get?, hslots, hhandle, List.getElem?_set_self hlt, Option.bind_some,
    hwf.get?_push]

theorem ages_remove (h : q.remove k = some (item, q')) : q.Ages (· = item) q' := by
  simp only [remove, Option.bind_eq_bind, Option.bind_eq_some_iff, Option.pure_def,
    Option.some.injEq, Prod.mk.injEq] at h
  obtain ⟨d, hd, ⟨item', e⟩, he, rfl, rfl⟩ := h
  exact ages_set hd (Deque.ages_remove he) rfl

theorem ages_shiftFirst {slots rest : List (Deque α)} (h : shiftFirst slots = some (item, rest)) :
    ∀ (i : Nat) d, slots[i]? = some d → ∃ e, rest[i]? = some e ∧ d.Ages (· = item) e := by
  induction slots generalizing rest with
  | nil => cases h
  | cons first slots ih =>
      rw [shiftFirst] at h
      intro i d hd
      split at h
      · rename_i value e hshift
        cases h
        cases i with
        | zero =>
            cases hd
            exact ⟨e, rfl, Deque.ages_shift hshift⟩
        | succ i => exact ⟨d, hd, .refl d⟩
      · obtain ⟨⟨value, tail⟩, hfound, heq⟩ := Option.map_eq_some_iff.1 h
        cases heq
        cases i with
        | zero => exact ⟨d, hd, .refl d⟩
        | succ i => exact ih hfound i d hd

theorem ages_dequeue (h : q.dequeue = some (item, q')) : q.Ages (· = item) q' := by
  rw [dequeue] at h
  split at h
  · rename_i hshift
    cases h
    exact ⟨length_of_shiftFirst hshift, ages_shiftFirst hshift⟩
  · cases h

theorem ages_retain (keep : α → Bool) (q : PriorityQueue α) :
    q.Ages (keep · = false) (q.retain keep) := by
  refine ⟨by rw [slots_retain, List.length_map], fun i d hd => ?_⟩
  rw [slots_retain, List.getElem?_map, hd]
  exact ⟨_, rfl, Deque.ages_retain keep d⟩

end PriorityQueue

end PooledSql
