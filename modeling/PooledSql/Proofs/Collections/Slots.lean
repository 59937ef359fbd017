import PooledSql.Proofs.Collections.Generations
import PooledSql.Proofs.Collections.Waitlist

/-!
# A priority queue slot by slot

`PriorityQueue.Tracks` ties a queue to its list: the deques of the slots stand for pieces of it,
one behind the other, so that a call on one deque changes one piece. Every call is answered as the
list says.
-/

namespace PooledSql

variable {α : Type}

namespace Deque

variable {d : Deque α} {r : Roll α}

/-- A value comes to the back under a handle that was never given out. -/
theorem Tracks.push_back (h : d.Tracks r) (v : α) : (d.push v).1 ∉ r.issued ∧
    (d.push v).2.Tracks ⟨r.entries ++ [((d.push v).1, v)], (d.push v).1 :: r.issued⟩ :=
  h.add (h.lists.push v) (List.perm_append_singleton _ _) (generation_fst_push d v)
    (generation_push d v)

/-- The front is taken, if there is one. -/
theorem Tracks.shift_cases (h : d.Tracks r) : (d.shift = none ∧ r.entries = []) ∨
    ∃ k v rest e, d.shift = some (v, e) ∧ r.entries = (k, v) :: rest ∧
      e.Tracks ⟨rest, r.issued⟩ := by
  obtain ⟨_ | ⟨⟨k, v⟩, rest⟩, issued⟩ := r
  · exact .inl ⟨h.lists.shift_nil, rfl⟩
  · obtain ⟨e, he⟩ := h.takes (l := [])
    have hhead : d.head = some k.index := h.lists.head
    refine .inr ⟨k, v, rest, e, ?_, rfl, he.tracks⟩
    rw [Deque.shift, hhead, Option.bind_some, he.unlink]

/-- The entry of a handle is taken out. -/
theorem Tracks.remove_mid {l rest : List (Handle × α)} {issued : List Handle} {k : Handle} {v : α}
    (h : d.Tracks ⟨l ++ (k, v) :: rest, issued⟩) :
    ∃ e, d.remove k = some (v, e) ∧ e.Tracks ⟨l ++ rest, issued⟩ := by
  obtain ⟨e, he⟩ := h.takes
  have hcontains : d.contains k = true := by
    rw [Deque.contains, h.lists.nodeOf?]
    rfl
  exact ⟨e, by rw [Deque.remove, if_pos hcontains, he.unlink], he.tracks⟩

theorem Tracks.retainM (h : d.Tracks r) (keep : List α → α → Bool) (asked : List α) :
    ∃ e, (d.retainM (asking keep)).run asked = (e, asked ++ r.entries.map (·.2)) ∧
      e.Tracks ⟨Roll.sift keep asked r.entries, r.issued⟩ := by
  have hlength : d.length = r.entries.length := h.lists.length
  have hhead : d.head = r.entries.head?.map slotOf := h.lists.head
  obtain ⟨e, hrun, htracks, -⟩ := Tracks.retainFrom (l := []) keep asked h le_rfl
  rw [← hlength, ← hhead] at hrun
  exact ⟨e, hrun, htracks⟩

end Deque

namespace PriorityQueue

variable {q q' : PriorityQueue α} {w : Waitlist α} {rolls : List (Roll α)} {r r' : Roll α}
variable {slots : List (Deque α)} {d : Deque α} {i n : Nat}

/-- What an entry of a slot is to the queue. -/
def mark (i : Nat) (entry : Handle × α) : QueueHandle × α := (⟨i, entry.1⟩, entry.2)

/-- The lists of the slots, from one slot on, as one. -/
def tickets : Nat → List (Roll α) → List (QueueHandle × α)
  | _, [] => []
  | i, r :: rolls => r.entries.map (mark i) ++ tickets (i + 1) rolls

theorem slot_of_mem_tickets {t : QueueHandle × α} (h : t ∈ tickets n rolls) :
    n ≤ t.1.slot ∧ t.1.slot < n + rolls.length := by
  induction rolls generalizing n with
  | nil => cases h
  | cons r rolls ih =>
      rw [List.length_cons]
      obtain h | h := List.mem_append.1 h
      · obtain ⟨entry, -, rfl⟩ := List.mem_map.1 h
        simp only [mark]
        omega
      · have := ih h
        omega

theorem mem_tickets {t : QueueHandle × α} (h : t ∈ tickets n rolls) : ∃ i r, t.1.slot = n + i ∧
    rolls[i]? = some r ∧ (t.1.node, t.2) ∈ r.entries := by
  induction rolls generalizing n with
  | nil => cases h
  | cons r rolls ih =>
      obtain h | h := List.mem_append.1 h
      · obtain ⟨entry, hentry, rfl⟩ := List.mem_map.1 h
        exact ⟨0, r, rfl, rfl, hentry⟩
      · obtain ⟨i, r, hslot, hr, hentry⟩ := ih h
        exact ⟨i + 1, r, by omega, hr, hentry⟩

/-- The list of a slot stands between those of the slots before it and behind it. -/
theorem tickets_split (hr : rolls[i]? = some r) (n : Nat) : tickets n rolls =
    tickets n (rolls.take i) ++
      (r.entries.map (mark (n + i)) ++ tickets (n + i + 1) (rolls.drop (i + 1))) := by
  induction rolls generalizing i n with
  | nil => cases hr
  | cons first rolls ih =>
      cases i with
      | zero =>
          cases hr
          rfl
      | succ i =>
          have hrest := ih hr (n + 1)
          rw [List.take_succ_cons, List.drop_succ_cons, tickets, tickets, hrest,
            List.append_assoc, Nat.add_right_comm n 1 i]
          rfl

theorem tickets_set (hr : rolls[i]? = some r) (r' : Roll α) (n : Nat) :
    tickets n (rolls.set i r') = tickets n (rolls.take i) ++
      (r'.entries.map (mark (n + i)) ++ tickets (n + i + 1) (rolls.drop (i + 1))) := by
  have hi := (List.getElem?_eq_some_iff.1 hr).1
  rw [tickets_split (List.getElem?_set_self hi), List.take_set_of_le le_rfl,
    List.drop_set_of_lt (Nat.lt_succ_self i)]

/-- The deques of the slots stand for pieces of the list, one behind the other. -/
structure Stands (q : PriorityQueue α) (w : Waitlist α) (rolls : List (Roll α)) : Prop where
  slots : List.Forall₂ Deque.Tracks q.slots rolls
  size : w.slots = rolls.length
  entries : w.entries.map Waiter.ticket = tickets 0 rolls
  issued : ∀ k : QueueHandle, k ∈ w.arrivals.map (·.handle) ↔
    ∃ r, rolls[k.slot]? = some r ∧ k.node ∈ r.issued

/-- The queue stands for the list. -/
def Tracks (q : PriorityQueue α) (w : Waitlist α) : Prop := ∃ rolls, q.Stands w rolls

theorem forall₂_set (h : List.Forall₂ Deque.Tracks slots rolls) (hd : d.Tracks r) (i : Nat) :
    List.Forall₂ Deque.Tracks (slots.set i d) (rolls.set i r) := by
  induction h generalizing i with
  | nil => exact .nil
  | cons hfirst hrest ih =>
      cases i with
      | zero => exact .cons hd hrest
      | succ i => exact .cons hfirst (ih i)

/-- What stands at a place of one list has a counterpart at the same place of the other. -/
theorem exists_counterpart {β γ : Type} {R : β → γ → Prop} {l : List β} {l' : List γ} {b : β}
    (h : List.Forall₂ R l l') (hb : l[i]? = some b) : ∃ c, l'[i]? = some c ∧ R b c := by
  induction h generalizing i with
  | nil => cases hb
  | cons hfirst hrest ih =>
      cases i with
      | zero =>
          cases hb
          exact ⟨_, rfl, hfirst⟩
      | succ i => exact ih hb

theorem Stands.tracks (h : q.Stands w rolls) : q.Tracks w := ⟨rolls, h⟩

theorem Stands.wf (h : q.Stands w rolls) : q.Wf := by
  intro d hd
  obtain ⟨i, hi⟩ := List.mem_iff_getElem?.1 hd
  obtain ⟨r, -, htracks⟩ := exists_counterpart h.slots hi
  exact htracks.lists.wf

theorem slots_ofSlots (count : Nat) :
    (ofSlots count : PriorityQueue α).slots = List.replicate (max count 1) .empty := by
  cases count with
  | zero => rfl
  | succ count =>
      rw [max_eq_left (Nat.succ_le_succ (Nat.zero_le count)), List.replicate_succ]
      rfl

theorem tracks_ofSlots (count : Nat) : (ofSlots count : PriorityQueue α).Tracks
    (.empty (max count 1)) := by
  refine ⟨List.replicate (max count 1) .empty, ?_, ?_, ?_, ?_⟩
  · rw [slots_ofSlots]
    induction max count 1 with
    | zero => exact .nil
    | succ n ih => exact .cons Deque.tracks_empty ih
  · rw [List.length_replicate]
    rfl
  · rw [Waitlist.empty, List.map_nil]
    generalize 0 = i
    induction max count 1 generalizing i with
    | zero => rfl
    | succ n ih => exact ih (i + 1)
  · intro k
    constructor
    · intro hk
      cases hk
    · rintro ⟨r, hr, hk⟩
      obtain rfl := List.eq_of_mem_replicate (List.mem_of_getElem? hr)
      cases hk

/-- Handles are given out slot by slot. -/
theorem issued_set (hr : rolls[i]? = some r) (r' : Roll α) (k : QueueHandle) :
    (∃ s, (rolls.set i r')[k.slot]? = some s ∧ k.node ∈ s.issued) ↔
      if i = k.slot then k.node ∈ r'.issued
      else ∃ s, rolls[k.slot]? = some s ∧ k.node ∈ s.issued := by
  have hi := (List.getElem?_eq_some_iff.1 hr).1
  split
  · rename_i hslot
    rw [← hslot, List.getElem?_set_self hi]
    simp
  · rename_i hslot
    rw [List.getElem?_set_ne hslot]

/-- An entry that is taken out of the piece of its slot is taken out of the list. -/
theorem Stands.take {a b : List (Handle × α)} {issued : List Handle} {k : Handle} {v : α}
    (h : q.Stands w rolls) (hr : rolls[i]? = some ⟨a ++ (k, v) :: b, issued⟩)
    (hd : d.Tracks ⟨a ++ b, issued⟩) (hq : q'.slots = q.slots.set i d) :
    ∃ l e r, w.entries = l ++ e :: r ∧ e.handle = ⟨i, k⟩ ∧ e.item = v ∧
      l.map Waiter.ticket = tickets 0 (rolls.take i) ++ a.map (mark i) ∧
      q'.Tracks (w.take l e r) := by
  have hentries := h.entries
  have hset := tickets_set hr ⟨a ++ b, issued⟩ 0
  rw [tickets_split hr, Nat.zero_add, List.map_append, List.map_cons, List.append_assoc,
    ← List.append_assoc] at hentries
  rw [Nat.zero_add, List.map_append, List.append_assoc, ← List.append_assoc] at hset
  obtain ⟨l, rest, hsplit, hl, hrest⟩ := List.map_eq_append_iff.1 hentries
  obtain ⟨e, r, rfl, he, hr'⟩ := List.map_eq_cons_iff.1 hrest
  refine ⟨l, e, r, hsplit, congrArg Prod.fst he, congrArg Prod.snd he, hl, _,
    hq ▸ forall₂_set h.slots hd i, ?_, ?_, ?_⟩
  · rw [List.length_set]
    exact h.size
  · rw [hset, Waitlist.take, List.map_append, hl, hr']
    rfl
  · intro k'
    rw [issued_set hr]
    refine (h.issued k').trans ?_
    split
    · rename_i hslot
      rw [← hslot, hr]
      simp
    · exact Iff.rfl

/-! ## Through every call -/

/-- The call is answered as the list says. -/
def Follows (q : PriorityQueue α) (c : Call α) (w : Waitlist α) : Prop :=
  ∃ w', w.Step c (q.call c).1 w' ∧ (q.call c).2.Tracks w'

/-- The list may be cut behind the piece of a slot. -/
theorem Stands.exists_cut {i : Nat} {r : Roll α} (h : q.Stands w rolls) (hr : rolls[i]? = some r) :
    ∃ l rest, w.entries = l ++ rest ∧
      l.map Waiter.ticket = tickets 0 (rolls.take i) ++ r.entries.map (mark i) ∧
      rest.map Waiter.ticket = tickets (i + 1) (rolls.drop (i + 1)) ∧
      (∀ e ∈ l, e.handle.slot ≤ i) ∧ ∀ e ∈ rest, i < e.handle.slot := by
  have hentries := h.entries
  rw [tickets_split hr, Nat.zero_add, ← List.append_assoc] at hentries
  obtain ⟨l, rest, hsplit, hl, hrest⟩ := List.map_eq_append_iff.1 hentries
  refine ⟨l, rest, hsplit, hl, hrest, fun e he => ?_, fun e he => ?_⟩
  · have hmem := List.mem_map_of_mem (f := Waiter.ticket) he
    rw [hl] at hmem
    obtain hmem | hmem := List.mem_append.1 hmem
    · have hlt := (slot_of_mem_tickets hmem).2
      rw [Nat.zero_add, List.length_take] at hlt
      exact (hlt.trans_le (Nat.min_le_left _ _)).le
    · obtain ⟨entry, -, heq⟩ := List.mem_map.1 hmem
      exact (congrArg (fun t => t.1.slot) heq).ge
  · have hmem := List.mem_map_of_mem (f := Waiter.ticket) he
    rw [hrest] at hmem
    exact (slot_of_mem_tickets hmem).1

theorem Stands.enqueue (h : q.Stands w rolls) (item : α) (priority : Nat) :
    q.Follows (.enqueue item priority) w := by
  obtain ⟨i, d, hd, -, hslots, hhandle⟩ := h.wf.enqueue_slot item priority
  obtain ⟨r, hr, htracks⟩ := exists_counterpart h.slots hd
  obtain ⟨hnew, hpush⟩ := htracks.push_back item
  have hi : i = min priority (w.slots - 1) := by
    rw [h.size, ← h.slots.length_eq]
    exact (congrArg QueueHandle.slot hhandle).symm
  obtain ⟨l, rest, hsplit, hl, hrest, hleft, hright⟩ := h.exists_cut hr
  have hcall : q.call (.enqueue item priority) =
      (.handle ⟨i, (d.push item).1⟩, (q.enqueue item priority).2) := by
    rw [call, ← hhandle]
    rfl
  rw [Follows, hcall]
  refine ⟨_, .enqueue item priority hi ?_ hsplit hleft hright, _,
    hslots ▸ forall₂_set h.slots hpush i, ?_, ?_, ?_⟩
  · rw [h.issued]
    rintro ⟨s, hs, hk⟩
    cases hr.symm.trans hs
    exact hnew hk
  · rw [List.length_set]
    exact h.size
  · rw [tickets_set hr, Nat.zero_add, Waitlist.add, List.map_append, List.map_cons, hl, hrest,
      List.map_append]
    simp [mark, Waiter.ticket]
  · intro k
    rw [issued_set hr, Waitlist.add, List.map_append, List.mem_append, h.issued]
    obtain ⟨slot, node⟩ := k
    split
    · rename_i hslot
      obtain rfl : i = slot := hslot
      simp [hr, or_comm]
    · rename_i hslot
      have hne : slot ≠ i := fun heq => hslot heq.symm
      simp [hne]

theorem shiftFirst_cases (h : List.Forall₂ Deque.Tracks slots rolls) (n : Nat) :
    (shiftFirst slots = none ∧ tickets n rolls = []) ∨
    ∃ i k v rest issued d, rolls[i]? = some ⟨(k, v) :: rest, issued⟩ ∧
      shiftFirst slots = some (v, slots.set i d) ∧ d.Tracks ⟨rest, issued⟩ ∧
      tickets n (rolls.take i) = [] := by
  induction h generalizing n with
  | nil => exact .inl ⟨rfl, rfl⟩
  | @cons d r slots rolls hd hrest ih =>
      obtain ⟨hshift, hentries⟩ | ⟨k, v, rest, e, hshift, hentries, he⟩ := hd.shift_cases
      · rw [shiftFirst, hshift]
        have hskip : ∀ rolls, tickets n (r :: rolls) = tickets (n + 1) rolls := by
          intro rolls
          rw [tickets, hentries]
          rfl
        obtain ⟨hnone, hempty⟩ | ⟨i, k, v, rest, issued, e, hr, hsome, he, hbefore⟩ := ih (n + 1)
        · refine .inl ⟨?_, (hskip rolls).trans hempty⟩
          rw [hnone]
          rfl
        · refine .inr ⟨i + 1, k, v, rest, issued, e, hr, ?_, he, ?_⟩
          · rw [hsome]
            rfl
          · rw [List.take_succ_cons, hskip]
            exact hbefore
      · refine .inr ⟨0, k, v, rest, r.issued, e, ?_, ?_, he, rfl⟩
        · rw [← hentries]
          rfl
        · rw [shiftFirst, hshift]
          rfl

theorem dequeue_of_shiftFirst {v : α} {rest : List (Deque α)}
    (h : shiftFirst q.slots = some (v, rest)) :
    ∃ q', q.dequeue = some (v, q') ∧ q'.slots = rest := by
  rw [PriorityQueue.dequeue]
  split
  · rename_i heq
    cases h.symm.trans heq
    exact ⟨_, rfl, rfl⟩
  · rename_i heq
    cases h.symm.trans heq

theorem Stands.dequeue (h : q.Stands w rolls) : q.Follows .dequeue w := by
  obtain ⟨hnone, hempty⟩ | ⟨i, k, v, rest, issued, d, hr, hsome, hd, hbefore⟩ :=
    shiftFirst_cases h.slots 0
  · have hentries : w.entries = [] := List.map_eq_nil_iff.1 (h.entries.trans hempty)
    have hdequeue : q.dequeue = none := by
      rw [PriorityQueue.dequeue]
      split
      · rename_i heq
        cases hnone.symm.trans heq
      · rfl
    rw [Follows, call, hdequeue]
    exact ⟨w, .dequeue_nil hentries, h.tracks⟩
  · obtain ⟨q', hdequeue, hq⟩ := dequeue_of_shiftFirst hsome
    obtain ⟨l, e, r, hsplit, -, rfl, hl, htracks⟩ := h.take (a := []) hr hd hq
    obtain rfl : l = [] := List.map_eq_nil_iff.1 (hl.trans (by rw [hbefore]; rfl))
    rw [Follows, call, hdequeue]
    exact ⟨_, .dequeue hsplit, htracks⟩

/-- What is not in the list is not in its slot. -/
theorem Stands.notMem_handles {k : QueueHandle} {r : Roll α} (h : q.Stands w rolls)
    (hr : rolls[k.slot]? = some r) (hgone : ∀ e ∈ w.entries, e.handle ≠ k) :
    k.node ∉ r.handles := by
  intro hmem
  obtain ⟨entry, hentry, heq⟩ := List.mem_map.1 hmem
  have hticket : mark k.slot entry ∈ w.entries.map Waiter.ticket := by
    rw [h.entries, tickets_split hr, Nat.zero_add]
    exact List.mem_append_right _ (List.mem_append_left _ (List.mem_map_of_mem hentry))
  obtain ⟨e, he, hmark⟩ := List.mem_map.1 hticket
  refine hgone e he ((congrArg Prod.fst hmark).trans ?_)
  rw [mark, heq]

theorem Stands.remove (h : q.Stands w rolls) (k : QueueHandle) : q.Follows (.remove k) w := by
  by_cases hk : ∃ e ∈ w.entries, e.handle = k
  · obtain ⟨e, he, rfl⟩ := hk
    have hticket := List.mem_map_of_mem (f := Waiter.ticket) he
    rw [h.entries] at hticket
    obtain ⟨i, ⟨entries, issued⟩, hslot, hr, hentry⟩ := mem_tickets hticket
    change (e.handle.node, e.item) ∈ entries at hentry
    obtain ⟨a, b, rfl⟩ := List.append_of_mem hentry
    obtain ⟨d, hd, htracks⟩ := exists_counterpart h.slots.flip hr
    obtain ⟨d', hremove, htracks'⟩ := htracks.remove_mid
    obtain rfl : e.handle.slot = i := hslot.trans (Nat.zero_add i)
    obtain ⟨q', hqueue, hslots⟩ : ∃ q', q.remove e.handle = some (e.item, q') ∧
        q'.slots = q.slots.set e.handle.slot d' := by
      simp only [PriorityQueue.remove, hd, hremove, Option.bind_eq_bind, Option.bind_some]
      exact ⟨_, rfl, rfl⟩
    obtain ⟨l, e', r, hsplit, hhandle, hitem, -, hq⟩ := h.take hr htracks' hslots
    have hstep := Waitlist.Step.remove hsplit
    rw [hhandle, hitem] at hstep
    rw [Follows, call, hqueue]
    exact ⟨_, hstep, hq⟩
  · have hgone : ∀ e ∈ w.entries, e.handle ≠ k := fun e he heq => hk ⟨e, he, heq⟩
    have hqueue : q.remove k = none := by
      cases hd : q.slots[k.slot]? with
      | none => simp only [PriorityQueue.remove, hd, Option.bind_eq_bind, Option.bind_none]
      | some d =>
          obtain ⟨r, hr, htracks⟩ := exists_counterpart h.slots hd
          have hnode := Roll.lookup_eq_none_iff.2 (h.notMem_handles hr hgone)
          have hremove := (htracks.lists.forgets hnode).remove
          simp only [PriorityQueue.remove, hd, hremove, Option.bind_eq_bind, Option.bind_some,
            Option.bind_none]
    rw [Follows, call, hqueue]
    exact ⟨w, .remove_gone hgone, h.tracks⟩

/-- The slots are gone through one after the other, with one memory. -/
theorem run_retainSlots (h : List.Forall₂ Deque.Tracks slots rolls) (keep : List α → α → Bool)
    (n : Nat) (asked : List α) : ∃ rest rolls',
      (retainSlots (Deque.asking keep) slots).run asked =
        (rest, asked ++ (tickets n rolls).map (·.2)) ∧
      List.Forall₂ Deque.Tracks rest.1 rolls' ∧
      tickets n rolls' = siftBy (·.2) keep asked (tickets n rolls) ∧
      rolls'.map (·.issued) = rolls.map (·.issued) := by
  induction h generalizing n asked with
  | nil =>
    exact ⟨⟨[], rfl⟩, [], by rw [tickets, List.map_nil, List.append_nil]; rfl, .nil, rfl, rfl⟩
  | @cons d r slots rolls hd hrest ih =>
      -- what is asked about this slot is remembered when the next one is gone through
      obtain ⟨e, hfirst, he⟩ := hd.retainM keep asked
      obtain ⟨⟨rest, hlength⟩, rolls', hrun, hrest', htickets, hissued⟩ :=
        ih (n + 1) (asked ++ r.entries.map (·.2))
      have hvalues : (r.entries.map (mark n)).map (·.2) = r.entries.map (·.2) := by
        rw [List.map_map]
        rfl
      refine ⟨⟨e :: rest, by simp [hlength]⟩, ⟨Roll.sift keep asked r.entries, r.issued⟩ :: rolls',
        ?_, .cons he hrest', ?_, congrArg (List.cons _) hissued⟩
      · rw [retainSlots, StateT.run_bind, hfirst]
        change (retainSlots (Deque.asking keep) slots >>= _).run (asked ++ _) = _
        rw [StateT.run_bind, hrun, tickets, List.map_append, hvalues, List.append_assoc]
        rfl
      · rw [tickets, tickets, htickets, Waitlist.siftBy_append, hvalues, Waitlist.siftBy_map,
          Waitlist.sift_eq_siftBy]
        rfl

theorem Stands.retain (h : q.Stands w rolls) (keep : List α → α → Bool) :
    q.Follows (.retain keep) w := by
  obtain ⟨⟨rest, hlength⟩, rolls', hrun, hrest, htickets, hissued⟩ :=
    run_retainSlots h.slots keep 0 []
  have hitems : (tickets 0 rolls).map (·.2) = w.entries.map (·.item) := by
    rw [← h.entries, List.map_map]
    rfl
  rw [hitems, List.nil_append] at hrun
  have hcall : ∃ q', q.call (.retain keep) = (.asked (w.entries.map (·.item)), q') ∧
      q'.slots = rest := by
    rw [call, retainM, StateT.run_bind, hrun]
    exact ⟨_, rfl, rfl⟩
  obtain ⟨q', hcall, rfl⟩ := hcall
  rw [Follows, hcall]
  refine ⟨_, .retain w keep, rolls', hrest, ?_, ?_, ?_⟩
  · rw [← hrest.length_eq, hlength, h.slots.length_eq]
    exact h.size
  · rw [htickets, ← h.entries, Waitlist.siftBy_map]
    rfl
  · intro k
    refine (h.issued k).trans ?_
    have hget := congrArg (·[k.slot]?) hissued
    simp only [List.getElem?_map] at hget
    constructor
    · rintro ⟨r, hr, hk⟩
      rw [hr] at hget
      obtain ⟨r', hr', heq⟩ := Option.map_eq_some_iff.1 hget
      exact ⟨r', hr', heq ▸ hk⟩
    · rintro ⟨r', hr', hk⟩
      rw [hr'] at hget
      obtain ⟨r, hr, heq⟩ := Option.map_eq_some_iff.1 hget.symm
      exact ⟨r, hr, heq ▸ hk⟩

theorem findSome?_back (h : List.Forall₂ Deque.Tracks slots rolls) (n : Nat) :
    slots.reverse.findSome? (·.back?) = (tickets n rolls).getLast?.map (·.2) := by
  induction h generalizing n with
  | nil => rfl
  | @cons d r slots rolls hd hrest ih =>
      have hback : d.back? = (r.entries.map (mark n)).getLast?.map (·.2) := by
        rw [hd.lists.reads.back, List.getLast?_map, Option.map_map]
        rfl
      rw [List.reverse_cons, List.findSome?_append, ih (n + 1), tickets, List.getLast?_append,
        Option.map_or, ← hback]
      simp

theorem Stands.tail (h : q.Stands w rolls) : q.Follows .tail w := by
  have htail : q.tail? = w.entries.getLast?.map (·.item) := by
    rw [tail?, findSome?_back h.slots 0, ← h.entries, List.getLast?_map, Option.map_map]
    rfl
  rw [Follows, call, htail]
  exact ⟨w, .tail w, h.tracks⟩

theorem Tracks.call (h : q.Tracks w) (c : Call α) : q.Follows c w := by
  obtain ⟨rolls, h⟩ := h
  cases c with
  | enqueue item priority => exact h.enqueue item priority
  | dequeue => exact h.dequeue
  | remove k => exact h.remove k
  | retain keep => exact h.retain keep
  | tail => exact h.tail

theorem Tracks.serve (h : q.Tracks w) (calls : List (Call α)) :
    ∃ w', w.Run calls (q.serve calls).1 w' ∧ (q.serve calls).2.Tracks w' := by
  induction calls generalizing q w with
  | nil => exact ⟨w, .nil w, h⟩
  | cons c rest ih =>
      obtain ⟨w', hstep, hcall⟩ := h.call c
      obtain ⟨w'', hrun, htracks⟩ := ih hcall
      exact ⟨w'', .cons hstep hrun, htracks⟩

/-- What can be seen of a queue is what can be seen of the list. -/
structure Reads (q : PriorityQueue α) (w : Waitlist α) : Prop where
  slots : q.slots.length = w.slots
  toList : q.toList = w.entries.map (·.item)
  length : q.length = w.entries.length
  isEmpty : q.isEmpty = w.entries.isEmpty

theorem flatMap_toList (h : List.Forall₂ Deque.Tracks slots rolls) (n : Nat) :
    slots.flatMap (·.toList) = (tickets n rolls).map (·.2) := by
  induction h generalizing n with
  | nil => rfl
  | cons hd hrest ih =>
      rw [List.flatMap_cons, ih (n + 1), hd.lists.toList, tickets, List.map_append, List.map_map]
      rfl

theorem Tracks.reads (h : q.Tracks w) : q.Reads w := by
  obtain ⟨rolls, h⟩ := h
  have htoList : q.toList = w.entries.map (·.item) := by
    rw [toList, flatMap_toList h.slots 0, ← h.entries, List.map_map]
    rfl
  refine ⟨h.slots.length_eq.trans h.size.symm, htoList, ?_, ?_⟩
  · rw [h.wf.length_toList, htoList, List.length_map]
  · rw [Bool.eq_iff_iff, h.wf.isEmpty_iff, htoList, List.map_eq_nil_iff, List.isEmpty_iff]

theorem fst_call_remove (q : PriorityQueue α) (k : QueueHandle) :
    (q.call (.remove k)).1 = .value ((q.remove k).map (·.1)) := by
  rw [call]
  cases q.remove k <;> rfl

theorem Tracks.remove_of_mem {e : Waiter α} (h : q.Tracks w) (hw : w.Tidy) (he : e ∈ w.entries) :
    (q.remove e.handle).map (·.1) = some e.item := by
  obtain ⟨w', hstep, -⟩ := h.call (.remove e.handle)
  rw [fst_call_remove] at hstep
  obtain ⟨e', he', hhandle, hreply⟩ | ⟨hgone, -⟩ := hstep.of_remove
  · obtain rfl := hw.eq_of_handle (hw.mem_arrivals he') (hw.mem_arrivals he) hhandle
    exact Reply.value.inj hreply
  · exact absurd rfl (hgone e he)

theorem Tracks.remove_of_gone {k : QueueHandle} (h : q.Tracks w)
    (hgone : ∀ e ∈ w.entries, e.handle ≠ k) : q.remove k = none := by
  obtain ⟨w', hstep, -⟩ := h.call (.remove k)
  rw [fst_call_remove] at hstep
  obtain ⟨e, he, hhandle, -⟩ | ⟨-, hreply⟩ := hstep.of_remove
  · exact absurd hhandle (hgone e he)
  · exact Option.map_eq_none_iff.1 (Reply.value.inj hreply)

/-- Whatever a queue is asked, one call after the other, it answers as the list of its items by
slot and arrival does. Every item that came is in the list, was handed back or was refused, once;
its handle gives it back as long as it is queued, and nothing ever after. -/
theorem queue_is_sorted_list (count : Nat) (calls : List (Call α)) :
    ∃ w, Waitlist.Run (.empty (max count 1)) calls ((ofSlots count).serve calls).1 w ∧
      ((ofSlots count).serve calls).2.Reads w ∧ w.Tidy ∧
      w.returned.map (·.item) =
        (calls.zipWith handedBack ((ofSlots count).serve calls).1).flatten ∧
      ∀ e ∈ w.arrivals,
        (e ∈ w.entries →
          (((ofSlots count).serve calls).2.remove e.handle).map (·.1) = some e.item) ∧
        (e ∉ w.entries → ∀ later,
          (((ofSlots count).serve calls).2.serve later).2.remove e.handle = none) := by
  obtain ⟨w, hrun, htracks⟩ := (tracks_ofSlots count).serve calls
  have htidy := hrun.tidy (Waitlist.tidy_empty _)
  refine ⟨w, hrun, htracks.reads, htidy, hrun.returned, fun e he => ⟨?_, fun hgone later => ?_⟩⟩
  · exact htracks.remove_of_mem htidy
  · obtain ⟨w', hlater, htracks'⟩ := htracks.serve later
    refine htracks'.remove_of_gone (hlater.gone (List.mem_map_of_mem he) fun e' he' heq => ?_)
    exact hgone (htidy.eq_of_handle (htidy.mem_arrivals he') he heq ▸ he')

/-- A slot's node is used again, under another handle. -/
example : (((ofSlots 0).serve [.enqueue 'a' 7, .enqueue 'b' 0, .dequeue, .enqueue 'c' 3,
    .remove ⟨0, ⟨0, 0⟩⟩]).2.toList, ((ofSlots 2).serve [.enqueue 'a' 7, .enqueue 'b' 0]).2.toList) =
    (['b', 'c'], ['b', 'a']) := by decide

end PriorityQueue

end PooledSql
