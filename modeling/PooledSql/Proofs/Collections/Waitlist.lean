import PooledSql.Collections.PriorityQueue
import PooledSql.Proofs.Collections.Roll

/-!
# The list behind a priority queue

A priority queue stands for one list of items, by the slot of their priority and then by their
arrival. `Waitlist.Step` says what a call does to that list, and `Waitlist.Tidy` what every step
keeps: the list is sorted, and every item that ever came is in it, was handed back or was refused,
once.
-/

namespace PooledSql

variable {α β : Type}

namespace PriorityQueue

/-! ## Calls -/

/-- What a priority queue is asked to do. -/
inductive Call (α : Type) where
  | enqueue (item : α) (priority : Nat)
  | dequeue
  | remove (k : QueueHandle)
  /-- The test may depend on the items that it was asked about before. -/
  | retain (keep : List α → α → Bool)
  | tail

/-- What a priority queue answers. -/
inductive Reply (α : Type) where
  | handle (k : QueueHandle)
  | value (item : Option α)
  /-- The items that a test was asked about, in order. -/
  | asked (items : List α)

/-- The answer to a call for an item, and the queue after it. -/
def replied (q : PriorityQueue α) : Option (α × PriorityQueue α) → Reply α × PriorityQueue α
  | some (item, q') => (.value (some item), q')
  | none => (.value none, q)

/-- The answer to a call, and the queue after it. -/
def call (q : PriorityQueue α) : Call α → Reply α × PriorityQueue α
  | .enqueue item priority => (q.enqueue item priority).map .handle id
  | .dequeue => q.replied q.dequeue
  | .remove k => q.replied (q.remove k)
  | .retain keep => ((q.retainM (Deque.asking keep)).run []).swap.map .asked id
  | .tail => (.value q.tail?, q)

/-- The answers to calls in turn, and the queue after them. -/
def serve (q : PriorityQueue α) : List (Call α) → List (Reply α) × PriorityQueue α
  | [] => ([], q)
  | c :: rest =>
    let (reply, q') := q.call c
    let (replies, q'') := q'.serve rest
    (reply :: replies, q'')

/-- The item that an answer hands back. -/
def handedBack : Call α → Reply α → List α
  | .dequeue, .value item | .remove _, .value item => item.toList
  | _, _ => []

end PriorityQueue

/-! ## Sorted lists of items -/

/-- A queued item, with its handle and how many came before it. -/
structure Waiter (α : Type) where
  handle : QueueHandle
  arrival : Nat
  item : α

namespace Waiter

/-- The more urgent slot is before, and in a slot the item that came first. -/
def Before (e f : Waiter α) : Prop :=
  e.handle.slot < f.handle.slot ∨ e.handle.slot = f.handle.slot ∧ e.arrival < f.arrival

/-- What the queue itself knows of an item. -/
def ticket (e : Waiter α) : QueueHandle × α := (e.handle, e.item)

end Waiter

/-- The queued items in the order in which they leave, all that ever came, those that were handed
back and those that a test refused. -/
structure Waitlist (α : Type) where
  slots : Nat
  entries : List (Waiter α)
  arrivals : List (Waiter α)
  returned : List (Waiter α)
  refused : List (Waiter α)

/-- Those of a list whose items pass a test, which was asked about some items before. -/
def siftBy (item : β → α) (keep : List α → α → Bool) : List α → List β → List β
  | _, [] => []
  | asked, b :: rest =>
    if keep asked (item b) then b :: siftBy item keep (asked ++ [item b]) rest
    else siftBy item keep (asked ++ [item b]) rest

namespace Waitlist

open PriorityQueue

variable {w w' w'' : Waitlist α} {c : Call α} {reply : Reply α} {calls : List (Call α)}
variable {replies : List (Reply α)} {k : QueueHandle} {e : Waiter α} {l r : List (Waiter α)}

def empty (slots : Nat) : Waitlist α := ⟨slots, [], [], [], []⟩

/-- An item comes between others. -/
def add (w : Waitlist α) (l : List (Waiter α)) (e : Waiter α) (r : List (Waiter α)) :
    Waitlist α :=
  { w with entries := l ++ e :: r, arrivals := w.arrivals ++ [e] }

/-- An item is handed back. -/
def take (w : Waitlist α) (l : List (Waiter α)) (e : Waiter α) (r : List (Waiter α)) :
    Waitlist α :=
  { w with entries := l ++ r, returned := w.returned ++ [e] }

/-- A test goes through the items. -/
def sift (w : Waitlist α) (keep : List α → α → Bool) : Waitlist α :=
  { w with
    entries := siftBy (·.item) keep [] w.entries
    refused := w.refused ++ siftBy (·.item) (fun asked v => !keep asked v) [] w.entries }

/-- What a call does to the list, and what the answer is. -/
inductive Step : Waitlist α → Call α → Reply α → Waitlist α → Prop where
  /-- The item comes behind those that are as urgent or more, under a handle of its own. -/
  | enqueue {w : Waitlist α} {k : QueueHandle} {l r : List (Waiter α)} (item : α) (priority : Nat)
      (hslot : k.slot = min priority (w.slots - 1)) (hnew : k ∉ w.arrivals.map (·.handle))
      (hentries : w.entries = l ++ r) (hl : ∀ e ∈ l, e.handle.slot ≤ k.slot)
      (hr : ∀ e ∈ r, k.slot < e.handle.slot) :
      Step w (.enqueue item priority) (.handle k) (w.add l ⟨k, w.arrivals.length, item⟩ r)
  | dequeue {w : Waitlist α} {e : Waiter α} {r : List (Waiter α)} (h : w.entries = e :: r) :
      Step w .dequeue (.value (some e.item)) (w.take [] e r)
  | dequeue_nil {w : Waitlist α} (h : w.entries = []) : Step w .dequeue (.value none) w
  | remove {w : Waitlist α} {l r : List (Waiter α)} {e : Waiter α} (h : w.entries = l ++ e :: r) :
      Step w (.remove e.handle) (.value (some e.item)) (w.take l e r)
  | remove_gone {w : Waitlist α} {k : QueueHandle} (h : ∀ e ∈ w.entries, e.handle ≠ k) :
      Step w (.remove k) (.value none) w
  /-- The test is asked once for each item, in the order of the list. -/
  | retain (w : Waitlist α) (keep : List α → α → Bool) :
      Step w (.retain keep) (.asked (w.entries.map (·.item))) (w.sift keep)
  | tail (w : Waitlist α) : Step w .tail (.value (w.entries.getLast?.map (·.item))) w

/-- What calls in turn do to the list, and what the answers are. -/
inductive Run : Waitlist α → List (Call α) → List (Reply α) → Waitlist α → Prop where
  | nil (w : Waitlist α) : Run w [] [] w
  | cons {w w' w'' : Waitlist α} {c : Call α} {reply : Reply α} {calls : List (Call α)}
      {replies : List (Reply α)} (h : w.Step c reply w') (hrest : Run w' calls replies w'') :
      Run w (c :: calls) (reply :: replies) w''

/-- The list is sorted, and accounts for every item that ever came. -/
structure Tidy (w : Waitlist α) : Prop where
  sorted : w.entries.Pairwise Waiter.Before
  kept : w.arrivals.Perm (w.entries ++ (w.returned ++ w.refused))
  handles : (w.arrivals.map (·.handle)).Nodup
  numbered : w.arrivals.map (·.arrival) = List.range w.arrivals.length

theorem siftBy_sublist (item : β → α) (keep : List α → α → Bool) (asked : List α) (l : List β) :
    (siftBy item keep asked l).Sublist l := by
  induction l generalizing asked with
  | nil => exact .slnil
  | cons b rest ih =>
      rw [siftBy]
      split
      · exact (ih _).cons_cons b
      · exact (ih _).cons b

/-- What passes a test and what does not. -/
theorem perm_siftBy (item : β → α) (keep : List α → α → Bool) (asked : List α) (l : List β) :
    (siftBy item keep asked l ++ siftBy item (fun asked v => !keep asked v) asked l).Perm l := by
  induction l generalizing asked with
  | nil => exact .refl _
  | cons b rest ih =>
      rw [siftBy, siftBy]
      by_cases hkeep : keep asked (item b) = true
      · rw [if_pos hkeep, if_neg (by simp [hkeep])]
        exact (ih _).cons b
      · rw [if_neg hkeep, if_pos (by simp [hkeep])]
        exact List.perm_middle.trans ((ih _).cons b)

theorem siftBy_map {γ : Type} (item : γ → α) (f : β → γ) (keep : List α → α → Bool)
    (asked : List α) (l : List β) :
    siftBy item keep asked (l.map f) = (siftBy (fun b => item (f b)) keep asked l).map f := by
  induction l generalizing asked with
  | nil => rfl
  | cons b rest ih =>
      rw [List.map_cons, siftBy, siftBy, ih]
      split <;> rfl

theorem siftBy_append (item : β → α) (keep : List α → α → Bool) (asked : List α) (l l' : List β) :
    siftBy item keep asked (l ++ l') =
      siftBy item keep asked l ++ siftBy item keep (asked ++ l.map item) l' := by
  induction l generalizing asked with
  | nil => rw [List.map_nil, List.append_nil]; rfl
  | cons b rest ih =>
      rw [List.cons_append, siftBy, siftBy, ih, List.append_assoc]
      split <;> rfl

theorem sift_eq_siftBy (keep : List α → α → Bool) (asked : List α) (es : List (Handle × α)) :
    Roll.sift keep asked es = siftBy (·.2) keep asked es := by
  induction es generalizing asked with
  | nil => rfl
  | cons entry rest ih => rw [Roll.sift, siftBy, ih]

theorem tidy_empty (slots : Nat) : (empty slots : Waitlist α).Tidy :=
  ⟨.nil, .refl _, .nil, rfl⟩

/-- The queued items are among those that came. -/
theorem Tidy.mem_arrivals (h : w.Tidy) (he : e ∈ w.entries) : e ∈ w.arrivals :=
  h.kept.mem_iff.2 (List.mem_append_left _ he)

theorem Tidy.arrival_lt (h : w.Tidy) (he : e ∈ w.entries) : e.arrival < w.arrivals.length := by
  have hmem := List.mem_map_of_mem (f := Waiter.arrival) (h.mem_arrivals he)
  rw [h.numbered] at hmem
  exact List.mem_range.1 hmem

/-- A handle tells its item. -/
theorem Tidy.eq_of_handle {e' : Waiter α} (h : w.Tidy) (he : e ∈ w.arrivals)
    (he' : e' ∈ w.arrivals) (heq : e.handle = e'.handle) : e = e' :=
  List.inj_on_of_nodup_map h.handles he he' heq

theorem Tidy.take (h : w.Tidy) (hentries : w.entries = l ++ e :: r) : (w.take l e r).Tidy where
  sorted := h.sorted.sublist (hentries ▸ (List.sublist_cons_self e r).append_left l)
  kept := by
    have hout : (l ++ e :: (r ++ (w.returned ++ w.refused))).Perm
        (e :: (l ++ (r ++ (w.returned ++ w.refused)))) := List.perm_middle
    have hback : (l ++ (r ++ w.returned) ++ e :: w.refused).Perm
        (e :: (l ++ (r ++ w.returned) ++ w.refused)) := List.perm_middle
    have hkept := h.kept
    rw [hentries] at hkept
    simp only [Waitlist.take, List.append_assoc, List.cons_append, List.nil_append]
      at hkept hback ⊢
    exact hkept.trans (hout.trans hback.symm)
  handles := h.handles
  numbered := h.numbered

/-- One call, whatever it is. -/
theorem Step.tidy (h : w.Step c reply w') (hw : w.Tidy) : w'.Tidy := by
  cases h with
  | @enqueue k l r item priority hslot hnew hentries hl hr =>
      refine ⟨?_, ?_, ?_, ?_⟩
      · have hsorted := hw.sorted
        rw [hentries, List.pairwise_append] at hsorted
        refine List.pairwise_append.2 ⟨hsorted.1, List.pairwise_cons.2 ⟨fun e he => .inl (hr e he),
          hsorted.2.1⟩, fun e he f hf => ?_⟩
        rcases List.mem_cons.1 hf with rfl | hf
        · have hbefore := hw.arrival_lt (e := e) (by simp [hentries, he])
          exact (hl e he).lt_or_eq.imp_right fun heq => ⟨heq, hbefore⟩
        · exact hsorted.2.2 e he f hf
      · have hkept := hw.kept
        rw [hentries] at hkept
        refine (List.perm_append_singleton _ _).trans ((hkept.cons _).trans ?_)
        simp only [add, List.append_assoc, List.cons_append]
        exact List.perm_middle.symm
      · rw [add, List.map_append, List.nodup_append']
        exact ⟨hw.handles, List.nodup_singleton _, by simpa using hnew⟩
      · simp [add, hw.numbered, List.range_succ]
  | dequeue hentries => exact hw.take (l := []) hentries
  | dequeue_nil => exact hw
  | remove hentries => exact hw.take hentries
  | remove_gone => exact hw
  | retain keep =>
      refine ⟨hw.sorted.sublist (siftBy_sublist _ _ _ _), hw.kept.trans ?_, hw.handles,
        hw.numbered⟩
      simp only [sift]
      have hperm := (perm_siftBy (·.item) keep [] w.entries).symm.append_right
        (w.returned ++ w.refused)
      rw [List.append_assoc] at hperm
      rw [← List.append_assoc w.returned]
      exact hperm.trans (List.perm_append_comm.append_left _)
  | tail => exact hw

/-- Whatever calls come, in turn. -/
theorem Run.tidy (h : w.Run calls replies w') (hw : w.Tidy) : w'.Tidy := by
  induction h with
  | nil => exact hw
  | cons hstep hrest ih => exact ih (hstep.tidy hw)

theorem Step.returned (h : w.Step c reply w') :
    w'.returned.map (·.item) = w.returned.map (·.item) ++ handedBack c reply := by
  cases h <;> simp [add, Waitlist.take, sift, handedBack]

/-- The items that were handed back are those of the answers. -/
theorem Run.returned (h : w.Run calls replies w') :
    w'.returned.map (·.item) =
      w.returned.map (·.item) ++ (calls.zipWith handedBack replies).flatten := by
  induction h with
  | nil => simp
  | cons hstep hrest ih => rw [ih, hstep.returned, List.zipWith_cons_cons, List.flatten_cons,
      List.append_assoc]

theorem Step.arrivals_subset (h : w.Step c reply w') : w.arrivals ⊆ w'.arrivals := by
  cases h with
  | enqueue => exact List.subset_append_left _ _
  | _ => exact List.Subset.refl _

/-- No call brings back an item that has left. -/
theorem Step.gone (h : w.Step c reply w') (hk : k ∈ w.arrivals.map (·.handle))
    (hgone : ∀ e ∈ w.entries, e.handle ≠ k) : ∀ e ∈ w'.entries, e.handle ≠ k := by
  cases h with
  | enqueue item priority hslot hnew hentries =>
      intro e he
      obtain he | rfl | he : e ∈ _ ∨ e = _ ∨ e ∈ _ := by simpa [add] using he
      · exact hgone e (by simp [hentries, he])
      · rintro rfl
        exact hnew hk
      · exact hgone e (by simp [hentries, he])
  | dequeue hentries => exact fun e he => hgone e (by rw [hentries]; exact .tail _ he)
  | remove hentries =>
      intro e he
      refine hgone e ?_
      rw [hentries]
      exact ((List.sublist_cons_self _ _).append_left _).subset he
  | retain keep => exact fun e he => hgone e ((siftBy_sublist _ _ _ _).subset he)
  | dequeue_nil => exact hgone
  | remove_gone => exact hgone
  | tail => exact hgone

theorem Step.of_remove (h : w.Step (.remove k) reply w') :
    (∃ e ∈ w.entries, e.handle = k ∧ reply = .value (some e.item)) ∨
      (∀ e ∈ w.entries, e.handle ≠ k) ∧ reply = .value none := by
  cases h with
  | remove hentries => exact .inl ⟨_, by simp [hentries], rfl, rfl⟩
  | remove_gone hgone => exact .inr ⟨hgone, rfl⟩

theorem Run.gone (h : w.Run calls replies w') (hk : k ∈ w.arrivals.map (·.handle))
    (hgone : ∀ e ∈ w.entries, e.handle ≠ k) : ∀ e ∈ w'.entries, e.handle ≠ k := by
  induction h with
  | nil => exact hgone
  | cons hstep hrest ih =>
      exact ih (List.map_subset _ hstep.arrivals_subset hk) (hstep.gone hk hgone)

end Waitlist

end PooledSql
