import PooledSql.Collections.Deque

/-!
# Priority queues

A `PriorityQueue` has a fixed number of slots, each a queue of its own. Slot zero is the most
urgent; a priority beyond the last slot counts as the last. Items leave by the urgency of their
slot and, within a slot, in the order in which they came.
-/

namespace PooledSql

/-- A lasting reference to a queued item. -/
structure QueueHandle where
  /-- The slot that the item is in. -/
  slot : Nat
  node : Handle
  deriving DecidableEq, Repr

/-- Queues by urgency; there is at least one. -/
structure PriorityQueue (α : Type) where
  slots : List (Deque α)
  slots_ne_nil : slots ≠ []

namespace PriorityQueue

variable {α : Type}

/-- A queue with the given number of slots, or one slot for none. -/
def ofSlots (count : Nat) : PriorityQueue α :=
  ⟨.empty :: List.replicate (count - 1) .empty, by simp⟩

/-- The number of queued items. -/
def length (q : PriorityQueue α) : Nat := q.slots.foldr (fun d rest => d.length + rest) 0

def isEmpty (q : PriorityQueue α) : Bool := q.slots.all (·.isEmpty)

/-- The items in the order in which they leave. -/
def toList (q : PriorityQueue α) : List α := q.slots.flatMap (·.toList)

/-- Add an item to the slot of a priority. -/
def enqueue (q : PriorityQueue α) (item : α) (priority : Nat) : QueueHandle × PriorityQueue α :=
  let slot := min priority (q.slots.length - 1)
  let (node, d) := (q.slots[slot]?.getD .empty).push item
  (⟨slot, node⟩, ⟨q.slots.set slot d, by simp [q.slots_ne_nil]⟩)

/-- Take the front of the first queue that has one. -/
def shiftFirst : List (Deque α) → Option (α × List (Deque α))
  | [] => none
  | d :: rest =>
    match d.shift with
    | some (item, d) => some (item, d :: rest)
    | none => (shiftFirst rest).map fun (item, rest) => (item, d :: rest)

/-- Taking an item leaves a slot for every slot. -/
theorem length_of_shiftFirst {slots rest : List (Deque α)} {item : α}
    (h : shiftFirst slots = some (item, rest)) : rest.length = slots.length := by
  induction slots generalizing rest with
  | nil => simp [shiftFirst] at h
  | cons d slots ih =>
    rw [shiftFirst] at h
    split at h
    · cases h; simp
    · obtain ⟨⟨_, tail⟩, hfound, heq⟩ := Option.map_eq_some_iff.1 h
      cases heq
      simp [ih hfound]

/-- Take the item whose turn it is. -/
def dequeue (q : PriorityQueue α) : Option (α × PriorityQueue α) :=
  match h : shiftFirst q.slots with
  | some (item, slots) => some (item, ⟨slots, by
      have := length_of_shiftFirst h
      have := List.length_pos_iff.2 q.slots_ne_nil
      exact List.length_pos_iff.1 (by omega)⟩)
  | none => none

/-- Take out the item that a handle means, if it is still queued. -/
def remove (q : PriorityQueue α) (h : QueueHandle) : Option (α × PriorityQueue α) := do
  let (item, d) ← (← q.slots[h.slot]?).remove h.node
  return (item, ⟨q.slots.set h.slot d, by simp [q.slots_ne_nil]⟩)

/-- The item whose turn comes last. -/
def tail? (q : PriorityQueue α) : Option α := q.slots.reverse.findSome? (·.back?)

/-- The items, slot by slot, that pass a test with effects. -/
def retainSlots {m : Type → Type} [Monad m] (keep : α → m Bool) :
    (slots : List (Deque α)) → m { rest : List (Deque α) // rest.length = slots.length }
  | [] => pure ⟨[], rfl⟩
  | d :: rest => do
    let d ← d.retainM keep
    let ⟨kept, h⟩ ← retainSlots keep rest
    pure ⟨d :: kept, by simp [h]⟩

/-- Keep the items that pass a test, which may have effects; it is asked once for each item, in
the order in which they leave. -/
def retainM {m : Type → Type} [Monad m] (keep : α → m Bool) (q : PriorityQueue α) :
    m (PriorityQueue α) := do
  let ⟨slots, h⟩ ← retainSlots keep q.slots
  pure ⟨slots, by
    have := List.length_pos_iff.2 q.slots_ne_nil
    exact List.length_pos_iff.1 (by omega)⟩

/-- Keep the items that pass a test. -/
def retain (keep : α → Bool) (q : PriorityQueue α) : PriorityQueue α :=
  Id.run (q.retainM fun item => pure (keep item))

end PriorityQueue

end PooledSql
