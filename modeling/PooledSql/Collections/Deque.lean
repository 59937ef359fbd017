/-!
# A deque with stable handles

The nodes of a `Deque` live in the slots of an arena and are linked to both sides. A `Handle`
names a slot and the generation it had when the node was put there. Taking a node out raises the
slot's generation, so a handle to a node that is gone never means the node that later takes its
place. Free slots are used again, the one freed last first.

Every operation at an end or through a handle touches a bounded number of slots.
-/

namespace PooledSql

/-- A lasting reference to a node: its slot and the slot's generation at that time. -/
structure Handle where
  index : Nat
  generation : Nat
  deriving DecidableEq, Repr

/-- A value and its neighbours' slots. -/
structure Node (α : Type) where
  value : α
  prev : Option Nat
  next : Option Nat

/-- A place of the arena, free when it has no node. -/
structure Slot (α : Type) where
  generation : Nat
  node : Option (Node α)

/-- A double-ended queue with removal by handle. -/
structure Deque (α : Type) where
  slots : Array (Slot α)
  free : List Nat
  head : Option Nat
  tail : Option Nat
  length : Nat

namespace Deque

variable {α : Type}

def empty : Deque α := ⟨#[], [], none, none, 0⟩

instance : Inhabited (Deque α) := ⟨empty⟩

def isEmpty (d : Deque α) : Bool := d.length == 0

/-- The node in a slot. -/
def node? (d : Deque α) (index : Nat) : Option (Node α) := d.slots[index]?.bind (·.node)

/-- The handle of the node now in a slot. -/
def handleAt (d : Deque α) (index : Nat) : Handle :=
  ⟨index, (d.slots[index]?.map (·.generation)).getD 0⟩

/-- The node that a handle means, if it is still there. -/
def nodeOf? (d : Deque α) (h : Handle) : Option (Node α) :=
  d.slots[h.index]?.bind fun slot => if slot.generation = h.generation then slot.node else none

/-! ## Looking -/

def contains (d : Deque α) (h : Handle) : Bool := (d.nodeOf? h).isSome

def get? (d : Deque α) (h : Handle) : Option α := (d.nodeOf? h).map (·.value)

def headHandle? (d : Deque α) : Option Handle := d.head.map d.handleAt

def tailHandle? (d : Deque α) : Option Handle := d.tail.map d.handleAt

def front? (d : Deque α) : Option α := (d.head.bind d.node?).map (·.value)

def back? (d : Deque α) : Option α := (d.tail.bind d.node?).map (·.value)

/-- The handles and values met on the way forward from a slot, at most `fuel` of them. -/
def walk (d : Deque α) : Nat → Option Nat → List (Handle × α)
  | 0, _ => []
  | _ + 1, none => []
  | fuel + 1, some index =>
    match d.node? index with
    | none => []
    | some node => (d.handleAt index, node.value) :: d.walk fuel node.next

/-- The handles and values from front to back. -/
def entries (d : Deque α) : List (Handle × α) := d.walk d.length d.head

/-- The values from front to back. -/
def toList (d : Deque α) : List α := d.entries.map (·.2)

/-! ## Changing -/

/-- Change the node in a slot. -/
def modifyNode (d : Deque α) (index : Nat) (f : Node α → Node α) : Deque α :=
  { d with slots := d.slots.modify index fun slot => { slot with node := slot.node.map f } }

/-- Put a node into the slot freed last, or into a new one. -/
def allocate (d : Deque α) (node : Node α) : Nat × Deque α :=
  match d.free with
  | index :: free =>
    (index, { d with
      slots := d.slots.modify index fun slot => { slot with node := some node }
      free
      length := d.length + 1 })
  | [] => (d.slots.size, { d with slots := d.slots.push ⟨0, some node⟩, length := d.length + 1 })

/-- Make the slot `next` follow the slot `prev`; without a slot it is the head that follows. -/
def linkNext (d : Deque α) (prev next : Option Nat) : Deque α :=
  match prev with
  | some index => d.modifyNode index fun node => { node with next }
  | none => { d with head := next }

/-- Make the slot `prev` come before the slot `next`; without a slot it is the tail that does. -/
def linkPrev (d : Deque α) (next prev : Option Nat) : Deque α :=
  match next with
  | some index => d.modifyNode index fun node => { node with prev }
  | none => { d with tail := prev }

/-- Add a value at the back. -/
def push (d : Deque α) (value : α) : Handle × Deque α :=
  let (index, e) := d.allocate ⟨value, d.tail, none⟩
  let e := { e.linkNext d.tail (some index) with tail := some index }
  (e.handleAt index, e)

/-- Add a value at the front. -/
def unshift (d : Deque α) (value : α) : Handle × Deque α :=
  let (index, e) := d.allocate ⟨value, none, d.head⟩
  let e := { e.linkPrev d.head (some index) with head := some index }
  (e.handleAt index, e)

/-- Take the node out of a slot and join its neighbours. -/
def unlink (d : Deque α) (index : Nat) : Option (α × Deque α) :=
  (d.node? index).map fun node =>
    let e := { d with
      slots := d.slots.modify index fun slot => ⟨slot.generation + 1, none⟩
      free := index :: d.free
      length := d.length - 1 }
    (node.value, (e.linkNext node.prev node.next).linkPrev node.next node.prev)

/-- Take the value at the front. -/
def shift (d : Deque α) : Option (α × Deque α) := d.head.bind d.unlink

/-- Take the value at the back. -/
def pop (d : Deque α) : Option (α × Deque α) := d.tail.bind d.unlink

/-- Take out the node that a handle means, if it is still there. -/
def remove (d : Deque α) (h : Handle) : Option (α × Deque α) :=
  if d.contains h then d.unlink h.index else none

/-- Replace the value of the node that a handle means; also the value that was there. -/
def replace (d : Deque α) (h : Handle) (value : α) : Option (α × Deque α) :=
  (d.nodeOf? h).map fun node =>
    (node.value, d.modifyNode h.index fun node => { node with value })

/-- Visit the nodes forward from a slot, at most `fuel` of them, and take out those that the
test refuses. -/
def retainFrom {m : Type → Type} [Monad m] (keep : α → m Bool) :
    Nat → Option Nat → Deque α → m (Deque α)
  | 0, _, d => pure d
  | _ + 1, none, d => pure d
  | fuel + 1, some index, d =>
    match d.node? index with
    | none => pure d
    | some node => do
      if ← keep node.value then retainFrom keep fuel node.next d
      else
        let rest := match d.unlink index with
          | some (_, e) => e
          | none => d
        retainFrom keep fuel node.next rest

/-- Keep the values that pass a test, which may have effects; it is asked once for each value,
from front to back. -/
def retainM {m : Type → Type} [Monad m] (keep : α → m Bool) (d : Deque α) : m (Deque α) :=
  retainFrom keep d.length d.head d

/-- Keep the values that pass a test. -/
def retain (keep : α → Bool) (d : Deque α) : Deque α :=
  Id.run (d.retainM fun value => pure (keep value))

end Deque

end PooledSql
