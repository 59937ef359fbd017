import PooledSql.Collections.Deque

/-!
# Cursors

A `Cursor` goes through a deque from front to back. It holds handles only, so the deque may be
changed at any time between two of its steps. It has come to its end behind the last node, or
when the node that it was about to visit has gone; it answers nothing more until it is reset.
-/

namespace PooledSql

/-- A position in a deque. -/
structure Cursor where
  /-- The node that is visited next. -/
  upcoming : Option Handle := none
  /-- The node visited last, unless the cursor has taken it out. -/
  last : Option Handle := none
  deriving DecidableEq, Repr, Inhabited

namespace Cursor

variable {α : Type}

/-- A cursor before the front of a deque. -/
def atFront (d : Deque α) : Cursor := ⟨d.headHandle?, none⟩

/-- Visit the next node. -/
def next (c : Cursor) (d : Deque α) : Option Handle × Cursor :=
  match c.upcoming with
  | none => (none, c)
  | some h =>
    match d.nodeOf? h with
    | none => (none, { c with upcoming := none })
    | some node => (some h, ⟨node.next.map d.handleAt, some h⟩)

/-- Take the node visited last out of the deque, if it is still there. -/
def remove (c : Cursor) (d : Deque α) : Option (α × Deque α) × Cursor :=
  (c.last.bind d.remove, { c with last := none })

/-- Go back before the front. -/
def reset (_ : Cursor) (d : Deque α) : Cursor := atFront d

end Cursor

end PooledSql
