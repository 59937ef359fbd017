/-!
# Registries

A `Registry` holds at most one value for each number. Its entries have no order that matters.
-/

namespace PooledSql

/-- Values by number. -/
structure Registry (α : Type) where
  entries : List (Nat × α) := []
  deriving Repr

namespace Registry

variable {α : Type}

def empty : Registry α := ⟨[]⟩

instance : Inhabited (Registry α) := ⟨empty⟩

/-- The numbers that have a value. -/
def keys (r : Registry α) : List Nat := r.entries.map (·.1)

def size (r : Registry α) : Nat := r.entries.length

def isEmpty (r : Registry α) : Bool := r.entries.isEmpty

def get? (r : Registry α) (key : Nat) : Option α := r.entries.lookup key

def contains (r : Registry α) (key : Nat) : Bool := (r.get? key).isSome

/-- Forget the value of a number. -/
def erase (r : Registry α) (key : Nat) : Registry α := ⟨r.entries.filter (·.1 != key)⟩

/-- Give a number a value. -/
def insert (r : Registry α) (key : Nat) (value : α) : Registry α :=
  ⟨(key, value) :: (r.erase key).entries⟩

end Registry

end PooledSql
