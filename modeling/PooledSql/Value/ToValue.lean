import PooledSql.Value.Basic

/-!
# Types with values

`ToValue` says which types have a value for each of their members, so that they can be bound as
parameters. An absent member of an optional type is null, and a list is an array.
-/

namespace PooledSql

/-- Types whose members have a value. -/
class ToValue (α : Type) where
  toValue : α → Value

export ToValue (toValue)

instance : ToValue Value := ⟨id⟩
instance : ToValue Bool := ⟨.bool⟩
instance : ToValue Int8 := ⟨fun i => .int i.toInt64⟩
instance : ToValue Int16 := ⟨fun i => .int i.toInt64⟩
instance : ToValue Int32 := ⟨fun i => .int i.toInt64⟩
instance : ToValue Int64 := ⟨.int⟩
instance : ToValue UInt8 := ⟨fun n => .int (Int64.ofNat n.toNat)⟩
instance : ToValue UInt16 := ⟨fun n => .int (Int64.ofNat n.toNat)⟩
instance : ToValue UInt32 := ⟨fun n => .int (Int64.ofNat n.toNat)⟩
instance : ToValue UInt64 := ⟨fun n => .bigint n.toNat⟩
instance : ToValue Int := ⟨.bigint⟩
instance : ToValue Binary64 := ⟨.float⟩
instance : ToValue String := ⟨.text⟩
instance : ToValue Timestamp := ⟨.timestamp⟩
instance : ToValue Json := ⟨Value.ofJson⟩

instance {α : Type} [ToValue α] : ToValue (Option α) :=
  ⟨fun | some a => toValue a | none => .null⟩

instance {α : Type} [ToValue α] : ToValue (List α) := ⟨fun items => .array (items.map toValue)⟩

end PooledSql
