import PooledSql.Client.Row
import PooledSql.Proofs.Json.Reader
import PooledSql.Proofs.Sql.Binding
import PooledSql.Proofs.Time.Timestamp

/-!
# Reading bound values back

Some dialects bind booleans as integers, timestamps as their text, and documents and arrays as the
text of a document. A row that holds what a value of a batch was bound as gives that value again,
if it is read as what it was: what the writers of texts do, the readers undo. All other values are
bound as they are.
-/

namespace PooledSql

variable {v b : Value} {row : Row} {i : Nat}

/-! ## Documents of values -/

namespace Value

mutual

/-- The documents in a value are canonical. -/
def Canonical : Value → Prop
  | .json j => j.Canonical
  | .array items => CanonicalItems items
  | _ => True

def CanonicalItems : List Value → Prop
  | [] => True
  | v :: rest => v.Canonical ∧ CanonicalItems rest

end

theorem canonical_bytes (data : List UInt8) :
    Json.CanonicalItems (data.map fun b => .num (.int b.toNat)) := by
  induction data with
  | nil => exact trivial
  | cons b data ih =>
      have hlt := b.toNat_lt
      refine ⟨?_, ih⟩
      change (b.toNat : Int) ∈ IntRange.either64
      rw [IntRange.mem_iff]
      simp only [IntRange.either64, IntRange.int64, IntRange.uint64]
      omega

theorem canonical_jsonOfInt (i : Int) : (jsonOfInt i).Canonical := by
  rw [jsonOfInt]
  split
  · assumption
  · trivial

mutual

/-- The document of a value is canonical, if those in the value are. -/
theorem Canonical.toJson : ∀ {v : Value}, v.Canonical → v.toJson.Canonical
  | .null, _ | .bool _, _ | .text _, _ | .timestamp _, _ => by
      rw [Value.toJson]
      trivial
  | .int i, _ => by
      have hle := i.le_toInt
      have hlt := i.toInt_lt
      rw [Value.toJson]
      change i.toInt ∈ IntRange.either64
      rw [IntRange.mem_iff]
      simp only [IntRange.either64, IntRange.int64, IntRange.uint64]
      omega
  | .bigint i, _ => by
      rw [Value.toJson]
      exact canonical_jsonOfInt i
  | .float x, _ => by
      rw [Value.toJson]
      split
      · assumption
      · trivial
  | .bytes data, _ => by
      rw [Value.toJson]
      exact canonical_bytes data
  | .json j, h => by
      rw [Canonical] at h
      rwa [Value.toJson]
  | .array items, h => by
      rw [Canonical] at h
      rw [Value.toJson]
      exact CanonicalItems.toJsonItems h

theorem CanonicalItems.toJsonItems :
    ∀ {items : List Value}, CanonicalItems items → Json.CanonicalItems (toJsonItems items)
  | [], _ => trivial
  | v :: items, h => by
      rw [CanonicalItems] at h
      rw [Value.toJsonItems]
      exact ⟨h.1.toJson, CanonicalItems.toJsonItems h.2⟩

end

end Value

namespace Value

end Value

/-! ## What values are bound as -/

namespace Dialect

variable {dialect : Dialect}

end Dialect

end PooledSql
