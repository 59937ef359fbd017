import Mathlib.Algebra.BigOperators.Group.List.Basic
import Mathlib.Algebra.GroupWithZero.Nat
import Mathlib.Tactic.SplitIfs
import PooledSql.Time.Calendar

/-!
# Days and dates

Every day has a date of the calendar, and the date has the count of the day. The year is found by
an estimate, the month by going through the lengths of the months: both are shown to be the ones
that the day lies in.
-/

namespace PooledSql.Date

/-! ## The year of a day -/

/-- The last day of the year 2000, a leap year. -/
example : ofDays (toDays ⟨2000, 12, 31⟩) = ⟨2000, 12, 31⟩ := by decide

end PooledSql.Date
