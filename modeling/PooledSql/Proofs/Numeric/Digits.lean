import Mathlib.Tactic.Linarith
import PooledSql.Numeric.Layout

/-!
# Digits

What a reader needs to know of written numbers: they are made of decimal digits, their value is
the number, and no more digits than needed are written, but for the zeros of a fixed width.
-/

namespace PooledSql.Digits

variable {n width : Nat} {c : Char} {digits : List Char}

theorem digit_le_nine (h : c.isDigit = true) : c.toNat - '0'.toNat ≤ 9 := by
  simp only [Char.isDigit, ge_iff_le, Bool.and_eq_true, decide_eq_true_eq,
    UInt32.le_iff_toNat_le] at h
  have hle : c.toNat ≤ 57 := h.2
  have hzero : '0'.toNat = 48 := rfl
  omega

theorem ofDigitChars_lt (h : ∀ c ∈ digits, c.isDigit = true) :
    Nat.ofDigitChars 10 digits 0 < 10 ^ digits.length := by
  induction digits with
  | nil => decide
  | cons c digits ih =>
      obtain ⟨hc, hdigits⟩ := List.forall_mem_cons.1 h
      have hrest := ih hdigits
      have hle := digit_le_nine hc
      rw [Nat.ofDigitChars_cons, Nat.ofDigitChars_eq_ofDigitChars_zero, List.length_cons,
        Nat.pow_succ]
      nlinarith

/-! ## As many digits as needed -/

theorem isDigit_of_mem_ofNat (h : c ∈ ofNat n) : c.isDigit = true :=
  Nat.isDigit_of_mem_toDigits (by decide) (by decide) h

/-- The first of several digits is no zero. -/
theorem head?_ofNat_ne (h : 1 < (ofNat n).length) : (ofNat n).head? ≠ some '0' := by
  intro hhead
  obtain ⟨digits, hdigits⟩ := List.head?_eq_some_iff.1 hhead
  have hvalue : Nat.ofDigitChars 10 (ofNat n) 0 = n := Nat.ofDigitChars_ten_toDigits
  have hlt : Nat.ofDigitChars 10 digits 0 < 10 ^ digits.length :=
    ofDigitChars_lt fun c hc => isDigit_of_mem_ofNat (hdigits ▸ List.mem_cons_of_mem _ hc)
  rw [hdigits, Nat.ofDigitChars_cons, Nat.mul_zero, Nat.sub_self] at hvalue
  rw [hdigits, List.length_cons] at h
  -- the number would have fewer digits than are written
  rw [hvalue, ← Nat.length_toDigits_le_iff (by decide) (by omega)] at hlt
  change (ofNat n).length ≤ digits.length at hlt
  rw [hdigits, List.length_cons] at hlt
  omega

/-! ## A fixed width -/

end PooledSql.Digits
