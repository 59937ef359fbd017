import PooledSql.Json.Grammar
import PooledSql.Json.Printer
import PooledSql.Proofs.Numeric.Digits

/-!
# Scanning written text

The scanners of the grammar find what the writers of numbers and strings wrote, and stop right
behind it. A number is found whole only if what follows it cannot be a part of a number.
-/

namespace PooledSql.Json

variable {c : Char} {digits rest : List Char} {fuel : Nat}

namespace Draft

/-! ## Blanks -/

theorem skip_of_not_blank (h : isBlank c = false) (rest : List Char) :
    skip (c :: rest) = c :: rest := by
  rw [skip, h]
  rfl

/-! ## Numbers -/

/-- The value of a decimal digit. -/
def digitValue (c : Char) : Nat := c.toNat - '0'.toNat

theorem digit?_eq (c : Char) : digit? c = if c.isDigit then some (digitValue c) else none := by
  simp [digit?, digitValue, Char.isDigit, Char.le_def]

/-- A number that stands in front of the text is no longer than that. -/
def EndsNumber (rest : List Char) : Prop :=
  ∀ c ∈ rest.head?, c.isDigit = false ∧ c ≠ '.' ∧ c ≠ 'e' ∧ c ≠ 'E'

theorem endsNumber_nil : EndsNumber [] := by simp [EndsNumber]

theorem endsNumber_cons (h : c.isDigit = false ∧ c ≠ '.' ∧ c ≠ 'e' ∧ c ≠ 'E')
    (rest : List Char) : EndsNumber (c :: rest) := by
  rintro _ ⟨⟩
  exact h

theorem scanDigits_append (h : ∀ c ∈ digits, c.isDigit = true) (hrest : EndsNumber rest) :
    scanDigits (digits ++ rest) = (digits.map digitValue, rest) := by
  induction digits with
  | nil =>
      cases rest with
      | nil => rfl
      | cons c rest =>
          have hc := (hrest c rfl).1
          simp [scanDigits, digit?_eq, hc]
  | cons c digits ih =>
      obtain ⟨hc, hdigits⟩ := List.forall_mem_cons.1 h
      simp [scanDigits, digit?_eq, hc, ih hdigits]

theorem scanFraction_of_ends (h : EndsNumber rest) : scanFraction rest = some (none, rest) := by
  cases rest with
  | nil => rfl
  | cons c rest =>
      have hc := (h c rfl).2.1
      simp [scanFraction, hc]

theorem scanExponent_of_ends (h : EndsNumber rest) : scanExponent rest = some (none, rest) := by
  cases rest with
  | nil => rfl
  | cons c rest =>
      have hc := (h c rfl).2.2
      exact if_neg (not_or.2 hc)

/-- The numeral of a natural number with a sign. -/
def numeral (negative : Bool) (n : Nat) : Numeral where
  negative
  whole := (Digits.ofNat n).map digitValue
  fraction := none
  exponent := none

theorem scanDigits₁_ofNat (n : Nat) (h : EndsNumber rest) :
    scanDigits₁ (Digits.ofNat n ++ rest) = some ((Digits.ofNat n).map digitValue, rest) := by
  rw [scanDigits₁, scanDigits_append (fun c => Digits.isDigit_of_mem_ofNat) h]
  have hne : Digits.ofNat n ≠ [] := Nat.toDigits_ne_nil
  cases htext : Digits.ofNat n with
  | nil => exact absurd htext hne
  | cons c digits => rfl

theorem digitValue_eq_zero (h : c.isDigit = true) (hzero : digitValue c = 0) : c = '0' := by
  simp only [Char.isDigit, ge_iff_le, Bool.and_eq_true, decide_eq_true_eq,
    UInt32.le_iff_toNat_le] at h
  have hle : '0'.toNat ≤ c.toNat := h.1
  exact Char.toNat_inj.1 (Nat.le_antisymm (Nat.le_of_sub_eq_zero hzero) hle)

theorem scanNumeral_ofNat (negative : Bool) (n : Nat) (h : EndsNumber rest) :
    scanNumeral negative (Digits.ofNat n ++ rest) = some (numeral negative n, rest) := by
  have hlead : ¬(1 < ((Digits.ofNat n).map digitValue).length ∧
      ((Digits.ofNat n).map digitValue).head? = some 0) := by
    rw [List.length_map, List.head?_map, Option.map_eq_some_iff]
    rintro ⟨hlength, c, hhead, hc⟩
    have hdigit := Digits.isDigit_of_mem_ofNat (List.mem_of_head? hhead)
    rw [digitValue_eq_zero hdigit hc] at hhead
    exact Digits.head?_ofNat_ne hlength hhead
  simp only [scanNumeral, scanDigits₁_ofNat n h, Option.bind_eq_bind, Option.bind_some,
    if_neg hlead, scanFraction_of_ends h, scanExponent_of_ends h, numeral]

/-! ## Strings -/

theorem hexDigit?_hexDigit {n : Nat} (h : n < 16) : hexDigit? (hexDigit n) = some n := by
  have hall : ∀ n < 16, hexDigit? (hexDigit n) = some n := by decide
  exact hall n h

theorem scanString_letter {letter : Char} {code : Nat} (hletter : letter ≠ 'u')
    (h : escaped? letter = some code) (rest : List Char) :
    scanString ('\\' :: letter :: rest) =
      (scanString rest).map fun (codes, rest) => (code :: codes, rest) := by
  rw [scanString, h, Option.map_eq_bind]
  · rfl
  · exact fun _ _ _ _ _ hu _ => hletter hu

/-- However a character is written, it is found. -/
theorem scanString_escape (c : Char) (rest : List Char) :
    scanString (escape c ++ rest) =
      (scanString rest).map fun (codes, rest) => (c.toNat :: codes, rest) := by
  rw [escape]
  split_ifs with hquote hslash hb hf hn hr ht hcontrol
  · subst hquote
    exact scanString_letter (by decide) rfl rest
  · subst hslash
    exact scanString_letter (by decide) rfl rest
  · subst hb
    exact scanString_letter (by decide) rfl rest
  · subst hf
    exact scanString_letter (by decide) rfl rest
  · subst hn
    exact scanString_letter (by decide) rfl rest
  · subst hr
    exact scanString_letter (by decide) rfl rest
  · subst ht
    exact scanString_letter (by decide) rfl rest
  · have hhigh := hexDigit?_hexDigit (show c.toNat / 16 < 16 by omega)
    have hlow := hexDigit?_hexDigit (show c.toNat % 16 < 16 by omega)
    have hzero : hexDigit? '0' = some 0 := rfl
    have hcode : hexCode? '0' '0' (hexDigit (c.toNat / 16)) (hexDigit (c.toNat % 16)) =
        some c.toNat := by
      simp only [hexCode?, hzero, hhigh, hlow, Option.bind_eq_bind, Option.bind_some]
      congr
      omega
    simp only [List.cons_append, List.nil_append, scanString, hcode, Option.map_eq_bind]
    rfl
  · rw [List.cons_append, List.nil_append, scanString, if_neg (not_or.2 ⟨hcontrol, hslash⟩),
      Option.map_eq_bind]
    · rfl
    · exact hquote
    · exact fun _ _ _ _ _ h _ => hslash h
    · exact fun _ _ h _ => hslash h

theorem scanString_flatMap (s rest : List Char) :
    scanString (s.flatMap escape ++ '"' :: rest) = some (s.map Char.toNat, rest) := by
  induction s with
  | nil => rw [List.flatMap_nil, List.nil_append, scanString, List.map_nil]
  | cons c s ih =>
      rw [List.flatMap_cons, List.append_assoc, scanString_escape, ih, Option.map_some,
        List.map_cons]

end Draft

end PooledSql.Json
