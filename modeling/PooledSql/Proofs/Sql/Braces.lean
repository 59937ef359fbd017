import Mathlib
import PooledSql.Proofs.Sql.Results
import PooledSql.Sql.Template

/-!
# Braces in templates

`Template.split` and `Template.encode` are inverse to each other: each list of literal strings is
read back from its template, and what is read from a template has that template. The templates that
cannot be read are those with a brace that is not half of a pair when braces are paired from the
left, and the error names the first such brace and the bytes in front of it.
-/

namespace PooledSql

namespace Template

/-! ## Pairs of braces -/

/-- The pairs that braces form: two equal ones stand for one, and the last pair is a place. -/
def pairs : List (Char × Char) := [('{', '{'), ('}', '}'), ('{', '}')]

def IsBrace (c : Char) : Prop := c = '{' ∨ c = '}'

/-- Every brace of the text is half of a pair, when pairs are taken from the left. -/
inductive Paired : List Char → Prop where
  | nil : Paired []
  | char {c : Char} {rest : List Char} (hc : ¬IsBrace c) (h : Paired rest) : Paired (c :: rest)
  | pair {c d : Char} {rest : List Char} (hpair : (c, d) ∈ pairs) (h : Paired rest) :
      Paired (c :: d :: rest)

/-- The character is a brace that begins no pair with what follows it. -/
def Unpaired (c : Char) (rest : List Char) : Prop :=
  IsBrace c ∧ ∀ d ∈ rest.head?, (c, d) ∉ pairs

theorem unpaired_opening {rest : List Char} (hopening : ∀ more, rest = '{' :: more → False)
    (hclosing : ∀ more, rest = '}' :: more → False) : Unpaired '{' rest := by
  refine ⟨.inl rfl, ?_⟩
  rintro d hd hpair
  obtain ⟨more, rfl⟩ := List.head?_eq_some_iff.1 hd
  obtain rfl | rfl : d = '{' ∨ d = '}' := by simpa [pairs] using hpair
  · exact hopening more rfl
  · exact hclosing more rfl

theorem unpaired_closing {rest : List Char} (hclosing : ∀ more, rest = '}' :: more → False) :
    Unpaired '}' rest := by
  refine ⟨.inr rfl, ?_⟩
  rintro d hd hpair
  obtain ⟨more, rfl⟩ := List.head?_eq_some_iff.1 hd
  obtain rfl : d = '}' := by simpa [pairs] using hpair
  exact hclosing more rfl

theorem splitFrom_of_not_isBrace {c : Char} (hc : ¬IsBrace c) (position : Nat)
    (rest : List Char) :
    splitFrom position (c :: rest) = do
      return prependChar c (← splitFrom (position + c.utf8Size) rest) := by
  obtain ⟨hopening, hclosing⟩ := not_or.1 hc
  rw [splitFrom]
  · exact fun _ h => absurd h hopening
  · exact fun _ h => absurd h hopening
  · exact hopening
  · exact fun _ h => absurd h hclosing
  · exact hclosing

theorem splitFrom_of_unpaired {c : Char} {rest : List Char} (h : Unpaired c rest)
    (position : Nat) :
    splitFrom position (c :: rest) = .error (.unmatchedBrace c position) := by
  obtain ⟨rfl | rfl, hpair⟩ := h
  · rw [splitFrom]
    · rintro rest rfl
      exact hpair '{' rfl (by decide)
    · rintro rest rfl
      exact hpair '}' rfl (by decide)
  · rw [splitFrom]
    rintro rest rfl
    exact hpair '}' rfl (by decide)

/-- An error behind a pair is the error of the whole. -/
theorem splitFrom_pair {c d : Char} (hpair : (c, d) ∈ pairs) {position : Nat} {rest : List Char}
    {e : TemplateError} (he : splitFrom (position + 2) rest = .error e) :
    splitFrom position (c :: d :: rest) = .error e := by
  simp only [pairs, List.mem_cons, Prod.mk.injEq, List.not_mem_nil, or_false] at hpair
  obtain ⟨rfl, rfl⟩ | ⟨rfl, rfl⟩ | ⟨rfl, rfl⟩ := hpair
  all_goals
    rw [splitFrom, he]
    rfl

theorem utf8Len_pair {c d : Char} (hpair : (c, d) ∈ pairs) (rest : List Char) :
    String.utf8Len (c :: d :: rest) = 2 + String.utf8Len rest := by
  simp only [pairs, List.mem_cons, Prod.mk.injEq, List.not_mem_nil, or_false] at hpair
  obtain ⟨rfl, rfl⟩ | ⟨rfl, rfl⟩ | ⟨rfl, rfl⟩ := hpair
  all_goals
    rw [String.utf8Len_cons, String.utf8Len_cons, Nat.add_comm 2]
    rfl

/-- An error behind paired braces is the error of the whole. -/
theorem Paired.splitFrom_append {front rest : List Char} (h : Paired front) {position : Nat}
    {e : TemplateError} (he : splitFrom (position + String.utf8Len front) rest = .error e) :
    splitFrom position (front ++ rest) = .error e := by
  induction h generalizing position with
  | nil => exact he
  | char hc _ ih =>
      rw [String.utf8Len_cons, Nat.add_comm (String.utf8Len _), ← Nat.add_assoc] at he
      rw [List.cons_append, splitFrom_of_not_isBrace hc, ih he]
      rfl
  | pair hpair _ ih =>
      rw [utf8Len_pair hpair, ← Nat.add_assoc] at he
      exact splitFrom_pair hpair (ih he)

/-- The text has a brace that is at fault with this error: the braces in front of it are paired. -/
def FaultAt (position : Nat) (text : List Char) (e : TemplateError) : Prop :=
  ∃ front c rest, text = front ++ c :: rest ∧ Paired front ∧ Unpaired c rest ∧
    e = .unmatchedBrace c (position + String.utf8Len front)

theorem FaultAt.of_unpaired {c : Char} {rest : List Char} (h : Unpaired c rest) (position : Nat) :
    FaultAt position (c :: rest) (.unmatchedBrace c position) :=
  ⟨[], c, rest, rfl, .nil, h, rfl⟩

theorem FaultAt.char {c : Char} {position : Nat} {text : List Char} {e : TemplateError}
    (hc : ¬IsBrace c) (h : FaultAt (position + c.utf8Size) text e) :
    FaultAt position (c :: text) e := by
  obtain ⟨front, d, rest, rfl, hfront, hrest, rfl⟩ := h
  refine ⟨c :: front, d, rest, rfl, .char hc hfront, hrest, ?_⟩
  rw [String.utf8Len_cons, Nat.add_comm (String.utf8Len _), ← Nat.add_assoc]

theorem FaultAt.pair {c d : Char} {position : Nat} {text : List Char} {e : TemplateError}
    (hpair : (c, d) ∈ pairs) (h : FaultAt (position + 2) text e) :
    FaultAt position (c :: d :: text) e := by
  obtain ⟨front, b, rest, rfl, hfront, hrest, rfl⟩ := h
  refine ⟨c :: d :: front, b, rest, rfl, .pair hpair hfront, hrest, ?_⟩
  rw [utf8Len_pair hpair, ← Nat.add_assoc]

/-- Reading fails exactly with the error of the brace at fault. -/
theorem splitFrom_eq_error_iff {position : Nat} {text : List Char} {e : TemplateError} :
    splitFrom position text = .error e ↔ FaultAt position text e := by
  constructor
  · intro h
    fun_induction splitFrom position text with
    | case1 => cases h
    | case2 position rest ih => exact .pair (by decide) (ih (Except.eq_error_of_map h))
    | case3 position rest ih => exact .pair (by decide) (ih (Except.eq_error_of_map h))
    | case4 position rest hopening hclosing =>
        cases h
        exact .of_unpaired (unpaired_opening hopening hclosing) position
    | case5 position rest ih => exact .pair (by decide) (ih (Except.eq_error_of_map h))
    | case6 position rest hclosing =>
        cases h
        exact .of_unpaired (unpaired_closing hclosing) position
    | case7 position c rest _ _ hopening _ hclosing ih =>
        exact .char (not_or.2 ⟨hopening, hclosing⟩) (ih (Except.eq_error_of_map h))
  · rintro ⟨front, c, rest, rfl, hfront, hrest, rfl⟩
    exact hfront.splitFrom_append (splitFrom_of_unpaired hrest _)

/-! ## Templates of strings -/

/-- The text is read as the strings, wherever it stands. -/
def Splits (text : List Char) (strings : List (List Char)) : Prop :=
  ∀ position, splitFrom position text = .ok strings

/-- The characters of the template of strings. -/
def encodeChars (strings : List (List Char)) : List Char :=
  ['{', '}'].intercalate (strings.map encodeString)

theorem encodeString_of_not_isBrace {c : Char} (hc : ¬IsBrace c) : encodeString [c] = [c] := by
  rw [encodeString, List.flatMap_singleton]
  exact if_neg hc

theorem encodeString_cons (c : Char) (s : List Char) :
    encodeString (c :: s) = encodeString [c] ++ encodeString s := by
  rw [encodeString, encodeString, encodeString, ← List.flatMap_append, List.singleton_append]

theorem Splits.place {text : List Char} {strings : List (List Char)} (h : Splits text strings) :
    Splits ('{' :: '}' :: text) ([] :: strings) := by
  intro position
  rw [splitFrom, h]
  rfl

theorem Splits.prependChar {text : List Char} {strings : List (List Char)}
    (h : Splits text strings) (c : Char) :
    Splits (encodeString [c] ++ text) (prependChar c strings) := by
  intro position
  by_cases hc : IsBrace c
  · obtain rfl | rfl := hc
    · change splitFrom position ('{' :: '{' :: text) = _
      rw [splitFrom, h]
      rfl
    · change splitFrom position ('}' :: '}' :: text) = _
      rw [splitFrom, h]
      rfl
  · rw [encodeString_of_not_isBrace hc, List.singleton_append, splitFrom_of_not_isBrace hc, h]
    rfl

theorem Splits.encodeString_append {text first : List Char} {strings : List (List Char)}
    (h : Splits text (first :: strings)) (s : List Char) :
    Splits (encodeString s ++ text) ((s ++ first) :: strings) := by
  induction s with
  | nil => exact h
  | cons c s ih =>
      rw [encodeString_cons, List.append_assoc]
      exact ih.prependChar c

theorem encodeChars_cons_cons (s t : List Char) (strings : List (List Char)) :
    encodeChars (s :: t :: strings) =
      encodeString s ++ '{' :: '}' :: encodeChars (t :: strings) := by
  simp [encodeChars, List.intercalate_cons_cons]

/-- The template of strings is read as the strings. -/
theorem splits_encodeChars {strings : List (List Char)} (h : strings ≠ []) :
    Splits (encodeChars strings) strings := by
  induction strings with
  | nil => exact absurd rfl h
  | cons s strings ih =>
      cases strings with
      | nil =>
          have hlast : Splits (encodeString s ++ []) [s ++ []] :=
            Splits.encodeString_append (fun _ => rfl) s
          rw [List.append_nil, List.append_nil] at hlast
          rwa [encodeChars, List.map_singleton, List.intercalate_singleton]
      | cons t strings =>
          -- braces at the end of `s` are doubled, so the place behind them stays a pair
          have hrest := (ih (List.cons_ne_nil _ _)).place.encodeString_append s
          rwa [List.append_nil, ← encodeChars_cons_cons] at hrest

theorem encodeChars_prependChar (c : Char) {strings : List (List Char)} (h : strings ≠ []) :
    encodeChars (prependChar c strings) = encodeString [c] ++ encodeChars strings := by
  cases strings with
  | nil => exact absurd rfl h
  | cons s strings =>
      rw [Template.prependChar]
      cases strings with
      | nil =>
          simp only [encodeChars, List.map_singleton, List.intercalate_singleton]
          exact encodeString_cons c s
      | cons t strings =>
          rw [encodeChars_cons_cons, encodeChars_cons_cons, encodeString_cons, List.append_assoc]

theorem encodeChars_nil_cons {strings : List (List Char)} (h : strings ≠ []) :
    encodeChars ([] :: strings) = '{' :: '}' :: encodeChars strings := by
  cases strings with
  | nil => exact absurd rfl h
  | cons t strings => rw [encodeChars_cons_cons]; rfl

theorem prependChar_ne_nil (c : Char) (strings : List (List Char)) :
    prependChar c strings ≠ [] := by
  cases strings <;> exact List.cons_ne_nil _ _

/-- What is read from a text has that text for its template. -/
theorem encodeChars_of_splitFrom {position : Nat} {text : List Char}
    {strings : List (List Char)} (h : splitFrom position text = .ok strings) :
    strings ≠ [] ∧ encodeChars strings = text := by
  fun_induction splitFrom position text generalizing strings with
  | case1 =>
      cases h
      exact ⟨List.cons_ne_nil _ _, rfl⟩
  | case2 position rest ih =>
      obtain ⟨more, hmore, rfl⟩ := Except.exists_of_map_eq_ok h
      obtain ⟨hne, rfl⟩ := ih hmore
      exact ⟨prependChar_ne_nil _ _, encodeChars_prependChar '{' hne⟩
  | case3 position rest ih =>
      obtain ⟨more, hmore, rfl⟩ := Except.exists_of_map_eq_ok h
      obtain ⟨hne, rfl⟩ := ih hmore
      exact ⟨List.cons_ne_nil _ _, encodeChars_nil_cons hne⟩
  | case4 => cases h
  | case5 position rest ih =>
      obtain ⟨more, hmore, rfl⟩ := Except.exists_of_map_eq_ok h
      obtain ⟨hne, rfl⟩ := ih hmore
      exact ⟨prependChar_ne_nil _ _, encodeChars_prependChar '}' hne⟩
  | case6 => cases h
  | case7 position c rest _ _ hopening _ hclosing ih =>
      obtain ⟨more, hmore, rfl⟩ := Except.exists_of_map_eq_ok h
      obtain ⟨hne, rfl⟩ := ih hmore
      refine ⟨prependChar_ne_nil _ _, ?_⟩
      rw [encodeChars_prependChar c hne,
        encodeString_of_not_isBrace (not_or.2 ⟨hopening, hclosing⟩)]
      rfl

/-! ## Reading templates -/

theorem encode_eq (strings : List String) :
    encode strings = String.ofList (encodeChars (strings.map String.toList)) := by
  rw [encode, encodeChars, List.map_map]
  rfl

theorem split_encode {strings : List String} (h : strings ≠ []) :
    split (encode strings) = .ok strings := by
  have hne : strings.map String.toList ≠ [] := by simpa using h
  rw [encode_eq, split, String.toList_ofList, splits_encodeChars hne 0]
  simp [pure, Except.pure, bind, Except.bind]

theorem encode_of_split {template : String} {strings : List String}
    (h : split template = .ok strings) : strings ≠ [] ∧ encode strings = template := by
  obtain ⟨chars, hchars, rfl⟩ := Except.exists_of_map_eq_ok h
  obtain ⟨hne, hencode⟩ := encodeChars_of_splitFrom hchars
  refine ⟨by simpa using hne, ?_⟩
  rw [encode_eq, List.map_map]
  simp [Function.comp_def, hencode]

theorem split_eq_error_iff {template : String} {e : TemplateError} :
    split template = .error e ↔ ∃ front c rest, template.toList = front ++ c :: rest ∧
      Paired front ∧ Unpaired c rest ∧
      e = .unmatchedBrace c (String.ofList front).utf8ByteSize := by
  have hsplit : split template = .error e ↔ FaultAt 0 template.toList e := by
    rw [← splitFrom_eq_error_iff]
    constructor
    · exact Except.eq_error_of_map
    · intro h
      rw [split, h]
      rfl
  rw [hsplit]
  simp only [FaultAt, Nat.zero_add, String.utf8ByteSize_ofList]

/-- Brace templates are read exactly. Strings in the places of their template are the strings
themselves; what is read from a template has that template; reading fails with an error just if the
error names the first brace that is not half of a pair and the bytes in front of it; and it fails
just on what is no template of strings. -/
theorem braces_exact :
    (∀ strings args, strings ≠ [] →
      Fragment.format (encode strings) args = Fragment.interleave strings args) ∧
    (∀ template strings, split template = .ok strings →
      strings ≠ [] ∧ encode strings = template) ∧
    (∀ template e, split template = .error e ↔
      ∃ front c rest, template.toList = front ++ c :: rest ∧ Paired front ∧ Unpaired c rest ∧
        e = .unmatchedBrace c (String.ofList front).utf8ByteSize) ∧
    ∀ template, (∃ e, split template = .error e) ↔ ¬∃ strings ≠ [], encode strings = template := by
  refine ⟨?_, fun _ _ => encode_of_split, fun _ _ => split_eq_error_iff, ?_⟩
  · intro strings args h
    rw [Fragment.format, split_encode h]
    rfl
  · intro template
    constructor
    · rintro ⟨e, he⟩ ⟨strings, hne, rfl⟩
      rw [split_encode hne] at he
      cases he
    · intro h
      cases hsplit : split template with
      | error e => exact ⟨e, rfl⟩
      | ok strings => exact absurd ⟨strings, encode_of_split hsplit⟩ h

example : split "é\x7b\x7b\x7b\x7d\x7d\x7d" = .ok ["é\x7b", "\x7d"] := by cbv

example : split "é\x7b\x7d\x7b" = .error (.unmatchedBrace '{' 4) := by cbv

end Template

end PooledSql
