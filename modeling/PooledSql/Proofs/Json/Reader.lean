import Mathlib.Data.List.Forall2
import PooledSql.Json.Reader
import PooledSql.Proofs.Json.Grammar

/-!
# Reading documents back

A document without doubles that is not nested too deeply is read back from its text. A draft
*spells* a document if the grammar finds the draft in the document's text and the draft has that
document for its value. There is one lemma for each kind of document, and the parts of arrays and
objects are spelled one by one.

Doubles are left out: the reader does not round to the nearest one.
-/

namespace PooledSql.Json

open Draft

variable {j : Json} {d : Draft} {fuel : Nat} {rest : List Char}

mutual

/-- No number in the document is a double. -/
def FloatFree : Json → Prop
  | .num (.float _) => False
  | .arr items => FloatFreeItems items
  | .obj fields => FloatFreeFields fields
  | _ => True

def FloatFreeItems : List Json → Prop
  | [] => True
  | j :: rest => j.FloatFree ∧ FloatFreeItems rest

def FloatFreeFields : List (String × Json) → Prop
  | [] => True
  | (_, j) :: rest => j.FloatFree ∧ FloatFreeFields rest

end

/-! ## Values of drafts -/

theorem joinSurrogates_toNat (s : List Char) : joinSurrogates (s.map Char.toNat) = some s := by
  induction s with
  | nil => rfl
  | cons c s ih =>
      have hvalid : c.toNat < 0xD800 ∨ 0xDFFF < c.toNat ∧ c.toNat < 0x110000 := c.valid
      rw [List.map_cons, joinSurrogates.eq_def]
      dsimp only
      rw [if_neg (by omega), if_neg (by omega), ih, Option.map_some,
        Char.ofNat_toNat]

theorem text?_toNat (s : String) : text? (s.toList.map Char.toNat) = some s := by
  rw [text?, joinSurrogates_toNat, Option.map_some, String.ofList_toList]

theorem ofDigits_ofNat (n : Nat) :
    Numeral.ofDigits ((Digits.ofNat n).map digitValue) = n := by
  calc Numeral.ofDigits ((Digits.ofNat n).map digitValue)
      = Nat.ofDigitChars 10 (Digits.ofNat n) 0 := by
        rw [Numeral.ofDigits, List.foldl_map, Nat.ofDigitChars_eq_foldl]
        simp only [Nat.mul_comm, digitValue]
    _ = n := Nat.ofDigitChars_ten_toDigits

theorem value?_numeral {i : Int} (h : i ∈ IntRange.either64) :
    (numeral (i < 0) i.natAbs).value? = some (.int i) := by
  rw [IntRange.mem_iff] at h
  simp only [IntRange.either64, IntRange.int64, IntRange.uint64] at h
  simp only [Numeral.value?, numeral, ofDigits_ofNat, IntRange.mem_iff, IntRange.int64,
    IntRange.uint64]
  by_cases hneg : i < 0
  · rw [decide_eq_true hneg, if_pos rfl, if_pos (by omega)]
    congr
    omega
  · rw [decide_eq_false hneg, if_neg (by decide), if_pos (by omega)]
    congr
    omega

/-- A field whose key comes after all others goes to the end. -/
theorem insertField_of_forall_lt {key : String} {value : Json} {found : List (String × Json)}
    (h : ∀ f ∈ found, f.1 < key) : insertField key value found = found ++ [(key, value)] := by
  induction found with
  | nil => rfl
  | cons f found ih =>
      obtain ⟨hf, hfound⟩ := List.forall_mem_cons.1 h
      have hne : key ≠ f.1 := fun heq => String.lt_irrefl _ (heq ▸ hf)
      rw [insertField, if_neg (String.lt_asymm hf), if_neg hne, ih hfound, List.cons_append]

theorem KeysAscend.pairwise {fields : List (String × Json)} (h : KeysAscend fields) :
    fields.Pairwise (·.1 < ·.1) := by
  induction fields with
  | nil => exact .nil
  | cons f fields ih =>
      cases fields with
      | nil => exact List.pairwise_singleton _ _
      | cons g fields =>
          obtain ⟨hlt, hrest⟩ := h
          have hpairwise := ih hrest
          refine .cons (fun k hk => ?_) hpairwise
          obtain rfl | hk := List.mem_cons.1 hk
          · exact hlt
          · exact String.lt_trans hlt (List.rel_of_pairwise_cons hpairwise hk)

/-! ## Drafts that spell documents -/

/-- The draft is what the grammar finds in the text of the document, and the document is the value
of the draft. The text starts with a character that is neither blank nor a closing bracket, and it
is found in front of any text that goes on with no part of a number. -/
structure Draft.Spells (d : Draft) (j : Json) : Prop where
  head : ∃ c text, j.chars = c :: text ∧ isBlank c = false ∧ c ≠ ']'
  scan : ∀ fuel rest, j.chars.length ≤ fuel → EndsNumber rest →
    scanValue fuel (j.chars ++ rest) = some (d, rest)
  depth : d.depth = j.depth
  value : ofDraft? d = some j

theorem Draft.Spells.skip_append (h : d.Spells j) (rest : List Char) :
    skip (j.chars ++ rest) = j.chars ++ rest := by
  obtain ⟨c, text, hchars, hblank, -⟩ := h.head
  rw [hchars, List.cons_append, skip_of_not_blank hblank]

/-! ### Scalars -/

theorem spells_null : Draft.null.Spells .null where
  head := ⟨'n', _, rfl, rfl, by decide⟩
  scan := by
    intro fuel rest hfuel _
    obtain _ | fuel := fuel
    · cases hfuel
    · rfl
  depth := rfl
  value := rfl

theorem spells_bool (b : Bool) : (Draft.bool b).Spells (.bool b) where
  head := by cases b <;> exact ⟨_, _, rfl, rfl, by decide⟩
  scan := by
    intro fuel rest hfuel _
    obtain _ | fuel := fuel
    · cases b <;> cases hfuel
    · cases b <;> rfl
  depth := rfl
  value := rfl

theorem spells_str (s : String) : (Draft.string (s.toList.map Char.toNat)).Spells (.str s) where
  head := ⟨'"', _, rfl, rfl, by decide⟩
  scan := by
    intro fuel rest hfuel _
    obtain _ | fuel := fuel
    · cases hfuel
    · rw [chars, quoted, List.cons_append, List.cons_append, List.append_assoc,
        List.singleton_append]
      change (scanString _).map _ = _
      rw [scanString_flatMap]
      rfl
  depth := rfl
  value := by rw [ofDraft?, text?_toNat, Option.map_some]

/-- A value that starts with a digit is a number. -/
theorem scanValue_digit {c : Char} (h : c.isDigit = true) (fuel : Nat) (text : List Char) :
    scanValue (fuel + 1) (c :: text) =
      (scanNumeral false (c :: text)).map fun (n, rest) => (.number n, rest) := by
  rw [scanValue]
  case x_2 => exact List.cons_ne_nil c text
  all_goals
    intro rest heq
    cases heq
    exact absurd h (by decide)

theorem exists_ofNat_eq_cons (n : Nat) :
    ∃ c text, Digits.ofNat n = c :: text ∧ c.isDigit = true := by
  obtain ⟨c, text, heq⟩ := List.exists_cons_of_ne_nil (Nat.toDigits_ne_nil (n := n) (b := 10))
  exact ⟨c, text, heq, Digits.isDigit_of_mem_ofNat (heq ▸ List.mem_cons_self)⟩

theorem isBlank_of_isDigit {c : Char} (h : c.isDigit = true) : isBlank c = false := by
  simp only [isBlank, Bool.or_eq_false_iff, beq_eq_false_iff_ne]
  refine ⟨⟨⟨?_, ?_⟩, ?_⟩, ?_⟩ <;> rintro rfl <;> cases h

theorem spells_int {i : Int} (h : i ∈ IntRange.either64) :
    (Draft.number (numeral (i < 0) i.natAbs)).Spells (.num (.int i)) where
  head := by
    rw [chars, Number.chars, Digits.ofInt]
    split_ifs
    · exact ⟨'-', _, rfl, rfl, by decide⟩
    · obtain ⟨c, text, htext, hc⟩ := exists_ofNat_eq_cons i.natAbs
      refine ⟨c, text, htext, isBlank_of_isDigit hc, ?_⟩
      rintro rfl
      cases hc
  scan := by
    intro fuel rest hfuel hrest
    obtain ⟨c, text, htext, hc⟩ := exists_ofNat_eq_cons i.natAbs
    have hscan := fun negative => scanNumeral_ofNat negative i.natAbs hrest
    rw [chars, Number.chars, Digits.ofInt] at hfuel ⊢
    obtain _ | fuel := fuel
    · split_ifs at hfuel <;> simp [htext] at hfuel
    · split_ifs with hneg
      · rw [List.cons_append, scanValue, hscan, decide_eq_true hneg, Option.map_some]
      · rw [htext, List.cons_append, scanValue_digit hc, ← List.cons_append, ← htext, hscan,
          decide_eq_false hneg, Option.map_some]
  depth := rfl
  value := by rw [ofDraft?, value?_numeral h, Option.map_some]

/-! ### Arrays -/

variable {items : List Json} {drafts : List Draft}

theorem depthItems_eq (h : List.Forall₂ Draft.Spells drafts items) :
    Draft.depthItems drafts = Json.depthItems items := by
  induction h with
  | nil => rfl
  | cons hd _ ih => rw [Draft.depthItems, Json.depthItems, hd.depth, ih]

theorem ofItems?_eq (h : List.Forall₂ Draft.Spells drafts items) :
    ofItems? drafts = some items := by
  induction h with
  | nil => rw [ofItems?]
  | cons hd _ ih =>
      rw [ofItems?, hd.value, ih]
      rfl

theorem skip_itemsChars (items : List Json) (rest : List Char) :
    skip (itemsChars items ++ rest) = itemsChars items ++ rest := by
  cases items <;> rfl

theorem endsNumber_itemsChars (items : List Json) (rest : List Char) :
    EndsNumber (itemsChars items ++ rest) := by
  cases items <;> exact endsNumber_cons (by decide) _

theorem scanItems_itemsChars (h : List.Forall₂ Draft.Spells drafts items)
    (hfuel : (itemsChars items).length ≤ fuel) (rest : List Char) :
    scanItems fuel (itemsChars items ++ rest) = some (drafts, rest) := by
  induction h generalizing fuel with
  | nil =>
      obtain _ | fuel := fuel
      · cases hfuel
      · rfl
  | @cons d j drafts items hd _ ih =>
      rw [itemsChars, List.length_cons, List.length_append] at hfuel
      obtain _ | fuel := fuel
      · cases hfuel
      · rw [itemsChars, List.cons_append, List.append_assoc, scanItems, hd.skip_append,
          hd.scan _ _ (by omega) (endsNumber_itemsChars items rest), Option.bind_eq_bind,
          Option.bind_some]
        dsimp only
        rw [skip_itemsChars, ih (by omega)]
        rfl

/-- An array whose bracket is not closed at once has a first item. -/
theorem scanValue_bracket {c : Char} (hblank : isBlank c = false) (hbracket : c ≠ ']')
    (fuel : Nat) (text : List Char) :
    scanValue (fuel + 1) ('[' :: c :: text) = (do
      let (item, rest) ← scanValue fuel (c :: text)
      let (items, rest) ← scanItems fuel (skip rest)
      some (.array (item :: items), rest)) := by
  rw [scanValue, skip_of_not_blank hblank]
  split
  · rename_i heq
    cases heq
    exact absurd rfl hbracket
  · rfl

theorem spells_arr (h : List.Forall₂ Draft.Spells drafts items) :
    (Draft.array drafts).Spells (.arr items) where
  head := by cases items <;> exact ⟨'[', _, rfl, rfl, by decide⟩
  scan := by
    intro fuel rest hfuel hrest
    cases h with
    | nil =>
        obtain _ | fuel := fuel
        · cases hfuel
        · rfl
    | @cons d j drafts items hd hdrafts =>
        rw [chars, List.length_cons, List.length_append] at hfuel
        obtain _ | fuel := fuel
        · cases hfuel
        · obtain ⟨c, text, hchars, hblank, hbracket⟩ := hd.head
          have hitem := hd.scan fuel _ (by omega) (endsNumber_itemsChars items rest)
          rw [chars, List.cons_append, List.append_assoc]
          rw [hchars, List.cons_append] at hitem ⊢
          rw [scanValue_bracket hblank hbracket, hitem, Option.bind_eq_bind, Option.bind_some]
          dsimp only
          rw [skip_itemsChars, scanItems_itemsChars hdrafts (by omega)]
          rfl
  depth := by rw [Draft.depth, Json.depth, depthItems_eq h]
  value := by rw [ofDraft?, ofItems?_eq h, Option.map_some]

/-! ### Objects -/

/-- A field is spelled by the code points of its key and by a draft that spells its value. -/
def SpellsField (f : List Nat × Draft) (g : String × Json) : Prop :=
  f.1 = g.1.toList.map Char.toNat ∧ f.2.Spells g.2

variable {fields found : List (String × Json)} {fieldDrafts : List (List Nat × Draft)}

theorem depthFields_eq (h : List.Forall₂ SpellsField fieldDrafts fields) :
    Draft.depthFields fieldDrafts = Json.depthFields fields := by
  induction h with
  | nil => rfl
  | cons hf _ ih => rw [Draft.depthFields, Json.depthFields, hf.2.depth, ih]

/-- Fields in the order of their keys are added one behind the other. -/
theorem ofFields?_eq (h : List.Forall₂ SpellsField fieldDrafts fields)
    (hkeys : (found ++ fields).Pairwise (·.1 < ·.1)) :
    ofFields? fieldDrafts found = some (found ++ fields) := by
  induction h generalizing found with
  | nil => rw [ofFields?, List.append_nil]
  | @cons f g fieldDrafts fields hf _ ih =>
      have hlt : ∀ k ∈ found, k.1 < g.1 := fun k hk =>
        (List.pairwise_append.1 hkeys).2.2 k hk g List.mem_cons_self
      obtain ⟨codes, d⟩ := f
      obtain ⟨key, j⟩ := g
      obtain ⟨rfl, hd : d.Spells j⟩ := hf
      rw [List.append_cons] at hkeys ⊢
      rw [ofFields?, text?_toNat, hd.value, Option.bind_eq_bind, Option.bind_some,
        Option.bind_eq_bind, Option.bind_some, insertField_of_forall_lt hlt, ih hkeys]

theorem skip_fieldsChars (fields : List (String × Json)) (rest : List Char) :
    skip (fieldsChars fields ++ rest) = fieldsChars fields ++ rest := by
  cases fields <;> rfl

theorem endsNumber_fieldsChars (fields : List (String × Json)) (rest : List Char) :
    EndsNumber (fieldsChars fields ++ rest) := by
  cases fields <;> exact endsNumber_cons (by decide) _

theorem scanKey_quoted (key : String) (rest : List Char) :
    scanKey (quoted key.toList ++ ':' :: rest) = some (key.toList.map Char.toNat, skip rest) := by
  rw [quoted, List.cons_append, List.cons_append, List.append_assoc, List.singleton_append, scanKey,
    scanString_flatMap]
  rfl

theorem skip_quoted (s rest : List Char) : skip (quoted s ++ rest) = quoted s ++ rest := rfl

theorem scanFields_fieldsChars (h : List.Forall₂ SpellsField fieldDrafts fields)
    (hfuel : (fieldsChars fields).length ≤ fuel) (rest : List Char) :
    scanFields fuel (fieldsChars fields ++ rest) = some (fieldDrafts, rest) := by
  induction h generalizing fuel with
  | nil =>
      obtain _ | fuel := fuel
      · cases hfuel
      · rfl
  | @cons f g fieldDrafts fields hf _ ih =>
      obtain ⟨codes, d⟩ := f
      obtain ⟨key, j⟩ := g
      obtain ⟨rfl, hd : d.Spells j⟩ := hf
      simp only [fieldsChars, List.length_cons, List.length_append] at hfuel
      obtain _ | fuel := fuel
      · cases hfuel
      · simp only [fieldsChars, List.cons_append, List.append_assoc, scanFields]
        rw [skip_quoted, scanKey_quoted, hd.skip_append, Option.bind_eq_bind, Option.bind_some]
        dsimp only
        rw [hd.scan _ _ (by omega) (endsNumber_fieldsChars fields rest), Option.bind_eq_bind,
          Option.bind_some]
        dsimp only
        rw [skip_fieldsChars, ih (by omega)]
        rfl

/-- An object with a field starts with its key. -/
theorem scanValue_brace (key rest : List Char) (fuel : Nat) :
    scanValue (fuel + 1) ('\x7b' :: (quoted key ++ rest)) = (do
      let (k, rest) ← scanKey (quoted key ++ rest)
      let (v, rest) ← scanValue fuel rest
      let (fields, rest) ← scanFields fuel (skip rest)
      some (.object ((k, v) :: fields), rest)) := rfl

theorem spells_obj (h : List.Forall₂ SpellsField fieldDrafts fields) (hkeys : KeysAscend fields) :
    (Draft.object fieldDrafts).Spells (.obj fields) where
  head := by
    obtain _ | ⟨⟨key, j⟩, fields⟩ := fields <;> exact ⟨'\x7b', _, rfl, rfl, by decide⟩
  scan := by
    intro fuel rest hfuel hrest
    cases h with
    | nil =>
        obtain _ | fuel := fuel
        · cases hfuel
        · rfl
    | @cons f g fieldDrafts fields hf hfields =>
        obtain ⟨codes, d⟩ := f
        obtain ⟨key, j⟩ := g
        obtain ⟨rfl, hd : d.Spells j⟩ := hf
        simp only [chars, List.length_cons, List.length_append] at hfuel
        obtain _ | fuel := fuel
        · cases hfuel
        · simp only [chars, List.cons_append, List.append_assoc]
          rw [scanValue_brace, scanKey_quoted, hd.skip_append, Option.bind_eq_bind,
            Option.bind_some]
          dsimp only
          rw [hd.scan _ _ (by omega) (endsNumber_fieldsChars fields rest), Option.bind_eq_bind,
            Option.bind_some]
          dsimp only
          rw [skip_fieldsChars, scanFields_fieldsChars hfields (by omega)]
          rfl
  depth := by rw [Draft.depth, Json.depth, depthFields_eq h]
  value := by
    have hvalue : ofFields? fieldDrafts [] = some ([] ++ fields) := ofFields?_eq h hkeys.pairwise
    rw [ofDraft?, hvalue, List.nil_append, Option.map_some]

/-! ## Every document -/

mutual

theorem exists_spells : ∀ {j : Json}, j.Canonical → j.FloatFree → ∃ d : Draft, d.Spells j
  | .null, _, _ => ⟨_, spells_null⟩
  | .bool b, _, _ => ⟨_, spells_bool b⟩
  | .num (.int i), h, _ => ⟨_, spells_int (by rwa [Canonical] at h)⟩
  | .num (.float x), _, hfree => by
      rw [FloatFree] at hfree
      exact hfree.elim
  | .str s, _, _ => ⟨_, spells_str s⟩
  | .arr items, h, hfree => by
      rw [Canonical] at h
      rw [FloatFree] at hfree
      obtain ⟨drafts, hdrafts⟩ := exists_spells_items h hfree
      exact ⟨_, spells_arr hdrafts⟩
  | .obj fields, h, hfree => by
      rw [Canonical] at h
      rw [FloatFree] at hfree
      obtain ⟨drafts, hdrafts⟩ := exists_spells_fields h.2 hfree
      exact ⟨_, spells_obj hdrafts h.1⟩

theorem exists_spells_items : ∀ {items : List Json}, CanonicalItems items →
    FloatFreeItems items → ∃ drafts : List Draft, List.Forall₂ Draft.Spells drafts items
  | [], _, _ => ⟨[], .nil⟩
  | j :: items, h, hfree => by
      rw [CanonicalItems] at h
      rw [FloatFreeItems] at hfree
      obtain ⟨d, hd⟩ := exists_spells h.1 hfree.1
      obtain ⟨drafts, hdrafts⟩ := exists_spells_items h.2 hfree.2
      exact ⟨d :: drafts, .cons hd hdrafts⟩

theorem exists_spells_fields : ∀ {fields : List (String × Json)}, CanonicalFields fields →
    FloatFreeFields fields →
    ∃ drafts : List (List Nat × Draft), List.Forall₂ SpellsField drafts fields
  | [], _, _ => ⟨[], .nil⟩
  | (key, j) :: fields, h, hfree => by
      rw [CanonicalFields] at h
      rw [FloatFreeFields] at hfree
      obtain ⟨d, hd⟩ := exists_spells h.1 hfree.1
      obtain ⟨drafts, hdrafts⟩ := exists_spells_fields h.2 hfree.2
      exact ⟨(key.toList.map Char.toNat, d) :: drafts, .cons ⟨rfl, hd⟩ hdrafts⟩

end

theorem Draft.Spells.read (h : d.Spells j) : Draft.read j.chars = some d := by
  have hscan := h.scan _ _ (Nat.le_succ _) endsNumber_nil
  have hskip := h.skip_append []
  rw [List.append_nil] at hscan hskip
  rw [Draft.read, hskip, hscan]
  rfl

end PooledSql.Json
