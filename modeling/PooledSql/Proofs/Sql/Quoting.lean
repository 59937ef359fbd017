import Mathlib
import PooledSql.Proofs.Sql.Results
import PooledSql.Sql.Identifier

/-!
# Quoting

`Quoted.read` reads a list of quoted names: a name stands between two characters, the closing one
doubled inside; names are joined to paths by points, a path may have an alias behind the word
`as`, and commas stand between the items of the list. The text of an identifier is read back as
the names the identifier was made of, whatever characters these have. So no name can end its
quotes, or make one item of two.
-/

namespace PooledSql

/-- What an item of a list of names refers to: the parts of a path, and an alias for it. -/
structure Reference where
  path : List String
  aliasName : Option String
  deriving DecidableEq, Repr

/-! ## Reading -/

namespace Quoted

inductive Token where
  | name (s : String)
  | point
  | asWord
  | comma
  deriving DecidableEq, Repr

mutual

/-- The tokens of a text that begins outside a name. -/
def tokens (opening closing : Char) : List Char → Option (List Token)
  | [] => some []
  | '.' :: rest => (tokens opening closing rest).map (.point :: ·)
  | ',' :: ' ' :: rest => (tokens opening closing rest).map (.comma :: ·)
  | ' ' :: 'a' :: 's' :: ' ' :: rest => (tokens opening closing rest).map (.asWord :: ·)
  | c :: rest => if c = opening then tokensInName opening closing [] rest else none

/-- The tokens of a text that begins inside a name, where `seen` are the characters of the name
so far. A closing character that another one follows stands for itself. -/
def tokensInName (opening closing : Char) (seen : List Char) : List Char → Option (List Token)
  | [] => none
  | [c] => if c = closing then some [.name (String.ofList seen)] else none
  | c :: d :: rest =>
    if c ≠ closing then tokensInName opening closing (seen ++ [c]) (d :: rest)
    else if d = closing then tokensInName opening closing (seen ++ [c]) rest
    else (tokens opening closing (d :: rest)).map (.name (String.ofList seen) :: ·)

end

def readName : List Token → Option String
  | [.name s] => some s
  | _ => none

/-- Names with a point between each two. -/
def readPath (ts : List Token) : Option (List String) := (ts.splitOn .point).mapM readName

/-- A path, or a path and a name behind the word `as`. -/
def readItem (ts : List Token) : Option Reference :=
  match ts.splitOn .asWord with
  | [path] => do return ⟨← readPath path, none⟩
  | [path, aliasName] => do return ⟨← readPath path, some (← readName aliasName)⟩
  | _ => none

/-- Items with a comma between each two. The empty text is the empty list. -/
def readItems : List Token → Option (List Reference)
  | [] => some []
  | ts => (ts.splitOn .comma).mapM readItem

/-- The names that a text lists. There is an answer only if the whole text is such a list. -/
def read (opening closing : Char) (text : String) : Option (List Reference) := do
  readItems (← tokens opening closing text.toList)

end Quoted

/-! ## What an identifier is made of -/

/-- What a structured name refers to. -/
def QualifiedName.reference (name : QualifiedName) : Reference :=
  ⟨[name.schema, name.table, name.column].reduceOption, name.aliasName⟩

/-- The text in a field of a document. -/
def Json.textField? (fields : List (String × Json)) (key : String) : Option String :=
  match fields.lookup key with
  | some (.str s) => some s
  | _ => none

/-- What a document that stands for one name refers to. -/
def Json.reference? : Json → Option Reference
  | .str s => some ⟨[s], none⟩
  | .obj fields =>
    some ⟨["schema", "table", "column"].filterMap (textField? fields), textField? fields "as"⟩
  | _ => none

namespace Identifier

/-- What an identifier that is not a list refers to. -/
def reference? : Identifier → Option Reference
  | .name s => some ⟨[s], none⟩
  | .qualified path => some path.reference
  | .json j => j.reference?
  | .list _ => none

/-- What the items of an identifier refer to, if each of them refers to something. -/
def references? : Identifier → Option (List Reference)
  | .list items => items.mapM reference?
  | .json (.arr items) => items.mapM Json.reference?
  | single => single.reference?.map ([·])

end Identifier

/-! ## Writing -/

namespace Reference

/-- The text of a reference, its names between the given characters. -/
def write (opening closing : Char) (r : Reference) : String :=
  let path := ".".intercalate (r.path.map (Dialect.quoteBetween opening closing))
  match r.aliasName with
  | some aliasName => path ++ " as " ++ Dialect.quoteBetween opening closing aliasName
  | none => path

def tokens (r : Reference) : List Quoted.Token :=
  let path := [.point].intercalate (r.path.map fun s => [.name s])
  match r.aliasName with
  | some aliasName => path ++ [.asWord, .name aliasName]
  | none => path

end Reference

namespace Dialect

/-- The characters around a name in the dialects of this library. -/
def quotes : List (Dialect × Char × Char) :=
  [(postgres, '"', '"'), (mysql, '\x60', '\x60'), (sqlite, '"', '"'), (mssql, '[', ']')]

/-- No separator begins with the character. -/
def Apart (c : Char) : Prop := c ≠ '.' ∧ c ≠ ',' ∧ c ≠ ' '

instance (c : Char) : Decidable (Apart c) := inferInstanceAs (Decidable (_ ∧ _))

/-- The dialect puts names between the two characters and allows the usual structured names. -/
structure QuotesBetween (dialect : Dialect) (opening closing : Char) : Prop where
  quote : dialect.quote = quoteBetween opening closing
  checkName : dialect.checkName = QualifiedName.check
  opening_apart : Apart opening
  closing_apart : Apart closing

theorem quotesBetween_of_mem {dialect : Dialect} {opening closing : Char}
    (h : (dialect, opening, closing) ∈ quotes) : dialect.QuotesBetween opening closing := by
  simp only [quotes, List.mem_cons, Prod.mk.injEq, List.not_mem_nil, or_false] at h
  obtain ⟨rfl, rfl, rfl⟩ | ⟨rfl, rfl, rfl⟩ | ⟨rfl, rfl, rfl⟩ | ⟨rfl, rfl, rfl⟩ := h <;>
    exact ⟨rfl, rfl, by decide, by decide⟩

end Dialect

/-! ## Reading what was written -/

namespace Quoted

variable {opening closing : Char}

/-- The text is read as the tokens, whatever follows it; but what follows does not begin with a
closing character, which would go on with a name that ends the text. -/
def Spells (opening closing : Char) (text : List Char) (ts : List Token) : Prop :=
  ∀ rest, rest.head? ≠ some closing →
    tokens opening closing (text ++ rest) = (tokens opening closing rest).map (ts ++ ·)

/-- The text is read as the token, whatever follows it, and it ends a name that stands before. -/
structure Separates (opening closing : Char) (text : List Char) (separator : Token) : Prop where
  head_ne : ∀ rest, (text ++ rest).head? ≠ some closing
  tokens_append : ∀ rest,
    tokens opening closing (text ++ rest) = (tokens opening closing rest).map (separator :: ·)

theorem separates_point (h : Dialect.Apart closing) : Separates opening closing ['.'] .point where
  head_ne _ heq := h.1 (Option.some.inj heq).symm
  tokens_append _ := by rw [List.singleton_append, tokens]

theorem separates_comma (h : Dialect.Apart closing) :
    Separates opening closing [',', ' '] .comma where
  head_ne _ heq := h.2.1 (Option.some.inj heq).symm
  tokens_append _ := by rw [List.cons_append, List.singleton_append, tokens]

theorem separates_asWord (h : Dialect.Apart closing) :
    Separates opening closing [' ', 'a', 's', ' '] .asWord where
  head_ne _ heq := h.2.2 (Option.some.inj heq).symm
  tokens_append _ := by
    simp only [List.cons_append, List.nil_append]
    rw [tokens]

theorem tokensInName_append (name seen : List Char) {rest : List Char}
    (h : rest.head? ≠ some closing) :
    tokensInName opening closing seen
        (name.flatMap (fun c => if c = closing then [closing, c] else [c]) ++ closing :: rest) =
      (tokens opening closing rest).map (.name (String.ofList (seen ++ name)) :: ·) := by
  induction name generalizing seen with
  | nil =>
      rw [List.flatMap_nil, List.nil_append, List.append_nil]
      cases rest with
      | nil => rw [tokensInName, if_pos rfl, tokens, Option.map_some]
      | cons d rest =>
          have hd : d ≠ closing := fun heq => h (congrArg some heq)
          rw [tokensInName, if_neg (not_not_intro rfl), if_neg hd]
  | cons c name ih =>
      rw [List.append_cons seen c name, ← ih (seen ++ [c]), List.flatMap_cons]
      by_cases hc : c = closing
      -- it was doubled, so what follows it is not the end of the name
      · rw [if_pos hc, List.cons_append, List.singleton_append, List.cons_append,
          List.cons_append, tokensInName, if_neg (not_not_intro rfl), if_pos hc, hc]
      · rw [if_neg hc, List.singleton_append, List.cons_append]
        generalize hmore :
          name.flatMap (fun c => if c = closing then [closing, c] else [c]) ++ closing :: rest =
            more
        cases more with
        | nil => exact absurd hmore (List.append_ne_nil_of_right_ne_nil _ (List.cons_ne_nil _ _))
        | cons d more => rw [tokensInName, if_pos hc]

theorem tokens_opening (h : Dialect.Apart opening) (rest : List Char) :
    tokens opening closing (opening :: rest) = tokensInName opening closing [] rest := by
  rw [tokens, if_pos rfl]
  · exact h.1
  · intro _ hcomma
    exact absurd hcomma h.2.1
  · intro _ hblank
    exact absurd hblank h.2.2

theorem spells_quoteBetween (h : Dialect.Apart opening) (name : String) :
    Spells opening closing (Dialect.quoteBetween opening closing name).toList [.name name] := by
  intro rest hrest
  rw [Dialect.quoteBetween, String.toList_ofList, List.cons_append, List.cons_append,
    List.append_assoc, List.singleton_append, tokens_opening h, tokensInName_append _ _ hrest,
    List.nil_append, String.ofList_toList]
  rfl

theorem Spells.append_separator {text text' between : List Char} {ts ts' : List Token}
    {separator : Token} (h : Spells opening closing text ts)
    (hs : Separates opening closing between separator) (h' : Spells opening closing text' ts') :
    Spells opening closing (text ++ between ++ text') (ts ++ separator :: ts') := by
  intro rest hrest
  rw [List.append_assoc, List.append_assoc, h _ (hs.head_ne _), hs.tokens_append, h' rest hrest]
  cases tokens opening closing rest with
  | none => rfl
  | some more =>
      simp only [Option.map_some, List.append_assoc, List.cons_append]

theorem Spells.intercalate {between : List Char} {separator : Token} {α : Type}
    {text : α → List Char} {ts : α → List Token} {l : List α}
    (hs : Separates opening closing between separator)
    (h : ∀ x ∈ l, Spells opening closing (text x) (ts x)) :
    Spells opening closing (between.intercalate (l.map text))
      ([separator].intercalate (l.map ts)) := by
  induction l with
  | nil =>
      intro rest _
      simp only [List.map_nil, List.intercalate_nil, List.nil_append, Option.map_id']
  | cons x l ih =>
      have hx := h x List.mem_cons_self
      have hl := ih fun y hy => h y (List.mem_cons_of_mem x hy)
      cases l with
      | nil => simpa only [List.map_cons, List.map_nil, List.intercalate_singleton] using hx
      | cons y l =>
          simp only [List.map_cons, List.intercalate_cons_cons, List.append_assoc,
            List.singleton_append] at hl ⊢
          rw [← List.append_assoc]
          exact hx.append_separator hs hl

theorem spells_write (ho : Dialect.Apart opening) (hc : Dialect.Apart closing) (r : Reference) :
    Spells opening closing (r.write opening closing).toList r.tokens := by
  have hpath : Spells opening closing
      (".".intercalate (r.path.map (Dialect.quoteBetween opening closing))).toList
      ([.point].intercalate (r.path.map fun s => [.name s])) := by
    rw [String.toList_intercalate, List.map_map]
    exact .intercalate (separates_point hc) fun s _ => spells_quoteBetween ho s
  obtain ⟨path, aliasName⟩ := r
  cases aliasName with
  | none => exact hpath
  | some aliasName =>
      simp only [Reference.write, Reference.tokens, String.toList_append]
      exact hpath.append_separator (separates_asWord hc) (spells_quoteBetween ho aliasName)

/-- The tokens of references with commas between them. -/
theorem tokens_write (ho : Dialect.Apart opening) (hc : Dialect.Apart closing)
    (items : List Reference) :
    tokens opening closing (", ".intercalate (items.map (·.write opening closing))).toList =
      some ([.comma].intercalate (items.map (·.tokens))) := by
  have hspells : Spells opening closing
      (", ".intercalate (items.map (·.write opening closing))).toList
      ([.comma].intercalate (items.map (·.tokens))) := by
    rw [String.toList_intercalate, List.map_map]
    exact .intercalate (separates_comma hc) fun r _ => spells_write ho hc r
  have hall := hspells [] (Option.some_ne_none closing).symm
  rwa [List.append_nil, tokens, Option.map_some, List.append_nil] at hall

theorem mapM_map_of_forall {α β : Type} {f : α → β} {g : β → Option α} {l : List α}
    (h : ∀ x ∈ l, g (f x) = some x) : (l.map f).mapM g = some l := by
  induction l with
  | nil => rfl
  | cons x l ih =>
      have hl := ih fun y hy => h y (List.mem_cons_of_mem x hy)
      rw [List.map_cons, List.mapM_cons, h x List.mem_cons_self, hl]
      rfl

theorem readPath_intercalate {path : List String} (h : path ≠ []) :
    readPath ([.point].intercalate (path.map fun s => [.name s])) = some path := by
  rw [readPath, List.splitOn_intercalate]
  · exact mapM_map_of_forall fun _ _ => rfl
  · simp
  · simpa using h

theorem not_mem_intercalate {α : Type} {x separator : α} {ls : List (List α)}
    (hx : x ≠ separator) (h : ∀ l ∈ ls, x ∉ l) : x ∉ [separator].intercalate ls := by
  induction ls with
  | nil => exact List.not_mem_nil
  | cons l ls ih =>
      cases ls with
      | nil => simpa using h
      | cons l' ls =>
          rw [List.intercalate_cons_cons]
          simp_all

theorem readItem_tokens {r : Reference} (h : r.path ≠ []) : readItem r.tokens = some r := by
  obtain ⟨path, aliasName⟩ := r
  have hpath : Token.asWord ∉ [Token.point].intercalate (path.map fun s => [.name s]) :=
    not_mem_intercalate (by decide) (by simp)
  cases aliasName with
  | none =>
      rw [readItem, Reference.tokens, List.splitOn_eq_singleton hpath]
      simp only [readPath_intercalate h]
      rfl
  | some aliasName =>
      have hname : Token.asWord ∉ [Token.name aliasName] := by simp
      rw [readItem, Reference.tokens, List.splitOn_append_cons_self_of_not_mem hpath,
        List.splitOn_eq_singleton hname]
      simp only [readPath_intercalate h]
      rfl

theorem comma_not_mem_tokens (r : Reference) : Token.comma ∉ r.tokens := by
  obtain ⟨path, aliasName⟩ := r
  have hpath : Token.comma ∉ [Token.point].intercalate (path.map fun s => [.name s]) :=
    not_mem_intercalate (by decide) (by simp)
  cases aliasName with
  | none => exact hpath
  | some aliasName => simpa [Reference.tokens] using hpath

theorem tokens_ne_nil {r : Reference} (h : r.path ≠ []) : r.tokens ≠ [] := by
  intro hnil
  have hread := readItem_tokens h
  rw [hnil] at hread
  cases hread

theorem readItems_intercalate {items : List Reference} (h : ∀ r ∈ items, r.path ≠ []) :
    readItems ([.comma].intercalate (items.map (·.tokens))) = some items := by
  cases items with
  | nil => rfl
  | cons r items =>
      have hne : [Token.comma].intercalate ((r :: items).map (·.tokens)) ≠ [] := by
        have hr := tokens_ne_nil (h r List.mem_cons_self)
        cases items <;> simp [List.intercalate_cons_cons, hr]
      rw [readItems, List.splitOn_intercalate]
      · exact mapM_map_of_forall fun r' hr' => readItem_tokens (h r' hr')
      · simp [comma_not_mem_tokens]
      · exact List.cons_ne_nil _ _
      · exact hne

/-- References whose paths are not empty are read back from the text that lists them. -/
theorem read_write (ho : Dialect.Apart opening) (hc : Dialect.Apart closing)
    {items : List Reference} (h : ∀ r ∈ items, r.path ≠ []) :
    read opening closing (", ".intercalate (items.map (·.write opening closing))) =
      some items := by
  rw [read, tokens_write ho hc]
  exact readItems_intercalate h

end Quoted

/-! ## Texts of identifiers -/

section

variable {dialect : Dialect} {opening closing : Char}

/-- The text is that of a reference with a path. -/
def Reference.IsWritten (opening closing : Char) (text : String) (r : Reference) : Prop :=
  r.path ≠ [] ∧ text = r.write opening closing

/-- The references are a list whose text this is, and none of them lacks a path. -/
def Reference.AreListed (opening closing : Char) (text : String) (rs : List Reference) : Prop :=
  (∀ r ∈ rs, r.path ≠ []) ∧ text = ", ".intercalate (rs.map (·.write opening closing))

theorem QualifiedName.reference_eq (name : QualifiedName) :
    name.reference = ⟨name.path, name.aliasName⟩ := by
  obtain ⟨_ | _, _ | _, _ | _, _⟩ := name <;> rfl

theorem QualifiedName.path_ne_nil_of_check {name : QualifiedName} (h : name.check = .ok ()) :
    name.path ≠ [] := by
  intro hpath
  rw [check, if_pos hpath] at h
  cases h

theorem QualifiedName.isWritten_of_resolve (hd : dialect.QuotesBetween opening closing)
    {name : QualifiedName} {text : String} (h : name.resolve dialect = .ok text) :
    name.reference.IsWritten opening closing text := by
  rw [resolve, hd.checkName] at h
  obtain ⟨_, hcheck, h⟩ := Except.exists_of_bind_eq_ok h
  cases h
  rw [Reference.IsWritten, reference_eq]
  refine ⟨path_ne_nil_of_check hcheck, ?_⟩
  rw [render, hd.quote]
  rfl

theorem QualifiedName.textField?_of_field {fields : List (String × Json)} {key : String}
    {text : Option String} (h : field fields key = .ok text) :
    Json.textField? fields key = text := by
  rw [Json.textField?]
  rw [field] at h
  cases hlookup : fields.lookup key with
  | none =>
      rw [hlookup] at h
      cases h
      rfl
  | some j =>
      rw [hlookup] at h
      cases j with
      | str s =>
          cases h
          rfl
      | null | bool | num | arr | obj => cases h

/-- The fields of a document are those of the structured name it spells. -/
theorem QualifiedName.reference?_of_ofFields {fields : List (String × Json)}
    {name : QualifiedName} (h : ofFields fields = .ok name) :
    (Json.obj fields).reference? = some name.reference := by
  obtain ⟨schema, hschema, h⟩ := Except.exists_of_bind_eq_ok h
  obtain ⟨table, htable, h⟩ := Except.exists_of_bind_eq_ok h
  obtain ⟨column, hcolumn, h⟩ := Except.exists_of_bind_eq_ok h
  obtain ⟨aliasName, halias, h⟩ := Except.exists_of_bind_eq_ok h
  cases h
  rw [Json.reference?, textField?_of_field halias]
  simp only [List.filterMap_cons, textField?_of_field hschema, textField?_of_field htable,
    textField?_of_field hcolumn, List.filterMap_nil]
  cases schema <;> cases table <;> cases column <;> rfl

theorem Json.isWritten_of_resolve (hd : dialect.QuotesBetween opening closing) {j : Json}
    {text : String} (h : Identifier.resolveJson dialect j = .ok text) :
    ∃ r, j.reference? = some r ∧ r.IsWritten opening closing text := by
  cases j with
  | str s =>
      cases h
      refine ⟨⟨[s], none⟩, rfl, List.cons_ne_nil _ _, ?_⟩
      rw [hd.quote]
      rfl
  | obj fields =>
      obtain ⟨name, hname, h⟩ := Except.exists_of_bind_eq_ok h
      exact ⟨_, QualifiedName.reference?_of_ofFields hname, QualifiedName.isWritten_of_resolve hd h⟩
  | null | bool | num | arr => cases h

theorem Identifier.isWritten_of_resolveSingle (hd : dialect.QuotesBetween opening closing)
    {i : Identifier} {text : String} (h : i.resolveSingle dialect = .ok text) :
    ∃ r, i.reference? = some r ∧ r.IsWritten opening closing text := by
  cases i with
  | name s =>
      cases h
      refine ⟨⟨[s], none⟩, rfl, List.cons_ne_nil _ _, ?_⟩
      rw [hd.quote]
      rfl
  | qualified name => exact ⟨_, rfl, QualifiedName.isWritten_of_resolve hd h⟩
  | json j => exact Json.isWritten_of_resolve hd h
  | list items => cases h

section

variable {α : Type} {resolve : α → Except TemplateError String} {reference? : α → Option Reference}
  {items : List α}

theorem Identifier.isWritten_of_mapM {texts : List String}
    (hitem : ∀ x t, resolve x = .ok t →
      ∃ r, reference? x = some r ∧ r.IsWritten opening closing t)
    (h : items.mapM resolve = .ok texts) :
    ∃ rs, items.mapM reference? = some rs ∧ (∀ r ∈ rs, r.path ≠ []) ∧
      texts = rs.map (·.write opening closing) := by
  have htexts := Except.forall₂_of_mapM h
  clear h
  induction htexts with
  | nil => exact ⟨[], rfl, by simp, rfl⟩
  | cons hx _ ih =>
      obtain ⟨r, hr, hne, rfl⟩ := hitem _ _ hx
      obtain ⟨rs, hrs, hpath, rfl⟩ := ih
      refine ⟨r :: rs, ?_, ?_, rfl⟩
      · rw [List.mapM_cons, hr, hrs]
        rfl
      · simpa using ⟨hne, hpath⟩

theorem Identifier.areListed_of_joinItems {text : String}
    (hitem : ∀ x t, resolve x = .ok t →
      ∃ r, reference? x = some r ∧ r.IsWritten opening closing t)
    (h : joinItems (items.map resolve) = .ok text) :
    ∃ rs, items.mapM reference? = some rs ∧ Reference.AreListed opening closing text rs := by
  obtain ⟨texts, htexts, h⟩ := Except.exists_of_bind_eq_ok h
  cases h
  rw [List.mapM_map, Function.id_comp] at htexts
  obtain ⟨rs, hrs, hpath, rfl⟩ := isWritten_of_mapM hitem htexts
  exact ⟨rs, hrs, hpath, rfl⟩

end

theorem Reference.IsWritten.areListed {text : String} {r : Reference}
    (h : r.IsWritten opening closing text) : AreListed opening closing text [r] := by
  refine ⟨?_, ?_⟩
  · simpa using h.1
  · rw [h.2, List.map_singleton, String.intercalate_singleton]

theorem Identifier.areListed_of_resolve (hd : dialect.QuotesBetween opening closing)
    {i : Identifier} {text : String} (h : i.resolve dialect = .ok text) :
    ∃ rs, i.references? = some rs ∧ Reference.AreListed opening closing text rs := by
  have hsingle (hi : i.resolveSingle dialect = .ok text) :
      ∃ rs, i.reference?.map ([·]) = some rs ∧ Reference.AreListed opening closing text rs := by
    obtain ⟨r, hr, hwritten⟩ := isWritten_of_resolveSingle hd hi
    exact ⟨[r], by rw [hr, Option.map_some], hwritten.areListed⟩
  cases i with
  | name s => exact hsingle h
  | qualified name => exact hsingle h
  | list items => exact areListed_of_joinItems (fun _ _ => isWritten_of_resolveSingle hd) h
  | json j =>
      cases j with
      | arr items => exact areListed_of_joinItems (fun _ _ => Json.isWritten_of_resolve hd) h
      | null | bool | num | str | obj => exact hsingle h

/-- The text of an identifier is read back as what its items refer to, one reference for each item
in order, with the parts of its path from the outermost and its alias, and nothing of the text is
left. -/
theorem read_resolve {i : Identifier} {text : String}
    (hd : (dialect, opening, closing) ∈ Dialect.quotes) (h : i.resolve dialect = .ok text) :
    ∃ items, i.references? = some items ∧ Quoted.read opening closing text = some items := by
  have hquotes := Dialect.quotesBetween_of_mem hd
  obtain ⟨items, hitems, hpath, rfl⟩ := i.areListed_of_resolve hquotes h
  exact ⟨items, hitems, Quoted.read_write hquotes.opening_apart hquotes.closing_apart hpath⟩

/-- A list of names with quotes and separators inside. -/
def hostile : Identifier :=
  .list [.name "a], [b",
    .qualified { schema := some "", table := some "].[", column := none, aliasName := some " as " },
    .json (.obj [("as", .str ""), ("column", .str ", ")])]

theorem read_resolve_hostile :
    hostile.resolve .mssql = .ok "[a]], [b], [].[]].[] as [ as ], [, ] as []" ∧
    Quoted.read '[' ']' "[a]], [b], [].[]].[] as [ as ], [, ] as []" =
      some [⟨["a], [b"], none⟩, ⟨["", "].["], some " as "⟩, ⟨[", "], some ""⟩] := by
  have htext : hostile.resolve .mssql = .ok "[a]], [b], [].[]].[] as [ as ], [, ] as []" := by
    cbv
  have hitems : hostile.references? =
      some [⟨["a], [b"], none⟩, ⟨["", "].["], some " as "⟩, ⟨[", "], some ""⟩] := rfl
  obtain ⟨items, hreferences, hread⟩ :=
    read_resolve (.tail _ (.tail _ (.tail _ (.head _)))) htext
  rw [hitems] at hreferences
  cases hreferences
  exact ⟨htext, hread⟩

end

end PooledSql
