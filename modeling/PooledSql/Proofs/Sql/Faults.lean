import PooledSql.Proofs.Sql.Binding
import PooledSql.Proofs.Sql.Composition

/-!
# Faults

Whatever is wrong with the arguments of a fragment is found when it is built: batches in
particular are checked before they are added, and nothing adds an unchecked one. So all that can
go wrong when a built fragment is compiled is an identifier that does not resolve, and since the
dialects allow the same structured names, it goes wrong in all of them in the same way.
-/

namespace PooledSql

/-! ## Identifiers -/

/-- The error is about an identifier. -/
def TemplateError.isIdentifier : TemplateError → Bool
  | .identifierUndefinedField _ | .identifierFieldType _ _ | .identifierEmpty
  | .identifierNeedTable | .identifierOnlyAs | .identifierAliasTarget
  | .identifierNestedArray | .identifierInvalid _ => true
  | _ => false

/-- The dialects of this library allow the same structured names. -/
theorem Dialect.checkName_of_mem_shipped {dialect : Dialect} (h : dialect ∈ shipped) :
    dialect.checkName = QualifiedName.check := by
  simp only [shipped, List.mem_cons, List.not_mem_nil, or_false] at h
  obtain rfl | rfl | rfl | rfl := h <;> rfl

namespace QualifiedName

variable {name : QualifiedName} {e : TemplateError}

theorem isIdentifier_of_check (h : name.check = .error e) : e.isIdentifier = true := by
  rw [check] at h
  split_ifs at h <;>
    · cases h
      rfl

theorem isIdentifier_of_field {fields : List (String × Json)} {key : String}
    (h : field fields key = .error e) : e.isIdentifier = true := by
  rw [field] at h
  split at h
  · cases h
  · cases h
    rfl
  · cases h
  · cases h
    rfl

theorem isIdentifier_of_ofFields {fields : List (String × Json)}
    (h : ofFields fields = .error e) : e.isIdentifier = true := by
  obtain h | ⟨_, -, h⟩ := Except.eq_error_of_bind h
  · exact isIdentifier_of_field h
  obtain h | ⟨_, -, h⟩ := Except.eq_error_of_bind h
  · exact isIdentifier_of_field h
  obtain h | ⟨_, -, h⟩ := Except.eq_error_of_bind h
  · exact isIdentifier_of_field h
  · exact isIdentifier_of_field (Except.eq_error_of_map h)

end QualifiedName

namespace Identifier

variable {dialect other : Dialect} {e : TemplateError}

/-! ### The errors of a dialect -/

section

variable (hd : dialect ∈ Dialect.shipped)

include hd

theorem isIdentifier_of_resolveName {name : QualifiedName}
    (h : name.resolve dialect = .error e) : e.isIdentifier = true := by
  have hcheck := Except.eq_error_of_map h
  rw [Dialect.checkName_of_mem_shipped hd] at hcheck
  exact QualifiedName.isIdentifier_of_check hcheck

theorem isIdentifier_of_resolveJson {j : Json} (h : resolveJson dialect j = .error e) :
    e.isIdentifier = true := by
  cases j with
  | str s => cases h
  | obj fields =>
      obtain h | ⟨name, -, h⟩ := Except.eq_error_of_bind h
      · exact QualifiedName.isIdentifier_of_ofFields h
      · exact isIdentifier_of_resolveName hd h
  | _ =>
      cases h
      rfl

theorem isIdentifier_of_resolveSingle {i : Identifier}
    (h : resolveSingle dialect i = .error e) : e.isIdentifier = true := by
  cases i with
  | name s => cases h
  | qualified path => exact isIdentifier_of_resolveName hd h
  | list items =>
      cases h
      rfl
  | json j => exact isIdentifier_of_resolveJson hd h

end

/-- A list is at fault for one of its items. -/
theorem exists_of_joinItems {α : Type} {r : α → Except TemplateError String} {items : List α}
    (h : joinItems (items.map r) = .error e) : ∃ item ∈ items, r item = .error e := by
  obtain ⟨before, x, after, heq, hx, -⟩ := Except.mapM_eq_error_iff.1 (Except.eq_error_of_map h)
  have hmem : x ∈ items.map r := heq ▸ List.mem_append_right before List.mem_cons_self
  obtain ⟨item, hitem, rfl⟩ := List.mem_map.1 hmem
  exact ⟨item, hitem, hx⟩

/-- An identifier that does not resolve has an error about identifiers. -/
theorem isIdentifier_of_resolve (hd : dialect ∈ Dialect.shipped) {i : Identifier}
    (h : i.resolve dialect = .error e) : e.isIdentifier = true := by
  rw [resolve.eq_def] at h
  split at h
  · obtain ⟨item, -, hitem⟩ := exists_of_joinItems h
    exact isIdentifier_of_resolveSingle hd hitem
  · obtain ⟨item, -, hitem⟩ := exists_of_joinItems h
    exact isIdentifier_of_resolveJson hd hitem
  · exact isIdentifier_of_resolveSingle hd h

/-! ### The errors of two dialects -/

section

variable (hcheck : dialect.checkName = other.checkName)

include hcheck

theorem sameError_resolveName (name : QualifiedName) :
    Except.SameError (name.resolve dialect) (name.resolve other) := by
  rw [QualifiedName.resolve, QualifiedName.resolve, hcheck]
  exact .bind _ fun _ e => iff_of_false Except.ok_ne_error Except.ok_ne_error

theorem sameError_resolveJson (j : Json) :
    Except.SameError (resolveJson dialect j) (resolveJson other j) := by
  cases j with
  | str s => exact fun e => iff_of_false Except.ok_ne_error Except.ok_ne_error
  | obj fields => exact .bind _ fun name => sameError_resolveName hcheck name
  | _ => exact fun e => Iff.rfl

theorem sameError_resolveSingle (i : Identifier) :
    Except.SameError (resolveSingle dialect i) (resolveSingle other i) := by
  cases i with
  | name s => exact fun e => iff_of_false Except.ok_ne_error Except.ok_ne_error
  | qualified path => exact sameError_resolveName hcheck path
  | list items => exact fun e => Iff.rfl
  | json j => exact sameError_resolveJson hcheck j

end

theorem sameError_joinItems {α : Type} {r r' : α → Except TemplateError String}
    (h : ∀ item, Except.SameError (r item) (r' item)) (items : List α) :
    Except.SameError (joinItems (items.map r)) (joinItems (items.map r')) := by
  rw [joinItems, joinItems, List.mapM_map, List.mapM_map]
  exact (Except.SameError.mapM fun item _ => h item).map _ _

/-- Dialects that allow the same structured names find the same fault in an identifier. -/
theorem sameError_resolve (hcheck : dialect.checkName = other.checkName) (i : Identifier) :
    Except.SameError (i.resolve dialect) (i.resolve other) := by
  have hsingle := sameError_resolveSingle hcheck i
  cases i with
  | list items => exact sameError_joinItems (sameError_resolveSingle hcheck) items
  | json j =>
      cases j with
      | arr items => exact sameError_joinItems (sameError_resolveJson hcheck) items
      | _ => exact hsingle
  | _ => exact hsingle

end Identifier

/-! ## Batches -/

namespace Batch

/-- There is a row, all rows are as long as the first, which is not empty, and every item is a
value, raw text or a default. -/
def IsTable (batch : List (List Arg)) : Prop :=
  ∃ first rest, batch = first :: rest ∧ first ≠ [] ∧
    ∀ row ∈ batch, row.length = first.length ∧ ∀ item ∈ row, item.IsItem

theorem checkItems_of_isItem {items : List Arg} (h : ∀ item ∈ items, item.IsItem)
    (row column : Nat) : checkItems row column items = .ok () := by
  induction items generalizing column with
  | nil => rfl
  | cons item rest ih =>
      obtain ⟨hitem, hrest⟩ := List.forall_mem_cons.1 h
      have hcheck : checkItem row column item = .ok () := by cases hitem <;> rfl
      rw [checkItems, hcheck]
      exact ih hrest (column + 1)

theorem checkRows_eq_ok_iff {expected row : Nat} {batch : List (List Arg)} :
    checkRows expected row batch = .ok () ↔
      ∀ items ∈ batch, items ≠ [] ∧ items.length = expected ∧ ∀ item ∈ items, item.IsItem := by
  induction batch generalizing row with
  | nil => exact ⟨fun _ => List.forall_mem_nil _, fun _ => rfl⟩
  | cons items rest ih =>
      rw [List.forall_mem_cons, checkRows, ← @ih (row + 1)]
      by_cases hempty : items = []
      · subst hempty
        exact iff_of_false Except.error_ne_ok fun h => h.1.1 rfl
      rw [if_neg (mt List.isEmpty_iff.1 hempty)]
      by_cases hlength : items.length = expected
      · rw [if_neg (not_not_intro hlength)]
        constructor
        · intro h
          obtain ⟨_, hitems, hrest⟩ := Except.exists_of_bind_eq_ok h
          exact ⟨⟨hempty, hlength, isItem_of_checkItems hitems⟩, hrest⟩
        · rintro ⟨⟨-, -, hitems⟩, hrest⟩
          rw [checkItems_of_isItem hitems]
          exact hrest
      · rw [if_pos hlength]
        exact iff_of_false Except.error_ne_ok fun h => hlength h.1.2.1

/-- The check accepts tables and nothing else. -/
theorem check_eq_ok_iff {batch : List (List Arg)} : check batch = .ok () ↔ IsTable batch := by
  cases batch with
  | nil =>
      refine iff_of_false Except.error_ne_ok ?_
      rintro ⟨_, _, h, -⟩
      cases h
  | cons first rest =>
      rw [check, checkRows_eq_ok_iff]
      constructor
      · intro h
        exact ⟨first, rest, rfl, (h first List.mem_cons_self).1, fun row hrow => (h row hrow).2⟩
      · rintro ⟨_, _, ⟨⟩, hfirst, hrows⟩ row hrow
        obtain ⟨hlength, hitems⟩ := hrows row hrow
        refine ⟨?_, hlength, hitems⟩
        rintro rfl
        exact hfirst (List.length_eq_zero_iff.1 hlength.symm)

end Batch

/-! ## What may be put into a template -/

/-- Everything may be put into a template but what is missing or has no meaning, and batches that
are no tables. -/
inductive Arg.Fits : Arg → Prop where
  | value (v : Value) : Fits (.value v)
  | chunk {c : Chunk} (h : ∀ batch, c = .values batch → Batch.IsTable batch) : Fits (.chunk c)
  | fragment (chunks : List Chunk) : Fits (.fragment chunks)

theorem Arg.fits_values_iff {batch : List (List Arg)} :
    (Arg.chunk (.values batch)).Fits ↔ Batch.IsTable batch := by
  constructor
  · intro h
    cases h with
    | chunk h => exact h batch rfl
  · intro h
    refine .chunk ?_
    rintro _ ⟨⟩
    exact h

namespace Fragment

theorem exists_pushArg_iff {f : Fragment} {arg : Arg} :
    (∃ g, f.pushArg arg = .ok g) ↔ arg.Fits := by
  cases arg with
  | value v => exact ⟨fun _ => .value v, fun _ => ⟨_, rfl⟩⟩
  | chunk c =>
      cases c with
      | values batch =>
          rw [Arg.fits_values_iff, ← Batch.check_eq_ok_iff, pushArg]
          constructor
          · rintro ⟨g, h⟩
            obtain ⟨_, hcheck, -⟩ := Except.exists_of_bind_eq_ok h
            exact hcheck
          · intro hcheck
            rw [hcheck]
            exact ⟨_, rfl⟩
      | _ => exact ⟨fun _ => .chunk (by rintro _ ⟨⟩), fun _ => ⟨_, rfl⟩⟩
  | fragment chunks => exact ⟨fun _ => .fragment chunks, fun _ => ⟨_, rfl⟩⟩
  | _ =>
      constructor
      · rintro ⟨_, h⟩
        cases h
      · rintro ⟨⟩

theorem exists_pushPairs_iff {f : Fragment} {pairs : List (Arg × String)} :
    (∃ g, f.pushPairs pairs = .ok g) ↔ ∀ pair ∈ pairs, pair.1.Fits := by
  induction pairs generalizing f with
  | nil => exact ⟨fun _ => List.forall_mem_nil _, fun _ => ⟨f, rfl⟩⟩
  | cons pair pairs ih =>
      obtain ⟨arg, s⟩ := pair
      rw [List.forall_mem_cons, pushPairs, ← exists_pushArg_iff (f := f)]
      constructor
      · rintro ⟨g, h⟩
        obtain ⟨f', hpush, h⟩ := Except.exists_of_bind_eq_ok h
        exact ⟨⟨f', hpush⟩, ih.1 ⟨g, h⟩⟩
      · rintro ⟨⟨f', hpush⟩, hpairs⟩
        rw [hpush]
        exact ih.2 hpairs

/-- Literal strings and arguments make a fragment if there is one string more than arguments and
every argument fits. -/
theorem exists_interleave_iff {strings : List String} {args : List Arg} :
    (∃ f, interleave strings args = .ok f) ↔
      strings.length = args.length + 1 ∧ ∀ arg ∈ args, arg.Fits := by
  cases strings with
  | nil =>
      constructor
      · rintro ⟨_, h⟩
        cases h
      · rintro ⟨h, -⟩
        cases h
  | cons first rest =>
      rw [interleave, List.length_cons, Nat.succ_inj]
      by_cases hlength : rest.length = args.length
      · have hargs : (args.zip rest).map (·.1) = args :=
          List.map_fst_zip (Nat.le_of_eq hlength.symm)
        rw [if_neg (not_not_intro hlength), exists_pushPairs_iff, and_iff_right hlength]
        conv_rhs => rw [← hargs]
        exact List.forall_mem_map.symm
      · rw [if_pos hlength]
        refine iff_of_false ?_ (hlength ·.1)
        rintro ⟨_, h⟩
        cases h

end Fragment

/-! ## Checked chunks -/

/-- If the chunk is a batch, the batch was checked. -/
def Chunk.Checked (c : Chunk) : Prop := ∀ batch, c = .values batch → Batch.check batch = .ok ()

theorem Chunk.checked_text (s : String) : (Chunk.text s).Checked := nofun

namespace Chunk

variable {dialect : Dialect} {c : Chunk}

/-- Only an identifier keeps a checked chunk from being laid out. -/
theorem Checked.layout_eq_error_iff (h : c.Checked) {e : TemplateError} :
    c.layout dialect = .error e ↔ ∃ i, c = .identifier i ∧ i.resolve dialect = .error e := by
  cases c with
  | identifier i =>
      constructor
      · intro hlayout
        exact ⟨i, rfl, Except.eq_error_of_map hlayout⟩
      · rintro ⟨_, ⟨⟩, hi⟩
        rw [layout, hi]
        rfl
  | values batch =>
      rw [layout, h batch rfl]
      refine iff_of_false Except.ok_ne_error ?_
      rintro ⟨_, h, -⟩
      cases h
  | _ =>
      refine iff_of_false Except.ok_ne_error ?_
      rintro ⟨_, h, -⟩
      cases h

theorem Checked.exists_layout_iff (h : c.Checked) :
    (∃ pieces, c.layout dialect = .ok pieces) ↔
      ∀ i, c = .identifier i → ∃ s, i.resolve dialect = .ok s := by
  simp only [Except.exists_eq_ok_iff, ne_eq, h.layout_eq_error_iff, not_exists, not_and]
  exact ⟨fun h i hc e => h e i hc, fun h e i hc => h i hc e⟩

end Chunk

namespace Fragment

/-- All batches of the fragment were checked. -/
def Checked (f : Fragment) : Prop := ∀ c ∈ f.chunks, c.Checked

variable {f g : Fragment}

theorem Checked.pushText (hf : f.Checked) (s : String) : (f.pushText s).Checked := by
  obtain ⟨chunks⟩ := f
  change ∀ c ∈ addText s chunks, c.Checked
  change ∀ c ∈ chunks, c.Checked at hf
  induction chunks using last_text_induction with
  | nil =>
      rw [addText]
      split_ifs
      · exact hf
      · exact List.forall_mem_singleton.2 (Chunk.checked_text s)
  | text t => exact List.forall_mem_singleton.2 (Chunk.checked_text _)
  | cons c chunks h ih =>
      obtain ⟨hc, hchunks⟩ := List.forall_mem_cons.1 hf
      rw [addText_cons h]
      exact List.forall_mem_cons.2 ⟨hc, ih hchunks⟩

theorem Checked.pushChunk (hf : f.Checked) {c : Chunk} (hc : c.Checked) :
    (f.pushChunk c).Checked := by
  cases c with
  | text s => exact hf.pushText s
  | _ => exact List.forall_mem_append.2 ⟨hf, List.forall_mem_singleton.2 hc⟩

theorem Checked.append (hf : f.Checked) (hg : g.Checked) : (f ++ g).Checked := by
  obtain ⟨chunks⟩ := g
  induction chunks generalizing f with
  | nil => exact hf
  | cons c chunks ih =>
      obtain ⟨hc, hchunks⟩ := List.forall_mem_cons.1 hg
      exact ih (hf.pushChunk hc) hchunks

theorem Checked.pushArg (hf : f.Checked) {arg : Arg}
    (hnested : ∀ chunks, arg = .fragment chunks → (⟨chunks⟩ : Fragment).Checked)
    (h : f.pushArg arg = .ok g) : g.Checked := by
  cases arg with
  | value v =>
      cases h
      exact hf.pushChunk (by rintro _ ⟨⟩)
  | chunk c =>
      cases c with
      | values batch =>
          obtain ⟨_, hcheck, h⟩ := Except.exists_of_bind_eq_ok h
          cases h
          refine hf.pushChunk ?_
          rintro _ ⟨⟩
          exact hcheck
      | _ =>
          cases h
          exact hf.pushChunk (by rintro _ ⟨⟩)
  | fragment chunks =>
      cases h
      exact hf.append (hnested chunks rfl)
  | undefined | unsupported => cases h

theorem Checked.pushPairs (hf : f.Checked) {args : List Arg} {strings : List String}
    (hnested : ∀ arg ∈ args, ∀ chunks, arg = .fragment chunks → (⟨chunks⟩ : Fragment).Checked)
    (h : f.pushPairs (args.zip strings) = .ok g) : g.Checked := by
  induction args generalizing strings f with
  | nil =>
      cases h
      exact hf
  | cons arg args ih =>
      cases strings with
      | nil =>
          cases h
          exact hf
      | cons s strings =>
          obtain ⟨harg, hargs⟩ := List.forall_mem_cons.1 hnested
          obtain ⟨f', hpush, h⟩ := Except.exists_of_bind_eq_ok h
          exact ih ((hf.pushArg harg hpush).pushText s) hargs h

theorem Checked.of_interleave {args : List Arg} {strings : List String}
    (hnested : ∀ arg ∈ args, ∀ chunks, arg = .fragment chunks → (⟨chunks⟩ : Fragment).Checked)
    (h : interleave strings args = .ok f) : f.Checked := by
  cases strings with
  | nil => cases h
  | cons first strings =>
      rw [interleave] at h
      split_ifs at h
      exact Checked.pushPairs (Checked.pushText (List.forall_mem_nil _) first) hnested h

theorem Checked.joinOnto (hf : f.Checked) {rest : List Fragment}
    (hrest : ∀ g ∈ rest, g.Checked) (separator : String) :
    (joinOnto separator f rest).Checked := by
  induction rest generalizing f with
  | nil => exact hf
  | cons g rest ih =>
      obtain ⟨hg, hrest⟩ := List.forall_mem_cons.1 hrest
      exact ih ((hf.pushText separator).append hg) hrest

/-- However a fragment is built, its batches were checked. -/
theorem Built.checked {pieces : List Chunk} (h : Built f pieces) : f.Checked := by
  induction h with
  | empty => exact List.forall_mem_nil _
  | literal s => exact Checked.pushText (List.forall_mem_nil _) s
  | append hf hg ihf ihg => exact ihf.append ihg
  | join separator hparts ih =>
      rename_i parts
      cases parts with
      | nil => exact List.forall_mem_nil _
      | cons first rest =>
          obtain ⟨hfirst, hrest⟩ := List.forall_mem_cons.1 ih
          exact Checked.joinOnto (Checked.append (List.forall_mem_nil _) hfirst)
            (List.forall_mem_map.2 hrest) separator
  | interleave hplain hnested h ih => exact Checked.of_interleave (List.forall_mem_map.2 ih) h
  | format hsplit hplain hnested h ih =>
      rw [Fragment.format, hsplit] at h
      exact Checked.of_interleave (List.forall_mem_map.2 ih) h

/-! ## Compiling -/

/-- The first identifier of the fragment that does not resolve has this error. -/
def FirstFault (f : Fragment) (dialect : Dialect) (e : TemplateError) : Prop :=
  ∃ before i after, f.chunks = before ++ .identifier i :: after ∧
    i.resolve dialect = .error e ∧
    ∀ j, .identifier j ∈ before → ∃ s, j.resolve dialect = .ok s

variable {dialect other : Dialect}

theorem Checked.layout_eq_error_iff (hf : f.Checked) {e : TemplateError} :
    f.layout dialect = .error e ↔ f.FirstFault dialect e := by
  rw [layout, Except.mapM_eq_error_iff]
  constructor
  · rintro ⟨before, c, after, heq, hc, hbefore⟩
    rw [Checked, heq] at hf
    obtain ⟨hchecked, hrest⟩ := List.forall_mem_append.1 hf
    obtain ⟨i, rfl, hi⟩ := (hrest c List.mem_cons_self).layout_eq_error_iff.1 hc
    refine ⟨before, i, after, heq, hi, fun j hj => ?_⟩
    exact (hchecked _ hj).exists_layout_iff.1 (hbefore _ hj) j rfl
  · rintro ⟨before, i, after, heq, hi, hbefore⟩
    rw [Checked, heq] at hf
    obtain ⟨hchecked, hrest⟩ := List.forall_mem_append.1 hf
    refine ⟨before, .identifier i, after, heq, ?_, fun c hc => ?_⟩
    · exact (hrest _ List.mem_cons_self).layout_eq_error_iff.2 ⟨i, rfl, hi⟩
    · refine (hchecked c hc).exists_layout_iff.2 ?_
      rintro j rfl
      exact hbefore j hc

/-- A checked fragment fails to compile for its first identifier at fault. -/
theorem Checked.compile_eq_error_iff (hf : f.Checked) (hd : dialect ∈ Dialect.shipped)
    {e : TemplateError} : f.compile dialect = .error e ↔ f.FirstFault dialect e := by
  obtain ⟨convert, hbinds⟩ := Dialect.binds_of_mem_shipped hd
  rw [compile_eq hbinds, ← hf.layout_eq_error_iff]
  constructor
  · exact Except.eq_error_of_map
  · intro h
    rw [h]
    rfl

theorem FirstFault.isIdentifier {e : TemplateError} (h : f.FirstFault dialect e)
    (hd : dialect ∈ Dialect.shipped) : e.isIdentifier = true := by
  obtain ⟨_, _, _, -, hi, -⟩ := h
  exact Identifier.isIdentifier_of_resolve hd hi

theorem FirstFault.of_checkName {e : TemplateError} (h : f.FirstFault dialect e)
    (hcheck : dialect.checkName = other.checkName) : f.FirstFault other e := by
  obtain ⟨before, i, after, heq, hi, hbefore⟩ := h
  refine ⟨before, i, after, heq, (Identifier.sameError_resolve hcheck i e).1 hi, fun j hj => ?_⟩
  have hj := hbefore j hj
  rw [Except.exists_eq_ok_iff] at hj ⊢
  exact fun e' => mt (Identifier.sameError_resolve hcheck j e').2 (hj e')

/-- A fragment that was built fails to compile exactly for the first of its identifiers that does
not resolve, with an error about identifiers, which is the same in all dialects; without
identifiers it compiles in all of them. Everything else is settled when it is built: with one
literal string more than arguments it succeeds if every argument fits, and a batch fits if it is a
table. -/
theorem fails_only_by_identifier :
    (∀ f pieces, Built f pieces →
      (∀ dialect ∈ Dialect.shipped, ∀ e,
        (f.compile dialect = .error e ↔ f.FirstFault dialect e) ∧
        (f.compile dialect = .error e → e.isIdentifier = true)) ∧
      (∀ dialect ∈ Dialect.shipped, ∀ other ∈ Dialect.shipped,
        Except.SameError (f.compile dialect) (f.compile other)) ∧
      ((∀ i, .identifier i ∉ f.chunks) →
        ∀ dialect ∈ Dialect.shipped, ∃ statement, f.compile dialect = .ok statement)) ∧
    (∀ strings args, (∃ f, interleave strings args = .ok f) ↔
      strings.length = args.length + 1 ∧ ∀ arg ∈ args, arg.Fits) ∧
    (∀ template args, (∃ f, format template args = .ok f) ↔
      ∃ strings, Template.split template = .ok strings ∧
        strings.length = args.length + 1 ∧ ∀ arg ∈ args, arg.Fits) ∧
    ∀ batch, (Arg.chunk (.values batch)).Fits ↔ Batch.IsTable batch := by
  refine ⟨fun f pieces hbuilt => ?_, fun _ _ => exists_interleave_iff, fun template args => ?_,
    fun _ => Arg.fits_values_iff⟩
  · have hfails {dialect : Dialect} (hd : dialect ∈ Dialect.shipped) {e : TemplateError} :
        f.compile dialect = .error e ↔ f.FirstFault dialect e :=
      hbuilt.checked.compile_eq_error_iff hd
    refine ⟨fun dialect hd e => ⟨hfails hd, fun h => ((hfails hd).1 h).isIdentifier hd⟩,
      fun dialect hd other ho e => ?_, fun hnone dialect hd => ?_⟩
    · have hcheck : dialect.checkName = other.checkName :=
        (Dialect.checkName_of_mem_shipped hd).trans (Dialect.checkName_of_mem_shipped ho).symm
      rw [hfails hd, hfails ho]
      exact ⟨(·.of_checkName hcheck), (·.of_checkName hcheck.symm)⟩
    · refine Except.exists_eq_ok_iff.2 fun e he => ?_
      obtain ⟨before, i, after, heq, -⟩ := (hfails hd).1 he
      exact hnone i (heq ▸ List.mem_append_right before List.mem_cons_self)
  · rw [format]
    constructor
    · rintro ⟨f, h⟩
      obtain ⟨strings, hsplit, h⟩ := Except.exists_of_bind_eq_ok h
      exact ⟨strings, hsplit, exists_interleave_iff.1 ⟨f, h⟩⟩
    · rintro ⟨strings, hsplit, h⟩
      rw [hsplit]
      exact exists_interleave_iff.2 h

/-- A table between two identifiers that do not resolve. -/
def misnamed : List Chunk :=
  [.identifier (.qualified ⟨some "s", none, some "c", none⟩),
    .values [[.value (.int 1), .chunk .default]], .identifier (.json .null)]

theorem fails_only_by_identifier_misnamed :
    ∃ f, format "into \x7b\x7d values \x7b\x7d returning \x7b\x7d" (misnamed.map .chunk) = .ok f ∧
      ∀ dialect ∈ Dialect.shipped, f.compile dialect = .error .identifierNeedTable := by
  have hsplit : Template.split "into \x7b\x7d values \x7b\x7d returning \x7b\x7d" =
      .ok ["into ", " values ", " returning ", ""] := by cbv
  obtain ⟨hbuilt, -, hformat, hfits⟩ := fails_only_by_identifier
  have hargs : ∀ arg ∈ misnamed.map Arg.chunk, arg.Fits := by
    have htable : Batch.IsTable [[.value (.int 1), .chunk .default]] :=
      Batch.check_eq_ok_iff.1 rfl
    simp only [misnamed, List.map_cons, List.map_nil, List.forall_mem_cons, List.not_mem_nil,
      false_imp_iff, implies_true, and_true]
    exact ⟨.chunk (by rintro _ ⟨⟩), (hfits _).2 htable, .chunk (by rintro _ ⟨⟩)⟩
  obtain ⟨f, hf⟩ := (hformat _ _).2 ⟨_, hsplit, rfl, hargs⟩
  have hpieces : Built f
      (lay ["into ", " values ", " returning ", ""] (misnamed.map fun c => [c])) := by
    have hf : format _ ((misnamed.map fun c => (Arg.chunk c, [c])).map (·.1)) = .ok f := hf
    exact Built.format hsplit (by simp [Arg.piece?]) (by simp) hf
  refine ⟨f, hf, fun dialect hd => ?_⟩
  obtain ⟨-, hsame, -⟩ := hbuilt f _ hpieces
  refine (hsame .postgres (.head _) dialect hd _).1 ?_
  rw [hpieces.eq_normalize]
  cbv

end Fragment

end PooledSql
