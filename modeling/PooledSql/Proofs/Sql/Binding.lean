import PooledSql.Proofs.Sql.Layout
import PooledSql.Proofs.Sql.Results

/-!
# Binding

The dialects of this library bind the items of batches by converting them. So a compiled statement
has its placeholders and parameters in line, and bound values have no part in its text: fragments
that are alike but for their values are refused for the same reason or become the same query.
-/

namespace PooledSql

namespace Dialect

/-- The dialects and what they convert the items of batches to. -/
def conversions : List (Dialect × (Value → Value)) :=
  [(postgres, id), (mysql, jsonAsText), (sqlite, sqliteItem), (mssql, jsonAsText)]

theorem map_fst_conversions : conversions.map (·.1) = shipped := rfl

theorem binds_of_mem {dialect : Dialect} {convert : Value → Value}
    (h : (dialect, convert) ∈ conversions) : dialect.Binds convert := by
  simp only [conversions, List.mem_cons, Prod.mk.injEq, List.not_mem_nil, or_false] at h
  obtain ⟨rfl, rfl⟩ | ⟨rfl, rfl⟩ | ⟨rfl, rfl⟩ | ⟨rfl, rfl⟩ := h <;> exact fun _ _ => rfl

theorem binds_of_mem_shipped {dialect : Dialect} (h : dialect ∈ shipped) :
    ∃ convert, dialect.Binds convert := by
  rw [← map_fst_conversions] at h
  obtain ⟨⟨dialect, convert⟩, hmem, rfl⟩ := List.mem_map.1 h
  exact ⟨convert, binds_of_mem hmem⟩

end Dialect

/-! ## In line -/

variable {dialect : Dialect} {convert : Value → Value}

theorem Fragment.length_bound {f : Fragment} {layouts : List (List Piece)}
    (h : f.layout dialect = .ok layouts) (convert : Value → Value) :
    (f.bound convert).length = Piece.holes layouts.flatten := by
  have hchunks := Except.forall₂_of_mapM h
  rw [bound]
  clear h
  generalize f.chunks = chunks at hchunks
  induction hchunks with
  | nil => rfl
  | cons hc _ ih =>
      rw [List.flatMap_cons, List.length_append, List.flatten_cons, Piece.holes_append,
        Chunk.holes_of_layout hc, ih]

/-- The parameters of a compiled statement are the values of its chunks in order, each bound once:
a value as it is, the values of a batch row by row as the dialect converts them. The query is made
of the layouts of the chunks, with as many holes as there are parameters, and the hole of each
parameter is filled with the placeholder that has its number. -/
theorem compile_in_line {f : Fragment} {statement : CompiledQuery}
    (hd : (dialect, convert) ∈ Dialect.conversions) (h : f.compile dialect = .ok statement) :
    statement.params = f.chunks.flatMap (·.bound convert) ∧
      ∃ layouts, statement.query = Piece.fill dialect 0 layouts.flatten ∧
        List.Forall₂ (fun c pieces => c.layout dialect = .ok pieces ∧
          Piece.holes pieces = (c.bound convert).length) f.chunks layouts := by
  rw [Fragment.compile_eq (Dialect.binds_of_mem hd)] at h
  cases hlayout : f.layout dialect with
  | error e =>
      rw [hlayout] at h
      cases h
  | ok layouts =>
      rw [hlayout] at h
      cases h
      refine ⟨rfl, layouts, rfl, (Except.forall₂_of_mapM hlayout).imp ?_⟩
      intro c pieces hc
      exact ⟨hc, Chunk.holes_of_layout hc⟩

/-- A batch with two values among raw text and a default, and a parameter after it. -/
def insertion : Fragment where
  chunks := [.text "insert into t values ",
    .values [[.value (.bool true), .chunk .default], [.chunk (.raw "now()"), .value (.int 7)]],
    .text " returning ", .param (.bool true)]

theorem compile_in_line_insertion : insertion.compile .sqlite = .ok
      ⟨"insert into t values (?, default), (now(), ?) returning ?",
        [.int 1, .int 7, .bool true]⟩ ∧
    [.int 1, .int 7, .bool true] = insertion.chunks.flatMap (·.bound Dialect.sqliteItem) := by
  have hcompile : insertion.compile .sqlite = .ok
      ⟨"insert into t values (?, default), (now(), ?) returning ?",
        [.int 1, .int 7, .bool true]⟩ := by cbv
  exact ⟨hcompile, (compile_in_line (.tail _ (.tail _ (.head _))) hcompile).1⟩

example : (insertion.compile .mssql).toOption.map (·.query) =
    some "insert into t values (@p1, default), (now(), @p2) returning @p3" := by cbv

/-! ## Values and text -/

/-- Items of a row that differ in a value at most. -/
inductive Arg.Alike : Arg → Arg → Prop where
  | value (v w : Value) : Alike (.value v) (.value w)
  | same (a : Arg) : Alike a a

/-- Chunks that differ in values at most: in a bound value, or in those of a batch. -/
inductive Chunk.Alike : Chunk → Chunk → Prop where
  | param (v w : Value) : Alike (.param v) (.param w)
  | values {batch other : List (List Arg)}
      (h : List.Forall₂ (List.Forall₂ Arg.Alike) batch other) :
      Alike (.values batch) (.values other)
  | same (c : Chunk) : Alike c c

/-- Fragments that differ in values at most. -/
def Fragment.Alike (f g : Fragment) : Prop := List.Forall₂ Chunk.Alike f.chunks g.chunks

namespace Arg.Alike

variable {a b : Arg}

theorem piece (h : a.Alike b) : a.piece = b.piece := by
  cases h <;> rfl

theorem checkItem (h : a.Alike b) (row column : Nat) :
    Batch.checkItem row column a = Batch.checkItem row column b := by
  cases h <;> rfl

end Arg.Alike

namespace Batch

theorem checkItems_alike {args others : List Arg} (h : List.Forall₂ Arg.Alike args others)
    (row column : Nat) : checkItems row column args = checkItems row column others := by
  induction h generalizing column with
  | nil => rfl
  | cons hitem _ ih => rw [checkItems, checkItems, hitem.checkItem, ih]

variable {batch other : List (List Arg)}

theorem checkRows_alike (h : List.Forall₂ (List.Forall₂ Arg.Alike) batch other)
    (expected row : Nat) : checkRows expected row batch = checkRows expected row other := by
  induction h generalizing row with
  | nil => rfl
  | @cons args others _ _ hrow _ ih =>
      have hempty : args.isEmpty = others.isEmpty := by cases hrow <;> rfl
      rw [checkRows, checkRows, hempty, hrow.length_eq, checkItems_alike hrow, ih]

theorem check_alike (h : List.Forall₂ (List.Forall₂ Arg.Alike) batch other) :
    check batch = check other := by
  cases h with
  | nil => rfl
  | cons hrow hrest =>
      rw [check, check, hrow.length_eq]
      exact checkRows_alike (.cons hrow hrest) _ 0

theorem rowLayout_alike {args others : List Arg} (h : List.Forall₂ Arg.Alike args others) :
    rowLayout args = rowLayout others := by
  have hpieces : args.map (fun item => [item.piece]) = others.map fun item => [item.piece] := by
    induction h with
    | nil => rfl
    | cons hitem _ ih => rw [List.map_cons, List.map_cons, hitem.piece, ih]
  rw [rowLayout, rowLayout, hpieces]

theorem layout_alike (h : List.Forall₂ (List.Forall₂ Arg.Alike) batch other) :
    layout batch = layout other := by
  have hrows : batch.map rowLayout = other.map rowLayout := by
    induction h with
    | nil => rfl
    | cons hrow _ ih => rw [List.map_cons, List.map_cons, rowLayout_alike hrow, ih]
  rw [layout, layout, hrows]

end Batch

theorem Chunk.Alike.layout {c c' : Chunk} (h : c.Alike c') (dialect : Dialect) :
    c.layout dialect = c'.layout dialect := by
  cases h with
  | param v w => rfl
  | values h => rw [Chunk.layout, Chunk.layout, Batch.check_alike h, Batch.layout_alike h]
  | same c => rfl

/-- The layout of a fragment does not depend on the values in it. -/
theorem Fragment.Alike.layout {f g : Fragment} (h : f.Alike g) (dialect : Dialect) :
    f.layout dialect = g.layout dialect := by
  obtain ⟨chunks⟩ := f
  obtain ⟨others⟩ := g
  change List.Forall₂ Chunk.Alike chunks others at h
  simp only [Fragment.layout]
  induction h with
  | nil => rfl
  | cons hchunk _ ih => rw [List.mapM_cons, List.mapM_cons, hchunk.layout, ih]

/-- Fragments that differ in values at most do not compile for the same reason, or both compile to
the same query with as many parameters. -/
theorem compile_alike {f g : Fragment} (hfg : f.Alike g) (hd : dialect ∈ Dialect.shipped) :
    (∃ e, f.compile dialect = .error e ∧ g.compile dialect = .error e) ∨
      ∃ s t, f.compile dialect = .ok s ∧ g.compile dialect = .ok t ∧
        s.query = t.query ∧ s.params.length = t.params.length := by
  obtain ⟨convert, hbinds⟩ := Dialect.binds_of_mem_shipped hd
  rw [Fragment.compile_eq hbinds, Fragment.compile_eq hbinds]
  have hlayouts := hfg.layout dialect
  cases hlayout : g.layout dialect with
  | error e =>
      rw [hlayouts, hlayout]
      exact .inl ⟨e, rfl, rfl⟩
  | ok layouts =>
      have hlength := g.length_bound hlayout convert
      rw [hlayout] at hlayouts
      rw [hlayouts]
      refine .inr ⟨_, _, rfl, rfl, rfl, ?_⟩
      exact (f.length_bound hlayouts convert).trans hlength.symm

/-- The insertion with a document, bytes and null for its values. -/
def otherInsertion : Fragment where
  chunks := [.text "insert into t values ",
    .values [[.value (.json (.arr [.str "'; --"])), .chunk .default],
      [.chunk (.raw "now()"), .value (.bytes [0])]],
    .text " returning ", .param .null]

theorem compile_alike_insertion : insertion.Alike otherInsertion ∧
    ∃ s t, insertion.compile .mssql = .ok s ∧ otherInsertion.compile .mssql = .ok t ∧
      s.query = t.query ∧ s.params.length = t.params.length := by
  have halike : insertion.Alike otherInsertion :=
    .cons (.same _) (.cons (.values (.cons (.cons (.value _ _) (.cons (.same _) .nil))
      (.cons (.cons (.same _) (.cons (.value _ _) .nil)) .nil)))
      (.cons (.same _) (.cons (.param _ _) .nil)))
  refine ⟨halike, ?_⟩
  obtain ⟨e, he, -⟩ | h := compile_alike halike (.tail _ (.tail _ (.tail _ (.head _))))
  · exact absurd he nofun
  · exact h

end PooledSql
