import Mathlib
import PooledSql.Sql.Fragment

/-!
# Layouts

The text of a statement is laid out before any value is bound: pieces of text with a hole in the
place of each value. Compiling a fragment fills the holes with placeholders, numbered through the
whole statement, and binds one parameter for each hole. `Fragment.compile_eq` says so for every
dialect that binds the items of batches by converting them.
-/

namespace PooledSql

/-- A piece of the text of a statement. -/
inductive Piece where
  | text (s : String)
  /-- The place of a bound value. -/
  | hole
  deriving DecidableEq, Repr

namespace Piece

def isHole : Piece → Bool
  | .text _ => false
  | .hole => true

/-- How many values pieces have places for. -/
def holes (pieces : List Piece) : Nat := pieces.countP isHole

/-- The text of a piece; a hole gets the placeholder with the number. -/
def write (dialect : Dialect) (number : Nat) : Piece → String
  | .text s => s
  | .hole => dialect.placeholder number

/-- The text of pieces that come after a number of holes. A hole is numbered by the holes up to
and with it. -/
def fill (dialect : Dialect) (before : Nat) (pieces : List Piece) : String :=
  String.join (pieces.mapIdx fun i piece =>
    piece.write dialect (before + holes (pieces.take (i + 1))))

/-- The texts of blocks of pieces, one after the other. -/
def fillEach (dialect : Dialect) : Nat → List (List Piece) → List String
  | _, [] => []
  | before, block :: rest =>
    fill dialect before block :: fillEach dialect (before + holes block) rest

variable {dialect : Dialect} {before : Nat}

@[simp] theorem holes_nil : holes [] = 0 := rfl

@[simp] theorem holes_text (s : String) (pieces : List Piece) :
    holes (.text s :: pieces) = holes pieces :=
  List.countP_cons_of_neg Bool.false_ne_true

@[simp] theorem holes_hole (pieces : List Piece) : holes (.hole :: pieces) = holes pieces + 1 :=
  List.countP_cons_of_pos rfl

@[simp] theorem holes_append (pieces others : List Piece) :
    holes (pieces ++ others) = holes pieces + holes others :=
  List.countP_append

/-- Text between blocks has no holes. -/
theorem holes_intercalate (s : String) (blocks : List (List Piece)) :
    holes ([.text s].intercalate blocks) = holes blocks.flatten := by
  induction blocks with
  | nil => rfl
  | cons block rest ih =>
      cases rest with
      | nil => simp
      | cons next rest =>
          rw [List.intercalate_cons_cons, holes_append, holes_append, ih,
            List.flatten_cons (l := block), holes_append]
          rfl

@[simp] theorem fill_nil : fill dialect before [] = "" := rfl

@[simp] theorem fill_text (s : String) : fill dialect before [.text s] = s := by
  simp [fill, write]

@[simp] theorem fill_hole : fill dialect before [.hole] = dialect.placeholder (before + 1) := by
  simp [fill, write]

theorem fill_append (before : Nat) (pieces others : List Piece) :
    fill dialect before (pieces ++ others) =
      fill dialect before pieces ++ fill dialect (before + holes pieces) others := by
  have hfirst : (pieces.mapIdx fun i piece =>
      piece.write dialect (before + holes ((pieces ++ others).take (i + 1)))) =
      pieces.mapIdx fun i piece => piece.write dialect (before + holes (pieces.take (i + 1))) := by
    rw [List.mapIdx_eq_mapIdx_iff]
    intro i hi
    rw [List.take_append_of_le_length hi]
  have hrest : ∀ i, holes ((pieces ++ others).take (i + pieces.length + 1)) =
      holes pieces + holes (others.take (i + 1)) := by
    intro i
    rw [Nat.add_right_comm, List.take_append, List.take_of_length_le (by omega),
      Nat.add_sub_cancel, holes_append]
  rw [fill, List.mapIdx_append, hfirst, String.join_append, fill, fill]
  simp only [hrest]
  simp only [Nat.add_assoc]

theorem fill_text_cons (s : String) (pieces : List Piece) :
    fill dialect before (.text s :: pieces) = s ++ fill dialect before pieces := by
  have happend : fill dialect before ([.text s] ++ pieces) = _ :=
    fill_append before [.text s] pieces
  rwa [fill_text] at happend

/-- Text between blocks stands between their texts. -/
theorem fill_intercalate (s : String) (blocks : List (List Piece)) :
    fill dialect before ([.text s].intercalate blocks) =
      s.intercalate (fillEach dialect before blocks) := by
  induction blocks generalizing before with
  | nil => rfl
  | cons block rest ih =>
      cases rest with
      | nil => simp [fillEach]
      | cons next rest =>
          rw [List.intercalate_cons_cons, fill_append, fill_append, fill_text, ih]
          simp only [fillEach, String.intercalate_cons_cons, holes_append]
          rfl

end Piece

/-! ## Items, rows and batches -/

namespace Arg

/-- The value that an item of a row binds. -/
def value? : Arg → Option Value
  | .value v => some v
  | _ => none

/-- What a row may consist of. -/
inductive IsItem : Arg → Prop where
  | value (v : Value) : IsItem (.value v)
  | raw (s : String) : IsItem (.chunk (.raw s))
  | default : IsItem (.chunk .default)

/-- The piece for an item of a row. -/
def piece : Arg → Piece
  | .value _ => .hole
  | .chunk (.raw s) => .text s
  | _ => .text Batch.defaultWord

end Arg

/-- The dialect binds the value of an item by converting it. -/
def Dialect.Binds (dialect : Dialect) (convert : Value → Value) : Prop :=
  ∀ value params, dialect.bindItem value params =
    (dialect.placeholder (params.length + 1), params ++ [convert value])

namespace Batch

/-- The pieces of a row. -/
def rowLayout (row : List Arg) : List Piece :=
  .text "(" :: [.text ", "].intercalate (row.map fun item => [item.piece]) ++ [.text ")"]

/-- The pieces of a batch. -/
def layout (batch : List (List Arg)) : List Piece :=
  [.text ", "].intercalate (batch.map rowLayout)

/-- The values of a batch, row by row. -/
def values (batch : List (List Arg)) : List Value := batch.flatten.filterMap Arg.value?

variable {dialect : Dialect} {convert : Value → Value}

/-! ### The check -/

theorem isItem_of_checkItem {row column : Nat} {arg : Arg}
    (h : checkItem row column arg = .ok ()) : arg.IsItem := by
  cases arg with
  | value v => exact .value v
  | chunk c =>
      cases c with
      | raw s => exact .raw s
      | default => exact .default
      | _ => cases h
  | _ => cases h

theorem isItem_of_checkItems {row column : Nat} {args : List Arg}
    (h : checkItems row column args = .ok ()) : ∀ arg ∈ args, arg.IsItem := by
  induction args generalizing column with
  | nil => simp
  | cons arg rest ih =>
      rw [checkItems] at h
      cases hitem : checkItem row column arg with
      | error e =>
          rw [hitem] at h
          cases h
      | ok =>
          rw [hitem] at h
          exact List.forall_mem_cons.2 ⟨isItem_of_checkItem hitem, ih h⟩

theorem isItem_of_checkRows {expected row : Nat} {batch : List (List Arg)}
    (h : checkRows expected row batch = .ok ()) : ∀ args ∈ batch, ∀ arg ∈ args, arg.IsItem := by
  induction batch generalizing row with
  | nil => simp
  | cons args rest ih =>
      rw [checkRows] at h
      split at h
      · cases h
      · split at h
        · cases h
        · cases hitems : checkItems row 0 args with
          | error e =>
              rw [hitems] at h
              cases h
          | ok =>
              rw [hitems] at h
              exact List.forall_mem_cons.2 ⟨isItem_of_checkItems hitems, ih h⟩

/-- A batch that passes the check consists of items. -/
theorem isItem_of_check {batch : List (List Arg)} (h : check batch = .ok ()) :
    ∀ args ∈ batch, ∀ arg ∈ args, arg.IsItem := by
  cases batch with
  | nil => cases h
  | cons first rest => exact isItem_of_checkRows h

/-! ### Holes -/

theorem holes_pieces {args : List Arg} (h : ∀ arg ∈ args, arg.IsItem) :
    Piece.holes (args.map fun item => [item.piece]).flatten =
      (args.filterMap Arg.value?).length := by
  induction args with
  | nil => rfl
  | cons arg rest ih =>
      obtain ⟨harg, hrest⟩ := List.forall_mem_cons.1 h
      rw [List.map_cons, List.flatten_cons, Piece.holes_append, ih hrest]
      cases harg with
      | value v => exact Nat.add_comm 1 _
      | _ => exact Nat.zero_add _

theorem holes_rowLayout {row : List Arg} (h : ∀ arg ∈ row, arg.IsItem) :
    Piece.holes (rowLayout row) = (row.filterMap Arg.value?).length := by
  rw [rowLayout, Piece.holes_append, Piece.holes_text, Piece.holes_intercalate, holes_pieces h]
  rfl

/-- A batch has a hole for each of its values. -/
theorem holes_layout {batch : List (List Arg)} (h : ∀ args ∈ batch, ∀ arg ∈ args, arg.IsItem) :
    Piece.holes (layout batch) = (values batch).length := by
  rw [layout, Piece.holes_intercalate, values]
  induction batch with
  | nil => rfl
  | cons row rest ih =>
      obtain ⟨hrow, hrest⟩ := List.forall_mem_cons.1 h
      rw [List.map_cons, List.flatten_cons, List.flatten_cons, Piece.holes_append,
        List.filterMap_append, List.length_append, holes_rowLayout hrow, ih hrest]

/-! ### Compiling -/

theorem item_eq (hbinds : dialect.Binds convert) {arg : Arg} (h : arg.IsItem) (row column : Nat)
    (params : List Value) : item dialect row column params arg =
      .ok (Piece.fill dialect params.length [arg.piece],
        params ++ arg.value?.toList.map convert) := by
  cases h with
  | value v =>
      rw [item, hbinds v params, Arg.piece, Piece.fill_hole]
      rfl
  | _ => simp [item, Arg.piece, Arg.value?]

theorem items_eq (hbinds : dialect.Binds convert) {args : List Arg}
    (h : ∀ arg ∈ args, arg.IsItem) (row column : Nat) (params : List Value) :
    items dialect row column params args =
      .ok (Piece.fillEach dialect params.length (args.map fun item => [item.piece]),
        params ++ (args.filterMap Arg.value?).map convert) := by
  induction args generalizing column params with
  | nil => simp [items, Piece.fillEach]
  | cons arg rest ih =>
      obtain ⟨harg, hrest⟩ := List.forall_mem_cons.1 h
      have hlength : (params ++ arg.value?.toList.map convert).length =
          params.length + Piece.holes [arg.piece] := by
        cases harg <;> simp [Arg.value?, Arg.piece]
      have hvalues : (arg :: rest).filterMap Arg.value? =
          arg.value?.toList ++ rest.filterMap Arg.value? := by
        cases harg <;> rfl
      rw [items, item_eq hbinds harg]
      simp only [bind, Except.bind]
      rw [ih hrest, hlength, hvalues, List.map_append, ← List.append_assoc]
      rfl

theorem rows_eq (hbinds : dialect.Binds convert) {batch : List (List Arg)}
    (h : ∀ args ∈ batch, ∀ arg ∈ args, arg.IsItem) (row : Nat) (params : List Value) :
    rows dialect row params batch =
      .ok (Piece.fillEach dialect params.length (batch.map rowLayout),
        params ++ (values batch).map convert) := by
  induction batch generalizing row params with
  | nil => simp [rows, Piece.fillEach, values]
  | cons args rest ih =>
      obtain ⟨hrow, hrest⟩ := List.forall_mem_cons.1 h
      have hlength : (params ++ (args.filterMap Arg.value?).map convert).length =
          params.length + Piece.holes (rowLayout args) := by
        rw [holes_rowLayout hrow, List.length_append, List.length_map]
      have hvalues : values (args :: rest) = args.filterMap Arg.value? ++ values rest := by
        rw [values, List.flatten_cons, List.filterMap_append]
        rfl
      have htext : Piece.fill dialect params.length (rowLayout args) =
          "(" ++ ", ".intercalate (Piece.fillEach dialect params.length
            (args.map fun item => [item.piece])) ++ ")" := by
        rw [rowLayout, Piece.fill_append, Piece.fill_text_cons, Piece.fill_intercalate,
          Piece.fill_text]
      rw [rows, items_eq hbinds hrow]
      simp only [bind, Except.bind]
      rw [ih hrest, hlength, hvalues, List.map_append, ← List.append_assoc, List.map_cons,
        Piece.fillEach, htext]
      rfl

/-- A batch that passes the check fills its layout. -/
theorem compile_eq (hbinds : dialect.Binds convert) (params : List Value)
    (batch : List (List Arg)) : compile dialect params batch = do
      check batch
      return (Piece.fill dialect params.length (layout batch),
        params ++ (values batch).map convert) := by
  rw [compile]
  cases hcheck : check batch with
  | error e => rfl
  | ok =>
      simp only [bind, Except.bind]
      rw [rows_eq hbinds (isItem_of_check hcheck), layout, Piece.fill_intercalate]

end Batch

/-! ## Chunks and fragments -/

namespace Chunk

/-- The pieces of a chunk. -/
def layout (dialect : Dialect) : Chunk → Except TemplateError (List Piece)
  | .text s | .raw s => .ok [.text s]
  | .default => .ok [.text Batch.defaultWord]
  | .identifier i => return [.text (← i.resolve dialect)]
  | .param _ => .ok [.hole]
  | .values batch => do
    Batch.check batch
    return Batch.layout batch

/-- The parameters of a chunk: a value as it is, the values of a batch converted. -/
def bound (convert : Value → Value) : Chunk → List Value
  | .param v => [v]
  | .values batch => (Batch.values batch).map convert
  | _ => []

variable {dialect : Dialect} {convert : Value → Value}

theorem holes_of_layout {c : Chunk} {pieces : List Piece} (h : c.layout dialect = .ok pieces) :
    Piece.holes pieces = (c.bound convert).length := by
  cases c with
  | identifier i =>
      rw [layout] at h
      cases hresolve : i.resolve dialect with
      | error e =>
          rw [hresolve] at h
          cases h
      | ok s =>
          rw [hresolve] at h
          cases h
          rfl
  | values batch =>
      rw [layout] at h
      cases hcheck : Batch.check batch with
      | error e =>
          rw [hcheck] at h
          cases h
      | ok =>
          rw [hcheck] at h
          cases h
          rw [Batch.holes_layout (Batch.isItem_of_check hcheck), bound, List.length_map]
  | _ =>
      cases h
      rfl

/-- A chunk fills its layout. -/
theorem compile_eq (hbinds : dialect.Binds convert) (params : List Value) (c : Chunk) :
    c.compile dialect params = do
      let pieces ← c.layout dialect
      return (Piece.fill dialect params.length pieces, params ++ c.bound convert) := by
  cases c with
  | text s | raw s | default => simp [compile, layout, bound, bind, Except.bind, pure, Except.pure]
  | param v => simp [compile, layout, bound, bind, Except.bind, pure, Except.pure]
  | identifier i =>
      rw [compile, layout]
      cases i.resolve dialect with
      | error e => rfl
      | ok s => simp [bound, bind, Except.bind, pure, Except.pure]
  | values batch =>
      rw [compile, layout, Batch.compile_eq hbinds]
      cases Batch.check batch <;> rfl

end Chunk

namespace Fragment

/-- The pieces of each chunk of a fragment. -/
def layout (f : Fragment) (dialect : Dialect) : Except TemplateError (List (List Piece)) :=
  f.chunks.mapM (·.layout dialect)

/-- The parameters of a fragment. -/
def bound (f : Fragment) (convert : Value → Value) : List Value :=
  f.chunks.flatMap (·.bound convert)

variable {dialect : Dialect} {convert : Value → Value}

theorem compileChunks_eq (hbinds : dialect.Binds convert) (params : List Value)
    (chunks : List Chunk) : compileChunks dialect params chunks = do
      let layouts ← chunks.mapM (·.layout dialect)
      return (Piece.fill dialect params.length layouts.flatten,
        params ++ chunks.flatMap (·.bound convert)) := by
  induction chunks generalizing params with
  | nil => simp [compileChunks, pure, Except.pure, bind, Except.bind]
  | cons c rest ih =>
      rw [compileChunks, Chunk.compile_eq hbinds, List.mapM_cons]
      cases hlayout : c.layout dialect with
      | error e => rfl
      | ok pieces =>
          have hlength : (params ++ c.bound convert).length =
              params.length + Piece.holes pieces := by
            rw [Chunk.holes_of_layout hlayout, List.length_append]
          simp only [bind, Except.bind, pure, Except.pure]
          rw [ih, hlength]
          cases rest.mapM (·.layout dialect) with
          | error e => rfl
          | ok layouts =>
              simp only [bind, Except.bind, pure, Except.pure]
              rw [List.flatten_cons, Piece.fill_append, List.flatMap_cons, ← List.append_assoc]

/-- Compiling a fragment fills its layout and binds its values. -/
theorem compile_eq (hbinds : dialect.Binds convert) (f : Fragment) : f.compile dialect = do
    let layouts ← f.layout dialect
    return ⟨Piece.fill dialect 0 layouts.flatten, f.bound convert⟩ := by
  rw [compile, compileChunks_eq hbinds, layout]
  cases f.chunks.mapM (·.layout dialect) <;> rfl

end Fragment

end PooledSql
