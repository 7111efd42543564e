import PolarsLogfmt.Logfmt.Value
import PolarsLogfmt.Frame.DataFrame

/-!
# The frame maker of the parallel path

`DataFrameMaker` of `lazy_logfmt_reader.rs` in the mode its builder always sets,
`ColumnerChunkedBuilder`: the values of a line go straight into typed builders,
one list of builders for each type, and `column_infos` says which builder of
which list belongs to which column.
-/

namespace PolarsLogfmt

variable [Crates]

open Crates

/-- A `PrimitiveChunkedBuilder`, `BooleanChunkedBuilder` or `StringChunkedBuilder`. -/
structure ChunkedBuilder (α : Type) where
  name : Bytes
  values : List (Option α)

namespace ChunkedBuilder

variable {α : Type}

def new (name : Bytes) : ChunkedBuilder α := ⟨name, []⟩

def appendValue (b : ChunkedBuilder α) (value : α) : ChunkedBuilder α :=
  { b with values := b.values ++ [some value] }

def appendNull (b : ChunkedBuilder α) : ChunkedBuilder α := { b with values := b.values ++ [none] }

/-- `finish()` into a column. -/
def finish (b : ChunkedBuilder α) (dtype : DataType) (cell : α → AnyValue)
    (typed : ∀ x, (cell x).Fits dtype) : Column :=
  Column.ofMap b.name dtype b.values (fun v => (v.map cell).getD .null) fun v => by
    cases v with
    | none => trivial
    | some x => exact typed x

end ChunkedBuilder

/-- The builders, by type: the six `array_*` fields. -/
structure ColumnArrays where
  i64s : List (ChunkedBuilder Int64) := []
  f64s : List (ChunkedBuilder F64) := []
  bools : List (ChunkedBuilder Bool) := []
  timestamps : List (ChunkedBuilder Int64) := []
  durations : List (ChunkedBuilder Int64) := []
  strings : List (ChunkedBuilder Bytes) := []

/-- `ColumnInfo`: a column's builder is entry `index` of the list of its type. -/
structure ColumnInfo where
  name : Bytes
  dataType : DataType
  index : Nat
deriving DecidableEq

/-- The builder type of a key with this schema entry. -/
def builderType : Option SchemaField → DataType
  | some .string => .string
  | some .integer => .int64
  | some .float => .float64
  | some .boolean => .boolean
  | some .dateTime => .datetime
  | some .duration => .duration
  | some .auto | none => .string

namespace ColumnArrays

/-- `base_append_column_arrays`: a new builder and its index. -/
def appendColumn (a : ColumnArrays) (ci : ColumnInfo) : ColumnArrays × Nat :=
  match ci.dataType with
  | .int64 => ({ a with i64s := a.i64s ++ [.new ci.name] }, a.i64s.length)
  | .float64 => ({ a with f64s := a.f64s ++ [.new ci.name] }, a.f64s.length)
  | .boolean => ({ a with bools := a.bools ++ [.new ci.name] }, a.bools.length)
  | .datetime => ({ a with timestamps := a.timestamps ++ [.new ci.name] }, a.timestamps.length)
  | .duration => ({ a with durations := a.durations ++ [.new ci.name] }, a.durations.length)
  | .string => ({ a with strings := a.strings ++ [.new ci.name] }, a.strings.length)

/-- The value appended to the builder of `ci`, converted to its type. -/
def appendValue (a : ColumnArrays) (ci : ColumnInfo) (value : Bytes) : ColumnArrays :=
  match ci.dataType with
  | .int64 => { a with i64s := a.i64s.modify ci.index (·.appendValue ((i64FromStr value).getD 0)) }
  | .float64 =>
      { a with f64s := a.f64s.modify ci.index (·.appendValue ((f64FromStr value).getD f64Zero)) }
  | .boolean =>
      let v := if isTrueWord value then true else if isFalseWord value then false else false
      { a with bools := a.bools.modify ci.index (·.appendValue v) }
  | .datetime =>
      let v := ((parseFromRfc3339 value).map timestampMicros).getD 0
      { a with timestamps := a.timestamps.modify ci.index (·.appendValue v) }
  | .duration =>
      let v := ((parseDuration value).map Duration.asMicros).getD 0
      { a with durations := a.durations.modify ci.index (·.appendValue v) }
  | .string => { a with strings := a.strings.modify ci.index (·.appendValue value) }

/-- `append_null_to_column_array`. -/
def appendNull (a : ColumnArrays) (ci : ColumnInfo) : ColumnArrays :=
  match ci.dataType with
  | .int64 => { a with i64s := a.i64s.modify ci.index (·.appendNull) }
  | .float64 => { a with f64s := a.f64s.modify ci.index (·.appendNull) }
  | .boolean => { a with bools := a.bools.modify ci.index (·.appendNull) }
  | .datetime => { a with timestamps := a.timestamps.modify ci.index (·.appendNull) }
  | .duration => { a with durations := a.durations.modify ci.index (·.appendNull) }
  | .string => { a with strings := a.strings.modify ci.index (·.appendNull) }

/-- The finished builder of `ci`, with an unnamed empty one left in its place. A column
of durations is left as the integers of its builder. -/
def takeColumn (a : ColumnArrays) (ci : ColumnInfo) : Option Column × ColumnArrays :=
  match ci.dataType with
  | .int64 =>
      ((a.i64s[ci.index]?).map (·.finish .int64 .int64 fun _ => rfl),
        { a with i64s := a.i64s.set ci.index (.new []) })
  | .float64 =>
      ((a.f64s[ci.index]?).map (·.finish .float64 .float64 fun _ => rfl),
        { a with f64s := a.f64s.set ci.index (.new []) })
  | .boolean =>
      ((a.bools[ci.index]?).map (·.finish .boolean .boolean fun _ => rfl),
        { a with bools := a.bools.set ci.index (.new []) })
  | .datetime =>
      ((a.timestamps[ci.index]?).map (·.finish .datetime .datetime fun _ => rfl),
        { a with timestamps := a.timestamps.set ci.index (.new []) })
  | .duration =>
      ((a.durations[ci.index]?).map (·.finish .int64 .int64 fun _ => rfl),
        { a with durations := a.durations.set ci.index (.new []) })
  | .string =>
      ((a.strings[ci.index]?).map (·.finish .string .string fun _ => rfl),
        { a with strings := a.strings.set ci.index (.new []) })

end ColumnArrays

/-- `DataFrameMaker`. -/
structure DataFrameMaker where
  schema : Option Schema
  columnKeys : List Bytes := []
  columnInfos : List ColumnInfo := []
  /-- For each of `columnInfos`, the id of the last row that carried it. -/
  rowSeen : List Nat := []
  rowsPushed : Nat := 0
  arrays : ColumnArrays := {}

namespace DataFrameMaker

/-- The key is one of the columns asked for, or all are. -/
def wants (m : DataFrameMaker) (key : Bytes) : Prop := m.columnKeys = [] ∨ key ∈ m.columnKeys

instance (m : DataFrameMaker) : DecidablePred m.wants := fun key =>
  inferInstanceAs (Decidable (m.columnKeys = [] ∨ key ∈ m.columnKeys))

/-- The position of the column of `key`, which is added when it is new. -/
def columnPos (m : DataFrameMaker) (key : Bytes) : DataFrameMaker × Nat :=
  match m.columnInfos.findIdx? fun ci => ci.name == key with
  | some pos => (m, pos)
  | none =>
      let ci : ColumnInfo :=
        { name := key, dataType := builderType (m.schema.bind (·[key]?)), index := 0 }
      let (arrays, idx) := m.arrays.appendColumn ci
      ({ m with
          arrays := arrays
          columnInfos := m.columnInfos ++ [{ ci with index := idx }]
          rowSeen := m.rowSeen ++ [0] },
        m.columnInfos.length)

/-- The callback of `push_line_to_column_mutable_array` for row `rowId`; the number
counts its hits. -/
def pushPair (rowId : Nat) (acc : DataFrameMaker × Nat) (pair : Bytes × Bytes) :
    DataFrameMaker × Nat :=
  let (m, hits) := acc
  let (key, value) := pair
  if ¬ m.wants key then (m, hits)
  else
    let (m, pos) := m.columnPos key
    let m := { m with rowSeen := m.rowSeen.set pos rowId }
    match m.columnInfos[pos]? with
    | some ci => ({ m with arrays := m.arrays.appendValue ci value }, hits + 1)
    | none => (m, hits + 1)

/-- A column the line did not carry is null on this row. -/
def fillNulls (m : DataFrameMaker) (rowId : Nat) : DataFrameMaker :=
  { m with
    arrays := (m.rowSeen.zip m.columnInfos).foldl
      (fun arrays (seen, ci) => if seen ≠ rowId then arrays.appendNull ci else arrays) m.arrays }

/-- `push_line`, in the mode `ColumnerChunkedBuilder`. -/
def pushLine (m : DataFrameMaker) (line : Bytes) : DataFrameMaker :=
  let rowId := m.rowsPushed + 1
  let (m, hits) := (handleParseLogfmtLineWithSchemaBase line).foldl (pushPair rowId) (m, 0)
  let m := if hits < m.columnInfos.length then m.fillNulls rowId else m
  { m with rowsPushed := rowId }

/-- The loop of `mutal_array_to_to_columns` over the keys. -/
def finishColumns (infos : List ColumnInfo) (a : ColumnArrays) : List Bytes → List Column
  | [] => []
  | key :: keys =>
      match infos.find? fun ci => ci.name == key with
      | none => finishColumns infos a keys
      | some ci => (a.takeColumn ci).1.toList ++ finishColumns infos (a.takeColumn ci).2 keys

/-- `to_df`. A worker calls it once, on its last frame. -/
def toDf (m : DataFrameMaker) : Except PolarsError DataFrame :=
  DataFrame.newInferHeight (finishColumns m.columnInfos m.arrays m.columnKeys)

end DataFrameMaker

end PolarsLogfmt
