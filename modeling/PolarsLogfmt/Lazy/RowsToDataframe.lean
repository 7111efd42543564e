import PolarsLogfmt.Logfmt.Value
import PolarsLogfmt.Frame.DataFrame

/-!
# Rows to a frame

`rows_to_dataframe_filled` of `lazy.rs`: one column for each key of the rows, in
the order of the keys, its type from the schema or from the values, and a cell
of that type for every row, whether the row has the key or not.
-/

namespace PolarsLogfmt

variable [Crates]

open Crates

/-- `keys`: the keys of all rows, sorted. -/
def rowKeys (rows : List Row) : List Bytes :=
  (rows.foldl (fun keys row => keys.insertMany row.keys)
    (∅ : Std.ExtTreeSet Bytes compare)).toList

/-- The names of the column types, `inferred_type`. -/
inductive InferredType where
  | string
  | int
  | float
  | bool
  | dateTime
  | duration
deriving DecidableEq

/-- The flags `has_*`: some row has a value of the kind for the key. -/
def hasKind (rows : List Row) (key : Bytes) (kind : SchemaField) : Bool :=
  rows.any fun row => row[key]?.any fun value => value.field == kind

/-- The column type of a key: what the schema says, or the first kind found among
the values in a fixed order. -/
def inferredType (rows : List Row) (key : Bytes) (field : Option SchemaField) :
    Option InferredType :=
  match field with
  | some .string => some .string
  | some .integer => some .int
  | some .float => some .float
  | some .boolean => some .bool
  | some .dateTime => some .dateTime
  | some .duration => some .duration
  | some .auto | none =>
      if hasKind rows key .dateTime then some .dateTime
      else if hasKind rows key .duration then some .duration
      else if hasKind rows key .string then some .string
      else if hasKind rows key .float then some .float
      else if hasKind rows key .integer then some .int
      else if hasKind rows key .boolean then some .bool
      else none

/-- `row.get(&key).map(|v| v.as_string()).unwrap_or_default()`. -/
def stringCell (value : Option ParsedValue) : Bytes :=
  (value.map ParsedValue.asString).getD []

def intCell : Option ParsedValue → Int64
  | some (.integer i) => i
  | some (.float f) => f64AsI64 f
  | some (.boolean b) => if b then 1 else 0
  | some (.string s) => (i64FromStr s).getD 0
  | some (.dateTime _) => 0
  | some (.duration dur) => dur.asMicros
  | none => 0

def floatCell : Option ParsedValue → F64
  | some (.duration dur) => f64Secs dur
  | some (.float f) => f
  | some (.integer i) => i64AsF64 i
  | some (.boolean b) => if b then f64One else f64Zero
  | some (.string s) => (f64FromStr s).getD f64Zero
  | some (.dateTime _) => f64Zero
  | none => f64Zero

def boolCell : Option ParsedValue → Bool
  | some (.boolean b) => b
  | some (.integer i) => i != 0
  | some (.float f) => !f64IsZero f
  | some (.string s) => isTrueWord s || toLowercase s == Utf8.ofString "1"
  | some (.dateTime _) => false
  | some (.duration _) => false
  | none => false

def dateTimeCell : Option ParsedValue → Option Int64
  | some (.dateTime dt) => some (timestampMicros dt)
  | some (.string s) => (parseFromRfc3339 s).map timestampMicros
  | some v => (parseFromRfc3339 v.asString).map timestampMicros
  | none => none

/-- The dtype of a column type; `Duration` takes the branch of the strings. -/
def InferredType.dtype : Option InferredType → DataType
  | some .int => .int64
  | some .float => .float64
  | some .bool => .boolean
  | some .dateTime => .datetime
  | some .string | some .duration | none => .string

/-- The cell of a value in a column of the type. -/
def filledCell (type : Option InferredType) (value : Option ParsedValue) : AnyValue :=
  match type with
  | some .int => .int64 (intCell value)
  | some .float => .float64 (floatCell value)
  | some .bool => .boolean (boolCell value)
  | some .dateTime =>
      match dateTimeCell value with
      | some micros => .datetime micros
      | none => .null
  | some .string | some .duration | none => .string (stringCell value)

theorem filledCell_fits (type : Option InferredType) (value : Option ParsedValue) :
    (filledCell type value).Fits (InferredType.dtype type) := by
  cases type with
  | none => rfl
  | some type =>
    cases type with
    | dateTime =>
      rw [filledCell]
      split
      · rfl
      · trivial
    | _ => rfl

/-- The column of a key: a cell for every row. -/
def filledColumn (rows : List Row) (schema : Option Schema) (key : Bytes) : Column :=
  let type := inferredType rows key (schema.bind (·[key]?))
  Column.ofMap key (InferredType.dtype type) rows (fun row => filledCell type row[key]?)
    fun _ => filledCell_fits type _

/-- `rows_to_dataframe_filled`. -/
def rowsToDataframeFilled (rows : List Row) (schema : Option Schema) :
    Except PolarsError DataFrame :=
  let keys := rowKeys rows
  if keys = [] then .ok .empty
  else DataFrame.newInferHeight (keys.map (filledColumn rows schema))

/-! ## The frame it makes -/

theorem mem_foldl_insertMany {rows : List Row} {keys : Std.ExtTreeSet Bytes compare} {key : Bytes} :
    key ∈ rows.foldl (fun keys row => keys.insertMany row.keys) keys ↔
      key ∈ keys ∨ ∃ row ∈ rows, key ∈ row := by
  induction rows generalizing keys with
  | nil => simp
  | cons row rows ih =>
    rw [List.foldl_cons, ih, Std.ExtTreeSet.mem_insertMany_list]
    simp [or_assoc]

theorem mem_rowKeys {rows : List Row} {key : Bytes} :
    key ∈ rowKeys rows ↔ ∃ row ∈ rows, key ∈ row := by
  rw [rowKeys, Std.ExtTreeSet.mem_toList, mem_foldl_insertMany]
  simp

/-- Sorted by bytes, as a `BTreeSet` of strings iterates. -/
theorem rowKeys_sorted (rows : List Row) :
    (rowKeys rows).Pairwise fun a b => compare a b = .lt :=
  Std.ExtTreeSet.ordered_toList

omit [Crates] in
theorem nodup_of_sorted {keys : List Bytes} (h : keys.Pairwise fun a b => compare a b = .lt) :
    keys.Nodup :=
  h.imp fun {a b} hlt heq => by
    have hself : compare b b = .eq := Std.ReflCmp.compare_self
    rw [heq, hself] at hlt
    cases hlt

omit [Crates] in
/-- Sorted lists of the same keys are the same. -/
theorem eq_of_sorted {keys keys' : List Bytes} (h : keys.Pairwise fun a b => compare a b = .lt)
    (h' : keys'.Pairwise fun a b => compare a b = .lt) (hmem : ∀ key, key ∈ keys ↔ key ∈ keys') :
    keys = keys' := by
  have hirrefl : Std.Irrefl fun a b : Bytes => compare a b = .lt :=
    ⟨fun a hlt => by
      have hself : compare a a = .eq := Std.ReflCmp.compare_self
      rw [hself] at hlt
      cases hlt⟩
  have hantisymm : Std.Antisymm fun a b : Bytes => compare a b = .lt := by
    constructor
    intro a b hab hba
    rw [Std.OrientedCmp.gt_of_lt hab] at hba
    cases hba
  exact List.Pairwise.eq_of_mem_iff h h' hmem

theorem rowKeys_nodup (rows : List Row) : (rowKeys rows).Nodup :=
  nodup_of_sorted (rowKeys_sorted rows)

@[simp] theorem filledColumn_name (rows : List Row) (schema : Option Schema) (key : Bytes) :
    (filledColumn rows schema key).name = key := rfl

@[simp] theorem filledColumn_len (rows : List Row) (schema : Option Schema) (key : Bytes) :
    (filledColumn rows schema key).len = rows.length := List.length_map _

/-- The frame of some rows: a column for each key, a cell for each row. -/
def filledFrame (rows : List Row) (schema : Option Schema) : DataFrame :=
  .ofKeys (rowKeys rows) (rowKeys_nodup rows) rows.length (filledColumn rows schema)
    (filledColumn_name rows schema) (filledColumn_len rows schema)

/-- `rows_to_dataframe_filled` never fails. -/
theorem rowsToDataframeFilled_eq (rows : List Row) (schema : Option Schema) :
    rowsToDataframeFilled rows schema = .ok (filledFrame rows schema) := by
  unfold rowsToDataframeFilled
  simp only
  split
  · rename_i hnil
    congr 1
    exact DataFrame.ext (by simp [filledFrame, DataFrame.ofKeys, hnil, DataFrame.empty])
      (by simp [filledFrame, DataFrame.ofKeys, hnil, DataFrame.empty])
  · exact DataFrame.newInferHeight_ofKeys (rowKeys_nodup rows) (filledColumn_name rows schema)
      (filledColumn_len rows schema)

/-- The column of a key is there when some row has the key. -/
theorem filledFrame_column? (rows : List Row) (schema : Option Schema) (key : Bytes) :
    (filledFrame rows schema).column? key =
      if key ∈ rowKeys rows then some (filledColumn rows schema key) else none :=
  DataFrame.ofKeys_column? (rowKeys_nodup rows) (filledColumn_name rows schema)
    (filledColumn_len rows schema) key

/-- The dtype and the cell of a row in the column `rows_to_dataframe_filled` makes for a key. -/
def filledCellAt (rows : List Row) (schema : Option Schema) (key : Bytes) (i : Nat) :
    Option (DataType × AnyValue) :=
  (rowsToDataframeFilled rows schema).toOption.bind fun df =>
    (df.column? key).bind fun c => c.series.values[i]?.map fun cell => (c.series.dtype, cell)

/-- A row that has the key has its value there, as a cell of the column's type. -/
theorem filledCellAt_eq {rows : List Row} {i : Nat} {row : Row} (hrow : rows[i]? = some row)
    {key : Bytes} (hkey : key ∈ row) (schema : Option Schema) :
    filledCellAt rows schema key i =
      some (InferredType.dtype (inferredType rows key (schema.bind (·[key]?))),
        filledCell (inferredType rows key (schema.bind (·[key]?))) row[key]?) := by
  have hmem : key ∈ rowKeys rows := mem_rowKeys.mpr ⟨row, List.mem_of_getElem? hrow, hkey⟩
  rw [filledCellAt, rowsToDataframeFilled_eq]
  simp only [Except.toOption, Option.bind_some, filledFrame_column?, hmem, if_true, filledColumn,
    Column.ofMap, List.getElem?_map, hrow, Option.map_some]

end PolarsLogfmt
