import PolarsLogfmt.Frame.Table
import PolarsLogfmt.Lazy.RowsToDataframe
import PolarsLogfmt.Lazy.BatchRows

/-!
# Rows read under a schema

A row whose values were read as a schema says goes into columns whose types are fixed by
the schema and the keys alone. So the frames of two lists of such rows go under each
other when they have the same keys, and make the frame of all the rows.
-/

namespace PolarsLogfmt

variable [Crates]

/-- The rows of some lines under a schema. -/
def schemaRows (schema : Schema) (lines : List Bytes) : List Row :=
  lines.map fun line => parseLogfmtLineWithSchema line (some schema)

/-- The column type of a key among rows parsed with the schema: what the schema lists, and
strings for a key it does not list. -/
def schemaType : Option SchemaField → InferredType
  | some .integer => .int
  | some .float => .float
  | some .boolean => .bool
  | some .dateTime => .dateTime
  | some .duration => .duration
  | some .string | some .auto | none => .string

theorem getElem?_schemaRow (schema : Schema) (line key : Bytes) :
    (parseLogfmtLineWithSchema line (some schema))[key]? =
      (rawValue line key).map (parseValueAs schema[key]?) :=
  getElem?_parseLogfmtLineWithSchema line (some schema) key

/-- Every value of the row was read as the schema says. -/
def ReadUnder (schema : Schema) (row : Row) : Prop :=
  ∀ (key : Bytes) (value : ParsedValue), row[key]? = some value →
    ∃ text, value = parseValueAs schema[key]? text

theorem readUnder_parsed (schema : Schema) (line : Bytes) :
    ReadUnder schema (parseLogfmtLineWithSchema line (some schema)) := by
  intro key value hvalue
  rw [getElem?_schemaRow] at hvalue
  obtain ⟨text, -, rfl⟩ := Option.map_eq_some_iff.mp hvalue
  exact ⟨text, rfl⟩

theorem readUnder_schemaRows (schema : Schema) (lines : List Bytes) :
    ∀ row ∈ schemaRows schema lines, ReadUnder schema row := by
  intro row hrow
  obtain ⟨line, -, rfl⟩ := List.mem_map.mp hrow
  exact readUnder_parsed schema line

/-! ## Column types -/

/-- The values of a key the schema leaves open are strings. -/
theorem hasKind_open {schema : Schema} {key : Bytes}
    (hopen : schema[key]? = none ∨ schema[key]? = some .auto) {rows : List Row}
    (hrows : ∀ row ∈ rows, ReadUnder schema row) (kind : SchemaField) (hkind : kind ≠ .string) :
    hasKind rows key kind = false := by
  rw [hasKind, List.any_eq_false]
  intro row hrow
  cases hvalue : row[key]? with
  | none => simp
  | some value =>
    obtain ⟨text, rfl⟩ := hrows row hrow key value hvalue
    have hne : (SchemaField.string == kind) = false := by simpa using Ne.symm hkind
    rcases hopen with h | h <;> simp [h, parseValueAs, ParsedValue.field, hne]

/-- A key that some row has gets the type the schema says. -/
theorem inferredType_readUnder {schema : Schema} {rows : List Row}
    (hrows : ∀ row ∈ rows, ReadUnder schema row) {row : Row} (hrow : row ∈ rows) {key : Bytes}
    (hkey : key ∈ row) :
    inferredType rows key schema[key]? = some (schemaType schema[key]?) := by
  have hopen : schema[key]? = none ∨ schema[key]? = some .auto →
    hasKind rows key .string = true := by
    intro h
    rw [hasKind, List.any_eq_true]
    refine ⟨row, hrow, ?_⟩
    obtain ⟨value, hvalue⟩ :=
      Option.isSome_iff_exists.mp (Std.ExtTreeMap.mem_iff_isSome_getElem?.mp hkey)
    obtain ⟨text, rfl⟩ := hrows row hrow key value hvalue
    rw [hvalue]
    rcases h with h | h <;> simp [h, parseValueAs, ParsedValue.field]
  cases hfield : schema[key]? with
  | none =>
    have hd := hasKind_open (.inl hfield) hrows .dateTime (by decide)
    have hu := hasKind_open (.inl hfield) hrows .duration (by decide)
    simp only [inferredType, hd, hu, hopen (.inl hfield), schemaType, if_true, Bool.false_eq_true,
      if_false]
  | some field =>
    cases field with
    | auto =>
      have hd := hasKind_open (.inr hfield) hrows .dateTime (by decide)
      have hu := hasKind_open (.inr hfield) hrows .duration (by decide)
      simp only [inferredType, hd, hu, hopen (.inr hfield), schemaType, if_true, Bool.false_eq_true,
        if_false]
    | _ => rfl

theorem inferredType_schemaRows (schema : Schema) {lines : List Bytes} {line key : Bytes}
    (hline : line ∈ lines) (hkey : key ∈ lineKeys line) :
    inferredType (schemaRows schema lines) key schema[key]? = some (schemaType schema[key]?) :=
  inferredType_readUnder (readUnder_schemaRows schema lines) (List.mem_map_of_mem hline)
    (mem_parseLogfmtLineWithSchema.mpr hkey)

/-! ## Keys -/

/-- The keys of some rows are those of others that have the same. -/
theorem rowKeys_congr {rows rows' : List Row}
    (h : ∀ key, (∃ row ∈ rows, key ∈ row) ↔ ∃ row ∈ rows', key ∈ row) :
    rowKeys rows = rowKeys rows' := by
  unfold rowKeys
  congr 1
  apply Std.ExtTreeSet.ext_mem
  intro key
  rw [mem_foldl_insertMany, mem_foldl_insertMany]
  simpa using h key

/-- Some row of parsed lines has the key when some line has. -/
theorem exists_row_parsed {lines : List Bytes} {schema : Option Schema} {key : Bytes} :
    (∃ row ∈ lines.map fun line => parseLogfmtLineWithSchema line schema, key ∈ row) ↔
      ∃ line ∈ lines, key ∈ lineKeys line := by
  constructor
  · rintro ⟨row, hrow, hkey⟩
    obtain ⟨line, hline, rfl⟩ := List.mem_map.mp hrow
    exact ⟨line, hline, mem_parseLogfmtLineWithSchema.mp hkey⟩
  · rintro ⟨line, hline, hkey⟩
    exact ⟨_, List.mem_map_of_mem hline, mem_parseLogfmtLineWithSchema.mpr hkey⟩

theorem rowKeys_parsed (lines : List Bytes) (schema schema' : Option Schema) :
    rowKeys (lines.map fun line => parseLogfmtLineWithSchema line schema) =
      rowKeys (lines.map fun line => parseLogfmtLineWithSchema line schema') :=
  rowKeys_congr fun _ => exists_row_parsed.trans exists_row_parsed.symm

theorem mem_rowKeys_append {rows rows' : List Row} {key : Bytes} :
    key ∈ rowKeys (rows ++ rows') ↔ key ∈ rowKeys rows ∨ key ∈ rowKeys rows' := by
  simp only [mem_rowKeys, List.mem_append, or_and_right, exists_or]

/-- Rows with the keys of others add none to them. -/
theorem rowKeys_append {rows rows' : List Row} (h : rowKeys rows = rowKeys rows') :
    rowKeys (rows ++ rows') = rowKeys rows := by
  apply rowKeys_congr
  intro key
  rw [← mem_rowKeys, ← mem_rowKeys, mem_rowKeys_append, ← h, or_self]

/-! ## Frames under each other -/

/-- The table of rows read under the schema. -/
def filledTable (schema : Schema) (keys : List Bytes) (hn : keys.Nodup) : Table Row where
  keys := keys
  nodup := hn
  dtype := fun key => InferredType.dtype (some (schemaType schema[key]?))
  cell := fun key row => filledCell (some (schemaType schema[key]?)) row[key]?
  fits := fun _ _ => filledCell_fits _ _

theorem filledColumn_readUnder {schema : Schema} {rows : List Row}
    (hrows : ∀ row ∈ rows, ReadUnder schema row) {key : Bytes} (hkey : key ∈ rowKeys rows)
    (keys : List Bytes) (hn : keys.Nodup) :
    filledColumn rows (some schema) key = (filledTable schema keys hn).column rows key := by
  obtain ⟨row, hrow, hmem⟩ := mem_rowKeys.mp hkey
  have htype := inferredType_readUnder hrows hrow hmem
  apply Column.data_injective
  simp only [filledColumn, filledTable, Table.column, Column.ofMap, Column.data, Option.bind_some,
    htype]

/-- The frame of such rows is a table of their keys. -/
theorem filledFrame_eq_table {schema : Schema} {rows : List Row}
    (hrows : ∀ row ∈ rows, ReadUnder schema row) {keys : List Bytes} (hkeys : rowKeys rows = keys)
    (hn : keys.Nodup) :
    filledFrame rows (some schema) = (filledTable schema keys hn).frame rows := by
  subst hkeys
  apply DataFrame.ext
  · rfl
  · exact List.map_congr_left fun key hkey => filledColumn_readUnder hrows hkey _ hn

/-- Frames of rows with the same keys make the frame of all the rows. -/
theorem vstack_filledFrame {schema : Schema} {rows rows' : List Row}
    (hrows : ∀ row ∈ rows, ReadUnder schema row) (hrows' : ∀ row ∈ rows', ReadUnder schema row)
    (hkeys : rowKeys rows = rowKeys rows') :
    (filledFrame rows (some schema)).vstack (filledFrame rows' (some schema)) =
      .ok (filledFrame (rows ++ rows') (some schema)) := by
  have hall : ∀ row ∈ rows ++ rows', ReadUnder schema row := by
    intro row hrow
    exact (List.mem_append.mp hrow).elim (hrows row) (hrows' row)
  have hn := rowKeys_nodup rows
  rw [filledFrame_eq_table hrows rfl hn, filledFrame_eq_table hrows' hkeys.symm hn,
    filledFrame_eq_table hall (rowKeys_append hkeys) hn]
  exact Table.vstack_frame _ rows rows'

end PolarsLogfmt
