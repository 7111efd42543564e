import PolarsLogfmt.Lazy.MadeColumns
import PolarsLogfmt.Lazy.SchemaRows

/-!
# The two converters of a cell

A value text becomes a cell twice in the program: the parallel path appends it to a
typed builder, the sequential path parses it to a `ParsedValue` and fills a column
from the rows. `cell_parity` says for which schema entries and texts both store
the same type and cell.
-/

namespace PolarsLogfmt

section

variable [Crates]

open Crates

/-- The dtype and the last cell of the column `mutal_array_to_to_columns` makes for a key. -/
def parallelCell (m : DataFrameMaker) (key : Bytes) : Option (DataType × AnyValue) :=
  (DataFrameMaker.finishColumns m.columnInfos m.arrays [key]).head?.bind fun c =>
    c.series.values.getLast?.map fun cell => (c.series.dtype, cell)

/-- The dtype and the cell of row `row` in the column `rows_to_dataframe_filled` makes for
a key. -/
def sequentialCell (rows : List Row) (schema : Schema) (key : Bytes) (row : Nat) :
    Option (DataType × AnyValue) :=
  (rowsToDataframeFilled rows (some schema)).toOption.bind fun df =>
    (df.column? key).bind fun c =>
      c.series.values[row]?.map fun cell => (c.series.dtype, cell)

theorem parallelCell_eq {m : DataFrameMaker} (hm : m.Ready) (ht : Typed m.schema m.tracks)
    (key : Bytes) :
    parallelCell m key =
      (cellsOf m.tracks key).bind fun cells =>
        cells.getLast?.map fun cell => (finishedType (trackType m.schema key), cell) := by
  have hcolumn := congrArg (Option.bind · fun made => made.2.getLast?.map (Prod.mk made.1))
    (madeColumn_eq hm ht key)
  simp only [Option.bind_map] at hcolumn
  exact hcolumn

/-- The parallel path stores the converted text. -/
theorem parallelCell_pushLine {m : DataFrameMaker} (hm : m.Ready) (ht : Typed m.schema m.tracks)
    {line key value : Bytes} (hw : m.wants key)
    (hd : (lineKeys line).Nodup) (hv : (key, value) ∈ handleParseLogfmtLineWithSchemaBase line) :
    parallelCell (m.pushLine line) key =
      some (finishedType (trackType m.schema key), convert (trackType m.schema key) value) := by
  obtain ⟨hready, htracks, hschema, -⟩ := DataFrameMaker.pushLine_spec hm line
  have htyped : Typed (m.pushLine line).schema (m.pushLine line).tracks := by
    rw [htracks, hschema]
    exact typed_pushLineTracks ht line
  have hmem : (key, value) ∈ wantedPairs m.columnKeys line :=
    List.mem_filter.mpr ⟨hv, by simpa [DataFrameMaker.wants] using hw⟩
  have hkey : key ∈ (wantedPairs m.columnKeys line).map Prod.fst := List.mem_map_of_mem hmem
  -- the key has one value in the line, so the last cell is its conversion
  have hone : valuesOf key (wantedPairs m.columnKeys line) = [value] := by
    have hsub : ((wantedPairs m.columnKeys line).map Prod.fst).Nodup :=
      hd.sublist ((List.filter_sublist).map _)
    exact valuesOf_eq_singleton hsub hmem
  rw [parallelCell_eq hready htyped, htracks, cellsOf_pushLineTracks ht hkey, hone, hschema]
  simp

/-- The sequential path stores the parsed value in a column of the schema's type. -/
theorem sequentialCell_eq (schema : Schema) (before after : List Bytes) {line key value : Bytes}
    (hd : (lineKeys line).Nodup) (hv : (key, value) ∈ handleParseLogfmtLineWithSchemaBase line) :
    sequentialCell (schemaRows schema (before ++ line :: after)) schema key before.length =
      some (InferredType.dtype (some (schemaType schema[key]?)),
        filledCell (some (schemaType schema[key]?)) (some (parseValueAs schema[key]? value))) := by
  have hkey : key ∈ lineKeys line := List.mem_map_of_mem hv
  have hline : line ∈ before ++ line :: after := by simp
  have htype := inferredType_schemaRows schema hline hkey
  have hget : (schemaRows schema (before ++ line :: after))[before.length]? =
      some (parseLogfmtLineWithSchema line (some schema)) := by
    simp [schemaRows]
  have hcell := filledCellAt_eq hget (mem_parseLogfmtLineWithSchema.mpr hkey) (some schema)
  rw [Option.bind_some, htype, getElem?_schemaRow, rawValue, lastValue_eq_some hd hv] at hcell
  exact hcell

/-- The two paths store the same dtype and cell for a value text exactly when the schema
does not list the key as a duration and, where it lists it as a time, the text is
one. The row may stand anywhere among other rows on both sides. -/
theorem cell_parity (schema : Schema) (columnKeys earlier before after : List Bytes)
    (line key value : Bytes) (hw : columnKeys = [] ∨ key ∈ columnKeys)
    (hd : (lineKeys line).Nodup) (hv : (key, value) ∈ handleParseLogfmtLineWithSchemaBase line) :
    parallelCell ((pushLines { schema := some schema, columnKeys := columnKeys } earlier).pushLine
          line) key =
        sequentialCell (schemaRows schema (before ++ line :: after)) schema key before.length ↔
      schema[key]? ≠ some .duration ∧
        (schema[key]? = some .dateTime → (parseFromRfc3339 value).isSome) := by
  obtain ⟨hready, htyped, hschema, hkeys⟩ := pushLines_spec
    (m := { schema := some schema, columnKeys := columnKeys })
    ⟨⟨by simp, by simp, by simp, rfl⟩, by simp⟩ (by intro t ht; cases ht) earlier
  rw [parallelCell_pushLine hready (by rw [hschema]; exact htyped)
      (by rw [DataFrameMaker.wants, hkeys]; exact hw) hd hv, hschema,
    sequentialCell_eq schema before after hd hv, Option.some_inj, Prod.mk.injEq]
  simp only [trackType, Option.bind_some]
  cases hfield : schema[key]? with
  | none => simp [builderType, finishedType, convert, schemaType, InferredType.dtype, filledCell,
      stringCell, parseValueAs, ParsedValue.asString]
  | some field =>
    cases field with
    | string => simp [builderType, finishedType, convert, schemaType, InferredType.dtype,
        filledCell, stringCell, parseValueAs, ParsedValue.asString]
    | auto => simp [builderType, finishedType, convert, schemaType, InferredType.dtype, filledCell,
        stringCell, parseValueAs, ParsedValue.asString]
    | integer => simp [builderType, finishedType, convert, schemaType, InferredType.dtype,
        filledCell, intCell, parseValueAs]
    | float => simp [builderType, finishedType, convert, schemaType, InferredType.dtype, filledCell,
        floatCell, parseValueAs]
    | boolean => simp [builderType, finishedType, convert, schemaType, InferredType.dtype,
        filledCell, boolCell, parseValueAs]
    | duration => simp [builderType, finishedType, schemaType, InferredType.dtype]
    | dateTime =>
      cases hparse : parseFromRfc3339 value with
      | some dt => simp [builderType, finishedType, convert, schemaType, InferredType.dtype,
          filledCell, dateTimeCell, parseValueAs, hparse]
      | none => simp [builderType, finishedType, convert, schemaType, InferredType.dtype,
          filledCell, dateTimeCell, parseValueAs, hparse]

end

section

attribute [local instance] smallCrates

/-- `d` is a duration. -/
def durationSchema : Schema := (∅ : Schema).insert (Utf8.ofString "d") .duration

/-- `d=1s` -/
def durationLine : Bytes := Utf8.ofString "d=1s"

/-- `t=now` -/
def badTimeLine : Bytes := Utf8.ofString "t=now"

/-- `t` is a time. -/
def timeSchema : Schema := (∅ : Schema).insert (Utf8.ofString "t") .dateTime

/-- Under a schema that lists `n` as an integer both paths store 7 for `n=7`. -/
theorem cell_parity_integer :
    parallelCell ((pushLines { schema := some ((∅ : Schema).insert (Utf8.ofString "n") .integer) }
          []).pushLine (Utf8.ofString "n=7")) (Utf8.ofString "n") =
      sequentialCell (schemaRows ((∅ : Schema).insert (Utf8.ofString "n") .integer)
          ([] ++ Utf8.ofString "n=7" :: [])) ((∅ : Schema).insert (Utf8.ofString "n") .integer)
        (Utf8.ofString "n") 0 :=
  (cell_parity ((∅ : Schema).insert (Utf8.ofString "n") .integer) [] [] [] []
    (Utf8.ofString "n=7") (Utf8.ofString "n") (Utf8.ofString "7") (.inl rfl)
    (by decide +kernel) (by decide +kernel)).mpr (by decide +kernel)

/-- A duration is an integer on the one path and a text on the other; a text that is no
time is 1970 on the one and null on the other. -/
theorem cell_parity_counterexample :
    parallelCell (({ schema := some durationSchema } : DataFrameMaker).pushLine durationLine)
        (Utf8.ofString "d") = some (.int64, .int64 1000000) ∧
      sequentialCell (schemaRows durationSchema [durationLine]) durationSchema
        (Utf8.ofString "d") 0 = some (.string, .string (Utf8.ofString "1s")) ∧
      parallelCell (({ schema := some durationSchema } : DataFrameMaker).pushLine durationLine)
          (Utf8.ofString "d") ≠
        sequentialCell (schemaRows durationSchema [durationLine]) durationSchema
          (Utf8.ofString "d") 0 ∧
      parallelCell (({ schema := some timeSchema } : DataFrameMaker).pushLine badTimeLine)
          (Utf8.ofString "t") ≠
        sequentialCell (schemaRows timeSchema [badTimeLine]) timeSchema (Utf8.ofString "t") 0 := by
  decide +kernel

end

end PolarsLogfmt
