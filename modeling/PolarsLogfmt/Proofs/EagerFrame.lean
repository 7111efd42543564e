import PolarsLogfmt.Frame.TimeFilter
import PolarsLogfmt.Proofs.RowLimit

/-!
# The frame of printed rows

A program that parses the lines on its own and makes a frame of the rows with `rows_to_dataframe`
has the frame of a lazy scan exactly when all columns are texts and no row misses a key: the one
leaves a missing cell null and prints every value, the other fills it and keeps the type of the
schema.
-/

namespace PolarsLogfmt

section

variable [Crates]

/-- The rows of the lines a reader accepts, without the reader. -/
def LazyLogFmtReader.eagerRows (self : LazyLogFmtReader) (schema : Schema) (text : Bytes) :
    List Row :=
  ((acceptedLines self.lineFilter text).map fun line =>
      parseLogfmtLineWithSchema line (some schema)).filter fun row =>
    self.rowFilter.all fun rf => rf row

/-- They are those of the lines it keeps. -/
theorem LazyLogFmtReader.eagerRows_eq (self : LazyLogFmtReader) (schema : Schema) (text : Bytes) :
    self.eagerRows schema text =
      (self.keptLines schema text).map fun line =>
        parseLogfmtLineWithSchema line (some schema) := by
  unfold eagerRows
  rw [keptLines_accepted, List.filter_map]
  rfl

/-- In a column of texts a value is printed, -/
theorem filledCell_text {type : InferredType} (htext : InferredType.dtype (some type) = .string)
    (value : Option ParsedValue) : filledCell (some type) value = .string (stringCell value) := by
  cases type with
  | string => rfl
  | duration => rfl
  | int => cases htext
  | float => cases htext
  | bool => cases htext
  | dateTime => cases htext

/-- and filled in where it is missing. -/
theorem printedCell_eq_iff {type : InferredType} (htext : InferredType.dtype (some type) = .string)
    (value : Option ParsedValue) :
    printedCell value = filledCell (some type) value ↔ value.isSome := by
  rw [filledCell_text htext]
  cases value with
  | none =>
    refine iff_of_false ?_ (by simp)
    intro h
    cases h
  | some value => exact iff_of_true rfl rfl

/-- The frame of printed rows is that of rows read under a schema when all columns are texts and no
row misses a key. -/
theorem printed_eq_filled_iff {schema : Schema} {rows : List Row}
    (hrows : ∀ row ∈ rows, ReadUnder schema row) :
    rowsToDataframe rows = .ok (filledFrame rows (some schema)) ↔
      ∀ row ∈ rows, ∀ key ∈ row, InferredType.dtype (some (schemaType schema[key]?)) = .string ∧
        ∀ other ∈ rows, key ∈ other := by
  have hmap := @Table.frame_eq_map_iff _ _ _ (printedTable (rowKeys rows) (rowKeys_nodup rows))
    (filledTable schema (rowKeys rows) (rowKeys_nodup rows)) rfl id rows
  rw [List.map_id] at hmap
  rw [rowsToDataframe_table, Except.ok.injEq,
    filledFrame_eq_table hrows rfl (rowKeys_nodup rows), hmap]
  constructor
  · intro h row hrow key hkey
    obtain ⟨htype, hcells⟩ := h key (mem_rowKeys.mpr ⟨row, hrow, hkey⟩)
    refine ⟨htype.symm, fun other hother => ?_⟩
    apply Std.ExtTreeMap.mem_iff_isSome_getElem?.mpr
    exact (printedCell_eq_iff htype.symm other[key]?).mp (hcells other hother)
  · intro h key hkey
    obtain ⟨row, hrow, hmem⟩ := mem_rowKeys.mp hkey
    obtain ⟨htext, hall⟩ := h row hrow key hmem
    refine ⟨htext.symm, fun other hother => ?_⟩
    apply (printedCell_eq_iff htext other[key]?).mpr
    exact Std.ExtTreeMap.mem_iff_isSome_getElem?.mp (hall other hother)

/-- The frame a program makes of the rows it parses is that of a lazy scan exactly when every key of
a row is a column of texts that all the rows have. -/
theorem eager_frame_iff {self : LazyLogFmtReader} {text : Bytes}
    (hsource : self.source.Delivers text)
    (ha : self.alignedColsCnt = false) (hsize : self.batchSize = none) {sched : Schedule}
    {df : DataFrame} (hdf : sliceOutcome self none sched = some df) {schema : Schema}
    (hschema : self.textSchema text = .ok schema) :
    rowsToDataframe (self.eagerRows schema text) = .ok df ↔
      ∀ row ∈ self.eagerRows schema text, ∀ key ∈ row,
        InferredType.dtype (some (schemaType schema[key]?)) = .string ∧
          ∀ other ∈ self.eagerRows schema text, key ∈ other := by
  obtain ⟨schema', hschema', hread, hvalid⟩ := readable_of_once hsource ha hsize hdf
  rw [hschema] at hschema'
  cases hschema'
  have hrows : batchRows (self.batchOpts (some schema)) (self.keptLines schema text) =
      self.eagerRows schema text := by
    rw [batchRows_unaligned ha, LazyLogFmtReader.eagerRows_eq]
    rfl
  have hunder := @readUnder_batchRows _ (self.batchOpts (some schema)) schema rfl
    (self.keptLines schema text)
  have hmade := sliceOutcome_once hsource ha hsize hschema hread hvalid sched
  rw [hrows] at hmade hunder
  rw [hdf, Option.some.injEq] at hmade
  rw [hmade]
  exact printed_eq_filled_iff hunder

end

section

attribute [local instance] smallCrates

/-- The row of the first of three lines misses a key. -/
theorem eager_frame_pairs : rowsToDataframe (pairReader.eagerRows ∅ pairText) ≠ .ok pairFrame := by
  have hsource : pairReader.source.Delivers pairText := rfl
  have hrow : ∀ line ∈ pairReader.keptLines ∅ pairText,
      parseLogfmtLineWithSchema line (some ∅) ∈ pairReader.eagerRows ∅ pairText := by
    intro line hline
    rw [LazyLogFmtReader.eagerRows_eq]
    exact List.mem_map_of_mem hline
  intro heq
  have hall := (eager_frame_iff hsource rfl rfl sliceOutcome_pairReader rfl).mp heq
    (parseLogfmtLineWithSchema (Utf8.ofString "a=2 b=3\n") (some ∅)) (hrow _ (by decide +kernel))
    (Utf8.ofString "b") (by decide +kernel)
  have hfirst := hall.2 (parseLogfmtLineWithSchema (Utf8.ofString "a=1\n") (some ∅))
    (hrow _ (by decide +kernel))
  revert hfirst
  decide +kernel

end

end PolarsLogfmt
