import PolarsLogfmt.Lazy.BatchLines
import PolarsLogfmt.Lazy.InferText

/-!
# The first batch of a text

A batch without a size takes all lines. Its rows are the accepted lines, parsed with the
schema of the reader, and its frame has the column types of that schema, or of the first
line when there is none.
-/

namespace PolarsLogfmt

variable [Crates]

/-- The frame of the accepted lines of a text. -/
def firstFrame (schema : Option Schema) : List Bytes → Option DataFrame
  | [] => none
  | first :: lines =>
      some (filledFrame
        ((first :: lines).map fun line => parseLogfmtLineWithSchema line schema)
        (some (schema.getD (lineSchema first))))

/-- Without a schema the first accepted line is kept to infer one from. -/
theorem foldl_takeLine_firstRow {opts : BatchOpts} (hs : opts.schema = none) (lines : List Bytes)
    (st : BatchState) :
    (lines.foldl (BatchState.takeLine opts) st).firstRow =
      st.firstRow.or ((lines.filter (accepts opts.lineFilter)).head?.map parseLogfmtLine) := by
  induction lines generalizing st with
  | nil => simp
  | cons line lines ih =>
    rw [List.foldl_cons, ih]
    by_cases hacc : accepts opts.lineFilter line
    · have hone : (st.takeLine opts line).firstRow =
        st.firstRow.or (some (parseLogfmtLine line)) := by
        unfold BatchState.takeLine parseLogfmtLine
        simp only [hacc, if_true, hs, Option.isNone_none, true_and]
        cases st.firstRow <;> (simp only [Option.isNone_none, Option.isNone_some]; split <;>
          first | rfl | (split <;> rfl))
      rw [List.filter_cons_of_pos hacc, hone, List.head?_cons, Option.map_some, Option.or_assoc]
      rfl
    · have hsame : st.takeLine opts line = st := by
        unfold BatchState.takeLine
        simp only [hacc, Bool.false_eq_true, if_false]
      rw [List.filter_cons_of_neg hacc, hsame]

/-- Without a row filter the accepted lines are kept. -/
theorem keeps_eq_accepts {opts : BatchOpts} (hr : opts.rowFilter = none) :
    opts.keeps = accepts opts.lineFilter := by
  funext line
  rw [BatchOpts.keeps, hr, Option.all_none, Bool.and_true]

/-- The frame a batch of all lines ends in. -/
theorem finishBatch_all {opts : BatchOpts} (ha : opts.alignedColsCnt = false)
    (hr : opts.rowFilter = none) (lines : List Bytes) (state : LogFmtReaderState) :
    (LazyLogFmtReader.finishBatch {} none opts.schema state
        (lines.foldl (BatchState.takeLine opts) {}) true).1 =
      .ok (firstFrame opts.schema (lines.filter (accepts opts.lineFilter))) := by
  have hrows : (lines.foldl (BatchState.takeLine opts) {}).rows =
      (lines.filter (accepts opts.lineFilter)).map
        fun line => parseLogfmtLineWithSchema line opts.schema := by
    rw [foldl_takeLine_eq, batchRows_unaligned ha, keeps_eq_accepts hr]
  have hfirst := fun hs => @foldl_takeLine_firstRow _ opts hs lines {}
  generalize lines.foldl (BatchState.takeLine opts) {} = batch at hrows hfirst
  unfold LazyLogFmtReader.finishBatch
  rw [hrows]
  cases hacc : lines.filter (accepts opts.lineFilter) with
  | nil => rfl
  | cons first rest =>
    rw [hacc] at hfirst
    have hused : opts.schema.or (batch.firstRow.map inferSchemaFromRow) =
        some (opts.schema.getD (lineSchema first)) := by
      cases hs : opts.schema with
      | some schema => rfl
      | none =>
        rw [hfirst hs]
        rfl
    simp only [List.map_cons, reduceCtorEq, and_false, if_false, hused]
    rw [rowsToDataframeFilled_eq]
    rfl

/-- The first batch of a text of valid lines, from whatever source delivers it. -/
theorem singleBatch_valid {self : LazyLogFmtReader} {text : Bytes}
    (hsource : self.source.Delivers text)
    (hvalid : ∀ line ∈ Lines.split newline text, checkLine line = .ok line)
    (ha : self.alignedColsCnt = false) (hr : self.rowFilter = none) {schema pred : Option Schema}
    (hpred : (if schema.isNone then self.predictSchemaFromFirstLine self.inferSchemaLength
      else .ok none) = .ok pred) :
    (self.singleBatch {} none schema {}).1 =
      .ok (firstFrame (schema.or pred)
        ((Lines.split newline text).filter (accepts self.lineFilter))) := by
  have hopen := LazyLogFmtReader.openReader_delivers hsource
  rw [LineReader.ofBytes_valid hvalid] at hopen
  obtain ⟨left, eof, -, hbatch, heof⟩ := @parseBatchFromReader_readable _
    (self.batchOpts (schema.or pred)) none (Lines.split newline text)
  obtain rfl : eof = true := heof.mpr (by simp)
  rw [batchLines_all, LineReader.readable] at hbatch
  unfold LazyLogFmtReader.singleBatch
  simp only [Option.elim_none, hopen, hpred, readBatch_eq, hbatch]
  exact @finishBatch_all _ (self.batchOpts (schema.or pred)) ha hr _ _

end PolarsLogfmt
