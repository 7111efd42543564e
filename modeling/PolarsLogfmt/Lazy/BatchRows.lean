import PolarsLogfmt.Lazy.ParseBatch

/-!
# The rows of a batch

The lines that become rows are the ones `BatchOpts.keeps` passes. What the loop of
`parse_batch_from_reader` does to the rows and the column keys is `pushRow` over
these lines.
-/

namespace PolarsLogfmt

variable [Crates]

/-- The line becomes a row: it is accepted, and its row passes the row filter. -/
def BatchOpts.keeps (opts : BatchOpts) (line : Bytes) : Bool :=
  accepts opts.lineFilter line &&
    opts.rowFilter.all fun rf => rf (parseLogfmtLineWithSchema line opts.schema)

/-- The row of a kept line, and the column keys after it. -/
def pushRow (opts : BatchOpts) (acc : List Row × List Bytes) (line : Bytes) :
    List Row × List Bytes :=
  let row := parseLogfmtLineWithSchema line opts.schema
  if opts.alignedColsCnt then (acc.1 ++ [(alignRow acc.2 row).1], (alignRow acc.2 row).2)
  else (acc.1 ++ [row], acc.2)

/-- The rows of a batch of kept lines. -/
def batchRows (opts : BatchOpts) (lines : List Bytes) : List Row :=
  (lines.foldl (pushRow opts) ([], [])).1

theorem length_foldl_pushRow (opts : BatchOpts) (lines : List Bytes) (acc : List Row × List Bytes) :
    (lines.foldl (pushRow opts) acc).1.length = acc.1.length + lines.length := by
  induction lines generalizing acc with
  | nil => rfl
  | cons line lines ih =>
    have hone : (pushRow opts acc line).1.length = acc.1.length + 1 := by
      unfold pushRow
      simp only
      split <;> simp
    rw [List.foldl_cons, ih, hone, List.length_cons]
    omega

theorem length_batchRows (opts : BatchOpts) (lines : List Bytes) :
    (batchRows opts lines).length = lines.length := by
  rw [batchRows, length_foldl_pushRow]
  exact Nat.zero_add _

/-- Without `aligned_cols_cnt` a row is its line. -/
theorem batchRows_unaligned {opts : BatchOpts} (ha : opts.alignedColsCnt = false)
    (lines : List Bytes) :
    batchRows opts lines = lines.map fun line => parseLogfmtLineWithSchema line opts.schema := by
  have h : ∀ acc, (lines.foldl (pushRow opts) acc).1 =
      acc.1 ++ lines.map fun line => parseLogfmtLineWithSchema line opts.schema := by
    induction lines with
    | nil => simp
    | cons line lines ih =>
      intro acc
      rw [List.foldl_cons, ih, pushRow]
      simp [ha]
  exact h _

/-! ## The loop -/

/-- A kept line adds its row, any other leaves the rows alone. -/
theorem takeLine_rows (opts : BatchOpts) (st : BatchState) (line : Bytes) :
    ((st.takeLine opts line).rows, (st.takeLine opts line).columnKeys) =
      if opts.keeps line then pushRow opts (st.rows, st.columnKeys) line
      else (st.rows, st.columnKeys) := by
  unfold BatchState.takeLine BatchOpts.keeps pushRow
  by_cases hacc : accepts opts.lineFilter line
  · simp only [hacc, if_true, Bool.true_and]
    split
    · split <;> rfl
    · rfl
  · simp [hacc]

theorem foldl_takeLine_rows (opts : BatchOpts) (st : BatchState) (lines : List Bytes) :
    ((lines.foldl (BatchState.takeLine opts) st).rows,
        (lines.foldl (BatchState.takeLine opts) st).columnKeys) =
      (lines.filter opts.keeps).foldl (pushRow opts) (st.rows, st.columnKeys) := by
  induction lines generalizing st with
  | nil => rfl
  | cons line lines ih =>
    rw [List.foldl_cons, ih, takeLine_rows]
    by_cases hk : opts.keeps line
    · rw [List.filter_cons_of_pos hk, if_pos hk, List.foldl_cons]
    · rw [List.filter_cons_of_neg hk, if_neg hk]

/-- The rows after some lines are those of the kept ones. -/
theorem foldl_takeLine_eq (opts : BatchOpts) (lines : List Bytes) :
    (lines.foldl (BatchState.takeLine opts) {}).rows = batchRows opts (lines.filter opts.keeps) :=
  congrArg Prod.fst (foldl_takeLine_rows opts {} lines)

theorem length_foldl_takeLine (opts : BatchOpts) (st : BatchState) (lines : List Bytes) :
    (lines.foldl (BatchState.takeLine opts) st).rows.length =
      st.rows.length + (lines.filter opts.keeps).length := by
  have hrows := congrArg (fun acc => acc.1.length) (foldl_takeLine_rows opts st lines)
  exact hrows.trans (length_foldl_pushRow opts _ _)

/-- Every row was counted as a line. -/
theorem rows_le_linesRead (opts : BatchOpts) {st : BatchState} (h : st.rows.length ≤ st.linesRead)
    (lines : List Bytes) :
    (lines.foldl (BatchState.takeLine opts) st).rows.length ≤
      (lines.foldl (BatchState.takeLine opts) st).linesRead := by
  induction lines generalizing st with
  | nil => exact h
  | cons line lines ih =>
    refine ih ?_
    unfold BatchState.takeLine
    split
    · simp only
      split
      · split
        · simpa using h
        · simpa using h
      · exact Nat.le_succ_of_le h
    · exact h

end PolarsLogfmt
