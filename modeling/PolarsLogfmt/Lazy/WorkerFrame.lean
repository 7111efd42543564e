import PolarsLogfmt.Lazy.AlignedFrame
import PolarsLogfmt.Lazy.WorkerLines

/-!
# The frame of a worker

With `aligned_cols_cnt` a worker takes its columns from the first line it pushes, if
that has a key: from then on its maker is the one of `AlignedFrame`. Without, or
when that line has none, it has no columns yet.
-/

namespace PolarsLogfmt

variable [Crates]

/-- The keys of a line, sorted: the columns it stands for. -/
def lineColumns (line : Bytes) : List Bytes := (parseLogfmtLine line).keys

theorem mem_lineColumns {line key : Bytes} : key ∈ lineColumns line ↔ key ∈ lineKeys line := by
  rw [lineColumns, Std.ExtTreeMap.mem_keys, parseLogfmtLine, mem_parseLogfmtLineWithSchema]

theorem lineColumns_nodup (line : Bytes) : (lineColumns line).Nodup := Std.ExtTreeMap.nodup_keys

/-- The schema of a worker's maker: the one of the scan, or that of its first line. -/
def makerSchema (opts : FrameOpts) (line : Bytes) : Schema :=
  opts.schema.getD (inferSchemaFromRow (parseLogfmtLine line))

/-! ## The state -/

/-- Once a worker has its columns and its schema, a line only goes into the builders. -/
theorem acceptLine_settled {opts : FrameOpts} {st : WorkerState} (hk : st.columnKeys ≠ [])
    (hm : st.dfMaker.columnKeys ≠ []) (hs : st.dfMaker.schema ≠ none) (firstRow : Option Row)
    (line : Bytes) :
    (acceptLine opts firstRow st line).2 =
      { columnKeys := st.columnKeys, dfMaker := st.dfMaker.pushLine line } := by
  unfold acceptLine
  simp [hk, hm, hs]

/-- The first line of an aligned scan gives the columns. -/
theorem acceptLine_first {opts : FrameOpts} (ha : opts.alignedColsCnt = true) {line : Bytes}
    (hk : lineColumns line ≠ []) :
    (acceptLine opts none { dfMaker := { schema := opts.schema } } line).2 =
      { columnKeys := lineColumns line
        dfMaker := DataFrameMaker.pushLine
          { schema := some (makerSchema opts line), columnKeys := lineColumns line } line } := by
  unfold acceptLine makerSchema
  unfold lineColumns at hk ⊢
  cases hs : opts.schema with
  | none => simp [ha, hk]
  | some schema => simp [ha, hk]

/-- After a first line with keys the worker is its columns and a maker that has pushed all
lines. -/
theorem pushed_aligned {opts : FrameOpts} (ha : opts.alignedColsCnt = true) {first : PushedLine}
    (hk : lineColumns first.line ≠ []) (lines : List PushedLine) :
    (pushed opts (first :: lines)).worker =
      { columnKeys := lineColumns first.line
        dfMaker := pushLines
          { schema := some (makerSchema opts first.line), columnKeys := lineColumns first.line }
          ((first :: lines).map PushedLine.line) } := by
  induction lines using List.reverseRecOn with
  | nil => exact acceptLine_first ha hk
  | append_singleton lines p ih =>
    obtain ⟨-, -, hschema, hcols⟩ := pushLines_spec
      (DataFrameMaker.ready_asked (some (makerSchema opts first.line)) (lineColumns first.line))
      (by simp [Typed, DataFrameMaker.tracks]) ((first :: lines).map PushedLine.line)
    rw [← List.cons_append, pushed_concat, LineState.push_worker, ih, acceptLine_settled hk
      (by rw [hcols]; exact hk) (by rw [hschema]; simp), List.map_append, List.map_singleton,
      pushLines_concat]

/-- A worker without columns. -/
structure WorkerState.Columnless (st : WorkerState) : Prop where
  columnKeys : st.columnKeys = []
  makerKeys : st.dfMaker.columnKeys = []
  ready : st.dfMaker.Ready

/-- A maker without columns that has pushed a line. -/
theorem columnless_pushLine {m : DataFrameMaker} (hready : m.Ready) (hm : m.columnKeys = [])
    (line : Bytes) : WorkerState.Columnless { columnKeys := [], dfMaker := m.pushLine line } := by
  obtain ⟨hready', -, -, hcols⟩ := DataFrameMaker.pushLine_spec hready line
  exact ⟨rfl, hcols.trans hm, hready'⟩

/-- The schema of a maker is no matter of its columns. -/
theorem ready_withSchema {m : DataFrameMaker} (hready : m.Ready) (schema : Option Schema) :
    ({ m with schema := schema } : DataFrameMaker).Ready :=
  ⟨⟨hready.names, hready.slots, hready.entries, hready.seen_length⟩, hready.seen_le⟩

/-- Without `aligned_cols_cnt` no line gives a worker columns. -/
theorem acceptLine_unaligned {opts : FrameOpts} (ha : opts.alignedColsCnt = false)
    {st : WorkerState} (hst : st.Columnless) (firstRow : Option Row) (line : Bytes) :
    (acceptLine opts firstRow st line).2.Columnless := by
  obtain ⟨hk, hm, hready⟩ := hst
  unfold acceptLine
  simp only [ha, hk, Bool.false_eq_true, false_and, if_false]
  apply columnless_pushLine
  · split
    · split
      · exact ready_withSchema hready _
      · exact hready
    · exact hready
  · split
    · split
      · exact hm
      · exact hm
    · exact hm

/-- Nor does a line without a key. -/
theorem acceptLine_keyless (opts : FrameOpts) {st : WorkerState} (hst : st.Columnless)
    {firstRow : Option Row} (hrow : ∀ row ∈ firstRow, row.keys = []) {line : Bytes}
    (hline : lineColumns line = []) :
    (acceptLine opts firstRow st line).2.Columnless ∧
      ∀ row ∈ (acceptLine opts firstRow st line).1, row.keys = [] := by
  obtain ⟨hk, hm, hready⟩ := hst
  obtain ⟨row, hfirst, hkeys⟩ : ∃ row : Row, (acceptLine opts firstRow st line).1 = some row ∧
      row.keys = [] := by
    unfold acceptLine
    cases firstRow with
    | some row => exact ⟨row, by simp, hrow row rfl⟩
    | none =>
      refine ⟨parseLogfmtLine line, ?_, hline⟩
      cases opts.schema <;> simp [hk]
  refine ⟨?_, fun row' hrow' => ?_⟩
  · unfold acceptLine at hfirst ⊢
    simp only [hk] at hfirst ⊢
    simp only [hfirst, hkeys, ite_self, ne_eq, not_true, and_false, if_false]
    apply columnless_pushLine
    · split
      · exact ready_withSchema hready _
      · exact hready
    · split
      · exact hm
      · exact hm
  · rw [hfirst] at hrow'
    cases hrow'
    exact hkeys

theorem columnless_new (schema : Option Schema) :
    WorkerState.Columnless { dfMaker := { schema := schema } } :=
  ⟨rfl, rfl, DataFrameMaker.ready_new schema⟩

theorem pushed_unaligned {opts : FrameOpts} (ha : opts.alignedColsCnt = false)
    (lines : List PushedLine) : (pushed opts lines).worker.Columnless := by
  induction lines using List.reverseRecOn with
  | nil => exact columnless_new opts.schema
  | append_singleton lines p ih =>
    rw [pushed_concat, LineState.push_worker]
    exact acceptLine_unaligned ha ih _ _

/-- A worker whose lines have no key gets no columns. -/
theorem pushed_keyless {opts : FrameOpts} {lines : List PushedLine}
    (h : ∀ p ∈ lines, lineColumns p.line = []) :
    (pushed opts lines).worker.Columnless ∧ ∀ row ∈ (pushed opts lines).firstRow,
    row.keys = [] := by
  induction lines using List.reverseRecOn with
  | nil => exact ⟨columnless_new opts.schema, by simp [pushed]⟩
  | append_singleton lines p ih =>
    obtain ⟨hworker, hfirst⟩ := ih fun q hq => h q (List.mem_append_left _ hq)
    rw [pushed_concat]
    refine acceptLine_keyless opts hworker ?_ (h p (by simp))
    intro row hrow
    unfold LineState.rowIn at hrow
    split at hrow
    · exact hfirst row hrow
    · cases hrow

/-! ## The frame -/

/-- A maker without columns makes the empty frame. -/
theorem finishWorker_of_no_columns {opts : FrameOpts} {st : WorkerState}
    (h : st.dfMaker.columnKeys = []) : finishWorker opts st = .ok .empty := by
  unfold finishWorker DataFrameMaker.toDf
  rw [h]
  rfl

theorem workerFrame_nil (opts : FrameOpts) : workerFrame opts [] = .ok .empty :=
  finishWorker_of_no_columns rfl

theorem workerFrame_unaligned {opts : FrameOpts} (ha : opts.alignedColsCnt = false)
    (lines : List PushedLine) : workerFrame opts lines = .ok .empty :=
  finishWorker_of_no_columns (pushed_unaligned ha lines).makerKeys

/-- Without a predicate and a projection a worker's frame is the maker's. -/
theorem finishFrame_plain {opts : FrameOpts} (hp : opts.predicate = none)
    (hc : opts.withColumns = none) (df : DataFrame) :
    finishFrame opts df = .ok (if 0 < df.width ∧ 0 < df.height then df else .empty) := by
  have hpush : applyPushdown df opts.predicate opts.withColumns = .ok df := by
    rw [hp, hc]
    rfl
  rw [finishFrame, hpush, ite_self]
  rfl

/-- The lines a worker can align: the first has a key, and none has a key of the first twice. -/
def Aligned : List Bytes → Prop
  | [] => True
  | first :: lines => lineColumns first ≠ [] ∧ ∀ line ∈ first :: lines,
      HasOnce (lineColumns first) line

instance : DecidablePred Aligned
  | [] => .isTrue trivial
  | first :: lines => inferInstanceAs (Decidable (lineColumns first ≠ [] ∧
      ∀ line ∈ first :: lines, HasOnce (lineColumns first) line))

/-- The frame a worker makes of lines it can align. -/
theorem workerFrame_aligned {opts : FrameOpts} (ha : opts.alignedColsCnt = true)
    {first : PushedLine} {lines : List PushedLine}
    (h : Aligned ((first :: lines).map PushedLine.line)) :
    workerFrame opts (first :: lines) =
      finishFrame opts (alignedFrame (some (makerSchema opts first.line)) (lineColumns first.line)
        (lineColumns_nodup first.line) ((first :: lines).map PushedLine.line)) := by
  obtain ⟨hk, honce⟩ := h
  have hfirst : ∀ line ∈ ((first :: lines).map PushedLine.line).head?,
      ∀ key ∈ lineColumns first.line, key ∈ lineKeys line := by
    rintro line ⟨⟩ key hkey
    exact mem_lineColumns.mp hkey
  rw [workerFrame, finishWorker, pushed_aligned ha hk,
    DataFrameMaker.toDf_pushLines (some (makerSchema opts first.line))
      (lineColumns_nodup first.line)
      hk (by simp) hfirst honce]
  rfl

/-- Lines without a key give no column. -/
theorem workerFrame_keyless {opts : FrameOpts} {lines : List PushedLine}
    (h : ∀ p ∈ lines, lineColumns p.line = []) : workerFrame opts lines = .ok .empty :=
  finishWorker_of_no_columns (pushed_keyless h).1.makerKeys

end PolarsLogfmt
