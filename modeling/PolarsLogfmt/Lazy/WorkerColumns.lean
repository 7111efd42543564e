import PolarsLogfmt.Frame.SelectedRows
import PolarsLogfmt.Lazy.MadeColumns
import PolarsLogfmt.Lazy.WorkerFrame

/-!
# The columns of a worker

With `aligned_cols_cnt` a worker takes its columns from a line that has a key and comes first in a
frame. Until it gets to one its builders take every key; from there on they take these, and have a
cell for each of them.
-/

namespace PolarsLogfmt

variable [Crates]

/-! ## The columns -/

/-- A line that comes first in its frame gives its columns to a worker that has none. -/
def nextColumns (frame : Option Nat) (columns : List Bytes) (p : PushedLine) : List Bytes :=
  if columns = [] ∧ frame ≠ some p.frame then lineColumns p.line else columns

/-- The columns of a worker that has pushed some lines. -/
def startColumns (lines : List PushedLine) : List Bytes :=
  (lines.foldl (fun (frame, columns) p => (some p.frame, nextColumns frame columns p))
    ((none, []) : Option Nat × List Bytes)).2

theorem startColumns_concat (lines : List PushedLine) (p : PushedLine) :
    startColumns (lines ++ [p]) =
      nextColumns (lines.getLast?.map PushedLine.frame) (startColumns lines) p := by
  have hframe : ∀ lines : List PushedLine,
      (lines.foldl (fun (frame, columns) p => (some p.frame, nextColumns frame columns p))
        ((none, []) : Option Nat × List Bytes)).1 = lines.getLast?.map PushedLine.frame := by
    intro lines
    rcases List.eq_nil_or_concat lines with rfl | ⟨init, last, rfl⟩
    · rfl
    · rw [List.concat_eq_append, List.foldl_append, List.getLast?_append]
      rfl
  unfold startColumns
  rw [List.foldl_append, ← hframe lines]
  rfl

theorem startColumns_nodup (lines : List PushedLine) : (startColumns lines).Nodup := by
  induction lines using List.reverseRecOn with
  | nil => exact List.nodup_nil
  | append_singleton lines p ih =>
    rw [startColumns_concat, nextColumns]
    split
    · exact lineColumns_nodup p.line
    · exact ih

/-- Columns that a worker has it keeps. -/
theorem startColumns_kept {lines : List PushedLine} (h : startColumns lines ≠ []) (p : PushedLine) :
    startColumns (lines ++ [p]) = startColumns lines := by
  rw [startColumns_concat, nextColumns, if_neg fun hnone => h hnone.1]

theorem startColumns_append {before : List PushedLine} (h : startColumns before ≠ [])
    (after : List PushedLine) : startColumns (before ++ after) = startColumns before := by
  induction after using List.reverseRecOn with
  | nil => rw [List.append_nil]
  | append_singleton after p ih =>
    rw [← List.append_assoc, startColumns_kept (by rw [ih]; exact h), ih]

/-! ## The builders -/

/-- What a worker with `aligned_cols_cnt` has after some lines: its columns, and builders that are
typed by the schema. They have all keys while it has no columns, and cells for every column when it
has. -/
structure BuildsColumns (opts : FrameOpts) (lines : List PushedLine) (st : LineState) : Prop where
  frame : st.frame = lines.getLast?.map PushedLine.frame
  columnKeys : st.worker.columnKeys = startColumns lines
  makerKeys : st.worker.dfMaker.columnKeys = startColumns lines
  firstRow : lines ≠ [] → startColumns lines = [] → ∃ row, st.firstRow = some row ∧ row.keys = []
  schema : st.worker.dfMaker.schema =
    lines.head?.elim opts.schema fun first => some (makerSchema opts first.line)
  ready : st.worker.dfMaker.Ready
  typed : Typed st.worker.dfMaker.schema st.worker.dfMaker.tracks
  names : startColumns lines = [] → ∀ key, key ∈ st.worker.dfMaker.tracks.map Track.name ↔
    ∃ p ∈ lines, key ∈ lineKeys p.line
  filled : ∀ key ∈ startColumns lines, ∃ cells,
    cellsOf st.worker.dfMaker.tracks key = some cells ∧ cells ≠ []

/-- The maker a line is pushed to: the one there is, once the line has given it columns and a
schema. -/
structure Receives (opts : FrameOpts) (lines : List PushedLine) (p : PushedLine)
    (maker : DataFrameMaker) : Prop where
  ready : maker.Ready
  typed : Typed maker.schema maker.tracks
  tracks : maker.tracks = (pushed opts lines).worker.dfMaker.tracks
  columnKeys : maker.columnKeys = startColumns (lines ++ [p])
  schema : maker.schema = some (makerSchema opts ((lines ++ [p]).head (by simp)).line)
  worker : (pushed opts (lines ++ [p])).worker =
    { columnKeys := startColumns (lines ++ [p]), dfMaker := maker.pushLine p.line }

/-- A worker without columns takes the keys of the first row, and its schema if it has none. -/
theorem acceptLine_start {opts : FrameOpts} (ha : opts.alignedColsCnt = true) {st : WorkerState}
    (hk : st.columnKeys = []) (hm : st.dfMaker.columnKeys = []) (firstRow : Option Row)
    (line : Bytes) :
    acceptLine opts firstRow st line =
      (some (firstRow.getD (parseLogfmtLine line)),
        { columnKeys := (firstRow.getD (parseLogfmtLine line)).keys
          dfMaker := DataFrameMaker.pushLine
            { st.dfMaker with
              columnKeys := (firstRow.getD (parseLogfmtLine line)).keys
              schema := st.dfMaker.schema.or
                (some (inferSchemaFromRow (firstRow.getD (parseLogfmtLine line)))) } line }) := by
  obtain ⟨columnKeys, schema, makerKeys, columnInfos, rowSeen, rowsPushed, arrays⟩ := st
  obtain rfl : columnKeys = [] := hk
  obtain rfl : makerKeys = [] := hm
  -- the row is that of the line when the frame has none yet
  obtain ⟨row, hrow⟩ : ∃ row, row = firstRow.getD (parseLogfmtLine line) := ⟨_, rfl⟩
  unfold acceptLine
  rw [← hrow]
  cases firstRow with
  | some first =>
    obtain rfl : row = first := hrow
    by_cases hkeys : row.keys = []
    · cases schema <;> simp [ha, hkeys]
    · cases schema <;> simp [ha, hkeys]
  | none =>
    obtain rfl : row = parseLogfmtLine line := hrow
    by_cases hkeys : (parseLogfmtLine line).keys = []
    · cases opts.schema <;> cases schema <;> simp [ha, hkeys]
    · cases opts.schema <;> cases schema <;> simp [ha, hkeys]

section

variable {opts : FrameOpts} {lines : List PushedLine}
  (h : BuildsColumns opts lines (pushed opts lines)) (p : PushedLine)

include h

/-- The first row of the frame of a line that may give columns is one without a key, unless it is
the row of the line. -/
theorem rowIn_columnless (hnone : startColumns lines = []) :
    (((pushed opts lines).rowIn p.frame).getD (parseLogfmtLine p.line)).keys =
        startColumns (lines ++ [p]) ∧
      (lines = [] → (pushed opts lines).rowIn p.frame = none) := by
  rw [startColumns_concat, nextColumns, LineState.rowIn, h.frame]
  by_cases hframe : lines.getLast?.map PushedLine.frame = some p.frame
  · have hne : lines ≠ [] := by
      rintro rfl
      cases hframe
    obtain ⟨row, hrow, hkeys⟩ := h.firstRow hne hnone
    rw [if_pos hframe, if_neg fun hnext => hnext.2 hframe, hrow, hnone]
    exact ⟨hkeys, fun hnil => absurd hnil hne⟩
  · rw [if_neg hframe, if_pos ⟨hnone, hframe⟩]
    exact ⟨rfl, fun _ => rfl⟩

/-- The schema of the maker once it has got the line. -/
theorem schema_or_first {row : Row} (hrow : lines = [] → row = parseLogfmtLine p.line) :
    (pushed opts lines).worker.dfMaker.schema.or (some (inferSchemaFromRow row)) =
      some (makerSchema opts ((lines ++ [p]).head (by simp)).line) := by
  rw [h.schema]
  cases lines with
  | nil =>
    rw [hrow rfl, makerSchema]
    cases opts.schema with
    | none => rfl
    | some schema => rfl
  | cons first lines => rfl

/-- Pushing a line is `push_line` on a maker with the columns and the schema. -/
theorem exists_receives (ha : opts.alignedColsCnt = true) : ∃ maker, Receives opts lines p maker ∧
    (startColumns (lines ++ [p]) = [] → ∃ row,
      (pushed opts (lines ++ [p])).firstRow = some row ∧ row.keys = []) := by
  have hnext : pushed opts (lines ++ [p]) = _ := pushed_concat opts lines p
  refine ⟨{ (pushed opts lines).worker.dfMaker with
    columnKeys := startColumns (lines ++ [p])
    schema := some (makerSchema opts ((lines ++ [p]).head (by simp)).line) },
    ⟨⟨⟨h.ready.names, h.ready.slots, h.ready.entries, h.ready.seen_length⟩, h.ready.seen_le⟩, ?_,
      rfl, rfl, rfl, ?_⟩, ?_⟩
  · cases lines with
    | nil => exact fun t ht => by cases ht
    | cons first lines =>
      have htyped := h.typed
      rw [h.schema] at htyped
      exact htyped
  · rw [hnext, LineState.push_worker]
    by_cases hnone : startColumns lines = []
    · obtain ⟨hkeys, hfirst⟩ := rowIn_columnless h p hnone
      rw [acceptLine_start ha (h.columnKeys.trans hnone) (h.makerKeys.trans hnone), hkeys,
        schema_or_first h p fun hnil => by rw [hfirst hnil, Option.getD_none]]
    · have hne : lines ≠ [] := by
        rintro rfl
        exact hnone rfl
      have hschema : (pushed opts lines).worker.dfMaker.schema =
          some (makerSchema opts ((lines ++ [p]).head (by simp)).line) := by
        rw [h.schema]
        cases lines with
        | nil => exact absurd rfl hne
        | cons first lines => rfl
      rw [acceptLine_settled (by rw [h.columnKeys]; exact hnone) (by rw [h.makerKeys]; exact hnone)
        (by rw [hschema]; simp), ← hschema, startColumns_kept hnone, h.columnKeys]
      congr 1
      congr 1
      rw [← h.makerKeys]
  · intro hcolumns
    have hnone : startColumns lines = [] := by
      by_contra hsome
      rw [startColumns_kept hsome] at hcolumns
      exact hsome hcolumns
    obtain ⟨hkeys, -⟩ := rowIn_columnless h p hnone
    rw [hnext]
    show ∃ row, (acceptLine opts _ _ _).1 = some row ∧ _
    rw [acceptLine_start ha (h.columnKeys.trans hnone) (h.makerKeys.trans hnone)]
    exact ⟨_, rfl, hkeys.trans hcolumns⟩

end

/-! ## What a line adds -/

/-- The cells a line adds to the track of a key: its values, or a null where there are tracks it has
no pair for. -/
def addedTo (schema : Option Schema) (columnKeys : List Bytes) (tracks : List Track)
    (line key : Bytes) :
    List AnyValue :=
  let kvs := wantedPairs columnKeys line
  if key ∈ kvs.map Prod.fst then (valuesOf key kvs).map (convert (trackType schema key))
  else if key ∈ tracks.map Track.name ∧
      kvs.length < (kvs.foldl (pushPairTracks schema) tracks).length then [.null]
  else []

theorem cellsOf_pushLineTracks_getD {schema : Option Schema} {columnKeys : List Bytes}
    {tracks : List Track} (ht : Typed schema tracks) (line key : Bytes) :
    (cellsOf (pushLineTracks schema columnKeys tracks line) key).getD [] =
      (cellsOf tracks key).getD [] ++ addedTo schema columnKeys tracks line key := by
  unfold addedTo
  simp only
  by_cases hwanted : key ∈ (wantedPairs columnKeys line).map Prod.fst
  · rw [if_pos hwanted, cellsOf_pushLineTracks ht hwanted, Option.getD_some]
  · rw [if_neg hwanted]
    by_cases hnull : key ∈ tracks.map Track.name ∧ (wantedPairs columnKeys line).length <
        ((wantedPairs columnKeys line).foldl (pushPairTracks schema) tracks).length
    · rw [if_pos hnull, cellsOf_pushLineTracks_missing ht hwanted hnull.2 hnull.1, Option.getD_some]
    · rw [if_neg hnull, List.append_nil]
      by_cases hold : key ∈ tracks.map Track.name
      · -- there are no nulls to fill in
        unfold pushLineTracks
        simp only
        rw [if_neg fun hlt => hnull ⟨hold, hlt⟩, cellsOf_foldl_pushPair ht, if_neg hwanted]
      · have hnew : key ∉ (pushLineTracks schema columnKeys tracks line).map Track.name := by
          rw [names_pushLineTracks, mem_names_foldl_pushPair, not_or]
          exact ⟨hold, hwanted⟩
        have hnone : ∀ tracks : List Track, key ∉ tracks.map Track.name →
          cellsOf tracks key = none := by
          intro tracks hnot
          rwa [← Option.not_isSome_iff_eq_none, cellsOf_isSome]
        rw [hnone _ hold, hnone _ hnew]

/-- A key of the line gets a cell. -/
theorem addedTo_of_wanted {schema : Option Schema} {columnKeys : List Bytes} {tracks : List Track}
    {line key : Bytes} (hkey : key ∈ (wantedPairs columnKeys line).map Prod.fst) :
    addedTo schema columnKeys tracks line key ≠ [] := by
  unfold addedTo
  simp only
  rw [if_pos hkey, ne_eq, List.map_eq_nil_iff, ← List.length_eq_zero_iff, length_valuesOf]
  exact Nat.ne_of_gt (List.count_pos_iff.mpr hkey)

/-- Once it has pushed the line the maker has cells for every column: the column is from before, or
of the line. -/
theorem Receives.filled {opts : FrameOpts} {lines : List PushedLine} {p : PushedLine}
    {maker : DataFrameMaker} (h : Receives opts lines p maker)
    (hbuilds : BuildsColumns opts lines (pushed opts lines)) :
    ∀ key ∈ startColumns (lines ++ [p]), ∃ cells,
      cellsOf (pushLineTracks maker.schema maker.columnKeys maker.tracks p.line) key =
        some cells ∧ cells ≠ [] := by
  intro key hkey
  have hsome : (cellsOf maker.tracks key).getD [] ++
      addedTo maker.schema maker.columnKeys maker.tracks p.line key ≠ [] := by
    rw [ne_eq, List.append_eq_nil_iff, not_and_or]
    by_cases hbefore : startColumns lines = []
    · right
      have hline : startColumns (lines ++ [p]) = lineColumns p.line := by
        rw [startColumns_concat, nextColumns] at hkey ⊢
        split at hkey
        · rw [if_pos (by assumption)]
        · rw [hbefore] at hkey
          cases hkey
      apply addedTo_of_wanted
      rw [h.columnKeys]
      refine (mem_wantedKeys (List.ne_nil_of_mem hkey) p.line key).mpr ⟨?_, hkey⟩
      rw [hline] at hkey
      exact mem_lineColumns.mp hkey
    · left
      rw [startColumns_kept hbefore] at hkey
      obtain ⟨cells, hcells, hne⟩ := hbuilds.filled key hkey
      rw [h.tracks, hcells]
      exact hne
  rw [← @cellsOf_pushLineTracks_getD _ maker.schema maker.columnKeys maker.tracks h.typed p.line
    key] at hsome
  cases hcells : cellsOf (pushLineTracks maker.schema maker.columnKeys maker.tracks p.line)
    key with
  | none =>
    rw [hcells] at hsome
    exact absurd rfl hsome
  | some cells =>
    rw [hcells] at hsome
    exact ⟨cells, rfl, hsome⟩

/-- The state of a worker with `aligned_cols_cnt` after any lines. -/
theorem pushed_buildsColumns {opts : FrameOpts} (ha : opts.alignedColsCnt = true)
    (lines : List PushedLine) : BuildsColumns opts lines (pushed opts lines) := by
  induction lines using List.reverseRecOn with
  | nil =>
    refine ⟨rfl, rfl, rfl, fun hne => absurd rfl hne, rfl, DataFrameMaker.ready_new opts.schema, ?_,
      ?_, ?_⟩
    · intro t ht
      cases ht
    · intro _ key
      simp [pushed, DataFrameMaker.tracks]
    · intro key hkey
      cases hkey
  | append_singleton lines p ih =>
    obtain ⟨maker, hreceives, hfirst⟩ := exists_receives ih p ha
    obtain ⟨hready, htracks, hschema, hcolumns⟩ :=
      DataFrameMaker.pushLine_spec hreceives.ready p.line
    have hworker := hreceives.worker
    refine ⟨?_, ?_, ?_, fun _ => hfirst, ?_, ?_, ?_, ?_, ?_⟩
    · rw [pushed_concat, List.getLast?_append]
      rfl
    · rw [hworker]
    · rw [hworker, hcolumns, hreceives.columnKeys]
    · rw [hworker, hschema, hreceives.schema]
      cases lines with
      | nil => rfl
      | cons first lines => rfl
    · rw [hworker]
      exact hready
    · rw [hworker, htracks, hschema]
      exact typed_pushLineTracks hreceives.typed p.line
    · intro hnone key
      have hbefore : startColumns lines = [] := by
        by_contra hsome
        rw [startColumns_kept hsome] at hnone
        exact hsome hnone
      rw [hworker, htracks, names_pushLineTracks, mem_names_foldl_pushPair, hreceives.tracks,
        ih.names hbefore key, hreceives.columnKeys, hnone]
      simp only [List.mem_append, List.mem_singleton, or_and_right, exists_or, exists_eq_left]
      refine or_congr_right ?_
      simp only [wantedPairs, lineKeys, true_or, decide_true, List.filter_true]
    · rw [hworker, htracks]
      exact hreceives.filled ih

/-! ## The frame -/

/-- The cells a worker's builders have for a key. -/
def builtCells (opts : FrameOpts) (lines : List PushedLine) (key : Bytes) : List AnyValue :=
  madeCells (pushed opts lines).worker.dfMaker key

/-- The frame of a worker's builders. -/
def builtFrame (opts : FrameOpts) (lines : List PushedLine) : Except PolarsError DataFrame :=
  (pushed opts lines).worker.dfMaker.toDf

/-- The columns of that frame. -/
def workerColumns (opts : FrameOpts) (lines : List PushedLine) : List Bytes :=
  if opts.alignedColsCnt then startColumns lines else []

theorem builtFrame_unaligned {opts : FrameOpts} (ha : opts.alignedColsCnt = false)
    (lines : List PushedLine) : builtFrame opts lines = .ok .empty := by
  unfold builtFrame DataFrameMaker.toDf
  rw [(pushed_unaligned ha lines).makerKeys]
  rfl

/-- The builders of a worker with `aligned_cols_cnt` hold what its frame is made of. -/
theorem builtCells_eq {opts : FrameOpts} (ha : opts.alignedColsCnt = true) (lines : List PushedLine)
    (key : Bytes) :
    builtCells opts lines key = (cellsOf (pushed opts lines).worker.dfMaker.tracks key).getD [] :=
  have h := pushed_buildsColumns ha lines
  madeCells_eq h.ready h.typed key

section

variable {opts : FrameOpts} {lines : List PushedLine} {df : DataFrame}
  (h : builtFrame opts lines = .ok df)

include h

theorem builtFrame_data : df.columns.map Column.data = (workerColumns opts lines).map fun key =>
    (key, finishedType (trackType (pushed opts lines).worker.dfMaker.schema key),
      builtCells opts lines key) := by
  unfold workerColumns
  cases ha : opts.alignedColsCnt with
  | false =>
    rw [builtFrame_unaligned ha] at h
    cases h
    rfl
  | true =>
    have hbuilds := pushed_buildsColumns ha lines
    have hnodup := startColumns_nodup lines
    rw [← hbuilds.makerKeys] at hnodup
    rw [if_pos rfl, DataFrame.newInferHeight_columns h,
      DataFrameMaker.finishColumns_spec hbuilds.ready.toOwns _ hnodup, hbuilds.makerKeys,
      ← List.filterMap_eq_map]
    apply List.filterMap_congr
    intro key hkey
    obtain ⟨cells, hcells, -⟩ := hbuilds.filled key hkey
    rw [Function.comp_apply, builtCells_eq ha, hcells, ← trackOf]
    obtain ⟨t, hfind, rfl⟩ := Option.map_eq_some_iff.mp hcells
    rw [hfind, Option.map_some, Track.finished, hbuilds.typed t (trackOf_mem hfind),
      trackOf_name hfind]
    rfl

theorem builtFrame_columnNames : df.columnNames = workerColumns opts lines := by
  have hdata := congrArg (List.map Prod.fst) (builtFrame_data h)
  rw [List.map_map, List.map_map] at hdata
  exact hdata.trans (List.map_id _)

theorem builtFrame_typed {schema : Schema} (hs : opts.schema = some schema) :
    df.TypedBy fun key => finishedType (trackType (some schema) key) := by
  have hdata := congrArg (List.map fun c => (c.1, c.2.1)) (builtFrame_data h)
  rw [List.map_map, List.map_map] at hdata
  refine DataFrame.typedBy_of_schema (hdata.trans ?_ : df.schema = (workerColumns opts lines).map _)
  unfold workerColumns
  cases ha : opts.alignedColsCnt with
  | false => rfl
  | true =>
    have hschema : (pushed opts lines).worker.dfMaker.schema = some schema := by
      rw [(pushed_buildsColumns ha lines).schema, hs]
      cases lines with
      | nil => rfl
      | cons first lines =>
        rw [List.head?_cons, Option.elim_some, makerSchema, hs]
        rfl
    rw [hschema]
    rfl

/-- Every column has the cells its lines have added. -/
theorem builtFrame_values {c : Column} (hc : c ∈ df.columns) :
    c.series.values = builtCells opts lines c.name := by
  have hmem : c.data ∈ df.columns.map Column.data := List.mem_map_of_mem hc
  rw [builtFrame_data h] at hmem
  obtain ⟨key, -, hkey⟩ := List.mem_map.mp hmem
  rw [Column.data, Prod.mk.injEq, Prod.mk.injEq] at hkey
  obtain ⟨rfl, -, hvalues⟩ := hkey
  exact hvalues.symm

/-- A frame with columns has rows. -/
theorem builtFrame_height : 0 < df.height ↔ workerColumns opts lines ≠ [] := by
  rw [← builtFrame_columnNames h]
  unfold DataFrame.columnNames
  cases hcolumns : df.columns with
  | nil =>
    have hzero := h
    unfold builtFrame DataFrameMaker.toDf at hzero
    have hmade := DataFrame.newInferHeight_columns hzero
    rw [← hmade, hcolumns] at hzero
    cases hzero
    simp
  | cons c columns =>
    have hc : c ∈ df.columns := hcolumns ▸ List.mem_cons_self
    refine iff_of_true ?_ (by simp)
    have hname : c.name ∈ workerColumns opts lines := by
      rw [← builtFrame_columnNames h]
      exact List.mem_map_of_mem hc
    unfold workerColumns at hname
    cases ha : opts.alignedColsCnt with
    | false =>
      rw [ha, if_neg (by simp)] at hname
      cases hname
    | true =>
      rw [ha, if_pos rfl] at hname
      obtain ⟨cells, hcells, hne⟩ := (pushed_buildsColumns ha lines).filled c.name hname
      have hlen := df.heights c hc
      rw [Column.len, builtFrame_values h hc, builtCells_eq ha, hcells] at hlen
      rw [← hlen]
      exact List.length_pos_of_ne_nil hne

end

end PolarsLogfmt
