import PolarsLogfmt.Lazy.WorkerColumns

/-!
# The lines the cells of a worker come from

A push adds the cells between the length a column had before it and the length it has after. These
lengths depend on the keys of the lines only: a line adds a cell for each of its pairs a column
wants, and a null to the other columns unless it has as many such pairs as there are keys.
-/

namespace PolarsLogfmt

variable [Crates]

/-- The pushes of these lines, each with the lines pushed before it. -/
def pushesAfter (before : List PushedLine) : List PushedLine → List (List PushedLine × PushedLine)
  | [] => []
  | p :: rest => (before, p) :: pushesAfter (before ++ [p]) rest

def pushes (lines : List PushedLine) : List (List PushedLine × PushedLine) := pushesAfter [] lines

omit [Crates] in
theorem pushes_concat (lines : List PushedLine) (p : PushedLine) :
    pushes (lines ++ [p]) = pushes lines ++ [(lines, p)] := by
  have hafter : ∀ before, pushesAfter before (lines ++ [p]) =
      pushesAfter before lines ++ [(before ++ lines, p)] := by
    induction lines with
    | nil =>
      intro before
      rw [List.append_nil]
      rfl
    | cons first lines ih =>
      intro before
      rw [List.cons_append, pushesAfter, ih, List.append_assoc]
      rfl
  exact hafter []

/-- The keys of the pairs that are wanted of a line. -/
def wantedKeys (before : List PushedLine) (p : PushedLine) : List Bytes :=
  (wantedPairs (startColumns (before ++ [p])) p.line).map Prod.fst

/-- The keys the builders have. -/
def knownKeys (lines : List PushedLine) : List Bytes :=
  ((pushes lines).flatMap fun (before, p) => wantedKeys before p).dedup

/-- The number of cells a line adds to the column of a key. -/
def addedCount (before : List PushedLine) (p : PushedLine) (key : Bytes) : Nat :=
  if key ∈ wantedKeys before p then (wantedKeys before p).count key
  else if key ∈ knownKeys before ∧
      (wantedKeys before p).length < (knownKeys (before ++ [p])).length then 1
  else 0

/-- The number of cells the column of a key has after some lines. -/
def columnLength (lines : List PushedLine) (key : Bytes) : Nat :=
  ((pushes lines).map fun (before, p) => addedCount before p key).sum

theorem mem_knownKeys {lines : List PushedLine} {p : PushedLine} {key : Bytes} :
    key ∈ knownKeys (lines ++ [p]) ↔ key ∈ knownKeys lines ∨ key ∈ wantedKeys lines p := by
  unfold knownKeys
  rw [pushes_concat, List.mem_dedup, List.mem_dedup, List.flatMap_append, List.mem_append,
    List.flatMap_singleton]

theorem columnLength_concat (lines : List PushedLine) (p : PushedLine) (key : Bytes) :
    columnLength (lines ++ [p]) key = columnLength lines key + addedCount lines p key := by
  rw [columnLength, pushes_concat, List.map_append, List.sum_append, List.map_singleton,
    List.sum_singleton]
  rfl

section

variable {opts : FrameOpts} (ha : opts.alignedColsCnt = true)

include ha

theorem mem_tracks_iff (lines : List PushedLine) (key : Bytes) :
    key ∈ (pushed opts lines).worker.dfMaker.tracks.map Track.name ↔ key ∈ knownKeys lines := by
  induction lines using List.reverseRecOn with
  | nil => simp [pushed, DataFrameMaker.tracks, knownKeys, pushes, pushesAfter]
  | append_singleton lines p ih =>
    obtain ⟨maker, hreceives, -⟩ := exists_receives (pushed_buildsColumns ha lines) p ha
    obtain ⟨-, htracks, -, -⟩ := DataFrameMaker.pushLine_spec hreceives.ready p.line
    rw [mem_knownKeys, ← ih, hreceives.worker, htracks, names_pushLineTracks,
      mem_names_foldl_pushPair, hreceives.tracks, hreceives.columnKeys]
    rfl

/-- The builders have as many tracks as keys. -/
theorem length_tracks (lines : List PushedLine) :
    (pushed opts lines).worker.dfMaker.tracks.length = (knownKeys lines).length := by
  have hready := (pushed_buildsColumns ha lines).ready
  have hnodup := hready.names
  rw [← DataFrameMaker.tracks_names] at hnodup
  rw [← List.length_map Track.name]
  refine List.Perm.length_eq ((List.perm_ext_iff_of_nodup hnodup (List.nodup_dedup _)).mpr
    fun key => ?_)
  exact mem_tracks_iff ha lines key

/-- A push adds what the line adds to the track of the key: as many cells as the keys of the lines
say. -/
theorem builtCells_concat (lines : List PushedLine) (p : PushedLine) (key : Bytes) :
    ∃ schema, builtCells opts (lines ++ [p]) key = builtCells opts lines key ++
        addedTo schema (startColumns (lines ++ [p]))
          (pushed opts lines).worker.dfMaker.tracks p.line
          key ∧
      (addedTo schema (startColumns (lines ++ [p])) (pushed opts lines).worker.dfMaker.tracks p.line
          key).length = addedCount lines p key := by
  obtain ⟨maker, hreceives, -⟩ := exists_receives (pushed_buildsColumns ha lines) p ha
  obtain ⟨-, htracks, -, -⟩ := DataFrameMaker.pushLine_spec hreceives.ready p.line
  have hgrown := @cellsOf_pushLineTracks_getD _ maker.schema maker.columnKeys maker.tracks
    hreceives.typed p.line key
  refine ⟨maker.schema, ?_, ?_⟩
  · rw [builtCells_eq ha, builtCells_eq ha, hreceives.worker, htracks, hgrown, hreceives.tracks,
      hreceives.columnKeys]
  · have hlen : ((wantedPairs (startColumns (lines ++ [p])) p.line).foldl
      (pushPairTracks maker.schema)
        (pushed opts lines).worker.dfMaker.tracks).length = (knownKeys (lines ++ [p])).length := by
      have hafter := length_tracks ha (lines ++ [p])
      rw [hreceives.worker, htracks, ← List.length_map Track.name, names_pushLineTracks,
        List.length_map, hreceives.tracks, hreceives.columnKeys] at hafter
      exact hafter
    unfold addedTo addedCount wantedKeys
    simp only [hlen, mem_tracks_iff ha, List.length_map]
    split
    · rw [List.length_map, length_valuesOf]
    · split
      · rfl
      · rfl

theorem length_builtCells (lines : List PushedLine) (key : Bytes) :
    (builtCells opts lines key).length = columnLength lines key := by
  induction lines using List.reverseRecOn with
  | nil => rw [builtCells_eq ha]; rfl
  | append_singleton lines p ih =>
    obtain ⟨schema, hadded, hlen⟩ := builtCells_concat ha lines p key
    rw [hadded, List.length_append, ih, hlen, columnLength_concat]

end

/-! ## The rows of a worker -/

/-- The rows of a worker's frame: the cells of its columns, side by side. -/
def builtRows (opts : FrameOpts) (lines : List PushedLine) : List (List (Option AnyValue)) :=
  let columns := workerColumns opts lines
  (List.range (columns.head?.elim 0 fun key => (builtCells opts lines key).length)).map fun i =>
    columns.map fun key => (builtCells opts lines key)[i]?

theorem rows_builtFrame {opts : FrameOpts} {lines : List PushedLine} {df : DataFrame}
    (h : builtFrame opts lines = .ok df) : df.rows = builtRows opts lines := by
  have hdata := builtFrame_data h
  have hheight : df.height =
      (workerColumns opts lines).head?.elim 0 fun key => (builtCells opts lines key).length := by
    cases hcolumns : workerColumns opts lines with
    | nil =>
      have hnot := (builtFrame_height h).not
      rw [hcolumns] at hnot
      exact Nat.eq_zero_of_not_pos (hnot.mpr (not_not.mpr rfl))
    | cons key keys =>
      rw [hcolumns] at hdata
      cases hdf : df.columns with
      | nil =>
        rw [hdf] at hdata
        cases hdata
      | cons c columns =>
        rw [hdf, List.map_cons, List.map_cons, List.cons.injEq, Column.data, Prod.mk.injEq,
          Prod.mk.injEq] at hdata
        have hlen := df.heights c (by rw [hdf]; exact List.mem_cons_self)
        rw [Column.len, hdata.1.2.2] at hlen
        exact hlen.symm
  unfold DataFrame.rows builtRows
  rw [hheight]
  apply List.map_congr_left
  intro i _
  have hcells := congrArg (List.map fun c => c.2.2[i]?) hdata
  rw [List.map_map, List.map_map] at hcells
  exact hcells

/-! ## The lines that are shown -/

/-- The lines that have a cell in the rows of a frame, up to a limit of rows, when the columns have
these lengths after some lines. -/
def linesWithin (columns : List PushedLine → List Bytes) (lengths : List PushedLine → Bytes → Nat) :
    Option Nat → List (List PushedLine) → List Bytes
  | _, [] => []
  | limit, lines :: traces =>
      ((pushes lines).filter fun (before, p) => (columns lines).any fun key =>
          lengths before key < lengths (before ++ [p]) key ∧ limit.all (lengths before key < ·)).map
        (fun push => push.2.line) ++
      linesWithin columns lengths
        (limit.map (· - (columns lines).head?.elim 0 (lengths lines))) traces

/-- The lines whose push adds a cell to the rows of a frame. -/
def shownLines (opts : FrameOpts) : Option Nat → List (List PushedLine) → List Bytes :=
  linesWithin (workerColumns opts) fun lines key => (builtCells opts lines key).length

/-- The lines whose keys say so. -/
def reachingLines (opts : FrameOpts) : Option Nat → List (List PushedLine) → List Bytes :=
  linesWithin (workerColumns opts) columnLength

theorem shownLines_eq (opts : FrameOpts) (limit : Option Nat) (traces : List (List PushedLine)) :
    shownLines opts limit traces = reachingLines opts limit traces := by
  cases ha : opts.alignedColsCnt with
  | true =>
    have hlengths : (fun lines key => (builtCells opts lines key).length) = columnLength :=
      funext₂ fun lines key => length_builtCells ha lines key
    rw [shownLines, hlengths, reachingLines]
  | false =>
    have hcolumns : ∀ lines, workerColumns opts lines = [] := fun lines => by
      rw [workerColumns, ha, if_neg (by simp)]
    unfold shownLines reachingLines
    induction traces generalizing limit with
    | nil => rfl
    | cons lines traces ih =>
      simp only [linesWithin, hcolumns, List.any_nil, List.head?_nil, Option.elim_none, ih]

/-! ## Workers that start with a key -/

omit [Crates] in
theorem mem_pushesAfter {seen lines before : List PushedLine} {p : PushedLine}
    (h : (before, p) ∈ pushesAfter seen lines) : ∃ after, seen ++ lines = before ++ p :: after := by
  induction lines generalizing seen with
  | nil => cases h
  | cons first lines ih =>
    rcases List.mem_cons.mp h with heq | h
    · cases heq
      exact ⟨lines, rfl⟩
    · obtain ⟨after, hlines⟩ := ih h
      exact ⟨after, by rw [← hlines, List.append_assoc]; rfl⟩

omit [Crates] in
theorem lines_pushes (lines : List PushedLine) : (pushes lines).map Prod.snd = lines := by
  induction lines using List.reverseRecOn with
  | nil => rfl
  | append_singleton lines p ih => rw [pushes_concat, List.map_append, ih, List.map_singleton]

theorem startColumns_cons {first : PushedLine} (hkeyed : lineColumns first.line ≠ [])
    (rest : List PushedLine) : startColumns (first :: rest) = lineColumns first.line :=
  @startColumns_append _ [first] hkeyed rest

/-- The builders have the keys of the first line. -/
theorem mem_knownKeys_cons {first : PushedLine} {key : Bytes} (hkey : key ∈ lineColumns first.line)
    (rest : List PushedLine) : key ∈ knownKeys (first :: rest) := by
  have hkeyed := List.ne_nil_of_mem hkey
  have hstart : startColumns ([] ++ [first]) = lineColumns first.line := startColumns_cons hkeyed []
  refine List.mem_dedup.mpr (List.mem_flatMap.mpr ⟨([], first), List.mem_cons_self, ?_⟩)
  exact (mem_wantedKeys (by rwa [hstart]) first.line key).mpr
    ⟨mem_lineColumns.mp hkey, by rwa [hstart]⟩

/-- A line adds a cell to a column when the builders have the key of one. -/
theorem exists_added {before : List PushedLine} {p : PushedLine} {key : Bytes}
    (hkey : key ∈ startColumns (before ++ [p])) (hknown : key ∈ knownKeys (before ++ [p])) :
    ∃ other ∈ startColumns (before ++ [p]), 0 < addedCount before p other := by
  by_cases hwanted : wantedKeys before p = []
  · -- the line has no pair the columns want, and gets a null
    refine ⟨key, hkey, ?_⟩
    have hbefore : key ∈ knownKeys before := by
      rcases mem_knownKeys.mp hknown with hbefore | hnone
      · exact hbefore
      · rw [hwanted] at hnone
        cases hnone
    rw [addedCount, hwanted, if_neg (by simp), if_pos ⟨hbefore, List.length_pos_of_mem hknown⟩]
    exact Nat.one_pos
  · obtain ⟨other, hother⟩ := List.exists_mem_of_ne_nil _ hwanted
    have hne : startColumns (before ++ [p]) ≠ [] := List.ne_nil_of_mem hkey
    refine ⟨other, ((mem_wantedKeys hne p.line other).mp hother).2, ?_⟩
    rw [addedCount, if_pos hother]
    exact List.count_pos_iff.mpr hother

/-- If every worker's first line has a key, then every line reaches a column. -/
theorem reachingLines_started {opts : FrameOpts} (ha : opts.alignedColsCnt = true)
    {traces : List (List PushedLine)}
    (h : ∀ lines ∈ traces, ∀ first ∈ lines.head?, lineColumns first.line ≠ []) :
    reachingLines opts none traces = traces.flatMap fun lines => lines.map PushedLine.line := by
  unfold reachingLines
  induction traces with
  | nil => rfl
  | cons lines traces ih =>
    rw [List.forall_mem_cons] at h
    have hmap : (pushes lines).map (fun push => push.2.line) = lines.map PushedLine.line := by
      rw [← lines_pushes lines, List.map_map, lines_pushes]
      rfl
    rw [linesWithin, Option.map_none, ih h.2, List.flatMap_cons, List.filter_eq_self.mpr, hmap]
    rintro ⟨before, p⟩ hpush
    obtain ⟨after, rfl⟩ : ∃ after, lines = before ++ p :: after := mem_pushesAfter hpush
    -- the columns are those of the first line, whatever lines come after
    obtain ⟨first, rest, hfirst⟩ : ∃ first rest, ∀ after,
        before ++ p :: after = first :: rest ++ after := by
      cases before with
      | nil => exact ⟨p, [], fun _ => rfl⟩
      | cons first before => exact ⟨first, before ++ [p], fun after => by simp⟩
    have hkeyed : lineColumns first.line ≠ [] := h.1 first (by rw [hfirst]; rfl)
    have hcolumns : ∀ after, startColumns (before ++ p :: after) = lineColumns first.line :=
      fun after => by rw [hfirst, List.cons_append, startColumns_cons hkeyed]
    obtain ⟨key, hkey⟩ := List.exists_mem_of_ne_nil _ hkeyed
    obtain ⟨other, hother, hadded⟩ := @exists_added _ before p key
      (by rwa [hcolumns]) (by rw [hfirst]; exact mem_knownKeys_cons hkey _)
    rw [List.any_eq_true]
    refine ⟨other, ?_, ?_⟩
    · rw [workerColumns, if_pos ha, hcolumns]
      rwa [hcolumns] at hother
    · rw [columnLength_concat]
      simp [hadded]

end PolarsLogfmt
