import PolarsLogfmt.Frame.TimeFilter
import PolarsLogfmt.Logfmt.Decimal

/-!
# The two time filters

The row filter reads the printed value as a time, the frame filter the text of a cell. They keep
the same rows of a column of texts, and differ when the frame has no column to look at or one of
times, which the frame filter does not read.
-/

namespace PolarsLogfmt

open Crates

section

variable [Crates] (instant : DateTime → Int)

/-- What the crates promise of printed times: a time is read back as the same instant, every text
that is read as a time has a colon, and no printed number or duration has one. -/
structure TimeTexts : Prop where
  roundTrip : ∀ dt, ∃ dt', parseFromRfc3339 (toRfc3339 dt) = some dt' ∧ instant dt' = instant dt
  colon : ∀ v dt, parseFromRfc3339 v = some dt → 0x3A ∈ v
  float : ∀ f, 0x3A ∉ f64ToString f
  duration : ∀ dur, 0x3A ∉ formatDuration dur

/-- The time a value is: itself, or the one its text is read as. -/
def ParsedValue.time? : ParsedValue → Option DateTime
  | .dateTime dt => some dt
  | .string s => parseFromRfc3339 s
  | _ => none

/-- The frame has the flagged rows of the other, in their order. -/
def KeepsRows (df out : DataFrame) (flags : List Bool) : Prop :=
  ∃ h : flags.length = df.height, out = df.pickRows flags h

/-- The frame filter, on the frame that is built from the rows, keeps the rows the row filter
keeps. -/
def TimeFiltersAgree (build : List Row → Except PolarsError DataFrame) (rows : List Row)
    (column : Bytes) (start stop : DateTime) : Prop :=
  ∃ df out, build rows = .ok df ∧ filterDfByTimeRange instant df column start stop = .ok out ∧
    KeepsRows df out (rows.map fun row => rowInTimeRange instant row column start stop)

/-! ## Rows -/

variable {instant}

theorem TimeTexts.no_time (texts : TimeTexts instant) {v : Bytes} (h : 0x3A ∉ v) :
    parseFromRfc3339 v = none := by
  cases hv : parseFromRfc3339 v with
  | none => rfl
  | some dt => exact absurd (texts.colon v dt hv) h

omit [Crates] in
theorem colon_not_mem_i64ToString (i : Int64) : 0x3A ∉ i64ToString i := by
  intro h
  rcases mem_i64ToString h with h | ⟨d, hd, h⟩
  · exact absurd h (by decide)
  · have hbyte := congrArg UInt8.toNat h
    rw [digitByte_toNat hd] at hbyte
    simp only [UInt8.reduceToNat] at hbyte
    omega

/-- Only times, and texts that are read as times, print as a time. -/
theorem TimeTexts.asString (texts : TimeTexts instant) (start stop : DateTime)
    (value : ParsedValue) :
    (parseFromRfc3339 value.asString).any (inRange instant start stop) =
      value.time?.any (inRange instant start stop) := by
  cases value with
  | string s => rfl
  | dateTime dt =>
    obtain ⟨dt', hparse, hinstant⟩ := texts.roundTrip dt
    show (parseFromRfc3339 (toRfc3339 dt)).any _ = inRange instant start stop dt
    rw [hparse, Option.any_some]
    unfold inRange
    rw [hinstant]
  | integer i =>
    rw [ParsedValue.asString, texts.no_time (colon_not_mem_i64ToString i)]
    rfl
  | float f =>
    rw [ParsedValue.asString, texts.no_time (texts.float f)]
    rfl
  | boolean b =>
    have hcolon : 0x3A ∉ boolToString b := by cases b <;> decide
    rw [ParsedValue.asString, texts.no_time hcolon]
    rfl
  | duration dur =>
    rw [ParsedValue.asString, texts.no_time (texts.duration dur)]
    rfl

/-- The row filter keeps a row whose value is a time in the range. -/
theorem rowInTimeRange_eq (texts : TimeTexts instant) (row : Row) (column : Bytes)
    (start stop : DateTime) :
    rowInTimeRange instant row column start stop =
      (row[column]?.bind ParsedValue.time?).any (inRange instant start stop) := by
  unfold rowInTimeRange
  cases row[column]? with
  | none => rfl
  | some value => exact texts.asString start stop value

/-! ## Frames -/

section

variable {build : List Row → Except PolarsError DataFrame} {rows : List Row} {df : DataFrame}
  {column : Bytes} {start stop : DateTime}

theorem filterDfByTimeRange_some {c : Column} (hc : df.column? column = some c) :
    ∃ out, filterDfByTimeRange instant df column start stop = .ok out ∧
      KeepsRows df out (c.series.values.map (cellInTimeRange instant start stop)) := by
  unfold filterDfByTimeRange
  split
  · rename_i hnone
    rw [hc] at hnone
    cases hnone
  · rename_i c' hc'
    rw [hc] at hc'
    cases hc'
    exact ⟨_, rfl, _, rfl⟩

theorem filterDfByTimeRange_none (hc : df.column? column = none) :
    filterDfByTimeRange instant df column start stop = .ok df := by
  unfold filterDfByTimeRange
  split
  · rfl
  · rename_i c hsome
    rw [hc] at hsome
    cases hsome

theorem KeepsRows.height {out : DataFrame} {flags : List Bool} (h : KeepsRows df out flags) :
    out.height = flags.count true := by
  obtain ⟨hlen, rfl⟩ := h
  rfl

/-- The filters agree when they agree on every row. -/
theorem agree_of_cells {c : Column} {cell : Row → AnyValue} (hbuild : build rows = .ok df)
    (hc : df.column? column = some c) (hvalues : c.series.values = rows.map cell)
    (hcells : ∀ row ∈ rows, cellInTimeRange instant start stop (cell row) =
      rowInTimeRange instant row column start stop) :
    TimeFiltersAgree instant build rows column start stop := by
  obtain ⟨out, hout, hkeeps⟩ :=
    @filterDfByTimeRange_some _ instant df column start stop c hc
  refine ⟨df, out, hbuild, hout, ?_⟩
  rw [hvalues, List.map_map] at hkeeps
  have hflags : rows.map (cellInTimeRange instant start stop ∘ cell) =
      rows.map fun row => rowInTimeRange instant row column start stop :=
    List.map_congr_left hcells
  rwa [hflags] at hkeeps

/-- A column without texts keeps no row. -/
theorem agree_iff_of_blank {c : Column} {cell : Row → AnyValue} (hbuild : build rows = .ok df)
    (hc : df.column? column = some c) (hvalues : c.series.values = rows.map cell)
    (hblank : ∀ row ∈ rows, cellInTimeRange instant start stop (cell row) = false) :
    TimeFiltersAgree instant build rows column start stop ↔
      ∀ row ∈ rows, rowInTimeRange instant row column start stop = false := by
  constructor
  · rintro ⟨df', out, hbuild', hout, hkeeps⟩ row hrow
    rw [hbuild] at hbuild'
    cases hbuild'
    obtain ⟨out', hout', hkeeps'⟩ :=
      @filterDfByTimeRange_some _ instant df column start stop c hc
    rw [hout] at hout'
    cases hout'
    have hzero : (c.series.values.map (cellInTimeRange instant start stop)).count true = 0 := by
      rw [List.count_eq_zero, hvalues, List.map_map, List.mem_map]
      rintro ⟨row, hrow, htrue⟩
      exact absurd htrue (by simp [hblank row hrow])
    rw [← hkeeps'.height, hkeeps.height, List.count_eq_zero, List.mem_map] at hzero
    exact Bool.eq_false_iff.mpr fun htrue => hzero ⟨row, hrow, htrue⟩
  · intro hrows
    apply agree_of_cells hbuild hc hvalues
    intro row hrow
    rw [hblank row hrow, hrows row hrow]

/-- A frame without the column is kept whole. -/
theorem not_agree_of_absent (hbuild : build rows = .ok df) (hheight : 0 < df.height)
    (hc : df.column? column = none) (habsent : ¬ ∃ row ∈ rows, column ∈ row) :
    ¬ TimeFiltersAgree instant build rows column start stop := by
  rintro ⟨df', out, hbuild', hout, hkeeps⟩
  rw [hbuild] at hbuild'
  cases hbuild'
  rw [filterDfByTimeRange_none hc] at hout
  cases hout
  have hzero : (rows.map fun row => rowInTimeRange instant row column start stop).count true =
    0 := by
    rw [List.count_eq_zero, List.mem_map]
    rintro ⟨row, hrow, htrue⟩
    have hnone : row[column]? = none :=
      Std.ExtTreeMap.getElem?_eq_none fun hmem => habsent ⟨row, hrow, hmem⟩
    rw [rowInTimeRange, hnone] at htrue
    cases htrue
  rw [← hkeeps.height] at hzero
  omega

end

/-! ## The two builders -/

section

variable {rows : List Row} {column : Bytes}

theorem rowKeys_ne_nil (h : ∃ row ∈ rows, ∃ key, key ∈ row) : rowKeys rows ≠ [] := by
  obtain ⟨row, hrow, key, hkey⟩ := h
  exact List.ne_nil_of_mem (mem_rowKeys.mpr ⟨row, hrow, hkey⟩)

theorem rows_length_pos (h : ∃ row ∈ rows, ∃ key, key ∈ row) : 0 < rows.length := by
  obtain ⟨row, hrow, -⟩ := h
  exact List.length_pos_of_mem hrow

/-- A frame of the keys of the rows has a column exactly when some row has the key. -/
theorem agree_of_absent {build : List Row → Except PolarsError DataFrame}
    {make : Bytes → Column} (hname : ∀ key, (make key).name = key)
    (hlen : ∀ key, (make key).len = rows.length)
    (hbuild : build rows =
      .ok (DataFrame.ofKeys (rowKeys rows) (rowKeys_nodup rows) rows.length make hname hlen))
    (hkeyed : ∃ row ∈ rows, ∃ key, key ∈ row) {start stop : DateTime}
    (habsent : ¬ ∃ row ∈ rows, column ∈ row) :
    ¬ TimeFiltersAgree instant build rows column start stop := by
  apply not_agree_of_absent hbuild
  · show 0 < if rowKeys rows = [] then 0 else rows.length
    rw [if_neg (rowKeys_ne_nil hkeyed)]
    exact rows_length_pos hkeyed
  · rw [DataFrame.ofKeys_column?, if_neg (mem_rowKeys.not.mpr habsent)]
  · exact habsent

theorem rowsToDataframe_eq (rows : List Row) :
    rowsToDataframe rows = .ok (DataFrame.ofKeys (rowKeys rows) (rowKeys_nodup rows) rows.length
      (printedColumn rows) (fun _ => rfl) fun _ => List.length_map _) :=
  DataFrame.newInferHeight_ofKeys (rowKeys_nodup rows) _ _

theorem cellInTimeRange_printedCell (row : Row) (column : Bytes) (start stop : DateTime) :
    cellInTimeRange instant start stop (printedCell row[column]?) =
      rowInTimeRange instant row column start stop := by
  unfold rowInTimeRange
  cases row[column]? with
  | none => rfl
  | some value => rfl

/-- On a frame of texts the filters agree when some row has the column. -/
theorem rowsToDataframe_agree_iff (hkeyed : ∃ row ∈ rows, ∃ key, key ∈ row)
    (start stop : DateTime) :
    TimeFiltersAgree instant rowsToDataframe rows column start stop ↔
      ∃ row ∈ rows, column ∈ row := by
  by_cases hcolumn : ∃ row ∈ rows, column ∈ row
  · refine iff_of_true ?_ hcolumn
    have hc := @DataFrame.ofKeys_column? _ _ (rowKeys_nodup rows) rows.length (printedColumn rows)
      (fun _ => rfl) (fun _ => List.length_map _) column
    rw [if_pos (mem_rowKeys.mpr hcolumn)] at hc
    exact agree_of_cells (rowsToDataframe_eq rows) hc rfl fun row _ =>
      cellInTimeRange_printedCell row column start stop
  · exact iff_of_false (agree_of_absent _ _ (rowsToDataframe_eq rows) hkeyed hcolumn) hcolumn

theorem hasKind_iff {kind : SchemaField} :
    hasKind rows column kind = true ↔
      ∃ row ∈ rows, ∃ value, row[column]? = some value ∧ value.field = kind := by
  unfold hasKind
  rw [List.any_eq_true]
  constructor
  · rintro ⟨row, hrow, hany⟩
    obtain ⟨value, hvalue, hfield⟩ := (Option.any_eq_true _ _).mp hany
    exact ⟨row, hrow, value, hvalue, by simpa using hfield⟩
  · rintro ⟨row, hrow, value, hvalue, hfield⟩
    exact ⟨row, hrow, by simp [hvalue, hfield]⟩

/-- A value whose kind no row has. -/
theorem hasKind_eq_false {kind : SchemaField} (h : hasKind rows column kind = false) {row : Row}
    (hrow : row ∈ rows) {value : ParsedValue} (hvalue : row[column]? = some value) :
    value.field ≠ kind := by
  intro hfield
  have htrue := hasKind_iff.mpr ⟨row, hrow, value, hvalue, hfield⟩
  rw [h] at htrue
  cases htrue

theorem hasKind_dateTime_iff :
    hasKind rows column .dateTime = true ↔ ∃ row ∈ rows, ∃ dt,
    row[column]? = some (.dateTime dt) := by
  rw [hasKind_iff]
  constructor
  · rintro ⟨row, hrow, value, hvalue, hfield⟩
    cases value with
    | dateTime dt => exact ⟨row, hrow, dt, hvalue⟩
    | _ => cases hfield
  · rintro ⟨row, hrow, dt, hvalue⟩
    exact ⟨row, hrow, _, hvalue, rfl⟩

/-- A time or a text with the kind of a value that is read as a time. -/
theorem field_of_time? {value : ParsedValue} {time : DateTime} (h : value.time? = some time) :
    value.field = .dateTime ∨ value.field = .string := by
  cases value with
  | dateTime dt => exact .inl rfl
  | string s => exact .inr rfl
  | _ => cases h

/-- Without times among the rows, the cells are texts, or no row is read as a time. -/
theorem cellInTimeRange_filledCell (texts : TimeTexts instant)
    (htimes : hasKind rows column .dateTime = false) {row : Row} (hrow : row ∈ rows)
    (start stop : DateTime) :
    cellInTimeRange instant start stop
        (filledCell (inferredType rows column none) row[column]?) =
      rowInTimeRange instant row column start stop := by
  have htext : cellInTimeRange instant start stop (.string (stringCell row[column]?)) =
      rowInTimeRange instant row column start stop := by
    unfold rowInTimeRange
    cases row[column]? with
    | none =>
      show (parseFromRfc3339 []).any _ = _
      rw [texts.no_time (List.not_mem_nil)]
      rfl
    | some value => rfl
  unfold inferredType
  simp only [htimes, Bool.false_eq_true, if_false]
  by_cases hdur : hasKind rows column .duration = true
  · rw [if_pos hdur]
    exact htext
  · rw [if_neg hdur]
    by_cases hstr : hasKind rows column .string = true
    · rw [if_pos hstr]
      exact htext
    · rw [if_neg hstr]
      -- neither a time nor a text: the row is read as no time, and no cell is a text
      have hrange : rowInTimeRange instant row column start stop = false := by
        rw [rowInTimeRange_eq texts, Option.any_eq_false]
        intro time htime
        obtain ⟨value, hvalue, htime⟩ := Option.bind_eq_some_iff.mp htime
        rcases field_of_time? htime with hfield | hfield
        · exact absurd hfield (hasKind_eq_false htimes hrow hvalue)
        · exact absurd hfield (hasKind_eq_false (Bool.eq_false_iff.mpr hstr) hrow hvalue)
      by_cases hfloat : hasKind rows column .float = true
      · rw [if_pos hfloat, hrange]
        rfl
      · rw [if_neg hfloat]
        by_cases hint : hasKind rows column .integer = true
        · rw [if_pos hint, hrange]
          rfl
        · rw [if_neg hint]
          by_cases hbool : hasKind rows column .boolean = true
          · rw [if_pos hbool, hrange]
            rfl
          · rw [if_neg hbool]
            exact htext

/-- On a filled frame the filters agree when some row has the column, and no row is in the range
where the column is one of times. -/
theorem rowsToDataframeFilled_agree_iff (texts : TimeTexts instant)
    (hkeyed : ∃ row ∈ rows, ∃ key, key ∈ row) (start stop : DateTime) :
    TimeFiltersAgree instant (rowsToDataframeFilled · none) rows column start stop ↔
      (∃ row ∈ rows, column ∈ row) ∧
        ((∃ row ∈ rows, ∃ dt, row[column]? = some (.dateTime dt)) →
          ∀ row ∈ rows, ∀ time ∈ row[column]?.bind ParsedValue.time?,
            inRange instant start stop time = false) := by
  by_cases hcolumn : ∃ row ∈ rows, column ∈ row
  · rw [and_iff_right hcolumn]
    have hc := filledFrame_column? rows none column
    rw [if_pos (mem_rowKeys.mpr hcolumn)] at hc
    have hbuild := rowsToDataframeFilled_eq rows none
    cases htimes : hasKind rows column .dateTime with
    | false =>
      have hnone : ¬ ∃ row ∈ rows, ∃ dt, row[column]? = some (.dateTime dt) := by
        rw [← hasKind_dateTime_iff, htimes]
        exact Bool.false_ne_true
      refine iff_of_true ?_ fun h => absurd h hnone
      exact agree_of_cells hbuild hc rfl fun row hrow =>
        cellInTimeRange_filledCell texts htimes hrow start stop
    | true =>
      have htype : inferredType rows column none = some .dateTime := by
        rw [inferredType, if_pos htimes]
      rw [forall_prop_of_true (hasKind_dateTime_iff.mp htimes)]
      rw [agree_iff_of_blank hbuild hc rfl]
      · apply forall₂_congr
        intro row _
        rw [rowInTimeRange_eq texts, Option.any_eq_false]
        simp only [Option.mem_def]
      · intro row _
        show cellInTimeRange instant start stop
          (filledCell (inferredType rows column none) row[column]?) = false
        rw [htype]
        cases hcell : dateTimeCell row[column]? with
        | none => rw [filledCell, hcell]; rfl
        | some micros => rw [filledCell, hcell]; rfl
  · refine iff_of_false ?_ fun h => hcolumn h.1
    exact agree_of_absent _ _ (rowsToDataframeFilled_eq rows none) hkeyed hcolumn

end

/-- When the two time filters keep the same rows, for each of the two builders. -/
theorem timeFilters_agree_iff (texts : TimeTexts instant) {rows : List Row}
    (hkeyed : ∃ row ∈ rows, ∃ key, key ∈ row) (column : Bytes) (start stop : DateTime) :
    (∀ row : Row, row[column]?.bind ParsedValue.time? = none →
      rowInTimeRange instant row column start stop = false) ∧
    (TimeFiltersAgree instant rowsToDataframe rows column start stop ↔
      ∃ row ∈ rows, column ∈ row) ∧
    (TimeFiltersAgree instant (rowsToDataframeFilled · none) rows column start stop ↔
      (∃ row ∈ rows, column ∈ row) ∧
        ((∃ row ∈ rows, ∃ dt, row[column]? = some (.dateTime dt)) →
          ∀ row ∈ rows, ∀ time ∈ row[column]?.bind ParsedValue.time?,
            inRange instant start stop time = false)) := by
  refine ⟨fun row hrow => ?_, rowsToDataframe_agree_iff hkeyed start stop,
    rowsToDataframeFilled_agree_iff texts hkeyed start stop⟩
  rw [rowInTimeRange_eq texts, hrow]
  rfl

end

section

attribute [local instance] smallCrates

/-- The small instance has one instant, which it prints and reads. -/
theorem smallCrates_timeTexts : TimeTexts fun _ : DateTime => 0 where
  roundTrip _ := ⟨(), rfl, rfl⟩
  colon v dt h := by
    simp only [parseFromRfc3339] at h
    split at h
    · rename_i hv
      rw [hv]
      decide
    · cases h
  float f := colon_not_mem_i64ToString f
  duration _ := by
    simp only [formatDuration]
    decide

/-- A row whose column `t` is a time. -/
def timeRow : Row := parseLogfmtLine (Utf8.ofString "t=1970-01-01T00:00:00+00:00")

theorem timeFilters_agree_iff_time :
    (∀ row : Row, row[Utf8.ofString "t"]?.bind ParsedValue.time? = none →
      rowInTimeRange (fun _ => 0) row (Utf8.ofString "t") () () = false) ∧
    (TimeFiltersAgree (fun _ => 0) rowsToDataframe [timeRow] (Utf8.ofString "t") () () ↔
      ∃ row ∈ [timeRow], Utf8.ofString "t" ∈ row) ∧
    (TimeFiltersAgree (fun _ => 0) (rowsToDataframeFilled · none) [timeRow] (Utf8.ofString "t")
        () () ↔
      (∃ row ∈ [timeRow], Utf8.ofString "t" ∈ row) ∧
        ((∃ row ∈ [timeRow], ∃ dt, row[Utf8.ofString "t"]? = some (.dateTime dt)) →
          ∀ row ∈ [timeRow], ∀ time ∈ row[Utf8.ofString "t"]?.bind ParsedValue.time?,
            inRange (fun _ => 0) () () time = false)) :=
  timeFilters_agree_iff smallCrates_timeTexts
    ⟨timeRow, List.mem_singleton_self _, Utf8.ofString "t", by decide +kernel⟩ (Utf8.ofString "t")
    () ()

/-- A row in the range, in a column of times, and a row without the column. -/
theorem timeFilters_counterexample :
    rowInTimeRange (fun _ => 0) timeRow (Utf8.ofString "t") () () = true ∧
      ¬ TimeFiltersAgree (fun _ => 0) (rowsToDataframeFilled · none) [timeRow] (Utf8.ofString "t")
          () () ∧
      ¬ TimeFiltersAgree (fun _ => 0) rowsToDataframe [timeRow] (Utf8.ofString "u") () () := by
  have hkeyed : ∃ row ∈ [timeRow], ∃ key, key ∈ row :=
    ⟨timeRow, List.mem_singleton_self _, Utf8.ofString "t", by decide +kernel⟩
  have htime : timeRow[Utf8.ofString "t"]? = some (.dateTime ()) := by decide +kernel
  refine ⟨by decide +kernel, ?_, ?_⟩
  · rw [rowsToDataframeFilled_agree_iff smallCrates_timeTexts hkeyed]
    rintro ⟨-, h⟩
    have hrange := h ⟨timeRow, List.mem_singleton_self _, (), htime⟩ timeRow
      (List.mem_singleton_self _) () (by rw [htime]; rfl)
    cases hrange
  · rw [rowsToDataframe_agree_iff hkeyed]
    rintro ⟨row, hrow, hcolumn⟩
    rw [List.mem_singleton.mp hrow] at hcolumn
    exact absurd hcolumn (by decide +kernel)

end

end PolarsLogfmt
