import PolarsLogfmt.Lazy.TrackCells

/-!
# The column made for a key

`mutal_array_to_to_columns` makes the column of a key out of its track. What a line adds
to it are the converted values the line has for the key.
-/

namespace PolarsLogfmt

variable [Crates]

/-- The column `mutal_array_to_to_columns` makes for a key. -/
def madeColumn (m : DataFrameMaker) (key : Bytes) : Option Column :=
  (DataFrameMaker.finishColumns m.columnInfos m.arrays [key]).head?

theorem madeColumn_eq {m : DataFrameMaker} (hm : m.Ready) (ht : Typed m.schema m.tracks)
    (key : Bytes) :
    (madeColumn m key).map (fun c => (c.series.dtype, c.series.values)) =
      (cellsOf m.tracks key).map fun cells => (finishedType (trackType m.schema key), cells) := by
  have hfin := DataFrameMaker.finishColumns_spec hm.toOwns [key] (by simp)
  rw [List.filterMap_cons, List.filterMap_nil, ← trackOf] at hfin
  unfold madeColumn cellsOf
  cases htrack : trackOf m.tracks key with
  | none =>
    rw [htrack] at hfin
    have hnil : DataFrameMaker.finishColumns m.columnInfos m.arrays [key] = [] := by
      simpa using hfin
    rw [hnil]
    rfl
  | some t =>
    rw [htrack] at hfin
    obtain ⟨c, hc, hdata⟩ := List.map_eq_singleton_iff.mp hfin
    simp only [Column.data, Track.finished, Prod.mk.injEq] at hdata
    have htype := ht t (trackOf_mem htrack)
    rw [trackOf_name htrack] at htype
    rw [hc, List.head?_cons, Option.map_some, Option.map_some, Option.map_some, hdata.2.1,
      hdata.2.2, htype]

/-- The cells of the column made for a key. -/
def madeCells (m : DataFrameMaker) (key : Bytes) : List AnyValue :=
  ((madeColumn m key).map fun c => c.series.values).getD []

theorem madeCells_eq {m : DataFrameMaker} (hm : m.Ready) (ht : Typed m.schema m.tracks)
    (key : Bytes) : madeCells m key = (cellsOf m.tracks key).getD [] := by
  have hcolumn := congrArg (Option.map Prod.snd) (madeColumn_eq hm ht key)
  rw [Option.map_map, Option.map_map] at hcolumn
  rw [madeCells, show (fun c : Column => c.series.values) =
    Prod.snd ∘ fun c => (c.series.dtype, c.series.values) from rfl, hcolumn]
  cases cellsOf m.tracks key with
  | none => rfl
  | some cells => rfl

/-- The cells `push_line` adds to the column of a key. -/
def addedCells (m : DataFrameMaker) (line key : Bytes) : List AnyValue :=
  (madeCells (m.pushLine line) key).drop (madeCells m key).length

omit [Crates] in
/-- A key that is asked for has all its values among the wanted pairs. -/
theorem valuesOf_wantedPairs {columnKeys : List Bytes} {key : Bytes}
    (hw : columnKeys = [] ∨ key ∈ columnKeys) (line : Bytes) :
    valuesOf key (wantedPairs columnKeys line) =
      valuesOf key (handleParseLogfmtLineWithSchemaBase line) := by
  unfold valuesOf wantedPairs
  rw [List.filter_filter]
  congr 1
  apply List.filter_congr
  intro kv _
  by_cases hkey : kv.1 = key
  · simpa [hkey] using hw
  · simp [hkey]

/-- A line adds its values for the key, converted. -/
theorem addedCells_eq {m : DataFrameMaker} (hm : m.Ready) (ht : Typed m.schema m.tracks)
    {line key : Bytes} (hw : m.wants key) (hkey : key ∈ lineKeys line) :
    addedCells m line key =
      (valuesOf key (handleParseLogfmtLineWithSchemaBase line)).map
        (convert (trackType m.schema key)) := by
  obtain ⟨hready, htracks, hschema, -⟩ := DataFrameMaker.pushLine_spec hm line
  have htyped : Typed (m.pushLine line).schema (m.pushLine line).tracks := by
    rw [htracks, hschema]
    exact typed_pushLineTracks ht line
  have hmem : key ∈ (wantedPairs m.columnKeys line).map Prod.fst := by
    obtain ⟨kv, hkv, rfl⟩ := List.mem_map.mp hkey
    exact List.mem_map_of_mem (List.mem_filter.mpr ⟨hkv, by simpa [DataFrameMaker.wants] using hw⟩)
  rw [addedCells, madeCells_eq hready htyped, madeCells_eq hm ht, htracks,
    cellsOf_pushLineTracks ht hmem, Option.getD_some, List.drop_left, valuesOf_wantedPairs hw]

end PolarsLogfmt
