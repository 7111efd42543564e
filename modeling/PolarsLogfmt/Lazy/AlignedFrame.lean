import PolarsLogfmt.Lazy.TrackCells

/-!
# The frame of aligned lines

A maker that is asked for the keys of its first line makes, of lines that have no
such key twice, the frame with these columns and one row for each line.
-/

namespace PolarsLogfmt

variable [Crates]

open Crates

/-- The cell of a line in the column of a key: its value, or null. -/
def alignedCell (schema : Option Schema) (key line : Bytes) : AnyValue :=
  ((rawValue line key).map (convert (trackType schema key))).getD .null

/-- The line has none of the keys twice. -/
def HasOnce (keys : List Bytes) (line : Bytes) : Prop :=
  ((wantedPairs keys line).map Prod.fst).Nodup

instance (keys : List Bytes) : DecidablePred (HasOnce keys) := fun line =>
  inferInstanceAs (Decidable ((wantedPairs keys line).map Prod.fst).Nodup)

theorem convert_fits (dtype : DataType) (value : Bytes) :
    (convert dtype value).Fits (finishedType dtype) := by
  cases dtype <;> rfl

theorem alignedCell_fits (schema : Option Schema) (key line : Bytes) :
    (alignedCell schema key line).Fits (finishedType (trackType schema key)) := by
  unfold alignedCell
  cases rawValue line key with
  | none => trivial
  | some value => exact convert_fits _ value

/-! ## The tracks -/

omit [Crates] in
theorem lastValue_filter {keys : List Bytes} {key : Bytes} (hkey : key ∈ keys)
    (kvs : List (Bytes × Bytes)) :
    lastValue key (kvs.filter fun pair => keys = [] ∨ pair.1 ∈ keys) = lastValue key kvs := by
  induction kvs with
  | nil => rfl
  | cons kv kvs ih =>
    obtain ⟨k, v⟩ := kv
    by_cases hk : k = key
    · rw [List.filter_cons_of_pos (by simpa [hk] using .inr hkey), lastValue, lastValue, ih]
    · rw [lastValue, if_neg hk, Option.or_none, List.filter_cons]
      split
      · rw [lastValue, if_neg hk, Option.or_none, ih]
      · exact ih

omit [Crates] in
theorem rawValue_eq_lastValue {keys : List Bytes} {key : Bytes} (hkey : key ∈ keys) (line : Bytes) :
    rawValue line key = lastValue key (wantedPairs keys line) :=
  (lastValue_filter hkey _).symm

theorem names_nodup_pushPair {schema : Option Schema} {tracks : List Track}
    (hn : (tracks.map Track.name).Nodup) (pair : Bytes × Bytes) :
    ((pushPairTracks schema tracks pair).map Track.name).Nodup := by
  rw [names_pushPairTracks]
  split
  · exact hn
  · rename_i hnot
    refine List.nodup_append'.mpr ⟨hn, by simp, ?_⟩
    intro name hname hpair
    obtain rfl := List.mem_singleton.mp hpair
    exact hnot hname

theorem names_nodup_foldl {schema : Option Schema} {tracks : List Track}
    (hn : (tracks.map Track.name).Nodup) (kvs : List (Bytes × Bytes)) :
    ((kvs.foldl (pushPairTracks schema) tracks).map Track.name).Nodup := by
  induction kvs generalizing tracks with
  | nil => exact hn
  | cons kv kvs ih => exact ih (names_nodup_pushPair hn kv)

/-- Tracks for some keys, each with the cells of the key. -/
structure TracksFor (schema : Option Schema) (keys : List Bytes) (cells : Bytes → List AnyValue)
    (tracks : List Track) : Prop where
  typed : Typed schema tracks
  nodup : (tracks.map Track.name).Nodup
  names : ∀ key, key ∈ tracks.map Track.name → key ∈ keys
  cells : ∀ key ∈ keys, (cellsOf tracks key).getD [] = cells key

omit [Crates] in
/-- The keys of a line that are asked for. -/
theorem mem_wantedKeys {keys : List Bytes} (hne : keys ≠ []) (line key : Bytes) :
    key ∈ (wantedPairs keys line).map Prod.fst ↔ key ∈ lineKeys line ∧ key ∈ keys := by
  simp only [wantedPairs, lineKeys, List.mem_map, List.mem_filter, decide_eq_true_eq]
  constructor
  · rintro ⟨pair, ⟨hpair, hor⟩, rfl⟩
    exact ⟨⟨pair, hpair, rfl⟩, hor.resolve_left hne⟩
  · rintro ⟨⟨pair, hpair, rfl⟩, hmem⟩
    exact ⟨pair, ⟨hpair, .inr hmem⟩, rfl⟩

omit [Crates] in
/-- A line has fewer wanted pairs than there are keys when it misses one and has none twice. -/
theorem wantedPairs_lt {keys : List Bytes} (hne : keys ≠ []) {line key : Bytes}
    (honce : HasOnce keys line) (hkey : key ∈ keys)
    (hmiss : key ∉ (wantedPairs keys line).map Prod.fst) :
    (wantedPairs keys line).length < keys.length := by
  have hsub : key :: (wantedPairs keys line).map Prod.fst ⊆ keys := by
    intro k hk
    rcases List.mem_cons.mp hk with rfl | hk
    · exact hkey
    · exact ((mem_wantedKeys hne line k).mp hk).2
  have hle := (List.nodup_cons.mpr ⟨hmiss, honce⟩).subperm hsub |>.length_le
  rw [List.length_cons, List.length_map] at hle
  exact hle

/-- The nulls of a line go to tracks that exist. -/
theorem names_pushLineTracks (schema : Option Schema) (keys : List Bytes) (tracks : List Track)
    (line : Bytes) :
    (pushLineTracks schema keys tracks line).map Track.name =
      ((wantedPairs keys line).foldl (pushPairTracks schema) tracks).map Track.name := by
  unfold pushLineTracks
  simp only
  split
  · rw [List.map_map]
    apply List.map_congr_left
    intro t _
    simp only [Function.comp_apply]
    split <;> rfl
  · rfl

/-- The track of a key the line misses gets a null, when there are nulls to fill in. -/
theorem cellsOf_pushLineTracks_missing {schema : Option Schema} {keys : List Bytes}
    {tracks : List Track} (ht : Typed schema tracks) {line key : Bytes}
    (hmiss : key ∉ (wantedPairs keys line).map Prod.fst)
    (hlt : (wantedPairs keys line).length <
      ((wantedPairs keys line).foldl (pushPairTracks schema) tracks).length)
    (hmem : key ∈ tracks.map Track.name) :
    cellsOf (pushLineTracks schema keys tracks line) key =
      some ((cellsOf tracks key).getD [] ++ [.null]) := by
  have hold : cellsOf ((wantedPairs keys line).foldl (pushPairTracks schema) tracks) key =
      cellsOf tracks key := by
    rw [cellsOf_foldl_pushPair ht, if_neg hmiss]
  have hpushed := (mem_names_foldl_pushPair schema tracks (wantedPairs keys line) key).mpr
    (.inl hmem)
  obtain ⟨t, hfind⟩ := Option.isSome_iff_exists.mp (trackOf_isSome.mpr hpushed)
  unfold pushLineTracks
  simp only
  rw [if_pos hlt, cellsOf, trackOf_map (fun t => by split <;> rfl), ← hold]
  simp only [cellsOf, hfind, Option.map_some, trackOf_name hfind, hmiss, if_false,
    Option.getD_some]
  rfl

/-- A line that has none of the keys twice adds one cell to every track. The keys it does
not have must have a track already. -/
theorem TracksFor.pushLine {schema : Option Schema} {keys : List Bytes}
    {cells : Bytes → List AnyValue} {tracks : List Track} (ht : TracksFor schema keys cells tracks)
    (hkeys : keys.Nodup) (hne : keys ≠ []) {line : Bytes} (honce : HasOnce keys line)
    (hall : ∀ key ∈ keys, key ∈ tracks.map Track.name ∨ key ∈ lineKeys line) :
    TracksFor schema keys (fun key => cells key ++ [alignedCell schema key line])
        (pushLineTracks schema keys tracks line) ∧
      ∀ key ∈ keys, key ∈ (pushLineTracks schema keys tracks line).map Track.name := by
  have hnodup := @names_nodup_foldl _ schema _ ht.nodup (wantedPairs keys line)
  have hnames : ∀ key, key ∈
      ((wantedPairs keys line).foldl (pushPairTracks schema) tracks).map Track.name ↔
        key ∈ keys := by
    intro key
    rw [mem_names_foldl_pushPair, mem_wantedKeys hne]
    constructor
    · rintro (h | h)
      · exact ht.names key h
      · exact h.2
    · intro h
      exact (hall key h).imp id fun hline => ⟨hline, h⟩
  -- the nulls are filled in exactly when some key is missing
  have hlen : ((wantedPairs keys line).foldl (pushPairTracks schema) tracks).length =
      keys.length := by
    have hperm := (List.perm_ext_iff_of_nodup hnodup hkeys).mpr hnames
    simpa using hperm.length_eq
  rw [← names_pushLineTracks] at hnodup hnames
  refine ⟨⟨typed_pushLineTracks ht.typed line, hnodup, fun key => (hnames key).mp, ?_⟩,
    fun key => (hnames key).mpr⟩
  intro key hkey
  rw [alignedCell, rawValue_eq_lastValue hkey, ← ht.cells key hkey]
  by_cases hmem : key ∈ (wantedPairs keys line).map Prod.fst
  · obtain ⟨⟨k, v⟩, hpair, rfl⟩ := List.mem_map.mp hmem
    rw [cellsOf_pushLineTracks ht.typed hmem, valuesOf_eq_singleton honce hpair,
      lastValue_eq_some honce hpair]
    rfl
  · have hnone : lastValue key (wantedPairs keys line) = none := by
      rw [← Option.not_isSome_iff_eq_none, lastValue_isSome]
      exact hmem
    have hold : key ∈ tracks.map Track.name := by
      rcases hall key hkey with h | h
      · exact h
      · exact absurd ((mem_wantedKeys hne line key).mpr ⟨h, hkey⟩) hmem
    have hlt := wantedPairs_lt hne honce hkey hmem
    rw [← hlen] at hlt
    rw [cellsOf_pushLineTracks_missing ht.typed hmem hlt hold, hnone]
    rfl

/-! ## The frame -/

/-- The column of a key. -/
def alignedColumn (schema : Option Schema) (lines : List Bytes) (key : Bytes) : Column :=
  Column.ofMap key (finishedType (trackType schema key)) lines (alignedCell schema key)
    (alignedCell_fits schema key)

@[simp] theorem alignedColumn_name (schema : Option Schema) (lines : List Bytes) (key : Bytes) :
    (alignedColumn schema lines key).name = key := rfl

@[simp] theorem alignedColumn_len (schema : Option Schema) (lines : List Bytes) (key : Bytes) :
    (alignedColumn schema lines key).len = lines.length := List.length_map _

/-- A row for each line, a column for each key. -/
def alignedFrame (schema : Option Schema) (keys : List Bytes) (hn : keys.Nodup)
    (lines : List Bytes) : DataFrame :=
  .ofKeys keys hn lines.length (alignedColumn schema lines) (alignedColumn_name schema lines)
    (alignedColumn_len schema lines)

theorem alignedFrame_height {schema : Option Schema} {keys : List Bytes} (hne : keys ≠ [])
    (hn : keys.Nodup) (lines : List Bytes) :
    (alignedFrame schema keys hn lines).height = lines.length :=
  if_neg hne

theorem alignedFrame_width {schema : Option Schema} {keys : List Bytes} (hne : keys ≠ [])
    (hn : keys.Nodup) (lines : List Bytes) : 0 < (alignedFrame schema keys hn lines).width := by
  rw [DataFrame.width, alignedFrame, DataFrame.ofKeys, List.length_map]
  exact List.length_pos_of_ne_nil hne

namespace DataFrameMaker

/-- Lines that have no key twice add a cell each to every track. -/
theorem tracksFor_pushLines {m : DataFrameMaker} (hm : m.Ready) (hkeys : m.columnKeys.Nodup)
    (hne : m.columnKeys ≠ []) {cells : Bytes → List AnyValue}
    (ht : TracksFor m.schema m.columnKeys cells m.tracks)
    (hall : ∀ key ∈ m.columnKeys, key ∈ m.tracks.map Track.name) {lines : List Bytes}
    (honce : ∀ line ∈ lines, HasOnce m.columnKeys line) :
    TracksFor m.schema m.columnKeys
        (fun key => cells key ++ lines.map (alignedCell m.schema key)) (pushLines m lines).tracks ∧
      ∀ key ∈ m.columnKeys, key ∈ (pushLines m lines).tracks.map Track.name := by
  induction lines generalizing m cells with
  | nil =>
    simp only [List.map_nil, List.append_nil]
    exact ⟨ht, hall⟩
  | cons line lines ih =>
    obtain ⟨hready, htracks, hschema, hcols⟩ := pushLine_spec hm line
    obtain ⟨ht', hall'⟩ := ht.pushLine hkeys hne (honce line List.mem_cons_self)
      fun key hkey => .inl (hall key hkey)
    rw [← htracks] at ht' hall'
    have ih := ih hready (by rw [hcols]; exact hkeys) (by rw [hcols]; exact hne)
      (by rw [hschema, hcols]; exact ht') (by rw [hcols]; exact hall')
      (by rw [hcols]; exact fun l hl => honce l (List.mem_cons_of_mem _ hl))
    rw [hschema, hcols] at ih
    simpa only [List.map_cons, List.append_assoc, List.singleton_append, pushLines_cons] using ih

/-- The columns of a maker that has a track for every key asked for. -/
theorem finishColumns_tracksFor {m : DataFrameMaker} (hm : m.Ready) {lines : List Bytes}
    (hkeys : m.columnKeys.Nodup)
    (ht : TracksFor m.schema m.columnKeys
      (fun key => lines.map (alignedCell m.schema key)) m.tracks)
    (hall : ∀ key ∈ m.columnKeys, key ∈ m.tracks.map Track.name) :
    finishColumns m.columnInfos m.arrays m.columnKeys =
      m.columnKeys.map (alignedColumn m.schema lines) := by
  apply List.map_injective_iff.mpr (fun a b => Column.data_injective)
  rw [finishColumns_spec hm.toOwns m.columnKeys hkeys, List.map_map, ← List.filterMap_eq_map]
  apply List.filterMap_congr
  intro key hkey
  have hsome := trackOf_isSome.mpr (hall key hkey)
  obtain ⟨t, hfind⟩ := Option.isSome_iff_exists.mp hsome
  have hcells := ht.cells key hkey
  have htype := ht.typed t (trackOf_mem hfind)
  rw [cellsOf, hfind] at hcells
  rw [← trackOf, hfind, Option.map_some, Track.finished, htype, trackOf_name hfind]
  simp only [Option.map_some, Option.getD_some] at hcells
  rw [hcells]
  rfl

/-- A maker that is asked for some keys and has pushed nothing. -/
theorem ready_asked (schema : Option Schema) (keys : List Bytes) :
    ({ schema := schema, columnKeys := keys } : DataFrameMaker).Ready :=
  ⟨⟨by simp, by simp, by simp, rfl⟩, by simp⟩

/-- The tracks of lines that have no key twice, the first of which has every key asked for. -/
theorem tracksFor_aligned (schema : Option Schema) {keys : List Bytes} (hkeys : keys.Nodup)
    (hne : keys ≠ []) {lines : List Bytes}
    (hfirst : ∀ first ∈ lines.head?, ∀ key ∈ keys, key ∈ lineKeys first)
    (honce : ∀ line ∈ lines, HasOnce keys line) :
    TracksFor schema keys (fun key => lines.map (alignedCell schema key))
        (pushLines { schema := schema, columnKeys := keys } lines).tracks ∧
      (lines ≠ [] → ∀ key ∈ keys, key ∈
        (pushLines { schema := schema, columnKeys := keys } lines).tracks.map Track.name) := by
  have hempty : TracksFor schema keys (fun _ => [])
      ({ schema := schema, columnKeys := keys } : DataFrameMaker).tracks :=
    ⟨by simp [Typed, tracks], by simp [tracks], by simp [tracks], fun _ _ => rfl⟩
  cases lines with
  | nil => exact ⟨hempty, fun h => absurd rfl h⟩
  | cons first lines =>
    obtain ⟨hready, htracks, hschema, hcols⟩ := pushLine_spec (ready_asked schema keys) first
    obtain ⟨ht, hall⟩ := hempty.pushLine hkeys hne (honce first List.mem_cons_self)
      fun key hkey => .inr (hfirst first rfl key hkey)
    rw [pushLines_cons]
    generalize ({ schema := schema, columnKeys := keys } : DataFrameMaker).pushLine first = m
      at hready htracks hschema hcols
    simp only at htracks hschema hcols
    subst hschema hcols
    rw [← htracks] at ht hall
    obtain ⟨ht', hall'⟩ := tracksFor_pushLines hready hkeys hne ht hall
      fun l hl => honce l (List.mem_cons_of_mem _ hl)
    exact ⟨ht', fun _ => hall'⟩

/-- A line that has a key twice adds two cells or more to the track of the key. -/
theorem cells_of_repeated {m : DataFrameMaker} (hm : m.Ready) (ht : Typed m.schema m.tracks)
    (hne : m.columnKeys ≠ []) {n : Nat}
    (hcells : ∀ key ∈ m.columnKeys, ((cellsOf m.tracks key).getD []).length = n) {line : Bytes}
    (hrep : ¬ HasOnce m.columnKeys line) :
    ∃ key ∈ m.columnKeys, ∃ cells,
      cellsOf (m.pushLine line).tracks key = some cells ∧ n + 2 ≤ cells.length := by
  rw [HasOnce, List.nodup_iff_count_le_one] at hrep
  push Not at hrep
  obtain ⟨key, hcount⟩ := hrep
  have hmem : key ∈ (wantedPairs m.columnKeys line).map Prod.fst :=
    List.count_pos_iff.mp (Nat.lt_of_succ_lt hcount)
  have hkey : key ∈ m.columnKeys := ((mem_wantedKeys hne line key).mp hmem).2
  obtain ⟨-, htracks, -, -⟩ := pushLine_spec hm line
  have hgrown := cellsOf_pushLineTracks ht hmem
  rw [← htracks] at hgrown
  refine ⟨key, hkey, _, hgrown, ?_⟩
  rw [List.length_append, List.length_map, length_valuesOf, hcells key hkey]
  omega

/-- The frame of lines that have no key twice. -/
theorem toDf_pushLines (schema : Option Schema) {keys : List Bytes} (hkeys : keys.Nodup)
    (hne : keys ≠ []) {lines : List Bytes} (hlines : lines ≠ [])
    (hfirst : ∀ first ∈ lines.head?, ∀ key ∈ keys, key ∈ lineKeys first)
    (honce : ∀ line ∈ lines, HasOnce keys line) :
    (pushLines { schema := schema, columnKeys := keys } lines).toDf =
      .ok (alignedFrame schema keys hkeys lines) := by
  obtain ⟨ht, hall⟩ := tracksFor_aligned schema hkeys hne hfirst honce
  obtain ⟨hready, -, hschema, hcols⟩ := pushLines_spec (ready_asked schema keys)
    (by simp [Typed, tracks]) lines
  unfold toDf alignedFrame
  rw [← DataFrame.newInferHeight_ofKeys]
  generalize pushLines { schema := schema, columnKeys := keys } lines = m
    at hready hschema hcols ht hall
  simp only at hschema hcols
  subst hschema hcols
  rw [finishColumns_tracksFor hready hkeys ht (hall hlines)]

/-- A finished frame is as high as each of the tracks asked for. -/
theorem height_of_toDf {m : DataFrameMaker} (hm : m.Ready) (hkeys : m.columnKeys.Nodup)
    {df : DataFrame} (h : m.toDf = .ok df) {key : Bytes} (hkey : key ∈ m.columnKeys)
    {cells : List AnyValue} (hc : cellsOf m.tracks key = some cells) :
    df.height = cells.length ∧ 0 < df.width := by
  have hcolumns := DataFrame.newInferHeight_columns h
  have hdata := finishColumns_spec hm.toOwns m.columnKeys hkeys
  obtain ⟨t, hfind, rfl⟩ := Option.map_eq_some_iff.mp hc
  have hmem : t.finished ∈ df.columns.map Column.data := by
    rw [hcolumns, hdata, List.mem_filterMap]
    refine ⟨key, hkey, ?_⟩
    rw [← trackOf, hfind]
    rfl
  obtain ⟨c, hcmem, hcdata⟩ := List.mem_map.mp hmem
  refine ⟨?_, List.length_pos_of_mem hcmem⟩
  rw [← df.heights c hcmem, Column.len]
  simp only [Column.data, Track.finished, Prod.mk.injEq] at hcdata
  rw [hcdata.2.2]

end DataFrameMaker

end PolarsLogfmt
