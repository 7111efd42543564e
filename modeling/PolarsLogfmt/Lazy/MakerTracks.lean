import PolarsLogfmt.Lazy.DataFrameMaker

/-!
# The frame maker as a list of tracks

Behind its six lists of builders a `DataFrameMaker` is a list of named, typed columns
that grow. `DataFrameMaker.tracks` reads them off, `pushLineTracks` says what a
line does to them, and `tracks_pushLine` proves that `push_line` does that
whenever the maker owns its builders (`DataFrameMaker.Owns`), which it then still
does. The rest of the development reasons about tracks.
-/

namespace PolarsLogfmt

variable [Crates]

open Crates

/-- The cell a value text becomes in a builder of the type. -/
def convert (dtype : DataType) (value : Bytes) : AnyValue :=
  match dtype with
  | .int64 => .int64 ((i64FromStr value).getD 0)
  | .float64 => .float64 ((f64FromStr value).getD f64Zero)
  | .boolean => .boolean (isTrueWord value)
  | .datetime => .datetime (((parseFromRfc3339 value).map timestampMicros).getD 0)
  | .duration => .int64 (((parseDuration value).map Duration.asMicros).getD 0)
  | .string => .string value

/-- The dtype of the column a builder of the type is finished into. -/
def finishedType : DataType → DataType
  | .duration => .int64
  | dtype => dtype

/-! ## The builders of all types at once -/

namespace ChunkedBuilder

variable {α : Type}

def cells (b : ChunkedBuilder α) (cell : α → AnyValue) : List AnyValue :=
  b.values.map fun v => (v.map cell).getD .null

/-- The name and the cells of a builder. -/
def entry (cell : α → AnyValue) (b : ChunkedBuilder α) : Bytes × List AnyValue :=
  (b.name, b.cells cell)

@[simp] theorem entry_new (cell : α → AnyValue) (name : Bytes) :
    entry cell (new name) = (name, []) := rfl

@[simp] theorem entry_appendValue (cell : α → AnyValue) (b : ChunkedBuilder α) (value : α) :
    entry cell (b.appendValue value) = ((entry cell b).1, (entry cell b).2 ++ [cell value]) := by
  simp [entry, cells, appendValue]

@[simp] theorem entry_appendNull (cell : α → AnyValue) (b : ChunkedBuilder α) :
    entry cell b.appendNull = ((entry cell b).1, (entry cell b).2 ++ [.null]) := by
  simp [entry, cells, appendNull]

theorem getElem?_append_new (cell : α → AnyValue) (bs : List (ChunkedBuilder α)) (name : Bytes)
    (i : Nat) :
    ((bs ++ [new name])[i]?).map (entry cell) =
      if i = bs.length then some (name, []) else (bs[i]?).map (entry cell) := by
  rcases Nat.lt_trichotomy i bs.length with h | h | h
  · rw [List.getElem?_append_left h, if_neg (Nat.ne_of_lt h)]
  · subst h
    simp
  · rw [if_neg (Nat.ne_of_gt h), List.getElem?_eq_none (by simp; omega),
      List.getElem?_eq_none (Nat.le_of_lt h)]

theorem getElem?_modify (cell : α → AnyValue) (bs : List (ChunkedBuilder α)) (index i : Nat)
    (f : ChunkedBuilder α → ChunkedBuilder α) (v : AnyValue)
    (hf : ∀ b, entry cell (f b) = ((entry cell b).1, (entry cell b).2 ++ [v])) :
    ((bs.modify index f)[i]?).map (entry cell) =
      if i = index then ((bs[i]?).map (entry cell)).map fun e => (e.1, e.2 ++ [v])
      else (bs[i]?).map (entry cell) := by
  rw [List.getElem?_modify]
  by_cases h : i = index
  · subst h
    rw [if_pos rfl]
    cases bs[i]? with
    | none => rfl
    | some b => simp [hf]
  · rw [if_neg h]
    cases bs[i]? with
    | none => rfl
    | some b => simp [Ne.symm h]

theorem getElem?_set_ne (cell : α → AnyValue) (bs : List (ChunkedBuilder α)) {index i : Nat}
    (b : ChunkedBuilder α) (h : i ≠ index) :
    ((bs.set index b)[i]?).map (entry cell) = (bs[i]?).map (entry cell) := by
  rw [List.getElem?_set_ne (Ne.symm h)]

end ChunkedBuilder

namespace ColumnArrays

open ChunkedBuilder (entry)

/-- The name and the cells of entry `i` of the builders of a type. -/
def entryAt (a : ColumnArrays) (dtype : DataType) (i : Nat) : Option (Bytes × List AnyValue) :=
  match dtype with
  | .int64 => (a.i64s[i]?).map (entry .int64)
  | .float64 => (a.f64s[i]?).map (entry .float64)
  | .boolean => (a.bools[i]?).map (entry .boolean)
  | .datetime => (a.timestamps[i]?).map (entry .datetime)
  | .duration => (a.durations[i]?).map (entry .int64)
  | .string => (a.strings[i]?).map (entry .string)

/-- The number of builders of a type. -/
def count (a : ColumnArrays) : DataType → Nat
  | .int64 => a.i64s.length
  | .float64 => a.f64s.length
  | .boolean => a.bools.length
  | .datetime => a.timestamps.length
  | .duration => a.durations.length
  | .string => a.strings.length

theorem lt_count {a : ColumnArrays} {dtype : DataType} {i : Nat} {e : Bytes × List AnyValue}
    (h : a.entryAt dtype i = some e) : i < a.count dtype := by
  cases dtype <;>
  · simp only [entryAt, Option.map_eq_some_iff] at h
    obtain ⟨b, hb, -⟩ := h
    exact (List.getElem?_eq_some_iff.mp hb).1

theorem appendColumn_index (a : ColumnArrays) (ci : ColumnInfo) :
    (a.appendColumn ci).2 = a.count ci.dataType := by
  unfold appendColumn
  cases ci.dataType <;> rfl

theorem entryAt_appendColumn (a : ColumnArrays) (ci : ColumnInfo) (dtype : DataType) (i : Nat) :
    (a.appendColumn ci).1.entryAt dtype i =
      if dtype = ci.dataType ∧ i = a.count dtype then some (ci.name, [])
        else a.entryAt dtype i := by
  unfold appendColumn
  cases ci.dataType <;> cases dtype <;>
    simp [entryAt, count, ChunkedBuilder.getElem?_append_new]

theorem entryAt_appendValue (a : ColumnArrays) (ci : ColumnInfo) (value : Bytes) (dtype : DataType)
    (i : Nat) :
    (a.appendValue ci value).entryAt dtype i =
      if dtype = ci.dataType ∧ i = ci.index then
        (a.entryAt dtype i).map fun e => (e.1, e.2 ++ [convert dtype value])
      else a.entryAt dtype i := by
  unfold appendValue
  cases ci.dataType <;> cases dtype <;>
    simp only [entryAt, reduceCtorEq, false_and, true_and, if_false]
  case boolean.boolean =>
    exact ChunkedBuilder.getElem?_modify _ _ _ _ _ _ (by simp [convert])
  all_goals exact ChunkedBuilder.getElem?_modify _ _ _ _ _ _ (by simp [convert])

theorem entryAt_appendNull (a : ColumnArrays) (ci : ColumnInfo) (dtype : DataType) (i : Nat) :
    (a.appendNull ci).entryAt dtype i =
      if dtype = ci.dataType ∧ i = ci.index then
        (a.entryAt dtype i).map fun e => (e.1, e.2 ++ [.null])
      else a.entryAt dtype i := by
  unfold appendNull
  cases ci.dataType <;> cases dtype <;>
    simp only [entryAt, reduceCtorEq, false_and, true_and, if_false]
  all_goals exact ChunkedBuilder.getElem?_modify _ _ _ _ _ _ (by simp)

/-- Taking a column hands out its entry and leaves the others. -/
theorem takeColumn_spec (a : ColumnArrays) (ci : ColumnInfo) :
    (a.takeColumn ci).1.map Column.data =
        (a.entryAt ci.dataType ci.index).map (fun e => (e.1, finishedType ci.dataType, e.2)) ∧
      ∀ dtype i, (dtype, i) ≠ (ci.dataType, ci.index) →
        (a.takeColumn ci).2.entryAt dtype i = a.entryAt dtype i := by
  unfold takeColumn
  cases ci.dataType <;>
  · refine ⟨?_, ?_⟩
    · simp only [entryAt, Option.map_map]
      rfl
    · intro dtype i hne
      cases dtype <;> simp only [entryAt]
      exact ChunkedBuilder.getElem?_set_ne _ _ _ fun h => hne (by rw [h])

end ColumnArrays

/-! ## Tracks -/

/-- A column in the making. -/
structure Track where
  name : Bytes
  dataType : DataType
  cells : List AnyValue

/-- One more cell. -/
def Track.push (t : Track) (cell : AnyValue) : Track := { t with cells := t.cells ++ [cell] }

/-- What the track's column holds once its builder is finished. -/
def Track.finished (t : Track) : Bytes × DataType × List AnyValue :=
  (t.name, finishedType t.dataType, t.cells)

@[simp] theorem Track.push_name (t : Track) (cell : AnyValue) : (t.push cell).name = t.name := rfl

@[simp] theorem Track.push_dataType (t : Track) (cell : AnyValue) :
    (t.push cell).dataType = t.dataType := rfl

/-- The type a key's track has under a schema. -/
def trackType (schema : Option Schema) (key : Bytes) : DataType :=
  builderType (schema.bind (·[key]?))

/-- A pair of the line goes to the track of its key, which may be new. -/
def pushPairTracks (schema : Option Schema) (tracks : List Track) (pair : Bytes × Bytes) :
    List Track :=
  if pair.1 ∈ tracks.map Track.name then
    tracks.map fun t => if t.name = pair.1 then t.push (convert t.dataType pair.2) else t
  else
    tracks ++ [⟨pair.1, trackType schema pair.1, [convert (trackType schema pair.1) pair.2]⟩]

/-- The tracks once the key has one. -/
def columnTracks (schema : Option Schema) (tracks : List Track) (key : Bytes) : List Track :=
  if key ∈ tracks.map Track.name then tracks else tracks ++ [⟨key, trackType schema key, []⟩]

/-- A pair goes to its key's track once the key has one. -/
theorem pushPairTracks_eq (schema : Option Schema) (tracks : List Track) (pair : Bytes × Bytes) :
    (columnTracks schema tracks pair.1).map (fun t =>
        if t.name = pair.1 then t.push (convert t.dataType pair.2) else t) =
      pushPairTracks schema tracks pair := by
  unfold columnTracks pushPairTracks
  split
  · rfl
  · rename_i hnew
    have hold : ∀ t ∈ tracks,
        (if t.name = pair.1 then t.push (convert t.dataType pair.2) else t) = t := by
      intro t ht
      rw [if_neg]
      intro h
      exact hnew (List.mem_map.mpr ⟨t, ht, h⟩)
    rw [List.map_append, List.map_congr_left hold]
    simp [Track.push]

/-- The pairs of a line whose keys are asked for; an empty list asks for all. -/
def wantedPairs (columnKeys : List Bytes) (line : Bytes) : List (Bytes × Bytes) :=
  (handleParseLogfmtLineWithSchemaBase line).filter fun pair =>
    columnKeys = [] ∨ pair.1 ∈ columnKeys

/-- What a line does to the tracks. The tracks it does not carry get a null, unless the
line has as many wanted pairs as there are tracks. -/
def pushLineTracks (schema : Option Schema) (columnKeys : List Bytes) (tracks : List Track)
    (line : Bytes) : List Track :=
  let kvs := wantedPairs columnKeys line
  let pushed := kvs.foldl (pushPairTracks schema) tracks
  if kvs.length < pushed.length then
    pushed.map fun t => if t.name ∈ kvs.map Prod.fst then t else t.push .null
  else pushed

namespace DataFrameMaker

/-- The column of an info. -/
def track (m : DataFrameMaker) (ci : ColumnInfo) : Track :=
  ⟨ci.name, ci.dataType, ((m.arrays.entryAt ci.dataType ci.index).map Prod.snd).getD []⟩

/-- The columns in the making, in the order they were added. -/
def tracks (m : DataFrameMaker) : List Track := m.columnInfos.map m.track

/-- Column names are distinct, every column owns its builder, and `row_seen` has an
entry for every column. -/
structure Owns (m : DataFrameMaker) : Prop where
  names : (m.columnInfos.map ColumnInfo.name).Nodup
  slots : (m.columnInfos.map fun ci => (ci.dataType, ci.index)).Nodup
  entries : ∀ ci ∈ m.columnInfos,
    ∃ cells, m.arrays.entryAt ci.dataType ci.index = some (ci.name, cells)
  seen_length : m.rowSeen.length = m.columnInfos.length

theorem owns_new (schema : Option Schema) : ({ schema := schema } : DataFrameMaker).Owns :=
  ⟨by simp, by simp, by simp, rfl⟩

@[simp] theorem tracks_names (m : DataFrameMaker) :
    m.tracks.map Track.name = m.columnInfos.map ColumnInfo.name := by
  rw [tracks, List.map_map]
  rfl

/-- The names of the columns row `rowId` has carried so far. -/
def Carried (m : DataFrameMaker) (rowId : Nat) (names : List Bytes) : Prop :=
  ∀ p ∈ m.rowSeen.zip m.columnInfos, p.1 = rowId ↔ p.2.name ∈ names

/-- No column owns the builder that would be added next. -/
theorem Owns.slot_fresh {m : DataFrameMaker} (hm : m.Owns) {ci : ColumnInfo}
    (hci : ci ∈ m.columnInfos) (dtype : DataType) :
    ¬ (ci.dataType = dtype ∧ ci.index = m.arrays.count dtype) := by
  rintro ⟨hdtype, hindex⟩
  obtain ⟨cells, hcells⟩ := hm.entries ci hci
  have hlt := ColumnArrays.lt_count hcells
  rw [hindex, hdtype] at hlt
  exact Nat.lt_irrefl _ hlt

/-- The column `columnPos` finds or adds for `key`: `ci`, at `pos` of the maker `m'`. An
added one is empty, and no row has carried it yet. -/
structure ColumnFound (m : DataFrameMaker) (key : Bytes) (m' : DataFrameMaker) (pos : Nat)
    (ci : ColumnInfo) : Prop where
  owns : m'.Owns
  info : m'.columnInfos[pos]? = some ci
  name : ci.name = key
  tracks : m'.tracks = columnTracks m.schema m.tracks key
  seen : ∀ p ∈ m'.rowSeen.zip m'.columnInfos, p ∈ m.rowSeen.zip m.columnInfos ∨ p.2.name = key
  seen_le : ∀ r ∈ m'.rowSeen, r ∈ m.rowSeen ∨ r = 0
  schema : m'.schema = m.schema
  columnKeys : m'.columnKeys = m.columnKeys

/-- The column of a key that has one. -/
theorem columnPos_old {m : DataFrameMaker} (hm : m.Owns) {key : Bytes} {pos : Nat}
    (hpos : m.columnInfos.findIdx? (fun ci => ci.name == key) = some pos) :
    ∃ ci, ColumnFound m key (m.columnPos key).1 (m.columnPos key).2 ci := by
  obtain ⟨hlt, hname, -⟩ := List.findIdx?_eq_some_iff_getElem.mp hpos
  have hkey : m.columnInfos[pos].name = key := by simpa using hname
  have hin : key ∈ m.tracks.map Track.name := by
    rw [tracks_names, ← hkey]
    exact List.mem_map_of_mem (List.getElem_mem hlt)
  refine ⟨m.columnInfos[pos], ?_⟩
  simp only [columnPos, hpos]
  exact
    { owns := hm
      info := List.getElem?_eq_getElem hlt
      name := hkey
      tracks := by rw [columnTracks, if_pos hin]
      seen := fun _ hp => Or.inl hp
      seen_le := fun _ hr => Or.inl hr
      schema := rfl
      columnKeys := rfl }

/-- A key without a column gets one with a builder of its own. -/
theorem columnPos_new {m : DataFrameMaker} (hm : m.Owns) {key : Bytes}
    (hpos : m.columnInfos.findIdx? (fun ci => ci.name == key) = none) :
    ∃ ci, ColumnFound m key (m.columnPos key).1 (m.columnPos key).2 ci := by
  have hfresh : key ∉ m.columnInfos.map ColumnInfo.name := by
    intro h
    obtain ⟨ci, hci, hname⟩ := List.mem_map.mp h
    have := List.findIdx?_eq_none_iff.mp hpos ci hci
    simp [hname] at this
  let bare : ColumnInfo := { name := key, dataType := trackType m.schema key, index := 0 }
  let ci : ColumnInfo := { bare with index := m.arrays.count bare.dataType }
  have hfound : m.columnPos key =
      ({ m with
          arrays := (m.arrays.appendColumn bare).1
          columnInfos := m.columnInfos ++ [ci]
          rowSeen := m.rowSeen ++ [0] },
        m.columnInfos.length) := by
    simp only [columnPos, hpos, ColumnArrays.appendColumn_index]
    rfl
  -- an old column's builder is not the new one
  have hother : ∀ ck ∈ m.columnInfos,
      (m.arrays.appendColumn bare).1.entryAt ck.dataType ck.index =
        m.arrays.entryAt ck.dataType ck.index := by
    intro ck hk
    rw [ColumnArrays.entryAt_appendColumn, if_neg]
    rintro ⟨hdtype, hindex⟩
    apply hm.slot_fresh hk bare.dataType
    rw [hdtype] at hindex
    exact ⟨hdtype, hindex⟩
  have hnew : (m.arrays.appendColumn bare).1.entryAt ci.dataType ci.index = some (ci.name, []) := by
    rw [ColumnArrays.entryAt_appendColumn, if_pos ⟨rfl, rfl⟩]
  refine ⟨ci, ?_⟩
  rw [hfound]
  refine ⟨⟨?_, ?_, ?_, ?_⟩, ?_, rfl, ?_, ?_, ?_, rfl, rfl⟩
  · rw [List.map_append, List.nodup_append']
    refine ⟨hm.names, by simp, ?_⟩
    intro name hname hname'
    obtain rfl : name = key := by simpa using hname'
    exact hfresh hname
  · rw [List.map_append, List.nodup_append']
    refine ⟨hm.slots, by simp, ?_⟩
    intro slot hslot hslot'
    obtain ⟨ck, hk, rfl⟩ := List.mem_map.mp hslot
    apply hm.slot_fresh hk bare.dataType
    simpa [ci] using hslot'
  · intro ck hk
    rcases List.mem_append.mp hk with hk | hk
    · obtain ⟨cells, hcells⟩ := hm.entries ck hk
      exact ⟨cells, (hother ck hk).trans hcells⟩
    · obtain rfl := List.mem_singleton.mp hk
      exact ⟨_, hnew⟩
  · simp [hm.seen_length]
  · simp
  · have hnot : key ∉ m.tracks.map Track.name := by rwa [tracks_names]
    rw [columnTracks, if_neg hnot]
    simp only [DataFrameMaker.tracks, List.map_append, List.map_cons, List.map_nil]
    congr 1
    · apply List.map_congr_left
      intro ck hk
      simp only [track, hother ck hk]
    · simp only [track, hnew]
      rfl
  · intro p hp
    rw [List.zip_append hm.seen_length, List.mem_append] at hp
    rcases hp with hp | hp
    · exact Or.inl hp
    · right
      obtain rfl : p = (0, ci) := by simpa using hp
      rfl
  · intro r hr
    simpa using hr

theorem columnPos_spec {m : DataFrameMaker} (hm : m.Owns) (key : Bytes) :
    ∃ ci, ColumnFound m key (m.columnPos key).1 (m.columnPos key).2 ci := by
  cases hpos : m.columnInfos.findIdx? fun ci => ci.name == key with
  | some pos => exact columnPos_old hm hpos
  | none => exact columnPos_new hm hpos

/-- Writing to a column's builder makes its track grow, and no other. -/
theorem tracks_appendValue {m : DataFrameMaker} (hm : m.Owns) {ci : ColumnInfo}
    (hci : ci ∈ m.columnInfos) (rowSeen : List Nat) (value : Bytes) :
    tracks { m with rowSeen := rowSeen, arrays := m.arrays.appendValue ci value } =
      m.tracks.map fun t => if t.name = ci.name then t.push (convert t.dataType value) else t := by
  simp only [tracks, List.map_map]
  apply List.map_congr_left
  intro cj hj
  obtain ⟨cells, hcells⟩ := hm.entries cj hj
  simp only [track, Function.comp_apply, ColumnArrays.entryAt_appendValue, hcells]
  by_cases hsame : cj = ci
  · subst hsame
    simp [Track.push]
  · have hslot : ¬ (cj.dataType = ci.dataType ∧ cj.index = ci.index) := by
      rintro ⟨hd, hi⟩
      exact hsame (List.inj_on_of_nodup_map hm.slots hj hci (by rw [hd, hi]))
    have hne : cj.name ≠ ci.name := by
      intro h
      exact hsame (List.inj_on_of_nodup_map hm.names hj hci h)
    simp [hslot, hne]

theorem Owns.appendValue {m : DataFrameMaker} (hm : m.Owns) (ci : ColumnInfo) (value : Bytes)
    {rowSeen : List Nat} (hlen : rowSeen.length = m.rowSeen.length) :
    ({ m with rowSeen := rowSeen, arrays := m.arrays.appendValue ci value } :
      DataFrameMaker).Owns := by
  refine ⟨hm.names, hm.slots, ?_, hlen.trans hm.seen_length⟩
  intro cj hj
  obtain ⟨cells, hcells⟩ := hm.entries cj hj
  simp only [ColumnArrays.entryAt_appendValue, hcells]
  split
  · exact ⟨_, rfl⟩
  · exact ⟨_, rfl⟩

/-- One step of the callback, on a maker whose row so far carried `names`. -/
structure PairPushed (rowId : Nat) (names : List Bytes) (m : DataFrameMaker) (pair : Bytes × Bytes)
    (m' : DataFrameMaker) : Prop where
  owns : m'.Owns
  tracks : m'.tracks = pushPairTracks m.schema m.tracks pair
  carried : m'.Carried rowId (names ++ [pair.1])
  seen_le : (∀ r ∈ m.rowSeen, r ≤ rowId) → ∀ r ∈ m'.rowSeen, r ≤ rowId
  schema : m'.schema = m.schema
  columnKeys : m'.columnKeys = m.columnKeys

/-- The entries of `row_seen` and their columns once the entry of a column is set. -/
theorem mem_zip_set {m : DataFrameMaker} (hm : m.Owns) {pos rowId : Nat} {ci : ColumnInfo}
    (hci : m.columnInfos[pos]? = some ci) {p : Nat × ColumnInfo}
    (hp : p ∈ (m.rowSeen.set pos rowId).zip m.columnInfos) :
    p = (rowId, ci) ∨ p ∈ m.rowSeen.zip m.columnInfos ∧ p.2.name ≠ ci.name := by
  obtain ⟨hlt, hget⟩ := List.getElem?_eq_some_iff.mp hci
  obtain ⟨i, hi, rfl⟩ := List.mem_iff_getElem.mp hp
  rw [List.length_zip, List.length_set] at hi
  obtain ⟨his, hi'⟩ := Nat.lt_min.mp hi
  by_cases heq : pos = i
  · left
    subst heq
    simp [hget]
  · right
    refine ⟨List.mem_iff_getElem.mpr ⟨i, by simpa using ⟨his, hi'⟩, by simp [heq]⟩, ?_⟩
    intro h
    apply heq
    have hinj := List.nodup_iff_injective_getElem.mp hm.names
    have := @hinj ⟨pos, by simpa using hlt⟩ ⟨i, by simpa using hi'⟩ (by simpa [hget] using h.symm)
    simpa using this

/-- A wanted pair finds or adds its column, whose builder then grows. -/
theorem pushPair_wanted {m : DataFrameMaker} (hm : m.Owns) {rowId hits : Nat} {names : List Bytes}
    (hc : m.Carried rowId names) {pair : Bytes × Bytes} (hw : m.wants pair.1) :
    PairPushed rowId names m pair (pushPair rowId (m, hits) pair).1 ∧
      (pushPair rowId (m, hits) pair).2 = hits + 1 := by
  obtain ⟨ci, hfound⟩ := columnPos_spec hm pair.1
  generalize hpos : m.columnPos pair.1 = found at hfound
  obtain ⟨m', pos⟩ := found
  simp only at hfound
  have hpush : pushPair rowId (m, hits) pair =
      ({ m' with rowSeen := m'.rowSeen.set pos rowId, arrays := m'.arrays.appendValue ci pair.2 },
        hits + 1) := by
    simp only [pushPair, hw, not_true, if_false, hpos, hfound.info]
  rw [hpush]
  refine ⟨?_, rfl⟩
  exact
    { owns := hfound.owns.appendValue ci pair.2 List.length_set
      tracks := by
        rw [tracks_appendValue hfound.owns (List.mem_of_getElem? hfound.info), hfound.tracks,
          hfound.name, pushPairTracks_eq]
      carried := by
        intro p hp
        rcases mem_zip_set hfound.owns hfound.info hp with rfl | ⟨hp, hne⟩
        · simp [hfound.name]
        · rw [hfound.name] at hne
          have hold := hc p ((hfound.seen p hp).resolve_right hne)
          rw [hold, List.mem_append, List.mem_singleton, or_iff_left hne]
      seen_le := by
        intro hle r hr
        rcases List.mem_or_eq_of_mem_set hr with hr | rfl
        · rcases hfound.seen_le r hr with hr | rfl
          · exact hle r hr
          · exact Nat.zero_le rowId
        · exact Nat.le_refl r
      schema := hfound.schema
      columnKeys := hfound.columnKeys }

/-- A pair that is not wanted changes nothing; a wanted one goes to its track. -/
theorem pushPair_step {m : DataFrameMaker} (hm : m.Owns) {rowId : Nat} {names : List Bytes}
    (hc : m.Carried rowId names) (hits : Nat) (pair : Bytes × Bytes) :
    if m.wants pair.1 then
      PairPushed rowId names m pair (pushPair rowId (m, hits) pair).1 ∧
        (pushPair rowId (m, hits) pair).2 = hits + 1
    else pushPair rowId (m, hits) pair = (m, hits) := by
  split
  · rename_i hw
    exact pushPair_wanted hm hc hw
  · rename_i hw
    simp only [pushPair, hw, not_false_eq_true, if_true]

/-- The callback over all pairs of a line. -/
theorem foldl_pushPair {m : DataFrameMaker} (hm : m.Owns) {rowId : Nat} {names : List Bytes}
    (hc : m.Carried rowId names) (hits : Nat) (pairs : List (Bytes × Bytes)) :
    let wanted := pairs.filter fun pair => m.columnKeys = [] ∨ pair.1 ∈ m.columnKeys
    let out := pairs.foldl (pushPair rowId) (m, hits)
    out.1.Owns ∧ out.1.tracks = wanted.foldl (pushPairTracks m.schema) m.tracks ∧
      out.1.Carried rowId (names ++ wanted.map Prod.fst) ∧ out.2 = hits + wanted.length ∧
      ((∀ r ∈ m.rowSeen, r ≤ rowId) → ∀ r ∈ out.1.rowSeen, r ≤ rowId) ∧
      out.1.schema = m.schema ∧ out.1.columnKeys = m.columnKeys := by
  induction pairs generalizing m names hits with
  | nil => simpa using ⟨hm, hc⟩
  | cons pair pairs ih =>
    have hstep := pushPair_step hm hc hits pair
    by_cases hw : m.wants pair.1
    · rw [if_pos hw] at hstep
      obtain ⟨hpushed, hhits⟩ := hstep
      have ih := ih hpushed.owns hpushed.carried (pushPair rowId (m, hits) pair).2
      have hfilter :
          (pair :: pairs).filter (fun pair => m.columnKeys = [] ∨ pair.1 ∈ m.columnKeys) =
            pair :: pairs.filter fun pair => m.columnKeys = [] ∨ pair.1 ∈ m.columnKeys :=
        List.filter_cons_of_pos (by simpa [wants] using hw)
      simp only [hfilter, List.foldl_cons, List.map_cons, List.length_cons]
      rw [hpushed.columnKeys, hpushed.schema, hpushed.tracks] at ih
      simp only [hhits] at ih
      obtain ⟨howns, htracks, hcarried, hcount, hseen, hschema, hkeys⟩ := ih
      rw [show pushPair rowId (m, hits) pair = ((pushPair rowId (m, hits) pair).1, hits + 1) from
        Prod.ext rfl hhits]
      refine ⟨howns, htracks, ?_, ?_, fun h => hseen (hpushed.seen_le h), hschema, hkeys⟩
      · simpa using hcarried
      · omega
    · rw [if_neg hw] at hstep
      have hfilter :
          (pair :: pairs).filter (fun pair => m.columnKeys = [] ∨ pair.1 ∈ m.columnKeys) =
            pairs.filter fun pair => m.columnKeys = [] ∨ pair.1 ∈ m.columnKeys :=
        List.filter_cons_of_neg (by simpa [wants] using hw)
      simp only [hfilter, List.foldl_cons, hstep]
      exact ih hm hc hits

/-- Nulls go to the slots of the listed columns the row has not carried. -/
theorem entryAt_foldl_appendNull (rowId : Nat) (ps : List (Nat × ColumnInfo))
    (hslots : (ps.map fun p => (p.2.dataType, p.2.index)).Nodup) (a : ColumnArrays)
    (dtype : DataType) (i : Nat) :
    (ps.foldl (fun arrays (seen, ci) => if seen ≠ rowId then arrays.appendNull ci else arrays)
        a).entryAt dtype i =
      if ∃ p ∈ ps, p.1 ≠ rowId ∧ (p.2.dataType, p.2.index) = (dtype, i) then
        (a.entryAt dtype i).map fun e => (e.1, e.2 ++ [.null])
      else a.entryAt dtype i := by
  induction ps generalizing a with
  | nil => simp
  | cons p ps ih =>
    obtain ⟨seen, ci⟩ := p
    rw [List.map_cons, List.nodup_cons] at hslots
    rw [List.foldl_cons, ih hslots.2]
    by_cases hslot : (ci.dataType, ci.index) = (dtype, i)
    · have hrest : ¬ ∃ p ∈ ps, p.1 ≠ rowId ∧ (p.2.dataType, p.2.index) = (dtype, i) := by
        rintro ⟨p, hp, -, heq⟩
        exact hslots.1 (List.mem_map.mpr ⟨p, hp, heq.trans hslot.symm⟩)
      obtain ⟨rfl, rfl⟩ := Prod.mk.inj hslot
      rw [if_neg hrest]
      by_cases hseen : seen = rowId
      · have hno : ¬ ∃ p ∈ (seen, ci) :: ps,
            p.1 ≠ rowId ∧ (p.2.dataType, p.2.index) = (ci.dataType, ci.index) := by
          rintro ⟨p, hp, hne, heq⟩
          rcases List.mem_cons.mp hp with rfl | hp
          · exact hne hseen
          · exact hrest ⟨p, hp, hne, heq⟩
        rw [if_neg hno]
        simp only [hseen, ne_eq, not_true, if_false]
      · have hyes : ∃ p ∈ (seen, ci) :: ps,
            p.1 ≠ rowId ∧ (p.2.dataType, p.2.index) = (ci.dataType, ci.index) :=
          ⟨_, List.mem_cons_self, hseen, rfl⟩
        rw [if_pos hyes]
        simp only [ne_eq, hseen, not_false_eq_true, if_true]
        rw [ColumnArrays.entryAt_appendNull, if_pos ⟨rfl, rfl⟩]
    · have hiff : (∃ p ∈ (seen, ci) :: ps,
            p.1 ≠ rowId ∧ (p.2.dataType, p.2.index) = (dtype, i)) ↔
          ∃ p ∈ ps, p.1 ≠ rowId ∧ (p.2.dataType, p.2.index) = (dtype, i) := by
        rw [List.exists_mem_cons_iff]
        exact or_iff_right fun h => hslot h.2
      have hsame : (if seen ≠ rowId then a.appendNull ci else a).entryAt dtype i =
          a.entryAt dtype i := by
        split
        · rw [ColumnArrays.entryAt_appendNull, if_neg]
          rintro ⟨rfl, rfl⟩
          exact hslot rfl
        · rfl
      simp only [hiff, hsame]

/-- Filling the nulls of a row that carried `names`. -/
theorem fillNulls_spec {m : DataFrameMaker} (hm : m.Owns) {rowId : Nat} {names : List Bytes}
    (hc : m.Carried rowId names) :
    (m.fillNulls rowId).Owns ∧ (m.fillNulls rowId).tracks =
      m.tracks.map fun t => if t.name ∈ names then t else t.push .null := by
  have hzip : (m.rowSeen.zip m.columnInfos).map Prod.snd = m.columnInfos :=
    List.map_snd_zip (Nat.le_of_eq hm.seen_length.symm)
  have hslots : ((m.rowSeen.zip m.columnInfos).map fun p => (p.2.dataType, p.2.index)).Nodup := by
    have := hm.slots
    rw [← hzip, List.map_map] at this
    exact this
  have hentry : ∀ ci ∈ m.columnInfos, (m.fillNulls rowId).arrays.entryAt ci.dataType ci.index =
      if ci.name ∈ names then m.arrays.entryAt ci.dataType ci.index
      else (m.arrays.entryAt ci.dataType ci.index).map fun e => (e.1, e.2 ++ [.null]) := by
    intro ci hci
    rw [fillNulls, entryAt_foldl_appendNull rowId _ hslots]
    have hp : ∃ p ∈ m.rowSeen.zip m.columnInfos, p.2 = ci := by
      rw [← hzip] at hci
      exact List.mem_map.mp hci
    obtain ⟨p, hp, rfl⟩ := hp
    have hiff : (∃ q ∈ m.rowSeen.zip m.columnInfos,
        q.1 ≠ rowId ∧ (q.2.dataType, q.2.index) = (p.2.dataType, p.2.index)) ↔
          p.2.name ∉ names := by
      rw [← hc p hp]
      constructor
      · rintro ⟨q, hq, hne, heq⟩
        rwa [← List.inj_on_of_nodup_map hslots hq hp heq]
      · exact fun hne => ⟨p, hp, hne, rfl⟩
    by_cases hn : p.2.name ∈ names
    · rw [if_pos hn, if_neg (by rw [hiff]; exact not_not.mpr hn)]
    · rw [if_neg hn, if_pos (hiff.mpr hn)]
  refine ⟨⟨hm.names, hm.slots, ?_, hm.seen_length⟩, ?_⟩
  · intro ci hci
    obtain ⟨cells, hcells⟩ := hm.entries ci hci
    rw [hentry ci hci, hcells]
    split
    · exact ⟨_, rfl⟩
    · exact ⟨_, rfl⟩
  · simp only [tracks, List.map_map]
    apply List.map_congr_left
    intro ci hci
    obtain ⟨cells, hcells⟩ := hm.entries ci hci
    simp only [track, Function.comp_apply, hentry ci hci, hcells]
    split
    · rfl
    · simp [Track.push]

/-- A maker between two rows. -/
structure Ready (m : DataFrameMaker) : Prop extends Owns m where
  seen_le : ∀ r ∈ m.rowSeen, r ≤ m.rowsPushed

theorem ready_new (schema : Option Schema) : ({ schema := schema } : DataFrameMaker).Ready :=
  ⟨owns_new schema, by simp⟩

/-- `push_line` does to the tracks what `pushLineTracks` says, and the maker is ready for
the next row. -/
theorem pushLine_spec {m : DataFrameMaker} (hm : m.Ready) (line : Bytes) :
    (m.pushLine line).Ready ∧
      (m.pushLine line).tracks = pushLineTracks m.schema m.columnKeys m.tracks line ∧
      (m.pushLine line).schema = m.schema ∧ (m.pushLine line).columnKeys = m.columnKeys := by
  have hc : m.Carried (m.rowsPushed + 1) [] := by
    intro p hp
    have := hm.seen_le p.1 (List.of_mem_zip hp).1
    constructor
    · intro h
      omega
    · intro h
      cases h
  obtain ⟨howns, htracks, hcarried, hcount, hseen, hschema, hkeys⟩ :=
    foldl_pushPair hm.toOwns hc 0 (handleParseLogfmtLineWithSchemaBase line)
  have hseen := hseen fun r hr => (hm.seen_le r hr).trans (Nat.le_succ _)
  have hlen : ∀ m' : DataFrameMaker, m'.columnInfos.length = m'.tracks.length := fun m' => by
    rw [tracks, List.length_map]
  unfold pushLine pushLineTracks wantedPairs
  simp only
  rw [Nat.zero_add] at hcount
  rw [List.nil_append] at hcarried
  generalize (handleParseLogfmtLineWithSchemaBase line).foldl (pushPair (m.rowsPushed + 1)) (m, 0) =
    out at howns htracks hcarried hcount hseen hschema hkeys ⊢
  rw [hcount, hlen, htracks]
  split
  · obtain ⟨hfilled, htracks'⟩ := fillNulls_spec howns hcarried
    rw [htracks] at htracks'
    exact ⟨⟨⟨hfilled.names, hfilled.slots, hfilled.entries, hfilled.seen_length⟩, hseen⟩, htracks',
      hschema, hkeys⟩
  · exact ⟨⟨⟨howns.names, howns.slots, howns.entries, howns.seen_length⟩, hseen⟩, htracks,
      hschema, hkeys⟩

/-! ## The finished columns -/

theorem find?_tracks (m : DataFrameMaker) (key : Bytes) :
    m.tracks.find? (fun t => t.name == key) =
      (m.columnInfos.find? fun ci => ci.name == key).map m.track := by
  rw [tracks, List.find?_map]
  rfl

/-- The loop hands out, for every key that has a track, that track finished. -/
theorem finishColumns_spec {m : DataFrameMaker} (hm : m.Owns) (keys : List Bytes)
    (hk : keys.Nodup) :
    (finishColumns m.columnInfos m.arrays keys).map Column.data =
      keys.filterMap fun key => (m.tracks.find? fun t => t.name == key).map Track.finished := by
  suffices h : ∀ a : ColumnArrays,
      (∀ ci ∈ m.columnInfos, ci.name ∈ keys →
        a.entryAt ci.dataType ci.index = m.arrays.entryAt ci.dataType ci.index) →
      (finishColumns m.columnInfos a keys).map Column.data =
        keys.filterMap fun key => (m.tracks.find? fun t => t.name == key).map Track.finished from
    h m.arrays fun _ _ _ => rfl
  intro a ha
  induction keys generalizing a with
  | nil => rfl
  | cons key keys ih =>
    rw [List.nodup_cons] at hk
    rw [List.filterMap_cons, find?_tracks, finishColumns]
    cases hf : m.columnInfos.find? fun ci => ci.name == key with
    | none =>
      exact ih hk.2 a fun ci hci hname => ha ci hci (List.mem_cons_of_mem _ hname)
    | some ci =>
      have hci : ci ∈ m.columnInfos := List.mem_of_find?_eq_some hf
      have hname : ci.name = key := by simpa using List.find?_some hf
      obtain ⟨hcol, hrest⟩ := ColumnArrays.takeColumn_spec a ci
      obtain ⟨cells, hcells⟩ := hm.entries ci hci
      rw [ha ci hci (by rw [hname]; exact List.mem_cons_self), hcells, Option.map_some] at hcol
      obtain ⟨c, hc, hdata⟩ := Option.map_eq_some_iff.mp hcol
      have htrack : m.track ci = ⟨ci.name, ci.dataType, cells⟩ := by simp [track, hcells]
      simp only [hc, Option.toList_some, List.cons_append, List.nil_append, List.map_cons, hdata,
        Option.map_some, htrack, Track.finished]
      congr 1
      apply ih hk.2 _
      intro cj hj hjname
      rw [hrest cj.dataType cj.index, ha cj hj (List.mem_cons_of_mem _ hjname)]
      intro hslot
      obtain rfl := List.inj_on_of_nodup_map hm.slots hj hci hslot
      exact hk.1 (hname ▸ hjname)

end DataFrameMaker

end PolarsLogfmt
