import PolarsLogfmt.Frame.DataFrame

/-!
# Tables

A frame whose cells are computed row by row is given by its rows: frames under each other
are the rows after each other, a predicate filters the rows, and a projection lists other
columns of them.
-/

namespace PolarsLogfmt

variable [Crates]

/-- Typed columns with distinct names, and what each shows of a row. -/
structure Table (α : Type) where
  keys : List Bytes
  nodup : keys.Nodup
  dtype : Bytes → DataType
  cell : Bytes → α → AnyValue
  fits : ∀ key row, (cell key row).Fits (dtype key)

namespace Table

variable {α : Type} (t : Table α) (rows : List α)

def column (key : Bytes) : Column := Column.ofMap key (t.dtype key) rows (t.cell key) (t.fits key)

@[simp] theorem column_name (key : Bytes) : (t.column rows key).name = key := rfl

@[simp] theorem column_len (key : Bytes) : (t.column rows key).len = rows.length :=
  List.length_map _

/-- The frame of some rows. -/
def frame : DataFrame :=
  .ofKeys t.keys t.nodup rows.length (t.column rows) (t.column_name rows) (t.column_len rows)

theorem frame_columns : (t.frame rows).columns = t.keys.map (t.column rows) := rfl

theorem frame_columnNames : (t.frame rows).columnNames = t.keys :=
  DataFrame.ofKeys_columnNames _ (t.column_name rows) (t.column_len rows)

theorem frame_width : (t.frame rows).width = t.keys.length := List.length_map _

variable {t} {rows} in
theorem frame_width_ne_zero (h : t.keys ≠ []) : (t.frame rows).width ≠ 0 := by
  rw [frame_width]
  exact fun hzero => h (List.length_eq_zero_iff.mp hzero)

variable {t} in
theorem frame_height (h : t.keys ≠ []) : (t.frame rows).height = rows.length := if_neg h

theorem frame_column? (key : Bytes) :
    (t.frame rows).column? key = if key ∈ t.keys then some (t.column rows key) else none :=
  DataFrame.ofKeys_column? _ (t.column_name rows) (t.column_len rows) key

/-! ## Frames under each other -/

theorem vstack_frame (rows' : List α) :
    (t.frame rows).vstack (t.frame rows') = .ok (t.frame (rows ++ rows')) := by
  have hcolumns : ∀ keys : List Bytes,
      stackColumns (keys.map (t.column rows)) (keys.map (t.column rows')) =
        some (keys.map (t.column (rows ++ rows'))) := by
    intro keys
    induction keys with
    | nil => rfl
    | cons key keys ih =>
      simp only [List.map_cons]
      rw [stackColumns, ih, dif_pos ⟨rfl, rfl⟩, Option.map_some]
      congr 2
      apply Column.data_injective
      simp [Column.append, column, Column.ofMap, Column.data]
  apply DataFrame.vstack_of_columns
  · exact hcolumns t.keys
  · simp only [frame, DataFrame.ofKeys, List.length_append]
    split <;> rfl

theorem accumulateVertical_frames (parts : List (List α)) :
    DataFrame.accumulateVertical (t.frame rows) (parts.map t.frame) =
      .ok (t.frame (rows ++ parts.flatten)) := by
  induction parts generalizing rows with
  | nil =>
    rw [List.flatten_nil, List.append_nil]
    rfl
  | cons part parts ih =>
    rw [List.map_cons, DataFrame.accumulateVertical, List.foldlM_cons, vstack_frame]
    have ih := ih (rows ++ part)
    rw [List.append_assoc] at ih
    exact ih

/-! ## Filtering and projecting -/

/-- The predicate is true on the row. -/
def holds (p : Predicate) (row : α) : Bool := p.holds (p.reads.map fun key => t.cell key row)

theorem cell_frame {key : Bytes} (hkey : key ∈ t.keys) {i : Nat} (hi : i < rows.length) :
    (t.frame rows).cell key i = t.cell key rows[i] := by
  rw [DataFrame.cell, frame_column?, if_pos hkey]
  simp [column, Column.ofMap, hi]

theorem mask_frame {p : Predicate} (hreads : p.reads ⊆ t.keys) (hne : t.keys ≠ []) :
    (t.frame rows).mask p = rows.map (t.holds p) := by
  apply List.ext_getElem
  · simp [DataFrame.mask, frame_height rows hne]
  · intro i hi hi'
    rw [List.length_map] at hi'
    simp only [DataFrame.mask, List.getElem_map, List.getElem_range, holds]
    congr 1
    exact List.map_congr_left fun key hkey => t.cell_frame rows (hreads hkey) hi'

omit [Crates] in
theorem pickMask_map {β : Type} (f : α → Bool) (g : α → β) :
    pickMask (rows.map f) (rows.map g) = (rows.filter f).map g := by
  induction rows with
  | nil => rfl
  | cons row rows ih =>
    cases hf : f row with
    | true => rw [List.map_cons, List.map_cons, hf, List.filter_cons_of_pos hf, pickMask, ih,
      List.map_cons]
    | false => rw [List.map_cons, List.map_cons, hf, List.filter_cons_of_neg (by simp [hf]),
      pickMask, ih]

/-- A predicate filters the rows. -/
theorem filter_frame {p : Predicate} (hreads : p.reads ⊆ t.keys) (hne : t.keys ≠ []) :
    (t.frame rows).filter p = .ok (t.frame (rows.filter (t.holds p))) := by
  have hfound : p.reads.find? (fun name => ((t.frame rows).column? name).isNone) = none := by
    rw [List.find?_eq_none]
    intro name hname
    rw [frame_column?, if_pos (hreads hname)]
    simp
  have hmask := t.mask_frame rows hreads hne
  unfold DataFrame.filter
  rw [hfound]
  simp only [Except.ok.injEq]
  apply DataFrame.ext
  · show ((t.frame rows).mask p).count true = _
    rw [frame_height _ hne, hmask, List.count_eq_countP, List.countP_map,
      List.countP_eq_length_filter]
    simp [Function.comp_def]
  · simp only [DataFrame.pickRows, frame_columns, List.map_map, hmask]
    apply List.map_congr_left
    intro key _
    apply Column.data_injective
    simp [Column.pick, column, Column.ofMap, Column.data, pickMask_map]

/-- Other columns of the same rows. -/
def project (keys : List Bytes) (hn : keys.Nodup) : Table α := { t with keys := keys, nodup := hn }

theorem lookupColumns_frame {keys : List Bytes} (hkeys : keys ⊆ t.keys) :
    (t.frame rows).lookupColumns keys = .ok (keys.map (t.column rows)) := by
  induction keys with
  | nil => rfl
  | cons key keys ih =>
    obtain ⟨hkey, hrest⟩ := List.cons_subset.mp hkeys
    rw [DataFrame.lookupColumns, frame_column?, if_pos hkey, ih hrest]
    rfl

/-- A projection lists columns of the rows. -/
theorem select_frame {keys : List Bytes} (hkeys : keys ⊆ t.keys) (hn : keys.Nodup)
    (hne : keys ≠ []) :
    (t.frame rows).select keys = .ok ((t.project keys hn).frame rows) := by
  have hfound := t.lookupColumns_frame rows hkeys
  have hkept : t.keys ≠ [] := fun h => hne (List.eq_nil_of_subset_nil (h ▸ hkeys))
  unfold DataFrame.select
  split
  · rename_i hfailed
    rw [hfound] at hfailed
    cases hfailed
  · rename_i columns hcolumns
    rw [hfound] at hcolumns
    cases hcolumns
    have hnames : ((keys.map (t.column rows)).map Column.name).Nodup := by
      rw [List.map_map, show Column.name ∘ t.column rows = id from rfl, List.map_id]
      exact hn
    rw [dif_pos hnames]
    congr 1
    apply DataFrame.ext
    · rw [frame_height _ hkept, frame_height (t := t.project keys hn) _ hne]
    · rfl

/-- The first rows. -/
theorem head_frame (n : Nat) : (t.frame rows).head n = t.frame (rows.take n) := by
  apply DataFrame.ext
  · show min n (if t.keys = [] then 0 else rows.length) =
      if t.keys = [] then 0 else (rows.take n).length
    rw [List.length_take]
    split
    · exact Nat.min_zero n
    · rfl
  · simp only [DataFrame.head, frame_columns, List.map_map]
    apply List.map_congr_left
    intro key _
    apply Column.data_injective
    simp [Column.pick, column, Column.ofMap, Column.data]

/-- A frame of some rows and an empty one with the same columns. -/
theorem frame_eq_nil_iff {α β : Type} {t : Table α} {t' : Table β} (hkeys : t.keys = t'.keys)
    (hne : t.keys ≠ []) {rows : List α} :
    t.frame rows = t'.frame [] ↔ rows = [] ∧ ∀ key ∈ t.keys, t.dtype key = t'.dtype key := by
  constructor
  · intro h
    have hrows : rows = [] := by
      have hheight := congrArg DataFrame.height h
      rw [t.frame_height rows hne, t'.frame_height [] (hkeys ▸ hne)] at hheight
      exact List.length_eq_zero_iff.mp hheight
    refine ⟨hrows, fun key hkey => ?_⟩
    have hcolumns : (t.frame rows).column? key = (t'.frame []).column? key := by rw [h]
    rw [t.frame_column?, t'.frame_column?, if_pos hkey, if_pos (hkeys ▸ hkey),
      Option.some.injEq] at hcolumns
    exact congrArg (fun c => c.series.dtype) hcolumns
  · rintro ⟨rfl, htypes⟩
    apply DataFrame.ext
    · rw [t.frame_height [] hne, t'.frame_height [] (hkeys ▸ hne)]
      rfl
    · rw [frame_columns, frame_columns, ← hkeys]
      apply List.map_congr_left
      intro key hkey
      apply Column.data_injective
      simp [column, Column.ofMap, Column.data, htypes key hkey]

/-- Frames of as many rows are the same when their columns have the same types and cells. -/
theorem frame_eq_map_iff {α β : Type} {t : Table α} {t' : Table β} (hkeys : t.keys = t'.keys)
    (f : α → β) {rows : List α} :
    t.frame rows = t'.frame (rows.map f) ↔ ∀ key ∈ t.keys,
      t.dtype key = t'.dtype key ∧ ∀ row ∈ rows, t.cell key row = t'.cell key (f row) := by
  have hcolumn : ∀ key, t.column rows key = t'.column (rows.map f) key ↔
      t.dtype key = t'.dtype key ∧ ∀ row ∈ rows, t.cell key row = t'.cell key (f row) := by
    intro key
    constructor
    · intro h
      have hdtype := congrArg (fun c => c.series.dtype) h
      have hvalues := congrArg (fun c => c.series.values) h
      simp only [column, Column.ofMap, List.map_map] at hdtype hvalues
      exact ⟨hdtype, fun row hrow => List.map_inj_left.mp hvalues row hrow⟩
    · rintro ⟨hdtype, hcells⟩
      apply Column.data_injective
      simp only [Column.data, column, Column.ofMap, List.map_map, Prod.mk.injEq]
      exact ⟨trivial, hdtype, List.map_congr_left hcells⟩
  constructor
  · intro h key hkey
    have hfound : (t.frame rows).column? key = (t'.frame (rows.map f)).column? key := by rw [h]
    rw [t.frame_column?, t'.frame_column?, if_pos hkey, if_pos (hkeys ▸ hkey),
      Option.some.injEq] at hfound
    exact (hcolumn key).mp hfound
  · intro h
    apply DataFrame.ext
    · show (if t.keys = [] then 0 else rows.length) =
        if t'.keys = [] then 0 else (rows.map f).length
      rw [hkeys, List.length_map]
    · rw [frame_columns, frame_columns, ← hkeys]
      exact List.map_congr_left fun key hkey => (hcolumn key).mpr (h key hkey)

end Table

end PolarsLogfmt
