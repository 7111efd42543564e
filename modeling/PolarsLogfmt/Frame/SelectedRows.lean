import PolarsLogfmt.Frame.FrameSchema
import PolarsLogfmt.Frame.Rows

/-!
# Filtered and projected rows

A frame is its typed columns and its rows. Filtering keeps some of the rows, projecting lists other
cells of them, and frames of one schema can be put under each other.
-/

namespace PolarsLogfmt

variable [Crates]

theorem stackColumns_of_schema {as bs : List Column}
    (h : bs.map (fun c => (c.name, c.series.dtype)) = as.map fun c => (c.name, c.series.dtype)) :
    ∃ cs, stackColumns as bs = some cs := by
  induction as generalizing bs with
  | nil =>
    cases bs with
    | nil => exact ⟨[], rfl⟩
    | cons b bs => cases h
  | cons a as ih =>
    cases bs with
    | nil => cases h
    | cons b bs =>
      rw [List.map_cons, List.map_cons, List.cons.injEq, Prod.mk.injEq] at h
      obtain ⟨⟨hname, hdtype⟩, hrest⟩ := h
      obtain ⟨cs, hcs⟩ := ih hrest
      refine ⟨a.append b hdtype.symm :: cs, ?_⟩
      rw [stackColumns, dif_pos ⟨hname.symm, hdtype.symm⟩, hcs]
      rfl

namespace DataFrame

variable {df out : DataFrame}

/-! ## Columns and rows -/

theorem columnNames_eq_schema (df : DataFrame) : df.columnNames = df.schema.map Prod.fst := by
  rw [schema, List.map_map]
  rfl

theorem width_eq_schema (df : DataFrame) : df.width = df.schema.length := (List.length_map _).symm

theorem length_rows (df : DataFrame) : df.rows.length = df.height := by
  rw [rows, List.length_map, List.length_range]

/-- Frames are the same when their columns have the same names and types, and their rows the same
cells. -/
theorem eq_of_rows {a b : DataFrame} (hschema : a.schema = b.schema) (hrows : a.rows = b.rows) :
    a = b := by
  have hheight : a.height = b.height := by rw [← length_rows, hrows, length_rows]
  refine ext hheight ?_
  have hlen : a.columns.length = b.columns.length := by
    have hlen := congrArg List.length hschema
    rwa [schema, schema, List.length_map, List.length_map] at hlen
  apply List.ext_getElem hlen
  intro k hk hk'
  -- the names and types of the columns
  have hfield := congrArg (fun fields => fields[k]?) hschema
  simp only [schema, List.getElem?_map, List.getElem?_eq_getElem hk, List.getElem?_eq_getElem hk',
    Option.map_some, Option.some.injEq, Prod.mk.injEq] at hfield
  apply Column.data_injective
  rw [Column.data, Column.data, Prod.mk.injEq, Prod.mk.injEq]
  refine ⟨hfield.1, hfield.2, List.ext_getElem? fun i => ?_⟩
  -- their cells, row by row
  have hlenA : a.columns[k].series.values.length = a.height := a.heights _ (List.getElem_mem hk)
  have hlenB : b.columns[k].series.values.length = b.height := b.heights _ (List.getElem_mem hk')
  by_cases hi : i < a.height
  · have hrow := congrArg (fun rows => rows[i]?) hrows
    simp only [rows, List.getElem?_map, List.getElem?_range hi, List.getElem?_range (hheight ▸ hi),
      Option.map_some, Option.some.injEq] at hrow
    have hcell := congrArg (fun cells => cells[k]?) hrow
    simpa [row, hk, hk'] using hcell
  · rw [List.getElem?_eq_none (by omega), List.getElem?_eq_none (by omega)]

/-- Frames whose columns have the same names are the same when their types and rows are. -/
theorem eq_iff_of_schema {a b : DataFrame} {cols : List Bytes} {dtype dtype' : Bytes → DataType}
    (ha : a.schema = cols.map fun key => (key, dtype key))
    (hb : b.schema = cols.map fun key => (key, dtype' key)) :
    a = b ↔ (∀ key ∈ cols, dtype key = dtype' key) ∧ a.rows = b.rows := by
  have hschema : a.schema = b.schema ↔ ∀ key ∈ cols, dtype key = dtype' key := by
    rw [ha, hb, List.map_inj_left]
    exact forall₂_congr fun key _ => Prod.mk_right_inj
  constructor
  · rintro rfl
    exact ⟨hschema.mp rfl, rfl⟩
  · rintro ⟨htypes, hrows⟩
    exact eq_of_rows (hschema.mpr htypes) hrows

/-- The first rows of a frame. -/
theorem head_rows (df : DataFrame) (n : Nat) : (df.head n).rows = df.rows.take n := by
  unfold rows
  rw [← List.map_take, List.take_range]
  apply List.map_congr_left
  intro i hi
  have hlt : i < n := (List.mem_range.mp hi).trans_le (Nat.min_le_left n df.height)
  rw [row, row, head, List.map_map]
  apply List.map_congr_left
  intro c _
  show (c.series.values.take n)[i]? = c.series.values[i]?
  rw [List.getElem?_take_of_lt hlt]

/-! ## Frames under each other -/

theorem vstack_of_schema {other : DataFrame} (h : other.schema = df.schema) :
    ∃ stacked, df.vstack other = .ok stacked ∧ stacked.schema = df.schema := by
  have hwidth : df.width = other.width := by rw [width_eq_schema, width_eq_schema, h]
  obtain ⟨columns, hcolumns⟩ := stackColumns_of_schema h
  cases hstack : df.vstack other with
  | ok stacked => exact ⟨stacked, rfl, (vstack_schema hstack hwidth).1⟩
  | error e =>
    rw [vstack, if_neg (not_not.mpr hwidth)] at hstack
    split at hstack
    · cases hstack
    · rename_i hnone
      rw [hcolumns] at hnone
      cases hnone

/-- Frames of one schema can be stacked. -/
theorem accumulateVertical_of_schema {dfs : List DataFrame}
    (h : ∀ other ∈ dfs, other.schema = df.schema) :
    ∃ stacked, accumulateVertical df dfs = .ok stacked ∧ stacked.schema = df.schema := by
  induction dfs generalizing df with
  | nil => exact ⟨df, rfl, rfl⟩
  | cons next dfs ih =>
    obtain ⟨mid, hmid, hschema⟩ := vstack_of_schema (h next List.mem_cons_self)
    obtain ⟨stacked, hstacked, hout⟩ := @ih mid fun other hother =>
      (h other (List.mem_cons_of_mem _ hother)).trans hschema.symm
    refine ⟨stacked, ?_, hout.trans hschema⟩
    rw [accumulateVertical, List.foldlM_cons, hmid]
    exact hstacked

/-- Every column has the type of its name. -/
def TypedBy (dtype : Bytes → DataType) (df : DataFrame) : Prop :=
  ∀ c ∈ df.columns, c.series.dtype = dtype c.name

theorem TypedBy.schema {dtype : Bytes → DataType} (h : df.TypedBy dtype) :
    df.schema = df.columnNames.map fun name => (name, dtype name) := by
  rw [DataFrame.schema, columnNames, List.map_map]
  apply List.map_congr_left
  intro c hc
  rw [h c hc]
  rfl

theorem typedBy_of_schema {dtype : Bytes → DataType} {names : List Bytes}
    (h : df.schema = names.map fun name => (name, dtype name)) : df.TypedBy dtype := by
  intro c hc
  have hmem : (c.name, c.series.dtype) ∈ df.schema := List.mem_map_of_mem hc
  rw [h] at hmem
  obtain ⟨name, -, heq⟩ := List.mem_map.mp hmem
  obtain ⟨rfl, hdtype⟩ := Prod.mk.inj heq
  exact hdtype.symm

/-! ## Filtering -/

/-- The cell a row has in a column. -/
def rowCell (names : List Bytes) (row : List (Option AnyValue)) (name : Bytes) : Option AnyValue :=
  ((names.zip row).find? fun entry => entry.1 == name).bind Prod.snd

theorem rowCell_row (df : DataFrame) (i : Nat) (name : Bytes) :
    rowCell df.columnNames (df.row i) name = (df.column? name).bind fun c =>
      c.series.values[i]? := by
  rw [rowCell, columnNames, row, List.zip_map', List.find?_map, column?]
  show Option.bind (Option.map _ (df.columns.find? fun c => c.name == name)) _ = _
  cases df.columns.find? fun c => c.name == name with
  | none => rfl
  | some c => rfl

/-- The predicate is true on the row. -/
def rowHolds (names : List Bytes) (p : Predicate) (row : List (Option AnyValue)) : Bool :=
  p.holds (p.reads.map fun name => (rowCell names row name).getD .null)

theorem mask_eq_rows (df : DataFrame) (p : Predicate) :
    df.mask p = df.rows.map (rowHolds df.columnNames p) := by
  rw [mask, rows, List.map_map]
  apply List.map_congr_left
  intro i _
  simp only [Function.comp_apply, rowHolds, rowCell_row]
  rfl

omit [Crates] in
theorem pickMask_map {α β : Type} (f : α → β) (mask : List Bool) (xs : List α) :
    pickMask mask (xs.map f) = (pickMask mask xs).map f := by
  fun_induction pickMask mask xs with
  | case1 mask x xs ih => rw [List.map_cons, pickMask, ih, List.map_cons]
  | case2 mask x xs ih => rw [List.map_cons, pickMask, ih]
  | case3 mask xs hpick hskip =>
    cases mask with
    | nil => rfl
    | cons flag mask =>
      cases xs with
      | nil => cases flag <;> rfl
      | cons x xs =>
        cases flag with
        | true => exact absurd rfl (hpick mask x xs rfl)
        | false => exact absurd rfl (hskip mask x xs rfl)

/-- The elements that are picked, by their indices. -/
theorem getElem?_pickMask (mask : List Bool) (xs : List AnyValue) (j : Nat) :
    (pickMask mask xs)[j]? = ((pickMask mask (List.range xs.length))[j]?).bind (xs[·]?) := by
  have hxs : (List.range xs.length).map (xs[·]?) = xs.map some := by
    apply List.ext_getElem (by simp)
    intro i hi hi'
    rw [List.length_map, List.length_range] at hi
    simp [hi]
  have hpicked := congrArg (fun ys => ys[j]?) (pickMask_map some mask xs)
  rw [← hxs, pickMask_map] at hpicked
  simp only [List.getElem?_map] at hpicked
  cases hindex : (pickMask mask (List.range xs.length))[j]? with
  | none =>
    rw [hindex] at hpicked
    cases hcell : (pickMask mask xs)[j]? with
    | none => rfl
    | some cell =>
      rw [hcell] at hpicked
      cases hpicked
  | some i =>
    rw [hindex] at hpicked
    cases hcell : (pickMask mask xs)[j]? with
    | none =>
      rw [hcell] at hpicked
      cases hpicked
    | some cell =>
      rw [hcell] at hpicked
      exact (Option.some.inj hpicked).symm

/-- The rows whose flag is set. -/
theorem pickRows_rows (flags : List Bool) (h : flags.length = df.height) :
    (df.pickRows flags h).rows = pickMask flags df.rows := by
  rw [rows, rows, pickMask_map]
  have hlen : (pickMask flags (List.range df.height)).length = flags.count true :=
    length_pickMask (h.trans (List.length_range).symm)
  apply List.ext_getElem
  · rw [List.length_map, List.length_map, List.length_range, hlen]
    rfl
  · intro j hj hj'
    rw [List.length_map] at hj'
    simp only [List.getElem_map, List.getElem_range, row, pickRows, List.map_map]
    apply List.map_congr_left
    intro c hc
    have hheight : c.series.values.length = df.height := df.heights c hc
    show (pickMask flags c.series.values)[j]? = c.series.values[_]?
    rw [getElem?_pickMask, hheight, List.getElem?_eq_getElem hj']
    rfl

omit [Crates] in
theorem pickMask_map_filter {α : Type} (f : α → Bool) (xs : List α) :
    pickMask (xs.map f) xs = xs.filter f := by
  induction xs with
  | nil => rfl
  | cons x xs ih =>
    cases hf : f x with
    | true => rw [List.map_cons, hf, List.filter_cons_of_pos hf, pickMask, ih]
    | false => rw [List.map_cons, hf, List.filter_cons_of_neg (by simp [hf]), pickMask, ih]

theorem filter_rows {p : Predicate} (h : df.filter p = .ok out) :
    out.rows = df.rows.filter (rowHolds df.columnNames p) := by
  unfold filter at h
  split at h
  · cases h
  · cases h
    rw [pickRows_rows, mask_eq_rows, pickMask_map_filter]

/-! ## Projecting -/

theorem lookupColumns_spec {names : List Bytes} {columns : List Column}
    (h : df.lookupColumns names = .ok columns) :
    columns.map Column.name = names ∧ ∀ i, columns.map (fun c => c.series.values[i]?) =
      names.map (rowCell df.columnNames (df.row i)) := by
  induction names generalizing columns with
  | nil =>
    cases h
    exact ⟨rfl, fun _ => rfl⟩
  | cons name names ih =>
    rw [lookupColumns] at h
    cases hc : df.column? name with
    | none =>
      rw [hc] at h
      cases h
    | some c =>
      rw [hc] at h
      cases hrest : df.lookupColumns names with
      | error e =>
        rw [hrest] at h
        cases h
      | ok rest =>
        rw [hrest] at h
        cases h
        obtain ⟨hnames, hcells⟩ := ih hrest
        have hname : c.name = name := by simpa using List.find?_some hc
        refine ⟨by rw [List.map_cons, hname, hnames], fun i => ?_⟩
        rw [List.map_cons, List.map_cons, hcells, rowCell_row, hc]
        rfl

theorem select_rows {names : List Bytes} (h : df.select names = .ok out) :
    out.columnNames = names ∧
      out.rows = df.rows.map fun row => names.map (rowCell df.columnNames row) := by
  unfold select at h
  split at h
  · cases h
  · rename_i columns hcolumns
    split at h
    · cases h
      obtain ⟨hnames, hcells⟩ := lookupColumns_spec hcolumns
      refine ⟨hnames, ?_⟩
      rw [rows, rows, List.map_map]
      exact List.map_congr_left fun i _ => hcells i
    · cases h

theorem TypedBy.filter {dtype : Bytes → DataType} (htyped : df.TypedBy dtype) {p : Predicate}
    (h : df.filter p = .ok out) : out.TypedBy dtype := by
  unfold DataFrame.filter at h
  split at h
  · cases h
  · cases h
    intro c hc
    obtain ⟨d, hd, rfl⟩ := List.mem_map.mp hc
    exact htyped d hd

theorem TypedBy.select {dtype : Bytes → DataType} (htyped : df.TypedBy dtype) {names : List Bytes}
    (h : df.select names = .ok out) : out.TypedBy dtype := by
  unfold DataFrame.select at h
  split at h
  · cases h
  · rename_i columns hcolumns
    split at h
    · cases h
      exact fun c hc => htyped c (lookupColumns_subset hcolumns hc)
    · cases h

end DataFrame

end PolarsLogfmt
