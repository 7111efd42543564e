import PolarsLogfmt.Frame.Column

/-!
# Data frames

polars' `DataFrame` and the operations the program calls. A frame carries the proofs
that its columns have its height and distinct names. Filtering and projecting
are polars' own; they are modelled by what they are documented to do.
-/

namespace PolarsLogfmt

/-- The elements whose flag is set. -/
def pickMask {α : Type} : List Bool → List α → List α
  | true :: mask, x :: xs => x :: pickMask mask xs
  | false :: mask, _ :: xs => pickMask mask xs
  | _, _ => []

theorem pickMask_subset {α : Type} (mask : List Bool) (xs : List α) : pickMask mask xs ⊆ xs := by
  fun_induction pickMask mask xs with
  | case1 mask x xs ih => exact List.cons_subset_cons x ih
  | case2 mask x xs ih => exact List.subset_cons_of_subset x ih
  | case3 => exact List.nil_subset _

theorem length_pickMask {α : Type} {mask : List Bool} {xs : List α}
    (h : mask.length = xs.length) : (pickMask mask xs).length = mask.count true := by
  induction mask generalizing xs with
  | nil => cases xs <;> rfl
  | cons b mask ih =>
    cases xs with
    | nil => simp at h
    | cons x xs =>
      have ih : (pickMask mask xs).length = mask.count true := ih (by simpa using h)
      cases b <;> simp [pickMask, ih]

variable [Crates]

/-- `e.to_string()`: the message of an error the program made, polars' own text for the others. -/
def PolarsError.text : PolarsError → Bytes
  | .computeError msg => msg
  | e => Crates.errorText e

/-- `PolarsError::ComputeError(e.to_string().into())`. -/
def PolarsError.toCompute (e : PolarsError) : PolarsError := .computeError e.text

/-- Columns of one height with distinct names. -/
structure DataFrame where
  height : Nat
  columns : List Column
  heights : ∀ c ∈ columns, c.len = height
  names_nodup : (columns.map Column.name).Nodup

/-- A row-wise predicate: the columns it reads, and what it says of their cells. -/
structure Predicate where
  reads : List Bytes
  holds : List AnyValue → Bool

/-- Cells, or frames' columns, put under each other: names and types must agree. -/
def stackColumns : List Column → List Column → Option (List Column)
  | [], [] => some []
  | a :: as, b :: bs =>
      if h : a.name = b.name ∧ a.series.dtype = b.series.dtype then
        (stackColumns as bs).map (a.append b h.2 :: ·)
      else none
  | _, _ => none

theorem stackColumns_names {as bs cs : List Column} (h : stackColumns as bs = some cs) :
    cs.map Column.name = as.map Column.name := by
  induction as generalizing bs cs with
  | nil =>
    cases bs with
    | nil => cases h; rfl
    | cons b bs => cases h
  | cons a as ih =>
    cases bs with
    | nil => cases h
    | cons b bs =>
      rw [stackColumns] at h
      split at h
      · obtain ⟨rest, hrest, rfl⟩ := Option.map_eq_some_iff.mp h
        simp [ih hrest]
      · cases h

theorem stackColumns_names_right {as bs cs : List Column} (h : stackColumns as bs = some cs) :
    bs.map Column.name = as.map Column.name := by
  induction as generalizing bs cs with
  | nil =>
    cases bs with
    | nil => rfl
    | cons b bs => cases h
  | cons a as ih =>
    cases bs with
    | nil => cases h
    | cons b bs =>
      rw [stackColumns] at h
      split at h
      · rename_i hab
        obtain ⟨rest, hrest, rfl⟩ := Option.map_eq_some_iff.mp h
        simp [ih hrest, hab.1]
      · cases h

theorem stackColumns_len {as bs cs : List Column} {m n : Nat} (h : stackColumns as bs = some cs)
    (ha : ∀ a ∈ as, a.len = m) (hb : ∀ b ∈ bs, b.len = n) : ∀ c ∈ cs, c.len = m + n := by
  induction as generalizing bs cs with
  | nil =>
    cases bs with
    | nil => cases h; simp
    | cons b bs => cases h
  | cons a as ih =>
    cases bs with
    | nil => cases h
    | cons b bs =>
      rw [stackColumns] at h
      split at h
      · obtain ⟨rest, hrest, rfl⟩ := Option.map_eq_some_iff.mp h
        have ih := ih hrest (fun x hx => ha x (List.mem_cons_of_mem _ hx))
          (fun x hx => hb x (List.mem_cons_of_mem _ hx))
        intro c hc
        rcases List.mem_cons.mp hc with rfl | hc
        · rw [Column.append_len, ha a List.mem_cons_self, hb b List.mem_cons_self]
        · exact ih c hc
      · cases h

namespace DataFrame

theorem ext {a b : DataFrame} (hh : a.height = b.height) (hc : a.columns = b.columns) : a = b := by
  cases a
  cases b
  subst hh hc
  rfl

instance : DecidableEq DataFrame := fun a b =>
  if h : a.height = b.height ∧ a.columns = b.columns then .isTrue (ext h.1 h.2)
  else .isFalse (by rintro rfl; exact h ⟨rfl, rfl⟩)

/-- `DataFrame::default()`: no column, no row. -/
def empty : DataFrame := ⟨0, [], by simp, by simp⟩

def width (df : DataFrame) : Nat := df.columns.length

/-- `get_column_names`. -/
def columnNames (df : DataFrame) : List Bytes := df.columns.map Column.name

def column? (df : DataFrame) (name : Bytes) : Option Column :=
  df.columns.find? fun c => c.name == name

/-- `DataFrame::new_infer_height`. -/
def newInferHeight (columns : List Column) : Except PolarsError DataFrame :=
  let height := (columns.head?.map Column.len).getD 0
  if hn : (columns.map Column.name).Nodup then
    if hh : ∀ c ∈ columns, c.len = height then .ok ⟨height, columns, hh, hn⟩
    else .error .shapeMismatch
  else .error .duplicate

/-- A frame with a column of `n` cells for each key. -/
def ofKeys (keys : List Bytes) (hn : keys.Nodup) (n : Nat) (column : Bytes → Column)
    (hname : ∀ key, (column key).name = key) (hlen : ∀ key, (column key).len = n) : DataFrame where
  height := if keys = [] then 0 else n
  columns := keys.map column
  heights := by
    intro c hc
    obtain ⟨key, hkey, rfl⟩ := List.mem_map.mp hc
    rw [if_neg (List.ne_nil_of_mem hkey), hlen]
  names_nodup := by
    rw [List.map_map, show Column.name ∘ column = id from funext hname, List.map_id]
    exact hn

theorem newInferHeight_ofKeys {keys : List Bytes} (hn : keys.Nodup) {n : Nat}
    {column : Bytes → Column} (hname : ∀ key, (column key).name = key)
    (hlen : ∀ key, (column key).len = n) :
    newInferHeight (keys.map column) = .ok (ofKeys keys hn n column hname hlen) := by
  have hheight : ((keys.map column).head?.map Column.len).getD 0 = if keys = [] then 0 else n := by
    cases keys with
    | nil => rfl
    | cons key keys => simp [hlen]
  unfold newInferHeight
  simp only [hheight]
  have hnames : ((keys.map column).map Column.name).Nodup :=
    (ofKeys keys hn n column hname hlen).names_nodup
  have hlens : ∀ c ∈ keys.map column, c.len = if keys = [] then 0 else n :=
    (ofKeys keys hn n column hname hlen).heights
  rw [dif_pos hnames, dif_pos hlens]
  rfl

theorem newInferHeight_columns {columns : List Column} {df : DataFrame}
    (h : newInferHeight columns = .ok df) : df.columns = columns := by
  unfold newInferHeight at h
  simp only at h
  split at h
  · split at h
    · cases h
      rfl
    · cases h
  · cases h

theorem find?_map_name {keys : List Bytes} {column : Bytes → Column}
    (hname : ∀ key, (column key).name = key) (key : Bytes) :
    (keys.map column).find? (fun c => c.name == key) =
      if key ∈ keys then some (column key) else none := by
  induction keys with
  | nil => rfl
  | cons k keys ih =>
    rw [List.map_cons, List.find?_cons, hname]
    by_cases h : k = key
    · subst h
      simp
    · have hne : (k == key) = false := by simpa using h
      simp [hne, ih, Ne.symm h]

theorem ofKeys_column? {keys : List Bytes} (hn : keys.Nodup) {n : Nat} {column : Bytes → Column}
    (hname : ∀ key, (column key).name = key) (hlen : ∀ key, (column key).len = n) (key : Bytes) :
    (ofKeys keys hn n column hname hlen).column? key =
      if key ∈ keys then some (column key) else none := find?_map_name hname key

theorem ofKeys_columnNames {keys : List Bytes} (hn : keys.Nodup) {n : Nat} {column : Bytes → Column}
    (hname : ∀ key, (column key).name = key) (hlen : ∀ key, (column key).len = n) :
    (ofKeys keys hn n column hname hlen).columnNames = keys := by
  rw [columnNames, ofKeys, List.map_map, show Column.name ∘ column = id from funext hname,
    List.map_id]

/-- `vstack_mut`. -/
def vstack (a b : DataFrame) : Except PolarsError DataFrame :=
  if a.width ≠ b.width then
    if a.width = 0 ∧ a.height = 0 then .ok b else .error .shapeMismatch
  else
    match h : stackColumns a.columns b.columns with
    | some columns => .ok
        { height := a.height + b.height
          columns := columns
          heights := stackColumns_len h a.heights b.heights
          names_nodup := by
            rw [stackColumns_names h]
            exact a.names_nodup }
    | none => .error .schemaMismatch

/-- `accumulate_dataframes_vertical`, of at least one frame. -/
def accumulateVertical (df : DataFrame) (dfs : List DataFrame) : Except PolarsError DataFrame :=
  dfs.foldlM vstack df

/-- The cell of a row, null where there is none. -/
def cell (df : DataFrame) (name : Bytes) (row : Nat) : AnyValue :=
  ((df.column? name).bind fun c => c.series.values[row]?).getD .null

/-- Which rows a predicate is true on. -/
def mask (df : DataFrame) (p : Predicate) : List Bool :=
  (List.range df.height).map fun row => p.holds (p.reads.map fun name => df.cell name row)

/-- The rows whose flag is set. -/
def pickRows (df : DataFrame) (flags : List Bool) (h : flags.length = df.height) : DataFrame where
  height := flags.count true
  columns := df.columns.map fun c => c.pick (pickMask flags) (pickMask_subset flags)
  heights := by
    intro c hc
    obtain ⟨d, hd, rfl⟩ := List.mem_map.mp hc
    exact length_pickMask (h.trans (df.heights d hd).symm)
  names_nodup := by
    rw [List.map_map]
    exact df.names_nodup

/-- `df.lazy().filter(p).collect()`. -/
def filter (df : DataFrame) (p : Predicate) : Except PolarsError DataFrame :=
  match p.reads.find? fun name => (df.column? name).isNone with
  | some name => .error (.columnNotFound name)
  | none => .ok (df.pickRows (df.mask p) (by simp [mask]))

/-- The listed columns, in the order of the list. -/
def lookupColumns (df : DataFrame) : List Bytes → Except PolarsError (List Column)
  | [] => .ok []
  | name :: names =>
      match df.column? name with
      | some c => (df.lookupColumns names).map (c :: ·)
      | none => .error (.columnNotFound name)

theorem mem_columns_of_column? {df : DataFrame} {name : Bytes} {c : Column}
    (h : df.column? name = some c) : c ∈ df.columns := List.mem_of_find?_eq_some h

theorem lookupColumns_subset {df : DataFrame} {names : List Bytes} {columns : List Column}
    (h : df.lookupColumns names = .ok columns) : columns ⊆ df.columns := by
  induction names generalizing columns with
  | nil => cases h; exact List.nil_subset _
  | cons name names ih =>
    rw [lookupColumns] at h
    cases hc : df.column? name with
    | none => rw [hc] at h; cases h
    | some c =>
      rw [hc] at h
      cases hrest : df.lookupColumns names with
      | error e => rw [hrest] at h; cases h
      | ok rest =>
        rw [hrest] at h
        cases h
        exact List.cons_subset.mpr ⟨mem_columns_of_column? hc, ih hrest⟩

/-- `df.select(names)`. -/
def select (df : DataFrame) (names : List Bytes) : Except PolarsError DataFrame :=
  match h : df.lookupColumns names with
  | .error e => .error e
  | .ok columns =>
      if hn : (columns.map Column.name).Nodup then
        .ok ⟨df.height, columns, fun c hc => df.heights c (lookupColumns_subset h hc), hn⟩
      else .error .duplicate

/-- `df.slice(0, n)`. -/
def head (df : DataFrame) (n : Nat) : DataFrame where
  height := min n df.height
  columns := df.columns.map fun c => c.pick (List.take n) (fun _ => List.take_subset n _)
  heights := by
    intro c hc
    obtain ⟨d, hd, rfl⟩ := List.mem_map.mp hc
    exact List.length_take.trans (congrArg (min n) (df.heights d hd))
  names_nodup := by
    rw [List.map_map]
    exact df.names_nodup

theorem vstack_height {a b c : DataFrame} (h : a.vstack b = .ok c) :
    c.height = a.height + b.height := by
  rw [vstack] at h
  split at h
  · split at h
    · rename_i hzero
      cases h
      omega
    · cases h
  · split at h
    · cases h
      rfl
    · cases h

theorem vstack_of_columns {a b c : DataFrame}
    (hcolumns : stackColumns a.columns b.columns = some c.columns)
    (hheight : c.height = a.height + b.height) : a.vstack b = .ok c := by
  have hwidth : a.width = b.width := by
    have hnames := congrArg List.length (stackColumns_names_right hcolumns)
    simpa [width] using hnames.symm
  rw [vstack, if_neg (not_not.mpr hwidth)]
  split
  · rename_i columns hsome
    rw [hcolumns] at hsome
    cases hsome
    congr 1
    exact ext hheight.symm rfl
  · rename_i hnone
    rw [hcolumns] at hnone
    cases hnone

/-- Stacked frames with columns have the column names of the first, and so does the second. -/
theorem vstack_columnNames {a b c : DataFrame} (ha : 0 < a.width) (h : a.vstack b = .ok c) :
    c.columnNames = a.columnNames ∧ b.columnNames = a.columnNames := by
  rw [vstack] at h
  split at h
  · split at h
    · omega
    · cases h
  · split at h
    · rename_i hs
      cases h
      exact ⟨stackColumns_names hs, stackColumns_names_right hs⟩
    · cases h

theorem accumulateVertical_height {df out : DataFrame} {dfs : List DataFrame}
    (h : accumulateVertical df dfs = .ok out) :
    out.height = df.height + (dfs.map height).sum := by
  induction dfs generalizing df with
  | nil =>
    cases h
    rfl
  | cons next dfs ih =>
    rw [accumulateVertical, List.foldlM_cons] at h
    cases hv : df.vstack next with
    | error e => rw [hv] at h; cases h
    | ok mid =>
      rw [hv] at h
      have hrest : out.height = mid.height + (dfs.map height).sum := ih h
      rw [hrest, vstack_height hv, List.map_cons, List.sum_cons]
      omega

end DataFrame

end PolarsLogfmt
