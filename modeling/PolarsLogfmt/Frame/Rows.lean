import PolarsLogfmt.Frame.DataFrame

/-!
# The rows of a frame

Frames that are put under each other have the rows of the one, then those of the other.
-/

namespace PolarsLogfmt

variable [Crates]

theorem stackColumns_cells {as bs cs : List Column} (h : stackColumns as bs = some cs) {m : Nat}
    (ha : ∀ a ∈ as, a.len = m) (i : Nat) :
    cs.map (fun c => c.series.values[i]?) =
      if i < m then as.map fun a => a.series.values[i]?
      else bs.map fun b => b.series.values[i - m]? := by
  induction as generalizing bs cs with
  | nil =>
    cases bs with
    | nil =>
      cases h
      simp
    | cons b bs => cases h
  | cons a as ih =>
    cases bs with
    | nil => cases h
    | cons b bs =>
      rw [stackColumns] at h
      split at h
      · obtain ⟨rest, hrest, rfl⟩ := Option.map_eq_some_iff.mp h
        have hlen : a.series.values.length = m := ha a List.mem_cons_self
        have ih := ih hrest fun x hx => ha x (List.mem_cons_of_mem _ hx)
        rw [List.map_cons, ih, Column.append]
        split
        · rename_i hi
          rw [List.map_cons, List.getElem?_append_left (by omega)]
        · rename_i hi
          rw [List.map_cons, List.getElem?_append_right (by omega), hlen]
      · cases h

namespace DataFrame

/-- The cells of row `i`, column by column. -/
def row (df : DataFrame) (i : Nat) : List (Option AnyValue) :=
  df.columns.map fun c => c.series.values[i]?

/-- The rows, from the top. -/
def rows (df : DataFrame) : List (List (Option AnyValue)) := (List.range df.height).map df.row

theorem rows_of_no_height {df : DataFrame} (h : df.height = 0) : df.rows = [] := by
  rw [rows, h]
  rfl

theorem vstack_rows {a b c : DataFrame} (h : a.vstack b = .ok c) : c.rows = a.rows ++ b.rows := by
  have hheight := vstack_height h
  rw [vstack] at h
  split at h
  · split at h
    · rename_i hzero
      cases h
      rw [rows_of_no_height hzero.2, List.nil_append]
    · cases h
  · split at h
    · rename_i hcolumns
      cases h
      simp only at hheight
      have hrow := stackColumns_cells hcolumns a.heights
      rw [rows, List.range_add, List.map_append, List.map_map]
      congr 1
      · apply List.map_congr_left
        intro i hi
        rw [row, hrow, if_pos (List.mem_range.mp hi)]
        rfl
      · apply List.map_congr_left
        intro i _
        rw [Function.comp_apply, row, hrow, if_neg (by omega), Nat.add_sub_cancel_left]
        rfl
    · cases h

theorem accumulateVertical_rows {df out : DataFrame} {dfs : List DataFrame}
    (h : accumulateVertical df dfs = .ok out) : out.rows = (df :: dfs).flatMap rows := by
  induction dfs generalizing df with
  | nil =>
    cases h
    simp
  | cons next dfs ih =>
    rw [accumulateVertical, List.foldlM_cons] at h
    cases hv : df.vstack next with
    | error e =>
      rw [hv] at h
      cases h
    | ok mid =>
      rw [hv] at h
      have hrest : out.rows = (mid :: dfs).flatMap rows := ih h
      rw [hrest, List.flatMap_cons, vstack_rows hv, List.flatMap_cons, List.flatMap_cons,
        List.append_assoc]

/-- A frame without rows adds none. -/
theorem flatMap_rows_filter (dfs : List DataFrame) :
    (dfs.filter fun df => 0 < df.height).flatMap rows = dfs.flatMap rows := by
  induction dfs with
  | nil => rfl
  | cons df dfs ih =>
    by_cases h : 0 < df.height
    · rw [List.filter_cons_of_pos (by simpa using h), List.flatMap_cons, List.flatMap_cons, ih]
    · rw [List.filter_cons_of_neg (by simpa using h), ih, List.flatMap_cons,
        rows_of_no_height (Nat.eq_zero_of_not_pos h), List.nil_append]

end DataFrame

end PolarsLogfmt
