import PolarsLogfmt.Frame.Table

/-!
# The schema of a frame

The names and types of its columns. Filtering, slicing and stacking keep them.
-/

namespace PolarsLogfmt

variable [Crates]

theorem stackColumns_schema {as bs cs : List Column} (h : stackColumns as bs = some cs) :
    cs.map (fun c => (c.name, c.series.dtype)) = as.map (fun c => (c.name, c.series.dtype)) ∧
      bs.map (fun c => (c.name, c.series.dtype)) = as.map fun c => (c.name, c.series.dtype) := by
  induction as generalizing bs cs with
  | nil =>
    cases bs with
    | nil =>
      cases h
      exact ⟨rfl, rfl⟩
    | cons b bs => cases h
  | cons a as ih =>
    cases bs with
    | nil => cases h
    | cons b bs =>
      rw [stackColumns] at h
      split at h
      · rename_i hab
        obtain ⟨rest, hrest, rfl⟩ := Option.map_eq_some_iff.mp h
        obtain ⟨hcs, hbs⟩ := ih hrest
        rw [List.map_cons, List.map_cons, List.map_cons, hcs, hbs, ← hab.1, ← hab.2]
        exact ⟨rfl, rfl⟩
      · cases h

namespace DataFrame

/-- `df.schema()`. -/
def schema (df : DataFrame) : List (Bytes × DataType) :=
  df.columns.map fun c => (c.name, c.series.dtype)

variable {df out : DataFrame}

theorem head_schema (df : DataFrame) (n : Nat) : (df.head n).schema = df.schema := List.map_map

theorem filter_schema {p : Predicate} (h : df.filter p = .ok out) : out.schema = df.schema := by
  unfold filter at h
  split at h
  · cases h
  · cases h
    exact List.map_map

theorem vstack_schema {other : DataFrame} (h : df.vstack other = .ok out)
    (hwidth : df.width = other.width) : out.schema = df.schema ∧ other.schema = df.schema := by
  rw [vstack, if_neg (not_not.mpr hwidth)] at h
  split at h
  · rename_i columns hcolumns
    cases h
    exact stackColumns_schema hcolumns
  · cases h

end DataFrame

theorem Table.frame_schema {α : Type} (t : Table α) (rows : List α) :
    (t.frame rows).schema = t.keys.map fun key => (key, t.dtype key) := by
  rw [DataFrame.schema, frame_columns, List.map_map]
  rfl

end PolarsLogfmt
