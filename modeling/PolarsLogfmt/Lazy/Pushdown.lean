import PolarsLogfmt.Frame.Table
import PolarsLogfmt.Lazy.ParseFrames

/-!
# Pushdown

A predicate and a projection that are pushed down to a frame: they add no row, and they succeed
when the frame has the columns they name.
-/

namespace PolarsLogfmt

variable [Crates]

/-! ## Heights -/

theorem filter_height_le {df out : DataFrame} {p : Predicate} (h : df.filter p = .ok out) :
    out.height ≤ df.height := by
  unfold DataFrame.filter at h
  split at h
  · cases h
  · cases h
    have hlen : (df.mask p).length = df.height := by simp [DataFrame.mask]
    rw [← hlen]
    exact List.count_le_length

theorem select_height {df out : DataFrame} {names : List Bytes} (h : df.select names = .ok out) :
    out.height = df.height := by
  unfold DataFrame.select at h
  split at h
  · cases h
  · split at h
    · cases h
      rfl
    · cases h

/-- Pushing a predicate and a projection down adds no row. -/
theorem applyPushdown_height_le {df out : DataFrame} {predicate : Option Predicate}
    {withColumns : Option (List Bytes)} (h : applyPushdown df predicate withColumns = .ok out) :
    out.height ≤ df.height := by
  have hproject : ∀ {mid : DataFrame}, applyProjection mid withColumns = .ok out →
      out.height = mid.height := by
    intro mid hmid
    unfold applyProjection at hmid
    split at hmid
    · split at hmid
      · cases hmid
        rfl
      · exact select_height hmid
    · cases hmid
      rfl
  unfold applyPushdown at h
  cases predicate with
  | none => exact Nat.le_of_eq (hproject h)
  | some p =>
    cases hf : df.filter p with
    | error e =>
      rw [applyPredicate, hf] at h
      cases h
    | ok mid =>
      rw [applyPredicate, hf] at h
      rw [hproject h]
      exact filter_height_le hf

/-! ## Success -/

/-- A predicate and a projection name only these columns, none of them twice. -/
structure AnonymousScanArgs.FitsColumns (scanOpts : AnonymousScanArgs) (names : List Bytes) :
    Prop where
  predicate : ∀ p ∈ scanOpts.predicate, p.reads ⊆ names
  withColumns : ∀ cols ∈ scanOpts.withColumns, cols ⊆ names ∧ cols.Nodup

instance (scanOpts : AnonymousScanArgs) (names : List Bytes) :
    Decidable (scanOpts.FitsColumns names) :=
  decidable_of_iff ((∀ p ∈ scanOpts.predicate, p.reads ⊆ names) ∧
      ∀ cols ∈ scanOpts.withColumns, cols ⊆ names ∧ cols.Nodup)
    ⟨fun h => ⟨h.1, h.2⟩, fun h => ⟨h.predicate, h.withColumns⟩⟩

theorem column?_isSome {df : DataFrame} {name : Bytes} :
    (df.column? name).isSome ↔ name ∈ df.columnNames := by
  unfold DataFrame.column? DataFrame.columnNames
  rw [List.find?_isSome, List.mem_map]
  constructor
  · rintro ⟨c, hc, hname⟩
    exact ⟨c, hc, by simpa using hname⟩
  · rintro ⟨c, hc, hname⟩
    exact ⟨c, hc, by simpa using hname⟩

theorem filter_isOk_iff {df : DataFrame} {p : Predicate} :
    (∃ out, df.filter p = .ok out) ↔ p.reads ⊆ df.columnNames := by
  have hnone : (p.reads.find? fun name => (df.column? name).isNone) = none ↔
      p.reads ⊆ df.columnNames := by
    rw [List.find?_eq_none]
    constructor
    · intro h name hname
      apply column?_isSome.mp
      have := h name hname
      simpa [Option.isNone_iff_eq_none, ← Option.isSome_iff_ne_none] using this
    · intro h name hname
      have := column?_isSome.mpr (h hname)
      simpa [Option.isNone_iff_eq_none, ← Option.isSome_iff_ne_none] using this
  rw [← hnone]
  unfold DataFrame.filter
  cases p.reads.find? fun name => (df.column? name).isNone with
  | none => exact ⟨fun _ => rfl, fun _ => ⟨_, rfl⟩⟩
  | some name => exact ⟨fun ⟨out, h⟩ => (nomatch h), fun h => nomatch h⟩

theorem filter_columnNames {df out : DataFrame} {p : Predicate} (h : df.filter p = .ok out) :
    out.columnNames = df.columnNames := by
  unfold DataFrame.filter at h
  split at h
  · cases h
  · cases h
    exact List.map_map

theorem lookupColumns_isOk {df : DataFrame} {names : List Bytes} (h : names ⊆ df.columnNames) :
    ∃ columns, df.lookupColumns names = .ok columns ∧ columns.map Column.name = names := by
  induction names with
  | nil => exact ⟨[], rfl, rfl⟩
  | cons name names ih =>
    obtain ⟨hname, hnames⟩ := List.cons_subset.mp h
    obtain ⟨columns, hcolumns, hmap⟩ := ih hnames
    obtain ⟨c, hc⟩ := Option.isSome_iff_exists.mp (column?_isSome.mpr hname)
    have hcname : c.name = name := by simpa using List.find?_some hc
    refine ⟨c :: columns, ?_, by rw [List.map_cons, hcname, hmap]⟩
    rw [DataFrame.lookupColumns, hc, hcolumns]
    rfl

theorem lookupColumns_names {df : DataFrame} {names : List Bytes} {columns : List Column}
    (h : df.lookupColumns names = .ok columns) :
    columns.map Column.name = names ∧ names ⊆ df.columnNames := by
  induction names generalizing columns with
  | nil =>
    cases h
    exact ⟨rfl, List.nil_subset _⟩
  | cons name names ih =>
    rw [DataFrame.lookupColumns] at h
    cases hc : df.column? name with
    | none => rw [hc] at h; cases h
    | some c =>
      rw [hc] at h
      cases hrest : df.lookupColumns names with
      | error e => rw [hrest] at h; cases h
      | ok rest =>
        rw [hrest] at h
        cases h
        obtain ⟨hmap, hsub⟩ := ih hrest
        have hcname : c.name = name := by simpa using List.find?_some hc
        exact ⟨by rw [List.map_cons, hcname, hmap],
          List.cons_subset.mpr ⟨column?_isSome.mp (by rw [hc]; rfl), hsub⟩⟩

theorem select_isOk_iff {df : DataFrame} {names : List Bytes} :
    (∃ out, df.select names = .ok out) ↔ names ⊆ df.columnNames ∧ names.Nodup := by
  constructor
  · rintro ⟨out, h⟩
    unfold DataFrame.select at h
    split at h
    · cases h
    · rename_i columns hcolumns
      obtain ⟨hmap, hsub⟩ := lookupColumns_names hcolumns
      split at h
      · rename_i hn
        exact ⟨hsub, hmap ▸ hn⟩
      · cases h
  · rintro ⟨hsub, hn⟩
    obtain ⟨columns, hcolumns, hmap⟩ := lookupColumns_isOk hsub
    unfold DataFrame.select
    split
    · rename_i e herr
      rw [hcolumns] at herr
      cases herr
    · rename_i columns' hcolumns'
      rw [hcolumns] at hcolumns'
      cases hcolumns'
      rw [dif_pos (hmap ▸ hn)]
      exact ⟨_, rfl⟩

/-- When the pushdown succeeds. -/
theorem applyPushdown_isOk_iff {df : DataFrame} {scanOpts : AnonymousScanArgs} :
    (∃ out, applyPushdown df scanOpts.predicate scanOpts.withColumns = .ok out) ↔
      scanOpts.FitsColumns df.columnNames := by
  have hproject : ∀ mid : DataFrame, mid.columnNames = df.columnNames →
      ((∃ out, applyProjection mid scanOpts.withColumns = .ok out) ↔
        ∀ cols ∈ scanOpts.withColumns, cols ⊆ df.columnNames ∧ cols.Nodup) := by
    intro mid hmid
    cases scanOpts.withColumns with
    | none => exact ⟨fun _ => nofun, fun _ => ⟨mid, rfl⟩⟩
    | some cols =>
      rw [applyProjection]
      by_cases hnil : cols = []
      · subst hnil
        refine ⟨fun _ cols hcols => ?_, fun _ => ⟨mid, rfl⟩⟩
        cases hcols
        exact ⟨List.nil_subset _, List.nodup_nil⟩
      · rw [if_neg hnil, select_isOk_iff, hmid]
        exact ⟨fun h cols' hcols => by cases hcols; exact h, fun h => h cols rfl⟩
  unfold applyPushdown
  cases hpred : scanOpts.predicate with
  | none =>
    refine (hproject df rfl).trans ⟨fun h => ⟨?_, h⟩, fun h => h.withColumns⟩
    rw [hpred]
    exact nofun
  | some p =>
    cases hfilter : df.filter p with
    | error e =>
      rw [applyPredicate, hfilter]
      refine ⟨fun ⟨out, h⟩ => (nomatch h), fun h => ?_⟩
      obtain ⟨out, hout⟩ := filter_isOk_iff.mpr (h.predicate p hpred)
      rw [hfilter] at hout
      cases hout
    | ok mid =>
      rw [applyPredicate, hfilter]
      refine (hproject mid (filter_columnNames hfilter)).trans
        ⟨fun h => ⟨?_, h⟩, fun h => h.withColumns⟩
      rw [hpred]
      rintro p' hp'
      cases hp'
      exact filter_isOk_iff.mp ⟨mid, hfilter⟩

/-! ## Tables -/

namespace Table

variable {α : Type} {t : Table α}

/-- The rows a predicate leaves, if there is one. -/
def passes (t : Table α) (predicate : Option Predicate) (row : α) : Bool :=
  predicate.all fun p => t.holds p row

/-- Pushed down to a frame of a table, a predicate filters its rows and a projection lists its
columns. -/
theorem applyPushdown_frame (hne : t.keys ≠ []) {scanOpts : AnonymousScanArgs}
    (hfits : scanOpts.FitsColumns t.keys) {cols : List Bytes} (hn : cols.Nodup)
    (hcols : scanOpts.withColumns = some cols) (hcolsNe : cols ≠ []) (rows : List α) :
    applyPushdown (t.frame rows) scanOpts.predicate scanOpts.withColumns =
      .ok ((t.project cols hn).frame (rows.filter (t.passes scanOpts.predicate))) := by
  have hsub := (hfits.withColumns cols hcols).1
  have hselect : ∀ rows, applyProjection (t.frame rows) scanOpts.withColumns =
      .ok ((t.project cols hn).frame rows) := by
    intro rows
    rw [hcols, applyProjection, if_neg hcolsNe]
    exact t.select_frame rows hsub hn hcolsNe
  unfold applyPushdown
  cases hp : scanOpts.predicate with
  | none =>
    have hall : rows.filter (t.passes none) = rows := List.filter_true rows
    rw [hall]
    exact hselect rows
  | some p =>
    rw [applyPredicate, t.filter_frame rows (hfits.predicate p hp) hne]
    exact hselect _

end Table

end PolarsLogfmt
