import PolarsLogfmt.Lazy.AlignedScan
import PolarsLogfmt.Lazy.Pushdown
import PolarsLogfmt.Lazy.SequentialScan
import PolarsLogfmt.Proofs.AlignedKeys
import PolarsLogfmt.Proofs.BatchSize

/-!
# Frames under a predicate and a projection

The loop of `scan` pushes a predicate and a projection down to every batch on its own. Batches that
all have the columns they name make one frame: the listed columns of the rows that are left.
-/

namespace PolarsLogfmt

variable [Crates]

section

variable {opts : BatchOpts}

/-! ## Keys of a batch -/

/-- Aligning leaves the first row that has a key as it is. -/
theorem exists_keyed_alignRows {rows : List Row} (h : ∃ row ∈ rows, ∃ key, key ∈ row) :
    ∃ row ∈ alignRows [] rows, ∃ key, key ∈ row := by
  induction rows with
  | nil =>
    obtain ⟨row, hrow, -⟩ := h
    cases hrow
  | cons row rows ih =>
    have halign : alignRow [] row = (row, row.keys) := by simp [alignRow]
    rw [alignRows, halign]
    by_cases hkeys : row.keys = []
    · obtain ⟨other, hother, key, hkey⟩ := h
      have hrest : other ∈ rows := by
        rcases List.mem_cons.mp hother with rfl | hrest
        · rw [← Std.ExtTreeMap.mem_keys, hkeys] at hkey
          cases hkey
        · exact hrest
      obtain ⟨kept, hkept, hsome⟩ := ih ⟨other, hrest, key, hkey⟩
      rw [hkeys]
      exact ⟨kept, List.mem_cons_of_mem _ hkept, hsome⟩
    · obtain ⟨key, hkey⟩ := List.exists_mem_of_ne_nil _ hkeys
      exact ⟨row, List.mem_cons_self, key, Std.ExtTreeMap.mem_keys.mp hkey⟩

/-- A batch has keys when one of its lines has. -/
theorem batchKeys_ne_nil_iff {lines : List Bytes} :
    batchKeys opts lines ≠ [] ↔ ∃ line ∈ lines, lineColumns line ≠ [] := by
  constructor
  · intro h
    by_contra hnone
    push Not at hnone
    exact h (batchKeys_keyless hnone)
  · rintro ⟨line, hline, hcolumns⟩
    obtain ⟨key, hkey⟩ := List.exists_mem_of_ne_nil _ hcolumns
    have hkey := mem_lineColumns.mp hkey
    have hrow : ∃ row ∈ batchRows opts lines, ∃ key, key ∈ row := by
      cases ha : opts.alignedColsCnt with
      | false =>
        have hmem := (@mem_batchKeys _ opts ha lines key).mpr ⟨line, hline, hkey⟩
        obtain ⟨row, hrow, hmem⟩ := mem_rowKeys.mp hmem
        exact ⟨row, hrow, key, hmem⟩
      | true =>
        rw [batchRows_aligned ha]
        obtain ⟨row, hrow, hmem⟩ :=
          (@exists_row_parsed _ lines opts.schema key).mpr ⟨line, hline, hkey⟩
        exact exists_keyed_alignRows ⟨row, hrow, key, hmem⟩
    obtain ⟨row, hrow, key, hmem⟩ := hrow
    exact List.ne_nil_of_mem (mem_rowKeys.mpr ⟨row, hrow, hmem⟩)

/-! ## The frames of the batches -/

variable {schema : Schema} {scanOpts : AnonymousScanArgs}

/-- The pushdown succeeds on a batch that has the columns it names. -/
theorem batchFrame_isOk_iff {lines : List Bytes} :
    (∃ out, batchFrame scanOpts opts lines = .ok out) ↔
      scanOpts.FitsColumns (batchKeys opts lines) := by
  unfold batchFrame
  rw [applyPushdown_isOk_iff, filledFrame_columnNames]
  exact Iff.rfl

/-- A batch whose frame fails makes the loop fail. -/
theorem stackBatches_error (hn : scanOpts.nRows = none) {batches : List (List Bytes)}
    (h : ∃ batch ∈ batches, ∃ e, batchFrame scanOpts opts batch = .error e)
    (acc : Option DataFrame) :
    ∃ e, stackBatches scanOpts opts acc batches = .error e := by
  induction batches generalizing acc with
  | nil =>
    obtain ⟨batch, hbatch, -⟩ := h
    cases hbatch
  | cons batch batches ih =>
    rw [stackBatches]
    cases hframe : batchFrame scanOpts opts batch with
    | error e => exact ⟨e, rfl⟩
    | ok df =>
      have hrest : ∃ batch ∈ batches, ∃ e, batchFrame scanOpts opts batch = .error e := by
        obtain ⟨other, hother, e, he⟩ := h
        rcases List.mem_cons.mp hother with rfl | hrest
        · rw [hframe] at he
          cases he
        · exact ⟨other, hrest, e, he⟩
      dsimp only
      split
      · exact ih hrest acc
      · cases LazyLogFmtReader.stackBatch acc df with
        | error e => exact ⟨e, rfl⟩
        | ok acc' =>
          rw [hn]
          exact ih hrest (some acc')

section

variable (hschema : opts.schema = some schema) {cols : List Bytes} (hnodup : cols.Nodup)
  (hcols : scanOpts.withColumns = some cols) (hne : cols ≠ [])

include hschema hcols hne

/-- The frame of a batch has the listed columns, and the rows the predicate leaves. -/
theorem batchFrame_pushed {lines : List Bytes}
    (hfits : scanOpts.FitsColumns (batchKeys opts lines)) :
    batchFrame scanOpts opts lines =
      .ok ((filledTable schema cols hnodup).frame ((batchRows opts lines).filter
        ((filledTable schema cols hnodup).passes scanOpts.predicate))) := by
  have hkeys : batchKeys opts lines ≠ [] := by
    intro hnil
    have hsub := (hfits.withColumns cols hcols).1
    rw [hnil] at hsub
    exact hne (List.eq_nil_of_subset_nil hsub)
  have hn : (batchKeys opts lines).Nodup := rowKeys_nodup _
  rw [batchFrame, hschema, filledFrame_eq_table (readUnder_batchRows hschema lines) rfl hn]
  exact Table.applyPushdown_frame (t := filledTable schema (batchKeys opts lines) hn) hkeys hfits
    hnodup hcols hne _

/-- So has the frame of batches that all have the columns the pushdown names. -/
theorem stackBatches_pushed (hn : scanOpts.nRows = none) {batches : List (List Bytes)}
    (hsome : batches ≠ [])
    (hfits : ∀ batch ∈ batches, scanOpts.FitsColumns (batchKeys opts batch)) :
    stackBatches scanOpts opts none batches =
      .ok (some ((filledTable schema cols hnodup).frame ((batches.flatMap (batchRows opts)).filter
        ((filledTable schema cols hnodup).passes scanOpts.predicate)))) := by
  rw [List.filter_flatMap]
  exact stackBatches_table (t := filledTable schema cols hnodup) hne hn
    (fun batch hbatch => batchFrame_pushed hschema hnodup hcols hne (hfits batch hbatch)) hsome

end

/-- A batch without a column the pushdown names makes the loop fail. -/
theorem stackBatches_unfit (hn : scanOpts.nRows = none) {batches : List (List Bytes)}
    (h : ¬ ∀ batch ∈ batches, scanOpts.FitsColumns (batchKeys opts batch)) :
    ∃ e, stackBatches scanOpts opts none batches = .error e := by
  push Not at h
  obtain ⟨batch, hbatch, hunfit⟩ := h
  refine stackBatches_error hn ⟨batch, hbatch, ?_⟩ none
  cases hframe : batchFrame scanOpts opts batch with
  | error e => exact ⟨e, rfl⟩
  | ok out => exact absurd (batchFrame_isOk_iff.mp ⟨out, hframe⟩) hunfit

/-- The loop makes the pushdown of the frame it makes without one exactly when every batch has a
key. -/
theorem stackBatches_transparent_iff (hschema : opts.schema = some schema)
    {batches : List (List Bytes)} {df : DataFrame}
    (hdf : stackBatches {} opts none batches = .ok (some df)) (hn : scanOpts.nRows = none)
    {cols : List Bytes} (hcols : scanOpts.withColumns = some cols) (hne : cols ≠ [])
    (hfits : scanOpts.FitsColumns df.columnNames) :
    (stackBatches scanOpts opts none batches).map (·.getD .empty) =
        applyPushdown df scanOpts.predicate scanOpts.withColumns ↔
      ∀ batch ∈ batches, batchKeys opts batch ≠ [] := by
  obtain ⟨hsub, hnodup⟩ := hfits.withColumns cols hcols
  have hsame : SameKeys opts batches := by
    by_contra hother
    obtain ⟨e, he⟩ := stackBatches_fails hschema hother
    rw [he] at hdf
    cases hdf
  rw [stackBatches_ok hschema hsame, Except.ok.injEq] at hdf
  by_cases hkeyed : ∀ batch ∈ batches, batchKeys opts batch ≠ []
  · have hall : keyedBatches opts batches = batches :=
      List.filter_eq_self.mpr fun batch hbatch => by simpa using hkeyed batch hbatch
    unfold SameKeys at hsame
    rw [hall] at hdf hsame
    have hsome : batches ≠ [] := by
      rintro rfl
      cases hdf
    obtain ⟨first, hfirst⟩ := List.exists_mem_of_ne_nil _ hsome
    have hkeys : ∀ batch ∈ batches, batchKeys opts batch = batchKeys opts first :=
      fun batch hbatch => hsame batch hbatch first hfirst
    rw [if_neg hsome, Option.some.injEq] at hdf
    subst hdf
    have hrows := rowKeys_flatMap hkeys hsome
    rw [filledFrame_columnNames, hrows] at hfits
    have hn' : (batchKeys opts first).Nodup := rowKeys_nodup _
    refine iff_of_true ?_ hkeyed
    rw [stackBatches_pushed hschema hnodup hcols hne hn hsome
        (fun batch hbatch => hkeys batch hbatch ▸ hfits),
      filledFrame_eq_table (readUnder_flatMap hschema batches) hrows hn']
    exact (Table.applyPushdown_frame (t := filledTable schema (batchKeys opts first) hn')
      (hkeyed first hfirst) hfits hnodup hcols hne _).symm
  · refine iff_of_false (fun heq => ?_) hkeyed
    obtain ⟨out, hout⟩ := applyPushdown_isOk_iff.mpr hfits
    have hunfit : ¬ ∀ batch ∈ batches, scanOpts.FitsColumns (batchKeys opts batch) := by
      intro hall
      refine hkeyed fun batch hbatch hnil => hne ?_
      have hsub := ((hall batch hbatch).withColumns cols hcols).1
      rw [hnil] at hsub
      exact List.eq_nil_of_subset_nil hsub
    obtain ⟨e, he⟩ := stackBatches_unfit hn hunfit
    rw [he, hout] at heq
    cases heq

/-- The loop makes a frame without rows exactly when the batches have the columns, and no row is
left. -/
theorem stackBatches_eq_nil_iff (hschema : opts.schema = some schema) {batches : List (List Bytes)}
    (hn : scanOpts.nRows = none) {cols : List Bytes} (hnodup : cols.Nodup)
    (hcols : scanOpts.withColumns = some cols) (hne : cols ≠ []) {α : Type} {t : Table α}
    (hkeys : t.keys = cols) :
    (stackBatches scanOpts opts none batches).map (·.getD .empty) = .ok (t.frame []) ↔
      (batches ≠ [] ∧ ∀ batch ∈ batches, scanOpts.FitsColumns (batchKeys opts batch)) ∧
        (∀ batch ∈ batches, ∀ row ∈ batchRows opts batch,
          (filledTable schema cols hnodup).passes scanOpts.predicate row = false) ∧
        ∀ key ∈ cols, (filledTable schema cols hnodup).dtype key = t.dtype key := by
  by_cases hsome : batches = []
  · subst hsome
    refine iff_of_false (fun h => ?_) (fun h => h.1.1 rfl)
    have hnames := congrArg DataFrame.columnNames (Except.ok.inj h)
    rw [t.frame_columnNames, hkeys] at hnames
    exact hne hnames.symm
  by_cases hfits : ∀ batch ∈ batches, scanOpts.FitsColumns (batchKeys opts batch)
  · rw [stackBatches_pushed hschema hnodup hcols hne hn hsome hfits]
    have hnil := @Table.frame_eq_nil_iff _ _ _ (filledTable schema cols hnodup) t hkeys.symm hne
      ((batches.flatMap (batchRows opts)).filter
        ((filledTable schema cols hnodup).passes scanOpts.predicate))
    rw [List.filter_eq_nil_iff] at hnil
    simp only [List.mem_flatMap, forall_exists_index, and_imp, Bool.not_eq_true] at hnil
    rw [Except.map, Except.ok.injEq, Option.getD_some, hnil]
    constructor
    · rintro ⟨hrows, htypes⟩
      exact ⟨⟨hsome, hfits⟩, fun batch hbatch row hrow => hrows row batch hbatch hrow, htypes⟩
    · rintro ⟨-, hrows, htypes⟩
      exact ⟨fun row batch hbatch hrow => hrows batch hbatch row hrow, htypes⟩
  · obtain ⟨e, he⟩ := stackBatches_unfit hn hfits
    rw [he]
    exact iff_of_false (fun h => by cases h) (fun h => hfits h.1.2)

end

end PolarsLogfmt
