import PolarsLogfmt.Lazy.LineOrigins
import PolarsLogfmt.Lazy.PushedFrames
import PolarsLogfmt.Lazy.SelectedFrames

/-!
# The lines a frame shows

On the sequential path row `i` of a frame is made of line `i`: it is the row the line is parsed to,
without the keys that aligning drops. A worker fills its columns cell by cell, so a line shows in
the rows in which its push has added a cell.
-/

namespace PolarsLogfmt

open SideBySide

variable [Crates]

/-- The frame is made of the rows of batches of the lines, one row of each line. -/
structure Shows (opts : BatchOpts) (df : DataFrame) (lines : List Bytes) : Prop where
  rows : ∃ (batches : List (List Bytes)) (schema : Option Schema), batches.flatten = lines ∧
    df = filledFrame (batches.flatMap (batchRows opts)) schema
  height : df.height = lines.length

section

variable {opts : BatchOpts} {df : DataFrame} {lines : List Bytes}

theorem filledFrame_cell {rows : List Row} (schema : Option Schema) {key : Bytes}
    (hkey : key ∈ rowKeys rows) {i : Nat} (hi : i < rows.length) :
    (filledFrame rows schema).cell key i =
      filledCell (inferredType rows key (schema.bind (·[key]?))) rows[i][key]? := by
  rw [DataFrame.cell, filledFrame_column?, if_pos hkey]
  simp [filledColumn, Column.ofMap, hi]

/-- The cells of row `i` are those of the values line `i` has for their keys, or fill a missing
one. -/
theorem Shows.cell (h : Shows opts df lines) {i : Nat} (hi : i < lines.length) :
    ∃ row, RowOf opts row lines[i] ∧ ∀ key ∈ df.columnNames, ∃ type,
      df.cell key i = filledCell type row[key]? := by
  obtain ⟨⟨batches, schema, rfl, rfl⟩, -⟩ := h
  have hrows := forall₂_flatMap (fun lines => batchRows_rowOf opts lines) batches
  have hi' : i < (batches.flatMap (batchRows opts)).length := by rwa [hrows.length_eq]
  refine ⟨(batches.flatMap (batchRows opts))[i], (List.forall₂_iff_get.mp hrows).2 i hi' hi, ?_⟩
  intro key hkey
  rw [filledFrame_columnNames] at hkey
  exact ⟨_, filledFrame_cell schema hkey hi'⟩

/-- A frame of rows shows their lines when it has a column, or there is no line. -/
theorem filledFrame_shows_iff (batches : List (List Bytes)) (schema : Option Schema) :
    Shows opts (filledFrame (batches.flatMap (batchRows opts)) schema) batches.flatten ↔
      batches.flatten = [] ∨ rowKeys (batches.flatMap (batchRows opts)) ≠ [] := by
  have hrows := forall₂_flatMap (fun lines => batchRows_rowOf opts lines) batches
  have hlen := hrows.length_eq
  have hheight : (filledFrame (batches.flatMap (batchRows opts)) schema).height =
      if rowKeys (batches.flatMap (batchRows opts)) = [] then 0
      else (batches.flatMap (batchRows opts)).length := rfl
  constructor
  · intro h
    by_contra hnot
    rw [not_or, not_not] at hnot
    rw [if_pos hnot.2, h.height] at hheight
    exact hnot.1 (List.length_eq_zero_iff.mp hheight)
  · intro h
    refine ⟨⟨batches, schema, rfl, rfl⟩, ?_⟩
    rw [hheight]
    split
    · rename_i hkeys
      rw [h.resolve_right (not_not.mpr hkeys)]
      rfl
    · exact hlen

/-! ## The batches of a scan -/

/-- What is asked for of some lines or rows. -/
def asked {α : Type} (nRows : Option Nat) (xs : List α) : List α := nRows.elim xs xs.take

omit [Crates] in
/-- The batches are the lines asked for, unless they are of no lines. -/
theorem flatten_scanBatches (nRows batchSize : Option Nat) (kept : List Bytes) :
    (scanBatches nRows batchSize kept).flatten =
      if nRows = none ∧ batchSize = some 0 then [] else asked nRows kept := by
  unfold scanBatches asked
  cases nRows with
  | some n =>
    by_cases hzero : n = 0
    · simp [hzero]
    · by_cases hnil : kept = []
      · simp [hzero, hnil]
      · simp [hzero, hnil]
  | none =>
    cases batchSize with
    | none =>
      by_cases hnil : kept = []
      · simp [hnil]
      · simp [hnil]
    | some b =>
      by_cases hzero : b = 0
      · simp [hzero]
      · simp [hzero, Batches.flatten_batches]

/-- A slice of one batch is no different from the batch. -/
theorem stackBatches_one (n : Nat) {batches : List (List Bytes)} (h : batches.length ≤ 1) :
    stackBatches { nRows := some n } opts none batches = stackBatches {} opts none batches := by
  cases batches with
  | nil => rfl
  | cons batch rest =>
    obtain rfl := List.length_eq_zero_iff.mp (Nat.le_zero.mp (Nat.le_of_succ_le_succ h))
    rw [stackBatches_singleton, stackBatches_singleton]
    rfl

/-- What the sequential path makes: the frame of the batches that have a key. -/
theorem stackBatches_shown {schema : Schema} (hschema : opts.schema = some schema)
    {nRows batchSize : Option Nat} {kept : List Bytes} {acc : Option DataFrame}
    (h : stackBatches { nRows := nRows } opts none (scanBatches nRows batchSize kept) = .ok acc) :
    acc.getD .empty = filledFrame
      ((keyedBatches opts (scanBatches nRows batchSize kept)).flatMap (batchRows opts))
      (some schema) := by
  have hplain : stackBatches {} opts none (scanBatches nRows batchSize kept) = .ok acc := by
    cases nRows with
    | none => exact h
    | some n =>
      rw [← h]
      exact (stackBatches_one n (length_scanBatches_slice n batchSize kept)).symm
  have hsame : SameKeys opts (scanBatches nRows batchSize kept) := by
    by_contra hother
    obtain ⟨e, he⟩ := stackBatches_fails hschema hother
    rw [he] at hplain
    cases hplain
  rw [stackBatches_ok hschema hsame] at hplain
  cases hplain
  split
  · rename_i hnil
    rw [hnil]
    exact DataFrame.ext rfl rfl
  · rfl

/-- It has no row after the slice. -/
theorem height_shown_le (schema : Option Schema) (n : Nat) (batchSize : Option Nat)
    (kept : List Bytes) :
    (filledFrame ((keyedBatches opts (scanBatches (some n) batchSize kept)).flatMap
      (batchRows opts)) schema).height ≤ n := by
  have hrows := forall₂_flatMap (fun lines => batchRows_rowOf opts lines)
    (keyedBatches opts (scanBatches (some n) batchSize kept))
  have hflat := flatten_scanBatches (some n) batchSize kept
  rw [if_neg (by simp)] at hflat
  calc (filledFrame _ schema).height
      ≤ ((keyedBatches opts (scanBatches (some n) batchSize kept)).flatMap
        (batchRows opts)).length :=
        filledFrame_height_le _ schema
    _ = (keyedBatches opts (scanBatches (some n) batchSize kept)).flatten.length := hrows.length_eq
    _ ≤ (scanBatches (some n) batchSize kept).flatten.length := Batches.length_flatten_filter_le _ _
    _ = (kept.take n).length := by rw [hflat]; rfl
    _ ≤ n := List.length_take_le n kept

/-- The frame of the batches that have a key shows their lines. -/
theorem keyedBatches_shows (opts : BatchOpts) (schema : Option Schema)
    (batches : List (List Bytes)) :
    Shows opts (filledFrame ((keyedBatches opts batches).flatMap (batchRows opts)) schema)
      (keyedBatches opts batches).flatten := by
  refine (filledFrame_shows_iff _ schema).mpr ?_
  cases hkeyed : keyedBatches opts batches with
  | nil => exact .inl rfl
  | cons first rest =>
    right
    have hfirst := batchKeys_ne_nil first (by rw [hkeyed]; exact List.mem_cons_self)
    obtain ⟨key, hkey⟩ := List.exists_mem_of_ne_nil _ hfirst
    obtain ⟨row, hrow, hmem⟩ := mem_rowKeys.mp hkey
    exact List.ne_nil_of_mem
      (mem_rowKeys.mpr ⟨row, List.mem_flatMap.mpr ⟨first, List.mem_cons_self, hrow⟩, hmem⟩)

/-- The sequential path shows the lines asked for when no batch with a line lacks a key, and the
batches are not of no lines. -/
theorem sequential_shows_iff (schema : Option Schema) (nRows batchSize : Option Nat)
    (kept : List Bytes) :
    Shows opts (filledFrame
        ((keyedBatches opts (scanBatches nRows batchSize kept)).flatMap (batchRows opts)) schema)
        (asked nRows kept) ↔
      (∀ batch ∈ scanBatches nRows batchSize kept, batch ≠ [] →
        ∃ line ∈ batch, lineColumns line ≠ []) ∧
          (nRows = none → batchSize = some 0 → kept = []) := by
  have hflat := flatten_scanBatches nRows batchSize kept
  generalize scanBatches nRows batchSize kept = batches at hflat ⊢
  have hshown := keyedBatches_shows opts schema batches
  have hkeyed : (∀ batch ∈ batches, batch ≠ [] → ∃ line ∈ batch, lineColumns line ≠ []) ↔
      ∀ batch ∈ batches, batch ≠ [] → decide (batchKeys opts batch ≠ []) = true := by
    simp only [decide_eq_true_eq, batchKeys_ne_nil_iff]
  rw [hkeyed]
  constructor
  · intro h
    have hlen : (keyedBatches opts batches).flatten.length = (asked nRows kept).length :=
      hshown.height.symm.trans h.height
    by_cases hzero : nRows = none ∧ batchSize = some 0
    · rw [if_pos hzero] at hflat
      have hnil : (keyedBatches opts batches).flatten = [] :=
        List.sublist_nil.mp (hflat ▸ List.filter_sublist.flatten)
      refine ⟨fun batch hbatch hne => absurd ?_ hne, fun _ _ => ?_⟩
      · exact List.flatten_eq_nil_iff.mp hflat batch hbatch
      · rw [hnil, hzero.1] at hlen
        exact List.length_eq_zero_iff.mp hlen.symm
    · rw [if_neg hzero] at hflat
      refine ⟨Batches.forall_of_flatten_length (by rw [hflat, ← hlen]; exact Nat.le_refl _), ?_⟩
      exact fun hn hb => absurd ⟨hn, hb⟩ hzero
  · rintro ⟨hall, hread⟩
    have hflat' : (keyedBatches opts batches).flatten = asked nRows kept := by
      rw [keyedBatches, Batches.flatten_filter_of_ne_nil hall, hflat]
      split
      · rename_i hzero
        rw [hzero.1, hread hzero.1 hzero.2]
        rfl
      · rfl
    rw [← hflat']
    exact hshown

end

/-! ## The frame of workers -/

/-- The frame has the rows of the workers, up to a limit, and the lines that show in them are among
those that are kept, as many as are asked for. -/
structure WorkersShow (opts : FrameOpts) (traces : List (List PushedLine))
    (limit nRows : Option Nat) (df : DataFrame) (kept : List Bytes) : Prop where
  rows : df.rows = asked limit (traces.flatMap (builtRows opts))
  among : List.Subperm (shownLines opts limit traces) kept
  all : (shownLines opts limit traces).length = (asked nRows kept).length

namespace LazyLogFmtReader

/-- The rows of the frames of workers to which nothing is pushed down. -/
theorem flatMap_rows_workerFrames {opts : FrameOpts} (hp : opts.predicate = none)
    (hc : opts.withColumns = none) {traces : List (List PushedLine)}
    (hok : ∀ result ∈ traces.map (workerFrame opts), ∃ df, result = .ok df) :
    ((traces.map (workerFrame opts)).filterMap resultFrame).flatMap DataFrame.rows =
      traces.flatMap (builtRows opts) := by
  induction traces with
  | nil => rfl
  | cons lines traces ih =>
    rw [List.map_cons, List.forall_mem_cons] at hok
    obtain ⟨⟨made, hmade⟩, hok⟩ := hok
    obtain ⟨built, hbuilt⟩ := exists_builtFrame hmade
    have hplain := workerFrame_bare hbuilt hp hc
    rw [List.map_cons, List.flatMap_cons, ← rows_builtFrame hbuilt, ← ih hok, hplain]
    by_cases hrows : 0 < built.height
    · rw [if_pos hrows, List.filterMap_cons_some (resultFrame_eq_some.mpr ⟨rfl, hrows⟩),
        List.flatMap_cons]
    · have hnone : resultFrame (.ok (if 0 < built.height then built else .empty)) = none := by
        rw [resultFrame_left, if_neg hrows]
      rw [List.filterMap_cons_none hnone,
        DataFrame.rows_of_no_height (Nat.eq_zero_of_not_pos hrows), List.nil_append]

theorem sliceRows_rows (nRows : Option Nat) (df : DataFrame) :
    (sliceRows nRows df).rows = asked nRows df.rows := by
  cases nRows with
  | none => rfl
  | some n =>
    unfold sliceRows
    show (if _ then _ else _ : DataFrame).rows = df.rows.take n
    split
    · exact df.head_rows n
    · rename_i hle
      rw [List.take_of_length_le (by rw [DataFrame.length_rows]; omega)]

/-- The frame of an attempt that answers, with nothing pushed down. -/
theorem parallelBatch_rows {self : LazyLogFmtReader} {text : Bytes}
    (hsource : self.source.Delivers text) {scanOpts : AnonymousScanArgs}
    (hp : scanOpts.predicate = none) (hc : scanOpts.withColumns = none)
    {schema schema' : Option Schema} {sched : Schedule} {result : Option DataFrame}
    (h : self.parallelBatch scanOpts schema sched = (schema', .ok result))
    (hanswers : Answers (self.workerFrames scanOpts schema' sched)) :
    ∃ df, result = some df ∧ df.width ≠ 0 ∧
      df.rows = (self.pushedTraces scanOpts schema' sched).flatMap
        (builtRows (self.frameOpts scanOpts schema')) := by
  obtain ⟨first, rest, stacked, hframes, hstacked, hschema, huncapped, hcapped⟩ :=
    (parallelBatch_answers hsource h).1 hanswers
  have hresult : result = some stacked := by
    by_cases hn : scanOpts.nRows = none
    · exact huncapped hn
    · obtain ⟨df, hpush, hdf⟩ := hcapped hn
      rw [hp, hc] at hpush
      cases hpush
      exact hdf
  refine ⟨stacked, hresult, ?_, ?_⟩
  · have hwidth := workerFrames_width first (by
      show first ∈ (self.workerFrames scanOpts schema' sched).filterMap resultFrame
      rw [hframes]
      exact List.mem_cons_self)
    rw [DataFrame.width_eq_schema, hschema, ← DataFrame.width_eq_schema]
    exact hwidth.ne'
  · rw [DataFrame.accumulateVertical_rows hstacked, ← hframes]
    exact flatMap_rows_workerFrames hp hc hanswers.ok

end LazyLogFmtReader

end PolarsLogfmt
