import PolarsLogfmt.Lazy.SchemaRows
import PolarsLogfmt.Lazy.ScanBatches
import PolarsLogfmt.Misc.SideBySide

/-!
# Batches under each other

Without a slice, a predicate or a projection the loop of `scan` makes one frame of the rows
of all batches, provided that the batches with keys have the same keys; a batch without
keys is skipped with its rows.
-/

namespace PolarsLogfmt

open SideBySide

variable [Crates]

open LazyLogFmtReader (stackBatch)

section

variable {opts : BatchOpts} {schema : Schema}

/-- Aligning a row changes no value. -/
theorem getElem?_alignRow {columnKeys : List Bytes} {row : Row} {key : Bytes} {value : ParsedValue}
    (h : (alignRow columnKeys row).1[key]? = some value) : row[key]? = some value := by
  unfold alignRow at h
  simp only at h
  split at h
  · rw [Std.ExtTreeMap.getElem?_filter] at h
    exact (Option.pfilter_eq_some_iff.mp h).1
  · exact h

/-- The row was made from the line: its values are those of the line. -/
def RowOf (opts : BatchOpts) (row : Row) (line : Bytes) : Prop :=
  ∀ (key : Bytes) (value : ParsedValue), row[key]? = some value →
    (parseLogfmtLineWithSchema line opts.schema)[key]? = some value

/-- The rows of a batch were made from its lines, each from one: aligning drops keys only. -/
theorem batchRows_rowOf (opts : BatchOpts) (lines : List Bytes) :
    List.Forall₂ (RowOf opts) (batchRows opts lines) lines := by
  have hfold : ∀ (rest seen : List Bytes) (acc : List Row × List Bytes),
      List.Forall₂ (RowOf opts) acc.1 seen →
        List.Forall₂ (RowOf opts) (rest.foldl (pushRow opts) acc).1 (seen ++ rest) := by
    intro rest
    induction rest with
    | nil =>
      intro seen acc hacc
      rw [List.append_nil]
      exact hacc
    | cons line rest ih =>
      intro seen acc hacc
      rw [List.append_cons]
      refine ih (seen ++ [line]) _ ?_
      unfold pushRow
      simp only
      split
      · refine List.rel_append hacc (.cons ?_ .nil)
        exact fun key value hvalue => getElem?_alignRow hvalue
      · exact List.rel_append hacc (.cons (fun key value hvalue => hvalue) .nil)
  exact hfold lines [] ([], []) .nil

/-- So they were read under the schema. -/
theorem readUnder_batchRows (hschema : opts.schema = some schema) (lines : List Bytes) :
    ∀ row ∈ batchRows opts lines, ReadUnder schema row := by
  intro row hrow key value hvalue
  obtain ⟨line, -, hof⟩ := exists_of_forall₂ (batchRows_rowOf opts lines) hrow
  have hparsed := hof key value hvalue
  rw [hschema] at hparsed
  exact readUnder_parsed schema line key value hparsed

/-- The keys of the rows of a batch. -/
def batchKeys (opts : BatchOpts) (lines : List Bytes) : List Bytes := rowKeys (batchRows opts lines)

/-- The batches some row of which has a key. -/
def keyedBatches (opts : BatchOpts) (batches : List (List Bytes)) : List (List Bytes) :=
  batches.filter fun batch => batchKeys opts batch ≠ []

theorem batchFrame_plain (hschema : opts.schema = some schema) (lines : List Bytes) :
    batchFrame {} opts lines = .ok (filledFrame (batchRows opts lines) (some schema)) := by
  rw [batchFrame, hschema]
  rfl

theorem filledFrame_width (rows : List Row) (schema : Option Schema) :
    (filledFrame rows schema).width = (rowKeys rows).length := List.length_map _

theorem filledFrame_columnNames (rows : List Row) (schema : Option Schema) :
    (filledFrame rows schema).columnNames = rowKeys rows :=
  DataFrame.ofKeys_columnNames _ (filledColumn_name rows schema) (filledColumn_len rows schema)

/-- Batches without keys are skipped. -/
theorem stackBatches_keyedBatches (hschema : opts.schema = some schema) (acc : Option DataFrame)
    (batches : List (List Bytes)) :
    stackBatches {} opts acc batches = stackBatches {} opts acc (keyedBatches opts batches) := by
  induction batches generalizing acc with
  | nil => rfl
  | cons batch batches ih =>
    unfold keyedBatches at ih ⊢
    have hwidth := filledFrame_width (batchRows opts batch) (some schema)
    by_cases hkeys : batchKeys opts batch = []
    · rw [List.filter_cons_of_neg (by simpa using hkeys), ← ih, stackBatches,
        batchFrame_plain hschema]
      simp only
      rw [if_pos]
      rw [hwidth]
      exact List.length_eq_zero_iff.mpr hkeys
    · rw [List.filter_cons_of_pos (by simpa using hkeys), stackBatches, stackBatches]
      simp only [ih]

section

variable {α : Type} {t : Table α} (hne : t.keys ≠ []) {scanOpts : AnonymousScanArgs}
  (hn : scanOpts.nRows = none) {rowsOf : List Bytes → List α} {batches : List (List Bytes)}
  (hframes : ∀ batch ∈ batches, batchFrame scanOpts opts batch = .ok (t.frame (rowsOf batch)))

include hne hn hframes

/-- Batches whose frames are of one table go under the frame of other rows of it. -/
theorem stackBatches_under (seen : List α) :
    stackBatches scanOpts opts (some (t.frame seen)) batches =
      .ok (some (t.frame (seen ++ batches.flatMap rowsOf))) := by
  induction batches generalizing seen with
  | nil => rw [List.flatMap_nil, List.append_nil, stackBatches]
  | cons batch batches ih =>
    have hstack : stackBatch (some (t.frame seen)) (t.frame (rowsOf batch)) =
        .ok (t.frame (seen ++ rowsOf batch)) := by
      unfold stackBatch
      simp only
      rw [if_neg (by rw [Table.frame_columnNames, Table.frame_columnNames]; simp), t.vstack_frame]
      rfl
    rw [stackBatches, hframes batch List.mem_cons_self]
    simp only [Table.frame_width_ne_zero hne, if_false, hstack, hn, Option.any_none,
      Bool.false_eq_true]
    rw [ih fun other hother => hframes other (List.mem_cons_of_mem _ hother), List.flatMap_cons,
      List.append_assoc]

/-- They make the frame of all their rows. -/
theorem stackBatches_table (hsome : batches ≠ []) :
    stackBatches scanOpts opts none batches = .ok (some (t.frame (batches.flatMap rowsOf))) := by
  cases batches with
  | nil => exact absurd rfl hsome
  | cons batch batches =>
    rw [stackBatches, hframes batch List.mem_cons_self]
    simp only [Table.frame_width_ne_zero hne, if_false, stackBatch, hn, Option.any_none,
      Bool.false_eq_true]
    exact stackBatches_under hne hn
      (fun other hother => hframes other (List.mem_cons_of_mem _ hother)) (rowsOf batch)

end

/-- Under other keys it is a mismatch. -/
theorem stackBatches_other (hschema : opts.schema = some schema) {seen : List Row}
    (hseen : ∀ row ∈ seen, ReadUnder schema row) {batches : List (List Bytes)}
    (hkeyed : ∀ batch ∈ batches, batchKeys opts batch ≠ [])
    (hother : ∃ batch ∈ batches, batchKeys opts batch ≠ rowKeys seen) :
    ∃ e, stackBatches {} opts (some (filledFrame seen (some schema))) batches = .error e := by
  induction batches generalizing seen with
  | nil =>
    obtain ⟨batch, hbatch, -⟩ := hother
    cases hbatch
  | cons batch batches ih =>
    have hread := readUnder_batchRows hschema batch
    have hwidth : (filledFrame (batchRows opts batch) (some schema)).width ≠ 0 := by
      rw [filledFrame_width]
      exact fun h => hkeyed batch List.mem_cons_self (List.length_eq_zero_iff.mp h)
    rw [stackBatches, batchFrame_plain hschema]
    simp only [hwidth, if_false]
    unfold stackBatch
    simp only
    by_cases hbatch : batchKeys opts batch = rowKeys seen
    · have hkeys := rowKeys_append hbatch.symm
      obtain ⟨other, hmem, hne⟩ := hother
      have hrest : other ∈ batches := by
        rcases List.mem_cons.mp hmem with rfl | hmem
        · exact absurd hbatch hne
        · exact hmem
      rw [if_neg (by
          rw [filledFrame_columnNames, filledFrame_columnNames, ← hbatch]
          simp [batchKeys]),
        vstack_filledFrame hseen hread hbatch.symm]
      simp only [Except.mapError, Option.any_none, Bool.false_eq_true, if_false]
      refine ih ?_ (fun b hb => hkeyed b (List.mem_cons_of_mem _ hb)) ⟨other, hrest, ?_⟩
      · intro row hrow
        exact (List.mem_append.mp hrow).elim (hseen row) (hread row)
      · rwa [hkeys]
    · rw [if_pos]
      · exact ⟨_, rfl⟩
      · rw [filledFrame_columnNames, filledFrame_columnNames]
        exact fun h => hbatch h.symm

/-- The batches with keys have the same keys. -/
def SameKeys (opts : BatchOpts) (batches : List (List Bytes)) : Prop :=
  ∀ batch ∈ keyedBatches opts batches, ∀ other ∈ keyedBatches opts batches,
    batchKeys opts batch = batchKeys opts other

theorem batchKeys_ne_nil {batches : List (List Bytes)} :
    ∀ batch ∈ keyedBatches opts batches, batchKeys opts batch ≠ [] := by
  intro batch hbatch
  simpa using (List.mem_filter.mp hbatch).2

/-- The rows of batches with the same keys have these keys. -/
theorem rowKeys_flatMap {keys : List Bytes} {batches : List (List Bytes)}
    (hkeys : ∀ batch ∈ batches, batchKeys opts batch = keys) (hsome : batches ≠ []) :
    rowKeys (batches.flatMap (batchRows opts)) = keys := by
  obtain ⟨first, hfirst⟩ := List.exists_mem_of_ne_nil _ hsome
  rw [← hkeys first hfirst]
  refine rowKeys_congr fun key => ⟨?_, ?_⟩
  · rintro ⟨row, hrow, hkey⟩
    obtain ⟨batch, hbatch, hrow⟩ := List.mem_flatMap.mp hrow
    have hmem : key ∈ batchKeys opts batch := mem_rowKeys.mpr ⟨row, hrow, hkey⟩
    rw [hkeys batch hbatch, ← hkeys first hfirst] at hmem
    exact mem_rowKeys.mp hmem
  · rintro ⟨row, hrow, hkey⟩
    exact ⟨row, List.mem_flatMap.mpr ⟨first, hfirst, hrow⟩, hkey⟩

theorem readUnder_flatMap (hschema : opts.schema = some schema) (batches : List (List Bytes)) :
    ∀ row ∈ batches.flatMap (batchRows opts), ReadUnder schema row := by
  intro row hrow
  obtain ⟨batch, -, hrow⟩ := List.mem_flatMap.mp hrow
  exact readUnder_batchRows hschema batch row hrow

/-- The loop of `scan` makes one frame of batches with the same keys. -/
theorem stackBatches_ok (hschema : opts.schema = some schema) {batches : List (List Bytes)}
    (h : SameKeys opts batches) :
    stackBatches {} opts none batches = .ok
      (if keyedBatches opts batches = [] then none
        else some (filledFrame ((keyedBatches opts batches).flatMap (batchRows opts))
          (some schema))) := by
  rw [stackBatches_keyedBatches hschema]
  unfold SameKeys at h
  have hkeyed := @batchKeys_ne_nil _ opts batches
  generalize keyedBatches opts batches = kept at h hkeyed ⊢
  by_cases hnil : kept = []
  · rw [if_pos hnil, hnil]
    rfl
  · obtain ⟨first, hfirst⟩ := List.exists_mem_of_ne_nil _ hnil
    have hsame : ∀ batch ∈ kept, batchKeys opts batch = batchKeys opts first :=
      fun batch hbatch => h batch hbatch first hfirst
    have hn : (batchKeys opts first).Nodup := rowKeys_nodup _
    rw [if_neg hnil, filledFrame_eq_table (readUnder_flatMap hschema kept)
      (rowKeys_flatMap hsame hnil) hn]
    refine stackBatches_table (t := filledTable schema (batchKeys opts first) hn)
      (hkeyed first hfirst) rfl ?_ hnil
    intro batch hbatch
    rw [batchFrame_plain hschema]
    exact congrArg Except.ok
      (filledFrame_eq_table (readUnder_batchRows hschema batch) (hsame batch hbatch) hn)

/-- Of batches with other keys it makes none. -/
theorem stackBatches_fails (hschema : opts.schema = some schema) {batches : List (List Bytes)}
    (h : ¬ SameKeys opts batches) : ∃ e, stackBatches {} opts none batches = .error e := by
  rw [stackBatches_keyedBatches hschema]
  unfold SameKeys at h
  have hkeyed := @batchKeys_ne_nil _ opts batches
  generalize keyedBatches opts batches = kept at h hkeyed ⊢
  cases kept with
  | nil => exact absurd (fun _ hb => by cases hb) h
  | cons first rest =>
    have hfirst := hkeyed first List.mem_cons_self
    have hwidth : (filledFrame (batchRows opts first) (some schema)).width ≠ 0 := by
      rw [filledFrame_width]
      exact fun h => hfirst (List.length_eq_zero_iff.mp h)
    rw [stackBatches, batchFrame_plain hschema]
    simp only [hwidth, if_false, stackBatch, Option.any_none, Bool.false_eq_true]
    refine stackBatches_other hschema (readUnder_batchRows hschema first)
      (fun batch hbatch => hkeyed batch (List.mem_cons_of_mem _ hbatch)) ?_
    -- if all had the keys of the first, they would have the same keys
    by_contra hall
    push Not at hall
    have hfirsts : ∀ batch ∈ first :: rest, batchKeys opts batch = batchKeys opts first := by
      intro batch hbatch
      rcases List.mem_cons.mp hbatch with rfl | hbatch
      · rfl
      · exact hall batch hbatch
    exact h fun batch hbatch other hother =>
      (hfirsts batch hbatch).trans (hfirsts other hother).symm

end

end PolarsLogfmt
