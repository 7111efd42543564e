import PolarsLogfmt.Frame.FrameSchema
import PolarsLogfmt.Lazy.Pushdown
import PolarsLogfmt.Lazy.ScanOutcome

/-!
# The schema of the batches

Without a projection the frame of a batch has the keys of its rows, typed by the schema of the scan.
The loop of `scan` puts only frames of one schema under each other.
-/

namespace PolarsLogfmt

variable [Crates]

/-- The type of a column of rows read under the schema. -/
def filledType (schema : Schema) (key : Bytes) : DataType :=
  InferredType.dtype (some (schemaType schema[key]?))

/-- A predicate keeps the columns. -/
theorem applyPredicate_schema {df out : DataFrame} {predicate : Option Predicate}
    (h : applyPushdown df predicate none = .ok out) : out.schema = df.schema := by
  unfold applyPushdown at h
  cases predicate with
  | none =>
    cases h
    rfl
  | some p =>
    rw [applyPredicate] at h
    cases hfilter : df.filter p with
    | error e =>
      rw [hfilter] at h
      cases h
    | ok kept =>
      rw [hfilter] at h
      cases h
      exact DataFrame.filter_schema hfilter

section

variable {opts : BatchOpts} {schema : Schema} (hschema : opts.schema = some schema)
  {scanOpts : AnonymousScanArgs} (hc : scanOpts.withColumns = none)

include hschema hc

/-- The columns of a batch's frame. -/
theorem batchFrame_schema {lines : List Bytes} {df : DataFrame}
    (h : batchFrame scanOpts opts lines = .ok df) :
    df.schema = (batchKeys opts lines).map fun key => (key, filledType schema key) := by
  have hn : (batchKeys opts lines).Nodup := rowKeys_nodup _
  rw [batchFrame, hschema, hc] at h
  rw [applyPredicate_schema h, filledFrame_eq_table (readUnder_batchRows hschema lines) rfl hn]
  exact (filledTable schema (batchKeys opts lines) hn).frame_schema (batchRows opts lines)

omit hschema hc in
/-- A frame goes under another with the same schema only. -/
theorem stackBatch_schema {acc df out : DataFrame}
    (h : LazyLogFmtReader.stackBatch (some acc) df = .ok out) :
    out.schema = acc.schema ∧ df.schema = acc.schema := by
  unfold LazyLogFmtReader.stackBatch at h
  simp only at h
  split at h
  · cases h
  · rename_i hnames
    rw [not_not] at hnames
    have hwidth : acc.width = df.width := by
      have hlen := congrArg List.length hnames
      rwa [DataFrame.columnNames, DataFrame.columnNames, List.length_map, List.length_map] at hlen
    cases hstack : acc.vstack df with
    | error e =>
      rw [hstack] at h
      cases h
    | ok stacked =>
      rw [hstack] at h
      cases h
      exact DataFrame.vstack_schema hstack hwidth

omit hschema hc in
/-- The frame a batch goes under and the batch both have the schema of what comes of it. -/
theorem stackBatch_under {acc : Option DataFrame} {df out : DataFrame}
    (h : LazyLogFmtReader.stackBatch acc df = .ok out) :
    (∀ made ∈ acc, made.schema = out.schema) ∧ df.schema = out.schema := by
  cases acc with
  | none =>
    cases h
    refine ⟨?_, rfl⟩
    intro made hmade
    cases hmade
  | some acc =>
    obtain ⟨hout, hsame⟩ := stackBatch_schema h
    refine ⟨?_, hsame.trans hout.symm⟩
    intro made hmade
    cases hmade
    exact hout.symm

/-- Every batch with a key has the schema of the frame the loop makes. -/
theorem stackBatches_schema {batches : List (List Bytes)} {acc : Option DataFrame} {df : DataFrame}
    (h : stackBatches scanOpts opts acc batches = .ok (some df))
    (hwhole : scanOpts.nRows = none ∨ batches.length ≤ 1) :
    (∀ made ∈ acc, made.schema = df.schema) ∧
      (∀ batch ∈ keyedBatches opts batches,
        (batchKeys opts batch).map (fun key => (key, filledType schema key)) = df.schema) ∧
      (acc = none → keyedBatches opts batches ≠ []) := by
  induction batches generalizing acc with
  | nil =>
    cases h
    refine ⟨fun made hmade => ?_, fun batch hbatch => ?_, fun hnone => ?_⟩
    · cases hmade
      rfl
    · cases hbatch
    · cases hnone
  | cons batch batches ih =>
    have hwhole' : scanOpts.nRows = none ∨ batches.length ≤ 1 :=
      hwhole.imp id fun hlen => Nat.le_of_lt hlen
    rw [stackBatches] at h
    cases hframe : batchFrame scanOpts opts batch with
    | error e =>
      rw [hframe] at h
      cases h
    | ok frame =>
      have hfields := batchFrame_schema hschema hc hframe
      have hwidth : frame.width = (batchKeys opts batch).length := by
        have hlen := congrArg List.length hfields
        rwa [DataFrame.schema, List.length_map, List.length_map] at hlen
      rw [hframe] at h
      simp only [hwidth, List.length_eq_zero_iff] at h
      unfold keyedBatches at ih ⊢
      by_cases hkeys : batchKeys opts batch = []
      · rw [if_pos hkeys] at h
        rw [List.filter_cons_of_neg (by simpa using hkeys)]
        exact ih h hwhole'
      · rw [if_neg hkeys] at h
        rw [List.filter_cons_of_pos (by simpa using hkeys)]
        obtain ⟨stacked, hstacked⟩ : ∃ stacked,
            LazyLogFmtReader.stackBatch acc frame = .ok stacked := by
          cases hstack : LazyLogFmtReader.stackBatch acc frame with
          | error e =>
            rw [hstack] at h
            cases h
          | ok stacked => exact ⟨stacked, rfl⟩
        obtain ⟨hacc, hself⟩ := stackBatch_under hstacked
        rw [hstacked] at h
        have hrest : stacked.schema = df.schema ∧ ∀ other ∈ batches.filter fun batch =>
            batchKeys opts batch ≠ [], (batchKeys opts other).map
              (fun key => (key, filledType schema key)) = df.schema := by
          simp only at h
          split at h
          · rename_i hstop
            cases h
            have hnil : batches = [] := by
              rcases hwhole with hnone | hlen
              · rw [hnone] at hstop
                cases hstop
              · exact List.length_eq_zero_iff.mp (Nat.le_zero.mp (Nat.le_of_succ_le_succ hlen))
            rw [hnil]
            exact ⟨rfl, fun other hother => by cases hother⟩
          · obtain ⟨hstart, hothers, -⟩ := ih h hwhole'
            exact ⟨hstart stacked rfl, hothers⟩
        obtain ⟨hstart, hothers⟩ := hrest
        refine ⟨fun made hmade => (hacc made hmade).trans hstart, fun other hother => ?_,
          fun _ => List.cons_ne_nil _ _⟩
        rcases List.mem_cons.mp hother with rfl | hother
        · exact hfields.symm.trans (hself.trans hstart)
        · exact hothers other hother

end

end PolarsLogfmt
