import PolarsLogfmt.Lazy.AlignedAttempt
import PolarsLogfmt.Lazy.ScanOutcome

/-!
# Scans with aligned columns

The frame a scan with `aligned_cols_cnt` promises is the table of the accepted lines whose columns
are the keys of the first. The attempt makes it when every worker's lines start with these keys
and repeat none of them.
-/

namespace PolarsLogfmt

open SideBySide

variable [Crates]

/-- The columns of the first line, a row for each line: null where a line lacks a key. -/
def promisedFrame (schema : Schema) : List Bytes → DataFrame
  | [] => .empty
  | first :: lines =>
      (alignedTable schema (lineColumns first) (lineColumns_nodup first)).frame (first :: lines)

/-- Of lines without a key nothing is promised. -/
theorem promisedFrame_keyless (schema : Schema) {lines : List Bytes}
    (h : ∀ line ∈ lines, lineColumns line = []) : promisedFrame schema lines = .empty := by
  cases lines with
  | nil => rfl
  | cons first lines =>
    have hfirst := h first List.mem_cons_self
    apply DataFrame.ext
    · exact if_pos hfirst
    · exact List.map_eq_nil_iff.mpr hfirst

/-! ## Lines without a key -/

section

variable {opts : BatchOpts}

/-- A row has only keys of its line. -/
theorem lineKeys_of_batchRows (opts : BatchOpts) (lines : List Bytes) :
    ∀ row ∈ batchRows opts lines, ∀ key ∈ row, ∃ line ∈ lines, key ∈ lineKeys line := by
  intro row hrow key hkey
  obtain ⟨line, hline, hof⟩ := exists_of_forall₂ (batchRows_rowOf opts lines) hrow
  obtain ⟨value, hvalue⟩ :=
    Option.isSome_iff_exists.mp (Std.ExtTreeMap.mem_iff_isSome_getElem?.mp hkey)
  refine ⟨line, hline, ?_⟩
  apply (@mem_parseLogfmtLineWithSchema _ line key opts.schema).mp
  rw [Std.ExtTreeMap.mem_iff_isSome_getElem?, hof key value hvalue]
  rfl

theorem batchKeys_keyless {lines : List Bytes} (h : ∀ line ∈ lines, lineColumns line = []) :
    batchKeys opts lines = [] := by
  rw [List.eq_nil_iff_forall_not_mem]
  intro key hkey
  obtain ⟨row, hrow, hmem⟩ := mem_rowKeys.mp hkey
  obtain ⟨line, hline, hkey⟩ := lineKeys_of_batchRows opts lines row hrow key hmem
  have hcolumn := mem_lineColumns.mpr hkey
  rw [h line hline] at hcolumn
  cases hcolumn

omit [Crates] in
/-- The lines of the batches are kept ones. -/
theorem mem_of_mem_scanBatches {nRows batchSize : Option Nat} {kept batch : List Bytes}
    (hbatch : batch ∈ scanBatches nRows batchSize kept) {line : Bytes} (hline : line ∈ batch) :
    line ∈ kept := by
  unfold scanBatches at hbatch
  split at hbatch
  · split at hbatch
    · rw [List.mem_singleton.mp hbatch] at hline
      cases hline
    · split at hbatch
      · cases hbatch
      · rw [List.mem_singleton.mp hbatch] at hline
        exact List.mem_of_mem_take hline
  · split at hbatch
    · rw [List.mem_singleton.mp hbatch] at hline
      cases hline
    · rename_i n hn
      rw [← Batches.flatten_batches n kept]
      exact List.mem_flatten.mpr ⟨batch, hbatch, hline⟩
  · split at hbatch
    · cases hbatch
    · rw [List.mem_singleton.mp hbatch] at hline
      exact hline

/-- Batches without a key make no frame. -/
theorem stackBatches_keyless {schema : Schema} (hschema : opts.schema = some schema)
    (batchSize : Option Nat) {kept : List Bytes} (h : ∀ line ∈ kept, lineColumns line = []) :
    stackBatches {} opts none (scanBatches none batchSize kept) = .ok none := by
  have hnone : keyedBatches opts (scanBatches none batchSize kept) = [] := by
    apply List.filter_eq_nil_iff.mpr
    intro batch hbatch
    have hkeys := @batchKeys_keyless _ opts batch fun line hline =>
      h line (mem_of_mem_scanBatches hbatch hline)
    simp [hkeys]
  rw [stackBatches_keyedBatches hschema, hnone]
  rfl

end

/-! ## Cuts of a text -/

namespace LazyLogFmtReader

/-- The source delivers the text, and its frames cut it into whole lines. -/
structure CutsLines (logs : LazyLogFmtReader) (text : Bytes) : Prop where
  delivers : logs.source.Delivers text
  whole : Lines.Whole newline logs.frameTexts
  flatten : logs.frameTexts.flatten = text

variable {self : LazyLogFmtReader} {text : Bytes}

theorem acceptedBy_scanReader (self : LazyLogFmtReader) (schema : Schema) :
    (self.scanReader schema).acceptedBy = self.acceptedBy := by
  have haccepts := accepts_scanReader self schema
  funext texts
  unfold acceptedBy acceptedLines
  rw [haccepts]

theorem CutsLines.accepted (h : self.CutsLines text) (hworkers : 0 < self.maxInflight) :
    self.workerTexts.flatMap self.acceptedBy = acceptedLines self.lineFilter text := by
  rw [workerTexts_accepted hworkers h.whole, h.flatten]

/-- The lines of the text are valid when those of every worker are. -/
theorem CutsLines.valid (h : self.CutsLines text) (hworkers : 0 < self.maxInflight) :
    ValidLines text ↔ ∀ texts ∈ self.workerTexts, ∀ text ∈ texts, ValidLines text := by
  have hsplit := Lines.split_flatten h.whole
  rw [h.flatten] at hsplit
  unfold ValidLines
  rw [hsplit, ← workerTexts_flatten hworkers]
  simp only [List.mem_flatMap, List.mem_flatten]
  constructor
  · exact fun hall texts htexts text htext line hline =>
      hall line ⟨text, ⟨texts, htexts, htext⟩, hline⟩
  · rintro hall line ⟨text, ⟨texts, htexts, htext⟩, hline⟩
    exact hall texts htexts text htext line hline

/-- Every worker's lines start with the keys the text starts with, and repeat none of them; or
there is no key at all. -/
structure AlignedCut (logs : LazyLogFmtReader) (text : Bytes) : Prop where
  workers : 0 < logs.maxInflight
  aligned : (∀ line ∈ acceptedLines logs.lineFilter text, lineColumns line = []) ∨
    ∀ first ∈ (acceptedLines logs.lineFilter text).head?, lineColumns first ≠ [] ∧
      ∀ texts ∈ logs.workerTexts, AlignedTo (lineColumns first) (logs.acceptedBy texts)

/-- The attempt on lines without a key makes no frame. -/
theorem parallelBatch_keyless (hcut : self.CutsLines text) (hworkers : 0 < self.maxInflight)
    (h : ∀ line ∈ acceptedLines self.lineFilter text, lineColumns line = []) (schema : Schema)
    (sched : Schedule) :
    (ValidLines text → (self.parallelBatch {} (some schema) sched).2 = .ok none) ∧
      (¬ ValidLines text → ∃ e, (self.parallelBatch {} (some schema) sched).2 = .error e) := by
  obtain ⟨results, hresults, hbatch⟩ :=
    @parallelBatch_results _ self text hcut.delivers {} rfl schema sched
  rw [← hcut.accepted hworkers] at h
  have hresult : ∀ texts ∈ self.workerTexts, ∀ result,
      self.WorkerResult (self.frameOpts {} (some schema)) texts result →
        result = if ∀ text ∈ texts, ValidLines text then .ok .empty
          else .error (.computeError invalidUtf8) := by
    intro texts htexts result hresult
    unfold WorkerResult at hresult
    split at hresult
    · obtain ⟨lines, hlines, rfl⟩ := hresult
      rw [if_pos (by assumption)]
      apply workerFrame_keyless
      intro p hp
      apply h
      rw [List.mem_flatMap]
      exact ⟨texts, htexts, hlines ▸ List.mem_map_of_mem hp⟩
    · rw [if_neg (by assumption)]
      exact hresult
  have hends : ∀ result ∈ results, ∃ texts ∈ self.workerTexts,
      result = if ∀ text ∈ texts, ValidLines text then .ok .empty
        else .error (.computeError invalidUtf8) := by
    intro result hmem
    obtain ⟨texts, htexts, hmade⟩ := exists_of_forall₂ hresults.flip hmem
    exact ⟨texts, htexts, hresult texts htexts result hmade⟩
  rw [hbatch, hcut.valid hworkers]
  constructor
  · intro hvalid
    apply stackResults_empty
    intro result hmem
    obtain ⟨texts, htexts, rfl⟩ := hends result hmem
    exact if_pos (hvalid texts htexts)
  · intro hinvalid
    push Not at hinvalid
    obtain ⟨texts, htexts, text', htext', hinvalid⟩ := hinvalid
    obtain ⟨result, hmem, hmade⟩ := exists_of_forall₂ hresults htexts
    have hfailed := hresult texts htexts result hmade
    rw [if_neg fun hall => hinvalid (hall text' htext')] at hfailed
    subst hfailed
    refine stackResults_invalid {} hmem ?_ sched.error
    intro result hmem
    obtain ⟨texts, -, rfl⟩ := hends result hmem
    split
    · exact .inl rfl
    · exact .inr rfl

/-- The attempt of an aligned cut makes the promised frame. -/
theorem parallelBatch_promised (ha : self.alignedColsCnt = true) (hcut : self.CutsLines text)
    (hworkers : 0 < self.maxInflight) {first : Bytes} {lines : List Bytes}
    (hlines : acceptedLines self.lineFilter text = first :: lines) (hne : lineColumns first ≠ [])
    (hto : ∀ texts ∈ self.workerTexts, AlignedTo (lineColumns first) (self.acceptedBy texts))
    (schema : Schema) (sched : Schedule) :
    (ValidLines text → (self.parallelBatch {} (some schema) sched).2 =
      .ok (some (promisedFrame schema (acceptedLines self.lineFilter text)))) ∧
      (¬ ValidLines text → ∃ e, (self.parallelBatch {} (some schema) sched).2 = .error e) := by
  have hfinish : ∀ rows, finishFrame (self.frameOpts {} (some schema))
      ((alignedTable schema (lineColumns first) (lineColumns_nodup first)).frame rows) =
        .ok ((alignedTable schema (lineColumns first) (lineColumns_nodup first)).shown
          (rows.filter fun _ => true)) := by
    intro rows
    rw [List.filter_true]
    exact finishFrame_table rfl rfl hne rows
  rw [hcut.valid hworkers]
  constructor
  · intro hvalid
    have hframe := parallelBatch_alignedTo ha hcut.delivers rfl schema (lineColumns_nodup first) hne
      hto hfinish hne hvalid sched
    rw [hcut.accepted hworkers, List.filter_true, hlines, if_neg (List.cons_ne_nil _ _)] at hframe
    rw [hframe, hlines]
    rfl
  · exact fun hinvalid => parallelBatch_alignedTo_fails ha hcut.delivers rfl schema
      (lineColumns_nodup first) hne hto hfinish hinvalid sched

/-! ## The scan -/

/-- What the scan of an aligned cut gives: the promised frame, unless a line is no UTF-8. -/
theorem scanText_alignedCut (ha : self.alignedColsCnt = true) (hcut : self.CutsLines text)
    (h : self.AlignedCut text) {schema : Schema} (hschema : self.schema = some schema)
    (sched : Schedule) :
    (self.scanText {} sched text none).toOption.map (·.getD .empty) =
      if ValidLines text then some (promisedFrame schema (acceptedLines self.lineFilter text))
      else none := by
  have hfailed : ∀ e, (self.parallelBatch {} (some schema) sched).2 = .error e →
      (self.scanText {} sched text none).toOption.map (·.getD .empty) = none := by
    intro e he
    rw [scanText, attempt, if_neg (by simp), hschema, he]
    rfl
  obtain ⟨hworkers, haligned⟩ := h
  by_cases hall : ∀ line ∈ acceptedLines self.lineFilter text, lineColumns line = []
  · -- no key: the sequential path has no batch with a key either
    obtain ⟨hnone, hfails⟩ := parallelBatch_keyless hcut hworkers hall schema sched
    by_cases hvalid : ValidLines text
    · rw [if_pos hvalid, promisedFrame_keyless schema hall, scanText, attempt, if_neg (by simp),
        hschema, hnone hvalid]
      simp only
      rw [scanLoop_text hschema {} sched (.inl hvalid), stackBatches_keyless rfl]
      · rfl
      · intro line hline
        obtain ⟨hread, hkeeps⟩ := List.mem_filter.mp hline
        rw [readableLines_of_valid hvalid] at hread
        exact hall line (List.mem_filter.mpr ⟨hread, (Bool.and_eq_true_iff.mp hkeeps).1⟩)
    · obtain ⟨e, he⟩ := hfails hvalid
      rw [if_neg hvalid, hfailed e he]
  · have hto := haligned.resolve_left hall
    cases hlines : acceptedLines self.lineFilter text with
    | nil =>
      rw [hlines] at hall
      exact absurd (by simp) hall
    | cons first lines =>
      obtain ⟨hne, hto⟩ := hto first (by rw [hlines]; rfl)
      obtain ⟨hframe, hfails⟩ := parallelBatch_promised ha hcut hworkers hlines hne hto schema sched
      by_cases hvalid : ValidLines text
      · have hwidth : (promisedFrame schema (first :: lines)).width ≠ 0 :=
          Table.frame_width_ne_zero hne
        rw [hlines] at hframe
        rw [if_pos hvalid, scanText, attempt, if_neg (by simp), hschema, hframe hvalid]
        simp only [hwidth, if_false]
        rfl
      · obtain ⟨e, he⟩ := hfails hvalid
        rw [if_neg hvalid, hfailed e he]

theorem acceptedLines_scanReader (self : LazyLogFmtReader) (schema : Schema) (text : Bytes) :
    acceptedLines (self.scanReader schema).lineFilter text =
      acceptedLines self.lineFilter text := by
  unfold acceptedLines
  rw [accepts_scanReader]

/-- The copy of the reader cuts the text as the reader does. -/
theorem AlignedCut.scanReader (h : self.AlignedCut text) (schema : Schema) :
    (self.scanReader schema).AlignedCut text where
  workers := h.workers
  aligned := by
    rw [acceptedLines_scanReader, acceptedBy_scanReader]
    exact h.aligned

end LazyLogFmtReader

end PolarsLogfmt
