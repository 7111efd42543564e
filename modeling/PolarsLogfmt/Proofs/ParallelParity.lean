import PolarsLogfmt.Lazy.AlignedScan
import PolarsLogfmt.Proofs.AlignedCuts
import PolarsLogfmt.Proofs.BatchSize

/-!
# The parallel path and the plain one

For lines that all carry the same keys `aligned_cols_cnt` is an optimisation: the frame made by the
workers is the one the single-threaded path makes, except for the columns the two convert
differently.
-/

namespace PolarsLogfmt

section

variable [Crates]

open Crates

/-- Every line carries these keys, and none of them twice. -/
def UniformLines (keys : List Bytes) (lines : List Bytes) : Prop :=
  ∀ line ∈ lines, lineColumns line = keys ∧ (lineKeys line).Nodup

instance (keys : List Bytes) : DecidablePred (UniformLines keys) := fun lines =>
  inferInstanceAs (Decidable (∀ line ∈ lines, lineColumns line = keys ∧ (lineKeys line).Nodup))

/-- The two paths convert a value of the type the schema gives its key the same way. -/
def ConvertsAlike (field : Option SchemaField) (value : Bytes) : Prop :=
  field ≠ some .duration ∧ (field = some .dateTime → (parseFromRfc3339 value).isSome)

instance (field : Option SchemaField) : DecidablePred (ConvertsAlike field) := fun value =>
  inferInstanceAs (Decidable
    (field ≠ some .duration ∧ (field = some .dateTime → (parseFromRfc3339 value).isSome)))

theorem convertsAlike_iff (schema : Schema) (key value : Bytes) :
    finishedType (trackType (some schema) key) =
      InferredType.dtype (some (schemaType schema[key]?)) ∧
        convert (trackType (some schema) key) value =
          filledCell (some (schemaType schema[key]?)) (some (parseValueAs schema[key]? value)) ↔
      ConvertsAlike schema[key]? value := by
  unfold ConvertsAlike
  simp only [trackType, Option.bind_some]
  cases hfield : schema[key]? with
  | none => simp [builderType, finishedType, convert, schemaType, InferredType.dtype, filledCell,
      stringCell, parseValueAs, ParsedValue.asString]
  | some field =>
    cases field with
    | duration => simp [builderType, finishedType, schemaType, InferredType.dtype]
    | dateTime =>
      cases hparse : parseFromRfc3339 value <;>
        simp [builderType, finishedType, convert, schemaType, InferredType.dtype, filledCell,
          dateTimeCell, parseValueAs, hparse]
    | _ => simp [builderType, finishedType, convert, schemaType, InferredType.dtype, filledCell,
        stringCell, intCell, floatCell, boolCell, parseValueAs, ParsedValue.asString]

theorem UniformLines.alignedTo {keys lines lines' : List Bytes} (h : UniformLines keys lines)
    (hsub : ∀ line ∈ lines', line ∈ lines) : AlignedTo keys lines' := by
  constructor
  · intro first hfirst
    exact (h first (hsub first (List.mem_of_mem_head? hfirst))).1
  · intro line hline
    have hnodup := (h line (hsub line hline)).2
    exact hnodup.sublist (List.filter_sublist.map _)

/-- The keys of rows of such lines are these keys. -/
theorem rowKeys_uniform (schema : Schema) {keys lines : List Bytes} (h : UniformLines keys lines)
    (hlines : lines ≠ []) : rowKeys (schemaRows schema lines) = keys := by
  obtain ⟨first, hfirst⟩ := List.exists_mem_of_ne_nil lines hlines
  have hsorted : keys.Pairwise fun a b => compare a b = .lt := by
    rw [← (h first hfirst).1]
    exact Std.ExtTreeMap.ordered_keys
  apply eq_of_sorted (rowKeys_sorted _) hsorted
  intro key
  rw [mem_rowKeys, schemaRows, exists_row_parsed]
  constructor
  · rintro ⟨line, hline, hkey⟩
    rw [← (h line hline).1]
    exact mem_lineColumns.mpr hkey
  · intro hkey
    rw [← (h first hfirst).1] at hkey
    exact ⟨first, hfirst, mem_lineColumns.mp hkey⟩

/-- The frame the workers promise is the one the rows make exactly when both paths convert every
value the same way. -/
theorem promisedFrame_eq_filled_iff (schema : Schema) {keys lines : List Bytes}
    (h : UniformLines keys lines) :
    promisedFrame schema lines = filledFrame (schemaRows schema lines) (some schema) ↔
      ∀ line ∈ lines, ∀ pair ∈ handleParseLogfmtLineWithSchemaBase line,
        ConvertsAlike schema[pair.1]? pair.2 := by
  cases lines with
  | nil => exact iff_of_true (DataFrame.ext rfl rfl) (by simp)
  | cons first lines =>
    have hfirst := (h first List.mem_cons_self).1
    have hkeys := rowKeys_uniform schema h (List.cons_ne_nil _ _)
    rw [filledFrame_eq_table (readUnder_schemaRows schema _) (hkeys.trans hfirst.symm)
      (lineColumns_nodup first)]
    have hsame := @Table.frame_eq_map_iff _ _ _
      (alignedTable schema (lineColumns first) (lineColumns_nodup first))
      (filledTable schema (lineColumns first) (lineColumns_nodup first)) rfl
      (fun line => parseLogfmtLineWithSchema line (some schema)) (first :: lines)
    refine hsame.trans ?_
    show (∀ key ∈ lineColumns first, _) ↔ _
    have hcell : ∀ line ∈ first :: lines, ∀ key value,
        (key, value) ∈ handleParseLogfmtLineWithSchemaBase line →
          alignedCell (some schema) key line = convert (trackType (some schema) key) value ∧
            (parseLogfmtLineWithSchema line (some schema))[key]? =
              some (parseValueAs schema[key]? value) := by
      intro line hline key value hpair
      have hvalue : rawValue line key = some value := lastValue_eq_some (h line hline).2 hpair
      rw [alignedCell, getElem?_schemaRow, hvalue]
      exact ⟨rfl, rfl⟩
    constructor
    · intro hsame line hline pair hpair
      have hkey : pair.1 ∈ lineColumns first := by
        rw [hfirst, ← (h line hline).1]
        exact mem_lineColumns.mpr (List.mem_map_of_mem hpair)
      obtain ⟨hdtype, hcells⟩ := hsame pair.1 hkey
      have hsame := hcells line hline
      obtain ⟨haligned, hrow⟩ := hcell line hline pair.1 pair.2 hpair
      refine (convertsAlike_iff schema pair.1 pair.2).mp ⟨hdtype, ?_⟩
      rw [← haligned, ← hrow]
      exact hsame
    · intro halike key hkey
      obtain ⟨pair, hpair, rfl⟩ := List.mem_map.mp (mem_lineColumns.mp hkey)
      refine ⟨((convertsAlike_iff schema pair.1 pair.2).mpr
        (halike first List.mem_cons_self pair hpair)).1, ?_⟩
      intro line hline
      rw [hfirst, ← (h line hline).1] at hkey
      obtain ⟨other, hother, hname⟩ := List.mem_map.mp (mem_lineColumns.mp hkey)
      obtain ⟨haligned, hrow⟩ := hcell line hline pair.1 other.2 (by rw [← hname]; exact hother)
      have hconverts := (convertsAlike_iff schema other.1 other.2).mpr
        (halike line hline other hother)
      rw [hname] at hconverts
      show alignedCell (some schema) pair.1 line = filledCell _ _
      rw [haligned, hrow]
      exact hconverts.2

/-- Without a key the rows make the empty frame. -/
theorem filledFrame_keyless {rows : List Row} (h : rowKeys rows = []) (schema : Option Schema) :
    filledFrame rows schema = .empty := by
  apply DataFrame.ext
  · exact if_pos h
  · exact List.map_eq_nil_iff.mpr h

/-- In batches or at once, the single-threaded path makes one frame of the lines. -/
theorem stackBatches_uniform {opts : BatchOpts} {schema : Schema}
    (hschema : opts.schema = some schema)
    (ha : opts.alignedColsCnt = false) {batchSize : Option Nat} (hsize : batchSize ≠ some 0)
    {keys kept : List Bytes} (h : UniformLines keys kept) :
    (stackBatches {} opts none (scanBatches none batchSize kept)).toOption.map (·.getD .empty) =
      some (filledFrame (schemaRows schema kept) (some schema)) := by
  have hrows : batchRows opts kept = schemaRows schema kept := by
    rw [batchRows_unaligned ha, hschema]
    rfl
  have honce : (stackBatches {} opts none (scanBatches none none kept)).toOption.map
      (·.getD .empty) = some (filledFrame (schemaRows schema kept) (some schema)) := by
    rw [stackBatches_once hschema, hrows]
    by_cases hkeys : batchKeys opts kept = []
    · rw [if_pos hkeys, filledFrame_keyless (by rw [← hrows]; exact hkeys)]
      rfl
    · rw [if_neg hkeys]
      rfl
  cases batchSize with
  | none => exact honce
  | some b =>
    have hb : 0 < b := Nat.pos_of_ne_zero fun hzero => hsize (by rw [hzero])
    rw [← honce]
    apply (stackBatches_batches_iff hschema ha hb kept).mpr
    intro batch hbatch line hline key hkey
    obtain ⟨other, hother⟩ := List.exists_mem_of_ne_nil batch (Batches.ne_nil_of_mem_batches hbatch)
    refine ⟨other, hother, mem_lineColumns.mp ?_⟩
    rw [(h other (mem_of_mem_batches hbatch hother)).1, ← (h line hline).1]
    exact mem_lineColumns.mpr hkey

/-! ## The scans -/

namespace LazyLogFmtReader

variable {self : LazyLogFmtReader} {text : Bytes}

/-- Frames of valid lines can be read. -/
theorem CutsLines.readable (h : self.CutsLines text) (hvalid : ValidLines text) :
    self.FramesReadable := by
  intro origin frames probe horigin _ range hrange
  have htexts : self.frameTexts = frames.map origin.frameText := by
    unfold frameTexts
    rw [horigin]
  have hsplit := Lines.split_flatten h.whole
  rw [h.flatten] at hsplit
  intro line hline
  apply hvalid
  rw [hsplit, List.mem_flatMap]
  refine ⟨origin.frameText range, ?_, hline⟩
  rw [htexts]
  exact List.mem_map_of_mem hrange

/-- Cuts of lines with the same keys are aligned. -/
theorem CutsLines.alignedCut (h : self.CutsLines text) (hworkers : 0 < self.maxInflight)
    {keys : List Bytes} (huniform : UniformLines keys (acceptedLines self.lineFilter text)) :
    self.AlignedCut text where
  workers := hworkers
  aligned := by
    by_cases hkeys : keys = []
    · left
      intro line hline
      rw [(huniform line hline).1, hkeys]
    · right
      intro first hfirst
      have hcolumns := (huniform first (List.mem_of_mem_head? hfirst)).1
      rw [hcolumns]
      refine ⟨hkeys, fun texts htexts => huniform.alignedTo ?_⟩
      intro line hline
      rw [← h.accepted hworkers]
      exact List.mem_flatMap.mpr ⟨texts, htexts, hline⟩

end LazyLogFmtReader

/-- For lines that all carry the same keys once, whatever the cut, the workers, the interleaving
and the batch size, a scan with `aligned_cols_cnt` returns what it returns without exactly when the
two paths convert every value of a line the same way. -/
theorem aligned_scan_eq_plain_iff {self : LazyLogFmtReader} (ha : self.alignedColsCnt = true)
    (hrow : self.rowFilter = none) (hsize : self.batchSize ≠ some 0) {text : Bytes}
    (hcut : self.CutsLines text) (hworkers : 0 < self.maxInflight) {keys : List Bytes}
    (huniform : UniformLines keys (acceptedLines self.lineFilter text)) (sched sched' : Schedule) :
    sliceOutcome self none sched = sliceOutcome { self with alignedColsCnt := false } none sched' ↔
      ∀ schema, self.textSchema text = .ok schema → ValidLines text →
        ∀ line ∈ acceptedLines self.lineFilter text,
          ∀ pair ∈ handleParseLogfmtLineWithSchemaBase line,
          ConvertsAlike schema[pair.1]? pair.2 := by
  rw [sliceOutcome_alignedCut ha hcut (hcut.alignedCut hworkers huniform)]
  have hplain : sliceOutcome { self with alignedColsCnt := false } none sched' =
      scanOutcome { self with alignedColsCnt := false } sched' none := rfl
  rw [hplain]
  cases hschema : self.textSchema text with
  | error e =>
    have hfails := @scanOutcome_fails _ { self with alignedColsCnt := false } text hcut.delivers rfl
      hsize none (by simp) (fun schema hfound => by
        have hfound' : self.textSchema text = .ok schema := hfound
        rw [hschema] at hfound'
        cases hfound') sched'
    rw [hfails]
    exact iff_of_true rfl fun schema hfound => by cases hfound
  | ok schema =>
    by_cases hvalid : ValidLines text
    · have hkept :
          ({ self with alignedColsCnt := false } : LazyLogFmtReader).keptLines schema text =
            acceptedLines self.lineFilter text := by
        apply List.filter_congr
        intro line _
        unfold BatchOpts.keeps LazyLogFmtReader.batchOpts
        rw [hrow]
        exact Bool.and_true _
      have hframe := @scanOutcome_unaligned _ { self with alignedColsCnt := false } text
        hcut.delivers rfl none (by simp) schema hschema
        (fun _ => (hcut.readable hvalid : self.FramesReadable)) hvalid sched'
      rw [hkept, stackBatches_uniform rfl rfl hsize huniform] at hframe
      rw [hframe]
      show (if ValidLines text then some _ else none) = _ ↔ _
      rw [if_pos hvalid, Option.some.injEq, promisedFrame_eq_filled_iff schema huniform]
      constructor
      · intro halike other hother _
        cases hother
        exact halike
      · exact fun halike => halike schema rfl hvalid
    · have hfails := @scanOutcome_fails _ { self with alignedColsCnt := false } text hcut.delivers
        rfl
        hsize none (by simp) (fun _ _ hboth => hvalid hboth.2) sched'
      rw [hfails]
      exact iff_of_true (if_neg hvalid) fun _ _ hboth => absurd hboth hvalid

end

section

attribute [local instance] smallCrates

/-- `a=1` and `a=2` in a unit each, for two workers. -/
theorem aligned_scan_eq_plain_twoLines :
    sliceOutcome (alignedReader [Utf8.ofString "a=1\n", Utf8.ofString "a=2\n"] 2) none {} =
      sliceOutcome { alignedReader [Utf8.ofString "a=1\n", Utf8.ofString "a=2\n"] 2 with
        alignedColsCnt := false } none {} := by
  have hlines : acceptedLines none (Utf8.ofString "a=1\na=2\n") =
      [Utf8.ofString "a=1\n", Utf8.ofString "a=2\n"] := by decide +kernel
  refine (@aligned_scan_eq_plain_iff _
    (alignedReader [Utf8.ofString "a=1\n", Utf8.ofString "a=2\n"] 2) rfl rfl
    (by simp [alignedReader])
    (Utf8.ofString "a=1\na=2\n") (cutsLines_alignedReader _ 2 (by decide +kernel)
    (by decide +kernel)) (by decide) [Utf8.ofString "a"] ?_ {} {}).mpr ?_
  · show UniformLines _ (acceptedLines none _)
    rw [hlines]
    decide +kernel
  · intro schema hschema _ line hline pair hpair
    cases hschema
    show ConvertsAlike (∅ : Schema)[pair.1]? pair.2
    rw [Std.ExtTreeMap.getElem?_empty]
    exact ⟨by decide, by simp⟩

end

end PolarsLogfmt
