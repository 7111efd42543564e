import PolarsLogfmt.Proofs.ParallelParity
import PolarsLogfmt.Proofs.RowLimit

/-!
# A log that has grown

Lines are appended to a log between two scans of it. The second frame starts with the first one
unless the new lines bring keys of their own.
-/

namespace PolarsLogfmt

section

variable [Crates]

namespace LazyLogFmtReader

variable {self : LazyLogFmtReader} {text : Bytes}

omit [Crates] in
theorem acceptedLines_append (hend : text = [] ∨ text.getLast? = some newline) (more : Bytes)
    (lineFilter : Option LineFilterFn) :
    acceptedLines lineFilter (text ++ more) =
      acceptedLines lineFilter text ++ acceptedLines lineFilter more := by
  unfold acceptedLines
  rw [Lines.split_append hend, List.filter_append]

theorem keptLines_append (hend : text = [] ∨ text.getLast? = some newline) (more : Bytes)
    (schema : Schema) :
    self.keptLines schema (text ++ more) = self.keptLines schema text ++
      self.keptLines schema more := by
  unfold keptLines
  rw [Lines.split_append hend, List.filter_append]

omit [Crates] in
theorem validLines_append (hend : text = [] ∨ text.getLast? = some newline) {more : Bytes}
    (h : ValidLines text) (hmore : ValidLines more) : ValidLines (text ++ more) := by
  intro line hline
  rw [Lines.split_append hend] at hline
  rcases List.mem_append.mp hline with hline | hline
  · exact h line hline
  · exact hmore line hline

/-- The schema of the log stays what it was when its first lines were enough to infer it. -/
theorem textSchema_append (hend : text = [] ∨ text.getLast? = some newline) {more : Bytes}
    (h : ValidLines text) (hmore : ValidLines more)
    (hprobed : self.schema.isSome ∨
      self.inferSchemaLength ≤ (acceptedLines self.lineFilter text).length) :
    self.textSchema (text ++ more) = self.textSchema text := by
  rw [textSchema_accepted (validLines_append hend h hmore), textSchema_accepted h,
    acceptedLines_append hend]
  cases hschema : self.schema with
  | some schema => rfl
  | none =>
    have hlength := hprobed.resolve_left (by simp [hschema])
    rw [List.take_append_of_le_length hlength]

end LazyLogFmtReader

omit [Crates] in
/-- The first lines have every key when the others bring none. -/
theorem headCarries_append (kept more : List Bytes) :
    HeadCarries kept.length (kept ++ more) ↔
      ∀ line ∈ more, ∀ key ∈ lineKeys line, ∃ other ∈ kept, key ∈ lineKeys other := by
  unfold HeadCarries
  rw [List.take_left]
  constructor
  · intro h line hline
    exact h line (List.mem_append_right kept hline)
  · intro h line hline key hkey
    rcases List.mem_append.mp hline with hline | hline
    · exact ⟨line, hline, hkey⟩
    · exact h line hline key hkey

/-- The frame of some lines is the head of the frame of them and more. -/
theorem filledFrame_head_iff {opts : BatchOpts} (ha : opts.alignedColsCnt = false) {schema : Schema}
    (hschema : opts.schema = some schema) (kept more : List Bytes) :
    (filledFrame (batchRows opts (kept ++ more)) (some schema)).head
          (filledFrame (batchRows opts kept) (some schema)).height =
        filledFrame (batchRows opts kept) (some schema) ↔
      ∀ line ∈ more, ∀ key ∈ lineKeys line, ∃ other ∈ kept, key ∈ lineKeys other := by
  by_cases hkeys : batchKeys opts kept = []
  · -- the frame is empty, and so is every row
    have hempty := filledFrame_keyless hkeys (some schema)
    have hbare : ∀ line ∈ kept, ∀ key, key ∉ lineKeys line := by
      intro line hline key hkey
      have hmem := (mem_batchKeys ha).mpr ⟨line, hline, hkey⟩
      rw [hkeys] at hmem
      cases hmem
    have htake := filledFrame_take_iff hschema ha 0 (kept ++ more)
    rw [List.take_zero, filledFrame_keyless (show rowKeys (batchRows opts []) = [] from rfl)]
      at htake
    rw [hempty, show DataFrame.empty.height = 0 from rfl, eq_comm, htake]
    constructor
    · intro h line hline key hkey
      obtain ⟨other, hother, -⟩ := h line (List.mem_append_right kept hline) key hkey
      cases hother
    · intro h line hline key hkey
      exfalso
      rcases List.mem_append.mp hline with hline | hline
      · exact hbare line hline key hkey
      · obtain ⟨other, hother, hmem⟩ := h line hline key hkey
        exact hbare other hother key hmem
  · rw [filledFrame_height hkeys, length_batchRows, ← headCarries_append,
      ← filledFrame_take_iff hschema ha, List.take_left, eq_comm]

/-- A scan of a log that has grown succeeds, too, and returns the rows of the scan before, in the
same columns, before the new ones, exactly when no new line has a key that the log did not have. -/
theorem grown_log_iff {self : LazyLogFmtReader} (ha : self.alignedColsCnt = false)
    (hsize : self.batchSize = none) {text more : Bytes}
    (hend : text = [] ∨ text.getLast? = some newline) (hsource : self.source.Delivers text)
    {sched : Schedule} {df : DataFrame} (hdf : sliceOutcome self none sched = some df)
    (hprobed : self.schema.isSome ∨
      self.inferSchemaLength ≤ (acceptedLines self.lineFilter text).length)
    {source : LogFmtSource} (hgrown : source.Delivers (text ++ more)) (hvalid : ValidLines more)
    (hread : ({ self with source := source } : LazyLogFmtReader).FramesReadable)
    (sched' : Schedule) :
    ∃ df', sliceOutcome { self with source := source } none sched' = some df' ∧
      (df'.head df.height = df ↔ ∀ schema, self.textSchema text = .ok schema →
        ∀ line ∈ self.keptLines schema more, ∀ key ∈ lineKeys line,
          ∃ other ∈ self.keptLines schema text, key ∈ lineKeys other) := by
  obtain ⟨schema, hschema, hread₀, hvalid₀⟩ := readable_of_once hsource ha hsize hdf
  have hbefore := sliceOutcome_once hsource ha hsize hschema hread₀ hvalid₀ sched
  have hschema' := LazyLogFmtReader.textSchema_append hend hvalid₀ hvalid hprobed
  rw [hschema] at hschema'
  have hafter := @sliceOutcome_once _ { self with source := source } (text ++ more) hgrown ha hsize
    schema hschema' hread (LazyLogFmtReader.validLines_append hend hvalid₀ hvalid) sched'
  refine ⟨_, hafter, ?_⟩
  have hkept : ({ self with source := source } : LazyLogFmtReader).keptLines schema (text ++ more) =
      self.keptLines schema text ++ self.keptLines schema more :=
    LazyLogFmtReader.keptLines_append hend more schema
  obtain rfl : filledFrame (batchRows (self.batchOpts (some schema)) (self.keptLines schema text))
      (some schema) = df := Option.some.inj (hbefore.symm.trans hdf)
  rw [hkept]
  refine (@filledFrame_head_iff _ (self.batchOpts (some schema)) ha schema rfl _ _).trans ?_
  constructor
  · intro h other hother
    rw [hschema] at hother
    cases hother
    exact h
  · intro h
    exact h schema hschema

end

section

attribute [local instance] smallCrates

/-- A log in memory, read with a schema that lists no key. -/
def logReader (text : Bytes) : LazyLogFmtReader := { source := .cursor text, schema := some ∅ }

/-- The log `a=1`. -/
def lineLog : Bytes := Utf8.ofString "a=1\n"

/-- The log grows by a line with the key `a`, or by one with the key `b`. -/
theorem grown_log_line :
    ∃ df, sliceOutcome (logReader lineLog) none {} = some df ∧
      (∃ df', sliceOutcome (logReader (lineLog ++ Utf8.ofString "a=2\n")) none {} = some df' ∧
        df'.head df.height = df) ∧
      ∃ df', sliceOutcome (logReader (lineLog ++ Utf8.ofString "b=2\n")) none {} = some df' ∧
        df'.head df.height ≠ df := by
  have hscans : (sliceOutcome (logReader lineLog) none {}).isSome = true := by decide +kernel
  obtain ⟨df, hdf⟩ := Option.isSome_iff_exists.mp hscans
  have hread : ∀ source, ({ logReader lineLog with source := .cursor source } :
      LazyLogFmtReader).FramesReadable := by
    intro source origin frames probe horigin
    cases horigin
  have hsource : (logReader lineLog).source.Delivers lineLog := rfl
  obtain ⟨df₁, hdf₁, hkeeps⟩ := @grown_log_iff _ (logReader lineLog) rfl rfl lineLog
    (Utf8.ofString "a=2\n") (by decide +kernel) hsource {} df hdf (.inl rfl)
    (.cursor (lineLog ++ Utf8.ofString "a=2\n")) rfl (by decide +kernel) (hread _) {}
  obtain ⟨df₂, hdf₂, hloses⟩ := @grown_log_iff _ (logReader lineLog) rfl rfl lineLog
    (Utf8.ofString "b=2\n") (by decide +kernel) hsource {} df hdf (.inl rfl)
    (.cursor (lineLog ++ Utf8.ofString "b=2\n")) rfl (by decide +kernel) (hread _) {}
  refine ⟨df, hdf, ⟨df₁, hdf₁, hkeeps.mpr ?_⟩, df₂, hdf₂, fun heq => ?_⟩
  · intro schema hschema
    cases hschema
    decide +kernel
  · have hkeys := hloses.mp heq ∅ rfl
    revert hkeys
    decide +kernel

end

end PolarsLogfmt
