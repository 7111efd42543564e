import PolarsLogfmt.Lazy.FirstBatch
import PolarsLogfmt.Lazy.ScanBatches

/-!
# One call of `next_batch`

On the single-threaded path a call takes the lines of one batch from the stream.
`singleBatch_cases` says what it makes of them, `finishBatch_ok` what is left of the state.
-/

namespace PolarsLogfmt

variable [Crates]

/-! ## What is left of the state -/

theorem takeLine_linesRead_eq (opts : BatchOpts) (st : BatchState) (line : Bytes) :
    (st.takeLine opts line).linesRead =
      if accepts opts.lineFilter line then st.linesRead + 1 else st.linesRead := by
  unfold BatchState.takeLine
  split
  · simp only
    split
    · split <;> rfl
    · rfl
  · rfl

/-- The lines counted are the accepted ones. -/
theorem foldl_takeLine_linesRead (opts : BatchOpts) (lines : List Bytes) (st : BatchState) :
    (lines.foldl (BatchState.takeLine opts) st).linesRead =
      st.linesRead + (lines.filter (accepts opts.lineFilter)).length := by
  induction lines generalizing st with
  | nil => rfl
  | cons line lines ih =>
    rw [List.foldl_cons, ih, takeLine_linesRead_eq]
    by_cases hacc : accepts opts.lineFilter line = true
    · rw [if_pos hacc, List.filter_cons_of_pos hacc, List.length_cons]
      omega
    · rw [if_neg hacc, List.filter_cons_of_neg hacc]

namespace LazyLogFmtReader

section

variable {scanOpts : AnonymousScanArgs} {size : Option Nat} {schema : Option Schema}
  {state : LogFmtReaderState} {batch : BatchState} {eof : Bool}

theorem finishBatch_reader :
    (finishBatch scanOpts size schema state batch eof).2.reader = state.reader := by
  unfold finishBatch
  split
  · rfl
  · split
    · rfl
    · simp only
      split
      · rfl
      · split <;> rfl

/-- The lines of the batch are counted when it succeeds. -/
theorem finishBatch_offset :
    (finishBatch scanOpts size schema state batch eof).2.offset =
      if (finishBatch scanOpts size schema state batch eof).1.toOption.isSome then
        state.offset + batch.linesRead else state.offset := by
  unfold finishBatch
  split
  · rfl
  · split
    · rfl
    · rename_i used _
      simp only [rowsToDataframeFilled_eq, Except.mapError]
      cases applyPushdown (filledFrame batch.rows (some used)) scanOpts.predicate
        scanOpts.withColumns with
      | error e => rfl
      | ok df => rfl

/-- A batch succeeds when it is the end of the stream, or its columns take the pushdown. -/
theorem finishBatch_ok
    (h : (eof = true ∧ batch.rows = []) ∨ scanOpts.FitsColumns (rowKeys batch.rows)) :
    (finishBatch scanOpts size schema state batch eof).1.toOption.isSome := by
  unfold finishBatch
  split
  · rfl
  · rename_i hmore
    obtain hpush := h.resolve_left hmore
    split
    · rfl
    · rename_i used _
      have hnames : (filledFrame batch.rows (some used)).columnNames = rowKeys batch.rows :=
        DataFrame.ofKeys_columnNames _ _ _
      rw [← hnames] at hpush
      obtain ⟨out, hout⟩ := applyPushdown_isOk_iff.mpr hpush
      simp only [rowsToDataframeFilled_eq, Except.mapError, hout]
      rfl

end

/-! ## The call -/

variable (self : LazyLogFmtReader)

/-- The stream a call reads from. -/
def stream (state : LogFmtReaderState) : Except PolarsError LineReader :=
  state.reader.elim self.openReader .ok

/-- What the stream still holds. -/
def entries (state : LogFmtReaderState) : List (Except IoError Bytes) :=
  (self.stream state).toOption.elim [] LineReader.lines

/-- The schema predicted for a reader that has none. -/
def predicted : Except PolarsError (Option Schema) :=
  if self.schema.isNone then self.predictSchemaFromFirstLine self.inferSchemaLength else .ok none

/-- What a call parses lines with. -/
def lineOpts : BatchOpts := self.batchOpts (self.schema.or (self.predicted.toOption.elim none id))

/-- The size of a call's batch. -/
def callSize (scanOpts : AnonymousScanArgs) : Option Nat := scanOpts.nRows.or self.batchSize

/-- The call reads a batch: no parallel attempt is made, or it leaves everything to the batches. An
attempt that infers a schema infers the one a batch predicts. -/
def SingleThreaded (scanOpts : AnonymousScanArgs) (sched : Schedule) (state : LogFmtReaderState) :
    Prop :=
  state.reader.isSome ∨ self.useParallel = false ∨ state.offset ≠ 0 ∨
    ∃ schema, self.parallelBatch scanOpts self.schema sched = (schema, .ok none) ∧
      (schema = self.schema ∨ self.schema = none ∧ self.predicted = .ok schema)

/-- The lines a call takes. -/
def callLines (scanOpts : AnonymousScanArgs) (state : LogFmtReaderState) : List Bytes :=
  if state.finished ∨ self.predicted.toOption.isNone then []
  else batchLines self.lineOpts (self.callSize scanOpts) 0 (self.entries state)

/-- The rows a call accumulates. -/
def rawRows (scanOpts : AnonymousScanArgs) (state : LogFmtReaderState) : List Row :=
  if state.finished then []
  else
    match self.stream state, self.predicted with
    | .ok reader, .ok pred =>
        match (self.readBatch (self.callSize scanOpts) (self.schema.or pred) reader).1 with
        | .ok (batch, _) => batch.rows
        | .error _ => []
    | _, _ => []

variable {self} {scanOpts : AnonymousScanArgs} {sched : Schedule} {state : LogFmtReaderState}

theorem wrrapNextBatch_finished (h : state.finished = true) :
    self.wrrapNextBatch scanOpts sched state = (.ok none, state) := by
  unfold wrrapNextBatch
  exact if_pos h

/-- The predicted schema may as well be given. -/
theorem singleBatch_predicted {size : Option Nat} {schema : Option Schema}
    (hnone : self.schema = none) (hpred : self.predicted = .ok schema) :
    self.singleBatch scanOpts size schema state =
      self.singleBatch scanOpts size self.schema state := by
  unfold predicted at hpred
  rw [hnone, if_pos Option.isNone_none] at hpred
  unfold singleBatch
  rw [hnone]
  cases schema with
  | none => rfl
  | some schema => simp [hpred]

theorem wrrapNextBatch_single (h : self.SingleThreaded scanOpts sched state)
    (hgoing : state.finished = false) :
    self.wrrapNextBatch scanOpts sched state =
      self.singleBatch scanOpts (self.callSize scanOpts) self.schema state := by
  unfold wrrapNextBatch
  simp only [hgoing, Bool.false_eq_true, if_false]
  split
  · rename_i hattempt
    obtain ⟨hnone, hparallel, hoffset⟩ := hattempt
    rcases h with hsome | hoff | hne | ⟨schema, hdeclines, hschema⟩
    · rw [Option.isNone_iff_eq_none] at hnone
      rw [hnone] at hsome
      cases hsome
    · rw [hoff] at hparallel
      cases hparallel
    · exact absurd hoffset hne
    · rw [hdeclines]
      rcases hschema with rfl | ⟨hnone, hpred⟩
      · rfl
      · exact singleBatch_predicted hnone hpred
  · rfl

/-- A call that cannot open its stream. -/
theorem singleBatch_unopened {size : Option Nat} {e : PolarsError}
    (h : self.stream state = .error e) :
    self.singleBatch scanOpts size self.schema state = (.error e, state) := by
  unfold singleBatch
  rw [show state.reader.elim self.openReader .ok = .error e from h]

/-- A call whose schema cannot be predicted reads nothing. -/
theorem singleBatch_unpredicted {size : Option Nat} {reader : LineReader} {e : PolarsError}
    (h : self.stream state = .ok reader) (hpred : self.predicted = .error e) :
    self.singleBatch scanOpts size self.schema state =
      (.error e, { state with reader := some reader }) := by
  unfold singleBatch
  rw [show state.reader.elim self.openReader .ok = .ok reader from h]
  simp only [show (if self.schema.isNone = true then
    self.predictSchemaFromFirstLine self.inferSchemaLength else Except.ok none) = .error e
      from hpred]

/-- The two ways a batch is read. -/
theorem singleBatch_cases {size : Option Nat} {reader : LineReader} {pred : Option Schema}
    (h : self.stream state = .ok reader) (hpred : self.predicted = .ok pred) :
    (BatchCompletes self.lineOpts size reader ∧ ∃ eof,
      self.singleBatch scanOpts size self.schema state =
        finishBatch scanOpts size (self.schema.or pred)
          { state with
            reader := some
              ⟨reader.lines.drop (batchLines self.lineOpts size 0 reader.lines).length,
                reader.stuck⟩ }
          ((batchLines self.lineOpts size 0 reader.lines).foldl
            (BatchState.takeLine self.lineOpts) {}) eof ∧
      (eof = true ↔ ¬ size.any (· ≤ ((batchLines self.lineOpts size 0 reader.lines).filter
        self.lineOpts.keeps).length) = true)) ∨
    (¬ BatchCompletes self.lineOpts size reader ∧ ∃ e passed rest,
      self.singleBatch scanOpts size self.schema state =
        (.error e, { state with reader := some ⟨rest, reader.stuck⟩ }) ∧
      reader.lines.drop (batchLines self.lineOpts size 0 reader.lines).length = passed ++ rest ∧
      ∀ line, Except.ok line ∉ passed) := by
  have hopts : self.lineOpts = self.batchOpts (self.schema.or pred) := by
    unfold lineOpts
    rw [hpred]
    rfl
  have hread := readBatch_eq self size (self.schema.or pred) reader
  rw [← hopts] at hread
  unfold singleBatch
  rw [show state.reader.elim self.openReader .ok = .ok reader from h]
  simp only [show (if self.schema.isNone = true then
    self.predictSchemaFromFirstLine self.inferSchemaLength else Except.ok none) = .ok pred
      from hpred,
    hread]
  rcases @parseBatchFromReader_cases _ self.lineOpts size reader with
    ⟨hcompletes, eof, hbatch, heof⟩ | ⟨hfails, e, passed, rest, hbatch, hdrop, hpassed⟩
  · rw [hbatch]
    exact .inl ⟨hcompletes, eof, rfl, heof⟩
  · rw [hbatch]
    exact .inr ⟨hfails, .computeError e, passed, rest, rfl, hdrop, hpassed⟩

end LazyLogFmtReader

end PolarsLogfmt
