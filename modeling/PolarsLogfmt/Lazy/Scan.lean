import PolarsLogfmt.Lazy.Reader

/-!
# The scan

The `AnonymousScan` of `lazy_logfmt_reader.rs`: `scan` pulls batches from a copy of the
reader until there are none left or the slice is full and stacks them; `schema` and
`scan_logfmt` promise polars the columns.
-/

namespace PolarsLogfmt

variable [Crates]

open Crates

/-! ## How far a reader has got -/

theorem takeLine_linesRead (opts : BatchOpts) (st : BatchState) (line : Bytes) :
    (st.takeLine opts line).linesRead ≤ st.linesRead + 1 := by
  unfold BatchState.takeLine
  split
  · simp only
    split
    · split <;> exact Nat.le_refl _
    · exact Nat.le_refl _
  · exact Nat.le_succ _

/-- A batch that counts lines has taken them from the stream. -/
theorem parseBatchLoop_linesRead {opts : BatchOpts} {batchSize : Option Nat}
    {stuck : Option IoError} {lines rest : List (Except IoError Bytes)} {st out : BatchState}
    {eof : Bool} (h : parseBatchLoop opts batchSize stuck lines st = (.ok (out, eof), rest)) :
    out.linesRead + rest.length ≤ st.linesRead + lines.length := by
  induction lines generalizing st with
  | nil =>
    rw [parseBatchLoop.eq_def] at h
    dsimp only at h
    split at h
    · cases h
      exact Nat.le_refl _
    · cases stuck with
      | none =>
        cases h
        exact Nat.le_refl _
      | some e => cases h
  | cons line lines ih =>
    rw [parseBatchLoop.eq_def] at h
    dsimp only at h
    split at h
    · cases h
      exact Nat.le_refl _
    · cases line with
      | error e => cases h
      | ok line =>
        have hrest := ih h
        have hline := takeLine_linesRead opts st line
        rw [List.length_cons]
        omega

namespace LazyLogFmtReader

/-- The lines left to read, and a turn to find that there are none. -/
def left (self : LazyLogFmtReader) (state : LogFmtReaderState) : Nat :=
  if state.finished then 0
  else
    match state.reader with
    | some reader => reader.lines.length + 1
    | none =>
        match self.openReader with
        | .ok reader => reader.lines.length + 1
        | .error _ => 1

theorem readBatch_linesRead {self : LazyLogFmtReader} {batchSize : Option Nat}
    {schema : Option Schema} {reader reader' : LineReader} {batch : BatchState} {eof : Bool}
    (h : self.readBatch batchSize schema reader = (.ok (batch, eof), reader')) :
    batch.linesRead + reader'.lines.length ≤ reader.lines.length := by
  unfold readBatch at h
  split at h
  · cases h
    exact Nat.le_of_eq (Nat.zero_add _)
  · unfold parseBatchFromReader at h
    simp only [Prod.mk.injEq] at h
    obtain ⟨hloop, rfl⟩ := h
    have := @parseBatchLoop_linesRead _ _ _ _ _ _ _ batch eof (Prod.ext hloop rfl)
    simpa using this

/-- A batch that ends in a frame leaves less to do. -/
theorem finishBatch_some {scanOpts : AnonymousScanArgs} {batchSize : Option Nat}
    {schema : Option Schema} {state state' : LogFmtReaderState} {batch : BatchState} {eof : Bool}
    {df : DataFrame}
    (h : finishBatch scanOpts batchSize schema state batch eof = (.ok (some df), state')) :
    state'.reader = state.reader ∧ (state'.finished = true ∨ batch.linesRead ≠ 0) := by
  unfold finishBatch at h
  split at h
  · cases h
  · split at h
    · cases h
    · simp only at h
      split at h
      · cases h
      · split at h
        · cases h
        · cases h
          refine ⟨rfl, ?_⟩
          by_cases hread : batch.linesRead = 0
          · left
            simp [hread]
          · exact .inr hread

theorem singleBatch_left {self : LazyLogFmtReader} {scanOpts : AnonymousScanArgs}
    {batchSize : Option Nat} {schema : Option Schema} {state state' : LogFmtReaderState}
    {df : DataFrame} (hgoing : state.finished = false)
    (h : self.singleBatch scanOpts batchSize schema state = (.ok (some df), state')) :
    self.left state' < self.left state := by
  unfold singleBatch at h
  split at h
  · cases h
  · rename_i reader hreader
    have hbefore : self.left state = reader.lines.length + 1 := by
      unfold left
      rw [hgoing, if_neg (by simp)]
      cases hr : state.reader with
      | some r =>
        rw [hr] at hreader
        cases hreader
        rfl
      | none =>
        rw [hr] at hreader
        have hopen : self.openReader = .ok reader := hreader
        simp only [hopen]
    rw [hbefore]
    simp only at h
    split at h
    · cases h
    · rename_i pred _
      cases hbatch : self.readBatch batchSize (schema.or pred) reader with
      | mk result reader' =>
      rw [hbatch] at h
      cases result with
      | error e => cases h
      | ok read =>
        obtain ⟨batch, eof⟩ := read
        obtain ⟨hkept, hmore⟩ := finishBatch_some h
        have hread := readBatch_linesRead hbatch
        unfold left
        rcases hmore with hfinished | hmore
        · rw [hfinished, if_pos rfl]
          exact Nat.succ_pos _
        · split
          · exact Nat.succ_pos _
          · rw [hkept]
            simp only
            omega

/-- Every frame of `wrrap_next_batch` leaves less to do. -/
theorem wrrapNextBatch_left {self : LazyLogFmtReader} {scanOpts : AnonymousScanArgs}
    {sched : Schedule} {state state' : LogFmtReaderState} {df : DataFrame}
    (h : self.wrrapNextBatch scanOpts sched state = (.ok (some df), state')) :
    self.left state' < self.left state := by
  unfold wrrapNextBatch at h
  simp only at h
  split at h
  · cases h
  · rename_i hgoing
    have hgoing : state.finished = false := by simpa using hgoing
    split at h
    · split at h
      · cases h
      · cases h
        unfold left
        rw [if_pos rfl, hgoing, if_neg (by simp)]
        split
        · exact Nat.succ_pos _
        · split
          · exact Nat.succ_pos _
          · exact Nat.one_pos
      · exact singleBatch_left hgoing h
    · exact singleBatch_left hgoing h

/-! ## Stacking the batches -/

/-- `{:?}` of a list of names. -/
def debugNames (names : List Bytes) : Bytes :=
  Utf8.ofString "[" ++ (Utf8.ofString ", ").intercalate (names.map debugText) ++ Utf8.ofString "]"

def columnMismatch (acc df : DataFrame) : PolarsError :=
  .computeError (Utf8.ofString "column mismatch between accumulated frame and new batch: acc=" ++
    debugNames acc.columnNames ++ Utf8.ofString " df=" ++ debugNames df.columnNames)

/-- The accumulated frame with the next batch under it. -/
def stackBatch (acc : Option DataFrame) (df : DataFrame) : Except PolarsError DataFrame :=
  match acc with
  | none => .ok df
  | some acc =>
      if acc.columnNames ≠ df.columnNames then .error (columnMismatch acc df)
      else (acc.vstack df).mapError PolarsError.toCompute

/-- The loop of `scan`. -/
def scanLoop (self : LazyLogFmtReader) (scanOpts : AnonymousScanArgs) (sched : Schedule)
    (state : LogFmtReaderState) (acc : Option DataFrame) : Except PolarsError (Option DataFrame) :=
  match _h : self.wrrapNextBatch scanOpts sched state with
  | (.error e, _) => .error e
  | (.ok none, _) => .ok acc
  | (.ok (some df), state') =>
      if df.width = 0 then scanLoop self scanOpts sched state' acc
      else
        match stackBatch acc df with
        | .error e => .error e
        | .ok acc =>
            if scanOpts.nRows.any (· ≤ acc.height) then .ok (some acc)
            else scanLoop self scanOpts sched state' (some acc)
termination_by self.left state
decreasing_by
  · exact wrrapNextBatch_left _h
  · exact wrrapNextBatch_left _h

end LazyLogFmtReader

/-! ## The scan -/

/-- `infer_schema_from_source`: the schema and, for an ssh source, the stream to go on from. -/
def inferSchemaFromSource (source : LogFmtSource) (lineFilter : Option LineFilterFn)
    (inferSchemaLength : Nat) : Except IoError (Option Schema × Option LineReader) :=
  let opened : Except IoError LineReader :=
    match source with
    | .cursor content => .ok (.ofBytes content)
    | .ssh connect => connect
    | .seekable file =>
        match file.cloneHandle .infer with
        | .ok handle => .ok handle.lineReader
        | .error e => .error (Utf8.ofString "SeekableVfsFile clone failed: " ++ e)
    | .units units => .ok units.lineReader
  match opened with
  | .error e => .error e
  | .ok reader =>
      match inferSchemaFromReader reader lineFilter inferSchemaLength with
      | (.error e, _) => .error e
      | (.ok (schema, consumed), rest) =>
          match source with
          | .ssh _ => .ok (schema, some (.chain consumed rest))
          | _ => .ok (schema, none)

namespace LazyLogFmtReader

/-- `clone_with_fresh_handle`. The copy tries the parallel path whether or not the reader
does, and always has a line filter. -/
def cloneWithFreshHandle (self : LazyLogFmtReader) : Except PolarsError LazyLogFmtReader :=
  let copy := { self with
    lineFilter := some (self.lineFilter.getD fun _ => true)
    useParallel := true }
  match self.source with
  | .seekable file =>
      match file.cloneHandle .scan with
      | .ok _ => .ok copy
      | .error e => .error (.computeError (Utf8.ofString "SeekableVfsFile clone failed: " ++ e))
  | _ => .ok copy

/-- The schema a scan reads with, and the stream it goes on from: the reader's own, or what
is inferred. -/
def scanSchema (self : LazyLogFmtReader) (probe : Option LineReader) :
    Except PolarsError (Schema × Option LineReader) :=
  match self.schema with
  | some schema => .ok (schema, probe)
  | none =>
      match inferSchemaFromSource self.source self.lineFilter self.inferSchemaLength with
      | .error e => .error (.computeError e)
      | .ok (none, _) => .error (.computeError (Utf8.ofString "could not infer schema from source"))
      | .ok (some schema, probe) => .ok (schema, probe)

/-- The slice of the frame. -/
def sliceRows (nRows : Option Nat) (df : DataFrame) : DataFrame :=
  match nRows with
  | some n => if n < df.height then df.head n else df
  | none => df

end LazyLogFmtReader

/-- `AnonymousScan::scan`, from the stream in the reader's state. -/
def AnonymousScan.scan (self : LazyLogFmtReader) (scanOpts : AnonymousScanArgs) (sched : Schedule)
    (probe : Option LineReader) : Except PolarsError DataFrame :=
  match self.scanSchema probe with
  | .error e => .error e
  | .ok (schema, probe) =>
      match self.cloneWithFreshHandle with
      | .error e => .error e
      | .ok reader =>
          ({ reader with schema := some schema }.scanLoop scanOpts sched
              { reader := probe } none).map fun acc : Option DataFrame =>
            LazyLogFmtReader.sliceRows scanOpts.nRows (acc.getD .empty)

/-! ## The promise -/

def noLineFound : PolarsError :=
  .computeError (Utf8.ofString
    "no logfmt line found in the source; pass a schema to scan an empty source")

/-- `AnonymousScan::schema`: the columns promised for `infer_schema_length`. -/
def AnonymousScan.schema (self : LazyLogFmtReader) (inferSchemaLength : Option Nat) :
    Except PolarsError (List (Bytes × DataType)) :=
  let inferSchemaLength := inferSchemaLength.getD self.inferSchemaLength
  match self.schema with
  | some schema => .ok (logfmtSchemaToPolarsSchema schema)
  | none =>
      match self.predictSchemaFromFirstLine inferSchemaLength with
      | .error e => .error e
      | .ok (some schema) => .ok (logfmtSchemaToPolarsSchema schema)
      | .ok none =>
          match inferSchemaFromSource self.source self.lineFilter inferSchemaLength with
          | .error e => .error (.computeError e)
          | .ok (some schema, _) => .ok (logfmtSchemaToPolarsSchema schema)
          | .ok (none, _) => .error noLineFound

/-- `LazyLogFmtReader::scan_logfmt`: the reader with its schema fixed, the stream left in its
state, and the columns promised. -/
def LazyLogFmtReader.scanLogfmt (self : LazyLogFmtReader) :
    Except PolarsError (LazyLogFmtReader × Option LineReader × List (Bytes × DataType)) :=
  match self.schema with
  | some schema => .ok (self, none, logfmtSchemaToPolarsSchema schema)
  | none =>
      match inferSchemaFromSource self.source self.lineFilter self.inferSchemaLength with
      | .error e => .error (.computeError e)
      | .ok (none, _) => .error noLineFound
      | .ok (some schema, probe) =>
          .ok ({ self with schema := some schema }, probe, logfmtSchemaToPolarsSchema schema)

end PolarsLogfmt
