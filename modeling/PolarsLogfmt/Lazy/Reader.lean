import PolarsLogfmt.Lazy.ParseBatch
import PolarsLogfmt.Lazy.RowsToDataframe

/-!
# The reader

`LazyLogFmtReader` of `lazy_logfmt_reader.rs`: the parallel attempt, the sequential
batches, and `next_batch`, which tries the one and then the other. What the
threads of the parallel attempt do in which order is a `Schedule`.
-/

namespace PolarsLogfmt

open SharedCounter (Prog outcome)

variable [Crates]

open Crates

/-- `LogFmtReaderState`. -/
structure LogFmtReaderState where
  reader : Option LineReader := none
  offset : Nat := 0
  finished : Bool := false

/-- `LazyLogFmtReader`, without its state. -/
structure LazyLogFmtReader where
  source : LogFmtSource
  batchSize : Option Nat := none
  rowFilter : Option RowFilter := none
  lineFilter : Option LineFilterFn := none
  schema : Option Schema := none
  alignedColsCnt : Bool := false
  nThreads : Option Nat := none
  useParallel : Bool := true
  /-- `DEFAULT_INFER_SCHEMA_LENGTH` is 1. -/
  inferSchemaLength : Nat := 1

/-- The order in which the workers take their steps, and which of several errors
`collect` returns. -/
structure Schedule where
  steps : List Nat := []
  error : Nat := 0

namespace LazyLogFmtReader

/-- `max_inflight`. -/
def maxInflight (self : LazyLogFmtReader) : Nat := self.nThreads.getD currentNumThreads

/-- `predict_schema_from_first_line_handle`. -/
def predictSchemaFromHandle (self : LazyLogFmtReader) (probe : LineReader)
    (inferSchemaLength : Nat) :
    Except PolarsError (Option Schema) :=
  match (inferSchemaFromReader probe self.lineFilter inferSchemaLength).1 with
  | .error e => .error (.computeError e)
  | .ok (schema, _) => .ok schema

/-- `predict_schema_from_first_line`. -/
def predictSchemaFromFirstLine (self : LazyLogFmtReader) (inferSchemaLength : Nat) :
    Except PolarsError (Option Schema) :=
  match self.source with
  | .seekable file =>
      match file.cloneHandle .predict with
      | .error _ => .ok none
      | .ok probe =>
          let (frames, probe) := framesFromSeekable file probe
          match probe.seek 0 with
          | (.error e, _) => .error (.computeError e)
          | (.ok (), probe) =>
              if frames.isNone then .ok none
              else self.predictSchemaFromHandle probe.lineReader inferSchemaLength
  | .units units => self.predictSchemaFromHandle units.lineReader inferSchemaLength
  | _ => .ok none

/-! ## The parallel attempt -/

/-- Where the workers read from, the frames, and the probe as the search for the frames
leaves it; `none` when the source has no frames. -/
def parallelOrigin (self : LazyLogFmtReader) :
    Option (FrameOrigin × List FrameRange × LineReader) :=
  match self.source with
  | .seekable file =>
      match file.cloneHandle .frames with
      | .error _ => none
      | .ok probe =>
          match framesFromSeekable file probe with
          | (none, _) => none
          | (some frames, probe) => some (.file file, frames, probe.lineReader)
  | .units units =>
      match units.countUnits with
      | none => none
      | some count =>
          some (.units units, (List.range count).map fun idx => { idx := idx }, units.lineReader)
  | _ => none

/-- `CLONE_HANDLE_FAILED_MSG`. -/
def cloneHandleFailedMsg : Bytes := Utf8.ofString "clone_handle failed"

/-- The number of workers. -/
def workerCount (maxInflight framesLen : Nat) : Nat := min 8 (min maxInflight framesLen)

/-- `chunk_size`. -/
def chunkSize (framesLen workers : Nat) : Nat := (framesLen + workers - 1) / workers

/-- The workers that have frames, each with its chunk. -/
def workerChunks (frames : List FrameRange) (workers : Nat) : List (Nat × List FrameRange) :=
  let chunk := chunkSize frames.length workers
  ((List.range workers).filter fun w => w * chunk < frames.length).map fun w =>
    (w, Scan.slice frames (w * chunk) (min (w * chunk + chunk) frames.length))

/-- A worker: a handle of its own, and its chunk of the frames. -/
def workerProg (opts : FrameOpts) (origin : FrameOrigin) (worker : Nat × List FrameRange) :
    Prog PushedLine (Except PolarsError DataFrame) :=
  match origin.cloneHandle worker.1 with
  | .ok handle => parseFrames opts worker.2 handle
  | .error _ => .done (.error (.computeError cloneHandleFailedMsg))

def resultError : Except PolarsError DataFrame → Option PolarsError
  | .error e => some e
  | .ok _ => none

/-- The filter before `collect`: a frame without rows is dropped. -/
def resultFrame : Except PolarsError DataFrame → Option DataFrame
  | .error _ => none
  | .ok df => if 0 < df.height then some df else none

/-- `collect`: the frames with rows, in the order of the workers, or one of the errors. -/
def collectResults (results : List (Except PolarsError DataFrame)) (pick : Nat) :
    Except PolarsError (List DataFrame) :=
  let errors := results.filterMap resultError
  match errors[pick % errors.length]? with
  | some e => .error e
  | none => .ok (results.filterMap resultFrame)

/-- What the workers are given. -/
def frameOpts (self : LazyLogFmtReader) (scanOpts : AnonymousScanArgs) (schema : Option Schema) :
    FrameOpts where
  schema := schema
  lineFilter := self.lineFilter
  rowFilter := self.rowFilter
  predicate := scanOpts.predicate
  rowCap := scanOpts.nRows
  alignedColsCnt := self.alignedColsCnt
  withColumns := scanOpts.withColumns

/-- The frame `_parallel_batch` makes of the workers' results; `none` makes the caller fall
back to the sequential path. -/
def stackResults (scanOpts : AnonymousScanArgs) (results : List (Except PolarsError DataFrame))
    (pick : Nat) : Except PolarsError (Option DataFrame) :=
  match collectResults results pick with
  | .error e => if cloneHandleFailedMsg <:+: e.text then .ok none else .error e
  | .ok [] => .ok none
  | .ok (df :: dfs) =>
      match DataFrame.accumulateVertical df dfs with
      | .error _ => .ok none
      | .ok df =>
          match scanOpts.nRows with
          | some _ => (applyPushdown df scanOpts.predicate scanOpts.withColumns).map some
          | none => .ok (some df)

/-- `_parallel_batch`: the schema, inferred if there was none, and the frame. -/
def parallelBatch (self : LazyLogFmtReader) (scanOpts : AnonymousScanArgs) (schema : Option Schema)
    (sched : Schedule) : Option Schema × Except PolarsError (Option DataFrame) :=
  match self.parallelOrigin with
  | none => (schema, .ok none)
  | some (origin, frames, probe) =>
      match if schema.isNone then self.predictSchemaFromHandle probe self.inferSchemaLength
          else .ok none with
      | .error e => (schema, .error e)
      | .ok pred =>
          let schema := schema.or pred
          let workers := workerCount self.maxInflight frames.length
          if workers = 0 then (schema, .ok none)
          else
            let progs := (workerChunks frames workers).map
              (workerProg (self.frameOpts scanOpts schema) origin)
            let results := (outcome progs sched.steps).map Prod.fst
            (schema, stackResults scanOpts results sched.error)

/-! ## The sequential path -/

/-- The stream a batch is read from when there is none yet. -/
def openReader (self : LazyLogFmtReader) : Except PolarsError LineReader :=
  match self.source with
  | .cursor content => .ok (.ofBytes content)
  | .ssh connect => connect.mapError .computeError
  | .seekable file =>
      match file.cloneHandle .lines with
      | .ok handle => .ok handle.lineReader
      | .error e => .error (.computeError (Utf8.ofString "SeekableVfsFile clone failed: " ++ e))
  | .units units => .ok units.lineReader

/-- What the batches are parsed with. -/
def batchOpts (self : LazyLogFmtReader) (schema : Option Schema) : BatchOpts where
  schema := schema
  lineFilter := self.lineFilter
  rowFilter := self.rowFilter
  alignedColsCnt := self.alignedColsCnt

/-- The rows of one batch. A batch of no rows reads nothing; any other takes one turn
(`parseBatchLoop_done`). -/
def readBatch (self : LazyLogFmtReader) (batchSize : Option Nat) (schema : Option Schema)
    (reader : LineReader) : Except PolarsError (BatchState × Bool) × LineReader :=
  if batchSize = some 0 then (.ok ({}, false), reader)
  else parseBatchFromReader (self.batchOpts schema) batchSize reader

/-- A frame of at most `batch_size` rows. -/
def capBatch (batchSize : Option Nat) (df : DataFrame) : DataFrame :=
  match batchSize with
  | some bs => if bs < df.height then df.head bs else df
  | none => df

/-- `single_batch` once the rows are read: the frame, and the state left behind. -/
def finishBatch (scanOpts : AnonymousScanArgs) (batchSize : Option Nat) (schema : Option Schema)
    (state : LogFmtReaderState) (batch : BatchState) (eof : Bool) :
    Except PolarsError (Option DataFrame) × LogFmtReaderState :=
  if eof ∧ batch.rows = [] then
    (.ok none, { state with offset := state.offset + batch.linesRead, finished := true })
  else
    match schema.or (batch.firstRow.map inferSchemaFromRow) with
    | none =>
        (.ok none,
          { state with
            offset := state.offset + batch.linesRead
            finished := state.finished || batch.linesRead == 0 })
    | some usedSchema =>
        let state :=
          { state with
            finished := state.finished || scanOpts.nRows.any (· ≤ batch.rows.length) }
        match (rowsToDataframeFilled batch.rows (some usedSchema)).mapError
          PolarsError.toCompute with
        | .error e => (.error e, state)
        | .ok df =>
            match applyPushdown df scanOpts.predicate scanOpts.withColumns with
            | .error e => (.error e, state)
            | .ok df =>
                (.ok (some (capBatch batchSize df)),
                  { state with
                    offset := state.offset + batch.linesRead
                    finished := state.finished || batch.linesRead == 0 })

/-- `single_batch`. -/
def singleBatch (self : LazyLogFmtReader) (scanOpts : AnonymousScanArgs) (batchSize : Option Nat)
    (schema : Option Schema) (state : LogFmtReaderState) :
    Except PolarsError (Option DataFrame) × LogFmtReaderState :=
  match state.reader.elim self.openReader .ok with
  | .error e => (.error e, state)
  | .ok reader =>
      let state := { state with reader := some reader }
      match (if schema.isNone then self.predictSchemaFromFirstLine self.inferSchemaLength
          else .ok none) with
      | .error e => (.error e, state)
      | .ok pred =>
          let schema := schema.or pred
          let (result, reader) := self.readBatch batchSize schema reader
          let state := { state with reader := some reader }
          match result with
          | .error e => (.error e, state)
          | .ok (batch, eof) => finishBatch scanOpts batchSize schema state batch eof

/-- `wrrap_next_batch`. -/
def wrrapNextBatch (self : LazyLogFmtReader) (scanOpts : AnonymousScanArgs) (sched : Schedule)
    (state : LogFmtReaderState) : Except PolarsError (Option DataFrame) × LogFmtReaderState :=
  let batchSize := scanOpts.nRows.or self.batchSize
  if state.finished then (.ok none, state)
  else if state.reader.isNone ∧ self.useParallel ∧ state.offset = 0 then
    match self.parallelBatch scanOpts self.schema sched with
    | (_, .error e) => (.error e, state)
    | (_, .ok (some df)) => (.ok (some df), { state with finished := true })
    | (schema, .ok none) => self.singleBatch scanOpts batchSize schema state
  else self.singleBatch scanOpts batchSize self.schema state

end LazyLogFmtReader

end PolarsLogfmt
