import PolarsLogfmt.Misc.SharedCounter
import PolarsLogfmt.Lazy.DataFrameMaker
import PolarsLogfmt.Lazy.InferSchema
import PolarsLogfmt.Lazy.Source

/-!
# A worker of the parallel scan

`parse_frames` of `lazy_logfmt_reader.rs`: a worker reads its frames one after the
other, claims a slot of the slice for each accepted line and pushes the line into
its frame maker. It is a program over the shared slot counter; the lines it
pushes are its events.
-/

namespace PolarsLogfmt

open SharedCounter (Prog)

variable [Crates]

abbrev RowFilter := Row → Bool

/-- `AnonymousScanArgs`: what polars pushes down. -/
structure AnonymousScanArgs where
  nRows : Option Nat := none
  withColumns : Option (List Bytes) := none
  predicate : Option Predicate := none

def applyPredicate (df : DataFrame) : Option Predicate → Except PolarsError DataFrame
  | some pred => (df.filter pred).mapError PolarsError.toCompute
  | none => .ok df

def applyProjection (df : DataFrame) : Option (List Bytes) → Except PolarsError DataFrame
  | some cols => if cols = [] then .ok df else df.select cols
  | none => .ok df

/-- `apply_pushdown`: the predicate, then the projection. -/
def applyPushdown (df : DataFrame) (predicate : Option Predicate)
    (withColumns : Option (List Bytes)) : Except PolarsError DataFrame := do
  let df ← applyPredicate df predicate
  applyProjection df withColumns

/-- What all workers of a scan are given. -/
structure FrameOpts where
  schema : Option Schema := none
  lineFilter : Option LineFilterFn := none
  /-- Handed down to the loop over the lines, which pushes a line before it would ask. -/
  rowFilter : Option RowFilter := none
  predicate : Option Predicate := none
  rowCap : Option Nat := none
  alignedColsCnt : Bool := false
  withColumns : Option (List Bytes) := none

/-- A line a worker has pushed: the frame it is of, and its number in it. -/
structure PushedLine where
  frame : Nat
  number : Nat
  line : Bytes
deriving DecidableEq

/-- What a worker keeps across its frames. -/
structure WorkerState where
  columnKeys : List Bytes := []
  dfMaker : DataFrameMaker

/-- A line that has its slot. `first_row` belongs to the frame; the branch after
`use_df_maker`, which is constantly true, is never reached. -/
def acceptLine (opts : FrameOpts) (firstRow : Option Row) (st : WorkerState) (line : Bytes) :
    Option Row × WorkerState :=
  let firstRow :=
    if firstRow.isNone ∧ opts.schema.isNone then some (parseLogfmtLine line) else firstRow
  let firstRow :=
    if firstRow.isNone ∧ st.columnKeys = [] then some (parseLogfmtLine line) else firstRow
  let columnKeys :=
    if opts.alignedColsCnt ∧ st.columnKeys = [] then
      match firstRow with
      | some row => row.keys
      | none => st.columnKeys
    else st.columnKeys
  let maker := st.dfMaker
  let maker :=
    if opts.alignedColsCnt ∧ maker.columnKeys = [] ∧ columnKeys ≠ [] then
      { maker with columnKeys := columnKeys }
    else maker
  let maker :=
    if maker.schema.isNone then
      match firstRow with
      | some row => { maker with schema := some (inferSchemaFromRow row) }
      | none => maker
    else maker
  (firstRow, { columnKeys := columnKeys, dfMaker := maker.pushLine line })

/-- The loop over the lines of a frame. The flag says that the slice was full. -/
def frameLoop (opts : FrameOpts) (frame : Nat) :
    List (Except IoError Bytes) → Nat → Option Row → WorkerState →
      Prog PushedLine (Except PolarsError (WorkerState × Bool))
  | [], _, _, st => .done (.ok (st, false))
  | .error e :: _, _, _, _ => .done (.error (.computeError e))
  | .ok line :: lines, number, firstRow, st =>
      if accepts opts.lineFilter line then
        let next := acceptLine opts firstRow st line
        let push := Prog.emit ⟨frame, number, line⟩
          (frameLoop opts frame lines (number + 1) next.1 next.2)
        match opts.rowCap with
        | some n => .fetchAdd fun slot => if n ≤ slot then .done (.ok (st, true)) else push
        | none => push
      else frameLoop opts frame lines (number + 1) firstRow st

/-- `process_one`: a frame, unless the slice is full already. -/
def processOne {F : Type} [FrameBytes F] (opts : FrameOpts) (range : FrameRange) (handle : F)
    (st : WorkerState) : Prog PushedLine (Except PolarsError (WorkerState × Bool × F)) :=
  let read : Prog PushedLine (Except PolarsError (WorkerState × Bool × F)) :=
    match FrameBytes.readFrame handle range with
    | (.error e, _) => .done (.error (.computeError e))
    | (.ok none, handle) => .done (.ok (st, false, handle))
    | (.ok (some (_, buf)), handle) => do
        let result ← frameLoop opts range.idx (textLines buf) 0 none st
        return result.map fun (st, capped) => (st, capped, handle)
  match opts.rowCap with
  | some n => .load fun slots => if n ≤ slots then .done (.ok (st, true, handle)) else read
  | none => read

/-- An accepted line is pushed once it has claimed a slot. -/
theorem frameLoop_accepted {opts : FrameOpts} {line : Bytes}
    (h : accepts opts.lineFilter line = true)
    (frame : Nat) (lines : List (Except IoError Bytes)) (number : Nat) (firstRow : Option Row)
    (st : WorkerState) :
    frameLoop opts frame (.ok line :: lines) number firstRow st =
      Prog.claimSlot opts.rowCap (.done (.ok (st, true)))
        (.emit ⟨frame, number, line⟩
          (frameLoop opts frame lines (number + 1) (acceptLine opts firstRow st line).1
            (acceptLine opts firstRow st line).2)) := by
  rw [frameLoop, if_pos h]
  cases opts.rowCap with
  | none => rfl
  | some n => rfl

theorem frameLoop_refused {opts : FrameOpts} {line : Bytes}
    (h : ¬ accepts opts.lineFilter line = true) (frame : Nat) (lines : List (Except IoError Bytes))
    (number : Nat) (firstRow : Option Row) (st : WorkerState) :
    frameLoop opts frame (.ok line :: lines) number firstRow st =
      frameLoop opts frame lines (number + 1) firstRow st := by
  rw [frameLoop, if_neg h]

section

variable {F : Type} [FrameBytes F] {range : FrameRange} {handle handle' : F}

/-- A frame that is entered: the loop over its lines. A frame beyond the end of the data has
none. -/
theorem processOne_read {found : Option (Nat × Bytes)}
    (h : FrameBytes.readFrame handle range = (.ok found, handle')) (opts : FrameOpts)
    (st : WorkerState) :
    processOne opts range handle st =
      Prog.unlessFull opts.rowCap (.done (.ok (st, true, handle)))
        (frameLoop opts range.idx (textLines ((found.map Prod.snd).getD [])) 0 none st >>=
          fun result => .done (result.map fun r => (r.1, r.2, handle'))) := by
  unfold processOne
  rw [h]
  cases found with
  | none => cases opts.rowCap <;> rfl
  | some frame => cases opts.rowCap <;> rfl

theorem processOne_failed {e : IoError}
    (h : FrameBytes.readFrame handle range = (.error e, handle')) (opts : FrameOpts)
    (st : WorkerState) :
    processOne opts range handle st =
      Prog.unlessFull opts.rowCap (.done (.ok (st, true, handle)))
        (.done (.error (.computeError e))) := by
  unfold processOne
  rw [h]
  cases opts.rowCap <;> rfl

end

/-- What a worker makes of its frame: with a slice the predicate and the projection are
left to the caller, and a frame without columns or rows is replaced by the empty one. -/
def finishFrame (opts : FrameOpts) (df : DataFrame) : Except PolarsError DataFrame :=
  (if 0 < df.width ∧ opts.rowCap.isNone then applyPushdown df opts.predicate opts.withColumns
    else .ok df).map fun df => if 0 < df.width ∧ 0 < df.height then df else .empty

/-- What a worker returns after its last frame. -/
def finishWorker (opts : FrameOpts) (st : WorkerState) : Except PolarsError DataFrame := do
  let df ← st.dfMaker.toDf
  finishFrame opts df

/-- The loop over the frames of a worker. Frames are made of the last one, or of the one
the slice ended in. -/
def framesLoop {F : Type} [FrameBytes F] (opts : FrameOpts) :
    List FrameRange → F → WorkerState → Prog PushedLine (Except PolarsError DataFrame)
  | [], _, _ => .done (.ok .empty)
  | range :: ranges, handle, st => do
      match ← processOne opts range handle st with
      | .error e => .done (.error e)
      | .ok (st, capped, handle) =>
          if ranges ≠ [] ∧ capped = false then framesLoop opts ranges handle st
          else .done (finishWorker opts st)

/-- `parse_frames`. -/
def parseFrames {F : Type} [FrameBytes F] (opts : FrameOpts) (ranges : List FrameRange)
    (handle : F) :
    Prog PushedLine (Except PolarsError DataFrame) :=
  framesLoop opts ranges handle { dfMaker := { schema := opts.schema } }

end PolarsLogfmt
