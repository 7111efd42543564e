import PolarsLogfmt.Lazy.ParseFrames

/-!
# A batch of the sequential path

`parse_batch_from_reader` of `lazy_logfmt_reader.rs`: lines are read until the batch
has its rows or the stream ends.
-/

namespace PolarsLogfmt

variable [Crates]

/-- What all batches of a reader are parsed with. -/
structure BatchOpts where
  schema : Option Schema := none
  lineFilter : Option LineFilterFn := none
  rowFilter : Option RowFilter := none
  alignedColsCnt : Bool := false

/-- The state of the loop of `parse_batch_from_reader`. -/
structure BatchState where
  rows : List Row := []
  firstRow : Option Row := none
  linesRead : Nat := 0
  columnKeys : List Bytes := []

/-- The keys of an aligned row: foreign ones are dropped when their number is not the one of
the columns, and the first row with a key gives the columns. -/
def alignRow (columnKeys : List Bytes) (row : Row) : Row × List Bytes :=
  let row :=
    if columnKeys ≠ [] ∧ row.size ≠ columnKeys.length then
      row.filter fun key _ => key ∈ columnKeys
    else row
  (row, if columnKeys = [] then row.keys else columnKeys)

/-- What the loop does with a line it has read. -/
def BatchState.takeLine (opts : BatchOpts) (st : BatchState) (line : Bytes) : BatchState :=
  if accepts opts.lineFilter line then
    let row := parseLogfmtLineWithSchema line opts.schema
    let st :=
      { st with
        linesRead := st.linesRead + 1
        firstRow :=
          if opts.schema.isNone ∧ st.firstRow.isNone then some row else st.firstRow }
    if opts.rowFilter.all fun rf => rf row then
      if opts.alignedColsCnt then
        let (row, columnKeys) := alignRow st.columnKeys row
        { st with rows := st.rows ++ [row], columnKeys := columnKeys }
      else { st with rows := st.rows ++ [row] }
    else st
  else st

/-- The loop: the state it ends with and whether that was the end of the stream, or the
error of `read_line`; and the lines left unread. -/
def parseBatchLoop (opts : BatchOpts) (batchSize : Option Nat) (stuck : Option IoError) :
    List (Except IoError Bytes) → BatchState →
      Except PolarsError (BatchState × Bool) × List (Except IoError Bytes)
  | lines, st =>
      if batchSize.any (· ≤ st.rows.length) then (.ok (st, false), lines)
      else
        match lines with
        | [] => (match stuck with
            | some e => .error (.computeError e)
            | none => .ok (st, true), [])
        | .error e :: rest => (.error (.computeError e), rest)
        | .ok line :: rest => parseBatchLoop opts batchSize stuck rest (st.takeLine opts line)

/-- `parse_batch_from_reader`, and the reader it leaves. -/
def parseBatchFromReader (opts : BatchOpts) (batchSize : Option Nat) (reader : LineReader) :
    Except PolarsError (BatchState × Bool) × LineReader :=
  let (result, rest) := parseBatchLoop opts batchSize reader.stuck reader.lines {}
  (result, ⟨rest, reader.stuck⟩)

section turns

variable {opts : BatchOpts} {batchSize : Option Nat} {stuck : Option IoError}
  {lines : List (Except IoError Bytes)} {st : BatchState}

/-- The turns of the loop: the batch is full, the stream has ended, or there is a line. -/
theorem parseBatchLoop_full (h : batchSize.any (· ≤ st.rows.length) = true) :
    parseBatchLoop opts batchSize stuck lines st = (.ok (st, false), lines) := by
  rw [parseBatchLoop.eq_def]
  exact if_pos h

theorem parseBatchLoop_end (h : ¬ batchSize.any (· ≤ st.rows.length) = true) :
    parseBatchLoop opts batchSize none [] st = (.ok (st, true), []) := by
  rw [parseBatchLoop.eq_def]
  exact if_neg h

theorem parseBatchLoop_stuck (h : ¬ batchSize.any (· ≤ st.rows.length) = true) (e : IoError) :
    parseBatchLoop opts batchSize (some e) [] st = (.error (.computeError e), []) := by
  rw [parseBatchLoop.eq_def]
  exact if_neg h

theorem parseBatchLoop_line (h : ¬ batchSize.any (· ≤ st.rows.length) = true) (line : Bytes) :
    parseBatchLoop opts batchSize stuck (.ok line :: lines) st =
      parseBatchLoop opts batchSize stuck lines (st.takeLine opts line) := by
  rw [parseBatchLoop.eq_def]
  exact if_neg h

theorem parseBatchLoop_error (h : ¬ batchSize.any (· ≤ st.rows.length) = true) (e : IoError) :
    parseBatchLoop opts batchSize stuck (.error e :: lines) st =
      (.error (.computeError e), lines) := by
  rw [parseBatchLoop.eq_def]
  exact if_neg h

end turns

/-- A batch that does not end the stream has all its rows: the caller's loop, which goes on
while neither holds, takes one turn. -/
theorem parseBatchLoop_done {opts : BatchOpts} {batchSize : Option Nat} {stuck : Option IoError}
    {lines rest : List (Except IoError Bytes)} {st out : BatchState} {eof : Bool}
    (h : parseBatchLoop opts batchSize stuck lines st = (.ok (out, eof), rest)) :
    eof = true ∨ ∃ n, batchSize = some n ∧ n ≤ out.rows.length := by
  induction lines generalizing st with
  | nil =>
    rw [parseBatchLoop.eq_def] at h
    dsimp only at h
    split at h
    · rename_i hfull
      right
      cases batchSize with
      | none => cases hfull
      | some n =>
        cases h
        exact ⟨n, rfl, by simpa using hfull⟩
    · left
      cases stuck with
      | none =>
        cases h
        rfl
      | some e => cases h
  | cons line lines ih =>
    rw [parseBatchLoop.eq_def] at h
    dsimp only at h
    split at h
    · rename_i hfull
      right
      cases batchSize with
      | none => cases hfull
      | some n =>
        cases h
        exact ⟨n, rfl, by simpa using hfull⟩
    · cases line with
      | error e => cases h
      | ok line => exact ih h

end PolarsLogfmt
