import PolarsLogfmt.Misc.Batches
import PolarsLogfmt.Lazy.BatchLines
import PolarsLogfmt.Lazy.Pushdown
import PolarsLogfmt.Lazy.Scan

/-!
# The batches of a scan

`scanBatches` cuts the kept lines of a stream into the batches the sequential path
makes of them, and `scanLoop_eq` says that the loop of `scan` stacks the frames of
these batches. What the sequential path does is read off from here on.
-/

namespace PolarsLogfmt

variable [Crates]

open LazyLogFmtReader (singleBatch finishBatch capBatch stackBatch scanLoop)

/-! ## The frames of the batches -/

/-- The frame of a batch of kept lines. -/
def batchFrame (scanOpts : AnonymousScanArgs) (opts : BatchOpts) (lines : List Bytes) :
    Except PolarsError DataFrame :=
  applyPushdown (filledFrame (batchRows opts lines) opts.schema) scanOpts.predicate
    scanOpts.withColumns

theorem filledFrame_height_le (rows : List Row) (schema : Option Schema) :
    (filledFrame rows schema).height ≤ rows.length := by
  show (if rowKeys rows = [] then 0 else rows.length) ≤ rows.length
  split
  · exact Nat.zero_le _
  · exact Nat.le_refl _

theorem batchFrame_height_le {scanOpts : AnonymousScanArgs} {opts : BatchOpts} {lines : List Bytes}
    {df : DataFrame} (h : batchFrame scanOpts opts lines = .ok df) : df.height ≤ lines.length := by
  have hle := filledFrame_height_le (batchRows opts lines) opts.schema
  rw [length_batchRows] at hle
  exact (applyPushdown_height_le h).trans hle

/-- The batches the sequential path makes of the kept lines. A slice is one batch; a batch
size of 0 gives one batch of no rows. -/
def scanBatches (nRows batchSize : Option Nat) (lines : List Bytes) : List (List Bytes) :=
  match nRows, batchSize with
  | some n, _ => if n = 0 then [[]] else if lines = [] then [] else [lines.take n]
  | none, some n => if n = 0 then [[]] else Batches.batches n lines
  | none, none => if lines = [] then [] else [lines]

omit [Crates] in
theorem scanBatches_zero {nRows batchSize : Option Nat} (h : nRows.or batchSize = some 0)
    (lines : List Bytes) : scanBatches nRows batchSize lines = [[]] := by
  unfold scanBatches
  rcases Option.or_eq_some_iff.mp h with h | ⟨h, h'⟩
  · simp [h]
  · simp [h, h']

omit [Crates] in
theorem scanBatches_nil {nRows batchSize : Option Nat} (h : nRows.or batchSize ≠ some 0) :
    scanBatches nRows batchSize [] = [] := by
  unfold scanBatches
  cases nRows with
  | some n =>
    have hn : n ≠ 0 := fun hzero => h (congrArg some hzero)
    simp [hn]
  | none =>
    cases batchSize with
    | some n =>
      have hn : n ≠ 0 := fun hzero => h (congrArg some hzero)
      simp [hn]
    | none => rfl

omit [Crates] in
/-- The first batch and those after it, of which a slice has none. -/
theorem scanBatches_cons {nRows batchSize : Option Nat} {n : Nat} (h : nRows.or batchSize = some n)
    (hn : n ≠ 0) {lines : List Bytes} (hnil : lines ≠ []) :
    scanBatches nRows batchSize lines =
      lines.take n :: if nRows.isSome then [] else scanBatches nRows batchSize (lines.drop n) := by
  rcases Option.or_eq_some_iff.mp h with rfl | ⟨rfl, rfl⟩
  · rw [scanBatches, if_neg hn, if_neg hnil]
    rfl
  · rw [scanBatches, if_neg hn, Batches.batches_of_ne_nil (Nat.pos_of_ne_zero hn) hnil,
      Option.isSome_none, if_neg Bool.false_ne_true, scanBatches, if_neg hn]

/-- The frames of the batches under each other; batches without columns are skipped. -/
def stackBatches (scanOpts : AnonymousScanArgs) (opts : BatchOpts) :
    Option DataFrame → List (List Bytes) → Except PolarsError (Option DataFrame)
  | acc, [] => .ok acc
  | acc, batch :: rest =>
      match batchFrame scanOpts opts batch with
      | .error e => .error e
      | .ok df =>
          if df.width = 0 then stackBatches scanOpts opts acc rest
          else
            match stackBatch acc df with
            | .error e => .error e
            | .ok acc =>
                if scanOpts.nRows.any (· ≤ acc.height) then .ok (some acc)
                else stackBatches scanOpts opts (some acc) rest

/-- One batch is put under nothing. -/
theorem stackBatches_singleton (scanOpts : AnonymousScanArgs) (opts : BatchOpts)
    (batch : List Bytes) :
    stackBatches scanOpts opts none [batch] =
      (batchFrame scanOpts opts batch).map fun df => if df.width = 0 then none else some df := by
  rw [stackBatches]
  cases batchFrame scanOpts opts batch with
  | error e => rfl
  | ok df =>
    simp only [stackBatches, stackBatch, Except.map]
    split
    · rfl
    · split <;> rfl

/-! ## One turn of the loop -/

/-- The loop of `scan`, one turn. -/
theorem scanLoop_turn (self : LazyLogFmtReader) (scanOpts : AnonymousScanArgs) (sched : Schedule)
    (state : LogFmtReaderState) (acc : Option DataFrame) :
    scanLoop self scanOpts sched state acc =
      match self.wrrapNextBatch scanOpts sched state with
      | (.error e, _) => .error e
      | (.ok none, _) => .ok acc
      | (.ok (some df), state') =>
          if df.width = 0 then scanLoop self scanOpts sched state' acc
          else
            match stackBatch acc df with
            | .error e => .error e
            | .ok acc =>
                if scanOpts.nRows.any (· ≤ acc.height) then .ok (some acc)
                else scanLoop self scanOpts sched state' (some acc) := by
  rw [scanLoop]
  split
  · rename_i h
    exact h ▸ rfl
  · rename_i h
    exact h ▸ rfl
  · rename_i h
    exact h ▸ rfl

theorem scanLoop_finished (self : LazyLogFmtReader) (scanOpts : AnonymousScanArgs)
    (sched : Schedule) {state : LogFmtReaderState} (h : state.finished = true)
    (acc : Option DataFrame) : scanLoop self scanOpts sched state acc = .ok acc := by
  rw [scanLoop_turn, LazyLogFmtReader.wrrapNextBatch, if_pos h]

/-- With a stream and a schema the next batch is read from the stream. -/
theorem wrrapNextBatch_open {self : LazyLogFmtReader} {schema : Schema}
    (hschema : self.schema = some schema) (scanOpts : AnonymousScanArgs) (sched : Schedule)
    {state : LogFmtReaderState} {reader : LineReader} (hreader : state.reader = some reader)
    (hgoing : state.finished = false) :
    self.wrrapNextBatch scanOpts sched state =
      match self.readBatch (scanOpts.nRows.or self.batchSize) (some schema) reader with
      | (.error e, reader) => (.error e, { state with reader := some reader })
      | (.ok (batch, eof), reader) =>
          finishBatch scanOpts (scanOpts.nRows.or self.batchSize) (some schema)
            { state with reader := some reader } batch eof := by
  unfold LazyLogFmtReader.wrrapNextBatch singleBatch
  simp only [hgoing, hreader, hschema, Option.isNone_some, Bool.false_eq_true, false_and, if_false,
    Option.elim_some, Option.some_or]
  rcases self.readBatch (scanOpts.nRows.or self.batchSize) (some schema) reader
    with ⟨_ | _, _⟩ <;> rfl

/-- A batch with rows, or one that is not the last, ends in its frame. -/
theorem finishBatch_frame {scanOpts : AnonymousScanArgs} {batchSize : Option Nat} {opts : BatchOpts}
    {schema : Schema} (hschema : opts.schema = some schema) {state : LogFmtReaderState}
    {batch : BatchState} {eof : Bool} {lines : List Bytes}
    (hrows : batch.rows = batchRows opts lines)
    (hmore : ¬ (eof = true ∧ lines = [])) (hsize : ∀ n ∈ batchSize, lines.length ≤ n) :
    finishBatch scanOpts batchSize (some schema) state batch eof =
      match batchFrame scanOpts opts lines with
      | .error e =>
          (.error e,
            { state with
              finished := state.finished || scanOpts.nRows.any (· ≤ lines.length) })
      | .ok df =>
          (.ok (some df),
            { state with
              offset := state.offset + batch.linesRead
              finished := (state.finished || scanOpts.nRows.any (· ≤ lines.length)) ||
                batch.linesRead == 0 }) := by
  have hnil : batch.rows = [] ↔ lines = [] := by
    rw [hrows, ← List.length_eq_zero_iff, length_batchRows, List.length_eq_zero_iff]
  rw [← hnil] at hmore
  unfold finishBatch
  rw [if_neg hmore]
  have hpush : applyPushdown (filledFrame (batchRows opts lines) (some schema)) scanOpts.predicate
      scanOpts.withColumns = batchFrame scanOpts opts lines := by rw [batchFrame, hschema]
  simp only [Option.some_or, hrows, length_batchRows, rowsToDataframeFilled_eq, Except.mapError,
    hpush]
  cases hframe : batchFrame scanOpts opts lines with
  | error e => rfl
  | ok df =>
    have hheight := batchFrame_height_le hframe
    have hcap : capBatch batchSize df = df := by
      unfold capBatch
      cases batchSize with
      | none => rfl
      | some n =>
        have := hsize n rfl
        exact if_neg (by omega)
    simp only [hcap]

/-! ## The loop -/

/-- The loop goes on from a batch that gave a frame. -/
theorem scanLoop_batch {self : LazyLogFmtReader} {scanOpts : AnonymousScanArgs} {sched : Schedule}
    {schema : Schema} {state next : LogFmtReaderState} {batch : List Bytes}
    {rest : List (List Bytes)} {acc : Option DataFrame} {failed : LogFmtReaderState}
    (h : self.wrrapNextBatch scanOpts sched state =
      match batchFrame scanOpts (self.batchOpts (some schema)) batch with
      | .error e => (.error e, failed)
      | .ok df => (.ok (some df), next))
    (hrest : ∀ acc, scanLoop self scanOpts sched next acc =
      stackBatches scanOpts (self.batchOpts (some schema)) acc rest) :
    scanLoop self scanOpts sched state acc =
      stackBatches scanOpts (self.batchOpts (some schema)) acc (batch :: rest) := by
  rw [scanLoop_turn, h, stackBatches]
  cases batchFrame scanOpts (self.batchOpts (some schema)) batch with
  | error e => rfl
  | ok df =>
    simp only [hrest]

/-- The batch of a stream of readable lines, and what is left of it. -/
theorem wrrapNextBatch_readable {self : LazyLogFmtReader} {schema : Schema}
    (hschema : self.schema = some schema) (scanOpts : AnonymousScanArgs) (sched : Schedule)
    {lines : List Bytes} {state : LogFmtReaderState}
    (hreader : state.reader = some (.readable lines)) (hgoing : state.finished = false)
    {opts : BatchOpts} (hopts : self.batchOpts (some schema) = opts) :
    ∃ (batch : BatchState) (eof : Bool) (rest : List Bytes),
      self.wrrapNextBatch scanOpts sched state =
        finishBatch scanOpts (scanOpts.nRows.or self.batchSize) (some schema)
          { state with reader := some (.readable rest) } batch eof ∧
      batch.rows.length ≤ batch.linesRead ∧
      match scanOpts.nRows.or self.batchSize with
      | none =>
          batch.rows = batchRows opts (lines.filter opts.keeps) ∧ eof = true ∧ rest = []
      | some n =>
          batch.rows = batchRows opts ((lines.filter opts.keeps).take n) ∧
            rest.filter opts.keeps = (lines.filter opts.keeps).drop n ∧
            (eof = true ↔ (lines.filter opts.keeps).length < n) ∧
            (n = 0 → batch.linesRead = 0) := by
  have hzero : ({} : BatchState).rows.length ≤ ({} : BatchState).linesRead := Nat.le_refl 0
  rw [wrrapNextBatch_open hschema scanOpts sched hreader hgoing]
  generalize scanOpts.nRows.or self.batchSize = size
  obtain ⟨left, eof, hlines, hbatch, heof⟩ := @parseBatchFromReader_readable _ opts size lines
  rw [readBatch_eq, hopts, hbatch]
  refine ⟨_, eof, left, rfl, rows_le_linesRead opts hzero _, ?_⟩
  rw [foldl_takeLine_eq]
  cases size with
  | none =>
    rw [batchLines_all] at hlines ⊢
    refine ⟨rfl, heof.mpr (by simp), ?_⟩
    exact List.self_eq_append_right.mp hlines
  | some n =>
    obtain ⟨left', hlines', htaken, hleft⟩ := @batchLines_readable _ opts n lines
    obtain rfl : left' = left := List.append_cancel_left (hlines'.symm.trans hlines)
    rw [htaken] at heof ⊢
    refine ⟨rfl, hleft, ?_, ?_⟩
    · rw [heof, Option.any_some, decide_eq_true_eq, List.length_take]
      omega
    · rintro rfl
      rw [batchLines_full rfl]
      rfl

/-- The loop ends when no kept line is left. -/
theorem finishBatch_none {scanOpts : AnonymousScanArgs} {batchSize : Option Nat}
    {schema : Option Schema} {state : LogFmtReaderState} {batch : BatchState}
    (hrows : batch.rows = []) :
    ∃ state', finishBatch scanOpts batchSize schema state batch true = (.ok none, state') := by
  unfold finishBatch
  rw [if_pos ⟨rfl, hrows⟩]
  exact ⟨_, rfl⟩

/-- A turn that ends in the frame of `taken`: the loop stacks it and goes on with what the
state it leaves gives. -/
theorem scanLoop_finishBatch {self : LazyLogFmtReader} {scanOpts : AnonymousScanArgs}
    {sched : Schedule} {schema : Schema} {state reading : LogFmtReaderState} {batch : BatchState}
    {eof : Bool} {taken : List Bytes} {rest : List (List Bytes)} {acc : Option DataFrame}
    (hturn : self.wrrapNextBatch scanOpts sched state =
      finishBatch scanOpts (scanOpts.nRows.or self.batchSize) (some schema) reading batch eof)
    (hgoing : reading.finished = false)
    (hrows : batch.rows = batchRows (self.batchOpts (some schema)) taken)
    (hmore : ¬ (eof = true ∧ taken = []))
    (hsize : ∀ n ∈ scanOpts.nRows.or self.batchSize, taken.length ≤ n)
    (hrest : ∀ acc,
      scanLoop self scanOpts sched
          { reading with
            offset := reading.offset + batch.linesRead
            finished := scanOpts.nRows.any (· ≤ taken.length) || batch.linesRead == 0 } acc =
        stackBatches scanOpts (self.batchOpts (some schema)) acc rest) :
    scanLoop self scanOpts sched state acc =
      stackBatches scanOpts (self.batchOpts (some schema)) acc (taken :: rest) := by
  have hframe := @finishBatch_frame _ scanOpts _ (self.batchOpts (some schema)) _ rfl reading
    batch eof taken hrows hmore hsize
  rw [hgoing, Bool.false_or] at hframe
  exact scanLoop_batch (hturn.trans hframe) hrest

/-- A turn that ends without a kept line ends the loop. -/
theorem scanLoop_ended {self : LazyLogFmtReader} {scanOpts : AnonymousScanArgs} {sched : Schedule}
    {schema : Option Schema} {state reading : LogFmtReaderState} {batchSize : Option Nat}
    {batch : BatchState}
    (hturn : self.wrrapNextBatch scanOpts sched state =
      finishBatch scanOpts batchSize schema reading batch true)
    (hrows : batch.rows = []) (acc : Option DataFrame) :
    scanLoop self scanOpts sched state acc = .ok acc := by
  obtain ⟨state', hnone⟩ := @finishBatch_none _ scanOpts batchSize schema reading batch hrows
  rw [scanLoop_turn, hturn, hnone]

theorem linesRead_ne_zero {opts : BatchOpts} {batch : BatchState} {taken : List Bytes}
    (hread : batch.rows.length ≤ batch.linesRead) (hrows : batch.rows = batchRows opts taken)
    (hne : taken ≠ []) : (batch.linesRead == 0) = false := by
  rw [hrows, length_batchRows] at hread
  have hpos := List.length_pos_of_ne_nil hne
  rw [beq_eq_false_iff_ne]
  omega

/-- The loop of `scan` over readable lines stacks the frames of the batches of the kept ones. -/
theorem scanLoop_eq {self : LazyLogFmtReader} {schema : Schema}
    (hschema : self.schema = some schema)
    (scanOpts : AnonymousScanArgs) (sched : Schedule) (lines : List Bytes) (offset : Nat)
    (acc : Option DataFrame) :
    scanLoop self scanOpts sched { reader := some (.readable lines), offset := offset } acc =
      stackBatches scanOpts (self.batchOpts (some schema)) acc
        (scanBatches scanOpts.nRows self.batchSize
          (lines.filter (self.batchOpts (some schema)).keeps)) := by
  -- by induction on the number of kept lines; a turn leaves those after its batch
  induction hlen : (lines.filter (self.batchOpts (some schema)).keeps).length using
    Nat.strong_induction_on generalizing lines offset acc with
  | _ k ih =>
    obtain ⟨batch, eof, rest, hturn, hread, hcase⟩ := @wrrapNextBatch_readable _ _ _
      hschema scanOpts sched lines
      { reader := some (.readable lines), offset := offset } rfl rfl _ rfl
    generalize hkept : lines.filter (self.batchOpts (some schema)).keeps = kept at hcase hlen ⊢
    cases hsize : scanOpts.nRows.or self.batchSize with
    | none =>
      rw [hsize] at hcase
      obtain ⟨hrows, rfl, rfl⟩ := hcase
      obtain ⟨hnRows, hbatchSize⟩ := Option.or_eq_none_iff.mp hsize
      rw [hnRows, hbatchSize, scanBatches]
      by_cases hnil : kept = []
      · rw [if_pos hnil, scanLoop_ended hturn (by rw [hrows, hnil]; rfl)]
        rfl
      · rw [if_neg hnil]
        refine scanLoop_finishBatch hturn rfl hrows (fun h => hnil h.2) (by simp [hsize]) ?_
        intro acc
        rw [hnRows, Option.any_none, Bool.false_or, linesRead_ne_zero hread hrows hnil]
        rw [ih 0 (hlen ▸ List.length_pos_iff.mpr hnil) [] _ acc rfl, hnRows, hbatchSize]
        rfl
    | some n =>
      rw [hsize] at hcase
      obtain ⟨hrows, hrest, heof, hzero⟩ := hcase
      have hle : ∀ m ∈ scanOpts.nRows.or self.batchSize, (kept.take n).length ≤ m := by
        rw [hsize]
        rintro m ⟨⟩
        exact List.length_take_le _ _
      by_cases hn : n = 0
      · -- a batch without a line has read none, and finishes
        subst hn
        rw [scanBatches_zero hsize]
        refine scanLoop_finishBatch hturn rfl hrows (by simp [heof]) hle ?_
        intro acc
        rw [scanLoop_finished _ _ _ (by simp [hzero])]
        rfl
      · have hsize' : scanOpts.nRows.or self.batchSize ≠ some 0 := by
          rw [hsize]
          exact fun h => hn (Option.some.inj h)
        by_cases hnil : kept = []
        · subst hnil
          obtain rfl : eof = true := heof.mpr (Nat.pos_of_ne_zero hn)
          rw [scanBatches_nil hsize', scanLoop_ended hturn (by rw [hrows, List.take_nil]; rfl)]
          rfl
        · have htaken : kept.take n ≠ [] := by simp [hn, hnil]
          rw [scanBatches_cons hsize hn hnil]
          refine scanLoop_finishBatch hturn rfl hrows (fun h => htaken h.2) hle ?_
          intro acc
          have hless : (kept.drop n).length < k := by
            have hpos := List.length_pos_iff.mpr hnil
            rw [← hlen, List.length_drop]
            omega
          rw [linesRead_ne_zero hread hrows htaken, Bool.or_false]
          cases hnRows : scanOpts.nRows with
          | none =>
            rw [Option.any_none, ih _ hless rest _ acc (by rw [hrest]), hrest, hnRows]
            rfl
          | some m =>
            obtain rfl : m = n := by simpa [hnRows] using hsize
            rw [Option.any_some, Option.isSome_some, if_pos rfl]
            by_cases hlong : m ≤ (kept.take m).length
            · rw [scanLoop_finished _ _ _ (by simpa using hlong)]
              rfl
            · have hdrop : kept.drop m = [] := by
                rw [List.length_take] at hlong
                exact List.drop_eq_nil_of_le (by omega)
              rw [decide_eq_false hlong, ih _ hless rest _ acc (by rw [hrest]), hrest, hdrop,
                scanBatches_nil hsize']

end PolarsLogfmt
