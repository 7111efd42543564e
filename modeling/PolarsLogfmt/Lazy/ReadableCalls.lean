import PolarsLogfmt.Lazy.CallRuns

/-!
# Calls on a readable stream

Without a predicate or projection a call on a stream of readable lines cannot fail. It takes the
lines up to its last row, and the rows it accumulates are those of the kept ones.
-/

namespace PolarsLogfmt

variable [Crates]

/-- A batch with a row has a schema. -/
theorem usedSchema_of_kept {opts : BatchOpts} {lines : List Bytes}
    (h : lines.filter opts.keeps ≠ []) :
    ∃ used, opts.schema.or ((lines.foldl (BatchState.takeLine opts) {}).firstRow.map
      inferSchemaFromRow) = some used := by
  cases hschema : opts.schema with
  | some schema => exact ⟨schema, rfl⟩
  | none =>
    have hfirst := foldl_takeLine_firstRow hschema lines {}
    rw [show ({} : BatchState).firstRow = none from rfl, Option.none_or] at hfirst
    rw [hfirst, Option.none_or]
    cases hacc : lines.filter (accepts opts.lineFilter) with
    | nil =>
      refine absurd ?_ h
      rw [List.filter_eq_nil_iff] at hacc ⊢
      exact fun line hline hkept => hacc line hline (Bool.and_eq_true_iff.mp hkept).1
    | cons line rest => exact ⟨lineSchema line, rfl⟩

namespace LazyLogFmtReader

/-- Nothing is pushed down. -/
def Plain (scanOpts : AnonymousScanArgs) : Prop :=
  scanOpts.predicate = none ∧ scanOpts.withColumns = none

section

variable {scanOpts : AnonymousScanArgs} {size : Option Nat} {opts : BatchOpts}
  {state : LogFmtReaderState} {lines : List Bytes} {eof : Bool}

/-- The batch at the end of the stream. -/
theorem finishBatch_end (h : lines.filter opts.keeps = []) :
    (finishBatch scanOpts size opts.schema state
    (lines.foldl (BatchState.takeLine opts) {}) true).1 =
        .ok none ∧
      (finishBatch scanOpts size opts.schema state
        (lines.foldl (BatchState.takeLine opts) {}) true).2.finished = true := by
  have hrows : (lines.foldl (BatchState.takeLine opts) {}).rows = [] := by
    rw [foldl_takeLine_eq, h]
    rfl
  unfold finishBatch
  rw [if_pos ⟨rfl, hrows⟩]
  exact ⟨rfl, rfl⟩

/-- A batch with a row gives a frame. -/
theorem finishBatch_kept (hplain : Plain scanOpts) (hgoing : state.finished = false)
    (h : lines.filter opts.keeps ≠ []) :
    ∃ used, (finishBatch scanOpts size opts.schema state
          (lines.foldl (BatchState.takeLine opts) {}) eof).1 =
        .ok (some (capBatch size (filledFrame (batchRows opts (lines.filter opts.keeps))
          (some used)))) ∧
      (finishBatch scanOpts size opts.schema state
          (lines.foldl (BatchState.takeLine opts) {}) eof).2.finished =
        scanOpts.nRows.any (· ≤ (lines.filter opts.keeps).length) := by
  obtain ⟨used, hused⟩ := usedSchema_of_kept h
  have hread : (lines.foldl (BatchState.takeLine opts) {}).linesRead ≠ 0 := by
    have hle := rows_le_linesRead opts (show ({} : BatchState).rows.length ≤ 0
      from Nat.le_refl 0) lines
    rw [length_foldl_takeLine] at hle
    have := List.length_pos_iff.mpr h
    omega
  have hrows := foldl_takeLine_eq opts lines
  have hne : (lines.foldl (BatchState.takeLine opts) {}).rows ≠ [] := by
    intro hnil
    have hlen := congrArg List.length hnil
    rw [length_foldl_takeLine] at hlen
    exact h (List.eq_nil_of_length_eq_zero (Nat.eq_zero_of_add_eq_zero_left hlen))
  refine ⟨used, ?_⟩
  unfold finishBatch
  rw [if_neg (fun hend => hne hend.2), hused, hplain.1, hplain.2, hgoing]
  simp only [rowsToDataframeFilled_eq, Except.mapError, hrows, length_batchRows]
  refine ⟨rfl, ?_⟩
  show (false || _ || _) = _
  rw [Bool.false_or, beq_eq_false_iff_ne.mpr hread, Bool.or_false]

/-- The frame a batch ends in. -/
theorem finishBatch_made {schema : Option Schema} {batch : BatchState} {df : DataFrame}
    (hplain : Plain scanOpts)
    (h : (finishBatch scanOpts size schema state batch eof).1 = .ok (some df)) :
    ∃ used, df = capBatch size (filledFrame batch.rows (some used)) := by
  unfold finishBatch at h
  split at h
  · cases h
  · split at h
    · cases h
    · rename_i used _
      rw [hplain.1, hplain.2] at h
      simp only [rowsToDataframeFilled_eq, Except.mapError] at h
      cases h
      exact ⟨used, rfl⟩

/-- A batch that was asked for no row. -/
theorem finishBatch_rowless (hplain : Plain scanOpts) :
    (finishBatch scanOpts size opts.schema state {} false).1.toOption.isSome ∧
      (finishBatch scanOpts size opts.schema state {} false).2.finished = true := by
  unfold finishBatch
  rw [if_neg (fun hend => nomatch hend.1), hplain.1, hplain.2]
  cases opts.schema with
  | none => exact ⟨rfl, Bool.or_true _⟩
  | some schema => exact ⟨rfl, Bool.or_true _⟩

/-- The batch a call for `n` rows ends in, when it has taken the lines up to the `n`-th kept one. -/
theorem finishBatch_reads {taken : List Bytes} {n : Nat} (hplain : Plain scanOpts)
    (hgoing : state.finished = false)
    (hkept : taken.filter opts.keeps = (lines.filter opts.keeps).take n)
    (hfull : n = 0 → taken = [])
    (heof : eof = true ↔ ¬ n ≤ ((lines.filter opts.keeps).take n).length) :
    let out := finishBatch scanOpts (some n) opts.schema state
      (taken.foldl (BatchState.takeLine opts) {}) eof
    out.1.toOption.isSome ∧
      (0 < n → (out.1 = .ok none ↔ lines.filter opts.keeps = [])) ∧
      (out.2.finished = true ↔ n = 0 ∨ lines.filter opts.keeps = [] ∨
        scanOpts.nRows.any (· ≤ ((lines.filter opts.keeps).take n).length) = true) := by
  by_cases hn : n = 0
  · -- nothing is read
    obtain rfl := hfull hn
    subst hn
    obtain rfl : eof = false := by simpa using heof
    obtain ⟨hsome, hend⟩ := @finishBatch_rowless _ scanOpts (some 0) opts state hplain
    exact ⟨hsome, fun h => absurd h (Nat.lt_irrefl 0), iff_of_true hend (.inl rfl)⟩
  by_cases hnil : lines.filter opts.keeps = []
  · -- the stream has ended
    rw [hnil, List.take_nil] at hkept heof
    obtain rfl : eof = true := by
      apply heof.mpr
      exact fun hle => hn (Nat.eq_zero_of_le_zero hle)
    obtain ⟨hnone, hend⟩ := @finishBatch_end _ scanOpts (some n) opts state taken hkept
    refine ⟨?_, fun _ => iff_of_true hnone hnil, iff_of_true hend (.inr (.inl hnil))⟩
    exact (congrArg (fun r => r.toOption.isSome) hnone).trans rfl
  · have hne : taken.filter opts.keeps ≠ [] := by
      rw [hkept, Ne, List.take_eq_nil_iff]
      exact fun h => h.elim hn hnil
    obtain ⟨used, hsome, hend⟩ := @finishBatch_kept _ scanOpts (some n) opts state taken eof
      hplain hgoing hne
    rw [hkept] at hend
    refine ⟨?_, fun _ => iff_of_false ?_ hnil, ?_⟩
    · exact (congrArg (fun r => r.toOption.isSome) hsome).trans rfl
    · intro hnone
      have := hsome.symm.trans hnone
      cases this
    · refine (Bool.eq_iff_iff.mp hend).trans ?_
      simp only [hn, hnil, false_or]

end

/-! ## One call -/

variable {self : LazyLogFmtReader} {scanOpts : AnonymousScanArgs} {sched : Schedule}
  {state : LogFmtReaderState} {lines : List Bytes} {pred : Option Schema}

/-- The lines and the rows of a call. -/
theorem rawRows_readable (hstream : self.stream state = .ok (.readable lines))
    (hpred : self.predicted = .ok pred) (hgoing : state.finished = false) :
    self.callLines scanOpts state =
        batchLines self.lineOpts (self.callSize scanOpts) 0 (lines.map .ok) ∧
      self.rawRows scanOpts state =
        batchRows self.lineOpts ((self.callLines scanOpts state).filter self.lineOpts.keeps) := by
  have hlines : self.callLines scanOpts state =
      batchLines self.lineOpts (self.callSize scanOpts) 0 (lines.map .ok) := by
    unfold callLines
    rw [if_neg (by simp [hgoing, hpred, Except.toOption]), entries_of_stream hstream]
    rfl
  refine ⟨hlines, ?_⟩
  have hopts : self.batchOpts (self.schema.or pred) = self.lineOpts := by
    unfold lineOpts
    rw [hpred]
    rfl
  rw [hlines, ← foldl_takeLine_eq]
  unfold rawRows
  rw [if_neg (by simp [hgoing])]
  simp only [hstream, hpred, readBatch_eq, hopts]
  obtain ⟨left, eof, -, hbatch, -⟩ :=
    @parseBatchFromReader_readable _ self.lineOpts (self.callSize scanOpts) lines
  rw [hbatch]

/-- What a call for `n` rows on a stream of these lines gives and leaves. -/
structure Reads (logs : LazyLogFmtReader) (scanOpts : AnonymousScanArgs) (sched : Schedule)
    (state : LogFmtReaderState) (lines left : List Bytes) (n : Nat) : Prop where
  stream : logs.stream (logs.wrrapNextBatch scanOpts sched state).2 = .ok (.readable left)
  opened : (logs.wrrapNextBatch scanOpts sched state).2.reader.isSome
  split : lines = logs.callLines scanOpts state ++ left
  kept : (logs.callLines scanOpts state).filter logs.lineOpts.keeps =
    (lines.filter logs.lineOpts.keeps).take n
  rest : left.filter logs.lineOpts.keeps = (lines.filter logs.lineOpts.keeps).drop n
  rows : logs.rawRows scanOpts state =
    batchRows logs.lineOpts ((lines.filter logs.lineOpts.keeps).take n)
  isSome : (logs.wrrapNextBatch scanOpts sched state).1.toOption.isSome
  none_iff : 0 < n → ((logs.wrrapNextBatch scanOpts sched state).1 = .ok none ↔
    lines.filter logs.lineOpts.keeps = [])
  finished : (logs.wrrapNextBatch scanOpts sched state).2.finished = true ↔
    n = 0 ∨ lines.filter logs.lineOpts.keeps = [] ∨
      scanOpts.nRows.any (· ≤ ((lines.filter logs.lineOpts.keeps).take n).length) = true

/-- A call for `n` rows on a stream of readable lines. -/
theorem call_reads (hsingle : self.SingleThreaded scanOpts sched state)
    (hstream : self.stream state = .ok (.readable lines)) (hpred : self.predicted = .ok pred)
    (hgoing : state.finished = false) (hplain : Plain scanOpts) {n : Nat}
    (hsize : self.callSize scanOpts = some n) :
    ∃ left, self.Reads scanOpts sched state lines left n := by
  obtain ⟨hlines, hrows⟩ := @rawRows_readable _ self scanOpts _ _ _ hstream hpred hgoing
  obtain ⟨left, hsplit, hkept, hleft⟩ := @batchLines_readable _ self.lineOpts n lines
  have hsingle := wrrapNextBatch_single hsingle hgoing
  have hschema : self.schema.or pred = self.lineOpts.schema := by
    unfold lineOpts
    rw [hpred]
    rfl
  rcases @singleBatch_cases _ self scanOpts state (self.callSize scanOpts) _ _ hstream hpred with
    ⟨-, eof, hturn, heof⟩ | ⟨hfails, -⟩
  swap
  · exact absurd (completes_readable _ _) hfails
  rw [hsize] at hlines hturn heof hsingle
  rw [hschema] at hturn
  rw [show (LineReader.readable lines).lines = lines.map .ok from rfl] at hturn heof
  rw [← hlines] at hsplit hkept hturn heof
  rw [hkept] at hrows heof
  have hdrop : (lines.map Except.ok).drop (self.callLines scanOpts state).length =
      left.map (Except.ok (ε := IoError)) := by
    conv_lhs => rw [hsplit, List.map_append]
    exact List.drop_left' (List.length_map _)
  rw [hdrop] at hturn
  have houtcome : self.wrrapNextBatch scanOpts sched state =
      finishBatch scanOpts (some n) self.lineOpts.schema
        { state with reader := some (.readable left) }
        ((self.callLines scanOpts state).foldl (BatchState.takeLine self.lineOpts) {}) eof :=
    hsingle.trans hturn
  have hopened : (self.wrrapNextBatch scanOpts sched state).2.reader = some (.readable left) := by
    rw [houtcome, finishBatch_reader]
  have hnext : self.stream (self.wrrapNextBatch scanOpts sched state).2 = .ok (.readable left) := by
    unfold stream
    rw [hopened]
    rfl
  have hfull : n = 0 → self.callLines scanOpts state = [] := by
    rintro rfl
    rw [hlines]
    exact batchLines_full rfl _
  rw [Option.any_some, decide_eq_true_eq] at heof
  obtain ⟨hsome, hnone, hend⟩ := @finishBatch_reads _ scanOpts self.lineOpts
    { state with reader := some (.readable left) } lines eof (self.callLines scanOpts state) n
    hplain hgoing hkept hfull heof
  rw [← houtcome] at hsome hnone hend
  exact ⟨left, hnext, Option.isSome_of_mem hopened, hsplit, hkept, hleft, hrows, hsome, hnone, hend⟩

end LazyLogFmtReader

end PolarsLogfmt
