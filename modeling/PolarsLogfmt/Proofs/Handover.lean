import PolarsLogfmt.Lazy.CallRuns
import PolarsLogfmt.Lazy.ScanOutcome
import PolarsLogfmt.Lazy.SharedReader

/-!
# From pulled batches to a collect

`next_batch` leaves its stream in the state of the reader, and the next `scan` takes it from there:
it returns the lines no batch has delivered, and no other.
-/

namespace PolarsLogfmt

section

variable [Crates]

omit [Crates] in
/-- What is left of a list of lines is one. -/
theorem suffix_of_map_ok {lines : List Bytes} {taken rest : List (Except IoError Bytes)}
    (h : lines.map .ok = taken ++ rest) : ∃ left : List Bytes, rest = left.map .ok := by
  obtain ⟨_, left, -, -, rfl⟩ := List.map_eq_append_iff.mp h
  exact ⟨left, rfl⟩

namespace LazyLogFmtReader

variable {self : LazyLogFmtReader}

/-- A call on a readable stream leaves it readable. -/
theorem stream_wrrapNextBatch {scanOpts : AnonymousScanArgs} {sched : Schedule}
    {state : LogFmtReaderState} (hsingle : self.SingleThreaded scanOpts sched state)
    {lines : List Bytes} (hstream : self.stream state = .ok (.readable lines)) :
    ∃ left, self.stream (self.wrrapNextBatch scanOpts sched state).2 = .ok (.readable left) := by
  cases hfinished : state.finished with
  | true =>
    rw [wrrapNextBatch_finished hfinished]
    exact ⟨lines, hstream⟩
  | false =>
    rw [wrrapNextBatch_single hsingle hfinished]
    cases hpred : self.predicted with
    | error e =>
      rw [singleBatch_unpredicted hstream hpred]
      exact ⟨lines, rfl⟩
    | ok pred =>
      have hdrop : ∀ n, ((LineReader.readable lines).lines.drop n) = (lines.drop n).map .ok :=
        fun n => List.map_drop.symm
      rcases @singleBatch_cases _ self scanOpts state
        (self.callSize scanOpts) _ _ hstream hpred with
        ⟨-, eof, hturn, -⟩ | ⟨-, e, passed, rest, hturn, hrest, -⟩
      · rw [hturn]
        unfold stream
        rw [finishBatch_reader, hdrop]
        exact ⟨_, rfl⟩
      · rw [hdrop] at hrest
        obtain ⟨left, rfl⟩ := suffix_of_map_ok hrest
        rw [hturn]
        exact ⟨left, rfl⟩

theorem stream_stateAfter {state : LogFmtReaderState} {lines : List Bytes}
    (hstream : self.stream state = .ok (.readable lines))
    {calls : List (AnonymousScanArgs × Schedule)} (hsafe : self.SafeRun state calls) :
    ∃ left, self.stream (self.stateAfter state calls) = .ok (.readable left) := by
  induction calls generalizing state lines with
  | nil => exact ⟨lines, hstream⟩
  | cons call calls ih =>
    obtain ⟨hsingle, -, hrest⟩ := hsafe
    obtain ⟨left, hleft⟩ := stream_wrrapNextBatch hsingle hstream
    exact ih hleft hrest

/-- A scan that goes on from a stream stacks the batches of its lines. -/
theorem scan_from {schema : Schema} (hschema : self.schema = some schema) {text : Bytes}
    (hsource : self.source.Delivers text) (scanOpts : AnonymousScanArgs) (sched : Schedule)
    (left : List Bytes) :
    AnonymousScan.scan self scanOpts sched (some (.readable left)) =
      (stackBatches scanOpts ((self.scanReader schema).batchOpts (some schema)) none
        (scanBatches scanOpts.nRows self.batchSize
          (left.filter (self.batchOpts (some schema)).keeps))).map
            fun acc => sliceRows scanOpts.nRows (acc.getD .empty) := by
  unfold AnonymousScan.scan scanSchema
  rw [hschema, cloneWithFreshHandle_delivers hsource]
  have hloop := @scanLoop_eq _ (self.scanReader schema) schema rfl scanOpts sched left 0 none
  rw [keeps_scanReader] at hloop
  exact congrArg (Except.map fun acc => sliceRows scanOpts.nRows (acc.getD .empty)) hloop

end LazyLogFmtReader

/-- After any pulled batches that lose nothing, from whatever state, a scan returns the frames of
the lines that follow those delivered. -/
theorem scan_after_nextBatches {self : LazyLogFmtReader} {schema : Schema}
    (hschema : self.schema = some schema) {text : Bytes} (hsource : self.source.Delivers text)
    {start : LogFmtReaderState} {lines : List Bytes}
    (hstream : self.stream start = .ok (.readable lines))
    {calls : List (AnonymousScanArgs × Schedule)} (hsafe : self.SafeRun start calls)
    (hopened : (self.stateAfter start calls).reader.isSome) :
    ∃ rest, self.delivered start calls ++ rest =
        lines.filter (self.batchOpts (some schema)).keeps ∧
      ∀ scanOpts sched,
        (self.answer (self.stateAfter start calls) (.scan scanOpts sched)).1 =
          (stackBatches scanOpts ((self.scanReader schema).batchOpts (some schema)) none
            (scanBatches scanOpts.nRows self.batchSize rest)).map
              fun acc => some (LazyLogFmtReader.sliceRows scanOpts.nRows (acc.getD .empty)) := by
  have hopts : self.lineOpts = self.batchOpts (some schema) := by
    unfold LazyLogFmtReader.lineOpts
    rw [hschema]
    rfl
  obtain ⟨left, hleft⟩ := LazyLogFmtReader.stream_stateAfter hstream hsafe
  obtain ⟨taken, htakes⟩ := hsafe.takes
  have hentries := htakes.entries
  rw [LazyLogFmtReader.entries_of_stream hstream, LazyLogFmtReader.entries_of_stream hleft]
    at hentries
  refine ⟨left.filter (self.batchOpts (some schema)).keeps, ?_, ?_⟩
  · have hkept : ∀ some : List Bytes, self.keptIn (some.map .ok) =
        some.filter (self.batchOpts (.some schema)).keeps := by
      intro some
      rw [LazyLogFmtReader.keptIn, readLines_ok, hopts]
    rw [htakes.delivered, ← hkept left, ← LazyLogFmtReader.keptIn_append, ← hkept lines]
    exact congrArg self.keptIn hentries.symm
  · intro scanOpts sched
    obtain ⟨reader, hreader⟩ := Option.isSome_iff_exists.mp hopened
    unfold LazyLogFmtReader.stream at hleft
    rw [hreader] at hleft
    cases hleft
    show (AnonymousScan.scan self scanOpts sched (self.stateAfter start calls).reader).map some = _
    rw [hreader, LazyLogFmtReader.scan_from hschema hsource]
    cases stackBatches scanOpts ((self.scanReader schema).batchOpts (some schema)) none
      (scanBatches scanOpts.nRows self.batchSize
        (left.filter (self.batchOpts (some schema)).keeps)) <;> rfl

end

section

attribute [local instance] smallCrates

/-- Three lines, pulled one at a time. -/
def pulledReader : LazyLogFmtReader :=
  { source := .cursor (Utf8.ofString "a=1\na=2\na=3\n"), batchSize := some 1, schema := some ∅ }

/-- The lines of the reader. -/
def pulledLines : List Bytes :=
  [Utf8.ofString "a=1\n", Utf8.ofString "a=2\n", Utf8.ofString "a=3\n"]

/-- After one batch a scan returns the other two lines. -/
theorem scan_after_nextBatches_pulled :
    ∃ rest, pulledReader.delivered {} [({}, {})] ++ rest =
        pulledLines.filter (pulledReader.batchOpts (some ∅)).keeps ∧
      ∀ scanOpts sched,
        (pulledReader.answer (pulledReader.stateAfter {} [({}, {})]) (.scan scanOpts sched)).1 =
          (stackBatches scanOpts ((pulledReader.scanReader ∅).batchOpts (some ∅)) none
            (scanBatches scanOpts.nRows (some 1) rest)).map
              fun acc => some (LazyLogFmtReader.sliceRows scanOpts.nRows (acc.getD .empty)) := by
  have hsource : pulledReader.source.Delivers (Utf8.ofString "a=1\na=2\na=3\n") := rfl
  have hstream : pulledReader.stream {} = .ok (.readable pulledLines) := by
    have hlines : textLines (Utf8.ofString "a=1\na=2\na=3\n") = pulledLines.map .ok := by
      decide +kernel
    exact congrArg (fun lines => Except.ok (LineReader.mk lines none)) hlines
  have hsingle : pulledReader.SingleThreaded {} {} {} := .inr (.inr (.inr ⟨_, rfl, .inl rfl⟩))
  have hsafe : pulledReader.SafeCall {} {} := by
    constructor
    · intro _ reader hreader
      cases hreader
      exact .inl (by decide +kernel)
    · intro _
      exact ⟨nofun, nofun⟩
  exact @scan_after_nextBatches _ pulledReader ∅ rfl _ hsource {} pulledLines hstream [({}, {})]
    ⟨hsingle, hsafe, trivial⟩ (by decide +kernel)

end

end PolarsLogfmt
