import PolarsLogfmt.Proofs.AlignedCuts
import PolarsLogfmt.Proofs.ExactlyOnce

/-!
# One path delivers

`wrrap_next_batch` tries the parallel path as long as no stream is open. However its calls go, a
frame of the parallel path is the first one and the last: no line is delivered by both paths.
-/

namespace PolarsLogfmt

section

variable [Crates]

namespace LazyLogFmtReader

/-- The call makes the parallel attempt, and the attempt makes a frame. -/
structure Attempts (logs : LazyLogFmtReader) (scanOpts : AnonymousScanArgs) (sched : Schedule)
    (state : LogFmtReaderState) (df : DataFrame) : Prop where
  going : state.finished = false
  unopened : state.reader = none
  parallel : logs.useParallel = true
  offset : state.offset = 0
  frame : (logs.parallelBatch scanOpts logs.schema sched).2 = .ok (some df)

variable {self : LazyLogFmtReader} {scanOpts : AnonymousScanArgs} {sched : Schedule}
  {state : LogFmtReaderState}

/-- Its frame is what the call returns, and it is the last. -/
theorem Attempts.delivers {df : DataFrame} (h : self.Attempts scanOpts sched state df) :
    self.wrrapNextBatch scanOpts sched state =
      (.ok (some df), { state with finished := true }) := by
  have hframe := h.frame
  unfold wrrapNextBatch
  rw [h.unopened, h.going, h.offset]
  simp only [Bool.false_eq_true, if_false, Option.isNone_none, h.parallel, and_self, if_true]
  cases hmade : self.parallelBatch scanOpts self.schema sched with
  | mk schema result =>
    rw [hmade] at hframe
    obtain rfl : result = .ok (some df) := hframe
    rfl

/-- A batch that has its stream leaves it open. -/
theorem singleBatch_opened {size : Option Nat} (schema : Option Schema) {reader : LineReader}
    (h : self.stream state = .ok reader) :
    (self.singleBatch scanOpts size schema state).2.reader.isSome := by
  unfold singleBatch
  rw [show state.reader.elim self.openReader .ok = .ok reader from h]
  simp only
  split
  · rfl
  · split
    · rfl
    · rw [finishBatch_reader]
      rfl

/-- A batch that is returned has opened its stream. -/
theorem singleBatch_opens {size : Option Nat} {schema : Option Schema} {out : Option DataFrame}
    (h : (self.singleBatch scanOpts size schema state).1 = .ok out) :
    (self.singleBatch scanOpts size schema state).2.reader.isSome := by
  cases hstream : self.stream state with
  | ok reader => exact singleBatch_opened schema hstream
  | error e =>
    unfold singleBatch at h
    rw [show state.reader.elim self.openReader .ok = .error e from hstream] at h
    cases h

/-- A call that leaves the stream unopened and the reader going has failed. -/
theorem wrrapNextBatch_unopened
    (hgoing : (self.wrrapNextBatch scanOpts sched state).2.finished = false)
    (hreader : (self.wrrapNextBatch scanOpts sched state).2.reader = none) :
    ∃ e, (self.wrrapNextBatch scanOpts sched state).1 = .error e := by
  cases hresult : (self.wrrapNextBatch scanOpts sched state).1 with
  | error e => exact ⟨e, rfl⟩
  | ok out =>
    exfalso
    have hopens : ∀ schema, (self.singleBatch scanOpts (scanOpts.nRows.or self.batchSize) schema
        state).1 = .ok out →
          (self.singleBatch scanOpts (scanOpts.nRows.or self.batchSize) schema state).2.reader ≠
            none := by
      intro schema hsingle hnone
      have hsome := singleBatch_opens hsingle
      rw [hnone] at hsome
      cases hsome
    unfold wrrapNextBatch at hgoing hreader hresult
    simp only at hgoing hreader hresult
    split at hgoing
    · rename_i hfinished
      rw [hfinished] at hgoing
      cases hgoing
    · rename_i hgo
      rw [if_neg hgo] at hreader hresult
      split at hgoing
      · rename_i hattempt
        rw [if_pos hattempt] at hreader hresult
        split at hgoing
        · rename_i e hmade
          rw [hmade] at hresult
          cases hresult
        · cases hgoing
        · rename_i schema hmade
          rw [hmade] at hreader hresult
          exact hopens schema hresult hreader
      · rename_i hattempt
        rw [if_neg hattempt] at hreader hresult
        exact hopens self.schema hresult hreader

/-- Once a stream is open it stays, and a finished reader stays finished. -/
theorem wrrapNextBatch_stays (h : state.finished = true ∨ state.reader.isSome) :
    (self.wrrapNextBatch scanOpts sched state).2.finished = true ∨
      (self.wrrapNextBatch scanOpts sched state).2.reader.isSome := by
  cases hfinished : state.finished with
  | true =>
    rw [wrrapNextBatch_finished hfinished]
    exact .inl hfinished
  | false =>
    rcases h with h | h
    · rw [hfinished] at h
      cases h
    · right
      rw [wrrapNextBatch_single (.inl h) hfinished]
      obtain ⟨reader, hreader⟩ := Option.isSome_iff_exists.mp h
      have hstream : self.stream state = .ok reader := by
        unfold stream
        rw [hreader]
        rfl
      exact singleBatch_opened self.schema hstream

/-! ## Runs -/

variable {calls : Nat → AnonymousScanArgs × Schedule} {start : LogFmtReaderState}

theorem stateAt_stays {j k : Nat} (hjk : j ≤ k)
    (h : (self.stateAt calls start j).finished = true ∨
    (self.stateAt calls start j).reader.isSome) :
    (self.stateAt calls start k).finished = true ∨ (self.stateAt calls start k).reader.isSome := by
  induction hjk with
  | refl => exact h
  | step _ ih => exact wrrapNextBatch_stays ih

end LazyLogFmtReader

/-- In every run of `next_batch` calls, a call whose parallel attempt makes a frame returns it, all
calls before it have failed and all calls after it return none. -/
theorem one_path_delivers {self : LazyLogFmtReader} (calls : Nat → AnonymousScanArgs × Schedule)
    (start : LogFmtReaderState) {k : Nat} {df : DataFrame}
    (h : self.Attempts (calls k).1 (calls k).2 (self.stateAt calls start k) df) :
    (∀ j < k, ∃ e, self.resultAt calls start j = .error e) ∧
      self.resultAt calls start k = .ok (some df) ∧
        ∀ j > k, self.resultAt calls start j = .ok none := by
  have hturn := h.delivers
  refine ⟨?_, ?_, ?_⟩
  · intro j hj
    have hopen : ¬ ((self.stateAt calls start (j + 1)).finished = true ∨
        (self.stateAt calls start (j + 1)).reader.isSome) := by
      intro hopen
      rcases LazyLogFmtReader.stateAt_stays hj hopen with hfinished | hreader
      · rw [h.going] at hfinished
        cases hfinished
      · rw [h.unopened] at hreader
        cases hreader
    rw [not_or] at hopen
    obtain ⟨hgoing, hreader⟩ := hopen
    apply LazyLogFmtReader.wrrapNextBatch_unopened
    · exact Bool.eq_false_of_not_eq_true hgoing
    · exact Option.not_isSome_iff_eq_none.mp hreader
  · rw [LazyLogFmtReader.resultAt, hturn]
  · intro j hj
    have hfinished : (self.stateAt calls start (k + 1)).finished = true := by
      rw [LazyLogFmtReader.stateAt, hturn]
    obtain ⟨i, rfl⟩ := Nat.exists_eq_add_of_le (show k + 1 ≤ j from hj)
    exact (LazyLogFmtReader.stateAt_finished hfinished i).2.1

end

section

attribute [local instance] smallCrates

/-- The frame of `a=1` and `a=2`. -/
def twoLinesFrame : DataFrame :=
  promisedFrame ∅ [Utf8.ofString "a=1\n", Utf8.ofString "a=2\n"]

/-- Two units for two workers, pulled again and again: the first call returns the frame. -/
theorem one_path_delivers_twoLines :
    (∀ j < 0, ∃ e, (alignedReader [Utf8.ofString "a=1\n", Utf8.ofString "a=2\n"] 2).resultAt
        (fun _ => ({}, {})) {} j = .error e) ∧
      (alignedReader [Utf8.ofString "a=1\n", Utf8.ofString "a=2\n"] 2).resultAt
        (fun _ => ({}, {})) {} 0 = .ok (some twoLinesFrame) ∧
      ∀ j > 0, (alignedReader [Utf8.ofString "a=1\n", Utf8.ofString "a=2\n"] 2).resultAt
        (fun _ => ({}, {})) {} j = .ok none := by
  have hframe : ((alignedReader [Utf8.ofString "a=1\n", Utf8.ofString "a=2\n"] 2).parallelBatch {}
      (some ∅) {}).2 = .ok (some twoLinesFrame) := by decide +kernel
  exact one_path_delivers (fun _ => ({}, {})) {} (k := 0) ⟨rfl, rfl, rfl, rfl, hframe⟩

end

end PolarsLogfmt
