import Mathlib.Algebra.Order.Floor.Div
import PolarsLogfmt.Lazy.ReadableCalls

/-!
# Sequential reading

The rows that successive calls of `next_batch` accumulate from a readable stream are its accepted
rows, each in one call and in order.
-/

namespace PolarsLogfmt

section

variable [Crates]

namespace LazyLogFmtReader

variable (self : LazyLogFmtReader) (calls : Nat → AnonymousScanArgs × Schedule)
  (start : LogFmtReaderState)

/-- The state before the `k`-th call. -/
def stateAt : Nat → LogFmtReaderState
  | 0 => start
  | k + 1 => (self.wrrapNextBatch (calls k).1 (calls k).2 (stateAt k)).2

/-- What the `k`-th call returns. -/
def resultAt (k : Nat) : Except PolarsError (Option DataFrame) :=
  (self.wrrapNextBatch (calls k).1 (calls k).2 (self.stateAt calls start k)).1

/-- The rows the `k`-th call accumulates. -/
def rowsAt (k : Nat) : List Row := self.rawRows (calls k).1 (self.stateAt calls start k)

/-- The rows of the lines that pass the filters. -/
def acceptedRows (lines : List Bytes) : List Row :=
  (lines.filter self.lineOpts.keeps).map fun line =>
    parseLogfmtLineWithSchema line self.lineOpts.schema

variable {self calls start}

theorem acceptedRows_append (as bs : List Bytes) :
    self.acceptedRows (as ++ bs) = self.acceptedRows as ++ self.acceptedRows bs := by
  rw [acceptedRows, List.filter_append, List.map_append]
  rfl

theorem rawRows_finished {scanOpts : AnonymousScanArgs} {state : LogFmtReaderState}
    (h : state.finished = true) : self.rawRows scanOpts state = [] := if_pos h

/-- A call on a readable stream, or on a finished reader. -/
theorem call_cases {scanOpts : AnonymousScanArgs} {sched : Schedule} {state : LogFmtReaderState}
    {lines : List Bytes} {pred : Option Schema} {n : Nat}
    (hgo : state.finished = true ∨ self.SingleThreaded scanOpts sched state)
    (hstream : self.stream state = .ok (.readable lines)) (hpred : self.predicted = .ok pred)
    (hplain : Plain scanOpts) (hsize : self.callSize scanOpts = some n) :
    (state.finished = true ∧ self.wrrapNextBatch scanOpts sched state = (.ok none, state) ∧
        self.rawRows scanOpts state = []) ∨
      (state.finished = false ∧ ∃ left, self.Reads scanOpts sched state lines left n) := by
  cases hfinished : state.finished with
  | true => exact .inl ⟨rfl, wrrapNextBatch_finished hfinished, rawRows_finished hfinished⟩
  | false =>
    rw [hfinished] at hgo
    have hsingle := hgo.resolve_left Bool.false_ne_true
    exact .inr ⟨rfl, call_reads hsingle hstream hpred hfinished hplain hsize⟩

section

variable {lines : List Bytes} {pred : Option Schema} {b : Nat}
  (hb : self.batchSize = some b) (ha : self.alignedColsCnt = false)
  (hgoing : start.finished = false) (hstream : self.stream start = .ok (.readable lines))
  (hpred : self.predicted = .ok pred) (hplain : ∀ k, Plain (calls k).1)
  (hsingle : self.SingleThreaded (calls 0).1 (calls 0).2 start)

include hb in
theorem callSize_some (scanOpts : AnonymousScanArgs) : ∃ n, self.callSize scanOpts = some n := by
  unfold callSize
  rw [hb]
  cases scanOpts.nRows with
  | none => exact ⟨b, rfl⟩
  | some n => exact ⟨n, rfl⟩

include ha in
theorem batchRows_lineOpts (kept : List Bytes) : batchRows self.lineOpts kept =
    kept.map fun line => parseLogfmtLineWithSchema line self.lineOpts.schema :=
  batchRows_unaligned (show self.lineOpts.alignedColsCnt = false from ha) kept

include ha in
theorem Reads.rows_taken {scanOpts : AnonymousScanArgs} {sched : Schedule}
    {state : LogFmtReaderState} {left : List Bytes} {n : Nat}
    (h : self.Reads scanOpts sched state lines left n) :
    self.rawRows scanOpts state = self.acceptedRows (self.callLines scanOpts state) := by
  rw [h.rows, batchRows_lineOpts ha, acceptedRows, h.kept]

include hb ha hstream hpred hplain hsingle in
/-- The rows of the calls are the accepted rows of the lines taken. -/
theorem rowsAt_segments (k : Nat) :
    ∃ taken left, lines = taken ++ left ∧
      self.stream (self.stateAt calls start k) = .ok (.readable left) ∧
      ((self.stateAt calls start k).finished = true ∨
        self.SingleThreaded (calls k).1 (calls k).2 (self.stateAt calls start k)) ∧
      (List.range k).flatMap (self.rowsAt calls start) = self.acceptedRows taken := by
  induction k with
  | zero => exact ⟨[], lines, rfl, hstream, .inr hsingle, rfl⟩
  | succ k ih =>
    obtain ⟨taken, left, hlines, hflow, hgo, hrows⟩ := ih
    obtain ⟨n, hsize⟩ := @callSize_some _ self b hb (calls k).1
    rw [List.range_succ, List.flatMap_append, hrows, List.flatMap_singleton]
    rcases call_cases hgo hflow hpred (hplain k) hsize with
      ⟨hfinished, hturn, hnone⟩ | ⟨-, left', hreads⟩
    · have hnext : self.stateAt calls start (k + 1) = self.stateAt calls start k :=
        congrArg Prod.snd hturn
      refine ⟨taken, left, hlines, by rw [hnext, hflow], .inl (by rw [hnext, hfinished]), ?_⟩
      rw [rowsAt, hnone, List.append_nil]
    · refine ⟨taken ++ self.callLines (calls k).1 (self.stateAt calls start k), left', ?_,
        hreads.stream, .inr (.inl hreads.opened), ?_⟩
      · rw [hlines, List.append_assoc, ← hreads.split]
      · rw [rowsAt, hreads.rows_taken ha, acceptedRows_append]

/-! ## Without a slice -/

include hb hgoing hstream hpred hplain hsingle in
/-- After `k` calls of `b` rows the first `k * b` kept lines are gone. -/
theorem stateAt_unsliced (hpos : 0 < b) (hnRows : ∀ k, (calls k).1.nRows = none) (k : Nat) :
    ∃ left, self.stream (self.stateAt calls start k) = .ok (.readable left) ∧
      left.filter self.lineOpts.keeps = (lines.filter self.lineOpts.keeps).drop (k * b) ∧
      ((self.stateAt calls start k).finished = true ∨
        self.SingleThreaded (calls k).1 (calls k).2 (self.stateAt calls start k)) ∧
      ((self.stateAt calls start k).finished = true →
        (lines.filter self.lineOpts.keeps).drop (k * b) = []) := by
  have hsize : ∀ k, self.callSize (calls k).1 = some b := by
    intro k
    unfold callSize
    rw [hnRows, Option.none_or, hb]
  have hdrop : ∀ {k}, (lines.filter self.lineOpts.keeps).drop (k * b) = [] →
      (lines.filter self.lineOpts.keeps).drop ((k + 1) * b) = [] := by
    intro k hnil
    rw [List.drop_eq_nil_iff] at hnil ⊢
    rw [Nat.add_mul]
    omega
  induction k with
  | zero =>
    refine ⟨lines, hstream, by rw [Nat.zero_mul, List.drop_zero], .inr hsingle, fun h => ?_⟩
    rw [show (self.stateAt calls start 0).finished = start.finished from rfl, hgoing] at h
    cases h
  | succ k ih =>
    obtain ⟨left, hflow, hleft, hgo, hend⟩ := ih
    rcases call_cases hgo hflow hpred (hplain k) (hsize k) with
      ⟨hfinished, hturn, -⟩ | ⟨-, left', hreads⟩
    · have hnext : self.stateAt calls start (k + 1) = self.stateAt calls start k :=
        congrArg Prod.snd hturn
      have hnil := hdrop (hend hfinished)
      rw [hnext]
      refine ⟨left, hflow, ?_, .inl hfinished, fun _ => hnil⟩
      rw [hleft, hnil, hend hfinished]
    · have hleft' : left'.filter self.lineOpts.keeps =
          (lines.filter self.lineOpts.keeps).drop ((k + 1) * b) := by
        rw [hreads.rest, hleft, List.drop_drop, Nat.add_mul, Nat.one_mul]
      refine ⟨left', hreads.stream, hleft', .inr (.inl hreads.opened), fun hfinished => ?_⟩
      rcases hreads.finished.mp hfinished with hzero | hnil | hslice
      · omega
      · rw [hleft] at hnil
        exact hdrop hnil
      · rw [hnRows] at hslice
        cases hslice

include hb ha hgoing hstream hpred hplain hsingle in
/-- The `k`-th call gives the next `b` rows, and no frame when there are none left. -/
theorem rowsAt_unsliced (hpos : 0 < b) (hnRows : ∀ k, (calls k).1.nRows = none) (k : Nat) :
    self.rowsAt calls start k = ((self.acceptedRows lines).drop (k * b)).take b ∧
      (self.resultAt calls start k = .ok none ↔ (self.acceptedRows lines).length ≤ k * b) := by
  obtain ⟨left, hflow, hleft, hgo, hend⟩ :=
    stateAt_unsliced hb hgoing hstream hpred hplain hsingle hpos hnRows k
  have hsize : self.callSize (calls k).1 = some b := by
    unfold callSize
    rw [hnRows, Option.none_or, hb]
  unfold rowsAt resultAt acceptedRows
  rw [← List.map_drop, ← List.map_take, List.length_map, ← List.drop_eq_nil_iff]
  rcases call_cases hgo hflow hpred (hplain k) hsize with
    ⟨hfinished, hturn, hnone⟩ | ⟨-, left', hreads⟩
  · rw [hnone, hturn, hend hfinished, List.take_nil]
    exact ⟨rfl, iff_of_true rfl rfl⟩
  · rw [hreads.rows, batchRows_lineOpts ha, hreads.none_iff hpos, hleft]
    exact ⟨rfl, Iff.rfl⟩

include hb ha hgoing hstream hpred hplain hsingle in
/-- The rows of the calls up to the first that gives no frame are all accepted rows. -/
theorem rowsAt_all (hpos : 0 < b) (hnRows : ∀ k, (calls k).1.nRows = none) :
    ∃ last, (∀ k, self.resultAt calls start k = .ok none ↔ last ≤ k) ∧
      (List.range last).flatMap (self.rowsAt calls start) = self.acceptedRows lines ∧
      ∀ k, k + 1 < last → (self.rowsAt calls start k).length = b := by
  have hcall := rowsAt_unsliced hb ha hgoing hstream hpred hplain hsingle hpos hnRows
  have hlast : ∀ k, (self.acceptedRows lines).length ⌈/⌉ b ≤ k ↔
      (self.acceptedRows lines).length ≤ k * b := by
    intro k
    rw [ceilDiv_le_iff_le_mul hpos, Nat.mul_comm]
  have hrows : ∀ k, (List.range k).flatMap (self.rowsAt calls start) =
      (self.acceptedRows lines).take (k * b) := by
    intro k
    induction k with
    | zero => rw [Nat.zero_mul, List.take_zero]; rfl
    | succ k ih =>
      rw [List.range_succ, List.flatMap_append, ih, List.flatMap_singleton, (hcall k).1,
        Nat.add_mul, Nat.one_mul, List.take_add]
  refine ⟨(self.acceptedRows lines).length ⌈/⌉ b, fun k => (hcall k).2.trans (hlast k).symm, ?_, ?_⟩
  · rw [hrows]
    exact List.take_of_length_le ((hlast _).mp (Nat.le_refl _))
  · intro k hk
    have hmore : (k + 1) * b < (self.acceptedRows lines).length := by
      by_contra hle
      exact Nat.not_le.mpr hk ((hlast _).mpr (Nat.not_lt.mp hle))
    rw [(hcall k).1, List.length_take, List.length_drop]
    rw [Nat.add_mul] at hmore
    omega

/-! ## With a slice -/

/-- Nothing happens after the reader has finished. -/
theorem stateAt_finished {j : Nat} (h : (self.stateAt calls start j).finished = true) (i : Nat) :
    self.stateAt calls start (j + i) = self.stateAt calls start j ∧
      self.resultAt calls start (j + i) = .ok none ∧ self.rowsAt calls start (j + i) = [] := by
  have hstate : self.stateAt calls start (j + i) = self.stateAt calls start j := by
    induction i with
    | zero => rfl
    | succ i ih =>
      show (self.wrrapNextBatch _ _ (self.stateAt calls start (j + i))).2 = _
      rw [ih, wrrapNextBatch_finished h]
  refine ⟨hstate, ?_, ?_⟩
  · rw [resultAt, hstate, wrrapNextBatch_finished h]
  · rw [rowsAt, hstate, rawRows_finished h]

include hb ha hgoing hstream hpred hplain hsingle in
/-- A slice of `n` rows is taken by the first call, which reads no line after the `n`-th row;
later calls give no frame. -/
theorem rowsAt_sliced {n : Nat} (hnRows : ∀ k, (calls k).1.nRows = some n) :
    self.rowsAt calls start 0 = (self.acceptedRows lines).take n ∧
      (∀ k, self.resultAt calls start (k + 1) = .ok none ∧ self.rowsAt calls start (k + 1) = []) ∧
      ∀ k, ∃ taken left, lines = taken ++ left ∧
        self.stream (self.stateAt calls start k) = .ok (.readable left) ∧
        ∀ init last, taken = init ++ [last] → (self.acceptedRows init).length < n := by
  have hsize : ∀ k, self.callSize (calls k).1 = some n := by
    intro k
    unfold callSize
    rw [hnRows, Option.some_or]
  obtain ⟨left, hfirst⟩ := call_reads hsingle hstream hpred hgoing (hplain 0) (hsize 0)
  have hneeded : ∀ init last, self.callLines (calls 0).1 start = init ++ [last] →
      (self.acceptedRows init).length < n := by
    intro init last hlines
    have hcall := (@rawRows_readable _ self (calls 0).1 _ _ _ hstream hpred hgoing).1
    rw [hcall, hsize] at hlines
    have hinit := batchLines_needed hlines
    rw [Nat.zero_add, Option.any_some, decide_eq_true_eq, Nat.not_le] at hinit
    rwa [acceptedRows, List.length_map]
  have hrows : self.rowsAt calls start 0 = (self.acceptedRows lines).take n := by
    rw [rowsAt, acceptedRows, ← List.map_take, ← batchRows_lineOpts ha]
    exact hfirst.rows
  refine ⟨hrows, ?_⟩
  by_cases hfinished : (self.stateAt calls start 1).finished = true
  · have hlater := stateAt_finished hfinished
    refine ⟨fun k => ?_, fun k => ?_⟩
    · rw [Nat.add_comm]
      exact (hlater k).2
    · cases k with
      | zero => exact ⟨[], lines, rfl, hstream, by simp⟩
      | succ k =>
        rw [Nat.add_comm, (hlater k).1]
        exact ⟨self.callLines (calls 0).1 start, left, hfirst.split, hfirst.stream, hneeded⟩
  · -- the stream had fewer rows, and the next call finds its end
    have hfew : n ≠ 0 ∧ (lines.filter self.lineOpts.keeps).length < n := by
      have hmore := mt hfirst.finished.mpr hfinished
      rw [hnRows, Option.any_some, decide_eq_true_eq, List.length_take, not_or, not_or] at hmore
      refine ⟨hmore.1, ?_⟩
      have := hmore.2.2
      omega
    obtain ⟨hn, hfew⟩ := hfew
    have hleft : left.filter self.lineOpts.keeps = [] := by
      rw [hfirst.rest, List.drop_eq_nil_iff]
      omega
    rcases call_cases (.inr (.inl hfirst.opened)) hfirst.stream hpred (hplain 1) (hsize 1) with
      ⟨hdone, -, -⟩ | ⟨-, left', hsecond⟩
    · exact absurd hdone hfinished
    · have hlater := @stateAt_finished _ self calls start 2
        (hsecond.finished.mpr (.inr (.inl hleft)))
      refine ⟨fun k => ?_, fun k => ?_⟩
      · cases k with
        | zero =>
          refine ⟨(hsecond.none_iff (Nat.pos_of_ne_zero hn)).mpr hleft, ?_⟩
          have hnone := hsecond.rows
          rw [hleft, List.take_nil] at hnone
          exact hnone
        | succ k =>
          rw [show k + 1 + 1 = 2 + k by omega]
          exact (hlater k).2
      · obtain ⟨taken, left'', hlines, hflow, -, -⟩ :=
          rowsAt_segments hb ha hstream hpred hplain hsingle k
        refine ⟨taken, left'', hlines, hflow, fun init last hinit => ?_⟩
        have hsub : (init.filter self.lineOpts.keeps).Sublist
          (lines.filter self.lineOpts.keeps) := by
          rw [hlines, hinit, List.append_assoc]
          exact (List.sublist_append_left _ _).filter _
        rw [acceptedRows, List.length_map]
        exact Nat.lt_of_le_of_lt hsub.length_le hfew

end

end LazyLogFmtReader

open LazyLogFmtReader in
/-- The calls of the single-threaded path accumulate consecutive segments of the accepted rows:
without a slice all of them, `b` in every call but the last; with one of `n` rows the first `n`,
reading no line after the last of them. -/
theorem nextBatch_exactlyOnce {self : LazyLogFmtReader} {calls : Nat → AnonymousScanArgs × Schedule}
    {start : LogFmtReaderState} {lines : List Bytes} {pred : Option Schema} {b : Nat}
    (hb : self.batchSize = some b) (hpos : 0 < b) (ha : self.alignedColsCnt = false)
    (hgoing : start.finished = false) (hstream : self.stream start = .ok (.readable lines))
    (hpred : self.predicted = .ok pred) (hplain : ∀ k, Plain (calls k).1)
    (hsingle : self.SingleThreaded (calls 0).1 (calls 0).2 start) :
    (∀ k, ∃ taken left, lines = taken ++ left ∧
      self.stream (self.stateAt calls start k) = .ok (.readable left) ∧
      (List.range k).flatMap (self.rowsAt calls start) = self.acceptedRows taken) ∧
    ((∀ k, (calls k).1.nRows = none) →
      ∃ last, (∀ k, self.resultAt calls start k = .ok none ↔ last ≤ k) ∧
        (List.range last).flatMap (self.rowsAt calls start) = self.acceptedRows lines ∧
        ∀ k, k + 1 < last → (self.rowsAt calls start k).length = b) ∧
    ∀ n, (∀ k, (calls k).1.nRows = some n) →
      self.rowsAt calls start 0 = (self.acceptedRows lines).take n ∧
      (∀ k, self.resultAt calls start (k + 1) = .ok none ∧ self.rowsAt calls start (k + 1) = []) ∧
      ∀ k, ∃ taken left, lines = taken ++ left ∧
        self.stream (self.stateAt calls start k) = .ok (.readable left) ∧
        ∀ init last, taken = init ++ [last] → (self.acceptedRows init).length < n := by
  refine ⟨fun k => ?_, fun hnRows => ?_, fun n hnRows => ?_⟩
  · obtain ⟨taken, left, hlines, hflow, -, hrows⟩ :=
      rowsAt_segments hb ha hstream hpred hplain hsingle k
    exact ⟨taken, left, hlines, hflow, hrows⟩
  · exact rowsAt_all hb ha hgoing hstream hpred hplain hsingle hpos hnRows
  · exact rowsAt_sliced hb ha hgoing hstream hpred hplain hsingle hnRows

end

section

attribute [local instance] smallCrates

/-- Three lines, two at a time. -/
def threeLines : LazyLogFmtReader :=
  { source := .cursor (Utf8.ofString "a=1\nb=2\na=3\n"), batchSize := some 2 }

theorem nextBatch_exactlyOnce_threeLines :
    ∃ last, (∀ k, threeLines.resultAt (fun _ => ({}, {})) {} k = .ok none ↔ last ≤ k) := by
  have hb : threeLines.batchSize = some 2 := rfl
  have ha : threeLines.alignedColsCnt = false := rfl
  have hstream : threeLines.stream {} = .ok (.readable
      [Utf8.ofString "a=1\n", Utf8.ofString "b=2\n", Utf8.ofString "a=3\n"]) := by
    have hvalid : ∀ line ∈ Lines.split newline (Utf8.ofString "a=1\nb=2\na=3\n"),
        checkLine line = .ok line := fun line => checkLine_of_valid (Utf8.valid_encode _)
    exact congrArg Except.ok (LineReader.ofBytes_valid hvalid)
  obtain ⟨last, hlast, -⟩ := (@nextBatch_exactlyOnce _ threeLines (fun _ => ({}, {})) {} _ _ 2 hb
    (by decide) ha rfl hstream rfl (fun _ => ⟨rfl, rfl⟩)
    (.inr (.inr (.inr ⟨_, rfl, .inl rfl⟩)))).2.1 fun _ => rfl
  exact ⟨last, hlast⟩

end

end PolarsLogfmt
