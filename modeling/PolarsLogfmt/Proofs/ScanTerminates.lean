import PolarsLogfmt.Lazy.NextBatch
import PolarsLogfmt.Lazy.CallRuns

/-!
# The loop of a scan ends

The loop of `scan` goes on after a frame only, and every frame takes a line from the stream or
finishes the reader; the parallel attempt is made in its first turn or not at all.
-/

namespace PolarsLogfmt

variable [Crates]

namespace LazyLogFmtReader

variable {self : LazyLogFmtReader} {scanOpts : AnonymousScanArgs} {sched : Schedule}
  {state next : LogFmtReaderState}

/-- The loop goes on from a state to the one a frame leaves. -/
def GoesOn (self : LazyLogFmtReader) (scanOpts : AnonymousScanArgs)
    (state next : LogFmtReaderState) : Prop :=
  ∃ sched df, self.wrrapNextBatch scanOpts sched state = (.ok (some df), next)

/-- A call in this state makes the parallel attempt. -/
def attempts (self : LazyLogFmtReader) (state : LogFmtReaderState) : Bool :=
  !state.finished && state.reader.isNone && self.useParallel && state.offset == 0

/-- A batch that gives a frame takes a line, or is the last one. -/
theorem singleBatch_progress {size : Option Nat} {schema : Option Schema} {df : DataFrame}
    (h : self.singleBatch scanOpts size schema state = (.ok (some df), next)) :
    next.reader.isSome ∧
      (next.finished = true ∨ ∃ taken, taken ≠ [] ∧
        self.entries state = taken ++ self.entries next) := by
  unfold singleBatch at h
  split at h
  · cases h
  · rename_i reader hreader
    simp only at h
    split at h
    · cases h
    · rename_i pred _
      rw [readBatch_eq] at h
      rcases @parseBatchFromReader_cases _ (self.batchOpts (schema.or pred)) size reader with
        ⟨-, eof, hbatch, -⟩ | ⟨-, e, passed, rest, hbatch, -⟩
      · rw [hbatch] at h
        obtain ⟨hkept, hmore⟩ := finishBatch_some h
        rw [hkept]
        refine ⟨rfl, hmore.imp_right fun hread => ?_⟩
        have hentries : self.entries next = reader.lines.drop
            (batchLines (self.batchOpts (schema.or pred)) size 0 reader.lines).length := by
          unfold entries stream
          rw [hkept]
          rfl
        refine ⟨(batchLines (self.batchOpts (schema.or pred)) size 0 reader.lines).map .ok, ?_, ?_⟩
        · -- a line that was counted was taken
          intro hnil
          rw [List.map_eq_nil_iff.mp hnil] at hread
          exact hread rfl
        · rw [entries_of_stream hreader, hentries, batchLines_append]
      · rw [hbatch] at h
        cases h

/-- A frame finishes the reader, or takes a line from the stream. -/
theorem wrrapNextBatch_progress {df : DataFrame}
    (h : self.wrrapNextBatch scanOpts sched state = (.ok (some df), next)) :
    next.finished = true ∨
      (next.reader.isSome ∧
        ∃ taken, taken ≠ [] ∧ self.entries state = taken ++ self.entries next) := by
  have hsingle : ∀ {size schema},
    self.singleBatch scanOpts size schema state = (.ok (some df), next) →
      next.finished = true ∨ (next.reader.isSome ∧
        ∃ taken, taken ≠ [] ∧ self.entries state = taken ++ self.entries next) := by
    intro size schema hbatch
    obtain ⟨hopened, hmore⟩ := singleBatch_progress hbatch
    exact hmore.imp_right fun htaken => ⟨hopened, htaken⟩
  unfold wrrapNextBatch at h
  simp only at h
  split at h
  · cases h
  · split at h
    · split at h
      · cases h
      · cases h
        exact .inl rfl
      · exact hsingle h
    · exact hsingle h

/-- No attempt is made after a frame. -/
theorem GoesOn.not_attempts (h : self.GoesOn scanOpts state next) : self.attempts next = false := by
  obtain ⟨sched, df, hturn⟩ := h
  unfold attempts
  rcases wrrapNextBatch_progress hturn with hfinished | ⟨hopened, -⟩
  · rw [hfinished]
    rfl
  · obtain ⟨reader, hreader⟩ := Option.isSome_iff_exists.mp hopened
    rw [hreader]
    simp

theorem left_le (state : LogFmtReaderState) :
    self.left state ≤ (self.entries state).length + 1 := by
  unfold left entries stream
  split
  · exact Nat.zero_le _
  · cases state.reader with
    | some reader => exact Nat.le_refl _
    | none =>
      cases self.openReader with
      | error e => exact Nat.le_refl _
      | ok reader => exact Nat.le_refl _

/-- Every turn leaves less to do, so there are no more turns than lines. -/
theorem length_le_left {states : List LogFmtReaderState}
    (h : List.IsChain (self.GoesOn scanOpts) (state :: states)) :
    states.length ≤ self.left state := by
  induction states generalizing state with
  | nil => exact Nat.zero_le _
  | cons next states ih =>
    obtain ⟨⟨sched, df, hturn⟩, hrest⟩ := List.isChain_cons_cons.mp h
    have hless := wrrapNextBatch_left hturn
    have hmore := ih hrest
    rw [List.length_cons]
    omega

/-- The later states of a run make no attempt. -/
theorem filter_attempts {states : List LogFmtReaderState}
    (h : List.IsChain (self.GoesOn scanOpts) (state :: states)) :
    states.filter self.attempts = [] := by
  induction states generalizing state with
  | nil => rfl
  | cons next states ih =>
    obtain ⟨hturn, hrest⟩ := List.isChain_cons_cons.mp h
    rw [List.filter_cons_of_neg (by rw [hturn.not_attempts]; exact Bool.false_ne_true), ih hrest]

end LazyLogFmtReader

open LazyLogFmtReader in
/-- A call of `scan` errors, gives no frame, finishes the reader or takes a line; so the loop makes
at most one turn more than the stream has lines, and one parallel attempt. -/
theorem scan_terminates (self : LazyLogFmtReader) (scanOpts : AnonymousScanArgs) :
    (∀ sched state,
      (∃ e, (self.wrrapNextBatch scanOpts sched state).1 = .error e) ∨
      (self.wrrapNextBatch scanOpts sched state).1 = .ok none ∨
      (self.wrrapNextBatch scanOpts sched state).2.finished = true ∨
      ∃ taken, taken ≠ [] ∧ self.entries state =
        taken ++ self.entries (self.wrrapNextBatch scanOpts sched state).2) ∧
    ∀ state states, List.IsChain (self.GoesOn scanOpts) (state :: states) →
      states.length ≤ (self.entries state).length + 1 ∧
        ((state :: states).filter self.attempts).length ≤ 1 := by
  refine ⟨fun sched state => ?_, fun state states h => ⟨?_, ?_⟩⟩
  · cases hturn : self.wrrapNextBatch scanOpts sched state with
    | mk result next =>
      cases result with
      | error e => exact .inl ⟨e, rfl⟩
      | ok out =>
        cases out with
        | none => exact .inr (.inl rfl)
        | some df =>
          rcases wrrapNextBatch_progress hturn with hfinished | ⟨-, htaken⟩
          · exact .inr (.inr (.inl hfinished))
          · exact .inr (.inr (.inr htaken))
  · exact (length_le_left h).trans (left_le state)
  · rw [List.filter_cons, filter_attempts h]
    split <;> simp

end PolarsLogfmt
