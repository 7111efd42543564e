import PolarsLogfmt.Lazy.CallRuns

/-!
# What a failed batch loses

A batch is taken from the stream before its frame is built and before its lines are counted. A
call that fails in between has lost the rows it took.
-/

namespace PolarsLogfmt

section

variable [Crates]

/-- After some calls the accepted lines taken from the stream are counted in the offset, and the
kept ones have been delivered. -/
def NothingLost (self : LazyLogFmtReader) (start : LogFmtReaderState)
    (calls : List (AnonymousScanArgs × Schedule)) : Prop :=
  ∃ taken, self.Takes start (self.stateAfter start calls) taken (self.delivered start calls)

/-- Nothing is lost in any state of a run whose calls fail on no line after an accepted one, and
in which the columns of every batch take the pushdown. -/
theorem nextBatch_lossless {self : LazyLogFmtReader} {start : LogFmtReaderState}
    {calls : List (AnonymousScanArgs × Schedule)} (h : self.SafeRun start calls) (k : Nat) :
    NothingLost self start (calls.take k) := (h.take k).takes

end

section

attribute [local instance] smallCrates

/-- Lines of different keys, one of them no UTF-8, in batches of one row. -/
def mixedCursor : LazyLogFmtReader :=
  { source := .cursor (Utf8.ofString "a=1\n\nb=2\n" ++ [0xFF, newline] ++ Utf8.ofString "b=7 c=8\n")
    batchSize := some 1 }

/-- The rows with the text `2` in the column `b`. -/
def twoInB : AnonymousScanArgs :=
  { predicate := some ⟨[Utf8.ofString "b"], (· = [.string (Utf8.ofString "2")])⟩
    withColumns := some [Utf8.ofString "b"] }

/-- A call on each line: one with nothing pushed down, one with a predicate and a projection, one
that fails, one with a predicate that is true on no row, and one at the end. -/
def mixedCalls : List (AnonymousScanArgs × Schedule) :=
  [({}, {}), (twoInB, {}), ({}, {}), (twoInB, {}), ({}, {})]

theorem nextBatch_lossless_mixed : NothingLost mixedCursor {} mixedCalls := by
  have hsingle : ∀ scanOpts sched state, mixedCursor.SingleThreaded scanOpts sched state :=
    fun _ _ _ => .inr (.inr (.inr ⟨_, rfl, .inl rfl⟩))
  exact nextBatch_lossless (k := 5) (show mixedCursor.SafeRun {} mixedCalls from
    ⟨hsingle _ _ _, by decide +kernel, hsingle _ _ _, by decide +kernel, hsingle _ _ _,
      by decide +kernel, hsingle _ _ _, by decide +kernel, hsingle _ _ _, by decide +kernel,
      trivial⟩)

example : ((mixedCursor.stateAfter {} mixedCalls).offset,
    mixedCursor.delivered {} mixedCalls) = (3, [Utf8.ofString "a=1\n", Utf8.ofString "b=2\n",
      Utf8.ofString "b=7 c=8\n"]) := by decide +kernel

/-- A batch of the one line `a=1`. -/
def oneLineCursor : LazyLogFmtReader := { source := .cursor (Utf8.ofString "a=1\n") }

/-- A predicate that reads the column `b`. -/
def readsMissing : AnonymousScanArgs := { predicate := some ⟨[Utf8.ofString "b"], fun _ => true⟩ }

/-- The line is taken, but neither counted nor delivered. -/
theorem nextBatch_lossless_counterexample :
    ¬ NothingLost oneLineCursor {} [(readsMissing, {})] := by
  rintro ⟨taken, htakes⟩
  have hall : (oneLineCursor.acceptedIn (oneLineCursor.entries {})).length = 1 := by decide +kernel
  have hleft : (oneLineCursor.entries (oneLineCursor.stateAfter {} [(readsMissing, {})])).length =
    0 := by
    decide +kernel
  have hoffset : (oneLineCursor.stateAfter {} [(readsMissing, {})]).offset = 0 := by decide +kernel
  have hcount := htakes.offset
  rw [htakes.entries, List.length_eq_zero_iff.mp hleft, List.append_nil] at hall
  rw [hoffset, hall] at hcount
  cases hcount

end

end PolarsLogfmt
