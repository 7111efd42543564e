import PolarsLogfmt.Lazy.NextBatch
import PolarsLogfmt.Lazy.StackedBatches

/-!
# Runs of `next_batch`

Successive calls on the single-threaded path. A call that meets `SafeCall` takes lines from the
stream, counts the accepted ones and delivers the kept ones; a run of such calls does, too.
-/

namespace PolarsLogfmt

/-- The lines among what a stream holds. -/
def readLines (entries : List (Except IoError Bytes)) : List Bytes :=
  entries.filterMap Except.toOption

theorem readLines_append (as bs : List (Except IoError Bytes)) :
    readLines (as ++ bs) = readLines as ++ readLines bs := List.filterMap_append

theorem readLines_ok (lines : List Bytes) : readLines (lines.map .ok) = lines := by
  unfold readLines
  rw [List.filterMap_map]
  exact List.filterMap_some

/-- Errors hold no line. -/
theorem readLines_errors {entries : List (Except IoError Bytes)}
    (h : ∀ line, Except.ok line ∉ entries) :
    readLines entries = [] := by
  unfold readLines
  rw [List.filterMap_eq_nil_iff]
  intro entry hentry
  cases entry with
  | ok line => exact absurd hentry (h line)
  | error e => rfl

variable [Crates]

namespace LazyLogFmtReader

variable (self : LazyLogFmtReader)

/-- The accepted lines in some part of the stream. -/
def acceptedIn (entries : List (Except IoError Bytes)) : List Bytes :=
  (readLines entries).filter (accepts self.lineFilter)

/-- The lines in some part of the stream that become rows. -/
def keptIn (entries : List (Except IoError Bytes)) : List Bytes :=
  (readLines entries).filter self.lineOpts.keeps

/-- Nothing taken from the stream is lost in a call: it does not fail on a line after an accepted
one, and the columns of its rows take the pushdown. -/
structure SafeCall (logs : LazyLogFmtReader) (scanOpts : AnonymousScanArgs)
    (state : LogFmtReaderState) : Prop where
  reads : (logs.callLines scanOpts state).filter (accepts logs.lineFilter) ≠ [] →
    ∀ reader, logs.stream state = .ok reader →
      BatchCompletes logs.lineOpts (logs.callSize scanOpts) reader
  pushes : (logs.callLines scanOpts state).filter logs.lineOpts.keeps ≠ [] →
    scanOpts.FitsColumns
      (batchKeys logs.lineOpts ((logs.callLines scanOpts state).filter logs.lineOpts.keeps))

instance (logs : LazyLogFmtReader) (scanOpts : AnonymousScanArgs) (state : LogFmtReaderState) :
    Decidable (logs.SafeCall scanOpts state) :=
  decidable_of_iff
    (((logs.callLines scanOpts state).filter (accepts logs.lineFilter) ≠ [] →
        ∀ reader ∈ (logs.stream state).toOption,
          BatchCompletes logs.lineOpts (logs.callSize scanOpts) reader) ∧
      ((logs.callLines scanOpts state).filter logs.lineOpts.keeps ≠ [] →
        scanOpts.FitsColumns
          (batchKeys logs.lineOpts ((logs.callLines scanOpts state).filter logs.lineOpts.keeps))))
    ⟨fun h => ⟨fun hne reader hreader => h.1 hne reader (by rw [hreader]; rfl), h.2⟩,
      fun h => ⟨fun hne reader hreader => h.reads hne reader (by
        cases hstream : logs.stream state with
        | error e => rw [hstream] at hreader; cases hreader
        | ok found => rw [hstream] at hreader; cases hreader; rfl), h.pushes⟩⟩

/-- The lines whose rows a call delivers: none when it fails. -/
def deliveredBy (scanOpts : AnonymousScanArgs) (sched : Schedule) (state : LogFmtReaderState) :
    List Bytes :=
  if (self.wrrapNextBatch scanOpts sched state).1.toOption.isSome then
    (self.callLines scanOpts state).filter self.lineOpts.keeps
  else []

variable {self} {scanOpts : AnonymousScanArgs} {sched : Schedule} {state : LogFmtReaderState}

theorem accepts_of_keeps {line : Bytes} (h : self.lineOpts.keeps line = true) :
    accepts self.lineFilter line = true := (Bool.and_eq_true_iff.mp h).1

theorem keptIn_append (as bs : List (Except IoError Bytes)) :
    self.keptIn (as ++ bs) = self.keptIn as ++ self.keptIn bs := by
  rw [keptIn, readLines_append, List.filter_append]
  rfl

theorem acceptedIn_append (as bs : List (Except IoError Bytes)) :
    self.acceptedIn (as ++ bs) = self.acceptedIn as ++ self.acceptedIn bs := by
  rw [acceptedIn, readLines_append, List.filter_append]
  rfl

/-- Without an accepted line there is no row. -/
theorem filter_keeps_of_accepts {lines : List Bytes}
    (h : lines.filter (accepts self.lineFilter) = []) : lines.filter self.lineOpts.keeps = [] := by
  rw [List.filter_eq_nil_iff] at h ⊢
  exact fun line hline hkept => h line hline (accepts_of_keeps hkept)

theorem entries_of_stream {reader : LineReader} (h : self.stream state = .ok reader) :
    self.entries state = reader.lines := by
  unfold entries
  rw [h]
  rfl

/-- What is taken from the stream, counted and delivered in a step. -/
structure Takes (logs : LazyLogFmtReader) (state next : LogFmtReaderState)
    (taken : List (Except IoError Bytes)) (delivered : List Bytes) : Prop where
  entries : logs.entries state = taken ++ logs.entries next
  offset : next.offset = state.offset + (logs.acceptedIn taken).length
  delivered : delivered = logs.keptIn taken

/-- A batch that is complete delivers its rows when their columns take the pushdown. -/
theorem takes_of_completes {reader : LineReader} {size : Option Nat} {schema : Option Schema}
    {eof : Bool} {lines : List Bytes} {result : Except PolarsError (Option DataFrame)}
    {next : LogFmtReaderState} (hstream : self.stream state = .ok reader)
    (hlines : batchLines self.lineOpts size 0 reader.lines = lines)
    (hpushes : lines.filter self.lineOpts.keeps ≠ [] →
      scanOpts.FitsColumns (batchKeys self.lineOpts (lines.filter self.lineOpts.keeps)))
    (hturn : (result, next) = finishBatch scanOpts size schema
      { state with reader := some ⟨reader.lines.drop lines.length, reader.stuck⟩ }
      (lines.foldl (BatchState.takeLine self.lineOpts) {}) eof)
    (heof : eof = true ↔ ¬ size.any (· ≤ (lines.filter self.lineOpts.keeps).length) = true) :
    self.Takes state next (lines.map .ok)
      (if result.toOption.isSome then lines.filter self.lineOpts.keeps else []) := by
  have hresult := congrArg Prod.fst hturn
  have hnext := congrArg Prod.snd hturn
  have hrows := foldl_takeLine_eq self.lineOpts lines
  have hread := foldl_takeLine_linesRead self.lineOpts lines {}
  have hok : result.toOption.isSome ∨ lines = [] := by
    by_cases hkept : lines.filter self.lineOpts.keeps = []
    · rw [hkept] at hrows heof
      by_cases hend : eof = true
      · left
        rw [show result = _ from hresult]
        exact finishBatch_ok (.inl ⟨hend, hrows⟩)
      · -- a batch without rows that is full was asked for none
        right
        have hfull : size.any (· ≤ 0) = true := by
          by_contra hmore
          exact hend (heof.mpr hmore)
        rw [← hlines, batchLines_full hfull]
    · left
      rw [show result = _ from hresult]
      apply finishBatch_ok
      right
      rw [hrows]
      exact hpushes hkept
  have happend := @batchLines_append _ self.lineOpts size 0 reader.lines
  rw [hlines] at happend
  have hreader : next.reader = some ⟨reader.lines.drop lines.length, reader.stuck⟩ := by
    rw [show next = _ from hnext, finishBatch_reader]
  refine ⟨?_, ?_, ?_⟩
  · have hleft : self.stream next = .ok ⟨reader.lines.drop lines.length, reader.stuck⟩ := by
      unfold stream
      rw [hreader]
      rfl
    rw [entries_of_stream hstream, entries_of_stream hleft, happend]
  · rw [show next = _ from hnext, finishBatch_offset, ← hresult, acceptedIn, readLines_ok]
    rcases hok with hok | rfl
    · rw [if_pos hok, hread]
      exact congrArg (state.offset + ·) (Nat.zero_add _)
    · split <;> rfl
  · rw [keptIn, readLines_ok]
    rcases hok with hok | rfl
    · rw [if_pos hok]
    · exact ite_self _

/-- What a safe call takes, counts and delivers. -/
theorem SafeCall.takes (h : self.SafeCall scanOpts state)
    (hsingle : self.SingleThreaded scanOpts sched state) :
    ∃ taken, self.Takes state (self.wrrapNextBatch scanOpts sched state).2 taken
      (self.deliveredBy scanOpts sched state) := by
  unfold deliveredBy
  by_cases hfinished : state.finished = true
  · -- a finished reader does nothing
    have hlines : self.callLines scanOpts state = [] := if_pos (.inl hfinished)
    rw [wrrapNextBatch_finished hfinished, hlines]
    exact ⟨[], rfl, rfl, rfl⟩
  have hgoing : state.finished = false := by simpa using hfinished
  rw [wrrapNextBatch_single hsingle hgoing]
  cases hstream : self.stream state with
  | error e =>
    rw [singleBatch_unopened hstream]
    exact ⟨[], rfl, rfl, rfl⟩
  | ok reader =>
    cases hpred : self.predicted with
    | error e =>
      rw [singleBatch_unpredicted hstream hpred]
      exact ⟨[], entries_of_stream hstream, rfl, rfl⟩
    | ok pred =>
      have hlines : self.callLines scanOpts state =
          batchLines self.lineOpts (self.callSize scanOpts) 0 reader.lines := by
        unfold callLines
        rw [if_neg (by simp [hgoing, hpred, Except.toOption]), entries_of_stream hstream]
      rcases @singleBatch_cases _ self scanOpts state
        (self.callSize scanOpts) _ _ hstream hpred with
        ⟨hcompletes, eof, hturn, heof⟩ | ⟨hfails, e, passed, rest, hturn, hdrop, hpassed⟩
      · rw [hlines]
        refine ⟨_, takes_of_completes hstream rfl ?_ hturn heof⟩
        rw [← hlines]
        exact h.pushes
      · -- the call fails on a line, before which none was accepted
        rw [hturn]
        have hnone : (self.callLines scanOpts state).filter (accepts self.lineFilter) = [] := by
          by_contra hne
          exact hfails (h.reads hne reader hstream)
        have happend := @batchLines_append _ self.lineOpts (self.callSize scanOpts) 0 reader.lines
        rw [hlines] at hnone
        refine ⟨(batchLines self.lineOpts (self.callSize scanOpts) 0 reader.lines).map .ok ++
          passed, ?_, ?_, ?_⟩
        · rw [entries_of_stream hstream, List.append_assoc]
          show reader.lines = _ ++ (passed ++ rest)
          rw [← hdrop, happend]
        · rw [acceptedIn_append, acceptedIn, acceptedIn, readLines_ok, hnone,
            readLines_errors hpassed]
          rfl
        · rw [keptIn_append, keptIn, keptIn, readLines_ok, filter_keeps_of_accepts hnone,
            readLines_errors hpassed]
          rfl

/-! ## Runs -/

theorem Takes.trans {mid last : LogFmtReaderState} {taken taken' : List (Except IoError Bytes)}
    {delivered delivered' : List Bytes} (h : self.Takes state mid taken delivered)
    (h' : self.Takes mid last taken' delivered') :
    self.Takes state last (taken ++ taken') (delivered ++ delivered') := by
  refine ⟨?_, ?_, ?_⟩
  · rw [h.entries, h'.entries, List.append_assoc]
  · rw [h'.offset, h.offset, acceptedIn_append, List.length_append, Nat.add_assoc]
  · rw [h.delivered, h'.delivered, keptIn_append]

variable (self)

/-- The state after some calls. -/
def stateAfter (start : LogFmtReaderState) (calls : List (AnonymousScanArgs × Schedule)) :
    LogFmtReaderState :=
  calls.foldl (fun state call => (self.wrrapNextBatch call.1 call.2 state).2) start

/-- The lines whose rows some calls deliver. -/
def delivered (state : LogFmtReaderState) : List (AnonymousScanArgs × Schedule) → List Bytes
  | [] => []
  | call :: calls =>
      self.deliveredBy call.1 call.2 state ++
        delivered (self.wrrapNextBatch call.1 call.2 state).2 calls

/-- Every call reads a batch, and loses nothing of it. -/
def SafeRun (state : LogFmtReaderState) : List (AnonymousScanArgs × Schedule) → Prop
  | [] => True
  | call :: calls =>
      self.SingleThreaded call.1 call.2 state ∧ self.SafeCall call.1 state ∧
        SafeRun (self.wrrapNextBatch call.1 call.2 state).2 calls

variable {self} {calls : List (AnonymousScanArgs × Schedule)}

theorem SafeRun.take (h : self.SafeRun state calls) (k : Nat) :
    self.SafeRun state (calls.take k) := by
  induction calls generalizing state k with
  | nil =>
    rw [List.take_nil]
    exact h
  | cons call calls ih =>
    cases k with
    | zero => trivial
    | succ k => exact ⟨h.1, h.2.1, ih h.2.2 k⟩

/-- What a safe run takes, counts and delivers. -/
theorem SafeRun.takes (h : self.SafeRun state calls) :
    ∃ taken, self.Takes state (self.stateAfter state calls) taken (self.delivered state calls) := by
  induction calls generalizing state with
  | nil => exact ⟨[], rfl, rfl, rfl⟩
  | cons call calls ih =>
    obtain ⟨hsingle, hsafe, hrest⟩ := h
    obtain ⟨taken, hstep⟩ := hsafe.takes hsingle
    obtain ⟨taken', hrun⟩ := ih hrest
    exact ⟨taken ++ taken', hstep.trans hrun⟩

end LazyLogFmtReader

end PolarsLogfmt
