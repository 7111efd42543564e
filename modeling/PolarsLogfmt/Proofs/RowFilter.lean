import PolarsLogfmt.Lazy.ReadableCalls
import PolarsLogfmt.Lazy.ShownLines
import PolarsLogfmt.Proofs.AlignedCuts

/-!
# The row filter

The sequential path asks the row filter of every accepted line. The workers of an aligned scan put
lines into builders without making a row of them, and so without asking: the filter is honoured when
the lines whose keys reach a column are those it keeps.
-/

namespace PolarsLogfmt

section

variable [Crates]

/-! ## One call -/

namespace LazyLogFmtReader

section

variable (self : LazyLogFmtReader) (scanOpts : AnonymousScanArgs) (sched : Schedule)
  (state : LogFmtReaderState)

/-- The call makes an attempt. -/
def TriesWorkers : Prop :=
  state.finished = false ∧ state.reader.isNone ∧ self.useParallel ∧ state.offset = 0

instance : Decidable (self.TriesWorkers state) := by
  unfold TriesWorkers
  infer_instance

/-- The schema of a call: an attempt infers one if there is none. -/
def callSchema : Option Schema :=
  if self.TriesWorkers state then (self.parallelBatch scanOpts self.schema sched).1 else self.schema

/-- The reader that reads the batch of a call. -/
def callReader : LazyLogFmtReader :=
  { self with schema := self.callSchema scanOpts sched state, useParallel := false }

/-- The results of the workers of a call. -/
def callResults : List (Except PolarsError DataFrame) :=
  if self.TriesWorkers state then
    self.workerFrames scanOpts (self.callSchema scanOpts sched state) sched
  else []

end

variable {self : LazyLogFmtReader} {scanOpts : AnonymousScanArgs} {sched : Schedule}
  {state : LogFmtReaderState} {df : DataFrame}

theorem callReader_single :
    (self.callReader scanOpts sched state).SingleThreaded scanOpts sched state :=
  .inr (.inl rfl)

/-- The frame of a call is that of the rows of the kept lines it takes. -/
theorem call_frame (hplain : Plain scanOpts) (hsingle : self.SingleThreaded scanOpts sched state)
    (h : (self.wrrapNextBatch scanOpts sched state).1 = .ok (some df)) :
    ∃ schema, df = filledFrame (batchRows self.lineOpts
      ((self.callLines scanOpts state).filter self.lineOpts.keeps)) (some schema) := by
  by_cases hfinished : state.finished = true
  · rw [wrrapNextBatch_finished hfinished] at h
    cases h
  have hgoing : state.finished = false := by simpa using hfinished
  rw [wrrapNextBatch_single hsingle hgoing] at h
  cases hstream : self.stream state with
  | error e =>
    rw [singleBatch_unopened hstream] at h
    cases h
  | ok reader =>
    cases hpred : self.predicted with
    | error e =>
      rw [singleBatch_unpredicted hstream hpred] at h
      cases h
    | ok pred =>
      have hlines : self.callLines scanOpts state =
          batchLines self.lineOpts (self.callSize scanOpts) 0 reader.lines := by
        unfold callLines
        rw [if_neg (by simp [hgoing, hpred, Except.toOption]), entries_of_stream hstream]
      rcases @singleBatch_cases _ self scanOpts state
        (self.callSize scanOpts) _ _ hstream hpred with
        ⟨-, eof, hturn, -⟩ | ⟨-, e, passed, rest, hturn, -⟩
      · rw [hturn] at h
        obtain ⟨used, hused⟩ := finishBatch_made hplain h
        rw [foldl_takeLine_eq, ← hlines] at hused
        refine ⟨used, hused.trans ?_⟩
        have hheight := filledFrame_height_le (batchRows self.lineOpts
          ((self.callLines scanOpts state).filter self.lineOpts.keeps)) (some used)
        rw [length_batchRows] at hheight
        unfold capBatch
        split
        · rename_i n hn
          have hle := @kept_batchLines_le _ self.lineOpts n 0 reader.lines (Nat.zero_le n)
          rw [← hn, ← hlines, Nat.zero_add] at hle
          rw [if_neg (Nat.not_lt.mpr (hheight.trans hle))]
        · rfl
      · rw [hturn] at h
        cases h

/-- It shows these lines when one of them has a key. -/
theorem call_shows_iff (hplain : Plain scanOpts)
    (hsingle : self.SingleThreaded scanOpts sched state)
    (h : (self.wrrapNextBatch scanOpts sched state).1 = .ok (some df)) :
    Shows self.lineOpts df ((self.callLines scanOpts state).filter self.lineOpts.keeps) ↔
      ((self.callLines scanOpts state).filter self.lineOpts.keeps = [] ∨
        ∃ line ∈ (self.callLines scanOpts state).filter self.lineOpts.keeps,
        lineColumns line ≠ []) := by
  obtain ⟨schema, rfl⟩ := call_frame hplain hsingle h
  have hiff := @filledFrame_shows_iff _ self.lineOpts
    [(self.callLines scanOpts state).filter self.lineOpts.keeps] (some schema)
  rw [List.flatten_singleton, List.flatMap_singleton] at hiff
  rw [hiff, ← @batchKeys_ne_nil_iff _ self.lineOpts]
  exact Iff.rfl

/-- A call whose workers make no frame is one of the reader that has its schema. -/
theorem wrrapNextBatch_callReader {text : Bytes} (hsource : self.source.Delivers text)
    (hnot : ¬ Answers (self.callResults scanOpts sched state))
    (h : (self.wrrapNextBatch scanOpts sched state).1 = .ok (some df)) :
    ((self.callReader scanOpts sched state).wrrapNextBatch scanOpts sched state).1 =
      .ok (some df) := by
  have hgoing : state.finished = false := by
    by_contra hfinished
    rw [Bool.not_eq_false] at hfinished
    rw [wrrapNextBatch_finished hfinished] at h
    cases h
  rw [wrrapNextBatch_single callReader_single hgoing]
  by_cases htries : self.TriesWorkers state
  · unfold wrrapNextBatch at h
    rw [if_neg (by simp [hgoing]), if_pos htries.2] at h
    have hschema : self.callSchema scanOpts sched state =
        (self.parallelBatch scanOpts self.schema sched).1 := if_pos htries
    unfold callResults at hnot
    rw [if_pos htries, hschema] at hnot
    unfold callReader
    rw [hschema]
    cases hattempt : self.parallelBatch scanOpts self.schema sched with
    | mk schema result =>
      rw [hattempt] at h hnot
      cases result with
      | error e => cases h
      | ok made =>
        obtain rfl := (parallelBatch_answers hsource hattempt).2 hnot
        exact h
  · unfold wrrapNextBatch at h
    rw [if_neg (by simp [hgoing]), if_neg fun hboth => htries ⟨hgoing, hboth⟩] at h
    unfold callReader callSchema
    rw [if_neg htries]
    exact h

/-- The rows of a call whose workers make the frame. -/
theorem call_rows {text : Bytes} (hsource : self.source.Delivers text) (hplain : Plain scanOpts)
    (hanswers : Answers (self.callResults scanOpts sched state))
    (h : (self.wrrapNextBatch scanOpts sched state).1 = .ok (some df)) :
    df.rows = (self.pushedTraces scanOpts (self.callSchema scanOpts sched state) sched).flatMap
      (builtRows (self.frameOpts scanOpts (self.callSchema scanOpts sched state))) := by
  have htries : self.TriesWorkers state := by
    by_contra hnone
    rw [callResults, if_neg hnone] at hanswers
    exact not_answers_nil hanswers
  have hschema : self.callSchema scanOpts sched state =
      (self.parallelBatch scanOpts self.schema sched).1 := if_pos htries
  rw [callResults, if_pos htries, hschema] at hanswers
  rw [hschema]
  unfold wrrapNextBatch at h
  rw [if_neg (by simp [htries.1]), if_pos htries.2] at h
  cases hattempt : self.parallelBatch scanOpts self.schema sched with
  | mk schema result =>
    rw [hattempt] at h hanswers
    cases result with
    | error e => cases h
    | ok made =>
      obtain ⟨stacked, rfl, -, hrows⟩ :=
        parallelBatch_rows hsource hplain.1 hplain.2 hattempt hanswers
      cases h
      exact hrows

end LazyLogFmtReader

/-! ## The scan -/

section

variable {self : LazyLogFmtReader} {text : Bytes} (hsource : self.source.Delivers text)
  {probe : Option LineReader} (hprobe : ∀ reader ∈ probe, reader = .ofBytes text) {sched : Schedule}
  {df : DataFrame} {schema : Schema} (hschema : self.textSchema text = .ok schema)
  {nRows : Option Nat} (hdf : AnonymousScan.scan self { nRows := nRows } sched probe = .ok df)

include hsource hprobe hschema hdf

/-- The rows of a scan whose workers make the frame. -/
theorem scan_workerRows
    (hanswers : LazyLogFmtReader.Answers ((self.scanReader schema).attemptResults
      { nRows := nRows } (some schema) sched (self.schema.bind fun _ => probe).isSome)) :
    df.rows = asked nRows (((self.scanReader schema).pushedTraces { nRows := nRows } (some schema)
      sched).flatMap (builtRows ((self.scanReader schema).frameOpts { nRows := nRows }
        (some schema)))) := by
  have hsource' : (self.scanReader schema).source.Delivers text := hsource
  have hnone : ¬ (self.schema.bind fun _ => probe).isSome = true := by
    intro hopened
    rw [LazyLogFmtReader.attemptResults, if_pos hopened] at hanswers
    exact LazyLogFmtReader.not_answers_nil hanswers
  rw [LazyLogFmtReader.attemptResults, if_neg hnone] at hanswers
  rw [scan_delivers hsource { nRows := nRows } sched hprobe, hschema] at hdf
  simp only [LazyLogFmtReader.scanText, LazyLogFmtReader.attempt, if_neg hnone] at hdf
  cases hattempt : ((self.scanReader schema).parallelBatch { nRows := nRows }
    (some schema) sched).2 with
  | error e =>
    rw [show (self.scanReader schema).schema = some schema from rfl, hattempt] at hdf
    cases hdf
  | ok result =>
    have hkept := (self.scanReader schema).parallelBatch_schema { nRows := nRows } schema sched
    have hboth : (self.scanReader schema).parallelBatch { nRows := nRows } (some schema) sched =
        (some schema, .ok result) := Prod.ext hkept hattempt
    obtain ⟨stacked, rfl, hwidth, hrows⟩ :=
      LazyLogFmtReader.parallelBatch_rows hsource' rfl rfl hboth hanswers
    rw [show (self.scanReader schema).schema = some schema from rfl, hattempt] at hdf
    simp only [if_neg hwidth] at hdf
    have hslice : LazyLogFmtReader.sliceRows nRows stacked = df := Except.ok.inj hdf
    rw [← hslice, ← hrows]
    exact LazyLogFmtReader.sliceRows_rows nRows stacked

/-- The sequential path shows the kept lines of the slice when no batch with a line lacks a key, and
the batches are not of no lines. -/
theorem scan_shows_iff
    (hnot : ¬ LazyLogFmtReader.Answers ((self.scanReader schema).attemptResults
      { nRows := nRows } (some schema) sched (self.schema.bind fun _ => probe).isSome)) :
    Shows ((self.scanReader schema).batchOpts (some schema)) df
        (asked nRows ((readableLines text).filter
          ((self.scanReader schema).batchOpts (some schema)).keeps)) ↔
      (∀ batch ∈ scanBatches nRows self.batchSize ((readableLines text).filter
          ((self.scanReader schema).batchOpts (some schema)).keeps),
        batch ≠ [] → ∃ line ∈ batch, lineColumns line ≠ []) ∧
      (nRows = none → self.batchSize = some 0 → (readableLines text).filter
        ((self.scanReader schema).batchOpts (some schema)).keeps = []) := by
  have hsource' : (self.scanReader schema).source.Delivers text := hsource
  obtain ⟨found, acc, hfound, hscan, hslice⟩ := scan_sliced hsource hprobe hdf
  rw [hschema] at hfound
  obtain rfl : schema = found := Except.ok.inj hfound
  have hnone := LazyLogFmtReader.attempt_unanswered hsource' rfl hnot hscan
  obtain ⟨-, hstack⟩ := LazyLogFmtReader.scanText_declined hnone rfl hscan
  have hshown := stackBatches_shown rfl hstack
  have hframe : acc.getD .empty =
    filledFrame ((keyedBatches ((self.scanReader schema).batchOpts (some schema))
      (scanBatches nRows self.batchSize
        ((readableLines text).filter ((self.scanReader schema).batchOpts
        (some schema)).keeps))).flatMap
          (batchRows ((self.scanReader schema).batchOpts (some schema)))) (some schema) := hshown
  have hwhole : LazyLogFmtReader.sliceRows nRows (acc.getD .empty) = acc.getD .empty := by
    cases nRows with
    | none => rfl
    | some n =>
      have hle := @height_shown_le _ ((self.scanReader schema).batchOpts (some schema))
        (some schema) n self.batchSize
        ((readableLines text).filter ((self.scanReader schema).batchOpts (some schema)).keeps)
      rw [← hframe] at hle
      exact if_neg (Nat.not_lt.mpr hle)
  rw [← hslice, hwhole, hframe]
  exact sequential_shows_iff (some schema) nRows self.batchSize _

end

/-! ## Honouring the filter -/

/-- The lines whose keys reach the rows of the workers are among those that are kept, as many as are
asked for. -/
def KeptReach (opts : FrameOpts) (traces : List (List PushedLine)) (limit nRows : Option Nat)
    (kept : List Bytes) : Prop :=
  List.Subperm (reachingLines opts limit traces) kept ∧
    (reachingLines opts limit traces).length = (asked nRows kept).length

theorem workersShow_iff {opts : FrameOpts} {traces : List (List PushedLine)}
    {limit nRows : Option Nat}
    {df : DataFrame} (hrows : df.rows = asked limit (traces.flatMap (builtRows opts)))
    (kept : List Bytes) :
    WorkersShow opts traces limit nRows df kept ↔ KeptReach opts traces limit nRows kept := by
  unfold KeptReach
  rw [← shownLines_eq]
  exact ⟨fun h => ⟨h.among, h.all⟩, fun h => ⟨hrows, h.1, h.2⟩⟩

/-- Workers whose lines start with a key put every accepted line into the builders: the filter has
to keep them all. -/
theorem keptReach_started {self : LazyLogFmtReader} (ha : self.alignedColsCnt = true) {text : Bytes}
    (hcut : self.CutsLines text) (hvalid : ValidLines text) (hworkers : 0 < self.maxInflight)
    (hstarted : ∀ texts ∈ self.workerTexts, ∀ first ∈ (self.acceptedBy texts).head?,
      lineColumns first ≠ []) (schema : Option Schema) (sched : Schedule) :
    KeptReach (self.frameOpts {} schema) (self.pushedTraces {} schema sched) none none
        ((readableLines text).filter (self.batchOpts schema).keeps) ↔
      ∀ line ∈ acceptedLines self.lineFilter text, (self.batchOpts schema).keeps line = true := by
  have hpushed := @LazyLogFmtReader.pushedTraces_lines _ {} self schema sched text hcut.delivers
    ((hcut.valid hworkers).mp hvalid) rfl
  have hstarts : ∀ lines ∈ self.pushedTraces {} schema sched, ∀ first ∈ lines.head?,
      lineColumns first.line ≠ [] := by
    intro lines hlines first hfirst
    have hmem : lines.map PushedLine.line ∈ self.workerTexts.map self.acceptedBy :=
      hpushed ▸ List.mem_map_of_mem hlines
    obtain ⟨texts, htexts, haccepted⟩ := List.mem_map.mp hmem
    refine hstarted texts htexts first.line ?_
    rw [haccepted, List.head?_map, Option.mem_def.mp hfirst]
    rfl
  have hreach : reachingLines (self.frameOpts {} schema) none (self.pushedTraces {} schema sched) =
      acceptedLines self.lineFilter text := by
    rw [reachingLines_started ha hstarts, List.flatMap_def, hpushed, ← List.flatMap_def,
      hcut.accepted hworkers]
  have hkept : (readableLines text).filter (self.batchOpts schema).keeps =
      (acceptedLines self.lineFilter text).filter (self.batchOpts schema).keeps := by
    rw [readableLines_of_valid hvalid, acceptedLines, List.filter_filter]
    apply List.filter_congr
    intro line _
    show (accepts self.lineFilter line && _) =
      ((accepts self.lineFilter line && _) && accepts self.lineFilter line)
    rw [Bool.and_right_comm, Bool.and_self]
  unfold KeptReach asked
  rw [hreach, hkept, Option.elim_none]
  constructor
  · rintro ⟨-, hlen⟩
    exact List.filter_eq_self.mp (List.filter_sublist.eq_of_length hlen.symm)
  · intro hall
    rw [List.filter_eq_self.mpr hall]
    exact ⟨List.Subperm.refl _, rfl⟩

/-- The frame of a scan shows the lines the reader keeps, up to the slice. -/
structure ScanHonours (logs : LazyLogFmtReader) (schema : Schema) (text : Bytes)
    (nRows : Option Nat) (sched : Schedule) (opened : Bool) (df : DataFrame) : Prop where
  workers : LazyLogFmtReader.Answers
      (logs.attemptResults { nRows := nRows } (some schema) sched opened) →
    WorkersShow (logs.frameOpts { nRows := nRows } (some schema))
      (logs.pushedTraces { nRows := nRows } (some schema) sched) nRows nRows df
      ((readableLines text).filter (logs.batchOpts (some schema)).keeps)
  sequential : ¬ LazyLogFmtReader.Answers
      (logs.attemptResults { nRows := nRows } (some schema) sched opened) →
    Shows (logs.batchOpts (some schema)) df
      (asked nRows ((readableLines text).filter (logs.batchOpts (some schema)).keeps))

/-- Those lines reach its rows. Where the workers make it: by their keys. On the sequential path:
when every batch with a line has a key, and the batches are not of no lines. -/
structure ScanReaches (logs : LazyLogFmtReader) (schema : Schema) (text : Bytes)
    (nRows : Option Nat) (sched : Schedule) (opened : Bool) : Prop where
  workers : LazyLogFmtReader.Answers
      (logs.attemptResults { nRows := nRows } (some schema) sched opened) →
    KeptReach (logs.frameOpts { nRows := nRows } (some schema))
      (logs.pushedTraces { nRows := nRows } (some schema) sched) nRows nRows
      ((readableLines text).filter (logs.batchOpts (some schema)).keeps)
  sequential : ¬ LazyLogFmtReader.Answers
      (logs.attemptResults { nRows := nRows } (some schema) sched opened) →
    (∀ batch ∈ scanBatches nRows logs.batchSize
        ((readableLines text).filter (logs.batchOpts (some schema)).keeps), batch ≠ [] →
      ∃ line ∈ batch, lineColumns line ≠ []) ∧
    (nRows = none → logs.batchSize = some 0 →
      (readableLines text).filter (logs.batchOpts (some schema)).keeps = [])

/-- The frame of a call of `next_batch` shows the kept lines: those of the text, up to the slice, if
its workers make it, those of the lines it takes if it reads a batch. -/
structure CallHonours (logs : LazyLogFmtReader) (text : Bytes) (scanOpts : AnonymousScanArgs)
    (sched : Schedule) (state : LogFmtReaderState) (df : DataFrame) : Prop where
  workers : LazyLogFmtReader.Answers (logs.callResults scanOpts sched state) →
    WorkersShow (logs.frameOpts scanOpts (logs.callSchema scanOpts sched state))
      (logs.pushedTraces scanOpts (logs.callSchema scanOpts sched state) sched) none scanOpts.nRows
      df ((readableLines text).filter (logs.batchOpts (logs.callSchema scanOpts sched state)).keeps)
  sequential : ¬ LazyLogFmtReader.Answers (logs.callResults scanOpts sched state) →
    Shows (logs.callReader scanOpts sched state).lineOpts df
      (((logs.callReader scanOpts sched state).callLines scanOpts state).filter
        (logs.callReader scanOpts sched state).lineOpts.keeps)

/-- Those lines reach its rows. Where it reads a batch: when one of them has a key, or there is
none. -/
structure CallReaches (logs : LazyLogFmtReader) (text : Bytes) (scanOpts : AnonymousScanArgs)
    (sched : Schedule) (state : LogFmtReaderState) : Prop where
  workers : LazyLogFmtReader.Answers (logs.callResults scanOpts sched state) →
    KeptReach (logs.frameOpts scanOpts (logs.callSchema scanOpts sched state))
      (logs.pushedTraces scanOpts (logs.callSchema scanOpts sched state) sched) none scanOpts.nRows
      ((readableLines text).filter (logs.batchOpts (logs.callSchema scanOpts sched state)).keeps)
  sequential : ¬ LazyLogFmtReader.Answers (logs.callResults scanOpts sched state) →
    (((logs.callReader scanOpts sched state).callLines scanOpts state).filter
        (logs.callReader scanOpts sched state).lineOpts.keeps = [] ∨
      ∃ line ∈ ((logs.callReader scanOpts sched state).callLines scanOpts state).filter
        (logs.callReader scanOpts sched state).lineOpts.keeps, lineColumns line ≠ [])

theorem scan_honours_iff {self : LazyLogFmtReader} {text : Bytes}
    (hsource : self.source.Delivers text)
    {probe : Option LineReader} (hprobe : ∀ reader ∈ probe, reader = .ofBytes text)
    {schema : Schema}
    (hschema : self.textSchema text = .ok schema) {nRows : Option Nat} {sched : Schedule}
    {df : DataFrame} (hdf : AnonymousScan.scan self { nRows := nRows } sched probe = .ok df) :
    ScanHonours (self.scanReader schema) schema text nRows sched
        (self.schema.bind fun _ => probe).isSome df ↔
      ScanReaches (self.scanReader schema) schema text nRows sched
        (self.schema.bind fun _ => probe).isSome := by
  by_cases hanswers : LazyLogFmtReader.Answers ((self.scanReader schema).attemptResults
      { nRows := nRows } (some schema) sched (self.schema.bind fun _ => probe).isSome)
  · have hiff := @workersShow_iff _ _ _ _ nRows _
      (scan_workerRows hsource hprobe hschema hdf hanswers)
      ((readableLines text).filter ((self.scanReader schema).batchOpts (some schema)).keeps)
    exact ⟨fun h => ⟨fun _ => hiff.mp (h.workers hanswers), fun hnot => absurd hanswers hnot⟩,
      fun h => ⟨fun _ => hiff.mpr (h.workers hanswers), fun hnot => absurd hanswers hnot⟩⟩
  · have hiff := scan_shows_iff hsource hprobe hschema hdf hanswers
    exact ⟨fun h => ⟨fun hyes => absurd hyes hanswers, fun _ => hiff.mp (h.sequential hanswers)⟩,
      fun h => ⟨fun hyes => absurd hyes hanswers, fun _ => hiff.mpr (h.sequential hanswers)⟩⟩

theorem call_honours_iff {self : LazyLogFmtReader} {text : Bytes}
    (hsource : self.source.Delivers text)
    {scanOpts : AnonymousScanArgs} {sched : Schedule} {state : LogFmtReaderState} {df : DataFrame}
    (hplain : LazyLogFmtReader.Plain scanOpts)
    (h : (self.wrrapNextBatch scanOpts sched state).1 = .ok (some df)) :
    CallHonours self text scanOpts sched state df ↔ CallReaches self text scanOpts sched state := by
  by_cases hanswers : LazyLogFmtReader.Answers (self.callResults scanOpts sched state)
  · have hrows : df.rows = asked none _ := LazyLogFmtReader.call_rows hsource hplain hanswers h
    have hiff := @workersShow_iff _ _ _ _ scanOpts.nRows _ hrows
      ((readableLines text).filter (self.batchOpts (self.callSchema scanOpts sched state)).keeps)
    exact ⟨fun h => ⟨fun _ => hiff.mp (h.workers hanswers), fun hnot => absurd hanswers hnot⟩,
      fun h => ⟨fun _ => hiff.mpr (h.workers hanswers), fun hnot => absurd hanswers hnot⟩⟩
  · have hiff := LazyLogFmtReader.call_shows_iff hplain LazyLogFmtReader.callReader_single
      (LazyLogFmtReader.wrrapNextBatch_callReader hsource hanswers h)
    exact ⟨fun h => ⟨fun hyes => absurd hyes hanswers, fun _ => hiff.mp (h.sequential hanswers)⟩,
      fun h => ⟨fun hyes => absurd hyes hanswers, fun _ => hiff.mpr (h.sequential hanswers)⟩⟩

/-- When the row filter is honoured, by `scan` with and without a slice and by any call of
`next_batch`. Workers that start with a key honour it when it keeps every accepted line. A safe run
of calls that read batches delivers the kept ones of all lines it takes. -/
theorem row_filter_iff {self : LazyLogFmtReader} {text : Bytes}
    (hsource : self.source.Delivers text) :
    (∀ {probe : Option LineReader}, (∀ reader ∈ probe, reader = .ofBytes text) → ∀ {schema},
      self.textSchema text = .ok schema → ∀ {nRows sched df},
      AnonymousScan.scan self { nRows := nRows } sched probe = .ok df →
      (ScanHonours (self.scanReader schema) schema text nRows sched
          (self.schema.bind fun _ => probe).isSome df ↔
        ScanReaches (self.scanReader schema) schema text nRows sched
          (self.schema.bind fun _ => probe).isSome)) ∧
    (∀ {scanOpts sched state df}, LazyLogFmtReader.Plain scanOpts →
      (self.wrrapNextBatch scanOpts sched state).1 = .ok (some df) →
      (CallHonours self text scanOpts sched state df ↔
        CallReaches self text scanOpts sched state)) ∧
    (∀ {state calls}, self.SafeRun state calls → ∃ taken,
      self.entries state = taken ++ self.entries (self.stateAfter state calls) ∧
        self.delivered state calls = self.keptIn taken) ∧
    (∀ {logs : LazyLogFmtReader}, logs.alignedColsCnt = true → logs.CutsLines text →
      ValidLines text → 0 < logs.maxInflight →
      (∀ texts ∈ logs.workerTexts, ∀ first ∈ (logs.acceptedBy texts).head?,
        lineColumns first ≠ []) → ∀ (schema : Option Schema) (sched : Schedule),
      (KeptReach (logs.frameOpts {} schema) (logs.pushedTraces {} schema sched) none none
          ((readableLines text).filter (logs.batchOpts schema).keeps) ↔
        ∀ line ∈ acceptedLines logs.lineFilter text,
        (logs.batchOpts schema).keeps line = true)) := by
  refine ⟨fun hprobe _ hschema _ _ _ hdf => scan_honours_iff hsource hprobe hschema hdf,
    fun hplain h => call_honours_iff hsource hplain h, fun hrun => ?_,
    fun ha hcut hvalid hworkers hstarted schema sched =>
      keptReach_started ha hcut hvalid hworkers hstarted schema sched⟩
  obtain ⟨taken, htakes⟩ := hrun.takes
  exact ⟨taken, htakes.entries, htakes.delivered⟩

end

section

attribute [local instance] smallCrates

/-- `a=1`, with a row filter that accepts it. -/
def acceptingReader : LazyLogFmtReader where
  source := .cursor (Utf8.ofString "a=1\n")
  schema := some ∅
  rowFilter := some fun row => row[Utf8.ofString "a"]? = some (.string (Utf8.ofString "1"))

/-- `a=1 b=1` and `a=2` with aligned columns, and a row filter that accepts both or neither. -/
def filteredReader (keep : Bool) : LazyLogFmtReader :=
  { alignedReader [raggedUnits.flatten] 1 with rowFilter := some fun _ => keep }

theorem delivers_filteredReader (keep : Bool) :
    (filteredReader keep).source.Delivers raggedUnits.flatten :=
  ⟨[raggedUnits.flatten], rfl, List.flatten_singleton.symm⟩

/-- The worker makes the frame, whatever the filter says. -/
theorem attempt_filteredReader (keep : Bool) :
    ((filteredReader keep).scanReader ∅).attempt {} {} none =
      .ok (some (promisedFrame ∅ raggedUnits)) := by
  cases keep
  · decide +kernel
  · decide +kernel

theorem scan_filteredReader (keep : Bool) :
    AnonymousScan.scan (filteredReader keep) {} {} none = .ok (promisedFrame ∅ raggedUnits) :=
  @scan_of_attempt _ (filteredReader keep) raggedUnits.flatten (delivers_filteredReader keep)
    none (by simp) ∅ rfl {} rfl {} _ (attempt_filteredReader keep) (by decide +kernel)

theorem answers_filteredReader (keep : Bool) :
    LazyLogFmtReader.Answers (((filteredReader keep).scanReader ∅).attemptResults {} (some ∅) {}
      false) := by
  by_contra hnot
  have hnone := (@LazyLogFmtReader.attempt_answers _ {} ((filteredReader keep).scanReader ∅) {}
    raggedUnits.flatten (delivers_filteredReader keep) ∅ rfl none _
    (attempt_filteredReader keep)).2 hnot
  cases hnone

/-- They make the frame of a first call as well. -/
theorem call_filteredReader (keep : Bool) :
    ((filteredReader keep).wrrapNextBatch {} {} {}).1 = .ok
    (some (promisedFrame ∅ raggedUnits)) := by
  cases keep
  · decide +kernel
  · decide +kernel

theorem answersCall_filteredReader (keep : Bool) :
    LazyLogFmtReader.Answers ((filteredReader keep).callResults {} {} {}) := by
  by_contra hnot
  have hbatch := LazyLogFmtReader.wrrapNextBatch_callReader (delivers_filteredReader keep) hnot
    (call_filteredReader keep)
  cases keep
  · revert hbatch
    decide +kernel
  · revert hbatch
    decide +kernel

theorem row_filter_accepting :
    ScanHonours (acceptingReader.scanReader ∅) ∅ (Utf8.ofString "a=1\n") none {} false
        (filledFrame (batchRows (acceptingReader.batchOpts (some ∅)) [Utf8.ofString "a=1\n"])
          (some ∅)) ∧
      ScanHonours ((filteredReader true).scanReader ∅) ∅ raggedUnits.flatten none {} false
        (promisedFrame ∅ raggedUnits) ∧
      CallHonours (filteredReader true) raggedUnits.flatten {} {} {}
        (promisedFrame ∅ raggedUnits) := by
  refine ⟨?_, ?_, ?_⟩
  · have hattempt : (acceptingReader.scanReader ∅).attempt {} {} none = .ok none := by
      decide +kernel
    have hscan : AnonymousScan.scan acceptingReader { nRows := none } {} none =
        .ok (filledFrame (batchRows (acceptingReader.batchOpts (some ∅)) [Utf8.ofString "a=1\n"])
          (some ∅)) :=
      @scan_of_batches _ acceptingReader (Utf8.ofString "a=1\n") rfl none (by simp) ∅ rfl
        (by decide +kernel) {} hattempt _ (by decide +kernel)
    refine ((@row_filter_iff _ acceptingReader (Utf8.ofString "a=1\n") rfl).1
      (by simp) rfl hscan).mpr
      ⟨fun hanswers => ?_, fun _ => ⟨by decide +kernel, by simp [acceptingReader]⟩⟩
    exact absurd hanswers LazyLogFmtReader.not_answers_nil
  · refine ((@row_filter_iff _ (filteredReader true) raggedUnits.flatten
      (delivers_filteredReader _)).1 (by simp) rfl (scan_filteredReader _)).mpr
      ⟨fun _ => ⟨by decide +kernel, by decide +kernel⟩,
        fun hnot => absurd (answers_filteredReader _) hnot⟩
  · refine ((@row_filter_iff _ (filteredReader true) raggedUnits.flatten
      (delivers_filteredReader _)).2.1 ⟨rfl, rfl⟩ (call_filteredReader _)).mpr
      ⟨fun _ => ⟨by decide +kernel, by decide +kernel⟩,
        fun hnot => absurd (answersCall_filteredReader _) hnot⟩

/-- With a filter that rejects both lines, both have a row. -/
theorem row_filter_counterexample :
    ∃ df, AnonymousScan.scan (filteredReader false) {} {} none = .ok df ∧ df.height = 2 ∧
      (filteredReader false).keptLines ∅ raggedUnits.flatten = [] ∧
      ¬ ScanHonours ((filteredReader false).scanReader ∅) ∅ raggedUnits.flatten none {} false
        df := by
  refine ⟨_, scan_filteredReader _, by decide +kernel, by decide +kernel, fun h => ?_⟩
  have hall := (h.workers (answers_filteredReader _)).all
  rw [shownLines_eq] at hall
  revert hall
  decide +kernel

end

end PolarsLogfmt
