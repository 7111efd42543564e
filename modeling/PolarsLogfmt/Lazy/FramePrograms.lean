import PolarsLogfmt.Lazy.ScanOutcome
import PolarsLogfmt.Lazy.SharedReader

/-!
# What a scan depends on its source for

A worker runs one program whichever source its frames come from, provided that they have the same
numbers and texts. So a scan depends on its source for the text and the texts of the frames only.
-/

namespace PolarsLogfmt

open SharedCounter (Prog outcome)

variable [Crates]

/-- What a worker sees of a frame: its number and its text. -/
def FrameHandle.seen (handle : FrameHandle) (range : FrameRange) : Nat × Bytes :=
  (range.idx, handle.frameText range)

theorem framesLoop_congr {opts : FrameOpts} {ranges ranges' : List FrameRange}
    {handle handle' : FrameHandle} (hs : handle.Sound) (hs' : handle'.Sound)
    (hseen : ranges.map handle.seen = ranges'.map handle'.seen) (st : WorkerState) :
    framesLoop opts ranges handle st = framesLoop opts ranges' handle' st := by
  induction ranges generalizing ranges' handle handle' st with
  | nil =>
    cases ranges' with
    | nil => rfl
    | cons range' ranges' => cases hseen
  | cons range ranges ih =>
    cases ranges' with
    | nil => cases hseen
    | cons range' ranges' =>
      rw [List.map_cons, List.map_cons, List.cons.injEq] at hseen
      obtain ⟨hframe, hrest⟩ := hseen
      have hidx : range.idx = range'.idx := congrArg Prod.fst hframe
      have htext : handle.frameText range = handle'.frameText range' := congrArg Prod.snd hframe
      obtain ⟨found, next, hread, hnext⟩ := FrameHandle.readFrame_sound hs range
      obtain ⟨found', next', hread', hnext'⟩ := FrameHandle.readFrame_sound hs' range'
      obtain ⟨hfound, hsame⟩ := FrameHandle.readFrame_spec hread
      obtain ⟨hfound', hsame'⟩ := FrameHandle.readFrame_spec hread'
      have hempty : ranges = [] ↔ ranges' = [] := by
        rw [← List.map_eq_nil_iff (f := handle.seen), hrest, List.map_eq_nil_iff]
      have hseen' : ranges.map next.seen = ranges'.map next'.seen := by
        unfold FrameHandle.seen at hrest ⊢
        rw [hsame, hsame']
        exact hrest
      rw [framesLoop, framesLoop, processOne_read hread, processOne_read hread',
        Prog.unlessFull_bind,
        Prog.unlessFull_bind, Prog.bind_assoc, Prog.bind_assoc, hfound, hfound', htext, hidx]
      congr 1
      · simp
      · congr 1
        funext result
        cases result with
        | error e => rfl
        | ok pushed =>
          obtain ⟨st', capped⟩ := pushed
          show (if ranges ≠ [] ∧ capped = false then framesLoop opts ranges next st'
              else .done (finishWorker opts st')) =
            if ranges' ≠ [] ∧ capped = false then framesLoop opts ranges' next' st'
              else .done (finishWorker opts st')
          simp only [ih hnext hnext' hseen' st', ne_eq, hempty]

/-- What the workers of an origin see of a frame. -/
def FrameOrigin.seen (origin : FrameOrigin) (range : FrameRange) : Nat × Bytes :=
  (range.idx, origin.frameText range)

omit [Crates] in
theorem FrameOrigin.seen_cloneHandle {origin : FrameOrigin} {w : Nat} {handle : FrameHandle}
    (h : origin.cloneHandle w = .ok handle) : handle.seen = origin.seen := by
  unfold FrameHandle.seen FrameOrigin.seen
  rw [FrameOrigin.frameText_cloneHandle h]

namespace LazyLogFmtReader

theorem workerProg_congr (opts : FrameOpts) {origin origin' : FrameOrigin} (hs : origin.Sound)
    (hs' : origin'.Sound) {w : Nat} {ranges ranges' : List FrameRange}
    (hseen : ranges.map origin.seen = ranges'.map origin'.seen) :
    workerProg opts origin (w, ranges) = workerProg opts origin' (w, ranges') := by
  obtain ⟨handle, hclone, hsound⟩ := FrameOrigin.cloneHandle_sound hs w
  obtain ⟨handle', hclone', hsound'⟩ := FrameOrigin.cloneHandle_sound hs' w
  rw [← FrameOrigin.seen_cloneHandle hclone, ← FrameOrigin.seen_cloneHandle hclone'] at hseen
  unfold workerProg
  rw [hclone, hclone']
  exact framesLoop_congr hsound hsound' hseen _

/-- The workers of two sources run the same programs when their frames are the same. -/
theorem workerProgs_congr (opts : FrameOpts) {origin origin' : FrameOrigin} (hs : origin.Sound)
    (hs' : origin'.Sound) {frames frames' : List FrameRange}
    (hseen : frames.map origin.seen = frames'.map origin'.seen) (workers : Nat) :
    (workerChunks frames workers).map (workerProg opts origin) =
      (workerChunks frames' workers).map (workerProg opts origin') := by
  have hlength : frames.length = frames'.length := by
    have hmapped := congrArg List.length hseen
    rwa [List.length_map, List.length_map] at hmapped
  unfold workerChunks
  rw [List.map_map, List.map_map, hlength]
  apply List.map_congr_left
  intro w _
  apply workerProg_congr opts hs hs'
  unfold Scan.slice
  rw [List.map_take, List.map_drop, hseen, List.map_take, List.map_drop]

variable {self : LazyLogFmtReader} {text : Bytes}

/-- The frames of a source have the numbers from zero on, so their texts say what is seen of
them. -/
theorem map_seen_eq {source other : LogFmtSource} {origin origin' : FrameOrigin}
    {frames frames' : List FrameRange} {probe probe' : LineReader}
    (horigin : ({ self with source := source } : LazyLogFmtReader).parallelOrigin =
      some (origin, frames, probe))
    (horigin' : ({ self with source := other } : LazyLogFmtReader).parallelOrigin =
      some (origin', frames', probe'))
    (htexts : frames.map origin.frameText = frames'.map origin'.frameText) :
    frames.map origin.seen = frames'.map origin'.seen := by
  have hlength : frames.length = frames'.length := by
    have hmapped := congrArg List.length htexts
    rwa [List.length_map, List.length_map] at hmapped
  have hidx : frames.map FrameRange.idx = frames'.map FrameRange.idx := by
    rw [parallelOrigin_idx horigin, parallelOrigin_idx horigin', hlength]
  show (frames.map fun range => (range.idx, origin.frameText range)) =
    frames'.map fun range => (range.idx, origin'.frameText range)
  rw [← List.zip_map', ← List.zip_map', hidx, htexts]

/-- Of a source without frames there is no attempt. -/
theorem parallelBatch_frameless (h : self.frameTexts = []) (scanOpts : AnonymousScanArgs)
    (schema : Schema) (sched : Schedule) :
    self.parallelBatch scanOpts (some schema) sched = (some schema, .ok none) := by
  unfold frameTexts at h
  unfold parallelBatch
  cases horigin : self.parallelOrigin with
  | none => rfl
  | some found =>
    obtain ⟨origin, frames, probe⟩ := found
    rw [horigin] at h
    obtain rfl := List.map_eq_nil_iff.mp h
    have hworkers : workerCount self.maxInflight ([] : List FrameRange).length = 0 := by
      rw [workerCount, List.length_nil, Nat.min_zero, Nat.min_zero]
    simp only [Option.isNone_some, Bool.false_eq_true, if_false, Option.some_or, hworkers, if_true]

/-- The attempt depends on the source for the texts of the frames only. -/
theorem parallelBatch_congr {source other : LogFmtSource} (hsource : source.Delivers text)
    (hother : other.Delivers text)
    (htexts : ({ self with source := source } : LazyLogFmtReader).frameTexts =
      ({ self with source := other } : LazyLogFmtReader).frameTexts)
    (scanOpts : AnonymousScanArgs) (schema : Schema) (sched : Schedule) :
    ({ self with source := source } : LazyLogFmtReader).parallelBatch scanOpts (some schema) sched =
      ({ self with source := other } : LazyLogFmtReader).parallelBatch scanOpts (some schema)
        sched := by
  by_cases hnone : ({ self with source := source } : LazyLogFmtReader).frameTexts = []
  · rw [parallelBatch_frameless hnone, parallelBatch_frameless (htexts ▸ hnone)]
  · cases horigin : ({ self with source := source } : LazyLogFmtReader).parallelOrigin with
    | none =>
      unfold frameTexts at hnone
      rw [horigin] at hnone
      exact absurd rfl hnone
    | some found =>
      cases horigin' : ({ self with source := other } : LazyLogFmtReader).parallelOrigin with
      | none =>
        rw [htexts] at hnone
        unfold frameTexts at hnone
        rw [horigin'] at hnone
        exact absurd rfl hnone
      | some found' =>
        obtain ⟨origin, frames, probe⟩ := found
        obtain ⟨origin', frames', probe'⟩ := found'
        unfold frameTexts at htexts
        rw [horigin, horigin'] at htexts
        have hlength : frames.length = frames'.length := by
          have hmapped := congrArg List.length htexts
          rwa [List.length_map, List.length_map] at hmapped
        have hprogs := workerProgs_congr
          (({ self with source := source } : LazyLogFmtReader).frameOpts scanOpts (some schema))
          (@parallelOrigin_sound _ { self with source := source } text hsource _ _ _ horigin)
          (@parallelOrigin_sound _ { self with source := other } text hother _ _ _ horigin')
          (map_seen_eq horigin horigin' htexts)
          (workerCount ({ self with source := source } : LazyLogFmtReader).maxInflight
            frames.length)
        unfold parallelBatch
        rw [horigin, horigin']
        simp only [Option.isNone_some, Bool.false_eq_true, if_false, Option.some_or]
        rw [hprogs, hlength]
        rfl

/-! ## Turns -/

section

variable {source other : LogFmtSource} (hsource : source.Delivers text)
    (hother : other.Delivers text)

include hsource hother

/-- With a schema a batch asks the source for a stream at most. -/
theorem singleBatch_congr (scanOpts : AnonymousScanArgs) (size : Option Nat) (schema : Schema)
    (state : LogFmtReaderState) :
    singleBatch { self with source := source } scanOpts size (some schema) state =
      singleBatch { self with source := other } scanOpts size (some schema) state := by
  have hopen : openReader { self with source := source } =
    openReader { self with source := other } := by
    rw [@openReader_delivers _ { self with source := source } text hsource,
      @openReader_delivers _ { self with source := other } text hother]
  unfold singleBatch
  rw [hopen]
  rfl

variable (htexts : ({ self with source := source } : LazyLogFmtReader).frameTexts =
  ({ self with source := other } : LazyLogFmtReader).frameTexts)

include htexts

/-- A turn depends on the source for its text and the texts of its frames only. -/
theorem wrrapNextBatch_congr {schema : Schema} (hschema : self.schema = some schema)
    (scanOpts : AnonymousScanArgs) (sched : Schedule) (state : LogFmtReaderState) :
    wrrapNextBatch { self with source := source } scanOpts sched state =
      wrrapNextBatch { self with source := other } scanOpts sched state := by
  have hbatch := parallelBatch_congr hsource hother htexts scanOpts schema sched
  have hsingle := @singleBatch_congr _ self text source other hsource hother scanOpts
    (scanOpts.nRows.or self.batchSize)
  have hkept := @parallelBatch_schema _ { self with source := other } scanOpts schema sched
  rw [← hschema] at hbatch hkept
  unfold wrrapNextBatch
  simp only
  rw [hbatch]
  split
  · rfl
  · split
    · generalize parallelBatch { self with source := other } scanOpts self.schema sched = attempt
        at hkept
      obtain ⟨found, made⟩ := attempt
      obtain rfl : found = self.schema := hkept
      cases made with
      | error e => rfl
      | ok made =>
        cases made with
        | some df => rfl
        | none =>
          rw [hschema]
          exact hsingle schema state
    · rw [hschema]
      exact hsingle schema state

theorem scanLoop_congr {schema : Schema} (hschema : self.schema = some schema)
    (scanOpts : AnonymousScanArgs) (sched : Schedule) (state : LogFmtReaderState)
    (acc : Option DataFrame) :
    scanLoop { self with source := source } scanOpts sched state acc =
      scanLoop { self with source := other } scanOpts sched state acc := by
  have hturns := @wrrapNextBatch_congr _ self text source other hsource hother htexts schema hschema
    scanOpts sched
  fun_induction scanLoop { self with source := other } scanOpts sched state acc with
  | case1 state acc e state' hturn => rw [scanLoop_turn, hturns, hturn]
  | case2 state acc state' hturn => rw [scanLoop_turn, hturns, hturn]
  | case3 state acc df state' hturn hwidth ih =>
    rw [scanLoop_turn, hturns, hturn]
    simp only [hwidth, if_true]
    exact ih
  | case4 state acc df state' hturn hwidth e hstack =>
    rw [scanLoop_turn, hturns, hturn]
    simp only [hwidth, if_false, hstack]
  | case5 state acc df state' hturn hwidth acc' hstack hfull =>
    rw [scanLoop_turn, hturns, hturn]
    simp only [hwidth, if_false, hstack, hfull, if_true]
  | case6 state acc df state' hturn hwidth acc' hstack hfull ih =>
    rw [scanLoop_turn, hturns, hturn]
    simp only [hwidth, if_false, hstack, hfull]
    exact ih

/-! ## Scans -/

omit htexts in
/-- The stream the inference leaves apart, what is inferred is the source's text's. -/
theorem scanSchema_congr (hresumed : source.resumed text = other.resumed text)
    (probe : Option LineReader) :
    scanSchema { self with source := source } probe =
      scanSchema { self with source := other } probe := by
  unfold scanSchema
  simp only
  rw [inferSchemaFromSource_delivers hsource, inferSchemaFromSource_delivers hother, hresumed]

theorem scan_congr (hresumed : source.resumed text = other.resumed text)
    (scanOpts : AnonymousScanArgs) (sched : Schedule) (probe : Option LineReader) :
    AnonymousScan.scan { self with source := source } scanOpts sched probe =
      AnonymousScan.scan { self with source := other } scanOpts sched probe := by
  unfold AnonymousScan.scan
  rw [@scanSchema_congr _ self text source other hsource hother hresumed,
    @cloneWithFreshHandle_delivers _ { self with source := source } text hsource,
    @cloneWithFreshHandle_delivers _ { self with source := other } text hother]
  cases scanSchema { self with source := other } probe with
  | error e => rfl
  | ok found =>
    obtain ⟨schema, probe⟩ := found
    have hloop := @scanLoop_congr _ (self.scanReader schema) text source other hsource hother htexts
      schema rfl scanOpts sched { reader := probe } none
    exact congrArg (Except.map fun acc => sliceRows scanOpts.nRows (acc.getD .empty)) hloop

/-- So does every run of calls on a reader with a schema, from whatever state. -/
theorem answers_congr (hresumed : source.resumed text = other.resumed text) {schema : Schema}
    (hschema : self.schema = some schema) (state : LogFmtReaderState) (calls : List ReaderCall) :
    answers { self with source := source } state calls =
      answers { self with source := other } state calls := by
  have hanswer : ∀ (state : LogFmtReaderState) (call : ReaderCall),
      answer { self with source := source } state call =
        answer { self with source := other } state call := by
    intro state call
    cases call with
    | scan scanOpts sched =>
      unfold answer
      simp only
      rw [@scan_congr _ self text source other hsource hother htexts hresumed]
    | nextBatch scanOpts sched =>
      exact wrrapNextBatch_congr hsource hother htexts hschema scanOpts sched state
  induction calls generalizing state with
  | nil => rfl
  | cons call calls ih => rw [answers, answers, hanswer, ih]

/-! ## Lazy frames -/

/-- What a lazy frame promises, and what some calls on it return. -/
def observe (calls : List ReaderCall)
    (made : LazyLogFmtReader × Option LineReader × List (Bytes × DataType)) :
    List (Bytes × DataType) × List (Except PolarsError (Option DataFrame)) :=
  (made.2.2, made.1.answers { reader := made.2.1 } calls)

/-- A lazy frame depends on its source for the text and the texts of the frames only. -/
theorem observe_congr (hresumed : source.resumed text = other.resumed text)
    (calls : List ReaderCall) :
    (scanLogfmt { self with source := source }).map (observe calls) =
      (scanLogfmt { self with source := other }).map (observe calls) := by
  have hanswers : ∀ (schema : Schema) (state : LogFmtReaderState),
      answers { self with source := source, schema := some schema } state calls =
        answers { self with source := other, schema := some schema } state calls := by
    intro schema state
    exact @answers_congr _ { self with schema := some schema } text source other hsource hother
      htexts hresumed schema rfl state calls
  unfold scanLogfmt
  simp only
  rw [inferSchemaFromSource_delivers hsource, inferSchemaFromSource_delivers hother, hresumed]
  cases hschema : self.schema with
  | some schema =>
    have hgiven := hanswers schema {}
    rw [← hschema] at hgiven
    unfold observe
    simp only [Except.map]
    rw [← hschema, hgiven]
  | none =>
    simp only
    cases (inferSchemaFromReader (.ofBytes text) self.lineFilter self.inferSchemaLength).1 with
    | error e => rfl
    | ok found =>
      obtain ⟨schema | schema, consumed⟩ := found
      · rfl
      · unfold observe
        simp only [Except.map]
        rw [hanswers schema]

end

end LazyLogFmtReader

end PolarsLogfmt
