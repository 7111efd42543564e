import PolarsLogfmt.Proofs.LimitShares
import PolarsLogfmt.Proofs.PushdownTransparency

/-!
# A limit with a filter and a projection

A limit that is pushed down with a filter and a projection counts the rows that are read: they make
a frame, and the filter and the projection are of that frame. The workers leave both to the attempt,
which has the frame of all of them.
-/

namespace PolarsLogfmt

section

variable [Crates]

/-! ## The frame of a pushdown -/

theorem select_columnNames {df out : DataFrame} {names : List Bytes}
    (h : df.select names = .ok out) :
    out.columnNames = names := by
  unfold DataFrame.select at h
  split at h
  · cases h
  · rename_i columns hcolumns
    split at h
    · cases h
      exact (lookupColumns_names hcolumns).1
    · cases h

theorem width_eq_zero {df : DataFrame} : df.width = 0 ↔ df.columnNames = [] := by
  unfold DataFrame.width DataFrame.columnNames
  rw [List.length_eq_zero_iff, List.map_eq_nil_iff]

/-- A pushdown leaves a frame without columns only of a frame without columns. -/
theorem applyPushdown_width {df out : DataFrame} {predicate : Option Predicate}
    {withColumns : Option (List Bytes)} (h : applyPushdown df predicate withColumns = .ok out) :
    out.width = 0 ↔ df.width = 0 := by
  have hproject : ∀ mid : DataFrame, mid.columnNames = df.columnNames →
      applyProjection mid withColumns = .ok out → (out.width = 0 ↔ df.width = 0) := by
    intro mid hmid hout
    rw [width_eq_zero, width_eq_zero, ← hmid]
    cases withColumns with
    | none =>
      cases hout
      exact Iff.rfl
    | some cols =>
      rw [applyProjection] at hout
      split at hout
      · cases hout
        exact Iff.rfl
      · rename_i hne
        have hsub := (select_isOk_iff.mp ⟨out, hout⟩).1
        rw [select_columnNames hout]
        constructor
        · intro hnil
          exact absurd hnil hne
        · intro hnil
          rw [hnil] at hsub
          exact List.eq_nil_of_subset_nil hsub
  unfold applyPushdown at h
  cases predicate with
  | none => exact hproject df rfl h
  | some p =>
    cases hfilter : df.filter p with
    | error e =>
      rw [applyPredicate, hfilter] at h
      cases h
    | ok mid =>
      rw [applyPredicate, hfilter] at h
      exact hproject mid (filter_columnNames hfilter) h

theorem eq_empty_of_height {df : DataFrame} (hwidth : df.width = 0) (hheight : df.height = 0) :
    df = .empty := by
  apply DataFrame.ext
  · exact hheight
  · exact List.length_eq_zero_iff.mp hwidth

/-! ## One batch -/

section

variable {opts : BatchOpts} {schema : Schema} {scanOpts : AnonymousScanArgs} {frame : DataFrame}

theorem filledFrame_bare {rows : List Row} (h : (filledFrame rows (some schema)).width = 0) :
    filledFrame rows (some schema) = .empty := by
  apply eq_empty_of_height h
  rw [filledFrame_width] at h
  exact if_pos (List.length_eq_zero_iff.mp h)

/-- The loop makes of one batch what the pushdown makes of its frame. -/
theorem stackBatches_batch (hschema : opts.schema = some schema) {batch : List Bytes}
    (hframe : filledFrame (batchRows opts batch) (some schema) = frame) :
    (stackBatches scanOpts opts none [batch]).map (·.getD .empty) =
      applyPushdown frame scanOpts.predicate scanOpts.withColumns := by
  have hmade : batchFrame scanOpts opts batch =
      applyPushdown frame scanOpts.predicate scanOpts.withColumns := by
    rw [batchFrame, hschema, hframe]
  rw [stackBatches_singleton, hmade]
  cases hout : applyPushdown frame scanOpts.predicate scanOpts.withColumns with
  | error e => rfl
  | ok out =>
    by_cases hwidth : out.width = 0
    · -- a frame that is not stacked has no columns and no rows
      have hempty : frame = .empty := by
        have hzero := (applyPushdown_width hout).mp hwidth
        rw [← hframe] at hzero ⊢
        exact filledFrame_bare hzero
      have hheight : out.height ≤ frame.height := applyPushdown_height_le hout
      rw [hempty] at hheight
      rw [eq_empty_of_height hwidth (Nat.le_zero.mp hheight)]
      rfl
    · simp only [Except.map, if_neg hwidth, Option.getD_some]

/-- A pushdown that fits a frame without columns leaves it empty. -/
theorem applyPushdown_empty (hfits : scanOpts.FitsColumns []) :
    applyPushdown .empty scanOpts.predicate scanOpts.withColumns = .ok .empty := by
  obtain ⟨out, hout⟩ := (@applyPushdown_isOk_iff _ .empty scanOpts).mpr hfits
  have hwidth : out.width = 0 := (applyPushdown_width hout).mpr rfl
  have hheight : out.height ≤ 0 := applyPushdown_height_le hout
  rw [hout, eq_empty_of_height hwidth (Nat.le_zero.mp hheight)]

/-- A limited scan pushes down to the frame of the first lines. -/
theorem stackBatches_limited (hschema : opts.schema = some schema) {n : Nat}
    (batchSize : Option Nat) {kept : List Bytes}
    (hframe : filledFrame (batchRows opts (kept.take n)) (some schema) = frame)
    (hfits : frame.columnNames ≠ [] ∨ scanOpts.FitsColumns frame.columnNames) :
    (stackBatches scanOpts opts none (scanBatches (some n) batchSize kept)).map (·.getD .empty) =
      applyPushdown frame scanOpts.predicate scanOpts.withColumns := by
  unfold scanBatches
  simp only
  split
  · rename_i hzero
    apply stackBatches_batch hschema
    rwa [hzero, List.take_zero] at hframe
  · split
    · -- no line, so no batch
      rename_i hnil
      rw [hnil, List.take_nil] at hframe
      have hempty : frame = .empty := by
        rw [← hframe]
        exact filledFrame_bare rfl
      rw [hempty] at hfits ⊢
      rw [applyPushdown_empty (hfits.resolve_left fun hne => hne rfl)]
      rfl
    · exact stackBatches_batch hschema hframe

end

theorem fitsColumns_limit (n : Nat) (names : List Bytes) :
    AnonymousScanArgs.FitsColumns { nRows := some n } names := by
  constructor
  · intro p hp
    cases hp
  · intro cols hcols
    cases hcols

/-! ## The workers -/

/-- The options without a pushdown. -/
def FrameOpts.bare (opts : FrameOpts) : FrameOpts :=
  { opts with predicate := none, withColumns := none }

/-- Lines are pushed whatever is pushed down. -/
theorem frameLoop_bare (opts : FrameOpts) (frame : Nat) (lines : List (Except IoError Bytes))
    (number : Nat) (firstRow : Option Row) (st : WorkerState) :
    frameLoop opts.bare frame lines number firstRow st =
      frameLoop opts frame lines number firstRow st := by
  induction lines generalizing number firstRow st with
  | nil => rfl
  | cons line lines ih =>
    cases line with
    | error e => rfl
    | ok line =>
      by_cases haccepts : accepts opts.lineFilter line = true
      · have hbare : accepts opts.bare.lineFilter line = true := haccepts
        rw [frameLoop_accepted haccepts, frameLoop_accepted hbare, ih]
        rfl
      · have hbare : ¬ accepts opts.bare.lineFilter line = true := haccepts
        rw [frameLoop_refused haccepts, frameLoop_refused hbare, ih]

theorem processOne_bare {F : Type} [FrameBytes F] (opts : FrameOpts) (range : FrameRange)
    (handle : F) (st : WorkerState) : processOne opts.bare range handle st =
      processOne opts range handle st := by
  cases hread : FrameBytes.readFrame handle range with
  | mk found handle' =>
    cases found with
    | error e =>
      rw [processOne_failed hread, processOne_failed hread]
      rfl
    | ok found =>
      rw [processOne_read hread, processOne_read hread]
      simp only [frameLoop_bare]
      rfl

/-- With a slice a worker leaves the pushdown to the caller. -/
theorem finishWorker_bare {opts : FrameOpts} (hcap : opts.rowCap ≠ none) (st : WorkerState) :
    finishWorker opts.bare st = finishWorker opts st := by
  have hframe : ∀ df, finishFrame opts.bare df = finishFrame opts df := by
    intro df
    have hnone : ¬ (0 < df.width ∧ opts.rowCap.isNone = true) := by
      simp [hcap]
    have hbare : ¬ (0 < df.width ∧ opts.bare.rowCap.isNone = true) := hnone
    unfold finishFrame
    rw [if_neg hnone, if_neg hbare]
  unfold finishWorker
  simp only [hframe]

theorem framesLoop_bare {F : Type} [FrameBytes F] {opts : FrameOpts} (hcap : opts.rowCap ≠ none)
    (ranges : List FrameRange) (handle : F) (st : WorkerState) :
    framesLoop opts.bare ranges handle st = framesLoop opts ranges handle st := by
  induction ranges generalizing handle st with
  | nil => rfl
  | cons range ranges ih =>
    unfold framesLoop
    simp only [processOne_bare, finishWorker_bare hcap, ih]

theorem workerProg_bare {opts : FrameOpts} (hcap : opts.rowCap ≠ none) (origin : FrameOrigin) :
    LazyLogFmtReader.workerProg opts.bare origin = LazyLogFmtReader.workerProg opts origin := by
  funext worker
  unfold LazyLogFmtReader.workerProg
  split
  · exact framesLoop_bare hcap worker.2 _ _
  · rfl

/-- The pushdown of the frame that an attempt makes. -/
def pushedOnto (scanOpts : AnonymousScanArgs) :
    Option DataFrame → Except PolarsError (Option DataFrame)
  | none => .ok none
  | some df => (applyPushdown df scanOpts.predicate scanOpts.withColumns).map some

theorem stackResults_limited {n : Nat} {scanOpts : AnonymousScanArgs} (hn : scanOpts.nRows = some n)
    (results : List (Except PolarsError DataFrame)) (pick : Nat) :
    LazyLogFmtReader.stackResults scanOpts results pick =
      (LazyLogFmtReader.stackResults { nRows := some n } results pick).bind
      (pushedOnto scanOpts) := by
  unfold LazyLogFmtReader.stackResults
  rw [hn]
  cases LazyLogFmtReader.collectResults results pick with
  | error e =>
    simp only
    split
    · rfl
    · rfl
  | ok frames =>
    cases frames with
    | nil => rfl
    | cons df dfs =>
      simp only
      cases DataFrame.accumulateVertical df dfs with
      | error e => rfl
      | ok stacked => rfl

variable {self : LazyLogFmtReader} {text : Bytes} {n : Nat} {scanOpts : AnonymousScanArgs}

/-- A limited attempt pushes down to the frame it makes without a pushdown. -/
theorem parallelBatch_limited (hn : scanOpts.nRows = some n) (schema : Schema) (sched : Schedule) :
    (self.parallelBatch scanOpts (some schema) sched).2 =
      (self.parallelBatch { nRows := some n } (some schema) sched).2.bind
      (pushedOnto scanOpts) := by
  cases horigin : self.parallelOrigin with
  | none =>
    unfold LazyLogFmtReader.parallelBatch
    rw [horigin]
    rfl
  | some found =>
    obtain ⟨origin, frames, probe⟩ := found
    have hpred : self.predictedSchema (some schema) probe = .ok none := rfl
    have hopts : self.frameOpts { nRows := some n } (some schema) =
        (self.frameOpts scanOpts (some schema)).bare := by
      unfold LazyLogFmtReader.frameOpts
      rw [hn]
      rfl
    have hcap : (self.frameOpts scanOpts (some schema)).rowCap ≠ none := by
      intro hnone
      rw [show scanOpts.nRows = none from hnone] at hn
      cases hn
    rw [LazyLogFmtReader.parallelBatch_eq horigin hpred,
      LazyLogFmtReader.parallelBatch_eq horigin hpred]
    simp only [Option.some_or]
    rw [stackResults_limited hn, hopts, workerProg_bare hcap]

/-! ## The sequential path -/

/-- A limited scan of a text whose first lines can be read, without a frame of the workers. -/
theorem scanText_limited {schema : Schema} {probe : Option LineReader} {sched : Schedule}
    (hattempt : self.attempt scanOpts sched probe = .ok none) (hschema : self.schema = some schema)
    (hlines : ValidLines text ∨ ¬ WantsMore (some n) self.batchSize
      ((readableLines text).filter (self.batchOpts (some schema)).keeps).length)
    {frame : DataFrame} (hframe : filledFrame (batchRows (self.batchOpts (some schema))
      (((readableLines text).filter (self.batchOpts (some schema)).keeps).take n)) (some schema) =
        frame)
    (hn : scanOpts.nRows = some n)
    (hfits : frame.columnNames ≠ [] ∨ scanOpts.FitsColumns frame.columnNames) :
    (self.scanText scanOpts sched text probe).map
        (fun acc => LazyLogFmtReader.sliceRows (some n) (acc.getD .empty)) =
      applyPushdown frame scanOpts.predicate scanOpts.withColumns := by
  have hloop := scanLoop_text hschema scanOpts sched (hn.symm ▸ hlines)
  have hstack := @stackBatches_limited _ (self.batchOpts (some schema)) schema scanOpts frame rfl n
    self.batchSize _ hframe hfits
  rw [hn] at hloop
  unfold LazyLogFmtReader.scanText
  rw [hattempt]
  simp only
  rw [hloop]
  -- the pushdown adds no row to the first lines, so nothing is cut off
  have hcut : ∀ out, applyPushdown frame scanOpts.predicate scanOpts.withColumns = .ok out →
      LazyLogFmtReader.sliceRows (some n) out = out := by
    intro out hout
    have hheight : out.height ≤ frame.height := applyPushdown_height_le hout
    rw [← hframe] at hheight
    have hrows := hheight.trans (filledFrame_height_le _ _)
    rw [length_batchRows] at hrows
    exact if_neg (Nat.not_lt.mpr (hrows.trans (List.length_take_le n _)))
  cases hmade : stackBatches scanOpts (self.batchOpts (some schema)) none
      (scanBatches (some n) self.batchSize
        ((readableLines text).filter (self.batchOpts (some schema)).keeps)) with
  | error e =>
    rw [hmade] at hstack
    exact hstack
  | ok acc =>
    rw [hmade] at hstack
    rw [← hstack]
    exact congrArg Except.ok (hcut _ hstack.symm)

/-- Where the workers make no frame, with a pushdown or without, it is that of the limited frame. -/
theorem scanText_unattempted {schema : Schema} {probe : Option LineReader}
    (hschema : self.schema = some schema) {sched sched' : Schedule}
    (hplain : self.attempt { nRows := some n } sched probe = .ok none)
    (hpushed : self.attempt scanOpts sched' probe = .ok none) {df : DataFrame}
    (hdf : (self.scanText { nRows := some n } sched text probe).map
      (fun acc => LazyLogFmtReader.sliceRows (some n) (acc.getD .empty)) = .ok df)
    (hn : scanOpts.nRows = some n)
    (hfits : df.columnNames ≠ [] ∨ scanOpts.FitsColumns df.columnNames) :
    (self.scanText scanOpts sched' text probe).map
        (fun acc => LazyLogFmtReader.sliceRows (some n) (acc.getD .empty)) =
      applyPushdown df scanOpts.predicate scanOpts.withColumns := by
  have hlines : ValidLines text ∨ ¬ WantsMore (some n) self.batchSize
      ((readableLines text).filter (self.batchOpts (some schema)).keeps).length := by
    by_contra hmore
    rw [not_or, not_not] at hmore
    obtain ⟨e, he⟩ := @scanLoop_text_fails _ self schema hschema
      { nRows := some n } sched text hmore.1 hmore.2
    unfold LazyLogFmtReader.scanText at hdf
    rw [hplain] at hdf
    simp only at hdf
    rw [he] at hdf
    cases hdf
  have hframe := scanText_limited hplain hschema hlines rfl rfl (.inr (fitsColumns_limit n _))
  rw [hdf] at hframe
  exact scanText_limited hpushed hschema hlines (Except.ok.inj hframe).symm hn hfits

/-- The sequential path answers where every frame of the source can be read. -/
theorem attempt_readable {schema : Schema} {probe : Option LineReader}
    (hseq : self.Sequential ∨ probe.isSome = true) (hsource : self.source.Delivers text)
    (hread : self.FramesReadable) (hschema : self.schema = some schema)
    (scanOpts : AnonymousScanArgs) (sched : Schedule) :
    self.attempt scanOpts sched probe = .ok none := by
  unfold LazyLogFmtReader.attempt
  split
  · rfl
  · rename_i hnone
    rw [hschema]
    rcases hseq.resolve_right hnone with ha | hidle
    · have hcases := LazyLogFmtReader.parallelBatch_cases ha hsource scanOpts schema sched
      exact hcases.resolve_right fun hfails => hread.unreached scanOpts.nRows hfails.2
    · exact LazyLogFmtReader.parallelBatch_idle hidle scanOpts schema sched

/-! ## Aligned columns -/

/-- The frame of a limited attempt on an aligned cut has columns, and a row for each slot. -/
theorem attempt_aligned (ha : self.alignedColsCnt = true) (hcut : self.CutsLines text)
    (h : self.AlignedCut text) (hvalid : ValidLines text) {schema : Schema} {sched : Schedule}
    {df : DataFrame}
    (hdf : (self.parallelBatch { nRows := some n } (some schema) sched).2 = .ok (some df)) :
    df.width ≠ 0 ∧ df.height ≤ n := by
  obtain ⟨hworkers, haligned⟩ := h
  have hworker := (hcut.valid hworkers).mp hvalid
  obtain ⟨hprefixes, hslots⟩ :=
    LazyLogFmtReader.sharesLines_pushedLines hcut.delivers hworker n schema sched
  have hpushed := SideBySide.flatten_sublist_of_prefixes hprefixes
  rw [← List.flatMap_def, hcut.accepted hworkers] at hpushed
  by_cases hall : ∀ line ∈ acceptedLines self.lineFilter text, lineColumns line = []
  · rw [LazyLogFmtReader.parallelBatch_pushes_keyless hcut.delivers hworker n schema sched
      (fun line hline => hall line (hpushed.subset hline))] at hdf
    cases hdf
  · have hto := haligned.resolve_left hall
    cases hlines : acceptedLines self.lineFilter text with
    | nil =>
      rw [hlines] at hall
      exact absurd (by simp) hall
    | cons first lines =>
      obtain ⟨hne, hto⟩ := hto first (by rw [hlines]; rfl)
      rw [LazyLogFmtReader.parallelBatch_pushes_aligned hcut.delivers hworker ha n schema
        (lineColumns_nodup first) hne hto sched, Except.ok.injEq] at hdf
      split at hdf
      · cases hdf
      · cases hdf
        refine ⟨Table.frame_width_ne_zero hne, ?_⟩
        have hrows : ((alignedTable schema (lineColumns first) (lineColumns_nodup first)).frame
            (self.pushedLines { nRows := some n } schema sched).flatten).height = _ :=
          Table.frame_height _ hne
        rw [hrows, hslots]
        exact Nat.min_le_left _ _

/-- The frame of the workers is pushed down to. -/
theorem scanText_attempted {schema : Schema} (hschema : self.schema = some schema)
    {sched : Schedule} {stacked : DataFrame}
    (hmade : (self.parallelBatch { nRows := some n } (some schema) sched).2 = .ok (some stacked))
    (hwidth : stacked.width ≠ 0) (hheight : stacked.height ≤ n) (hn : scanOpts.nRows = some n) :
    (self.scanText scanOpts sched text none).map
        (fun acc => LazyLogFmtReader.sliceRows (some n) (acc.getD .empty)) =
      applyPushdown stacked scanOpts.predicate scanOpts.withColumns := by
  have hattempt : self.attempt scanOpts sched none =
      (applyPushdown stacked scanOpts.predicate scanOpts.withColumns).map some := by
    unfold LazyLogFmtReader.attempt
    rw [if_neg (by simp), hschema, parallelBatch_limited hn, hmade]
    rfl
  unfold LazyLogFmtReader.scanText
  rw [hattempt]
  cases hout : applyPushdown stacked scanOpts.predicate scanOpts.withColumns with
  | error e => rfl
  | ok out =>
    have hwidth' : out.width ≠ 0 := fun hzero => hwidth ((applyPushdown_width hout).mp hzero)
    have hheight' : out.height ≤ n := (applyPushdown_height_le hout).trans hheight
    simp only [Except.map, if_neg hwidth', Option.getD_some, LazyLogFmtReader.sliceRows,
      if_neg (Nat.not_lt.mpr hheight')]

/-- Workers that align their lines push down to the frame of all of them, and the sequential path
does where they make none. -/
theorem scanText_aligned (ha : self.alignedColsCnt = true) (hcut : self.CutsLines text)
    (h : self.AlignedCut text) (hvalid : ValidLines text) {schema : Schema}
    (hschema : self.schema = some schema) {sched : Schedule} {df : DataFrame}
    (hdf : (self.scanText { nRows := some n } sched text none).map
      (fun acc => LazyLogFmtReader.sliceRows (some n) (acc.getD .empty)) = .ok df)
    (hn : scanOpts.nRows = some n)
    (hfits : df.columnNames ≠ [] ∨ scanOpts.FitsColumns df.columnNames) :
    (self.scanText scanOpts sched text none).map
        (fun acc => LazyLogFmtReader.sliceRows (some n) (acc.getD .empty)) =
      applyPushdown df scanOpts.predicate scanOpts.withColumns := by
  have hattempt : ∀ scanOpts, self.attempt scanOpts sched none =
      (self.parallelBatch scanOpts (some schema) sched).2 := by
    intro scanOpts
    rw [← hschema]
    rfl
  cases hmade : (self.parallelBatch { nRows := some n } (some schema) sched).2 with
  | error e =>
    unfold LazyLogFmtReader.scanText at hdf
    rw [hattempt, hmade] at hdf
    cases hdf
  | ok made =>
    cases made with
    | none =>
      apply scanText_unattempted hschema _ _ hdf hn hfits
      · rw [hattempt, hmade]
      · rw [hattempt, parallelBatch_limited hn, hmade]
        rfl
    | some stacked =>
      obtain ⟨hwidth, hheight⟩ := attempt_aligned ha hcut h hvalid hmade
      have hframe := @scanText_attempted _ self text n
        { nRows := some n } schema hschema sched stacked
        hmade hwidth hheight rfl
      rw [hdf] at hframe
      cases hframe
      exact scanText_attempted hschema hmade hwidth hheight hn

/-! ## The scan -/

theorem scan_limited {probe : Option LineReader} {schema : Schema}
    (hsource : self.source.Delivers text) (hprobe : ∀ reader ∈ probe, reader = .ofBytes text)
    (hschema : self.textSchema text = .ok schema)
    (hn : scanOpts.nRows = some n) (sched : Schedule) :
    AnonymousScan.scan self scanOpts sched probe =
      ((self.scanReader schema).scanText scanOpts sched text (self.schema.bind fun _ => probe)).map
        fun acc => LazyLogFmtReader.sliceRows (some n) (acc.getD .empty) := by
  rw [scan_delivers hsource scanOpts sched hprobe, hschema, hn]

/-- A scan with a limit, a filter and a projection returns the frame of the scan with the limit,
filtered and projected: on the sequential path in any order of its workers, and for workers that
align their lines in the same. -/
theorem limited_pushdown (hsource : self.source.Delivers text) {probe : Option LineReader}
    (hprobe : ∀ reader ∈ probe, reader = .ofBytes text) {sched : Schedule} {df : DataFrame}
    (hdf : AnonymousScan.scan self { nRows := some n } sched probe = .ok df)
    (hn : scanOpts.nRows = some n)
    (hfits : df.columnNames ≠ [] ∨ scanOpts.FitsColumns df.columnNames) :
    (self.Sequential ∨ (self.schema.bind fun _ => probe).isSome = true → self.FramesReadable →
      ∀ sched', AnonymousScan.scan self scanOpts sched' probe =
        applyPushdown df scanOpts.predicate scanOpts.withColumns) ∧
    (self.alignedColsCnt = true → self.CutsLines text → self.AlignedCut text → ValidLines text →
      (self.schema.bind fun _ => probe) = none →
      AnonymousScan.scan self scanOpts sched probe =
        applyPushdown df scanOpts.predicate scanOpts.withColumns) := by
  obtain ⟨schema, -, hschema, -, -⟩ := scan_sliced hsource hprobe hdf
  rw [scan_limited hsource hprobe hschema rfl] at hdf
  constructor
  · intro hseq hread sched'
    have hsource' : (self.scanReader schema).source.Delivers text := hsource
    have hread' : (self.scanReader schema).FramesReadable := hread
    have hnone := @attempt_readable _ (self.scanReader schema) text schema _ hseq hsource' hread'
      rfl
    rw [scan_limited hsource hprobe hschema hn]
    exact scanText_unattempted rfl (hnone _ sched) (hnone _ sched') hdf hn hfits
  · intro ha hcut h hvalid hprobe'
    have hcut' : (self.scanReader schema).CutsLines text :=
      ⟨hcut.delivers, hcut.whole, hcut.flatten⟩
    rw [hprobe'] at hdf
    rw [scan_limited hsource hprobe hschema hn, hprobe']
    exact @scanText_aligned _ (self.scanReader schema) text n scanOpts ha hcut'
      (h.scanReader schema)
      hvalid schema rfl sched df hdf hn hfits

end

section

attribute [local instance] smallCrates

/-- The lines `a=1` and `a=2 b=3` of three. -/
def limitFrame : DataFrame :=
  filledFrame (batchRows (pairReader.batchOpts (some ∅)) ((pairReader.keptLines ∅ pairText).take 2))
    (some ∅)

theorem scan_pairReader_limit :
    AnonymousScan.scan pairReader { nRows := some 2 } {} none = .ok limitFrame := by
  have hread : pairReader.FramesReadable := by
    intro origin frames probe horigin
    cases horigin
  have hslice := @sliceOutcome_limit _ pairReader pairText rfl rfl ∅ rfl hread (by decide +kernel) 2
    {}
  unfold sliceOutcome at hslice
  cases hscan : AnonymousScan.scan pairReader { nRows := some 2 } {} none with
  | error e =>
    rw [hscan] at hslice
    cases hslice
  | ok df =>
    rw [hscan] at hslice
    exact congrArg Except.ok (Option.some.inj hslice)

/-- The rows of the first two lines with an empty `b`. -/
theorem limited_pushdown_pairs :
    AnonymousScan.scan pairReader
        { nRows := some 2, predicate := some (isEmptyText (Utf8.ofString "b")),
          withColumns := some [Utf8.ofString "a"] } {} none =
      applyPushdown limitFrame (some (isEmptyText (Utf8.ofString "b")))
        (some [Utf8.ofString "a"]) := by
  have hsource : pairReader.source.Delivers pairText := rfl
  refine (limited_pushdown hsource (by simp) scan_pairReader_limit rfl (.inl ?_)).1
    (.inl (.inl rfl))
    ?_ {}
  · decide +kernel
  · intro origin frames probe horigin
    cases horigin

end

end PolarsLogfmt
