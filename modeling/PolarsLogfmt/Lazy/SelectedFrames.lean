import PolarsLogfmt.Lazy.AttemptFrames
import PolarsLogfmt.Lazy.Pushdown

/-!
# Frames a predicate and a projection are pushed down to

The workers filter and project each frame on its own. If all of them have the columns this takes,
what they have left can be stacked: it is the selected rows of the frames, one after the other.
-/

namespace PolarsLogfmt

open DataFrame (rowCell rowHolds)
open SideBySide

variable [Crates]

/-- The listed columns of the rows on which the predicate is true. -/
def filterSelect (df : DataFrame) (p : Predicate) (cols : List Bytes) :
    Except PolarsError DataFrame :=
  (df.filter p).bind fun kept => kept.select cols

/-- What polars pushes down with a filter and a projection. -/
def pushedArgs (p : Predicate) (cols : List Bytes) : AnonymousScanArgs :=
  { predicate := some p, withColumns := some cols }

/-- The listed columns of the rows on which the predicate is true, row by row. -/
def selectedRows (p : Predicate) (cols : List Bytes) (df : DataFrame) :
    List (List (Option AnyValue)) :=
  (df.rows.filter (rowHolds df.columnNames p)).map fun row => cols.map (rowCell df.columnNames row)

section

variable {df out : DataFrame} {p : Predicate} {cols : List Bytes}

theorem filterSelect_eq_ok : filterSelect df p cols = .ok out ↔
    ∃ kept, df.filter p = .ok kept ∧ kept.select cols = .ok out := by
  unfold filterSelect
  cases df.filter p with
  | error e =>
    constructor
    · intro h
      cases h
    · rintro ⟨_, ⟨⟩, -⟩
  | ok kept =>
    refine ⟨fun h => ⟨kept, rfl, h⟩, ?_⟩
    rintro ⟨_, ⟨⟩, h⟩
    exact h

theorem exists_filterSelect : (∃ out, filterSelect df p cols = .ok out) ↔
    p.reads ⊆ df.columnNames ∧ cols ⊆ df.columnNames ∧ cols.Nodup := by
  constructor
  · rintro ⟨out, h⟩
    obtain ⟨kept, hkept, hselect⟩ := filterSelect_eq_ok.mp h
    have hsub := select_isOk_iff.mp ⟨out, hselect⟩
    rw [filter_columnNames hkept] at hsub
    exact ⟨filter_isOk_iff.mp ⟨kept, hkept⟩, hsub⟩
  · rintro ⟨hreads, hcols⟩
    obtain ⟨kept, hkept⟩ := filter_isOk_iff.mpr hreads
    rw [← filter_columnNames hkept] at hcols
    obtain ⟨out, hout⟩ := select_isOk_iff.mpr hcols
    exact ⟨out, filterSelect_eq_ok.mpr ⟨kept, hkept, hout⟩⟩

theorem filterSelect_rows (h : filterSelect df p cols = .ok out) :
    out.columnNames = cols ∧ out.rows = selectedRows p cols df := by
  obtain ⟨kept, hkept, hselect⟩ := filterSelect_eq_ok.mp h
  obtain ⟨hnames, hrows⟩ := DataFrame.select_rows hselect
  refine ⟨hnames, ?_⟩
  rw [hrows, DataFrame.filter_rows hkept, filter_columnNames hkept]
  rfl

theorem filterSelect_schema {dtype : Bytes → DataType} (htyped : df.TypedBy dtype)
    (h : filterSelect df p cols = .ok out) : out.schema = cols.map fun key => (key, dtype key) := by
  obtain ⟨kept, hkept, hselect⟩ := filterSelect_eq_ok.mp h
  have hschema := ((htyped.filter hkept).select hselect).schema
  rwa [(filterSelect_rows h).1] at hschema

theorem filterSelect_width (hne : cols ≠ []) (h : filterSelect df p cols = .ok out) :
    out.width ≠ 0 := by
  rw [DataFrame.width_eq_schema, ← List.length_map, ← DataFrame.columnNames_eq_schema,
    (filterSelect_rows h).1]
  exact (List.length_pos_of_ne_nil hne).ne'

/-- A frame stacked of frames with its columns has their selected rows. -/
theorem selectedRows_stacked {frames : List DataFrame}
    (hrows : df.rows = frames.flatMap DataFrame.rows)
    (hnames : ∀ frame ∈ frames, frame.columnNames = df.columnNames) :
    selectedRows p cols df = frames.flatMap (selectedRows p cols) := by
  unfold selectedRows
  rw [hrows, List.filter_flatMap, List.map_flatMap]
  apply List.flatMap_congr
  intro frame hframe
  rw [hnames frame hframe]

/-- Some row is selected when the predicate is true on it. -/
theorem flatMap_selectedRows_ne_nil_iff {frames : List DataFrame} :
    frames.flatMap (selectedRows p cols) ≠ [] ↔ ∃ frame ∈ frames, true ∈ frame.mask p := by
  rw [ne_eq, List.flatMap_eq_nil_iff]
  push Not
  refine exists_congr fun frame => and_congr_right fun _ => ?_
  rw [selectedRows, ne_eq, List.map_eq_nil_iff, List.filter_eq_nil_iff, DataFrame.mask_eq_rows,
    List.mem_map]
  push Not
  rfl

end

/-! ## One worker -/

theorem acceptLine_congr {opts opts' : FrameOpts} (hs : opts.schema = opts'.schema)
    (ha : opts.alignedColsCnt = opts'.alignedColsCnt) : acceptLine opts = acceptLine opts' := by
  funext firstRow st line
  unfold acceptLine
  rw [hs, ha]

/-- The builders do not depend on what is pushed down. -/
theorem builtFrame_congr {opts opts' : FrameOpts} (hs : opts.schema = opts'.schema)
    (ha : opts.alignedColsCnt = opts'.alignedColsCnt) (lines : List PushedLine) :
    builtFrame opts lines = builtFrame opts' lines := by
  have hpush : LineState.push opts = LineState.push opts' := by
    funext s p
    unfold LineState.push
    rw [acceptLine_congr hs ha]
  unfold builtFrame pushed
  rw [hpush, hs]

theorem workerFrame_eq_bind (opts : FrameOpts) (lines : List PushedLine) :
    workerFrame opts lines = (builtFrame opts lines).bind (finishFrame opts) := rfl

theorem exists_builtFrame {opts : FrameOpts} {lines : List PushedLine} {df : DataFrame}
    (h : workerFrame opts lines = .ok df) : ∃ built, builtFrame opts lines = .ok built := by
  rw [workerFrame_eq_bind] at h
  cases hbuilt : builtFrame opts lines with
  | error e =>
    rw [hbuilt] at h
    cases h
  | ok built => exact ⟨built, rfl⟩

section

variable {opts : FrameOpts} {lines : List PushedLine} {df : DataFrame}
  (h : builtFrame opts lines = .ok df)

include h

/-- A frame of builders has rows when it has columns. -/
theorem builtFrame_width : 0 < df.width ↔ 0 < df.height := by
  rw [builtFrame_height h, ← builtFrame_columnNames h, DataFrame.width, DataFrame.columnNames,
    ne_eq, List.map_eq_nil_iff, List.length_pos_iff]

theorem workerFrame_bare (hp : opts.predicate = none) (hc : opts.withColumns = none) :
    workerFrame opts lines = .ok (if 0 < df.height then df else .empty) := by
  rw [workerFrame_eq_bind, h]
  show finishFrame opts df = _
  rw [finishFrame_plain hp hc]
  simp only [builtFrame_width h, and_self]

theorem workerFrame_rowless (hrows : ¬ 0 < df.height) : workerFrame opts lines = .ok .empty := by
  have hwidth : ¬ 0 < df.width := fun hwidth => hrows ((builtFrame_width h).mp hwidth)
  rw [workerFrame_eq_bind, h]
  show finishFrame opts df = _
  unfold finishFrame
  rw [if_neg fun hboth => hwidth hboth.1]
  exact congrArg Except.ok (if_neg fun hboth => hwidth hboth.1)

variable {p : Predicate} {cols : List Bytes} (hcap : opts.rowCap = none)
  (hpred : opts.predicate = some p) (hcols : opts.withColumns = some cols) (hne : cols ≠ [])

include hcap hpred hcols

/-- A worker whose frame has not the columns fails. -/
theorem workerFrame_unfit (hrows : 0 < df.height)
    (hunfit : ¬ (p.reads ⊆ df.columnNames ∧ cols ⊆ df.columnNames)) :
    ∃ e, workerFrame opts lines = .error e := by
  cases hmade : workerFrame opts lines with
  | error e => exact ⟨e, rfl⟩
  | ok made =>
    exfalso
    rw [workerFrame_eq_bind, h] at hmade
    have hmade : finishFrame opts df = .ok made := hmade
    unfold finishFrame at hmade
    rw [if_pos ⟨(builtFrame_width h).mpr hrows, by rw [hcap]; rfl⟩] at hmade
    cases hpush : applyPushdown df opts.predicate opts.withColumns with
    | error e =>
      rw [hpush] at hmade
      cases hmade
    | ok out =>
      have hfits := (@applyPushdown_isOk_iff _ df
        { predicate := opts.predicate, withColumns := opts.withColumns }).mp ⟨out, hpush⟩
      exact hunfit ⟨hfits.predicate p hpred, (hfits.withColumns cols hcols).1⟩

include hne

/-- One whose frame has them selects its rows. -/
theorem workerFrame_selected (hrows : 0 < df.height) {out : DataFrame}
    (hout : filterSelect df p cols = .ok out) :
    workerFrame opts lines = .ok (if 0 < out.height then out else .empty) := by
  obtain ⟨kept, hkept, hselect⟩ := filterSelect_eq_ok.mp hout
  have hpush : applyPushdown df (some p) (some cols) = .ok out := by
    unfold applyPushdown
    rw [applyPredicate, hkept]
    exact (if_neg hne).trans hselect
  have hwidth : 0 < out.width := by
    have hnames := congrArg List.length (filterSelect_rows hout).1
    rw [DataFrame.columnNames, List.length_map] at hnames
    rw [DataFrame.width, hnames]
    exact List.length_pos_of_ne_nil hne
  rw [workerFrame_eq_bind, h]
  show finishFrame opts df = _
  unfold finishFrame
  rw [if_pos ⟨(builtFrame_width h).mpr hrows, by rw [hcap]; rfl⟩, hpred, hcols, hpush]
  simp only [Except.map, hwidth, true_and]

end

/-! ## All workers -/

namespace LazyLogFmtReader

theorem resultFrame_left (df : DataFrame) :
    resultFrame (.ok (if 0 < df.height then df else .empty)) =
      if 0 < df.height then some df else none := by
  by_cases hrows : 0 < df.height
  · rw [if_pos hrows, if_pos hrows]
    exact if_pos hrows
  · rw [if_neg hrows, if_neg hrows]
    rfl

section

variable {opts opts' : FrameOpts} (hs : opts'.schema = opts.schema)
  (ha : opts'.alignedColsCnt = opts.alignedColsCnt) (hp : opts.predicate = none)
  (hc : opts.withColumns = none) {p : Predicate} {cols : List Bytes} (hcap : opts'.rowCap = none)
  (hpred : opts'.predicate = some p) (hcols : opts'.withColumns = some cols) (hne : cols ≠ [])
  {traces : List (List PushedLine)}
  (hok : ∀ result ∈ traces.map (workerFrame opts), ∃ df, result = .ok df)

include hs ha hp hc hcap hpred hcols hne hok

/-- Workers whose frames have the columns select the rows of each. -/
theorem workerFrames_selected (hnodup : cols.Nodup)
    (hfits : ∀ df ∈ (traces.map (workerFrame opts)).filterMap resultFrame,
      p.reads ⊆ df.columnNames ∧ cols ⊆ df.columnNames) :
    (∀ result ∈ traces.map (workerFrame opts'), ∃ df, result = .ok df) ∧ ∃ outs,
      List.Forall₂ (fun df out => filterSelect df p cols = .ok out)
          ((traces.map (workerFrame opts)).filterMap resultFrame) outs ∧
        (traces.map (workerFrame opts')).filterMap resultFrame =
          outs.filter fun out => 0 < out.height := by
  induction traces with
  | nil => exact ⟨by simp, [], .nil, rfl⟩
  | cons lines traces ih =>
    rw [List.map_cons, List.forall_mem_cons] at hok
    obtain ⟨⟨made, hmade⟩, hok⟩ := hok
    obtain ⟨built, hbuilt⟩ := exists_builtFrame hmade
    have hbuilt' : builtFrame opts' lines = .ok built := by rw [builtFrame_congr hs ha, hbuilt]
    have hplain := workerFrame_bare hbuilt hp hc
    rw [List.map_cons, hplain] at hfits
    rw [List.map_cons, List.map_cons, hplain]
    by_cases hrows : 0 < built.height
    · have hframe : resultFrame (.ok (if 0 < built.height then built else .empty)) =
          some built := by rw [resultFrame_left, if_pos hrows]
      rw [List.filterMap_cons_some hframe, List.forall_mem_cons] at hfits
      obtain ⟨hall, outs, hside, hframes⟩ := ih hok hfits.2
      obtain ⟨out, hout⟩ := exists_filterSelect.mpr ⟨hfits.1.1, hfits.1.2, hnodup⟩
      have hselected := workerFrame_selected hbuilt' hcap hpred hcols hne hrows hout
      rw [hselected, List.filterMap_cons_some hframe]
      refine ⟨List.forall_mem_cons.mpr ⟨⟨_, rfl⟩, hall⟩, out :: outs, .cons hout hside, ?_⟩
      by_cases hleft : 0 < out.height
      · have hkept : resultFrame (.ok (if 0 < out.height then out else .empty)) = some out := by
          rw [resultFrame_left, if_pos hleft]
        rw [List.filterMap_cons_some hkept, hframes, List.filter_cons_of_pos (by simpa using hleft)]
      · have hkept : resultFrame (.ok (if 0 < out.height then out else .empty)) = none := by
          rw [resultFrame_left, if_neg hleft]
        rw [List.filterMap_cons_none hkept, hframes, List.filter_cons_of_neg (by simpa using hleft)]
    · have hframe : resultFrame (.ok (if 0 < built.height then built else .empty)) = none := by
        rw [resultFrame_left, if_neg hrows]
      rw [List.filterMap_cons_none hframe] at hfits ⊢
      obtain ⟨hall, outs, hside, hframes⟩ := ih hok hfits
      rw [workerFrame_rowless hbuilt' hrows]
      exact ⟨List.forall_mem_cons.mpr ⟨⟨_, rfl⟩, hall⟩, outs, hside, hframes⟩

omit hne in
/-- If one has not, some worker fails. -/
theorem workerFrames_unfit
    (hunfit : ¬ ∀ df ∈ (traces.map (workerFrame opts)).filterMap resultFrame,
      p.reads ⊆ df.columnNames ∧ cols ⊆ df.columnNames) :
    ∃ e, .error e ∈ traces.map (workerFrame opts') := by
  push Not at hunfit
  obtain ⟨df, hdf, hunfit⟩ := hunfit
  obtain ⟨result, hresult, hframe⟩ := List.mem_filterMap.mp hdf
  obtain ⟨lines, hlines, rfl⟩ := List.mem_map.mp hresult
  obtain ⟨made, hmade⟩ := hok _ hresult
  obtain ⟨built, hbuilt⟩ := exists_builtFrame hmade
  obtain ⟨hframe, hrows⟩ := resultFrame_eq_some.mp hframe
  rw [workerFrame_bare hbuilt hp hc, Except.ok.injEq] at hframe
  split at hframe
  · subst hframe
    have hbuilt' : builtFrame opts' lines = .ok built := by rw [builtFrame_congr hs ha, hbuilt]
    obtain ⟨e, he⟩ := workerFrame_unfit hbuilt' hcap hpred hcols hrows
      fun hboth => hunfit hboth.1 hboth.2
    exact ⟨e, he ▸ List.mem_map_of_mem hlines⟩
  · subst hframe
    cases hrows

end

/-! ## The attempt -/

theorem chunkFrame_of_read {origin : FrameOrigin} {opts : FrameOpts}
    {chunk : Nat × List FrameRange} (h : (origin.chunkLines opts.lineFilter chunk).2 = none) :
    origin.chunkFrame opts chunk =
      workerFrame opts (origin.chunkLines opts.lineFilter chunk).1 := by
  unfold FrameOrigin.chunkFrame
  cases hlines : origin.chunkLines opts.lineFilter chunk with
  | mk lines err =>
    rw [hlines] at h
    obtain rfl : err = none := h
    rfl

section

variable {self : LazyLogFmtReader} {text : Bytes} (hsource : self.source.Delivers text)
  {origin : FrameOrigin} {frames : List FrameRange} {probe : LineReader}
  (horigin : self.parallelOrigin = some (origin, frames, probe)) (htexts : PolarsTexts)
  {schema : Schema}

include hsource horigin htexts

/-- A worker with nothing pushed down does not fail for want of a handle. -/
theorem chunkFrame_apart {chunk : Nat × List FrameRange} {e : PolarsError}
    (h : origin.chunkFrame (self.frameOpts {} (some schema)) chunk = .error e) :
    ¬ cloneHandleFailedMsg <:+: e.text := by
  have herr := FrameOrigin.chunkLines_err (parallelOrigin_sound hsource horigin)
    self.lineFilter chunk
  unfold FrameOrigin.chunkFrame at h
  rw [show (self.frameOpts {} (some schema)).lineFilter = self.lineFilter from rfl] at h
  cases hlines : origin.chunkLines self.lineFilter chunk with
  | mk lines err =>
    rw [hlines] at h herr
    cases err with
    | none =>
      exact htexts.apart (fun _ hname => absurd hname List.not_mem_nil) (workerFrame_error h)
    | some err =>
      cases h
      split at herr
      · cases herr
      · cases herr
        exact not_cloneHandleFailed

/-- When their results are stacked or declined, every worker has made a frame. -/
theorem chunks_made {pick : Nat} {result : Option DataFrame}
    (h : stackResults {} ((self.chunks frames).map
      (origin.chunkFrame (self.frameOpts {} (some schema)))) pick = .ok result)
    {chunk : Nat × List FrameRange} (hchunk : chunk ∈ self.chunks frames) :
    ∃ df, origin.chunkFrame (self.frameOpts {} (some schema)) chunk = .ok df := by
  cases hframe : origin.chunkFrame (self.frameOpts {} (some schema)) chunk with
  | ok df => exact ⟨df, rfl⟩
  | error e =>
    have hmem : .error e ∈ (self.chunks frames).map
        (origin.chunkFrame (self.frameOpts {} (some schema))) :=
      hframe ▸ List.mem_map_of_mem hchunk
    obtain ⟨e, he⟩ := stackResults_error {} hmem (fun e he => by
      obtain ⟨other, -, hother⟩ := List.mem_map.mp he
      exact chunkFrame_apart hsource horigin htexts hother) pick
    rw [he] at h
    cases h

end

section

variable {self : LazyLogFmtReader} {text : Bytes} (hsource : self.source.Delivers text)
  {schema : Schema} {sched : Schedule} {result : Option DataFrame}
  (h : (self.parallelBatch {} (some schema) sched).2 = .ok result)

include hsource h

/-- When the attempt without pushdown does not fail, its workers can read their chunks, and so can
those of any other attempt without a slice. -/
theorem parallelBatch_reads (htexts : PolarsTexts) :
    (∀ result ∈ self.workerFrames {} (some schema) sched, ∃ df, result = .ok df) ∧
      ∀ {scanOpts : AnonymousScanArgs}, scanOpts.nRows = none → ∀ sched',
        (self.parallelBatch scanOpts (some schema) sched').2 =
          stackResults scanOpts (self.workerFrames scanOpts (some schema) sched') sched'.error := by
  cases horigin : self.parallelOrigin with
  | none =>
    unfold workerFrames pushedTraces parallelBatch
    simp only [horigin, List.map_nil, List.not_mem_nil, false_implies, implies_true, true_and]
    intro scanOpts _ sched'
    rfl
  | some found =>
    obtain ⟨origin, frames, probe⟩ := found
    have hpred : self.predictedSchema (some schema) probe = .ok none := rfl
    rw [parallelBatch_uncapped horigin hpred rfl] at h
    have hread : ∀ chunk ∈ self.chunks frames, (origin.chunkLines self.lineFilter chunk).2 = none ∧
        ∃ df, workerFrame (self.frameOpts {} (some schema))
          (origin.chunkLines self.lineFilter chunk).1 = .ok df := by
      intro chunk hchunk
      obtain ⟨df, hframe⟩ := chunks_made hsource horigin htexts h hchunk
      obtain ⟨herr, hmade⟩ := FrameOrigin.chunkFrame_eq_ok.mp hframe
      exact ⟨herr, df, hmade⟩
    constructor
    · intro result hresult
      unfold workerFrames at hresult
      rw [pushedTraces_uncapped rfl horigin, List.map_map] at hresult
      obtain ⟨chunk, hchunk, rfl⟩ := List.mem_map.mp hresult
      exact (hread chunk hchunk).2
    · intro scanOpts hn sched'
      rw [parallelBatch_uncapped horigin hpred hn]
      unfold workerFrames
      rw [pushedTraces_uncapped hn horigin, List.map_map]
      show stackResults _ _ _ = _
      congr 1
      apply List.map_congr_left
      intro chunk hchunk
      exact chunkFrame_of_read (hread chunk hchunk).1

end

/-- The frames the workers make of their chunks, with nothing pushed down; on a stream that is open
there are none. -/
def chunkFrames (self : LazyLogFmtReader) (schema : Schema) (opened : Bool) : List DataFrame :=
  (self.attemptResults {} (some schema) {} opened).filterMap resultFrame

/-- The frame has the columns the predicate reads and the listed ones. -/
def HasColumns (p : Predicate) (cols : List Bytes) (df : DataFrame) : Prop :=
  p.reads ⊆ df.columnNames ∧ cols ⊆ df.columnNames

variable {self : LazyLogFmtReader} {schema : Schema}

/-- The schedule decides nothing without a slice. -/
theorem workerFrames_uncapped {scanOpts : AnonymousScanArgs} (hn : scanOpts.nRows = none)
    (sched : Schedule) : self.workerFrames scanOpts (some schema) sched =
      (self.pushedTraces {} (some schema) {}).map
        (workerFrame (self.frameOpts scanOpts (some schema))) := by
  have htraces : self.pushedTraces scanOpts (some schema) sched =
      self.pushedTraces {} (some schema) {} := pushedTraces_congr hn rfl _ _ _ _
  unfold workerFrames
  rw [htraces]

theorem chunkFrames_typed (opened : Bool) : ∀ df ∈ self.chunkFrames schema opened,
    df.TypedBy fun key => finishedType (trackType (some schema) key) := by
  intro df hdf
  obtain ⟨result, hresult, hframe⟩ := List.mem_filterMap.mp hdf
  unfold attemptResults at hresult
  split at hresult
  · cases hresult
  obtain ⟨lines, -, rfl⟩ := List.mem_map.mp hresult
  obtain ⟨hmade, hrows⟩ := resultFrame_eq_some.mp hframe
  obtain ⟨built, hbuilt⟩ := exists_builtFrame hmade
  have hplain := workerFrame_bare hbuilt rfl rfl
  rw [hmade, Except.ok.injEq] at hplain
  split at hplain
  · rw [hplain]
    exact builtFrame_typed hbuilt rfl
  · rw [hplain] at hrows
    cases hrows

theorem rows_left_eq_nil_iff {outs : List DataFrame} :
    (outs.filter fun out => 0 < out.height).flatMap DataFrame.rows = [] ↔
      outs.filter (fun out => 0 < out.height) = [] := by
  constructor
  · intro hnil
    rw [List.flatMap_eq_nil_iff] at hnil
    apply List.eq_nil_iff_forall_not_mem.mpr
    intro out hout
    have hheight : 0 < out.height := by simpa using (List.mem_filter.mp hout).2
    rw [← DataFrame.length_rows, hnil out hout] at hheight
    cases hheight
  · intro hnil
    rw [hnil]
    rfl

section

variable {frames outs : List DataFrame} {p : Predicate} {cols : List Bytes}
  (hside : List.Forall₂ (fun df out => filterSelect df p cols = .ok out) frames outs)

include hside

/-- Frames without rows dropped, the selected rows are left. -/
theorem rows_selected : (outs.filter fun out => 0 < out.height).flatMap DataFrame.rows =
    frames.flatMap (selectedRows p cols) := by
  induction hside with
  | nil => rfl
  | @cons df out frames outs hout hside ih =>
    have hrows := (filterSelect_rows hout).2
    rw [List.flatMap_cons, ← hrows]
    by_cases hleft : 0 < out.height
    · rw [List.filter_cons_of_pos (by simpa using hleft), List.flatMap_cons, ih]
    · have hnil : out.rows = [] := by
        rw [← List.length_eq_zero_iff, DataFrame.length_rows]
        omega
      rw [List.filter_cons_of_neg (by simpa using hleft), ih, hnil, List.nil_append]

theorem schema_selected {dtype : Bytes → DataType} (htyped : ∀ df ∈ frames, df.TypedBy dtype) :
    ∀ out ∈ outs, out.schema = cols.map fun key => (key, dtype key) := by
  intro out hout
  obtain ⟨df, hdf, hselect⟩ := exists_of_forall₂ hside.flip hout
  exact filterSelect_schema (htyped df hdf) hselect

end

section

variable {text : Bytes} (hsource : self.source.Delivers text) (hschema : self.schema = some schema)
  (htexts : PolarsTexts) {probe : Option LineReader} {sched : Schedule} {result : Option DataFrame}
  (h : self.attempt {} sched probe = .ok result)

include hsource hschema htexts h

theorem attempt_reads :
    (∀ result ∈ self.attemptResults {} (some schema) {} probe.isSome, ∃ df, result = .ok df) ∧
      ∀ {scanOpts : AnonymousScanArgs}, scanOpts.nRows = none → ∀ sched',
        self.attempt scanOpts sched' probe = stackResults scanOpts
          (self.attemptResults scanOpts (some schema) {} probe.isSome) sched'.error := by
  unfold attempt at h
  unfold attempt attemptResults
  by_cases hopened : probe.isSome = true
  · simp only [hopened, if_true]
    refine ⟨nofun, fun _ _ => rfl⟩
  · simp only [hopened] at h ⊢
    rw [if_neg (by simp), hschema] at h
    obtain ⟨hok, hstack⟩ := parallelBatch_reads hsource h htexts
    rw [workerFrames_uncapped rfl] at hok
    refine ⟨hok, fun hn sched' => ?_⟩
    rw [if_neg (by simp), if_neg (by simp), hschema, hstack hn, workerFrames_uncapped hn,
      workerFrames_uncapped hn]

/-- When the frames of the workers can be stacked, the attempt makes a frame of their rows. -/
theorem attempt_stacks (hsome : self.chunkFrames schema probe.isSome ≠ [])
    (hsame : ∀ df ∈ self.chunkFrames schema probe.isSome,
      ∀ other ∈ self.chunkFrames schema probe.isSome, df.schema = other.schema) :
    ∃ stacked, result = some stacked ∧
      (∀ df ∈ self.chunkFrames schema probe.isSome, df.schema = stacked.schema) ∧
      stacked.rows = (self.chunkFrames schema probe.isSome).flatMap DataFrame.rows := by
  obtain ⟨hok, hstack⟩ := attempt_reads hsource hschema htexts h
  rw [hstack rfl] at h
  obtain ⟨first, rest, stacked, hframes, hstacked, hfirst, huncapped, -⟩ :=
    @stackResults_answers _ {} _ ⟨hok, hsome, hsame⟩ sched.error
  rw [huncapped rfl] at h
  have hframes : self.chunkFrames schema probe.isSome = first :: rest := hframes
  refine ⟨stacked, (Except.ok.inj h).symm, fun df hdf => ?_, ?_⟩
  · rw [hfirst]
    exact hsame df hdf first (by rw [hframes]; exact List.mem_cons_self)
  · rw [hframes, DataFrame.accumulateVertical_rows hstacked]

theorem attempt_declines (hnot : ¬ (self.chunkFrames schema probe.isSome ≠ [] ∧
    ∀ df ∈ self.chunkFrames schema probe.isSome,
      ∀ other ∈ self.chunkFrames schema probe.isSome, df.schema = other.schema)) :
    result = none := by
  obtain ⟨-, hstack⟩ := attempt_reads hsource hschema htexts h
  rw [hstack rfl] at h
  refine stackResults_declines (fun hanswers => hnot ⟨hanswers.rows, hanswers.columns⟩) ?_ h
  unfold attemptResults
  split
  · simp
  · exact workerFrames_width

variable {p : Predicate} {cols : List Bytes}

/-- When they have the columns, the workers of the pushdown select the rows of each. -/
theorem attemptResults_selected (hne : cols ≠ []) (hnodup : cols.Nodup)
    (hfits : ∀ df ∈ self.chunkFrames schema probe.isSome, HasColumns p cols df) :
    (∀ result ∈ self.attemptResults (pushedArgs p cols) (some schema) {} probe.isSome,
        ∃ df, result = .ok df) ∧
      ∃ outs, List.Forall₂ (fun df out => filterSelect df p cols = .ok out)
          (self.chunkFrames schema probe.isSome) outs ∧
        (self.attemptResults (pushedArgs p cols) (some schema) {} probe.isSome).filterMap
            resultFrame = outs.filter fun out => 0 < out.height := by
  obtain ⟨hok, -⟩ := attempt_reads hsource hschema htexts h
  unfold chunkFrames attemptResults at *
  by_cases hopened : probe.isSome = true
  · simp only [hopened, if_true]
    exact ⟨by simp, [], .nil, rfl⟩
  · simp only [hopened, Bool.false_eq_true, if_false] at hok hfits ⊢
    rw [@workerFrames_uncapped _ self schema {} rfl] at hok hfits ⊢
    rw [@workerFrames_uncapped _ self schema (pushedArgs p cols) rfl]
    exact @workerFrames_selected _ (self.frameOpts {} (some schema))
      (self.frameOpts (pushedArgs p cols) (some schema)) rfl rfl rfl rfl p cols rfl rfl rfl hne _
      hok hnodup hfits

/-- When they have the columns, the pushdown leaves their selected rows. -/
theorem attempt_selects (hne : cols ≠ []) (hnodup : cols.Nodup)
    (hfits : ∀ df ∈ self.chunkFrames schema probe.isSome, HasColumns p cols df)
    (sched' : Schedule) :
    ((self.chunkFrames schema probe.isSome).flatMap (selectedRows p cols) = [] →
      self.attempt (pushedArgs p cols) sched' probe = .ok none) ∧
    ((self.chunkFrames schema probe.isSome).flatMap (selectedRows p cols) ≠ [] → ∃ stacked,
      self.attempt (pushedArgs p cols) sched' probe = .ok (some stacked) ∧
        stacked.rows = (self.chunkFrames schema probe.isSome).flatMap (selectedRows p cols) ∧
        stacked.schema = cols.map fun key =>
          (key, finishedType (trackType (some schema) key))) := by
  obtain ⟨-, hstack⟩ := attempt_reads hsource hschema htexts h
  have hn : (pushedArgs p cols).nRows = none := rfl
  obtain ⟨hall, outs, hside, hframes⟩ :=
    attemptResults_selected hsource hschema htexts h hne hnodup hfits
  have hrows := rows_selected hside
  have hschemas := schema_selected hside (chunkFrames_typed probe.isSome)
  constructor
  · intro hnil
    rw [hstack hn]
    unfold stackResults
    rw [collectResults_of_ok hall, hframes]
    rw [rows_left_eq_nil_iff.mp (hrows.trans hnil)]
  · intro hsome
    have hleft : outs.filter (fun out => 0 < out.height) ≠ [] := fun hleft =>
      hsome (hrows.symm.trans (rows_left_eq_nil_iff.mpr hleft))
    have hschema : ∀ out ∈ outs.filter (fun out => 0 < out.height),
        out.schema = cols.map fun key => (key, finishedType (trackType (some schema) key)) :=
      fun out hout => hschemas out (List.mem_filter.mp hout).1
    obtain ⟨first, rest, stacked, hfirst, hstacked, hstackedSchema, huncapped, -⟩ :=
      @stackResults_answers _ (pushedArgs p cols) _ ⟨hall, hframes ▸ hleft,
        fun df hdf other hother => by
        rw [hframes] at hdf hother
        rw [hschema df hdf, hschema other hother]⟩ sched'.error
    rw [hframes] at hfirst
    refine ⟨stacked, by rw [hstack hn, huncapped hn], ?_, ?_⟩
    · rw [DataFrame.accumulateVertical_rows hstacked, ← hfirst, hrows]
    · rw [hstackedSchema]
      exact hschema first (by rw [hfirst]; exact List.mem_cons_self)

/-- When one has not, the pushdown fails. -/
theorem attempt_unfit (hkeys : ∀ name ∈ p.reads ++ cols, ¬ cloneHandleFailedMsg <:+: name)
    (hunfit : ¬ ∀ df ∈ self.chunkFrames schema probe.isSome, HasColumns p cols df)
    (sched' : Schedule) : ∃ e, self.attempt (pushedArgs p cols) sched' probe = .error e := by
  obtain ⟨hok, hstack⟩ := attempt_reads hsource hschema htexts h
  have hn : (pushedArgs p cols).nRows = none := rfl
  rw [hstack hn]
  unfold chunkFrames attemptResults at *
  by_cases hopened : probe.isSome = true
  · simp only [hopened, if_true] at hunfit
    exact absurd (by simp) hunfit
  · simp only [hopened, Bool.false_eq_true, if_false] at hok hunfit ⊢
    rw [@workerFrames_uncapped _ self schema {} rfl] at hok hunfit
    rw [workerFrames_uncapped hn]
    obtain ⟨e, he⟩ := @workerFrames_unfit _ (self.frameOpts {} (some schema))
      (self.frameOpts (pushedArgs p cols) (some schema)) rfl rfl rfl rfl p cols rfl rfl rfl _ hok
      hunfit
    refine stackResults_error _ he (fun e he => ?_) sched'.error
    obtain ⟨lines, -, hfailed⟩ := List.mem_map.mp he
    exact htexts.apart hkeys (workerFrame_error hfailed)

end

end LazyLogFmtReader

end PolarsLogfmt
