import PolarsLogfmt.Lazy.SequentialScan
import PolarsLogfmt.Lazy.WorkerColumns

/-!
# What an attempt answers

The attempt answers when no worker fails and the frames that have rows, one at least, have the same
columns. Otherwise it fails, or leaves the scan to the sequential path.
-/

namespace PolarsLogfmt

open SharedCounter (outcome)
open SideBySide

variable [Crates]

namespace DataFrame

/-- Frames with columns that can be stacked have the columns of the first. -/
theorem accumulateVertical_schema {df out : DataFrame} {dfs : List DataFrame}
    (hwidth : 0 < df.width)
    (h : accumulateVertical df dfs = .ok out) : ∀ other ∈ dfs, other.schema = df.schema := by
  induction dfs generalizing df with
  | nil =>
    intro other hother
    cases hother
  | cons next dfs ih =>
    rw [accumulateVertical, List.foldlM_cons] at h
    cases hstack : df.vstack next with
    | error e =>
      rw [hstack] at h
      cases h
    | ok mid =>
      rw [hstack] at h
      have hsame : df.width = next.width := by
        have hnames := congrArg List.length (vstack_columnNames hwidth hstack).2
        rw [columnNames, columnNames, List.length_map, List.length_map] at hnames
        exact hnames.symm
      obtain ⟨hmid, hnext⟩ := vstack_schema hstack hsame
      have hwidth' : 0 < mid.width := by
        rw [width_eq_schema, hmid, ← width_eq_schema]
        exact hwidth
      intro other hother
      rcases List.mem_cons.mp hother with rfl | hother
      · exact hnext
      · exact (ih hwidth' h other hother).trans hmid

end DataFrame

namespace LazyLogFmtReader

/-! ## The results of the workers -/

theorem resultFrame_eq_some {result : Except PolarsError DataFrame} {df : DataFrame} :
    resultFrame result = some df ↔ result = .ok df ∧ 0 < df.height := by
  cases result with
  | error e =>
    constructor
    · intro h
      cases h
    · rintro ⟨⟨⟩, -⟩
  | ok made =>
    show (if 0 < made.height then some made else none) = some df ↔ _
    split
    · rename_i hrows
      constructor
      · intro h
        cases h
        exact ⟨rfl, hrows⟩
      · rintro ⟨⟨⟩, -⟩
        rfl
    · rename_i hrows
      constructor
      · intro h
        cases h
      · rintro ⟨⟨⟩, hdf⟩
        exact absurd hdf hrows

/-- No worker fails, and the frames with rows can be stacked. -/
structure Answers (results : List (Except PolarsError DataFrame)) : Prop where
  ok : ∀ result ∈ results, ∃ df, result = .ok df
  rows : results.filterMap resultFrame ≠ []
  columns : ∀ df ∈ results.filterMap resultFrame, ∀ other ∈ results.filterMap resultFrame,
    df.schema = other.schema

variable {scanOpts : AnonymousScanArgs} {results : List (Except PolarsError DataFrame)} {pick : Nat}

theorem collectResults_of_ok (h : ∀ result ∈ results, ∃ df, result = .ok df) (pick : Nat) :
    collectResults results pick = .ok (results.filterMap resultFrame) := by
  obtain ⟨frames, rfl⟩ := exists_frames_of_ok h
  rw [collectResults_eq_ok]
  refine ⟨frames, rfl, ?_⟩
  rw [List.filterMap_map, ← List.filterMap_eq_filter]
  apply List.filterMap_congr
  intro df _
  simp [resultFrame, Option.guard]

/-- The frames that answer make one frame; with a slice the pushdown is of that frame. -/
theorem stackResults_answers (h : Answers results) (pick : Nat) :
    ∃ first rest stacked, results.filterMap resultFrame = first :: rest ∧
      DataFrame.accumulateVertical first rest = .ok stacked ∧ stacked.schema = first.schema ∧
      (scanOpts.nRows = none → stackResults scanOpts results pick = .ok (some stacked)) ∧
      (scanOpts.nRows ≠ none → stackResults scanOpts results pick =
        (applyPushdown stacked scanOpts.predicate scanOpts.withColumns).map some) := by
  obtain ⟨hok, hrows, hcolumns⟩ := h
  have hcollect := collectResults_of_ok hok pick
  cases hframes : results.filterMap resultFrame with
  | nil => exact absurd hframes hrows
  | cons first rest =>
    rw [hframes] at hcollect hcolumns
    obtain ⟨stacked, hstacked, hschema⟩ :=
      DataFrame.accumulateVertical_of_schema fun other hother =>
      hcolumns other (List.mem_cons_of_mem _ hother) first List.mem_cons_self
    refine ⟨first, rest, stacked, rfl, hstacked, hschema, fun hn => ?_, fun hn => ?_⟩
    · unfold stackResults
      rw [hcollect]
      simp only [hstacked, hn]
    · obtain ⟨n, hn⟩ := Option.ne_none_iff_exists'.mp hn
      unfold stackResults
      rw [hcollect]
      simp only [hstacked, hn]

/-- With an error among the results there is no frame. -/
theorem stackResults_failed {e : PolarsError} (he : .error e ∈ results) {result : Option DataFrame}
    (hresult : stackResults scanOpts results pick = .ok result) : result = none := by
  unfold stackResults at hresult
  cases hcollect : collectResults results pick with
  | ok frames =>
    obtain ⟨made, rfl, -⟩ := collectResults_eq_ok.mp hcollect
    obtain ⟨df, -, hdf⟩ := List.mem_map.mp he
    cases hdf
  | error e =>
    rw [hcollect] at hresult
    simp only at hresult
    split at hresult
    · cases hresult
      rfl
    · cases hresult

/-- Results that do not answer make no frame. -/
theorem stackResults_declines (h : ¬ Answers results)
    (hwide : ∀ df ∈ results.filterMap resultFrame, 0 < df.width) {result : Option DataFrame}
    (hresult : stackResults scanOpts results pick = .ok result) : result = none := by
  by_cases hok : ∀ result ∈ results, ∃ df, result = .ok df
  · unfold stackResults at hresult
    rw [collectResults_of_ok hok] at hresult
    cases hframes : results.filterMap resultFrame with
    | nil =>
      rw [hframes] at hresult
      cases hresult
      rfl
    | cons first rest =>
      rw [hframes] at hresult hwide
      simp only at hresult
      cases hstacked : DataFrame.accumulateVertical first rest with
      | error e =>
        rw [hstacked] at hresult
        cases hresult
        rfl
      | ok stacked =>
        -- what can be stacked has the same columns
        have hsame := DataFrame.accumulateVertical_schema (hwide first List.mem_cons_self) hstacked
        have hfirst : ∀ df ∈ first :: rest, df.schema = first.schema := by
          intro df hdf
          rcases List.mem_cons.mp hdf with rfl | hdf
          · rfl
          · exact hsame df hdf
        refine absurd ⟨hok, by rw [hframes]; simp, ?_⟩ h
        rw [hframes]
        exact fun df hdf other hother => (hfirst df hdf).trans (hfirst other hother).symm
  · push Not at hok
    obtain ⟨failed, hfailed, hnot⟩ := hok
    cases failed with
    | ok df => exact absurd rfl (hnot df)
    | error e => exact stackResults_failed hfailed hresult

/-! ## The lines the workers push -/

/-- The lines each worker of an attempt pushes. -/
def pushedTraces (self : LazyLogFmtReader) (scanOpts : AnonymousScanArgs) (schema : Option Schema)
    (sched : Schedule) : List (List PushedLine) :=
  match self.parallelOrigin with
  | some (origin, frames, _) =>
      (outcome ((self.chunks frames).map (workerProg (self.frameOpts scanOpts schema) origin))
        sched.steps).map Prod.snd
  | none => []

/-- The frames the workers make of them. -/
def workerFrames (self : LazyLogFmtReader) (scanOpts : AnonymousScanArgs) (schema : Option Schema)
    (sched : Schedule) : List (Except PolarsError DataFrame) :=
  (self.pushedTraces scanOpts schema sched).map (workerFrame (self.frameOpts scanOpts schema))

variable {self : LazyLogFmtReader} {schema schema' : Option Schema} {sched : Schedule}

/-- Without a slice the workers push the lines of their chunks. -/
theorem pushedTraces_uncapped (hn : scanOpts.nRows = none) {origin : FrameOrigin}
    {frames : List FrameRange} {probe : LineReader}
    (horigin : self.parallelOrigin = some (origin, frames, probe)) :
    self.pushedTraces scanOpts schema sched =
      (self.chunks frames).map fun chunk => (origin.chunkLines self.lineFilter chunk).1 := by
  unfold pushedTraces
  rw [horigin]
  obtain ⟨hends, -⟩ := worker_outcome (self.frameOpts scanOpts schema) origin (chunks_nodup horigin)
    sched.steps
  exact (map_eq_of_forall₂ hends fun chunk _ r hr => (hr.2.1 hn).symm).symm

/-- The lines they push are the accepted ones of their texts. -/
theorem pushedTraces_lines {text : Bytes} (hsource : self.source.Delivers text)
    (hvalid : ∀ texts ∈ self.workerTexts, ∀ text ∈ texts, ValidLines text)
    (hn : scanOpts.nRows = none) :
    (self.pushedTraces scanOpts schema sched).map (List.map PushedLine.line) =
      self.workerTexts.map self.acceptedBy := by
  cases horigin : self.parallelOrigin with
  | none =>
    unfold pushedTraces workerTexts
    rw [horigin]
    rfl
  | some found =>
    obtain ⟨origin, frames, probe⟩ := found
    rw [pushedTraces_uncapped hn horigin, map_acceptedBy_workerTexts hsource hvalid horigin,
      List.map_map]
    rfl

theorem pushedTraces_congr (hn : scanOpts.nRows = none) {other : AnonymousScanArgs}
    (hother : other.nRows = none) (schema schema' : Option Schema) (sched sched' : Schedule) :
    self.pushedTraces scanOpts schema sched = self.pushedTraces other schema' sched' := by
  cases horigin : self.parallelOrigin with
  | none =>
    unfold pushedTraces
    rw [horigin]
  | some found =>
    obtain ⟨origin, frames, probe⟩ := found
    rw [pushedTraces_uncapped hn horigin, pushedTraces_uncapped hother horigin]

/-- A worker's frame that has rows has columns. -/
theorem finishFrame_width {opts : FrameOpts} {df made : DataFrame}
    (h : finishFrame opts df = .ok made) (hrows : 0 < made.height) : 0 < made.width := by
  unfold finishFrame at h
  generalize (if 0 < df.width ∧ opts.rowCap.isNone = true
    then applyPushdown df opts.predicate opts.withColumns else .ok df) = pushed at h
  cases pushed with
  | error e => cases h
  | ok df =>
    have hmade : (if 0 < df.width ∧ 0 < df.height then df else .empty) = made := Except.ok.inj h
    split at hmade
    · rename_i hboth
      exact hmade ▸ hboth.1
    · subst hmade
      cases hrows

theorem workerFrames_width {traces : List (List PushedLine)} {opts : FrameOpts} :
    ∀ df ∈ (traces.map (workerFrame opts)).filterMap resultFrame, 0 < df.width := by
  intro df hdf
  obtain ⟨result, hresult, hframe⟩ := List.mem_filterMap.mp hdf
  obtain ⟨trace, -, rfl⟩ := List.mem_map.mp hresult
  obtain ⟨hmade, hrows⟩ := resultFrame_eq_some.mp hframe
  unfold workerFrame finishWorker at hmade
  cases hbuilt : (pushed opts trace).worker.dfMaker.toDf with
  | error e =>
    rw [hbuilt] at hmade
    cases hmade
  | ok built =>
    rw [hbuilt] at hmade
    exact finishFrame_width hmade hrows

/-! ## The attempt -/

section

variable {text : Bytes} (hsource : self.source.Delivers text) {result : Option DataFrame}
  (h : self.parallelBatch scanOpts schema sched = (schema', .ok result))

include hsource h

/-- An attempt that does not fail stacks the frames of the lines pushed, but for workers that have
come to a line they cannot read. -/
theorem parallelBatch_workerFrames : ∃ results,
    List.Forall₂ (fun result made => result = made ∨ result = .error (.computeError invalidUtf8))
        results (self.workerFrames scanOpts schema' sched) ∧
      stackResults scanOpts results sched.error = .ok result := by
  cases horigin : self.parallelOrigin with
  | none =>
    unfold parallelBatch at h
    rw [horigin] at h
    cases h
    unfold workerFrames pushedTraces
    rw [horigin]
    exact ⟨[], .nil, rfl⟩
  | some found =>
    obtain ⟨origin, frames, probe⟩ := found
    cases hpred : self.predictedSchema schema probe with
    | error e =>
      unfold predictedSchema at hpred
      unfold parallelBatch at h
      rw [horigin] at h
      simp only [hpred] at h
      cases h
    | ok pred =>
      rw [parallelBatch_eq horigin hpred, Prod.mk.injEq] at h
      obtain ⟨rfl, h⟩ := h
      obtain ⟨hends, -⟩ := worker_outcome (self.frameOpts scanOpts (schema.or pred)) origin
        (chunks_nodup horigin) sched.steps
      have htraces : self.pushedTraces scanOpts (schema.or pred) sched = (outcome
          ((self.chunks frames).map (workerProg (self.frameOpts scanOpts (schema.or pred)) origin))
          sched.steps).map Prod.snd := by
        unfold pushedTraces
        rw [horigin]
      refine ⟨_, ?_, h⟩
      unfold workerFrames
      rw [htraces, List.map_map, List.forall₂_map_left_iff, List.forall₂_map_right_iff,
        List.forall₂_same]
      intro r hr
      obtain ⟨chunk, -, -, -, hend⟩ := exists_of_forall₂ hends.flip hr
      rcases hend with ⟨hframe, -⟩ | ⟨e, he, hfailed⟩
      · exact .inl hframe
      · have herr := FrameOrigin.chunkLines_err (parallelOrigin_sound hsource horigin)
          self.lineFilter chunk
        have he : (origin.chunkLines self.lineFilter chunk).2 = some e := he
        rw [he] at herr
        split at herr
        · cases herr
        · cases herr
          exact .inr hfailed

/-- An attempt that does not fail makes the frame of the frames that answer, and none if they do
not. -/
theorem parallelBatch_answers :
    (Answers (self.workerFrames scanOpts schema' sched) → ∃ first rest stacked,
      (self.workerFrames scanOpts schema' sched).filterMap resultFrame = first :: rest ∧
        DataFrame.accumulateVertical first rest = .ok stacked ∧ stacked.schema = first.schema ∧
        (scanOpts.nRows = none → result = some stacked) ∧
        (scanOpts.nRows ≠ none → ∃ df,
          applyPushdown stacked scanOpts.predicate scanOpts.withColumns = .ok df ∧
            result = some df)) ∧
      (¬ Answers (self.workerFrames scanOpts schema' sched) → result = none) := by
  obtain ⟨results, hresults, hstack⟩ := parallelBatch_workerFrames hsource h
  by_cases hread : results = self.workerFrames scanOpts schema' sched
  · subst hread
    constructor
    · intro hanswers
      obtain ⟨first, rest, stacked, hframes, hstacked, hschema, huncapped, hcapped⟩ :=
        @stackResults_answers _ scanOpts _ hanswers sched.error
      refine ⟨first, rest, stacked, hframes, hstacked, hschema, fun hn => ?_, fun hn => ?_⟩
      · rw [huncapped hn] at hstack
        exact (Except.ok.inj hstack).symm
      · rw [hcapped hn] at hstack
        cases hpush : applyPushdown stacked scanOpts.predicate scanOpts.withColumns with
        | error e =>
          rw [hpush] at hstack
          cases hstack
        | ok df =>
          rw [hpush] at hstack
          exact ⟨df, rfl, (Except.ok.inj hstack).symm⟩
    · exact fun hnot => stackResults_declines hnot workerFrames_width hstack
  · -- some worker has come to a line it cannot read
    have hinvalid : .error (.computeError invalidUtf8) ∈ results := by
      by_contra hall
      apply hread
      rw [← List.map_id results, ← List.map_id (self.workerFrames scanOpts schema' sched)]
      apply map_eq_of_forall₂ hresults
      intro result hresult made hmade
      rcases hmade with hmade | rfl
      · exact hmade
      · exact absurd hresult hall
    constructor
    · intro hanswers
      have hclone : ∀ e, .error e ∈ results → ¬ cloneHandleFailedMsg <:+: e.text := by
        intro e he
        obtain ⟨made, hmem, hmade⟩ := exists_of_forall₂ hresults he
        rcases hmade with rfl | hfailed
        · obtain ⟨df, hdf⟩ := hanswers.ok _ hmem
          cases hdf
        · cases hfailed
          exact not_cloneHandleFailed
      obtain ⟨e, he⟩ := stackResults_error scanOpts hinvalid hclone sched.error
      rw [he] at hstack
      cases hstack
    · exact fun _ => stackResults_failed hinvalid hstack

end

/-! ## The attempt of a scan -/

/-- The results of the workers of a scan; on a stream that is open it makes no attempt. -/
def attemptResults (self : LazyLogFmtReader) (scanOpts : AnonymousScanArgs) (schema : Option Schema)
    (sched : Schedule) (opened : Bool) : List (Except PolarsError DataFrame) :=
  if opened then [] else self.workerFrames scanOpts schema sched

theorem not_answers_nil : ¬ Answers [] := fun h => h.rows rfl

section

variable {text : Bytes} (hsource : self.source.Delivers text) {given : Schema}
  (hschema : self.schema = some given) {probe : Option LineReader} {result : Option DataFrame}
  (h : self.attempt scanOpts sched probe = .ok result)

include hsource hschema h

theorem attempt_answers :
    (Answers (self.attemptResults scanOpts (some given) sched probe.isSome) → ∃ first rest stacked,
      (self.attemptResults scanOpts (some given) sched probe.isSome).filterMap resultFrame =
          first :: rest ∧
        DataFrame.accumulateVertical first rest = .ok stacked ∧ stacked.schema = first.schema ∧
        (scanOpts.nRows = none → result = some stacked) ∧
        (scanOpts.nRows ≠ none → ∃ df,
          applyPushdown stacked scanOpts.predicate scanOpts.withColumns = .ok df ∧
            result = some df)) ∧
      (¬ Answers (self.attemptResults scanOpts (some given) sched probe.isSome) →
        result = none) := by
  unfold attempt at h
  unfold attemptResults
  by_cases hopened : probe.isSome = true
  · rw [if_pos hopened] at h ⊢
    cases h
    exact ⟨fun hanswers => absurd hanswers not_answers_nil, fun _ => rfl⟩
  · rw [if_neg hopened, hschema] at h
    rw [if_neg hopened]
    have hkept := parallelBatch_schema self scanOpts given sched
    exact parallelBatch_answers hsource (Prod.ext hkept h)

omit h in
/-- When the workers do not answer, a scan that succeeds reads batches. -/
theorem attempt_unanswered
    (hnot : ¬ Answers (self.attemptResults scanOpts (some given) sched probe.isSome))
    {acc : Option DataFrame} (hscan : self.scanText scanOpts sched text probe = .ok acc) :
    self.attempt scanOpts sched probe = .ok none := by
  cases hattempt : self.attempt scanOpts sched probe with
  | error e =>
    rw [scanText, hattempt] at hscan
    cases hscan
  | ok result => rw [(attempt_answers hsource hschema hattempt).2 hnot]

end

end LazyLogFmtReader

/-! ## The errors of the workers -/

/-- polars' own messages do not read like a handle that is missing, but for a column whose name
does. -/
def PolarsTexts : Prop :=
  ∀ e : PolarsError, (∀ msg, e ≠ .computeError msg) →
    (∀ name, e = .columnNotFound name → ¬ LazyLogFmtReader.cloneHandleFailedMsg <:+: name) →
    ¬ LazyLogFmtReader.cloneHandleFailedMsg <:+: e.text

/-- The message is one of polars, and names no other columns. -/
def PolarsError.Names (names : List Bytes) (e : PolarsError) : Prop :=
  ∃ cause : PolarsError, e.text = cause.text ∧ (∀ msg, cause ≠ .computeError msg) ∧
    ∀ name, cause = .columnNotFound name → name ∈ names

theorem PolarsTexts.apart (h : PolarsTexts) {names : List Bytes}
    (hnames : ∀ name ∈ names, ¬ LazyLogFmtReader.cloneHandleFailedMsg <:+: name) {e : PolarsError}
    (he : e.Names names) : ¬ LazyLogFmtReader.cloneHandleFailedMsg <:+: e.text := by
  obtain ⟨cause, htext, hmsg, hcause⟩ := he
  rw [htext]
  exact h cause hmsg fun name hname => hnames name (hcause name hname)

omit [Crates] in
/-- A key does not read like it, having no blank in it. -/
theorem key_apart {line key : Bytes} (h : key ∈ lineKeys line) :
    ¬ LazyLogFmtReader.cloneHandleFailedMsg <:+: key := by
  intro hmsg
  have hblank : ∃ b ∈ LazyLogFmtReader.cloneHandleFailedMsg, isAsciiWhitespace b = true := by
    decide +kernel
  obtain ⟨b, hb, hspace⟩ := hblank
  rw [not_whitespace_of_mem_lineKeys h b (hmsg.subset hb)] at hspace
  cases hspace

/-- An error that polars raises names its own column. -/
theorem PolarsError.names_self {names : List Bytes} {e : PolarsError}
    (hmsg : ∀ msg, e ≠ .computeError msg)
    (hname : ∀ name, e = .columnNotFound name → name ∈ names) : e.Names names :=
  ⟨e, rfl, hmsg, hname⟩

theorem PolarsError.Names.mono {names names' : List Bytes} {e : PolarsError} (h : e.Names names)
    (hsub : names ⊆ names') : e.Names names' := by
  obtain ⟨cause, htext, hmsg, hnames⟩ := h
  exact ⟨cause, htext, hmsg, fun name hname => hsub (hnames name hname)⟩

theorem filter_error {df : DataFrame} {p : Predicate} {e : PolarsError}
    (h : df.filter p = .error e) :
    e.Names p.reads := by
  unfold DataFrame.filter at h
  split at h
  · rename_i name hname
    cases h
    refine PolarsError.names_self (by simp) fun other hother => ?_
    cases hother
    exact List.mem_of_find?_eq_some hname
  · cases h

theorem lookupColumns_error {df : DataFrame} {names : List Bytes} {e : PolarsError}
    (h : df.lookupColumns names = .error e) : e.Names names := by
  induction names with
  | nil => cases h
  | cons name names ih =>
    rw [DataFrame.lookupColumns] at h
    cases hc : df.column? name with
    | none =>
      rw [hc] at h
      cases h
      refine PolarsError.names_self (by simp) fun other hother => ?_
      cases hother
      exact List.mem_cons_self
    | some c =>
      rw [hc] at h
      cases hrest : df.lookupColumns names with
      | ok columns =>
        rw [hrest] at h
        cases h
      | error other =>
        rw [hrest] at h
        cases h
        exact (ih hrest).mono (List.subset_cons_self name names)

theorem select_error {df : DataFrame} {names : List Bytes} {e : PolarsError}
    (h : df.select names = .error e) : e.Names names := by
  unfold DataFrame.select at h
  split at h
  · rename_i error herror
    cases h
    exact lookupColumns_error herror
  · split at h
    · cases h
    · cases h
      exact PolarsError.names_self (by simp) (by simp)

theorem newInferHeight_error {columns : List Column} {e : PolarsError}
    (h : DataFrame.newInferHeight columns = .error e) (names : List Bytes) : e.Names names := by
  unfold DataFrame.newInferHeight at h
  simp only at h
  split at h
  · split at h
    · cases h
    · cases h
      exact PolarsError.names_self (by simp) (by simp)
  · cases h
    exact PolarsError.names_self (by simp) (by simp)

/-- The columns a pushdown names. -/
def pushedNames (predicate : Option Predicate) (withColumns : Option (List Bytes)) : List Bytes :=
  predicate.elim [] Predicate.reads ++ withColumns.getD []

theorem applyPushdown_error {df : DataFrame} {predicate : Option Predicate}
    {withColumns : Option (List Bytes)} {e : PolarsError}
    (h : applyPushdown df predicate withColumns = .error e) :
    e.Names (pushedNames predicate withColumns) := by
  have hproject : ∀ mid : DataFrame, applyProjection mid withColumns = .error e →
      e.Names (pushedNames predicate withColumns) := by
    intro mid hmid
    unfold applyProjection at hmid
    split at hmid
    · split at hmid
      · cases hmid
      · exact (select_error hmid).mono (List.subset_append_right _ _)
    · cases hmid
  unfold applyPushdown at h
  cases predicate with
  | none => exact hproject df h
  | some p =>
    cases hfilter : df.filter p with
    | ok mid =>
      rw [applyPredicate, hfilter] at h
      exact hproject mid h
    | error other =>
      rw [applyPredicate, hfilter] at h
      cases h
      obtain ⟨cause, htext, hmsg, hnames⟩ := filter_error hfilter
      exact ⟨cause, htext, hmsg, fun name hname => List.mem_append_left _ (hnames name hname)⟩

/-- A worker that can read its lines fails with an error of polars. -/
theorem workerFrame_error {opts : FrameOpts} {lines : List PushedLine} {e : PolarsError}
    (h : workerFrame opts lines = .error e) :
    e.Names (pushedNames opts.predicate opts.withColumns) := by
  unfold workerFrame finishWorker at h
  cases hbuilt : (pushed opts lines).worker.dfMaker.toDf with
  | error other =>
    rw [hbuilt] at h
    cases h
    exact newInferHeight_error hbuilt _
  | ok df =>
    rw [hbuilt] at h
    have h : finishFrame opts df = .error e := h
    unfold finishFrame at h
    split at h
    · cases hpush : applyPushdown df opts.predicate opts.withColumns with
      | ok out =>
        rw [hpush] at h
        cases h
      | error other =>
        rw [hpush] at h
        cases h
        exact applyPushdown_error hpush
    · cases h

end PolarsLogfmt
