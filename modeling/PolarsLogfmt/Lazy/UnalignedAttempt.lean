import PolarsLogfmt.Lazy.ReadableChunks
import PolarsLogfmt.Lazy.ScanPaths

/-!
# The attempt without aligned columns

Without `aligned_cols_cnt` the workers collect no columns: they read their chunks for
nothing, and the attempt makes no frame.
-/

namespace PolarsLogfmt

variable [Crates]

/-- A worker without columns makes the empty frame of a chunk it can read. -/
theorem chunkFrame_unaligned {opts : FrameOpts} (ha : opts.alignedColsCnt = false)
    {origin : FrameOrigin} {chunk : Nat × List FrameRange}
    (hread : (origin.chunkLines opts.lineFilter chunk).2 = none) :
    origin.chunkFrame opts chunk = .ok .empty := by
  rw [FrameOrigin.chunkFrame_eq_ok]
  exact ⟨hread, workerFrame_unaligned ha _⟩

/-- Nothing is left of such frames. -/
theorem stackResults_empty (scanOpts : AnonymousScanArgs)
    {results : List (Except PolarsError DataFrame)} (h : ∀ result ∈ results, result = .ok .empty)
    (pick : Nat) : LazyLogFmtReader.stackResults scanOpts results pick = .ok none := by
  have hcollect : LazyLogFmtReader.collectResults results pick = .ok [] := by
    rw [LazyLogFmtReader.collectResults_eq_ok]
    refine ⟨List.replicate results.length .empty, ?_, ?_⟩
    · rw [List.map_replicate]
      exact List.eq_replicate_iff.mpr ⟨rfl, h⟩
    · rw [List.filter_replicate]
      rfl
  unfold LazyLogFmtReader.stackResults
  rw [hcollect]

/-- A line that is no UTF-8 is not taken for a handle that is missing. -/
theorem not_cloneHandleFailed : ¬ LazyLogFmtReader.cloneHandleFailedMsg <:+:
    (PolarsError.computeError invalidUtf8).text := by
  show ¬ LazyLogFmtReader.cloneHandleFailedMsg <:+: invalidUtf8
  decide +kernel

/-- When some worker failed, and none for want of a handle, the attempt fails. -/
theorem stackResults_error (scanOpts : AnonymousScanArgs)
    {results : List (Except PolarsError DataFrame)} {e : PolarsError} (he : .error e ∈ results)
    (hclone : ∀ e, .error e ∈ results → ¬ LazyLogFmtReader.cloneHandleFailedMsg <:+: e.text)
    (pick : Nat) : ∃ e, LazyLogFmtReader.stackResults scanOpts results pick = .error e := by
  have hmem : e ∈ results.filterMap LazyLogFmtReader.resultError :=
    List.mem_filterMap.mpr ⟨_, he, rfl⟩
  have hlt := Nat.mod_lt pick (List.length_pos_of_mem hmem)
  obtain ⟨picked, hpicked⟩ : ∃ picked, (results.filterMap LazyLogFmtReader.resultError)[pick %
      (results.filterMap LazyLogFmtReader.resultError).length]? = some picked :=
    ⟨_, List.getElem?_eq_getElem hlt⟩
  obtain ⟨result, hresult, hfailed⟩ := List.mem_filterMap.mp (List.mem_of_getElem? hpicked)
  refine ⟨picked, ?_⟩
  unfold LazyLogFmtReader.stackResults LazyLogFmtReader.collectResults
  simp only [hpicked]
  cases result with
  | ok df => cases hfailed
  | error e =>
    cases hfailed
    exact if_neg (hclone _ hresult)

/-- A line that is no UTF-8 makes the attempt fail. -/
theorem stackResults_invalid (scanOpts : AnonymousScanArgs)
    {results : List (Except PolarsError DataFrame)}
    (hfailed : .error (.computeError invalidUtf8) ∈ results)
    (hresults : ∀ result ∈ results,
      result = .ok .empty ∨ result = .error (.computeError invalidUtf8)) (pick : Nat) :
    ∃ e, LazyLogFmtReader.stackResults scanOpts results pick = .error e := by
  refine stackResults_error scanOpts hfailed ?_ pick
  intro e he
  rcases hresults _ he with hempty | hinvalid
  · cases hempty
  · cases hinvalid
    exact not_cloneHandleFailed

/-- The attempt without a slice, on chunks that can be read: it may infer a schema, and makes
no frame. -/
theorem parallelBatch_unaligned {self : LazyLogFmtReader} (ha : self.alignedColsCnt = false)
    {scanOpts : AnonymousScanArgs} (hn : scanOpts.nRows = none) {origin : FrameOrigin}
    {frames : List FrameRange} {probe : LineReader}
    (horigin : self.parallelOrigin = some (origin, frames, probe))
    (hread : ∀ chunk ∈ self.chunks frames, (origin.chunkLines self.lineFilter chunk).2 = none)
    {schema pred : Option Schema} (hpred : self.predictedSchema schema probe = .ok pred)
    (sched : Schedule) :
    self.parallelBatch scanOpts schema sched = (schema.or pred, .ok none) := by
  rw [LazyLogFmtReader.parallelBatch_uncapped horigin hpred hn, stackResults_empty]
  intro result hresult
  obtain ⟨chunk, hchunk, rfl⟩ := List.mem_map.mp hresult
  exact chunkFrame_unaligned ha (hread chunk hchunk)

namespace LazyLogFmtReader

variable {self : LazyLogFmtReader} {text : Bytes}

/-- The attempt of a reader that has a schema, on frames that can be read. -/
theorem parallelBatch_readable (ha : self.alignedColsCnt = false)
    (hsource : self.source.Delivers text) {scanOpts : AnonymousScanArgs}
    (hn : scanOpts.nRows = none) (hread : self.FramesReadable) (schema : Schema)
    (sched : Schedule) :
    self.parallelBatch scanOpts (some schema) sched = (some schema, .ok none) := by
  cases horigin : self.parallelOrigin with
  | none =>
    unfold parallelBatch
    rw [horigin]
  | some found =>
    obtain ⟨origin, frames, probe⟩ := found
    have hs := parallelOrigin_sound hsource horigin
    refine parallelBatch_unaligned ha hn horigin ?_ rfl sched
    intro chunk hchunk
    rw [FrameOrigin.chunkLines_err hs]
    apply if_pos
    intro range hrange
    by_cases hworkers : 0 < workerCount self.maxInflight frames.length
    · exact hread origin frames probe horigin hworkers range
        ((mem_chunks hworkers).mp ⟨chunk, hchunk, hrange⟩)
    · rw [chunks_eq_nil (Nat.eq_zero_of_not_pos hworkers)] at hchunk
      cases hchunk

/-- On frames that cannot be read it fails. -/
theorem parallelBatch_unreadable (ha : self.alignedColsCnt = false)
    (hsource : self.source.Delivers text) {scanOpts : AnonymousScanArgs}
    (hn : scanOpts.nRows = none) (hread : ¬ self.FramesReadable) (schema : Schema)
    (sched : Schedule) :
    ∃ e, (self.parallelBatch scanOpts (some schema) sched).2 = .error e := by
  unfold FramesReadable at hread
  push Not at hread
  obtain ⟨origin, frames, probe, horigin, hworkers, range, hrange, hinvalid⟩ := hread
  have hs := parallelOrigin_sound hsource horigin
  obtain ⟨chunk, hchunk, hmem⟩ := (mem_chunks hworkers).mpr hrange
  rw [parallelBatch_uncapped horigin (show self.predictedSchema (some schema) probe = .ok none
    from rfl)
    hn]
  -- a worker either has nothing to say or stops at a line
  have hresult : ∀ chunk, origin.chunkFrame (self.frameOpts scanOpts (some schema)) chunk =
      if ∀ range ∈ chunk.2, ValidLines (origin.frameText range) then .ok .empty
      else .error (.computeError invalidUtf8) := by
    intro chunk
    have herr := FrameOrigin.chunkLines_err hs self.lineFilter chunk
    by_cases hvalid : ∀ range ∈ chunk.2, ValidLines (origin.frameText range)
    · rw [if_pos hvalid] at herr ⊢
      exact chunkFrame_unaligned ha herr
    · rw [if_neg hvalid] at herr ⊢
      unfold FrameOrigin.chunkFrame
      rw [show (self.frameOpts scanOpts (some schema)).lineFilter = self.lineFilter from rfl]
      cases hlines : origin.chunkLines self.lineFilter chunk with
      | mk lines err =>
        rw [hlines] at herr
        obtain rfl : err = some invalidUtf8 := herr
        rfl
  have hfailed : .error (.computeError invalidUtf8) ∈
      (self.chunks frames).map (origin.chunkFrame (self.frameOpts scanOpts (some schema))) :=
    List.mem_map.mpr
      ⟨chunk, hchunk, (hresult chunk).trans (if_neg fun h => hinvalid (h range hmem))⟩
  refine stackResults_invalid scanOpts hfailed ?_ sched.error
  intro result hmem
  obtain ⟨other, -, rfl⟩ := List.mem_map.mp hmem
  rw [hresult]
  split
  · exact .inl rfl
  · exact .inr rfl

/-- Without aligned columns the scan of a text reads it line by line, after an attempt that may
fail. -/
theorem scanText_readable (ha : self.alignedColsCnt = false) (hsource : self.source.Delivers text)
    {scanOpts : AnonymousScanArgs} (hn : scanOpts.nRows = none) {schema : Schema}
    (hschema : self.schema = some schema) {probe : Option LineReader}
    (hread : probe = none → self.FramesReadable) (sched : Schedule) :
    self.scanText scanOpts sched text probe =
      self.scanLoop scanOpts sched { reader := some (.ofBytes text) } none := by
  have hattempt : self.attempt scanOpts sched probe = .ok none := by
    unfold attempt
    cases probe with
    | some reader => rfl
    | none =>
      rw [hschema, parallelBatch_readable ha hsource hn (hread rfl) schema sched]
      rfl
  unfold scanText
  rw [hattempt]

theorem scanText_unreadable (ha : self.alignedColsCnt = false) (hsource : self.source.Delivers text)
    {scanOpts : AnonymousScanArgs} (hn : scanOpts.nRows = none) {schema : Schema}
    (hschema : self.schema = some schema) (hread : ¬ self.FramesReadable) (sched : Schedule) :
    ∃ e, self.scanText scanOpts sched text none = .error e := by
  obtain ⟨e, he⟩ := parallelBatch_unreadable ha hsource hn hread schema sched
  refine ⟨e, ?_⟩
  unfold scanText attempt
  rw [hschema, if_neg (by simp), he]

end LazyLogFmtReader

end PolarsLogfmt
