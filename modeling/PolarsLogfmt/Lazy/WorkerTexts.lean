import PolarsLogfmt.Lazy.ReadableChunks

/-!
# The texts of the workers

Without a slice the attempt of a source that does not fail depends on the texts of the
frames each worker is given, and on nothing else.
-/

namespace PolarsLogfmt

variable [Crates]

namespace LazyLogFmtReader

/-- The texts of the frames of an attempt. -/
def frameTexts (self : LazyLogFmtReader) : List Bytes :=
  match self.parallelOrigin with
  | some (origin, frames, _) => frames.map origin.frameText
  | none => []

/-- The texts of the frames of each worker. -/
def workerTexts (self : LazyLogFmtReader) : List (List Bytes) :=
  match self.parallelOrigin with
  | some (origin, frames, _) => (self.chunks frames).map fun chunk => chunk.2.map origin.frameText
  | none => []

/-- The lines a worker accepts. -/
def acceptedBy (self : LazyLogFmtReader) (texts : List Bytes) : List Bytes :=
  texts.flatMap (acceptedLines self.lineFilter)

/-- The workers have the frames between them, in order. -/
theorem workerTexts_flatten {self : LazyLogFmtReader} (h : 0 < self.maxInflight) :
    self.workerTexts.flatten = self.frameTexts := by
  unfold workerTexts frameTexts
  cases self.parallelOrigin with
  | none => rfl
  | some found =>
    obtain ⟨origin, frames, probe⟩ := found
    simp only
    by_cases hnil : frames = []
    · simp [hnil, chunks, workerChunks]
    · have hworkers : 0 < workerCount self.maxInflight frames.length := by
        have := List.length_pos_of_ne_nil hnil
        unfold workerCount
        omega
      rw [← List.flatMap_def, ← List.map_flatMap, chunks_flatMap hworkers]

/-- Frames of whole lines have the lines of the text they cut. -/
theorem workerTexts_accepted {self : LazyLogFmtReader} (h : 0 < self.maxInflight)
    (hwhole : Lines.Whole newline self.frameTexts) :
    self.workerTexts.flatMap self.acceptedBy =
      acceptedLines self.lineFilter self.frameTexts.flatten := by
  rw [← flatMap_acceptedLines hwhole, ← workerTexts_flatten h, List.flatMap_def, List.flatMap_def]
  unfold acceptedBy
  simp only [List.flatMap_def]
  rw [List.map_flatten, List.flatten_flatten, List.map_map]
  rfl

section

variable {self : LazyLogFmtReader} {text : Bytes} (hsource : self.source.Delivers text)
  (hvalid : ∀ texts ∈ self.workerTexts, ∀ text ∈ texts, ValidLines text) {origin : FrameOrigin}
  {frames : List FrameRange} {probe : LineReader}
  (horigin : self.parallelOrigin = some (origin, frames, probe))

include hsource hvalid horigin

/-- No worker comes to a line it cannot read. -/
theorem chunkLines_readable {chunk : Nat × List FrameRange} (hchunk : chunk ∈ self.chunks frames) :
    (origin.chunkLines self.lineFilter chunk).2 = none := by
  have hreads : ∀ range ∈ chunk.2, ValidLines (origin.frameText range) := by
    intro range hrange
    apply hvalid (chunk.2.map origin.frameText)
    · unfold workerTexts
      rw [horigin]
      exact List.mem_map_of_mem hchunk
    · exact List.mem_map_of_mem hrange
  rw [FrameOrigin.chunkLines_err (parallelOrigin_sound hsource horigin), if_pos hreads]

/-- What the workers may push is what they accept. -/
theorem map_acceptedBy_workerTexts :
    self.workerTexts.map self.acceptedBy = (self.chunks frames).map fun chunk =>
      (origin.chunkLines self.lineFilter chunk).1.map PushedLine.line := by
  unfold workerTexts
  rw [horigin, List.map_map]
  apply List.map_congr_left
  intro chunk hchunk
  rw [FrameOrigin.map_line_chunkLines (chunkLines_readable hsource hvalid horigin hchunk)]
  show self.acceptedBy (chunk.2.map origin.frameText) = _
  rw [acceptedBy, List.flatMap_map]

end

/-- What a worker without a slice makes of the texts of its frames: the frame of the lines it
accepts, or the error of a line that is no UTF-8. -/
def WorkerResult (self : LazyLogFmtReader) (opts : FrameOpts) (texts : List Bytes)
    (result : Except PolarsError DataFrame) : Prop :=
  if ∀ text ∈ texts, ValidLines text then
    ∃ lines : List PushedLine, lines.map PushedLine.line = self.acceptedBy texts ∧
      result = workerFrame opts lines
  else result = .error (.computeError invalidUtf8)

theorem workerResult_chunkFrame {self : LazyLogFmtReader} {opts : FrameOpts}
    (hfilter : opts.lineFilter = self.lineFilter) {origin : FrameOrigin} (hs : origin.Sound)
    (chunk : Nat × List FrameRange) :
    self.WorkerResult opts (chunk.2.map origin.frameText) (origin.chunkFrame opts chunk) := by
  have herr := FrameOrigin.chunkLines_err hs opts.lineFilter chunk
  unfold WorkerResult
  by_cases hvalid : ∀ range ∈ chunk.2, ValidLines (origin.frameText range)
  · rw [if_pos hvalid] at herr
    have hlines := FrameOrigin.map_line_chunkLines herr
    rw [if_pos (by simpa using hvalid)]
    refine ⟨(origin.chunkLines opts.lineFilter chunk).1, ?_, ?_⟩
    · rw [hlines, hfilter, acceptedBy, List.flatMap_map]
    · unfold FrameOrigin.chunkFrame
      cases hchunk : origin.chunkLines opts.lineFilter chunk with
      | mk lines err =>
        rw [hchunk] at herr
        obtain rfl : err = none := herr
        rfl
  · rw [if_neg hvalid] at herr
    rw [if_neg (by simpa using hvalid)]
    unfold FrameOrigin.chunkFrame
    cases hchunk : origin.chunkLines opts.lineFilter chunk with
    | mk lines err =>
      rw [hchunk] at herr
      obtain rfl : err = some invalidUtf8 := herr
      rfl

/-- The attempt stacks these results; without workers it makes no frame. -/
theorem parallelBatch_results {self : LazyLogFmtReader} {text : Bytes}
    (hsource : self.source.Delivers text) {scanOpts : AnonymousScanArgs}
    (hn : scanOpts.nRows = none) (schema : Schema) (sched : Schedule) :
    ∃ results, List.Forall₂ (self.WorkerResult (self.frameOpts scanOpts (some schema)))
        self.workerTexts results ∧
      (self.parallelBatch scanOpts (some schema) sched).2 =
        stackResults scanOpts results sched.error := by
  unfold workerTexts
  cases horigin : self.parallelOrigin with
  | none =>
    refine ⟨[], .nil, ?_⟩
    unfold parallelBatch
    rw [horigin]
    rfl
  | some found =>
    obtain ⟨origin, frames, probe⟩ := found
    have hs := parallelOrigin_sound hsource horigin
    refine ⟨(self.chunks frames).map
      (origin.chunkFrame (self.frameOpts scanOpts (some schema))), ?_, ?_⟩
    · rw [List.forall₂_map_left_iff, List.forall₂_map_right_iff, List.forall₂_same]
      exact fun chunk _ => workerResult_chunkFrame rfl hs chunk
    · have hpredicted : self.predictedSchema (some schema) probe = .ok none := rfl
      rw [parallelBatch_uncapped horigin hpredicted hn]
      rfl

end LazyLogFmtReader

end PolarsLogfmt
