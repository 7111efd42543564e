import PolarsLogfmt.Frame.Rows
import PolarsLogfmt.Lazy.ParallelFrames

/-!
# How the frames are split

Every worker gets the frames of a range of indices. The ranges are a partition of all
indices, in order, whatever the chunk size is rounded up to. So the frames the workers
make, one after the other, have the lines in the order of the file.
-/

namespace PolarsLogfmt

open Batches SideBySide
open LazyLogFmtReader

/-! ## The ranges -/

/-- The indices `start..end_idx` of the frames of worker `w`. -/
def workerRange (framesLen workers w : Nat) : Nat × Nat :=
  (w * chunkSize framesLen workers, min ((w + 1) * chunkSize framesLen workers) framesLen)

/-- The workers that pass the filter. -/
def busyWorkers (framesLen workers : Nat) : List Nat :=
  (List.range workers).filter fun w => (workerRange framesLen workers w).1 < framesLen

theorem mem_busyWorkers {framesLen workers w : Nat} :
    w ∈ busyWorkers framesLen workers ↔
      w < workers ∧ (workerRange framesLen workers w).1 < framesLen := by
  rw [busyWorkers, List.mem_filter, List.mem_range, decide_eq_true_iff]

theorem workerCount_pos {framesLen maxInflight : Nat} (hf : 1 ≤ framesLen) (ht : 1 ≤ maxInflight) :
    0 < workerCount maxInflight framesLen := by
  unfold workerCount
  omega

section

variable {framesLen workers : Nat}

/-- A range is in bounds and not empty. -/
theorem workerRange_bounds (hf : 1 ≤ framesLen) (hw : 0 < workers) {w : Nat}
    (h : w ∈ busyWorkers framesLen workers) :
    (workerRange framesLen workers w).1 < (workerRange framesLen workers w).2 ∧
      (workerRange framesLen workers w).2 ≤ framesLen := by
  have hchunk := chunkSize_pos hf hw
  have hstart := (mem_busyWorkers.mp h).2
  unfold workerRange at hstart ⊢
  simp only [Nat.succ_mul] at hstart ⊢
  omega

/-- One after the other the ranges are all indices. -/
theorem workerRange_flatMap (hf : 1 ≤ framesLen) (hw : 0 < workers) :
    (busyWorkers framesLen workers).flatMap (fun w =>
      List.range' (workerRange framesLen workers w).1
        ((workerRange framesLen workers w).2 - (workerRange framesLen workers w).1)) =
      List.range framesLen := by
  have hslices := @batches_eq_slices _ _ (chunkSize_pos hf hw) (List.range framesLen) workers
    (by rw [List.length_range]; exact le_mul_chunkSize framesLen hw)
  rw [List.length_range] at hslices
  rw [← flatten_batches (chunkSize framesLen workers) (List.range framesLen), ← hslices,
    List.flatMap_def]
  congr 1
  apply List.map_congr_left
  intro w _
  rw [workerRange, Nat.succ_mul, List.range_eq_range', List.drop_range',
    List.take_range'_of_length_ge (by omega), Nat.zero_add, Nat.mul_one]

/-- Every index is in the range of one worker. -/
theorem workerRange_unique (hw : 0 < workers) {i : Nat} (hi : i < framesLen) :
    ∃! w, w ∈ busyWorkers framesLen workers ∧ (workerRange framesLen workers w).1 ≤ i ∧
      i < (workerRange framesLen workers w).2 := by
  have hchunk := chunkSize_pos (Nat.zero_lt_of_lt hi) hw
  have hcover := le_mul_chunkSize framesLen hw
  simp only [mem_busyWorkers, workerRange]
  generalize chunkSize framesLen workers = chunk at hchunk hcover
  have hstart : i / chunk * chunk ≤ i := Nat.div_mul_le_self i chunk
  have hend : i < (i / chunk + 1) * chunk := by
    rw [Nat.mul_comm]
    exact Nat.lt_mul_div_succ i hchunk
  refine ⟨i / chunk, ⟨⟨?_, by omega⟩, hstart, by omega⟩, ?_⟩
  · exact (Nat.div_lt_iff_lt_mul hchunk).mpr (by omega)
  · rintro w ⟨-, hlo, hhi⟩
    exact (Nat.div_eq_of_lt_le hlo (by omega)).symm

/-- The chunks are the frames of the ranges. -/
theorem workerChunks_eq (frames : List FrameRange) (workers : Nat) :
    workerChunks frames workers = (busyWorkers frames.length workers).map fun w =>
      (w, Scan.slice frames (workerRange frames.length workers w).1
        (workerRange frames.length workers w).2) := by
  unfold workerChunks busyWorkers workerRange
  simp only [Nat.succ_mul]

theorem workerChunks_ne_nil {frames : List FrameRange} (hw : 0 < workers) :
    ∀ chunk ∈ workerChunks frames workers, chunk.2 ≠ [] := by
  intro chunk hchunk
  have hmem : chunk.2 ∈ (workerChunks frames workers).map Prod.snd := List.mem_map_of_mem hchunk
  rw [workerChunks_batches frames hw] at hmem
  exact ne_nil_of_mem_batches hmem

end

/-! ## The stacked frame -/

section

variable [Crates]

/-- Every worker has made a frame of lines of its chunk. The lines of the workers, one after the
other, are in the order of the file, and the stacked frame has the rows of the workers' frames,
one after the other. -/
structure StackedInOrder (opts : FrameOpts) (origin : FrameOrigin)
    (chunks : List (Nat × List FrameRange)) (traces : List (List PushedLine))
    (frames : List DataFrame) (stacked : DataFrame) : Prop where
  pushed : List.Forall₂ (fun chunk trace => trace <+: (origin.chunkLines opts.lineFilter chunk).1)
    chunks traces
  made : traces.map (workerFrame opts) = frames.map .ok
  fileOrder : traces.flatten.Pairwise (PushedLine.Precedes (· < ·))
  rows : stacked.rows = frames.flatMap DataFrame.rows

/-- In every interleaving an attempt stacks in order. A slice is filtered and projected last. -/
theorem parallelBatch_inOrder {self : LazyLogFmtReader} {scanOpts : AnonymousScanArgs}
    {schema schema' : Option Schema} {sched : Schedule} {df : DataFrame}
    (h : self.parallelBatch scanOpts schema sched = (schema', .ok (some df))) {origin : FrameOrigin}
    {frames : List FrameRange} {probe : LineReader}
    (horigin : self.parallelOrigin = some (origin, frames, probe)) :
    ∃ traces made stacked,
      StackedInOrder (self.frameOpts scanOpts schema') origin (self.chunks frames) traces made
        stacked ∧
      (scanOpts.nRows = none → df = stacked) ∧
      (scanOpts.nRows ≠ none →
        applyPushdown stacked scanOpts.predicate scanOpts.withColumns = .ok df) := by
  obtain ⟨traces, hpushes, hstack⟩ := parallelBatch_pushes h horigin
  obtain ⟨made, hmade⟩ := exists_frames_of_ok (stackResults_ok hstack)
  rw [hmade] at hstack
  obtain ⟨first, rest, stacked, hkept, hacc, hplain, hslice⟩ := stackResults_frames hstack
  refine ⟨traces, made, stacked, ⟨hpushes.prefixes, hmade, ?_, ?_⟩, hplain, hslice⟩
  · have hprefixes : List.Forall₂ (· <+: ·) traces
        ((self.chunks frames).map fun chunk => (origin.chunkLines self.lineFilter chunk).1) := by
      rw [List.forall₂_map_right_iff]
      exact hpushes.prefixes.flip
    have hordered := FrameOrigin.chunkLines_pairwise origin self.lineFilter (chunks_idx horigin)
    exact hordered.sublist (flatten_sublist_of_prefixes hprefixes)
  · rw [DataFrame.accumulateVertical_rows hacc, ← hkept, DataFrame.flatMap_rows_filter]

/-- What the split of `f` frames among `t` threads is for. -/
structure SplitsWork (f t : Nat) : Prop where
  /-- The range of a worker that passes the filter is in bounds and not empty. -/
  bounds : ∀ w ∈ busyWorkers f (workerCount t f),
    (workerRange f (workerCount t f) w).1 < (workerRange f (workerCount t f) w).2 ∧
      (workerRange f (workerCount t f) w).2 ≤ f
  concatenated : ((busyWorkers f (workerCount t f)).flatMap fun w =>
    List.range' (workerRange f (workerCount t f) w).1
      ((workerRange f (workerCount t f) w).2 - (workerRange f (workerCount t f) w).1)) =
        List.range f
  unique : ∀ i < f, ∃! w, w ∈ busyWorkers f (workerCount t f) ∧
    (workerRange f (workerCount t f) w).1 ≤ i ∧ i < (workerRange f (workerCount t f) w).2
  /-- The workers are given the frames of their ranges. -/
  given : ∀ frames : List FrameRange, frames.length = f →
    workerChunks frames (workerCount t f) = (busyWorkers f (workerCount t f)).map (fun w =>
      (w, Scan.slice frames (workerRange f (workerCount t f) w).1
        (workerRange f (workerCount t f) w).2)) ∧
    (workerChunks frames (workerCount t f)).flatMap Prod.snd = frames ∧
    ∀ chunk ∈ workerChunks frames (workerCount t f), chunk.2 ≠ []
  /-- The frame of an attempt on `f` frames with `t` threads is stacked in order; with a slice
  it is filtered and projected after that. -/
  stacked : ∀ (self : LazyLogFmtReader) (origin : FrameOrigin) (frames : List FrameRange)
    (probe : LineReader), self.parallelOrigin = some (origin, frames, probe) → frames.length = f →
    self.maxInflight = t → ∀ (scanOpts : AnonymousScanArgs) (schema schema' : Option Schema)
    (sched : Schedule) (df : DataFrame),
    self.parallelBatch scanOpts schema sched = (schema', .ok (some df)) →
    ∃ traces made stacked,
      StackedInOrder (self.frameOpts scanOpts schema') origin
        (workerChunks frames (workerCount t f)) traces made stacked ∧
      (scanOpts.nRows = none → df = stacked) ∧
      (scanOpts.nRows ≠ none →
        applyPushdown stacked scanOpts.predicate scanOpts.withColumns = .ok df)

/-- For every number of frames and of threads the ranges of the workers that pass the filter are
not empty, in bounds and, one after the other, all the frames in order; every frame is in one of
them, and they are what the workers are given. So the stacked frame keeps the order of the
file. -/
theorem work_splitting {f t : Nat} (hf : 1 ≤ f) (ht : 1 ≤ t) : SplitsWork f t := by
  have hw := workerCount_pos hf ht
  constructor
  case bounds =>
    intro w
    exact workerRange_bounds hf hw
  case concatenated => exact workerRange_flatMap hf hw
  case unique =>
    intro i hi
    exact workerRange_unique hw hi
  case given =>
    rintro frames rfl
    exact ⟨workerChunks_eq frames _, workerChunks_flatMap frames hw, workerChunks_ne_nil hw⟩
  case stacked =>
    rintro self origin frames probe horigin rfl rfl scanOpts schema schema' sched df h
    exact parallelBatch_inOrder h horigin

end

section

attribute [local instance] smallCrates

/-- Nine frames for eight threads: chunks of two, and three workers without one. -/
theorem work_splitting_nine : SplitsWork 9 8 ∧ busyWorkers 9 (workerCount 8 9) = [0, 1, 2, 3, 4] :=
  ⟨work_splitting (by decide) (by decide), by decide⟩

end

end PolarsLogfmt
