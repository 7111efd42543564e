import PolarsLogfmt.Lazy.Reader
import PolarsLogfmt.Lazy.WorkerLines
import PolarsLogfmt.Misc.Batches

/-!
# The chunks of the workers

How the frames are spread over the workers, and what each worker of a source does
with its chunk.
-/

namespace PolarsLogfmt

open SharedCounter (Claims)
open Batches

namespace LazyLogFmtReader

/-! ## The partition of the frames -/

theorem le_mul_chunkSize (framesLen : Nat) {workers : Nat} (hw : 0 < workers) :
    framesLen ≤ workers * chunkSize framesLen workers := by
  unfold chunkSize
  have hdiv := Nat.div_add_mod (framesLen + workers - 1) workers
  have hmod := Nat.mod_lt (framesLen + workers - 1) hw
  omega

theorem chunkSize_pos {framesLen workers : Nat} (hf : 0 < framesLen) (hw : 0 < workers) :
    0 < chunkSize framesLen workers := Nat.div_pos (by omega) hw

/-- The chunks are the frames, cut into batches of the chunk size. -/
theorem workerChunks_batches (frames : List FrameRange) {workers : Nat} (hw : 0 < workers) :
    (workerChunks frames workers).map Prod.snd =
      batches (chunkSize frames.length workers) frames := by
  by_cases hnil : frames = []
  · rw [hnil, batches_nil]
    simp [workerChunks]
  · have hchunk := chunkSize_pos (List.length_pos_of_ne_nil hnil) hw
    rw [← batches_eq_slices hchunk (le_mul_chunkSize frames.length hw)]
    unfold workerChunks
    rw [List.map_map]
    rfl

/-- Between them the workers have the frames, in order. -/
theorem workerChunks_flatMap (frames : List FrameRange) {workers : Nat} (hw : 0 < workers) :
    (workerChunks frames workers).flatMap Prod.snd = frames := by
  rw [List.flatMap_def, workerChunks_batches frames hw, flatten_batches]

end LazyLogFmtReader

/-! ## What the workers push -/

/-- The accepted lines of a chunk of the source, and the error they end in. -/
def FrameOrigin.chunkLines (origin : FrameOrigin) (lineFilter : Option LineFilterFn)
    (chunk : Nat × List FrameRange) : List PushedLine × Option IoError :=
  match origin.cloneHandle chunk.1 with
  | .ok handle => workerLines lineFilter chunk.2 handle
  | .error _ => ([], some LazyLogFmtReader.cloneHandleFailedMsg)

namespace FrameOrigin

theorem frame_of_mem_chunkLines {origin : FrameOrigin} {lineFilter : Option LineFilterFn}
    {chunk : Nat × List FrameRange} {p : PushedLine}
    (hp : p ∈ (origin.chunkLines lineFilter chunk).1) : p.frame ∈ chunk.2.map FrameRange.idx := by
  rw [chunkLines] at hp
  split at hp
  · exact frame_of_mem_workerLines hp
  · cases hp

/-- The lines of the chunks come in the order of the frames. -/
theorem chunkLines_pairwise {before : Nat → Nat → Prop} (origin : FrameOrigin)
    (lineFilter : Option LineFilterFn) {chunks : List (Nat × List FrameRange)}
    (hidx : ((chunks.flatMap Prod.snd).map FrameRange.idx).Pairwise before) :
    (chunks.map fun chunk => (origin.chunkLines lineFilter chunk).1).flatten.Pairwise
      (PushedLine.Precedes before) := by
  induction chunks with
  | nil => exact .nil
  | cons chunk chunks ih =>
    rw [List.flatMap_cons, List.map_append, List.pairwise_append] at hidx
    obtain ⟨hchunk, hchunks, hacross⟩ := hidx
    rw [List.map_cons, List.flatten_cons, List.pairwise_append]
    refine ⟨?_, ih hchunks, ?_⟩
    · rw [chunkLines]
      split
      · exact workerLines_pairwise lineFilter hchunk _
      · exact .nil
    · intro p hp q hq
      obtain ⟨lines, hlines, hq⟩ := List.mem_flatten.mp hq
      obtain ⟨other, hother, rfl⟩ := List.mem_map.mp hlines
      refine .inl (hacross _ (frame_of_mem_chunkLines hp) _ ?_)
      obtain ⟨range, hrange, hframe⟩ := List.mem_map.mp (frame_of_mem_chunkLines hq)
      exact List.mem_map.mpr ⟨range, List.mem_flatMap.mpr ⟨other, hother, hrange⟩, hframe⟩

/-- No line of distinct frames is listed twice. -/
theorem chunkLines_nodup (origin : FrameOrigin) (lineFilter : Option LineFilterFn)
    {chunks : List (Nat × List FrameRange)}
    (hidx : ((chunks.flatMap Prod.snd).map FrameRange.idx).Nodup) :
    (chunks.map fun chunk => (origin.chunkLines lineFilter chunk).1).flatten.Nodup :=
  (chunkLines_pairwise origin lineFilter hidx).imp PushedLine.Precedes.ne

end FrameOrigin

section

variable [Crates]

/-- A worker pushes the lines of its chunk, each after claiming a slot when there is a slice. -/
theorem claims_workerProg (opts : FrameOpts) (origin : FrameOrigin) {chunk : Nat × List FrameRange}
    (hidx : (chunk.2.map FrameRange.idx).Nodup) :
    Claims (WorkerEnds opts (origin.chunkLines opts.lineFilter chunk).2) opts.rowCap []
      (origin.chunkLines opts.lineFilter chunk).1
      (LazyLogFmtReader.workerProg opts origin chunk) := by
  unfold LazyLogFmtReader.workerProg FrameOrigin.chunkLines
  cases origin.cloneHandle chunk.1 with
  | ok handle => exact claims_parseFrames opts hidx handle
  | error e => exact .done (.inr ⟨_, rfl, rfl⟩)

end

end PolarsLogfmt
