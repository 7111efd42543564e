import PolarsLogfmt.Lazy.FrameTexts
import PolarsLogfmt.Lazy.WorkerFrame
import PolarsLogfmt.Misc.SideBySide

/-!
# The frame of the parallel attempt

Without a slice the workers do not depend on each other: `parallel_batch` stacks the
frames of the chunks, in every interleaving.
-/

namespace PolarsLogfmt

open SharedCounter (outcome outcome_of_silent)
open SideBySide

/-! ## The numbers of the frames -/

theorem framesFrom_idx {maxFrame total : Nat} (hm : 0 < maxFrame) (h : Handle) (idx start : Nat) :
    (framesFrom maxFrame total hm h idx start).1.map FrameRange.idx =
      List.range' idx (framesFrom maxFrame total hm h idx start).1.length := by
  fun_induction framesFrom maxFrame total hm h idx start with
  | case1 h idx start hs found rest ih =>
    rw [List.map_cons, List.length_cons, List.range'_succ, ih]
  | case2 => rfl

theorem framesFromSeekable_idx {file : SeekableVfsFile} {h : Handle} {frames : List FrameRange}
    (hf : (framesFromSeekable file h).1 = some frames) :
    frames.map FrameRange.idx = List.range frames.length := by
  unfold framesFromSeekable at hf
  split at hf
  · cases hf
    apply List.ext_getElem
    · simp
    · intro i hi hi'
      simp
  · split at hf
    · cases hf
    · rename_i total _
      by_cases hzero : total = 0
      · rw [if_pos hzero] at hf
        cases hf
      · rw [if_neg hzero] at hf
        cases hf
        rw [framesFrom_idx, List.range_eq_range']

variable [Crates]

namespace LazyLogFmtReader

/-- The frames of an attempt are numbered in order. -/
theorem parallelOrigin_idx {self : LazyLogFmtReader} {origin : FrameOrigin}
    {frames : List FrameRange} {probe : LineReader}
    (h : self.parallelOrigin = some (origin, frames, probe)) :
    frames.map FrameRange.idx = List.range frames.length := by
  unfold parallelOrigin at h
  split at h
  · rename_i file _
    split at h
    · cases h
    · rename_i handle _
      split at h
      · cases h
      · rename_i frames' probe' hframes
        cases h
        exact @framesFromSeekable_idx file handle _ (by rw [hframes])
  · split at h
    · cases h
    · cases h
      rw [List.map_map, List.length_map, List.length_range]
      exact List.map_id _
  · cases h

end LazyLogFmtReader

/-! ## The results of the workers -/

/-- What a worker makes of its chunk when there is no slice. -/
def FrameOrigin.chunkFrame (origin : FrameOrigin) (opts : FrameOpts)
    (chunk : Nat × List FrameRange) : Except PolarsError DataFrame :=
  match origin.chunkLines opts.lineFilter chunk with
  | (lines, none) => workerFrame opts lines
  | (_, some e) => .error (.computeError e)

theorem FrameOrigin.chunkFrame_eq_ok {origin : FrameOrigin} {opts : FrameOpts}
    {chunk : Nat × List FrameRange} {df : DataFrame} :
    origin.chunkFrame opts chunk = .ok df ↔
      (origin.chunkLines opts.lineFilter chunk).2 = none ∧
        workerFrame opts (origin.chunkLines opts.lineFilter chunk).1 = .ok df := by
  unfold chunkFrame
  cases origin.chunkLines opts.lineFilter chunk with
  | mk lines err =>
    cases err with
    | none => simp
    | some e => simp

namespace LazyLogFmtReader

/-- In every interleaving a worker pushes the lines of its chunk up to some point, and all of
them without a slice; with one the workers together push as many as the slice has slots, if
there are as many. -/
theorem worker_outcome (opts : FrameOpts) (origin : FrameOrigin)
    {chunks : List (Nat × List FrameRange)}
    (hidx : ((chunks.flatMap Prod.snd).map FrameRange.idx).Nodup) (steps : List Nat) :
    List.Forall₂ (fun chunk r => r.2 <+: (origin.chunkLines opts.lineFilter chunk).1 ∧
        (opts.rowCap = none → r.2 = (origin.chunkLines opts.lineFilter chunk).1) ∧
        WorkerEnds opts (origin.chunkLines opts.lineFilter chunk).2 r.2 r.1)
      chunks (outcome (chunks.map (workerProg opts origin)) steps) ∧
    ∀ n ∈ opts.rowCap,
      ((outcome (chunks.map (workerProg opts origin)) steps).map fun r => r.2.length).sum =
        min n (chunks.map fun chunk => (origin.chunkLines opts.lineFilter chunk).1.length).sum := by
  have hclaims : ∀ chunk ∈ chunks, SharedCounter.Claims
      (WorkerEnds opts (origin.chunkLines opts.lineFilter chunk).2) opts.rowCap []
      (origin.chunkLines opts.lineFilter chunk).1 (workerProg opts origin chunk) := by
    intro chunk hmem
    have hsub : (chunk.2.map FrameRange.idx).Sublist
        ((chunks.flatMap Prod.snd).map FrameRange.idx) :=
      (List.sublist_flatten_of_mem (List.mem_map_of_mem hmem)).map _
    exact claims_workerProg opts origin (hidx.sublist hsub)
  cases hcap : opts.rowCap with
  | none =>
    rw [hcap] at hclaims
    refine ⟨?_, by simp⟩
    rw [outcome_of_silent fun p hp => by
      obtain ⟨chunk, hmem, rfl⟩ := List.mem_map.mp hp
      exact (hclaims chunk hmem).silent.1]
    rw [List.map_map, List.forall₂_map_right_iff, List.forall₂_same]
    intro chunk hmem
    obtain ⟨-, hevents, hends⟩ := (hclaims chunk hmem).silent
    rw [List.nil_append, ← hevents] at hends
    exact ⟨hevents ▸ List.prefix_refl _, fun _ => hevents, hends⟩
  | some n =>
    rw [hcap] at hclaims
    obtain ⟨hends, hcount⟩ := SharedCounter.outcome_of_claims hclaims steps
    refine ⟨hends.imp fun chunk r h => ⟨h.1, (fun hnone => by cases hnone), h.2⟩, ?_⟩
    rintro m ⟨⟩
    exact hcount

/-- Without a slice the result of a worker is the frame of its chunk, in every
interleaving. -/
theorem results_uncapped {opts : FrameOpts} (hcap : opts.rowCap = none) (origin : FrameOrigin)
    {chunks : List (Nat × List FrameRange)}
    (hidx : ((chunks.flatMap Prod.snd).map FrameRange.idx).Nodup) (steps : List Nat) :
    (outcome (chunks.map (workerProg opts origin)) steps).map Prod.fst =
      chunks.map (origin.chunkFrame opts) := by
  symm
  apply map_eq_of_forall₂ (worker_outcome opts origin hidx steps).1
  intro chunk _ r hr
  obtain ⟨-, hall, hends⟩ := hr
  rw [hall hcap] at hends
  unfold FrameOrigin.chunkFrame
  cases hlines : origin.chunkLines opts.lineFilter chunk with
  | mk lines err =>
    rw [hlines] at hends
    rcases hends with ⟨hvalue, herr⟩ | ⟨e, herr, hvalue⟩
    · rw [show err = none from herr hcap]
      exact hvalue.symm
    · rw [show err = some e from herr]
      exact hvalue.symm

theorem exists_frames_of_ok {results : List (Except PolarsError DataFrame)}
    (h : ∀ result ∈ results, ∃ made, result = .ok made) :
    ∃ frames : List DataFrame, results = frames.map .ok := by
  induction results with
  | nil => exact ⟨[], rfl⟩
  | cons result results ih =>
    obtain ⟨made, rfl⟩ := h result List.mem_cons_self
    obtain ⟨frames, rfl⟩ := ih fun other hother => h other (List.mem_cons_of_mem _ hother)
    exact ⟨made :: frames, rfl⟩

/-- `collect` succeeds when no worker failed, and keeps the frames with rows. -/
theorem collectResults_eq_ok {results : List (Except PolarsError DataFrame)} {pick : Nat}
    {dfs : List DataFrame} : collectResults results pick = .ok dfs ↔
      ∃ frames : List DataFrame, results = frames.map .ok ∧
        dfs = frames.filter fun df => 0 < df.height := by
  have hok : ∀ frames : List DataFrame, collectResults (frames.map .ok) pick =
      .ok (frames.filter fun df => 0 < df.height) := by
    intro frames
    have herrs : (frames.map Except.ok).filterMap resultError = [] := by simp [resultError]
    have hkept : (frames.map Except.ok).filterMap resultFrame =
        frames.filter fun df => 0 < df.height := by
      rw [List.filterMap_map, ← List.filterMap_eq_filter]
      apply List.filterMap_congr
      intro df _
      simp [resultFrame, Option.guard]
    unfold collectResults
    simp only [herrs, hkept, List.getElem?_nil]
  constructor
  · intro h
    have hall : ∀ r ∈ results, ∃ df, r = .ok df := by
      intro r hr
      cases r with
      | ok df => exact ⟨df, rfl⟩
      | error e =>
        exfalso
        have hmem : e ∈ results.filterMap resultError := List.mem_filterMap.mpr ⟨_, hr, rfl⟩
        have hpos := List.length_pos_of_mem hmem
        unfold collectResults at h
        simp only at h
        rw [List.getElem?_eq_getElem (Nat.mod_lt pick hpos)] at h
        cases h
    obtain ⟨frames, rfl⟩ := exists_frames_of_ok hall
    rw [hok] at h
    cases h
    exact ⟨frames, rfl, rfl⟩
  · rintro ⟨frames, rfl, rfl⟩
    exact hok frames

/-- The chunks of a parallel attempt. -/
def chunks (self : LazyLogFmtReader) (frames : List FrameRange) : List (Nat × List FrameRange) :=
  workerChunks frames (workerCount self.maxInflight frames.length)

theorem chunks_flatMap {self : LazyLogFmtReader} {frames : List FrameRange}
    (hworkers : 0 < workerCount self.maxInflight frames.length) :
    (self.chunks frames).flatMap Prod.snd = frames := workerChunks_flatMap frames hworkers

theorem chunks_eq_nil {self : LazyLogFmtReader} {frames : List FrameRange}
    (hworkers : workerCount self.maxInflight frames.length = 0) : self.chunks frames = [] := by
  rw [chunks, hworkers]
  rfl

/-- The frames of the chunks are in order. -/
theorem chunks_idx {self : LazyLogFmtReader} {origin : FrameOrigin} {frames : List FrameRange}
    {probe : LineReader} (horigin : self.parallelOrigin = some (origin, frames, probe)) :
    (((self.chunks frames).flatMap Prod.snd).map FrameRange.idx).Pairwise (· < ·) := by
  rcases Nat.eq_zero_or_pos (workerCount self.maxInflight frames.length) with hworkers | hworkers
  · rw [chunks_eq_nil hworkers]
    exact .nil
  · rw [chunks_flatMap hworkers, parallelOrigin_idx horigin]
    exact List.pairwise_lt_range

theorem chunks_nodup {self : LazyLogFmtReader} {origin : FrameOrigin} {frames : List FrameRange}
    {probe : LineReader} (horigin : self.parallelOrigin = some (origin, frames, probe)) :
    (((self.chunks frames).flatMap Prod.snd).map FrameRange.idx).Nodup :=
  (chunks_idx horigin).imp Nat.ne_of_lt

/-- The schema an attempt infers when it has none. -/
def predictedSchema (self : LazyLogFmtReader) (schema : Option Schema) (probe : LineReader) :
    Except PolarsError (Option Schema) :=
  if schema.isNone then self.predictSchemaFromHandle probe self.inferSchemaLength else .ok none

/-- An attempt that has frames and a schema stacks the results of its workers. -/
theorem parallelBatch_eq {self : LazyLogFmtReader} {origin : FrameOrigin}
    {frames : List FrameRange} {probe : LineReader}
    (horigin : self.parallelOrigin = some (origin, frames, probe)) {schema pred : Option Schema}
    (hpred : self.predictedSchema schema probe = .ok pred) (scanOpts : AnonymousScanArgs)
    (sched : Schedule) :
    self.parallelBatch scanOpts schema sched = (schema.or pred, stackResults scanOpts
      ((outcome ((self.chunks frames).map
        (workerProg (self.frameOpts scanOpts (schema.or pred)) origin)) sched.steps).map Prod.fst)
      sched.error) := by
  unfold predictedSchema at hpred
  unfold parallelBatch
  rw [horigin]
  simp only [hpred]
  split
  · rename_i hworkers
    rw [chunks_eq_nil hworkers, List.map_nil, outcome_of_silent (by simp)]
    rfl
  · rfl

/-- Without a slice these are the frames of the chunks. -/
theorem parallelBatch_uncapped {self : LazyLogFmtReader} {origin : FrameOrigin}
    {frames : List FrameRange} {probe : LineReader}
    (horigin : self.parallelOrigin = some (origin, frames, probe)) {schema pred : Option Schema}
    (hpred : self.predictedSchema schema probe = .ok pred) {scanOpts : AnonymousScanArgs}
    (hn : scanOpts.nRows = none) (sched : Schedule) :
    self.parallelBatch scanOpts schema sched = (schema.or pred, stackResults scanOpts
      ((self.chunks frames).map (origin.chunkFrame (self.frameOpts scanOpts (schema.or pred))))
      sched.error) := by
  rw [parallelBatch_eq horigin hpred, results_uncapped (by exact hn) origin (chunks_nodup horigin)]

/-- An attempt that makes a frame has frames to read, and a schema. -/
theorem parallelBatch_some {self : LazyLogFmtReader} {scanOpts : AnonymousScanArgs}
    {schema : Option Schema} {sched : Schedule} {df : DataFrame}
    (h : (self.parallelBatch scanOpts schema sched).2 = .ok (some df)) :
    ∃ origin frames probe pred, self.parallelOrigin = some (origin, frames, probe) ∧
      self.predictedSchema schema probe = .ok pred := by
  cases horigin : self.parallelOrigin with
  | none =>
    unfold parallelBatch at h
    rw [horigin] at h
    cases h
  | some found =>
    obtain ⟨origin, frames, probe⟩ := found
    cases hpred : self.predictedSchema schema probe with
    | error e =>
      unfold predictedSchema at hpred
      unfold parallelBatch at h
      rw [horigin] at h
      simp only [hpred] at h
      cases h
    | ok pred => exact ⟨origin, frames, probe, pred, rfl, hpred⟩

/-- An attempt that makes a frame has no worker that failed. -/
theorem stackResults_ok {scanOpts : AnonymousScanArgs}
    {results : List (Except PolarsError DataFrame)}
    {pick : Nat} {df : DataFrame} (h : stackResults scanOpts results pick = .ok (some df)) :
    ∀ result ∈ results, ∃ made, result = .ok made := by
  unfold stackResults at h
  cases hcollect : collectResults results pick with
  | error e =>
    rw [hcollect] at h
    simp only at h
    split at h
    · cases h
    · cases h
  | ok kept =>
    obtain ⟨frames, rfl, -⟩ := collectResults_eq_ok.mp hcollect
    intro result hresult
    obtain ⟨made, -, rfl⟩ := List.mem_map.mp hresult
    exact ⟨made, rfl⟩

/-- The workers push these lines of their chunks: all of them without a slice, and as many as it
has slots with one. -/
structure Pushes (reader : LazyLogFmtReader) (nRows : Option Nat) (origin : FrameOrigin)
    (frames : List FrameRange) (traces : List (List PushedLine)) : Prop where
  prefixes : List.Forall₂ (fun chunk trace =>
    trace <+: (origin.chunkLines reader.lineFilter chunk).1)
    (reader.chunks frames) traces
  all : nRows = none →
    traces = (reader.chunks frames).map fun chunk => (origin.chunkLines reader.lineFilter chunk).1
  slots : ∀ n ∈ nRows, traces.flatten.length =
    min n ((reader.chunks frames).flatMap fun chunk =>
      (origin.chunkLines reader.lineFilter chunk).1).length

/-- The frame of an attempt is made of lines its workers have pushed. -/
theorem parallelBatch_pushes {self : LazyLogFmtReader} {scanOpts : AnonymousScanArgs}
    {schema schema' : Option Schema} {sched : Schedule} {df : DataFrame}
    (h : self.parallelBatch scanOpts schema sched = (schema', .ok (some df))) {origin : FrameOrigin}
    {frames : List FrameRange} {probe : LineReader}
    (horigin : self.parallelOrigin = some (origin, frames, probe)) :
    ∃ traces, self.Pushes scanOpts.nRows origin frames traces ∧
      stackResults scanOpts (traces.map (workerFrame (self.frameOpts scanOpts schema')))
        sched.error =
        .ok (some df) := by
  obtain ⟨origin', frames', probe', pred, horigin', hpred⟩ := parallelBatch_some (by rw [h])
  rw [horigin] at horigin'
  cases horigin'
  rw [parallelBatch_eq horigin hpred, Prod.mk.injEq] at h
  obtain ⟨rfl, h⟩ := h
  obtain ⟨hends, hcount⟩ := worker_outcome (self.frameOpts scanOpts (schema.or pred)) origin
    (chunks_nodup horigin) sched.steps
  generalize outcome _ sched.steps = results at h hends hcount
  have hok := stackResults_ok h
  have hmade : results.map Prod.fst =
      (results.map Prod.snd).map (workerFrame (self.frameOpts scanOpts (schema.or pred))) := by
    rw [List.map_map]
    apply List.map_congr_left
    intro r hr
    obtain ⟨chunk, -, -, -, hend⟩ := exists_of_forall₂ hends.flip hr
    obtain ⟨made, hr'⟩ := hok r.1 (List.mem_map_of_mem hr)
    rcases hend with ⟨hframe, -⟩ | ⟨e, -, hfailed⟩
    · exact hframe
    · rw [hfailed] at hr'
      cases hr'
  rw [hmade] at h
  refine ⟨results.map Prod.snd, ⟨?_, ?_, ?_⟩, h⟩
  · rw [List.forall₂_map_right_iff]
    exact hends.imp fun chunk r hr => hr.1
  · intro hnone
    exact (map_eq_of_forall₂ hends fun chunk _ r hr => (hr.2.1 hnone).symm).symm
  · intro n hn
    have hsum := hcount n hn
    rw [List.length_flatten, List.map_map, List.length_flatMap]
    exact hsum

/-- What `stackResults` makes of frames without an error: it stacks those with rows, and filters
and projects the stack when there is a slice. -/
theorem stackResults_frames {scanOpts : AnonymousScanArgs} {frames : List DataFrame} {pick : Nat}
    {df : DataFrame} (h : stackResults scanOpts (frames.map .ok) pick = .ok (some df)) :
    ∃ first rest stacked, (frames.filter fun df => 0 < df.height) = first :: rest ∧
      DataFrame.accumulateVertical first rest = .ok stacked ∧
      (scanOpts.nRows = none → df = stacked) ∧
      (scanOpts.nRows ≠ none →
        applyPushdown stacked scanOpts.predicate scanOpts.withColumns = .ok df) := by
  have hcollect : collectResults (frames.map .ok) pick =
      .ok (frames.filter fun df => 0 < df.height) := collectResults_eq_ok.mpr ⟨frames, rfl, rfl⟩
  unfold stackResults at h
  rw [hcollect] at h
  cases hkept : frames.filter fun df => 0 < df.height with
  | nil =>
    rw [hkept] at h
    cases h
  | cons first rest =>
    rw [hkept] at h
    simp only at h
    cases hacc : DataFrame.accumulateVertical first rest with
    | error e =>
      rw [hacc] at h
      cases h
    | ok stacked =>
      rw [hacc] at h
      simp only at h
      refine ⟨first, rest, stacked, rfl, hacc, ?_, ?_⟩
      · intro hn
        rw [hn] at h
        cases h
        rfl
      · intro hn
        obtain ⟨n, hn⟩ := Option.ne_none_iff_exists'.mp hn
        rw [hn] at h
        simp only at h
        cases hpush : applyPushdown stacked scanOpts.predicate scanOpts.withColumns with
        | error e =>
          rw [hpush] at h
          cases h
        | ok out =>
          rw [hpush] at h
          cases h
          rfl

/-- A parallel attempt that returns a frame: every worker made a frame of its chunk, and the
ones with rows stack to it. -/
theorem parallelBatch_eq_some {self : LazyLogFmtReader} {scanOpts : AnonymousScanArgs}
    (hn : scanOpts.nRows = none) {schema schema' : Option Schema} {sched : Schedule}
    {df : DataFrame} (h : self.parallelBatch scanOpts schema sched = (schema', .ok (some df))) :
    ∃ origin frames probe, self.parallelOrigin = some (origin, frames, probe) ∧
      (self.chunks frames).flatMap Prod.snd = frames ∧ ∃ (dfs : List DataFrame) (first : DataFrame)
        (rest : List DataFrame),
        List.Forall₂ (fun chunk df =>
            origin.chunkFrame (self.frameOpts scanOpts schema') chunk = .ok df)
          (self.chunks frames) dfs ∧
        (dfs.filter fun df => 0 < df.height) = first :: rest ∧
        DataFrame.accumulateVertical first rest = .ok df := by
  obtain ⟨origin, frames, probe, pred, horigin, hpred⟩ := parallelBatch_some (by rw [h])
  rw [parallelBatch_uncapped horigin hpred hn, Prod.mk.injEq] at h
  obtain ⟨rfl, h⟩ := h
  obtain ⟨dfs, hdfs⟩ := exists_frames_of_ok (stackResults_ok h)
  rw [hdfs] at h
  obtain ⟨first, rest, stacked, hkept, hacc, hstacked, -⟩ := stackResults_frames h
  obtain rfl := hstacked hn
  refine ⟨origin, frames, probe, horigin, ?_, dfs, first, rest, forall₂_of_map_eq hdfs, hkept, hacc⟩
  apply chunks_flatMap
  by_contra hnone
  rw [chunks_eq_nil (Nat.eq_zero_of_not_pos hnone)] at hdfs
  obtain rfl := List.map_eq_nil_iff.mp hdfs.symm
  cases hkept

end LazyLogFmtReader

end PolarsLogfmt
