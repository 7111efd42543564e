import PolarsLogfmt.Misc.SlotShares
import PolarsLogfmt.Proofs.AlignedCuts
import PolarsLogfmt.Proofs.ParallelParity
import PolarsLogfmt.Proofs.RowLimit

/-!
# The rows of a limited aligned scan

With a limit the workers of an aligned scan share the slots in the order they come to them. Which
lines they push is left to that order, but not what the frame makes of them: it has the columns of
the first line, and a row for each pushed line, worker after worker.
-/

namespace PolarsLogfmt

open SharedCounter (outcome exists_outcome_prefixes)
open SideBySide

section

variable [Crates]

/-- The frame of the pushed lines has the columns of the first line of the text. -/
def sharedFrame (schema : Schema) (accepted : List Bytes) (parts : List (List Bytes)) : DataFrame :=
  match accepted with
  | [] => .empty
  | first :: _ =>
      (alignedTable schema (lineColumns first) (lineColumns_nodup first)).shown parts.flatten

theorem sharedFrame_keyless (schema : Schema) {accepted : List Bytes}
    (h : ∀ line ∈ accepted, lineColumns line = []) (parts : List (List Bytes)) :
    sharedFrame schema accepted parts = .empty := by
  cases accepted with
  | nil => rfl
  | cons first lines =>
    have hfirst := h first List.mem_cons_self
    show (if parts.flatten = [] then .empty else (alignedTable _ _ _).frame _) = DataFrame.empty
    split
    · rfl
    · apply DataFrame.ext
      · exact if_pos hfirst
      · exact List.map_eq_nil_iff.mpr hfirst

theorem sharedFrame_height_le (schema : Schema) (accepted : List Bytes)
    (parts : List (List Bytes)) :
    (sharedFrame schema accepted parts).height ≤ parts.flatten.length := by
  cases accepted with
  | nil => exact Nat.zero_le _
  | cons first lines =>
    show (if parts.flatten = [] then .empty else (alignedTable _ _ _).frame _).height ≤ _
    split
    · exact Nat.zero_le _
    · show (if lineColumns first = [] then 0 else parts.flatten.length) ≤ _
      split
      · exact Nat.zero_le _
      · exact Nat.le_refl _

namespace LazyLogFmtReader

/-- A way to share `n` slots: every worker has the first of its lines, and they have `n` between
them, or all lines when there are fewer. -/
structure SharesLines (logs : LazyLogFmtReader) (n : Nat) (parts : List (List Bytes)) : Prop where
  prefixes : List.Forall₂ (· <+: ·) parts (logs.workerTexts.map logs.acceptedBy)
  slots : parts.flatten.length = min n (logs.workerTexts.flatMap logs.acceptedBy).length

theorem sharesLines_scanReader (self : LazyLogFmtReader) (schema : Schema) (n : Nat)
    (parts : List (List Bytes)) :
    (self.scanReader schema).SharesLines n parts ↔ self.SharesLines n parts := by
  have htexts : (self.scanReader schema).workerTexts = self.workerTexts := rfl
  constructor
  · rintro ⟨hprefixes, hslots⟩
    rw [acceptedBy_scanReader, htexts] at hprefixes hslots
    exact ⟨hprefixes, hslots⟩
  · rintro ⟨hprefixes, hslots⟩
    refine ⟨?_, ?_⟩
    · rw [acceptedBy_scanReader, htexts]
      exact hprefixes
    · rw [acceptedBy_scanReader, htexts]
      exact hslots

/-- The lines each worker of an attempt pushes. -/
def pushedLines (self : LazyLogFmtReader) (scanOpts : AnonymousScanArgs) (schema : Schema)
    (sched : Schedule) : List (List Bytes) :=
  match self.parallelOrigin with
  | some (origin, frames, _) =>
      (outcome ((self.chunks frames).map
      (workerProg (self.frameOpts scanOpts (some schema)) origin))
        sched.steps).map fun r => r.2.map PushedLine.line
  | none => []

section

variable {self : LazyLogFmtReader} {text : Bytes} (hsource : self.source.Delivers text)
  (hvalid : ∀ texts ∈ self.workerTexts, ∀ text ∈ texts, ValidLines text)

include hsource hvalid

section

variable {origin : FrameOrigin} {frames : List FrameRange} {probe : LineReader}
  (horigin : self.parallelOrigin = some (origin, frames, probe))

include horigin

theorem length_acceptedBy_workerTexts :
    (self.workerTexts.flatMap self.acceptedBy).length =
      ((self.chunks frames).map fun chunk =>
        (origin.chunkLines self.lineFilter chunk).1.length).sum := by
  rw [List.flatMap_def, map_acceptedBy_workerTexts hsource hvalid horigin, List.length_flatten,
    List.map_map]
  simp only [Function.comp_def, List.length_map]

end

/-- The workers share the slots. -/
theorem sharesLines_pushedLines (n : Nat) (schema : Schema) (sched : Schedule) :
    self.SharesLines n (self.pushedLines { nRows := some n } schema sched) := by
  cases horigin : self.parallelOrigin with
  | none =>
    have htexts : self.workerTexts = [] := by
      unfold workerTexts
      rw [horigin]
    unfold pushedLines
    rw [horigin]
    refine ⟨?_, ?_⟩
    · rw [htexts]
      exact .nil
    · rw [htexts]
      exact (Nat.min_zero n).symm
  | some found =>
    obtain ⟨origin, frames, probe⟩ := found
    obtain ⟨hends, hcount⟩ := worker_outcome (self.frameOpts { nRows := some n } (some schema))
      origin (chunks_nodup horigin) sched.steps
    unfold pushedLines
    rw [horigin]
    refine ⟨?_, ?_⟩
    · rw [map_acceptedBy_workerTexts hsource hvalid horigin, List.forall₂_map_left_iff,
        List.forall₂_map_right_iff]
      apply hends.flip.imp
      intro r chunk h
      exact h.1.map PushedLine.line
    · rw [length_acceptedBy_workerTexts hsource hvalid horigin, List.length_flatten, List.map_map]
      simp only [Function.comp_def, List.length_map]
      exact hcount n rfl

/-- Every way to share them is that of some order of the workers. -/
theorem exists_pushedLines {n : Nat} (schema : Schema) {parts : List (List Bytes)}
    (h : self.SharesLines n parts) :
    ∃ sched, self.pushedLines { nRows := some n } schema sched = parts := by
  obtain ⟨hprefixes, hslots⟩ := h
  cases horigin : self.parallelOrigin with
  | none =>
    have htexts : self.workerTexts = [] := by
      unfold workerTexts
      rw [horigin]
    rw [htexts] at hprefixes
    cases hprefixes
    refine ⟨{}, ?_⟩
    unfold pushedLines
    rw [horigin]
  | some found =>
    obtain ⟨origin, frames, probe⟩ := found
    rw [map_acceptedBy_workerTexts hsource hvalid horigin, List.forall₂_map_right_iff] at hprefixes
    rw [length_acceptedBy_workerTexts hsource hvalid horigin] at hslots
    -- the lines of the parts, as the lines of the frames they are
    obtain ⟨traces, htraces, rfl⟩ := exists_prefixes_of_map hprefixes
    have hclaims : ∀ chunk ∈ self.chunks frames, SharedCounter.Claims
        (WorkerEnds (self.frameOpts { nRows := some n } (some schema))
          (origin.chunkLines self.lineFilter chunk).2) (some n) []
        (origin.chunkLines self.lineFilter chunk).1
        (workerProg (self.frameOpts { nRows := some n } (some schema)) origin chunk) := by
      intro chunk hchunk
      apply claims_workerProg (self.frameOpts { nRows := some n } (some schema)) origin
      have hidx := chunks_nodup horigin
      rw [List.map_flatMap, List.nodup_flatMap] at hidx
      exact hidx.1 chunk hchunk
    have hlength : traces.flatten.length =
      (traces.map (List.map PushedLine.line)).flatten.length := by
      rw [← List.map_flatten, List.length_map]
    obtain ⟨steps, hsteps⟩ := exists_outcome_prefixes hclaims htraces (hlength.trans hslots)
    refine ⟨{ steps := steps }, ?_⟩
    unfold pushedLines
    rw [horigin, ← hsteps, List.map_map]
    rfl

/-- What an attempt makes of the lines its workers push. -/
theorem parallelBatch_pushedLines (n : Nat) (schema : Schema) (sched : Schedule) :
    ∃ traces : List (List PushedLine),
      traces.map (List.map PushedLine.line) = self.pushedLines { nRows := some n } schema sched ∧
      (self.parallelBatch { nRows := some n } (some schema) sched).2 =
        stackResults { nRows := some n }
          (traces.map (workerFrame (self.frameOpts { nRows := some n } (some schema))))
            sched.error := by
  cases horigin : self.parallelOrigin with
  | none =>
    refine ⟨[], ?_, ?_⟩
    · unfold pushedLines
      rw [horigin]
      rfl
    · unfold parallelBatch
      rw [horigin]
      rfl
  | some found =>
    obtain ⟨origin, frames, probe⟩ := found
    obtain ⟨hends, -⟩ := worker_outcome (self.frameOpts { nRows := some n } (some schema)) origin
      (chunks_nodup horigin) sched.steps
    refine ⟨(outcome ((self.chunks frames).map
      (workerProg (self.frameOpts { nRows := some n } (some schema)) origin)) sched.steps).map
        Prod.snd, ?_, ?_⟩
    · unfold pushedLines
      rw [horigin, List.map_map]
      rfl
    · rw [parallelBatch_eq horigin (show self.predictedSchema (some schema) probe = .ok none
        from rfl)]
      simp only [Option.some_or]
      congr 1
      rw [List.map_map]
      apply List.map_congr_left
      intro r hr
      obtain ⟨chunk, hchunk, -, -, hend⟩ := exists_of_forall₂ hends.flip hr
      rcases hend with ⟨hframe, -⟩ | ⟨e, hfailed, -⟩
      · exact hframe
      · have hreads := chunkLines_readable hsource hvalid horigin hchunk
        rw [show (origin.chunkLines self.lineFilter chunk).2 = some e from hfailed] at hreads
        cases hreads

/-- An attempt whose workers push no key makes no frame. -/
theorem parallelBatch_pushes_keyless (n : Nat) (schema : Schema) (sched : Schedule)
    (h : ∀ line ∈ (self.pushedLines { nRows := some n } schema sched).flatten,
      lineColumns line = []) :
    (self.parallelBatch { nRows := some n } (some schema) sched).2 = .ok none := by
  obtain ⟨traces, htraces, hbatch⟩ := parallelBatch_pushedLines hsource hvalid n schema sched
  rw [hbatch]
  apply stackResults_empty
  intro result hresult
  obtain ⟨trace, htrace, rfl⟩ := List.mem_map.mp hresult
  apply workerFrame_keyless
  intro p hp
  apply h
  rw [← htraces, ← List.map_flatten]
  exact List.mem_map_of_mem (List.mem_flatten_of_mem htrace hp)

/-- An attempt whose workers align their lines makes the table of the lines they push. -/
theorem parallelBatch_pushes_aligned (ha : self.alignedColsCnt = true) (n : Nat) (schema : Schema)
    {keys : List Bytes} (hn : keys.Nodup) (hne : keys ≠ [])
    (hto : ∀ texts ∈ self.workerTexts, AlignedTo keys (self.acceptedBy texts)) (sched : Schedule) :
    (self.parallelBatch { nRows := some n } (some schema) sched).2 =
      .ok (if (self.pushedLines { nRows := some n } schema sched).flatten = [] then none
        else some ((alignedTable schema keys hn).frame
          (self.pushedLines { nRows := some n } schema sched).flatten)) := by
  have hshares := sharesLines_pushedLines hsource hvalid n schema sched
  obtain ⟨traces, htraces, hbatch⟩ := parallelBatch_pushedLines hsource hvalid n schema sched
  rw [← htraces] at hshares ⊢
  have hmade : traces.map (workerFrame (self.frameOpts { nRows := some n } (some schema))) =
      (traces.map (List.map PushedLine.line)).map fun rows =>
        .ok ((alignedTable schema keys hn).shown rows) := by
    rw [List.map_map]
    apply List.map_congr_left
    intro trace htrace
    obtain ⟨lines, hlines, hpre⟩ := exists_of_forall₂ hshares.prefixes (List.mem_map_of_mem htrace)
    obtain ⟨texts, htexts, rfl⟩ := List.mem_map.mp hlines
    exact workerFrame_plain ha rfl rfl rfl hn hne (AlignedTo.of_prefix (hto texts htexts) hpre)
  rw [hbatch, hmade]
  exact stackResults_shown hne (.inr ⟨rfl, rfl⟩) _ _

end

section

variable {self : LazyLogFmtReader} {text : Bytes}

/-- A limited scan whose attempt makes no frame reads no key. -/
theorem scanText_limit_keyless (hvalid : ValidLines text) {schema : Schema}
    (hschema : self.schema = some schema) (n : Nat) {sched : Schedule}
    (hnone : (self.parallelBatch { nRows := some n } (some schema) sched).2 = .ok none)
    (h : ∀ line ∈ (self.keptLines schema text).take n, lineColumns line = []) :
    (self.scanText { nRows := some n } sched text none).toOption.map (·.getD .empty) =
      some .empty := by
  have hlimit := @stackBatches_limit _ (self.batchOpts (some schema)) schema rfl n self.batchSize
    (self.keptLines schema text)
  rw [filledFrame_keyless (batchKeys_keyless h)] at hlimit
  rw [scanText, attempt, if_neg (by simp), hschema, hnone]
  simp only
  rw [scanLoop_text hschema { nRows := some n } sched (.inl hvalid), readableLines_of_valid hvalid,
    ← toOption_map]
  exact congrArg Except.toOption hlimit

/-- The limited scan of an aligned cut makes the frame of the lines its workers push. -/
theorem scanText_limit (ha : self.alignedColsCnt = true) (hcut : self.CutsLines text)
    (h : self.AlignedCut text) (hvalid : ValidLines text) {schema : Schema}
    (hschema : self.schema = some schema) (n : Nat) (sched : Schedule) :
    (self.scanText { nRows := some n } sched text none).toOption.map (·.getD .empty) =
      some (sharedFrame schema (acceptedLines self.lineFilter text)
        (self.pushedLines { nRows := some n } schema sched)) := by
  obtain ⟨hworkers, haligned⟩ := h
  have hworker := (hcut.valid hworkers).mp hvalid
  obtain ⟨hprefixes, hslots⟩ := sharesLines_pushedLines hcut.delivers hworker n schema sched
  have hpushed := flatten_sublist_of_prefixes hprefixes
  rw [← List.flatMap_def, hcut.accepted hworkers] at hpushed
  rw [hcut.accepted hworkers] at hslots
  by_cases hall : ∀ line ∈ acceptedLines self.lineFilter text, lineColumns line = []
  · rw [sharedFrame_keyless schema hall]
    apply scanText_limit_keyless hvalid hschema n
    · apply parallelBatch_pushes_keyless hcut.delivers hworker
      intro line hline
      exact hall line (hpushed.subset hline)
    · intro line hline
      obtain ⟨hread, hkeeps⟩ := List.mem_filter.mp (List.mem_of_mem_take hline)
      exact hall line (List.mem_filter.mpr ⟨hread, (Bool.and_eq_true_iff.mp hkeeps).1⟩)
  · have hto := haligned.resolve_left hall
    cases hlines : acceptedLines self.lineFilter text with
    | nil =>
      rw [hlines] at hall
      exact absurd (by simp) hall
    | cons first lines =>
      obtain ⟨hne, hto⟩ := hto first (by rw [hlines]; rfl)
      have hframe := parallelBatch_pushes_aligned hcut.delivers hworker ha n schema
        (lineColumns_nodup first) hne hto sched
      by_cases hnone : (self.pushedLines { nRows := some n } schema sched).flatten = []
      · -- nothing is pushed of a line or more under the limit 0 only
        rw [if_pos hnone] at hframe
        have hzero : n = 0 := by
          rw [hnone, hlines, List.length_nil, List.length_cons] at hslots
          omega
        subst hzero
        rw [scanText_limit_keyless hvalid hschema 0 hframe (by simp)]
        exact congrArg some (if_pos hnone).symm
      · rw [if_neg hnone] at hframe
        have hwidth : ((alignedTable schema (lineColumns first) (lineColumns_nodup first)).frame
            (self.pushedLines { nRows := some n } schema sched).flatten).width ≠ 0 :=
          Table.frame_width_ne_zero hne
        rw [scanText, attempt, if_neg (by simp), hschema, hframe]
        simp only [hwidth, if_false]
        exact congrArg some (if_neg hnone).symm

end

end LazyLogFmtReader

/-- Whatever the order of the workers, a limited aligned scan gives the rows of a way to share the
slots, under the columns of the first line; and every way to share them is that of some order. -/
theorem limited_scan_shares {self : LazyLogFmtReader} (ha : self.alignedColsCnt = true)
    {text : Bytes}
    (hcut : self.CutsLines text) (h : self.AlignedCut text) (hvalid : ValidLines text)
    {schema : Schema} (hschema : self.textSchema text = .ok schema) (n : Nat) :
    (∀ sched, ∃ parts, self.SharesLines n parts ∧ sliceOutcome self (some n) sched =
        some (sharedFrame schema (acceptedLines self.lineFilter text) parts)) ∧
      ∀ parts, self.SharesLines n parts → ∃ sched, sliceOutcome self (some n) sched =
        some (sharedFrame schema (acceptedLines self.lineFilter text) parts) := by
  have hcut' : (self.scanReader schema).CutsLines text := ⟨hcut.delivers, hcut.whole, hcut.flatten⟩
  have hworker := (hcut'.valid h.workers).mp hvalid
  have hscan : ∀ sched, sliceOutcome self (some n) sched =
      some (sharedFrame schema (acceptedLines self.lineFilter text)
        ((self.scanReader schema).pushedLines { nRows := some n } schema sched)) := by
    intro sched
    have hmade := @LazyLogFmtReader.scanText_limit _ (self.scanReader schema) text ha hcut'
      (h.scanReader schema) hvalid schema rfl n sched
    rw [LazyLogFmtReader.acceptedLines_scanReader] at hmade
    have hslots := (LazyLogFmtReader.sharesLines_pushedLines hcut'.delivers hworker n schema
      sched).slots
    -- the frame has no more than `n` rows
    have hslice : LazyLogFmtReader.sliceRows (some n) (sharedFrame schema
        (acceptedLines self.lineFilter text)
        ((self.scanReader schema).pushedLines { nRows := some n } schema sched)) =
      sharedFrame schema (acceptedLines self.lineFilter text)
        ((self.scanReader schema).pushedLines { nRows := some n } schema sched) := by
      apply if_neg
      apply Nat.not_lt.mpr
      apply (sharedFrame_height_le _ _ _).trans
      rw [hslots]
      exact Nat.min_le_left _ _
    have hrows := congrArg (Option.map (LazyLogFmtReader.sliceRows (some n))) hmade
    rw [Option.map_map, Option.map_some, hslice] at hrows
    rw [sliceOutcome_eq hcut.delivers hschema]
    exact hrows
  constructor
  · intro sched
    refine ⟨_, ?_, hscan sched⟩
    rw [← LazyLogFmtReader.sharesLines_scanReader self schema]
    exact LazyLogFmtReader.sharesLines_pushedLines hcut'.delivers hworker n schema sched
  · intro parts hparts
    rw [← LazyLogFmtReader.sharesLines_scanReader self schema] at hparts
    obtain ⟨sched, hsched⟩ :=
      LazyLogFmtReader.exists_pushedLines hcut'.delivers hworker schema hparts
    refine ⟨sched, ?_⟩
    rw [hscan sched, hsched]

end

section

attribute [local instance] smallCrates

/-- Two units of a line each, for two workers. -/
def twoWorkers : LazyLogFmtReader :=
  alignedReader [Utf8.ofString "a=1\n", Utf8.ofString "a=2\n"] 2

theorem workerTexts_twoWorkers : twoWorkers.workerTexts.map twoWorkers.acceptedBy =
    [[Utf8.ofString "a=1\n"], [Utf8.ofString "a=2\n"]] := by decide +kernel

/-- With a limit of one row the row is that of either line. -/
theorem limited_scan_shares_twoLines :
    (∃ sched, sliceOutcome twoWorkers (some 1) sched =
        some (sharedFrame ∅ (acceptedLines none (Utf8.ofString "a=1\na=2\n"))
          [[Utf8.ofString "a=1\n"], []])) ∧
      ∃ sched, sliceOutcome twoWorkers (some 1) sched =
        some (sharedFrame ∅ (acceptedLines none (Utf8.ofString "a=1\na=2\n"))
          [[], [Utf8.ofString "a=2\n"]]) := by
  have hlines : acceptedLines none (Utf8.ofString "a=1\na=2\n") =
      [Utf8.ofString "a=1\n", Utf8.ofString "a=2\n"] := by decide +kernel
  have hcut : twoWorkers.CutsLines (Utf8.ofString "a=1\na=2\n") :=
    cutsLines_alignedReader _ 2 (by decide +kernel) (by decide +kernel)
  have haligned : twoWorkers.AlignedCut (Utf8.ofString "a=1\na=2\n") := by
    refine ⟨by decide, .inr ?_⟩
    intro first hfirst
    rw [show twoWorkers.lineFilter = none from rfl, hlines] at hfirst
    cases hfirst
    decide +kernel
  have hslots : ∀ parts : List (List Bytes), parts.flatten.length = 1 →
      parts.flatten.length = min 1 (twoWorkers.workerTexts.flatMap
        twoWorkers.acceptedBy).length := by
    intro parts hlength
    rw [hlength, List.flatMap_def, workerTexts_twoWorkers]
    rfl
  have hreached := (@limited_scan_shares _ twoWorkers rfl _ hcut haligned
    (by decide +kernel) ∅ rfl 1).2
  constructor
  · apply hreached [[Utf8.ofString "a=1\n"], []]
    refine ⟨?_, hslots _ rfl⟩
    rw [workerTexts_twoWorkers]
    exact .cons (List.prefix_refl _) (.cons List.nil_prefix .nil)
  · apply hreached [[], [Utf8.ofString "a=2\n"]]
    refine ⟨?_, hslots _ rfl⟩
    rw [workerTexts_twoWorkers]
    exact .cons List.nil_prefix (.cons (List.prefix_refl _) .nil)

end

end PolarsLogfmt
