import PolarsLogfmt.Lazy.ScanOutcome
import PolarsLogfmt.Lazy.SliceReach

/-!
# Scans of the sequential path

Without aligned columns, from a source that has no frames, without workers, and on a stream the
reader already has, the frame of a scan comes from the sequential path: it is made of the batches
of the lines the reader keeps.
-/

namespace PolarsLogfmt

variable [Crates]

namespace LazyLogFmtReader

/-- No worker makes a frame: there are no aligned columns, no frames of the source, or no
workers. -/
def Sequential (logs : LazyLogFmtReader) : Prop :=
  logs.alignedColsCnt = false ∨ logs.parallelOrigin = none ∨ logs.maxInflight = 0

variable {self : LazyLogFmtReader} {text : Bytes} {schema : Schema} {probe : Option LineReader}

/-- Without frames or workers there is nothing to attempt. -/
theorem parallelBatch_idle (h : self.parallelOrigin = none ∨ self.maxInflight = 0)
    (scanOpts : AnonymousScanArgs) (schema : Schema) (sched : Schedule) :
    (self.parallelBatch scanOpts (some schema) sched).2 = .ok none := by
  unfold parallelBatch
  cases horigin : self.parallelOrigin with
  | none => rfl
  | some found =>
    obtain ⟨origin, frames, probe⟩ := found
    have hworkers : workerCount self.maxInflight frames.length = 0 := by
      rw [workerCount, h.resolve_left (by simp [horigin]), Nat.zero_min, Nat.min_zero]
    simp only [Option.isNone_some, Bool.false_eq_true, if_false, Option.some_or, hworkers, if_true]

/-- A scan that succeeds without a frame of the attempt stacked the batches of the lines it read. -/
theorem scanText_declined {scanOpts : AnonymousScanArgs} {sched : Schedule}
    (hnone : self.attempt scanOpts sched probe = .ok none) (hschema : self.schema = some schema)
    {acc : Option DataFrame} (h : self.scanText scanOpts sched text probe = .ok acc) :
    (ValidLines text ∨ ¬ WantsMore scanOpts.nRows self.batchSize
      ((readableLines text).filter (self.batchOpts (some schema)).keeps).length) ∧
    stackBatches scanOpts (self.batchOpts (some schema)) none
      (scanBatches scanOpts.nRows self.batchSize
        ((readableLines text).filter (self.batchOpts (some schema)).keeps)) = .ok acc := by
  unfold scanText at h
  rw [hnone] at h
  by_cases hlines : ValidLines text ∨ ¬ WantsMore scanOpts.nRows self.batchSize
      ((readableLines text).filter (self.batchOpts (some schema)).keeps).length
  · exact ⟨hlines, (scanLoop_text hschema scanOpts sched hlines).symm.trans h⟩
  · rw [not_or, not_not] at hlines
    obtain ⟨e, he⟩ := scanLoop_text_fails hschema scanOpts sched hlines.1 hlines.2
    rw [he] at h
    cases h

/-- A scan without a slice whose attempt makes no frame stacks the batches of the lines kept. -/
theorem scanText_read {scanOpts : AnonymousScanArgs} {sched : Schedule}
    (hnone : self.attempt scanOpts sched probe = .ok none) (hschema : self.schema = some schema)
    (hn : scanOpts.nRows = none) (hread : ValidLines text ∨ self.batchSize = some 0) :
    self.scanText scanOpts sched text probe =
      stackBatches scanOpts (self.batchOpts (some schema)) none
        (scanBatches none self.batchSize (self.keptLines schema text)) := by
  have hlines : ValidLines text ∨ ¬ WantsMore scanOpts.nRows self.batchSize
      ((readableLines text).filter (self.batchOpts (some schema)).keeps).length := by
    rw [hn]
    exact hread.imp_right fun hzero hmore => hmore hzero
  have hloop := scanLoop_text hschema scanOpts sched hlines
  unfold scanText
  rw [hnone]
  refine hloop.trans ?_
  rw [hn]
  rcases hread with hvalid | hzero
  · rw [readableLines_of_valid hvalid]
    rfl
  · have hzero : (none : Option Nat).or self.batchSize = some 0 := hzero
    rw [scanBatches_zero hzero, scanBatches_zero hzero]

/-- It fails on a line that is no UTF-8. -/
theorem scanText_unread {scanOpts : AnonymousScanArgs} {sched : Schedule}
    (hnone : self.attempt scanOpts sched probe = .ok none) (hschema : self.schema = some schema)
    (hn : scanOpts.nRows = none) (hread : ¬ (ValidLines text ∨ self.batchSize = some 0)) :
    ∃ e, self.scanText scanOpts sched text probe = .error e := by
  rw [not_or] at hread
  obtain ⟨e, he⟩ := scanLoop_text_fails hschema scanOpts sched hread.1 (by
    rw [hn]
    exact hread.2)
  refine ⟨e, ?_⟩
  unfold scanText
  rw [hnone]
  exact he

end LazyLogFmtReader

/-! ## The frame of a scan without a slice -/

section

variable {self : LazyLogFmtReader} {text : Bytes} (hsource : self.source.Delivers text)
  {probe : Option LineReader} (hprobe : ∀ reader ∈ probe, reader = .ofBytes text) {schema : Schema}
  (hschema : self.textSchema text = .ok schema)

include hsource hprobe hschema

theorem scan_plain {scanOpts : AnonymousScanArgs} (hn : scanOpts.nRows = none) (sched : Schedule) :
    AnonymousScan.scan self scanOpts sched probe =
      ((self.scanReader schema).scanText scanOpts sched text (self.schema.bind fun _ => probe)).map
        (·.getD .empty) := by
  rw [scan_delivers hsource scanOpts sched hprobe, hschema, hn]
  rfl

/-- The frame of an attempt is the frame of the scan. -/
theorem scan_of_attempt {scanOpts : AnonymousScanArgs} (hn : scanOpts.nRows = none)
    {sched : Schedule} {df : DataFrame}
    (hattempt : (self.scanReader schema).attempt scanOpts sched (self.schema.bind fun _ => probe) =
      .ok (some df)) (hwidth : df.width ≠ 0) :
    AnonymousScan.scan self scanOpts sched probe = .ok df := by
  rw [scan_plain hsource hprobe hschema hn sched, LazyLogFmtReader.scanText, hattempt]
  simp only [hwidth, if_false]
  rfl

/-- Without one it is that of the batches. -/
theorem scan_of_batches (hvalid : ValidLines text) (sched : Schedule)
    (hattempt : (self.scanReader schema).attempt {} sched (self.schema.bind fun _ => probe) =
      .ok none)
    {df : DataFrame}
    (hstack : stackBatches {} ((self.scanReader schema).batchOpts (some schema)) none
      (scanBatches none self.batchSize (self.keptLines schema text)) = .ok (some df)) :
    AnonymousScan.scan self {} sched probe = .ok df := by
  have hloop := @scanLoop_text _ (self.scanReader schema) schema rfl {} sched text (.inl hvalid)
  rw [readableLines_of_valid hvalid, keeps_scanReader] at hloop
  rw [scan_plain hsource hprobe hschema rfl sched, LazyLogFmtReader.scanText, hattempt]
  simp only
  rw [hloop]
  exact congrArg (Except.map (·.getD .empty)) hstack

end

end PolarsLogfmt
