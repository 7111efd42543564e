import PolarsLogfmt.Lazy.ProbedLines
import PolarsLogfmt.Lazy.ScanOutcome
import PolarsLogfmt.Lazy.SliceReach
import PolarsLogfmt.Proofs.ProbeLossless

/-!
# What a scan reads of a text

Where every line and every frame can be read, a scan without aligned columns depends on the
accepted lines of the text: the first of them give the schema, and those that are kept the rows.
-/

namespace PolarsLogfmt

variable [Crates]

/-- The schema of a text that can be read is that of its first accepted lines. -/
theorem inferSchemaFromReader_accepted {text : Bytes} (hvalid : ValidLines text)
    (lineFilter : Option LineFilterFn) (n : Nat) :
    ∃ consumed, (inferSchemaFromReader (.ofBytes text) lineFilter n).1 =
      .ok (schemaOfLines ((acceptedLines lineFilter text).take n), consumed) := by
  have hlines : LineReader.ofBytes text = ⟨(Lines.split newline text).map .ok, none⟩ := by
    apply LineReader.ofBytes_valid
    intro line hline
    exact checkLine_valid.mpr (hvalid line hline)
  obtain ⟨out, rest, hloop⟩ := inferLoop_ok lineFilter n (Lines.split newline text) {}
  have hread : inferSchemaFromReader (.ofBytes text) lineFilter n =
      (.ok (out.schema, out.consumed), ⟨rest, none⟩) := by
    unfold inferSchemaFromReader
    rw [hlines]
    simp only [hloop]
    rfl
  have hprobed : (LineReader.ofBytes text).probedLines lineFilter n =
      (acceptedLines lineFilter text).take n := by
    unfold LineReader.probedLines
    rw [hlines, ← List.append_nil ((Lines.split newline text).map Except.ok),
      linesBeforeError_append]
    show ((Lines.split newline text ++ []).filter (accepts lineFilter)).take n = _
    rw [List.append_nil]
    rfl
  exact ⟨out.consumed, by rw [hread, schema_inferSchemaFromReader hread, hprobed]⟩

/-- The frames of the batches do not depend on the line filter. -/
theorem stackBatches_congr {opts opts' : BatchOpts} (hschema : opts.schema = opts'.schema)
    (ha : opts.alignedColsCnt = opts'.alignedColsCnt) (scanOpts : AnonymousScanArgs)
    (acc : Option DataFrame) (batches : List (List Bytes)) :
    stackBatches scanOpts opts acc batches = stackBatches scanOpts opts' acc batches := by
  have hframe : ∀ lines, batchFrame scanOpts opts lines = batchFrame scanOpts opts' lines := by
    intro lines
    have hpush : pushRow opts = pushRow opts' := by
      funext acc line
      unfold pushRow
      rw [hschema, ha]
    unfold batchFrame batchRows
    rw [hschema, hpush]
  induction batches generalizing acc with
  | nil => rfl
  | cons batch batches ih =>
    unfold stackBatches
    simp only [hframe, ih]

omit [Crates] in
/-- Where a capped worker comes to a bad line, so does one without a cap. -/
theorem ReachesInvalid.uncapped {lineFilter : Option LineFilterFn} {nRows : Option Nat}
    {slots : Nat} {texts : List Bytes} (h : ReachesInvalid lineFilter nRows slots texts) :
    ReachesInvalid lineFilter none slots texts := by
  induction texts generalizing slots with
  | nil => exact h
  | cons text texts ih =>
    obtain ⟨-, hrest⟩ := h
    refine ⟨nofun, ?_⟩
    split
    · rename_i hvalid
      rw [if_pos hvalid] at hrest
      exact ih hrest
    · exact nofun

namespace LazyLogFmtReader

section

variable {self : LazyLogFmtReader}

/-- No worker comes to a bad line where all frames can be read. -/
theorem FramesReadable.unreached (h : self.FramesReadable) (nRows : Option Nat) :
    ¬ self.WorkerReachesInvalid nRows := by
  rintro ⟨origin, frames, probe, horigin, chunk, hchunk, hreach⟩
  have hworkers : 0 < workerCount self.maxInflight frames.length := by
    apply Nat.pos_of_ne_zero
    intro hzero
    rw [chunks, hzero] at hchunk
    cases hchunk
  obtain ⟨bad, hbad, hinvalid⟩ := reachesInvalid_uncapped.mp hreach.uncapped
  obtain ⟨range, hrange, rfl⟩ := List.mem_map.mp hbad
  have hframe : range ∈ frames := (mem_chunks hworkers).mp ⟨chunk, hchunk, hrange⟩
  exact hinvalid (h origin frames probe horigin hworkers range hframe)

end

section

variable {self : LazyLogFmtReader} {text : Bytes}

/-- They give the schema a scan reads with, -/
theorem textSchema_accepted (hvalid : ValidLines text) :
    self.textSchema text =
      match self.schema with
      | some schema => .ok schema
      | none =>
          match schemaOfLines ((acceptedLines self.lineFilter text).take
            self.inferSchemaLength) with
          | none => .error (.computeError (Utf8.ofString "could not infer schema from source"))
          | some schema => .ok schema := by
  obtain ⟨consumed, hinfer⟩ :=
    inferSchemaFromReader_accepted hvalid self.lineFilter self.inferSchemaLength
  unfold textSchema
  rw [hinfer]
  cases self.schema with
  | some schema => rfl
  | none =>
    cases schemaOfLines ((acceptedLines self.lineFilter text).take self.inferSchemaLength) with
    | none => rfl
    | some schema => rfl

/-- and the promise of a lazy frame. -/
theorem promise_accepted (hsource : self.source.Delivers text) (hvalid : ValidLines text) :
    (self.scanLogfmt.map fun made => made.2.2) =
      match self.schema with
      | some schema => .ok (logfmtSchemaToPolarsSchema schema)
      | none =>
          match schemaOfLines ((acceptedLines self.lineFilter text).take
            self.inferSchemaLength) with
          | none => .error noLineFound
          | some schema => .ok (logfmtSchemaToPolarsSchema schema) := by
  obtain ⟨consumed, hinfer⟩ :=
    inferSchemaFromReader_accepted hvalid self.lineFilter self.inferSchemaLength
  unfold scanLogfmt
  rw [inferSchemaFromSource_delivers hsource, hinfer]
  cases self.schema with
  | some schema => rfl
  | none =>
    cases schemaOfLines ((acceptedLines self.lineFilter text).take self.inferSchemaLength) with
    | none => rfl
    | some schema => rfl

/-- The lines a reader keeps are accepted ones. -/
theorem keptLines_accepted (self : LazyLogFmtReader) (schema : Schema) (text : Bytes) :
    self.keptLines schema text = (acceptedLines self.lineFilter text).filter fun line =>
      self.rowFilter.all fun rf => rf (parseLogfmtLineWithSchema line (some schema)) := by
  unfold keptLines acceptedLines
  rw [List.filter_filter]
  apply List.filter_congr
  intro line _
  exact Bool.and_comm _ _

section

variable (ha : self.alignedColsCnt = false) (hsource : self.source.Delivers text)
  (hvalid : ValidLines text)

include ha hsource hvalid

/-- What a scan of a text that can be read returns. -/
theorem scan_accepted (hread : self.FramesReadable) (scanOpts : AnonymousScanArgs)
    (sched : Schedule) :
    AnonymousScan.scan self scanOpts sched none =
      match self.textSchema text with
      | .error e => .error e
      | .ok schema =>
          (stackBatches scanOpts (self.batchOpts (some schema)) none
            (scanBatches scanOpts.nRows self.batchSize (self.keptLines schema text))).map
              fun acc => sliceRows scanOpts.nRows (acc.getD .empty) := by
  rw [scan_delivers hsource scanOpts sched (by simp), Option.bind_fun_none]
  cases self.textSchema text with
  | error e => rfl
  | ok schema =>
    have hread' : (self.scanReader schema).FramesReadable := hread
    have hcases := @scanText_cases _ (self.scanReader schema) text ha hsource scanOpts schema rfl
      sched
    have hloop := @scanLoop_text _ (self.scanReader schema) schema rfl scanOpts sched text
      (.inl hvalid)
    rw [readableLines_of_valid hvalid, keeps_scanReader] at hloop
    simp only
    rw [hcases.resolve_right fun hfails => hread'.unreached scanOpts.nRows hfails.2, hloop]
    congr 1
    apply stackBatches_congr
    · rfl
    · rfl

end

end

end LazyLogFmtReader

end PolarsLogfmt
