import PolarsLogfmt.Lazy.ScanBatches
import PolarsLogfmt.Lazy.SourceTexts

/-!
# The two paths of a scan

A scan of a text makes its frame in the parallel attempt, or else from the lines of the
text, batch by batch. `scan_delivers` says which, for every source of the text.
-/

namespace PolarsLogfmt

variable [Crates]

open LazyLogFmtReader (scanLoop)

namespace LazyLogFmtReader

/-- The copy of the reader a scan works with. -/
def scanReader (self : LazyLogFmtReader) (schema : Schema) : LazyLogFmtReader :=
  { self with
    lineFilter := some (self.lineFilter.getD fun _ => true)
    useParallel := true
    schema := some schema }

@[simp] theorem scanReader_schema (self : LazyLogFmtReader) (schema : Schema) :
    (self.scanReader schema).schema = some schema := rfl

@[simp] theorem scanReader_source (self : LazyLogFmtReader) (schema : Schema) :
    (self.scanReader schema).source = self.source := rfl

@[simp] theorem scanReader_batchSize (self : LazyLogFmtReader) (schema : Schema) :
    (self.scanReader schema).batchSize = self.batchSize := rfl

@[simp] theorem scanReader_alignedColsCnt (self : LazyLogFmtReader) (schema : Schema) :
    (self.scanReader schema).alignedColsCnt = self.alignedColsCnt := rfl

/-- The schema a scan of a text reads with. -/
def textSchema (self : LazyLogFmtReader) (text : Bytes) : Except PolarsError Schema :=
  match self.schema with
  | some schema => .ok schema
  | none =>
      match (inferSchemaFromReader (.ofBytes text) self.lineFilter self.inferSchemaLength).1 with
      | .error e => .error (.computeError e)
      | .ok (none, _) => .error (.computeError (Utf8.ofString "could not infer schema from source"))
      | .ok (some schema, _) => .ok schema

/-- What the parallel attempt of a scan gives; a scan that has a stream makes none. -/
def attempt (self : LazyLogFmtReader) (scanOpts : AnonymousScanArgs) (sched : Schedule)
    (probe : Option LineReader) : Except PolarsError (Option DataFrame) :=
  if probe.isSome then .ok none else (self.parallelBatch scanOpts self.schema sched).2

/-- The frames of a scan of a text under each other: those of the attempt, or those of the
batches. -/
def scanText (self : LazyLogFmtReader) (scanOpts : AnonymousScanArgs) (sched : Schedule)
    (text : Bytes) (probe : Option LineReader) : Except PolarsError (Option DataFrame) :=
  match self.attempt scanOpts sched probe with
  | .error e => .error e
  | .ok (some df) => .ok (if df.width = 0 then none else some df)
  | .ok none => scanLoop self scanOpts sched { reader := some (.ofBytes text) } none

/-- A schema that is given is kept. -/
theorem parallelBatch_schema (self : LazyLogFmtReader) (scanOpts : AnonymousScanArgs)
    (schema : Schema) (sched : Schedule) :
    (self.parallelBatch scanOpts (some schema) sched).1 = some schema := by
  unfold parallelBatch
  split
  · rfl
  · split
    · rfl
    · simp only [Option.some_or]
      split <;> rfl

/-- The loop of `scan` makes the attempt first, then reads the text. -/
theorem scanLoop_start {self : LazyLogFmtReader} {schema : Schema}
    (hschema : self.schema = some schema) (hpar : self.useParallel = true) {text : Bytes}
    (hsource : self.source.Delivers text) (scanOpts : AnonymousScanArgs) (sched : Schedule)
    {probe : Option LineReader} (hprobe : ∀ reader ∈ probe, reader = .ofBytes text) :
    scanLoop self scanOpts sched { reader := probe } none =
      self.scanText scanOpts sched text probe := by
  unfold scanText attempt
  cases probe with
  | some reader =>
    obtain rfl := hprobe reader rfl
    rfl
  | none =>
    have hopen := openReader_delivers hsource
    have hkept := parallelBatch_schema self scanOpts schema sched
    rw [hschema, scanLoop_turn]
    unfold wrrapNextBatch
    simp only [Option.isNone_none, hpar, Bool.false_eq_true, if_false, and_self, if_true, hschema,
      Option.isSome_none]
    cases hattempt : self.parallelBatch scanOpts (some schema) sched with
    | mk schema' result =>
      obtain rfl : schema' = some schema := by rw [← hkept, hattempt]
      cases result with
      | error e => rfl
      | ok found =>
        cases found with
        | some df =>
          simp only
          split
          · exact scanLoop_finished _ _ _ rfl _
          · simp only [stackBatch]
            split
            · rfl
            · exact scanLoop_finished _ _ _ rfl _
        | none =>
          simp only
          rw [scanLoop_turn]
          unfold wrrapNextBatch
          simp only [Option.isNone_some, Bool.false_eq_true, false_and, if_false, hschema]
          unfold singleBatch
          simp only [Option.elim_none, hopen, Option.elim_some]

theorem cloneWithFreshHandle_delivers {self : LazyLogFmtReader} {text : Bytes}
    (h : self.source.Delivers text) :
    self.cloneWithFreshHandle = .ok { self with
      lineFilter := some (self.lineFilter.getD fun _ => true)
      useParallel := true } := by
  unfold cloneWithFreshHandle
  cases hs : self.source with
  | seekable file =>
    rw [hs] at h
    obtain ⟨handle, hclone, -⟩ := h.cloneHandle .scan
    simp only [hclone]
  | _ => rfl

/-- An ssh source has no frames: there is nothing to attempt. -/
theorem attempt_resumed {self : LazyLogFmtReader} (scanOpts : AnonymousScanArgs) (sched : Schedule)
    (text : Bytes) :
    self.attempt scanOpts sched (self.source.resumed text) = self.attempt scanOpts sched none := by
  unfold attempt LogFmtSource.resumed
  cases hs : self.source with
  | ssh connect =>
    have horigin : self.parallelOrigin = none := by
      unfold parallelOrigin
      rw [hs]
    unfold parallelBatch
    rw [horigin]
    rfl
  | _ => rfl

end LazyLogFmtReader

/-- A scan of a text, whatever delivers it. The stream in the reader's state belongs to a
schema that is there. -/
theorem scan_delivers {self : LazyLogFmtReader} {text : Bytes} (hsource : self.source.Delivers text)
    (scanOpts : AnonymousScanArgs) (sched : Schedule) {probe : Option LineReader}
    (hprobe : ∀ reader ∈ probe, reader = .ofBytes text) :
    AnonymousScan.scan self scanOpts sched probe =
      match self.textSchema text with
      | .error e => .error e
      | .ok schema =>
          ((self.scanReader schema).scanText scanOpts sched text
            (self.schema.bind fun _ => probe)).map
              fun acc => LazyLogFmtReader.sliceRows scanOpts.nRows (acc.getD .empty) := by
  unfold AnonymousScan.scan LazyLogFmtReader.scanSchema LazyLogFmtReader.textSchema
  rw [LazyLogFmtReader.cloneWithFreshHandle_delivers hsource]
  have hstart : ∀ schema, ∀ probe : Option LineReader, (∀ reader ∈ probe, reader = .ofBytes text) →
      scanLoop (self.scanReader schema) scanOpts sched { reader := probe } none =
        (self.scanReader schema).scanText scanOpts sched text probe :=
    fun schema probe => @LazyLogFmtReader.scanLoop_start _ (self.scanReader schema) schema rfl rfl
      text hsource scanOpts sched probe
  cases hschema : self.schema with
  | some schema =>
    simp only [Option.bind_some]
    rw [← hstart schema probe hprobe]
    rfl
  | none =>
    simp only [Option.bind_none, inferSchemaFromSource_delivers hsource]
    cases (inferSchemaFromReader (.ofBytes text) self.lineFilter self.inferSchemaLength).1 with
    | error e => rfl
    | ok found =>
      obtain ⟨schema | schema, consumed⟩ := found
      · rfl
      · have hresumed : ∀ reader ∈ self.source.resumed text, reader = .ofBytes text := by
          intro reader hreader
          unfold LogFmtSource.resumed at hreader
          split at hreader
          · exact (Option.mem_some.mp hreader).symm
          · cases hreader
        have hattempt : (self.scanReader schema).attempt scanOpts sched (self.source.resumed text) =
            (self.scanReader schema).attempt scanOpts sched none :=
          LazyLogFmtReader.attempt_resumed scanOpts sched text
        have hnone : (self.scanReader schema).scanText scanOpts sched text
            (self.source.resumed text) = (self.scanReader schema).scanText scanOpts sched text
              none := by
          unfold LazyLogFmtReader.scanText
          rw [hattempt]
        exact congrArg (Except.map _) ((hstart schema _ hresumed).trans hnone)

/-- A scan that succeeds has found a schema, and slices what was made of the text under it. -/
theorem scan_sliced {self : LazyLogFmtReader} {text : Bytes} (hsource : self.source.Delivers text)
    {scanOpts : AnonymousScanArgs} {sched : Schedule} {probe : Option LineReader}
    (hprobe : ∀ reader ∈ probe, reader = .ofBytes text) {df : DataFrame}
    (h : AnonymousScan.scan self scanOpts sched probe = .ok df) :
    ∃ schema acc, self.textSchema text = .ok schema ∧
      (self.scanReader schema).scanText scanOpts sched text (self.schema.bind fun _ => probe) =
          .ok acc ∧
        LazyLogFmtReader.sliceRows scanOpts.nRows (acc.getD .empty) = df := by
  rw [scan_delivers hsource scanOpts sched hprobe] at h
  cases hschema : self.textSchema text with
  | error e =>
    rw [hschema] at h
    cases h
  | ok schema =>
    rw [hschema] at h
    simp only at h
    cases hscan : (self.scanReader schema).scanText scanOpts sched text
        (self.schema.bind fun _ => probe) with
    | error e =>
      rw [hscan] at h
      cases h
    | ok acc =>
      rw [hscan] at h
      exact ⟨schema, acc, rfl, hscan, Except.ok.inj h⟩

end PolarsLogfmt
