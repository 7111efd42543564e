import PolarsLogfmt.Lazy.BatchSchema
import PolarsLogfmt.Lazy.SelectedFrames

/-!
# The promised schema

polars plans with the schema a reader promises. The frame of a scan has the keys its rows happen to
have, with the types of the path that made it: the promise holds when these are the promised ones.
-/

namespace PolarsLogfmt

section

variable [Crates]

/-- The columns polars is promised, by `AnonymousScan::schema` or by `scan_logfmt`. -/
def Promises (self : LazyLogFmtReader) (promised : List (Bytes × DataType)) : Prop :=
  (∃ inferSchemaLength, AnonymousScan.schema self inferSchemaLength = .ok promised) ∨
    ∃ reader probe, LazyLogFmtReader.scanLogfmt reader = .ok (self, probe, promised)

/-- The type promised for a key. -/
def promisedType (schema : Schema) (key : Bytes) : DataType :=
  (schema[key]?.map SchemaField.polarsDtype).getD .string

omit [Crates] in
theorem logfmtSchemaToPolarsSchema_eq (schema : Schema) :
    logfmtSchemaToPolarsSchema schema = schema.keys.map fun key =>
      (key, promisedType schema key) := by
  rw [logfmtSchemaToPolarsSchema, ← Std.ExtTreeMap.map_fst_toList_eq_keys, List.map_map]
  apply List.map_congr_left
  intro field hfield
  have hvalue := Std.ExtTreeMap.mem_toList_iff_getElem?_eq_some.mp hfield
  rw [Function.comp_apply, promisedType, hvalue]
  rfl

/-- A promise is made of a schema, which is the reader's if it has one. -/
theorem Promises.schema {self : LazyLogFmtReader} {promised : List (Bytes × DataType)}
    (h : Promises self promised) :
    ∃ schema, promised = logfmtSchemaToPolarsSchema schema ∧ ∀ own ∈ self.schema, own = schema := by
  rcases h with ⟨inferSchemaLength, h⟩ | ⟨reader, probe, h⟩
  · unfold AnonymousScan.schema at h
    cases hown : self.schema with
    | some own =>
      rw [hown] at h
      cases h
      refine ⟨own, rfl, fun other hother => ?_⟩
      cases hother
      rfl
    | none =>
      rw [hown] at h
      simp only at h
      split at h
      · cases h
      · rename_i schema _
        cases h
        exact ⟨schema, rfl, nofun⟩
      · split at h
        · cases h
        · rename_i schema _ _
          cases h
          exact ⟨schema, rfl, nofun⟩
        · cases h
  · unfold LazyLogFmtReader.scanLogfmt at h
    cases hown : reader.schema with
    | some own =>
      rw [hown] at h
      cases h
      refine ⟨own, rfl, fun other hother => ?_⟩
      rw [hown] at hother
      cases hother
      rfl
    | none =>
      rw [hown] at h
      simp only at h
      split at h
      · cases h
      · cases h
      · rename_i schema _ _
        cases h
        refine ⟨schema, rfl, fun other hother => ?_⟩
        cases hother
        rfl

omit [Crates] in
/-- Two lists of typed columns are the same when the names and their types are. -/
theorem typed_eq_iff {keys : List Bytes} {dtype : Bytes → DataType}
    {promised : List (Bytes × DataType)} :
    (keys.map fun key => (key, dtype key)) = promised ↔
      keys = promised.map Prod.fst ∧ ∀ field ∈ promised, dtype field.1 = field.2 := by
  constructor
  · rintro rfl
    refine ⟨by simp [Function.comp_def], fun field hfield => ?_⟩
    obtain ⟨key, -, rfl⟩ := List.mem_map.mp hfield
    rfl
  · rintro ⟨rfl, htypes⟩
    rw [List.map_map]
    calc promised.map ((fun key => (key, dtype key)) ∘ Prod.fst) = promised.map id := by
          apply List.map_congr_left
          intro field hfield
          rw [Function.comp_apply, htypes field hfield]
          rfl
      _ = promised := List.map_id _

omit [Crates] in
/-- With the schema of the scan the sequential path has the promised types, except for durations. -/
theorem filledType_eq_promisedType_iff {schema : Schema} {key : Bytes} :
    filledType schema key = promisedType schema key ↔ schema[key]? ≠ some .duration := by
  unfold filledType promisedType
  cases schema[key]? with
  | none => simp [schemaType, InferredType.dtype]
  | some field =>
    cases field <;> simp [schemaType, InferredType.dtype, SchemaField.polarsDtype]

omit [Crates] in
/-- The workers have the promised types. -/
theorem finishedType_eq_promisedType (schema : Schema) (key : Bytes) :
    finishedType (trackType (some schema) key) = promisedType schema key := by
  unfold trackType promisedType
  rw [Option.bind_some]
  cases schema[key]? with
  | none => rfl
  | some field => cases field <;> rfl

/-! ## The workers -/

/-- A worker's frame has the columns its lines have started. -/
theorem workerFrame_schema {opts : FrameOpts} {schema : Schema} (hs : opts.schema = some schema)
    (hc : opts.withColumns = none) {lines : List PushedLine} {df : DataFrame}
    (h : workerFrame opts lines = .ok df) (hrows : 0 < df.height) :
    df.schema = (workerColumns opts lines).map fun key =>
      (key, finishedType (trackType (some schema) key)) := by
  obtain ⟨built, hbuilt⟩ := exists_builtFrame h
  have hfields := (builtFrame_typed hbuilt hs).schema
  rw [builtFrame_columnNames hbuilt] at hfields
  rw [← hfields]
  rw [workerFrame_eq_bind, hbuilt] at h
  have h : finishFrame opts built = .ok df := h
  unfold finishFrame at h
  rw [hc] at h
  have hpushed : ∀ pushed, (if 0 < built.width ∧ opts.rowCap.isNone = true
      then applyPushdown built opts.predicate none else .ok built) = .ok pushed →
        pushed.schema = built.schema := by
    intro pushed hpush
    split at hpush
    · exact applyPredicate_schema hpush
    · cases hpush
      rfl
  generalize (if 0 < built.width ∧ opts.rowCap.isNone = true
    then applyPushdown built opts.predicate none else .ok built) = pushed at h hpushed
  cases pushed with
  | error e => cases h
  | ok pushed =>
    have hdf : (if 0 < pushed.width ∧ 0 < pushed.height then pushed else .empty) = df :=
      Except.ok.inj h
    split at hdf
    · rw [← hdf]
      exact hpushed pushed rfl
    · rw [← hdf] at hrows
      cases hrows

/-- When a scan under this schema delivers the promised columns. If the frames of the workers are
stacked: when each worker that has rows takes its columns from lines with just the promised keys,
and the builders have the promised types. If the sequential path answers: when each batch with a
key has just the promised keys, and the types it gives them are the promised ones. -/
structure KeepsPromise (logs : LazyLogFmtReader) (schema : Schema) (text : Bytes)
    (scanOpts : AnonymousScanArgs) (sched : Schedule) (opened : Bool)
    (promised : List (Bytes × DataType)) : Prop where
  workers : LazyLogFmtReader.Answers (logs.attemptResults scanOpts (some schema) sched opened) →
    ∀ lines ∈ logs.pushedTraces scanOpts (some schema) sched,
      (∃ df, workerFrame (logs.frameOpts scanOpts (some schema)) lines = .ok df ∧ 0 < df.height) →
        workerColumns (logs.frameOpts scanOpts (some schema)) lines = promised.map Prod.fst ∧
          ∀ field ∈ promised, finishedType (trackType (some schema) field.1) = field.2
  sequential : ¬ LazyLogFmtReader.Answers
    (logs.attemptResults scanOpts (some schema) sched opened) →
    ∀ batch ∈ keyedBatches (logs.batchOpts (some schema))
        (scanBatches scanOpts.nRows logs.batchSize
          ((readableLines text).filter (logs.batchOpts (some schema)).keeps)),
      batchKeys (logs.batchOpts (some schema)) batch = promised.map Prod.fst ∧
        ∀ field ∈ promised, filledType schema field.1 = field.2

/-! ## The scan -/

theorem sliceRows_schema (nRows : Option Nat) (df : DataFrame) :
    (LazyLogFmtReader.sliceRows nRows df).schema = df.schema := by
  cases nRows with
  | none => rfl
  | some n =>
    unfold LazyLogFmtReader.sliceRows
    simp only
    split
    · exact df.head_schema n
    · rfl

theorem sliceRows_height_le (nRows : Option Nat) (df : DataFrame) :
    (LazyLogFmtReader.sliceRows nRows df).height ≤ df.height := by
  cases nRows with
  | none => exact Nat.le_refl _
  | some n =>
    unfold LazyLogFmtReader.sliceRows
    simp only
    split
    · exact Nat.min_le_right n df.height
    · exact Nat.le_refl _

section

variable {self : LazyLogFmtReader} {text : Bytes} (hsource : self.source.Delivers text)
  {probe : Option LineReader} (hprobe : ∀ reader ∈ probe, reader = .ofBytes text)
  {scanOpts : AnonymousScanArgs} {sched : Schedule} {df : DataFrame}
  (hdf : AnonymousScan.scan self scanOpts sched probe = .ok df) (hrows : 0 < df.height)
  {promised : List (Bytes × DataType)}

include hsource hprobe hdf hrows

/-- A scan that has rows has made them under a schema. -/
theorem scan_rows : ∃ schema made, self.textSchema text = .ok schema ∧
    (self.scanReader schema).scanText scanOpts sched text (self.schema.bind fun _ => probe) =
      .ok (some made) ∧ made.schema = df.schema ∧ 0 < made.height := by
  obtain ⟨schema, acc, hschema, hscan, hslice⟩ := scan_sliced hsource hprobe hdf
  rw [← hslice] at hrows ⊢
  cases acc with
  | none => exact absurd (hrows.trans_le (sliceRows_height_le _ _)) (Nat.lt_irrefl 0)
  | some made =>
    exact ⟨schema, made, hschema, hscan, (sliceRows_schema _ made).symm,
      hrows.trans_le (sliceRows_height_le _ made)⟩

end

section

variable {self : LazyLogFmtReader} {schema : Schema} {scanOpts : AnonymousScanArgs}
  {sched : Schedule} {probe : Option LineReader}

/-- Workers that answer have read chunks. -/
theorem attemptResults_of_answers
    (hanswers : LazyLogFmtReader.Answers
      (self.attemptResults scanOpts (some schema) sched probe.isSome)) :
    self.attemptResults scanOpts (some schema) sched probe.isSome =
      (self.pushedTraces scanOpts (some schema) sched).map
        (workerFrame (self.frameOpts scanOpts (some schema))) := by
  unfold LazyLogFmtReader.attemptResults
  split
  · rename_i hopened
    rw [LazyLogFmtReader.attemptResults, if_pos hopened] at hanswers
    exact absurd hanswers LazyLogFmtReader.not_answers_nil
  · rfl

section

variable {text : Bytes} (hsource : self.source.Delivers text)
  (hschema : self.schema = some schema) (hc : scanOpts.withColumns = none) {df : DataFrame}
  (hscan : self.scanText scanOpts sched text probe = .ok (some df))
  {promised : List (Bytes × DataType)}

include hsource hschema hc hscan

/-- The scan returns a frame with the columns of each of theirs. -/
theorem answered_schema
    (hanswers : LazyLogFmtReader.Answers
      (self.attemptResults scanOpts (some schema) sched probe.isSome)) :
    ∀ frame ∈ (self.attemptResults scanOpts (some schema) sched probe.isSome).filterMap
      LazyLogFmtReader.resultFrame, df.schema = frame.schema := by
  unfold LazyLogFmtReader.scanText at hscan
  cases hattempt : self.attempt scanOpts sched probe with
  | error e =>
    rw [hattempt] at hscan
    cases hscan
  | ok result =>
    obtain ⟨hanswered, -⟩ := LazyLogFmtReader.attempt_answers hsource hschema hattempt
    obtain ⟨first, rest, stacked, hframes, -, hfirst, huncapped, hcapped⟩ := hanswered hanswers
    -- the frame is the stacked one, with a slice filtered
    have hmade : ∃ made, result = some made ∧ made.schema = stacked.schema := by
      by_cases hn : scanOpts.nRows = none
      · exact ⟨stacked, huncapped hn, rfl⟩
      · obtain ⟨made, hpush, hresult⟩ := hcapped hn
        rw [hc] at hpush
        exact ⟨made, hresult, applyPredicate_schema hpush⟩
    obtain ⟨made, rfl, hmade⟩ := hmade
    rw [hattempt] at hscan
    have hdf : (if made.width = 0 then none else some made) = some df := Except.ok.inj hscan
    obtain rfl : made = df := by
      split at hdf
      · cases hdf
      · exact Option.some.inj hdf
    intro frame hframe
    rw [hmade, hfirst]
    exact hanswers.columns first (by rw [hframes]; exact List.mem_cons_self) frame hframe

/-- The frame of workers that answer. -/
theorem answered_promised_iff
    (hanswers : LazyLogFmtReader.Answers
      (self.attemptResults scanOpts (some schema) sched probe.isSome)) :
    df.schema = promised ↔ ∀ lines ∈ self.pushedTraces scanOpts (some schema) sched,
      (∃ df, workerFrame (self.frameOpts scanOpts (some schema)) lines = .ok df ∧ 0 < df.height) →
        workerColumns (self.frameOpts scanOpts (some schema)) lines = promised.map Prod.fst ∧
          ∀ field ∈ promised, finishedType (trackType (some schema) field.1) = field.2 := by
  have hframes := answered_schema hsource hschema hc hscan hanswers
  have hsome := hanswers.rows
  rw [attemptResults_of_answers hanswers, List.filterMap_map] at hframes hsome
  constructor
  · rintro rfl lines hlines ⟨frame, hmade, hrows⟩
    have hframe := hframes frame (List.mem_filterMap.mpr
      ⟨lines, hlines, LazyLogFmtReader.resultFrame_eq_some.mpr ⟨hmade, hrows⟩⟩)
    exact typed_eq_iff.mp ((workerFrame_schema rfl hc hmade hrows).symm.trans hframe.symm)
  · intro h
    obtain ⟨frame, hframe⟩ := List.exists_mem_of_ne_nil _ hsome
    obtain ⟨lines, hlines, hresult⟩ := List.mem_filterMap.mp hframe
    obtain ⟨hmade, hrows⟩ := LazyLogFmtReader.resultFrame_eq_some.mp hresult
    rw [hframes frame hframe, workerFrame_schema rfl hc hmade hrows]
    exact typed_eq_iff.mpr (h lines hlines ⟨frame, hmade, hrows⟩)

/-- The frame of the sequential path. -/
theorem declined_promised_iff
    (hnot : ¬ LazyLogFmtReader.Answers
      (self.attemptResults scanOpts (some schema) sched probe.isSome)) :
    df.schema = promised ↔ ∀ batch ∈ keyedBatches (self.batchOpts (some schema))
        (scanBatches scanOpts.nRows self.batchSize
          ((readableLines text).filter (self.batchOpts (some schema)).keeps)),
      batchKeys (self.batchOpts (some schema)) batch = promised.map Prod.fst ∧
        ∀ field ∈ promised, filledType schema field.1 = field.2 := by
  have hnone := LazyLogFmtReader.attempt_unanswered hsource hschema hnot hscan
  obtain ⟨-, hstack⟩ := LazyLogFmtReader.scanText_declined hnone hschema hscan
  have hwhole : scanOpts.nRows = none ∨ (scanBatches scanOpts.nRows self.batchSize
      ((readableLines text).filter (self.batchOpts (some schema)).keeps)).length ≤ 1 := by
    cases scanOpts.nRows with
    | none => exact .inl rfl
    | some n => exact .inr (length_scanBatches_slice n self.batchSize _)
  obtain ⟨-, hbatches, hsome⟩ := stackBatches_schema rfl hc hstack hwhole
  constructor
  · intro hpromised batch hbatch
    exact typed_eq_iff.mp ((hbatches batch hbatch).trans hpromised)
  · intro h
    obtain ⟨batch, hbatch⟩ := List.exists_mem_of_ne_nil _ (hsome rfl)
    exact (hbatches batch hbatch).symm.trans (typed_eq_iff.mpr (h batch hbatch))

end

end

/-- When the frame of a scan has the promised columns, whatever the path that made it. Under the
schema of the promise the types are the promised ones, but for durations on the sequential path. -/
theorem promised_schema_iff {self : LazyLogFmtReader} {text : Bytes}
    (hsource : self.source.Delivers text) {promised : List (Bytes × DataType)}
    (h : Promises self promised) {probe : Option LineReader}
    (hprobe : ∀ reader ∈ probe, reader = .ofBytes text) {scanOpts : AnonymousScanArgs}
    (hc : scanOpts.withColumns = none) {sched : Schedule} {df : DataFrame}
    (hdf : AnonymousScan.scan self scanOpts sched probe = .ok df) (hrows : 0 < df.height) :
    (df.schema = promised ↔ ∀ schema, self.textSchema text = .ok schema →
      KeepsPromise (self.scanReader schema) schema text scanOpts sched
        (self.schema.bind fun _ => probe).isSome promised) ∧
    (∀ own ∈ self.schema, promised = logfmtSchemaToPolarsSchema own) ∧
    ∀ schema, promised = logfmtSchemaToPolarsSchema schema →
      ((∀ field ∈ promised, filledType schema field.1 = field.2) ↔
        ∀ key : Bytes, schema[key]? ≠ some SchemaField.duration) ∧
      ∀ field ∈ promised, finishedType (trackType (some schema) field.1) = field.2 := by
  refine ⟨?_, ?_, ?_⟩
  · obtain ⟨schema, made, hschema, hscan, hmade, -⟩ := scan_rows hsource hprobe hdf hrows
    have hsource' : (self.scanReader schema).source.Delivers text := hsource
    have hiff : df.schema = promised ↔
      KeepsPromise (self.scanReader schema) schema text scanOpts sched
        (self.schema.bind fun _ => probe).isSome promised := by
      rw [← hmade]
      by_cases hanswers : LazyLogFmtReader.Answers ((self.scanReader schema).attemptResults scanOpts
          (some schema) sched (self.schema.bind fun _ => probe).isSome)
      · rw [answered_promised_iff hsource' rfl hc hscan hanswers]
        exact ⟨fun h => ⟨fun _ => h, fun hnot => absurd hanswers hnot⟩, fun h => h.workers hanswers⟩
      · rw [declined_promised_iff hsource' rfl hc hscan hanswers]
        exact ⟨fun h => ⟨fun hyes => absurd hyes hanswers, fun _ => h⟩,
          fun h => h.sequential hanswers⟩
    rw [hiff]
    refine ⟨fun hkeeps other hother => ?_, fun h => h schema hschema⟩
    rw [hschema] at hother
    cases hother
    exact hkeeps
  · intro own hown
    obtain ⟨schema, rfl, hsame⟩ := h.schema
    rw [hsame own hown]
  · rintro schema rfl
    clear h
    rw [logfmtSchemaToPolarsSchema_eq]
    simp only [List.forall_mem_map, filledType_eq_promisedType_iff, finishedType_eq_promisedType,
      implies_true, and_true, Std.ExtTreeMap.mem_keys]
    refine ⟨fun hkeys key hduration => ?_, fun hnone key _ => hnone key⟩
    exact hkeys key (Std.ExtTreeMap.mem_iff_isSome_getElem?.mpr (by rw [hduration]; rfl)) hduration

end

section

attribute [local instance] smallCrates

/-- `a=1` and `b=2`; the schema is inferred from the first line. -/
def lateKeyReader : LazyLogFmtReader := { source := .cursor (Utf8.ofString "a=1\nb=2\n") }

/-- `d=1s`, a duration. -/
def durationReader : LazyLogFmtReader := { source := .cursor (Utf8.ofString "d=1s\n") }

example : AnonymousScan.schema durationReader none = .ok [(Utf8.ofString "d", .int64)] := by
  decide +kernel

/-- The frame of some lines, under the schema of the first. -/
def inferredFrame (self : LazyLogFmtReader) (lines : List Bytes) : DataFrame :=
  let schema := inferSchemaFromRow (parseLogfmtLine (lines.headD []))
  filledFrame (batchRows (self.batchOpts (some schema)) lines) (some schema)

theorem scan_durationReader :
    AnonymousScan.scan durationReader {} {} none =
      .ok (inferredFrame durationReader [Utf8.ofString "d=1s\n"]) :=
  @scan_of_batches _ durationReader (Utf8.ofString "d=1s\n") rfl none (by simp)
    (inferSchemaFromRow (parseLogfmtLine (Utf8.ofString "d=1s\n"))) (by decide +kernel)
    (by decide +kernel) {} (by decide +kernel) _ (by decide +kernel)

theorem promised_schema_durationReader :
    ((inferredFrame durationReader [Utf8.ofString "d=1s\n"]).schema =
    [(Utf8.ofString "d", .int64)] ↔
      ∀ schema, durationReader.textSchema (Utf8.ofString "d=1s\n") = .ok schema →
        KeepsPromise (durationReader.scanReader schema) schema (Utf8.ofString "d=1s\n") {} {}
          (durationReader.schema.bind fun _ => (none : Option LineReader)).isSome
          [(Utf8.ofString "d", .int64)]) ∧
    (∀ own ∈ durationReader.schema,
    [(Utf8.ofString "d", .int64)] = logfmtSchemaToPolarsSchema own) ∧
    ∀ schema, [(Utf8.ofString "d", .int64)] = logfmtSchemaToPolarsSchema schema →
      ((∀ field ∈ [(Utf8.ofString "d", DataType.int64)], filledType schema field.1 = field.2) ↔
        ∀ key : Bytes, schema[key]? ≠ some SchemaField.duration) ∧
      ∀ field ∈ [(Utf8.ofString "d", DataType.int64)],
        finishedType (trackType (some schema) field.1) = field.2 :=
  @promised_schema_iff _ durationReader (Utf8.ofString "d=1s\n") rfl [(Utf8.ofString "d", .int64)]
    (.inl ⟨none, by decide +kernel⟩) none (by simp) {} rfl {} _ scan_durationReader
    (by decide +kernel)

theorem scan_lateKeyReader :
    AnonymousScan.scan lateKeyReader {} {} none =
      .ok (inferredFrame lateKeyReader [Utf8.ofString "a=1\n", Utf8.ofString "b=2\n"]) :=
  @scan_of_batches _ lateKeyReader (Utf8.ofString "a=1\nb=2\n") rfl none (by simp)
    (inferSchemaFromRow (parseLogfmtLine (Utf8.ofString "a=1\n"))) (by decide +kernel)
    (by decide +kernel) {} (by decide +kernel) _ (by decide +kernel)

/-- The second line has a key that is not promised. A duration is promised as microseconds and
delivered as a text. -/
theorem promised_schema_counterexample :
    (∃ promised df, AnonymousScan.schema lateKeyReader none = .ok promised ∧
      AnonymousScan.scan lateKeyReader {} {} none = .ok df ∧ 0 < df.height ∧ df.schema ≠ promised) ∧
    ∃ promised df, AnonymousScan.schema durationReader none = .ok promised ∧
      AnonymousScan.scan durationReader {} {} none = .ok df ∧ 0 < df.height ∧
        df.schema ≠ promised := by
  constructor
  · refine ⟨[(Utf8.ofString "a", .int64)], _, by decide +kernel, scan_lateKeyReader, ?_, ?_⟩
    · decide +kernel
    · decide +kernel
  · refine ⟨[(Utf8.ofString "d", .int64)], _, by decide +kernel, scan_durationReader, ?_, ?_⟩
    · decide +kernel
    · decide +kernel

end

end PolarsLogfmt
