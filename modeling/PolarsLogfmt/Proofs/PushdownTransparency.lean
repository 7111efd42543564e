import PolarsLogfmt.Lazy.BatchSchema
import PolarsLogfmt.Lazy.PushedFrames
import PolarsLogfmt.Lazy.SelectedFrames
import PolarsLogfmt.Proofs.AlignedCuts

/-!
# Pushdown is transparent

polars leaves a filter and a projection to the scan. On the sequential path every batch is
filtered and projected on its own, so a batch without a key has none of the columns. With aligned
columns a predicate that is true on no row leaves the workers without a frame, and the sequential
path, which fills missing cells, answers instead; and workers whose frames have different columns
answer only once the projection has made them the same.
-/

namespace PolarsLogfmt

section

variable [Crates]

theorem applyPushdown_eq_filterSelect {df : DataFrame} {p : Predicate}
    (hreads : p.reads ⊆ df.columnNames) {cols : List Bytes} (hne : cols ≠ []) :
    applyPushdown df (some p) (some cols) = filterSelect df p cols := by
  obtain ⟨kept, hkept⟩ := filter_isOk_iff.mpr hreads
  unfold applyPushdown filterSelect
  rw [applyPredicate, hkept]
  exact if_neg hne

theorem fitsColumns_pushedArgs {p : Predicate} {cols names : List Bytes} (hnodup : cols.Nodup) :
    (pushedArgs p cols).FitsColumns names ↔ p.reads ⊆ names ∧ cols ⊆ names := by
  constructor
  · exact fun h => ⟨h.predicate p rfl, (h.withColumns cols rfl).1⟩
  · rintro ⟨hreads, hcols⟩
    refine ⟨fun p' hp' => ?_, fun cols' hcols' => ?_⟩
    · cases hp'
      exact hreads
    · cases hcols'
      exact ⟨hcols, hnodup⟩

/-! ## The scan -/

/-- The batches of the sequential path. -/
def textBatches (self : LazyLogFmtReader) (schema : Schema) (text : Bytes) : List (List Bytes) :=
  scanBatches none self.batchSize (self.keptLines schema text)

/-- Every batch of the sequential path has a key. -/
def KeyedText (self : LazyLogFmtReader) (schema : Schema) (text : Bytes) : Prop :=
  ∀ batch ∈ textBatches self schema text, ∃ line ∈ batch, lineColumns line ≠ []

/-- The frame of the sequential path. -/
def textFrame (self : LazyLogFmtReader) (schema : Schema) (text : Bytes) : DataFrame :=
  filledFrame ((keyedBatches (self.batchOpts (some schema)) (textBatches self schema text)).flatMap
    (batchRows (self.batchOpts (some schema)))) (some schema)

variable {self : LazyLogFmtReader} {text : Bytes} {schema : Schema}

/-- The columns of the sequential path are keys. -/
theorem textFrame_apart : ∀ name ∈ (textFrame self schema text).columnNames,
    ¬ LazyLogFmtReader.cloneHandleFailedMsg <:+: name := by
  intro name hname
  rw [textFrame, filledFrame_columnNames] at hname
  obtain ⟨row, hrow, hmem⟩ := mem_rowKeys.mp hname
  obtain ⟨batch, -, hrow⟩ := List.mem_flatMap.mp hrow
  obtain ⟨line, -, hkey⟩ := lineKeys_of_batchRows _ batch row hrow name hmem
  exact key_apart hkey

theorem textFrame_schema : (textFrame self schema text).schema =
    (textFrame self schema text).columnNames.map fun key => (key, filledType schema key) := by
  have hn : (textFrame self schema text).columnNames.Nodup := by
    rw [textFrame, filledFrame_columnNames]
    exact rowKeys_nodup _
  have htable : textFrame self schema text =
      (filledTable schema (textFrame self schema text).columnNames hn).frame
        ((keyedBatches (self.batchOpts (some schema)) (textBatches self schema text)).flatMap
          (batchRows (self.batchOpts (some schema)))) :=
    filledFrame_eq_table (readUnder_flatMap rfl _) (filledFrame_columnNames _ _).symm hn
  have hfields := Table.frame_schema
    (filledTable schema (textFrame self schema text).columnNames hn)
    ((keyedBatches (self.batchOpts (some schema)) (textBatches self schema text)).flatMap
      (batchRows (self.batchOpts (some schema))))
  rw [← htable] at hfields
  exact hfields

/-- The frame the sequential path makes. -/
theorem eq_textFrame {df : DataFrame}
    (hdf : stackBatches {} ((self.scanReader schema).batchOpts (some schema)) none
      (textBatches self schema text) = .ok (some df)) : df = textFrame self schema text := by
  have hsame : SameKeys ((self.scanReader schema).batchOpts (some schema))
      (textBatches self schema text) := by
    by_contra hother
    obtain ⟨e, he⟩ := stackBatches_fails rfl hother
    rw [he] at hdf
    cases hdf
  rw [stackBatches_ok rfl hsame, Except.ok.injEq] at hdf
  split at hdf
  · cases hdf
  · exact (Option.some.inj hdf).symm

/-- The sequential path can read the text, has the columns in every batch, has no row on which the
predicate is true, and gives the listed columns the types the workers give them. -/
structure FindsNone (logs : LazyLogFmtReader) (schema : Schema) (text : Bytes) (p : Predicate)
    (cols : List Bytes) : Prop where
  reads : ValidLines text
  any : textBatches logs schema text ≠ []
  columns : ∀ batch ∈ textBatches logs schema text,
    p.reads ⊆ batchKeys (logs.batchOpts (some schema)) batch ∧
      cols ⊆ batchKeys (logs.batchOpts (some schema)) batch
  rejects : ∀ batch ∈ textBatches logs schema text,
    ∀ row ∈ batchRows (logs.batchOpts (some schema)) batch,
      (filledTable schema [] List.nodup_nil).holds p row = false
  types : ∀ key ∈ cols, filledType schema key = finishedType (trackType (some schema) key)

/-- When the workers' frames, with nothing pushed down, have different columns: all of them have the
columns of the pushdown, and the rows they select are those the sequential path selects. -/
structure SelectsSame (logs : LazyLogFmtReader) (schema : Schema) (text : Bytes)
    (frames : List DataFrame) (p : Predicate) (cols : List Bytes) : Prop where
  columns : ∀ frame ∈ frames, LazyLogFmtReader.HasColumns p cols frame
  none : frames.flatMap (selectedRows p cols) = [] → KeyedText logs schema text
  some : frames.flatMap (selectedRows p cols) ≠ [] →
    (∀ key ∈ cols, filledType schema key = finishedType (trackType (some schema) key)) ∧
      selectedRows p cols (textFrame logs schema text) = frames.flatMap (selectedRows p cols)

/-- When a predicate and a projection can be pushed down, by the frames the workers make of their
chunks with nothing pushed down. -/
structure PushesDown (logs : LazyLogFmtReader) (schema : Schema) (text : Bytes)
    (frames : List DataFrame) (p : Predicate) (cols : List Bytes) : Prop where
  /-- Without such frames the sequential path answers either way. -/
  unaligned : frames = [] → KeyedText logs schema text
  /-- Frames of the same columns answer, unless the predicate is true on none of their rows. -/
  aligned : frames ≠ [] → (∀ df ∈ frames, ∀ other ∈ frames, df.schema = other.schema) →
    (∃ frame ∈ frames, true ∈ frame.mask p) ∨ FindsNone logs schema text p cols
  /-- Frames of different columns answer under the pushdown only. -/
  ragged : ¬ (∀ df ∈ frames, ∀ other ∈ frames, df.schema = other.schema) →
    SelectsSame logs schema text frames p cols

section

variable {frames : List DataFrame} {p : Predicate} {cols : List Bytes}

theorem pushesDown_nil_iff : PushesDown self schema text [] p cols ↔ KeyedText self schema text :=
  ⟨fun h => h.unaligned rfl, fun hkeyed => ⟨fun _ => hkeyed, fun hsome => absurd rfl hsome,
    fun hnot => absurd (by simp) hnot⟩⟩

theorem pushesDown_aligned_iff (hsome : frames ≠ [])
    (hall : ∀ df ∈ frames, ∀ other ∈ frames, df.schema = other.schema) :
    PushesDown self schema text frames p cols ↔
      (∃ frame ∈ frames, true ∈ frame.mask p) ∨ FindsNone self schema text p cols :=
  ⟨fun h => h.aligned hsome hall, fun h => ⟨fun hempty => absurd hempty hsome, fun _ _ => h,
    fun hnot => absurd hall hnot⟩⟩

theorem pushesDown_ragged_iff (hsome : frames ≠ [])
    (hnot : ¬ ∀ df ∈ frames, ∀ other ∈ frames, df.schema = other.schema) :
    PushesDown self schema text frames p cols ↔ SelectsSame self schema text frames p cols :=
  ⟨fun h => h.ragged hnot, fun h => ⟨fun hempty => absurd hempty hsome,
    fun _ hall => absurd hall hnot, fun _ => h⟩⟩

theorem selectsSame_none_iff (hfits : ∀ df ∈ frames, LazyLogFmtReader.HasColumns p cols df)
    (hnil : frames.flatMap (selectedRows p cols) = []) :
    SelectsSame self schema text frames p cols ↔ KeyedText self schema text :=
  ⟨fun h => h.none hnil, fun hkeyed => ⟨hfits, fun _ => hkeyed, fun hsome => absurd hnil hsome⟩⟩

theorem selectsSame_some_iff (hfits : ∀ df ∈ frames, LazyLogFmtReader.HasColumns p cols df)
    (hsome : frames.flatMap (selectedRows p cols) ≠ []) :
    SelectsSame self schema text frames p cols ↔
      (∀ key ∈ cols, filledType schema key = finishedType (trackType (some schema) key)) ∧
        selectedRows p cols (textFrame self schema text) = frames.flatMap (selectedRows p cols) :=
  ⟨fun h => h.some hsome, fun h => ⟨hfits, fun hnil => absurd hnil hsome, fun _ => h⟩⟩

end

variable {self : LazyLogFmtReader} {text : Bytes} (hsource : self.source.Delivers text)
  {probe : Option LineReader} (hprobe : ∀ reader ∈ probe, reader = .ofBytes text)

include hsource hprobe

/-- A scan that makes a frame with columns has found a schema. -/
theorem scan_made {sched : Schedule} {df : DataFrame}
    (h : AnonymousScan.scan self {} sched probe = .ok df) (hwidth : df.columnNames ≠ []) :
    ∃ schema, self.textSchema text = .ok schema ∧
      (self.scanReader schema).scanText {} sched text (self.schema.bind fun _ => probe) =
        .ok (some df) := by
  obtain ⟨schema, acc, hschema, hscan, hslice⟩ := scan_sliced hsource hprobe h
  refine ⟨schema, hschema, ?_⟩
  cases acc with
  | none =>
    cases hslice
    exact absurd rfl hwidth
  | some made =>
    cases hslice
    exact hscan

/-- When the sequential path answers the scan without the pushdown, and the one with it, the
pushdown is transparent exactly when every batch has a key. -/
theorem sequential_transparent_iff {schema : Schema} (hschema : self.textSchema text = .ok schema)
    {df : DataFrame} (hread : ValidLines text ∨ self.batchSize = some 0)
    (hstack : stackBatches {} ((self.scanReader schema).batchOpts (some schema)) none
      (textBatches self schema text) = .ok (some df))
    {p : Predicate} (hreads : p.reads ⊆ df.columnNames) {cols : List Bytes}
    (hcols : cols ⊆ df.columnNames) (hnodup : cols.Nodup) (hne : cols ≠ []) {sched' : Schedule}
    (hnone : (self.scanReader schema).attempt (pushedArgs p cols) sched'
      (self.schema.bind fun _ => probe) = .ok none) :
    AnonymousScan.scan self (pushedArgs p cols) sched' probe = filterSelect df p cols ↔
      KeyedText self schema text := by
  have hn : (pushedArgs p cols).nRows = none := rfl
  have hargs := LazyLogFmtReader.scanText_read hnone rfl hn hread
  rw [LazyLogFmtReader.keptLines_scanReader] at hargs
  have hiff := stackBatches_transparent_iff rfl hstack hn rfl hne
    ((fitsColumns_pushedArgs hnodup).mpr ⟨hreads, hcols⟩)
  rw [scan_plain hsource hprobe hschema rfl sched', hargs,
    ← applyPushdown_eq_filterSelect hreads hne]
  exact hiff.trans (forall₂_congr fun batch _ => batchKeys_ne_nil_iff)

/-- When the attempt with the pushdown makes no frame, none is returned exactly when the sequential
path finds none either. -/
theorem findsNone_iff {schema : Schema} (hschema : self.textSchema text = .ok schema)
    {df out : DataFrame}
    {p : Predicate} {cols : List Bytes} (hnodup : cols.Nodup) (hne : cols ≠ []) {sched' : Schedule}
    (hnone : (self.scanReader schema).attempt (pushedArgs p cols) sched'
      (self.schema.bind fun _ => probe) = .ok none) (hout : filterSelect df p cols = .ok out)
    (houtSchema : out.schema = cols.map fun key =>
      (key, finishedType (trackType (some schema) key)))
    (houtRows : out.rows = []) :
    AnonymousScan.scan self (pushedArgs p cols) sched' probe = filterSelect df p cols ↔
      FindsNone self schema text p cols := by
  have hn : (pushedArgs p cols).nRows = none := rfl
  have hempty : out = (alignedTable schema cols hnodup).frame [] := by
    apply DataFrame.eq_of_rows
    · rw [houtSchema, Table.frame_schema]
      rfl
    · rw [houtRows]
      exact (List.length_eq_zero_iff.mp (by
        rw [DataFrame.length_rows, (alignedTable schema cols hnodup).frame_height [] hne]
        rfl)).symm
  rw [scan_plain hsource hprobe hschema rfl sched', hout, hempty]
  by_cases hread : ValidLines text ∨ self.batchSize = some 0
  · have hargs := LazyLogFmtReader.scanText_read hnone rfl hn hread
    rw [LazyLogFmtReader.keptLines_scanReader] at hargs
    have hiff := @stackBatches_eq_nil_iff _ ((self.scanReader schema).batchOpts (some schema))
      schema (pushedArgs p cols) rfl (textBatches self schema text) hn cols hnodup rfl hne _
      (alignedTable schema cols hnodup) rfl
    rw [hargs]
    refine hiff.trans ⟨?_, ?_⟩
    · rintro ⟨⟨hany, hcolumns⟩, hrejects, htypes⟩
      have hcolumns := fun batch hbatch =>
        (fitsColumns_pushedArgs hnodup).mp (hcolumns batch hbatch)
      refine ⟨hread.resolve_right fun hzero => ?_, hany, hcolumns, hrejects, htypes⟩
      -- a batch size of zero makes a batch without columns
      have hzero : (none : Option Nat).or self.batchSize = some 0 := hzero
      have hsub := (hcolumns [] (by
        rw [textBatches, scanBatches_zero hzero]
        exact List.mem_singleton_self [])).2
      exact hne (List.eq_nil_of_subset_nil hsub)
    · intro h
      exact ⟨⟨h.any, fun batch hbatch =>
        (fitsColumns_pushedArgs hnodup).mpr (h.columns batch hbatch)⟩, h.rejects, h.types⟩
  · obtain ⟨e, he⟩ := LazyLogFmtReader.scanText_unread hnone rfl hn hread
    rw [he]
    exact iff_of_false (fun heq => by cases heq) fun h => hread (.inl h.reads)

section

variable {schema : Schema} (hschema : self.textSchema text = .ok schema) (htexts : PolarsTexts)
  {sched : Schedule} {df : DataFrame} {p : Predicate} (hreads : p.reads ⊆ df.columnNames)
  {cols : List Bytes} (hcols : cols ⊆ df.columnNames) (hnodup : cols.Nodup) (hne : cols ≠ [])
  (sched' : Schedule)

include hschema htexts hreads hcols hnodup hne

/-- When the frames of the workers are stacked. -/
theorem stacked_transparent_iff {result : Option DataFrame}
    (hattempt : (self.scanReader schema).attempt {} sched (self.schema.bind fun _ => probe) =
      .ok result)
    (hsame : ∀ frame ∈ (self.scanReader schema).chunkFrames schema
      (self.schema.bind fun _ => probe).isSome, frame.schema = df.schema)
    (hrows : df.rows = ((self.scanReader schema).chunkFrames schema
      (self.schema.bind fun _ => probe).isSome).flatMap DataFrame.rows)
    (hsome : (self.scanReader schema).chunkFrames schema
      (self.schema.bind fun _ => probe).isSome ≠ []) :
    AnonymousScan.scan self (pushedArgs p cols) sched' probe = filterSelect df p cols ↔
      PushesDown self schema text ((self.scanReader schema).chunkFrames schema
        (self.schema.bind fun _ => probe).isSome) p cols := by
  have hsource' : (self.scanReader schema).source.Delivers text := hsource
  have hselects := @LazyLogFmtReader.attempt_selects _ (self.scanReader schema) schema text hsource'
    rfl htexts _ _ _ hattempt p cols hne hnodup
  have htyped := @LazyLogFmtReader.chunkFrames_typed _ (self.scanReader schema) schema
    (self.schema.bind fun _ => probe).isSome
  generalize (self.scanReader schema).chunkFrames schema
    (self.schema.bind fun _ => probe).isSome = frames at *
  have hnames : ∀ frame ∈ frames, frame.columnNames = df.columnNames := by
    intro frame hframe
    rw [DataFrame.columnNames_eq_schema, hsame frame hframe, ← DataFrame.columnNames_eq_schema]
  have hfits : ∀ frame ∈ frames, LazyLogFmtReader.HasColumns p cols frame := by
    intro frame hframe
    rw [LazyLogFmtReader.HasColumns, hnames frame hframe]
    exact ⟨hreads, hcols⟩
  have hall : ∀ frame ∈ frames, ∀ other ∈ frames, frame.schema = other.schema :=
    fun frame hframe other hother => (hsame frame hframe).trans (hsame other hother).symm
  -- what the pushdown should leave
  obtain ⟨out, hout⟩ := exists_filterSelect.mpr ⟨hreads, hcols, hnodup⟩
  have houtRows := (filterSelect_rows hout).2
  rw [selectedRows_stacked hrows hnames] at houtRows
  obtain ⟨first, hfirst⟩ := List.exists_mem_of_ne_nil _ hsome
  have houtSchema := filterSelect_schema
    (DataFrame.typedBy_of_schema ((hsame first hfirst).symm.trans (htyped first hfirst).schema))
    hout
  obtain ⟨hnil, hleft⟩ := hselects hfits sched'
  rw [pushesDown_aligned_iff hsome hall, ← @flatMap_selectedRows_ne_nil_iff _ p cols]
  by_cases hselected : frames.flatMap (selectedRows p cols) = []
  · rw [hselected] at houtRows
    rw [findsNone_iff hsource hprobe hschema hnodup hne (hnil hselected) hout houtSchema houtRows]
    exact (or_iff_right fun hleft => hleft hselected).symm
  · obtain ⟨stacked, hattempt', hstackedRows, hstackedSchema⟩ := hleft hselected
    obtain rfl : stacked = out := DataFrame.eq_of_rows (hstackedSchema.trans houtSchema.symm)
      (hstackedRows.trans houtRows.symm)
    refine iff_of_true ?_ (.inl hselected)
    rw [hout]
    exact scan_of_attempt hsource hprobe hschema rfl hattempt' (filterSelect_width hne hout)

/-- When they are not, the sequential path answers the scan without the pushdown. -/
theorem declined_transparent_iff {result : Option DataFrame}
    (hattempt : (self.scanReader schema).attempt {} sched (self.schema.bind fun _ => probe) =
      .ok result)
    (hnot : ¬ ((self.scanReader schema).chunkFrames schema
        (self.schema.bind fun _ => probe).isSome ≠ [] ∧
      ∀ frame ∈ (self.scanReader schema).chunkFrames schema
          (self.schema.bind fun _ => probe).isSome,
        ∀ other ∈ (self.scanReader schema).chunkFrames schema
          (self.schema.bind fun _ => probe).isSome, frame.schema = other.schema))
    (hread : ValidLines text ∨ self.batchSize = some 0)
    (hstack : stackBatches {} ((self.scanReader schema).batchOpts (some schema)) none
      (textBatches self schema text) = .ok (some df)) :
    AnonymousScan.scan self (pushedArgs p cols) sched' probe = filterSelect df p cols ↔
      PushesDown self schema text ((self.scanReader schema).chunkFrames schema
        (self.schema.bind fun _ => probe).isSome) p cols := by
  have hsource' : (self.scanReader schema).source.Delivers text := hsource
  have hselects := @LazyLogFmtReader.attempt_selects _ (self.scanReader schema) schema text hsource'
    rfl htexts _ _ _ hattempt p cols hne hnodup
  have hunfit := @LazyLogFmtReader.attempt_unfit _ (self.scanReader schema) schema text hsource' rfl
    htexts _ _ _ hattempt p cols
  have hdf := eq_textFrame hstack
  have hseq := fun hnone => @sequential_transparent_iff _ self text hsource probe hprobe schema
    hschema df hread hstack p hreads cols hcols hnodup hne sched' hnone
  generalize (self.scanReader schema).chunkFrames schema
    (self.schema.bind fun _ => probe).isSome = frames at *
  obtain ⟨out, hout⟩ := exists_filterSelect.mpr ⟨hreads, hcols, hnodup⟩
  by_cases hempty : frames = []
  · subst hempty
    obtain ⟨hnil, -⟩ := hselects (by simp) sched'
    rw [hseq (hnil rfl), pushesDown_nil_iff]
  have hother : ¬ ∀ frame ∈ frames, ∀ other ∈ frames, frame.schema = other.schema :=
    fun hall => hnot ⟨hempty, hall⟩
  rw [pushesDown_ragged_iff hempty hother]
  by_cases hfits : ∀ frame ∈ frames, LazyLogFmtReader.HasColumns p cols frame
  · obtain ⟨hnil, hleft⟩ := hselects hfits sched'
    by_cases hselected : frames.flatMap (selectedRows p cols) = []
    · rw [hseq (hnil hselected), selectsSame_none_iff hfits hselected]
    · obtain ⟨stacked, hattempt', hstackedRows, hstackedSchema⟩ := hleft hselected
      have hwidth : stacked.width ≠ 0 := by
        rw [DataFrame.width_eq_schema, hstackedSchema, List.length_map]
        exact (List.length_pos_of_ne_nil hne).ne'
      have houtSchema := filterSelect_schema
        (DataFrame.typedBy_of_schema (hdf ▸ textFrame_schema)) hout
      have houtRows := (filterSelect_rows hout).2
      rw [scan_of_attempt hsource hprobe hschema rfl hattempt' hwidth, hout, Except.ok.injEq,
        eq_comm, DataFrame.eq_iff_of_schema houtSchema hstackedSchema, houtRows, hstackedRows, hdf,
        selectsSame_some_iff hfits hselected]
  · have hapart : ∀ name ∈ p.reads ++ cols, ¬ LazyLogFmtReader.cloneHandleFailedMsg <:+: name := by
      intro name hname
      apply textFrame_apart name
      rw [← hdf]
      rcases List.mem_append.mp hname with hname | hname
      · exact hreads hname
      · exact hcols hname
    obtain ⟨e, he⟩ := hunfit hapart hfits sched'
    refine iff_of_false (fun heq => ?_) fun h => hfits h.columns
    rw [scan_plain hsource hprobe hschema rfl, LazyLogFmtReader.scanText, he, hout] at heq
    cases heq

end

end

section

attribute [local instance] smallCrates

/-- A text is not in one that lacks its first byte. -/
theorem infix_of_append {first : UInt8} {rest before text : Bytes} (hnot : first ∉ before)
    (h : first :: rest <:+: before ++ text) : first :: rest <:+: text := by
  induction before with
  | nil => exact h
  | cons b before ih =>
    rw [List.mem_cons, not_or] at hnot
    rw [List.cons_append, List.infix_cons_iff] at h
    rcases h with hprefix | h
    · exact absurd (List.cons_prefix_cons.mp hprefix).1 hnot.1
    · exact ih hnot.2 h

theorem polarsTexts_small : PolarsTexts := by
  intro e hmsg hname
  cases e with
  | computeError msg => exact absurd rfl (hmsg msg)
  | columnNotFound name =>
    have hbefore : 0x63 ∉ Utf8.ofString "not found: " := by decide +kernel
    exact fun h => hname name rfl (infix_of_append hbefore h)
  | duplicate => decide +kernel
  | shapeMismatch => decide +kernel
  | schemaMismatch => decide +kernel

/-- The column is the empty text. -/
def isEmptyText (key : Bytes) : Predicate :=
  { reads := [key], holds := fun values => values = [.string []] }

/-- One worker reads `a=1 b=1` and `a=2` with aligned columns. -/
def raggedReader : LazyLogFmtReader := alignedReader [raggedUnits.flatten] 1

example : (promisedFrame ∅ raggedUnits).columnNames = [Utf8.ofString "a", Utf8.ofString "b"] := by
  decide +kernel

theorem delivers_raggedReader : raggedReader.source.Delivers raggedUnits.flatten :=
  ⟨[raggedUnits.flatten], rfl, List.flatten_singleton.symm⟩

theorem scan_raggedReader :
    AnonymousScan.scan raggedReader {} {} none = .ok (promisedFrame ∅ raggedUnits) := by
  refine @scan_of_attempt _ raggedReader raggedUnits.flatten delivers_raggedReader none
    (by simp) ∅ rfl
    {} rfl {} _ ?_ ?_
  · decide +kernel
  · decide +kernel

/-- `hello`, which has no key, and `a=1`, each in its own batch. -/
def wordReader : LazyLogFmtReader :=
  { source := .cursor (Utf8.ofString "hello\na=1\n"), schema := some ∅, batchSize := some 1 }

end

end PolarsLogfmt
