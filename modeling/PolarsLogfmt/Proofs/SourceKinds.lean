import PolarsLogfmt.Lazy.UnalignedAttempt
import PolarsLogfmt.Lazy.FirstBatch
import PolarsLogfmt.Lazy.CellDetour
import PolarsLogfmt.Proofs.InferenceEntry

/-!
# A frame pulled without a schema

A cursor's rows are inferred value by value and coerced to the columns of the first line
afterwards; a file's rows are parsed under the schema of the first line. Which texts give
the same frame both ways.
-/

namespace PolarsLogfmt

section

variable [Crates]

/-! ## Two frames of the same lines -/

theorem filledFrame_eq_iff {rows rows' : List Row} (schema : Option Schema)
    (hkeys : rowKeys rows = rowKeys rows') (hlen : rows.length = rows'.length) :
    filledFrame rows schema = filledFrame rows' schema ↔
      ∀ key ∈ rowKeys rows, filledColumn rows schema key = filledColumn rows' schema key := by
  constructor
  · intro h key hkey
    have hcol := congrArg (DataFrame.column? · key) h
    simp only [filledFrame_column?, ← hkeys, hkey, if_true] at hcol
    exact Option.some.inj hcol
  · intro h
    apply DataFrame.ext
    · simp only [filledFrame, DataFrame.ofKeys, hkeys, hlen]
    · simp only [filledFrame, DataFrame.ofKeys, ← hkeys]
      exact List.map_congr_left h

/-- Two columns of parsed lines are the same when their dtypes are and their cells are. -/
theorem filledColumn_eq_iff {lines : List Bytes} {schema : Option Schema} {f g : Bytes → Row}
    (key : Bytes) :
    filledColumn (lines.map f) schema key = filledColumn (lines.map g) schema key ↔
      InferredType.dtype (inferredType (lines.map f) key (schema.bind (·[key]?))) =
          InferredType.dtype (inferredType (lines.map g) key (schema.bind (·[key]?))) ∧
        ∀ line ∈ lines,
          filledCell (inferredType (lines.map f) key (schema.bind (·[key]?))) (f line)[key]? =
            filledCell (inferredType (lines.map g) key (schema.bind (·[key]?))) (g line)[key]? := by
  have hdata : ∀ f : Bytes → Row, (filledColumn (lines.map f) schema key).data =
      (key, InferredType.dtype (inferredType (lines.map f) key (schema.bind (·[key]?))),
        lines.map fun line =>
          filledCell (inferredType (lines.map f) key (schema.bind (·[key]?))) (f line)[key]?) := by
    intro f
    simp only [filledColumn, Column.data, Column.ofMap, List.map_map]
    rfl
  constructor
  · intro h
    have hsame := congrArg Column.data h
    rw [hdata, hdata] at hsame
    obtain ⟨-, hsame⟩ := Prod.mk.inj hsame
    obtain ⟨hdtype, hcells⟩ := Prod.mk.inj hsame
    exact ⟨hdtype, List.map_inj_left.mp hcells⟩
  · rintro ⟨hdtype, hcells⟩
    apply Column.data_injective
    rw [hdata, hdata, hdtype, List.map_congr_left hcells]

/-! ## The condition -/

/-- The values of a key in the lines. -/
def keyValues (lines : List Bytes) (key : Bytes) : List Bytes :=
  lines.filterMap fun line => rawValue line key

/-- The values of a key the first line does not have make a column of strings, each its own
text: none is a time, one at least is a duration or a word, and printing an inferred value
gives the text it was inferred from. -/
structure ReadAsText (values : List Bytes) : Prop where
  noTime : ∀ v ∈ values, (inferType v).field ≠ .dateTime
  someText : ∃ v ∈ values, (inferType v).field = .duration ∨ (inferType v).field = .string
  printed : ∀ v ∈ values, (inferType v).asString = v

/-- The values of every key survive the detour of a cursor. -/
def DetourFree : List Bytes → Prop
  | [] => True
  | first :: lines => ∀ key, keyValues (first :: lines) key ≠ [] →
      match rawValue first key with
      | some value => ∀ v ∈ keyValues (first :: lines) key, KeepsCell (inferType value).field v
      | none => ReadAsText (keyValues (first :: lines) key)

/-! ## One column -/

omit [Crates] in
theorem mem_keyValues {lines : List Bytes} {key value : Bytes} :
    value ∈ keyValues lines key ↔ ∃ line ∈ lines, rawValue line key = some value :=
      List.mem_filterMap

omit [Crates] in
theorem keyValues_ne_nil {lines : List Bytes} {key : Bytes} :
    keyValues lines key ≠ [] ↔ ∃ line ∈ lines, key ∈ lineKeys line := by
  rw [Ne, keyValues, List.filterMap_eq_nil_iff]
  push Not
  refine exists_congr fun line => and_congr_right fun _ => ?_
  rw [← Option.isSome_iff_ne_none, rawValue, lastValue_isSome, lineKeys]

/-- A column the schema lists has the type it says. -/
theorem inferredType_listed (rows : List Row) (key : Bytes) {field : SchemaField}
    (hfield : field ≠ .auto) :
    inferredType rows key (some field) = some (schemaType (some field)) := by
  cases field with
  | auto => exact absurd rfl hfield
  | _ => rfl

theorem hasKind_parsed {lines : List Bytes} {key : Bytes} {kind : SchemaField} :
    hasKind (lines.map parseLogfmtLine) key kind = true ↔
      ∃ v ∈ keyValues lines key, (inferType v).field = kind := by
  rw [hasKind, List.any_eq_true]
  constructor
  · rintro ⟨row, hrow, hkind⟩
    obtain ⟨line, hline, rfl⟩ := List.mem_map.mp hrow
    rw [getElem?_parseLogfmtLine] at hkind
    cases hv : rawValue line key with
    | none =>
      rw [hv] at hkind
      cases hkind
    | some v =>
      rw [hv] at hkind
      exact ⟨v, mem_keyValues.mpr ⟨line, hline, hv⟩, by simpa using hkind⟩
  · rintro ⟨v, hv, hkind⟩
    obtain ⟨line, hline, hraw⟩ := mem_keyValues.mp hv
    refine ⟨_, List.mem_map_of_mem hline, ?_⟩
    rw [getElem?_parseLogfmtLine, hraw]
    simpa using hkind

/-- When the inferred values of a key make a column of strings. -/
theorem dtype_inferred_iff {lines : List Bytes} {key : Bytes} (hne : keyValues lines key ≠ []) :
    InferredType.dtype (inferredType (lines.map parseLogfmtLine) key none) = .string ↔
      (∀ v ∈ keyValues lines key, (inferType v).field ≠ .dateTime) ∧
        ∃ v ∈ keyValues lines key, (inferType v).field = .duration ∨
          (inferType v).field = .string := by
  obtain ⟨v, hv⟩ := List.exists_mem_of_ne_nil _ hne
  have hkind := fun kind => @hasKind_parsed _ lines key kind
  have htime : (∀ v ∈ keyValues lines key, (inferType v).field ≠ .dateTime) ↔
      ¬ hasKind (lines.map parseLogfmtLine) key .dateTime = true := by
    rw [hkind]
    push Not
    rfl
  have htext : (∃ v ∈ keyValues lines key,
      (inferType v).field = .duration ∨ (inferType v).field = .string) ↔
      hasKind (lines.map parseLogfmtLine) key .duration = true ∨
        hasKind (lines.map parseLogfmtLine) key .string = true := by
    rw [hkind, hkind, ← exists_or]
    exact exists_congr fun v => and_or_left
  -- some value is of some kind
  have hsome : hasKind (lines.map parseLogfmtLine) key (inferType v).field = true :=
    (hkind _).mpr ⟨v, hv, rfl⟩
  rw [htime, htext]
  unfold inferredType
  simp only
  split
  · rename_i h
    exact iff_of_false (by decide) fun hnot => hnot.1 h
  · rename_i h
    rw [and_iff_right h]
    split
    · rename_i h
      exact iff_of_true rfl (.inl h)
    · rename_i hd
      split
      · rename_i h
        exact iff_of_true rfl (.inr h)
      · rename_i hs
        refine iff_of_false ?_ (not_or.mpr ⟨hd, hs⟩)
        split
        · decide
        · split
          · decide
          · split
            · decide
            · rename_i hf hi hb
              cases hfield : (inferType v).field with
              | auto => exact absurd hfield (field_ne_auto _)
              | _ => simp_all

theorem filledCell_of_dtype {type : Option InferredType} (h : InferredType.dtype type = .string)
    (value : Option ParsedValue) : filledCell type value = .string (stringCell value) := by
  cases type with
  | none => rfl
  | some type =>
    cases type with
    | string => rfl
    | duration => rfl
    | _ => cases h

/-- The column of a key whose type the first line gives. -/
theorem column_listed_iff {lines : List Bytes} {schema : Schema} {key : Bytes} {field : SchemaField}
    (hschema : schema[key]? = some field) (hfield : field ≠ .auto) :
    filledColumn (lines.map parseLogfmtLine) (some schema) key =
        filledColumn (schemaRows schema lines) (some schema) key ↔
      ∀ v ∈ keyValues lines key, KeepsCell field v := by
  unfold schemaRows
  rw [filledColumn_eq_iff, Option.bind_some, hschema, inferredType_listed _ _ hfield,
    inferredType_listed _ _ hfield, and_iff_right rfl]
  constructor
  · intro h v hv
    obtain ⟨line, hline, hraw⟩ := mem_keyValues.mp hv
    have hsame := h line hline
    rw [getElem?_parseLogfmtLine, getElem?_schemaRow, hschema, hraw] at hsame
    exact (detourCell_eq_iff field v).mp hsame
  · intro h line hline
    rw [getElem?_parseLogfmtLine, getElem?_schemaRow, hschema]
    cases hraw : rawValue line key with
    | none => rfl
    | some v => exact (detourCell_eq_iff field v).mpr (h v (mem_keyValues.mpr ⟨line, hline, hraw⟩))

/-- The column of a key the first line does not have. -/
theorem column_open_iff {lines : List Bytes} {schema : Schema} {key : Bytes}
    (hschema : schema[key]? = none) (hne : keyValues lines key ≠ []) :
    filledColumn (lines.map parseLogfmtLine) (some schema) key =
        filledColumn (schemaRows schema lines) (some schema) key ↔
      ReadAsText (keyValues lines key) := by
  obtain ⟨line, hline, hkey⟩ := keyValues_ne_nil.mp hne
  have htype := inferredType_schemaRows schema hline hkey
  have hdtype := dtype_inferred_iff hne
  unfold schemaRows at htype ⊢
  rw [filledColumn_eq_iff, Option.bind_some, htype, hschema,
    show InferredType.dtype (some (schemaType none)) = .string from rfl]
  constructor
  · rintro ⟨hstring, hcells⟩
    obtain ⟨hno, hsome⟩ := hdtype.mp hstring
    refine ⟨hno, hsome, fun v hv => ?_⟩
    obtain ⟨l, hl, hraw⟩ := mem_keyValues.mp hv
    have hsame := hcells l hl
    rw [filledCell_of_dtype hstring, getElem?_parseLogfmtLine, getElem?_schemaRow, hschema, hraw]
      at hsame
    exact AnyValue.string.inj hsame
  · intro h
    have hstring := hdtype.mpr ⟨h.noTime, h.someText⟩
    refine ⟨hstring, fun l hl => ?_⟩
    rw [filledCell_of_dtype hstring, getElem?_parseLogfmtLine, getElem?_schemaRow, hschema]
    cases hraw : rawValue l key with
    | none => rfl
    | some v =>
      have hprinted := h.printed v (mem_keyValues.mpr ⟨l, hl, hraw⟩)
      exact congrArg AnyValue.string hprinted

/-- Both ways make the same frame of some lines exactly when the values survive the detour. -/
theorem firstFrame_eq_iff (lines : List Bytes) :
    firstFrame none lines = firstFrame (lines.head?.map lineSchema) lines ↔ DetourFree lines := by
  cases lines with
  | nil => exact iff_of_true rfl trivial
  | cons first lines =>
    unfold firstFrame DetourFree
    simp only [List.head?_cons, Option.map_some, Option.getD_none, Option.getD_some,
      Option.some.injEq]
    rw [filledFrame_eq_iff _ (rowKeys_parsed _ _ _) (by simp)]
    apply forall_congr'
    intro key
    rw [mem_rowKeys, exists_row_parsed, ← keyValues_ne_nil]
    apply imp_congr_right
    intro hne
    have hschema := getElem?_lineSchema first key
    cases hraw : rawValue first key with
    | some value =>
      rw [hraw] at hschema
      exact column_listed_iff hschema (field_ne_auto _)
    | none =>
      rw [hraw] at hschema
      exact column_open_iff hschema hne

/-! ## The two sources -/

omit [Crates] in
/-- A file that fits into one frame is one frame, and the search does not touch the probe. -/
theorem framesFromSeekable_small {file : SeekableVfsFile}
    (hsize : file.size = .ok file.content.length) (hne : file.content ≠ [])
    (htable : file.seekTableDecompFrames = none) (hsmall : file.content.length ≤ maxFrameSize)
    (probe : Handle) :
    framesFromSeekable file probe =
      (some [{ idx := 0, start := 0, len := file.content.length }], probe) := by
  have hpos := List.length_pos_of_ne_nil hne
  have hlast : ¬ 0 + maxFrameSize < file.content.length := by omega
  rw [framesFromSeekable_plain hsize hpos htable, framesFrom, dif_pos hpos]
  simp only [frameEnd_last hlast]
  rw [framesFrom, dif_neg (Nat.lt_irrefl _)]
  rfl

omit [Crates] in
/-- The chunks hold frames of the list. -/
theorem subset_of_mem_workerChunks {frames : List FrameRange} {workers : Nat}
    {chunk : Nat × List FrameRange} (h : chunk ∈ LazyLogFmtReader.workerChunks frames workers) :
    chunk.2 ⊆ frames := by
  unfold LazyLogFmtReader.workerChunks at h
  obtain ⟨w, -, rfl⟩ := List.mem_map.mp h
  exact fun _ hmem => List.drop_subset _ _ (List.take_subset _ _ hmem)

/-- The first batch of a cursor: nothing is known of the types before the lines are parsed. -/
theorem nextBatch_cursor {text : Bytes}
    (hvalid : ∀ line ∈ Lines.split newline text, checkLine line = .ok line) (sched : Schedule) :
    (({ source := .cursor text } : LazyLogFmtReader).wrrapNextBatch {} sched {}).1 =
      .ok (firstFrame none (acceptedLines none text)) :=
  @singleBatch_valid _ { source := .cursor text } text rfl hvalid rfl rfl none none rfl

section

variable {file : SeekableVfsFile}

/-- The attempt on a file that fits into one frame makes no frame, but infers the schema of the
first accepted line. -/
theorem parallelBatch_small {self : LazyLogFmtReader} (hsource : self.source = .seekable file)
    (ha : self.alignedColsCnt = false) (hn : self.inferSchemaLength = 1) (hfile : file.Sound)
    (hsize : file.size = .ok file.content.length) (htable : file.seekTableDecompFrames = none)
    (hsmall : file.content.length ≤ maxFrameSize)
    (hvalid : ∀ line ∈ Lines.split newline file.content, checkLine line = .ok line)
    (sched : Schedule) :
    self.parallelBatch {} none sched =
      ((acceptedLines self.lineFilter file.content).head?.map lineSchema, .ok none) := by
  obtain ⟨probe, hprobe, hs⟩ := hfile .frames
  obtain ⟨hcontent, hpos⟩ := SeekableVfsFile.content_cloneHandle hprobe
  by_cases hempty : file.content = []
  · have hframes : framesFromSeekable file probe = (none, probe) := by
      unfold framesFromSeekable
      simp only [htable, hsize, hempty, List.length_nil, if_true]
    have horigin : self.parallelOrigin = none := by
      unfold LazyLogFmtReader.parallelOrigin
      rw [hsource]
      simp only [hprobe, hframes]
    unfold LazyLogFmtReader.parallelBatch
    rw [horigin, hempty]
    rfl
  · have hframes := framesFromSeekable_small hsize hempty htable hsmall probe
    have horigin : self.parallelOrigin =
        some (.file file, [{ idx := 0, start := 0, len := file.content.length }],
          .ofBytes file.content) := by
      unfold LazyLogFmtReader.parallelOrigin
      rw [hsource]
      simp only [hprobe, hframes]
      rw [Handle.lineReader_sound hs, hcontent, hpos, List.drop_zero]
    have hread : ∀ chunk ∈ self.chunks [{ idx := 0, start := 0, len := file.content.length }],
        (FrameOrigin.chunkLines (.file file) self.lineFilter chunk).2 = none := by
      intro chunk hchunk
      have hs' : FrameOrigin.Sound (.file file) := hfile
      rw [FrameOrigin.chunkLines_err hs']
      apply if_pos
      intro range hrange
      obtain rfl := List.mem_singleton.mp (subset_of_mem_workerChunks hchunk hrange)
      have htext : FrameOrigin.frameText (.file file)
          { idx := 0, start := 0, len := file.content.length } = file.content := by
        rw [FrameOrigin.frameText, List.drop_zero, List.take_length]
      intro line hline
      rw [htext] at hline
      exact checkLine_valid.mp (hvalid line hline)
    have hpred : (if (none : Option Schema).isNone then
        self.predictSchemaFromHandle (.ofBytes file.content) self.inferSchemaLength else .ok none) =
        .ok ((acceptedLines self.lineFilter file.content).head?.map lineSchema) := by
      simp only [Option.isNone_none, if_true]
      rw [predictSchemaFromHandle_eq, inferFromText_one hn hvalid]
      rfl
    have hattempt : self.parallelBatch {} none sched =
        (none.or ((acceptedLines self.lineFilter file.content).head?.map lineSchema),
          .ok none) :=
      parallelBatch_unaligned ha rfl horigin hread hpred sched
    rwa [Option.none_or] at hattempt

/-- The first batch of such a file is parsed under that schema. -/
theorem nextBatch_file (hfile : file.Sound) (hsize : file.size = .ok file.content.length)
    (htable : file.seekTableDecompFrames = none) (hsmall : file.content.length ≤ maxFrameSize)
    (hvalid : ∀ line ∈ Lines.split newline file.content, checkLine line = .ok line)
    (sched : Schedule) :
    (({ source := .seekable file } : LazyLogFmtReader).wrrapNextBatch {} sched {}).1 =
      .ok (firstFrame ((acceptedLines none file.content).head?.map lineSchema)
        (acceptedLines none file.content)) := by
  have hattempt := @parallelBatch_small _ file { source := .seekable file } rfl rfl rfl hfile
    hsize htable hsmall hvalid sched
  simp only at hattempt
  have hpred : (if ((acceptedLines none file.content).head?.map lineSchema).isNone then
      ({ source := .seekable file } : LazyLogFmtReader).predictSchemaFromFirstLine 1
        else .ok none) =
      .ok none := by
    split
    · rename_i hnone
      rw [@predictSchema_infers _ { source := .seekable file } file rfl hfile hsize,
        inferFromText_one rfl hvalid]
      exact congrArg Except.ok (Option.isNone_iff_eq_none.mp hnone)
    · rfl
  have hbatch := @singleBatch_valid _ { source := .seekable file } file.content ⟨rfl, hfile⟩ hvalid
    rfl rfl _ _ hpred
  rw [Option.or_none] at hbatch
  unfold LazyLogFmtReader.wrrapNextBatch
  simp only [Bool.false_eq_true, if_false, Option.isNone_none, and_self, if_true, hattempt,
    Option.or_none]
  exact hbatch

end

/-- The first frame pulled from a cursor is that pulled from a file with the same text exactly
when the values survive the detour of the cursor. -/
theorem pulledFrames_iff {text : Bytes} (hvalid : Utf8.Valid text) {file : SeekableVfsFile}
    (hcontent : file.content = text) (hfile : file.Sound) (hsize : file.size = .ok text.length)
    (htable : file.seekTableDecompFrames = none) (hsmall : text.length ≤ maxFrameSize)
    (sched sched' : Schedule) :
    (({ source := .cursor text } : LazyLogFmtReader).wrrapNextBatch {} sched {}).1 =
        (({ source := .seekable file } : LazyLogFmtReader).wrrapNextBatch {} sched' {}).1 ↔
      DetourFree (acceptedLines none text) := by
  subst hcontent
  have hlines : ∀ line ∈ Lines.split newline file.content, checkLine line = .ok line := by
    intro line hline
    exact if_pos (Utf8.valid_of_mem_split (d := '\n') (by decide) hvalid hline)
  rw [nextBatch_cursor hlines, nextBatch_file hfile hsize htable hsmall hlines,
    ← firstFrame_eq_iff]
  constructor
  · intro h
    exact Except.ok.inj h
  · intro h
    rw [h]

end

section

attribute [local instance] smallCrates

/-- A file with the text. -/
def fileOf (text : Bytes) : SeekableVfsFile :=
  { content := text
    size := .ok text.length
    seekTableDecompFrames := none
    replies := fun _ => .ok [] }

theorem fileOf_sound (text : Bytes) : (fileOf text).Sound :=
  fun _ => ⟨_, rfl, fun _ => List.not_mem_nil⟩

theorem pulledFrames_integers :
    (({ source := .cursor (Utf8.ofString "a=1\na=2\n") } : LazyLogFmtReader).wrrapNextBatch
          {} {} {}).1 =
        (({ source := .seekable (fileOf (Utf8.ofString "a=1\na=2\n")) } :
          LazyLogFmtReader).wrrapNextBatch {} {} {}).1 ↔
      DetourFree (acceptedLines none (Utf8.ofString "a=1\na=2\n")) :=
  pulledFrames_iff (by decide +kernel) rfl (fileOf_sound _) rfl rfl (by decide +kernel) {} {}

/-- `a=x` and `a=007`: the cursor infers 7 and prints it, the file reads 007. -/
def paddedText : Bytes := Utf8.ofString "a=x\na=007\n"

theorem pulledFrames_counterexample : Utf8.Valid paddedText ∧
    (({ source := .cursor paddedText } : LazyLogFmtReader).wrrapNextBatch {} {} {}).1 ≠
      (({ source := .seekable (fileOf paddedText) } : LazyLogFmtReader).wrrapNextBatch {} {}
      {}).1 := by
  have hvalid : ∀ line ∈ Lines.split newline paddedText, checkLine line = .ok line := by
    decide +kernel
  refine ⟨by decide +kernel, fun h => ?_⟩
  rw [nextBatch_cursor hvalid, @nextBatch_file _ (fileOf paddedText) (fileOf_sound _) rfl rfl
    (by decide +kernel) hvalid] at h
  have hfree := (firstFrame_eq_iff _).mp (Except.ok.inj h)
  have hlines : acceptedLines none paddedText =
      [Utf8.ofString "a=x\n", Utf8.ofString "a=007\n"] := by decide +kernel
  rw [hlines] at hfree
  have hfirst : rawValue (Utf8.ofString "a=x\n") (Utf8.ofString "a") =
    some (Utf8.ofString "x") := by
    decide +kernel
  have hkey := hfree (Utf8.ofString "a") (by decide +kernel)
  rw [hfirst] at hkey
  have hkeeps := hkey (Utf8.ofString "007") (by decide +kernel)
  have hinfer : inferType (Utf8.ofString "007") = .integer 7 := by decide +kernel
  have hfield : (inferType (Utf8.ofString "x")).field = .string := by decide +kernel
  rw [KeepsCell, hinfer, hfield] at hkeeps
  have hprinted : i64ToString 7 ≠ Utf8.ofString "007" := by decide +kernel
  exact hprinted hkeeps

end

end PolarsLogfmt
