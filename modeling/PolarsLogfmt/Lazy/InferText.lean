import PolarsLogfmt.Lazy.SourceTexts

/-!
# The schema of a text

`infer_schema_from_reader` on a text that is read from its start, and what it makes of
one line.
-/

namespace PolarsLogfmt

variable [Crates]

/-- `infer_schema_from_reader` on a text. -/
def inferFromText (self : LazyLogFmtReader) (text : Bytes) : Except IoError (Option Schema) :=
  (inferSchemaFromReader (.ofBytes text) self.lineFilter self.inferSchemaLength).1.map Prod.fst

/-- The schema inferred from a text, if there is one. -/
def inferredSchema (self : LazyLogFmtReader) (text : Bytes) : Option Schema :=
  (inferFromText self text).toOption.join

theorem inferFromText_nil (self : LazyLogFmtReader) : inferFromText self [] = .ok none := by
  unfold inferFromText inferSchemaFromReader
  rw [show (LineReader.ofBytes []).lines = [] from rfl, inferLoop.eq_def]
  simp only
  split <;> rfl

theorem predictSchemaFromHandle_eq (self : LazyLogFmtReader) (text : Bytes) :
    self.predictSchemaFromHandle (.ofBytes text) self.inferSchemaLength =
      (inferFromText self text).mapError .computeError := by
  unfold LazyLogFmtReader.predictSchemaFromHandle inferFromText
  cases (inferSchemaFromReader (.ofBytes text) self.lineFilter self.inferSchemaLength).1 <;> rfl

/-- The schema of a line. -/
def lineSchema (line : Bytes) : Schema := inferSchemaFromRow (parseLogfmtLine line)

theorem mem_lineSchema {line key : Bytes} : key ∈ lineSchema line ↔ key ∈ lineKeys line := by
  rw [lineSchema, inferSchemaFromRow, Std.ExtTreeMap.mem_map, parseLogfmtLine,
    mem_parseLogfmtLineWithSchema]

theorem getElem?_parseLogfmtLine (line key : Bytes) :
    (parseLogfmtLine line)[key]? = (rawValue line key).map inferType :=
  getElem?_parseLogfmtLineWithSchema line none key

/-- The schema of a line lists its keys with the types of their values. -/
theorem getElem?_lineSchema (line key : Bytes) :
    (lineSchema line)[key]? = (rawValue line key).map fun value => (inferType value).field := by
  rw [lineSchema, inferSchemaFromRow, Std.ExtTreeMap.getElem?_map, getElem?_parseLogfmtLine,
    Option.map_map]
  rfl

/-- With one line asked for, the loop stops after the first accepted one. -/
theorem inferLoop_one {lineFilter : Option LineFilterFn} (lines : List Bytes) {st : InferState}
    (hrows : st.rows = 0) (hschema : st.schema = none) :
    ∃ out rest, inferLoop lineFilter 1 none (lines.map .ok) st = (.ok out, rest) ∧
      out.schema = (lines.filter (accepts lineFilter)).head?.map lineSchema := by
  induction lines generalizing st with
  | nil =>
    rw [List.map_nil, inferLoop.eq_def]
    simp only [hrows, Nat.le_zero_eq, Nat.one_ne_zero, if_false]
    exact ⟨st, [], rfl, hschema⟩
  | cons line lines ih =>
    rw [List.map_cons, inferLoop.eq_def]
    simp only [hrows, Nat.le_zero_eq, Nat.one_ne_zero, if_false]
    by_cases hacc : accepts lineFilter line
    · rw [List.filter_cons_of_pos hacc, inferLoop.eq_def]
      simp only [InferState.takeLine, hacc, if_true, hrows, hschema, Nat.zero_add, Nat.le_refl]
      exact ⟨_, _, rfl, rfl⟩
    · rw [List.filter_cons_of_neg hacc]
      apply ih
      · simp only [InferState.takeLine, hacc, Bool.false_eq_true, if_false, hrows]
      · simp only [InferState.takeLine, hacc, Bool.false_eq_true, if_false, hschema]

omit [Crates] in
/-- Lines that are valid are all handed over. -/
theorem LineReader.ofBytes_valid {text : Bytes}
    (h : ∀ line ∈ Lines.split newline text, checkLine line = .ok line) :
    LineReader.ofBytes text = ⟨(Lines.split newline text).map .ok, none⟩ := by
  rw [ofBytes, textLines, List.map_congr_left h]

/-- One line asked for is the first accepted one. -/
theorem inferFromText_one {self : LazyLogFmtReader} (hn : self.inferSchemaLength = 1) {text : Bytes}
    (h : ∀ line ∈ Lines.split newline text, checkLine line = .ok line) :
    inferFromText self text =
      .ok (((Lines.split newline text).filter (accepts self.lineFilter)).head?.map lineSchema) := by
  obtain ⟨out, rest, hloop, hschema⟩ := @inferLoop_one _ self.lineFilter
    (Lines.split newline text) {} rfl rfl
  unfold inferFromText inferSchemaFromReader
  rw [LineReader.ofBytes_valid h, hn]
  simp only [hloop, Except.map, hschema]

end PolarsLogfmt
