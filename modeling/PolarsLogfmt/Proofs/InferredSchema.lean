import PolarsLogfmt.Lazy.ProbedLines

/-!
# The inferred schema

The schema of the probed lines is the join of the types they show, and a probed line is read
under it without losing a value.
-/

namespace PolarsLogfmt

section

variable [Crates]

open Crates

/-! ## The join of the lines -/

/-- The types some lines show for a key. -/
def typesShown (lines : List Bytes) (key : Bytes) : Set SchemaField :=
  {field | ∃ line ∈ lines, ∃ value, rawValue line key = some value ∧
  (inferType value).field = field}

/-- The field of a key in a schema that may be missing. -/
def fieldIn (schema : Option Schema) (key : Bytes) : Option SchemaField := schema.bind (·[key]?)

theorem valuesAt_lineSchema (lines : List Bytes) (key : Bytes) :
    MergeMaps.valuesAt (lines.map lineSchema) key = typesShown lines key := by
  ext field
  constructor
  · rintro ⟨schema, hschema, hfield⟩
    obtain ⟨line, hline, rfl⟩ := List.mem_map.mp hschema
    rw [getElem?_lineSchema] at hfield
    obtain ⟨value, hvalue, hfield⟩ := Option.map_eq_some_iff.mp hfield
    exact ⟨line, hline, value, hvalue, hfield⟩
  · rintro ⟨line, hline, value, hvalue, hfield⟩
    refine ⟨lineSchema line, List.mem_map_of_mem hline, ?_⟩
    rw [getElem?_lineSchema, hvalue, Option.map_some, hfield]

theorem fieldIn_schemaOfLines (lines : List Bytes) (key : Bytes) :
    fieldIn (schemaOfLines lines) key = (MergeMaps.mergeAll (lines.map lineSchema))[key]? := by
  unfold fieldIn schemaOfLines
  by_cases hnil : lines = []
  · rw [if_pos hnil, hnil]
    exact Std.ExtTreeMap.getElem?_empty.symm
  · rw [if_neg hnil]
    rfl

theorem fieldIn_isSome {lines : List Bytes} {key : Bytes} :
    (fieldIn (schemaOfLines lines) key).isSome ↔ ∃ line ∈ lines, key ∈ lineKeys line := by
  rw [fieldIn_schemaOfLines, ← Std.ExtTreeMap.mem_iff_isSome_getElem?, MergeMaps.mem_mergeAll]
  constructor
  · rintro ⟨schema, hschema, hkey⟩
    obtain ⟨line, hline, rfl⟩ := List.mem_map.mp hschema
    exact ⟨line, hline, mem_lineSchema.mp hkey⟩
  · rintro ⟨line, hline, hkey⟩
    exact ⟨lineSchema line, List.mem_map_of_mem hline, mem_lineSchema.mpr hkey⟩

theorem isLUB_fieldIn {lines : List Bytes} {key : Bytes} {field : SchemaField}
    (h : fieldIn (schemaOfLines lines) key = some field) : IsLUB (typesShown lines key) field := by
  rw [fieldIn_schemaOfLines] at h
  rw [← valuesAt_lineSchema]
  exact MergeMaps.isLUB_mergeAll h

/-- Lines in another order have the same schema. -/
theorem schemaOfLines_perm {lines lines' : List Bytes} (h : lines.Perm lines') :
    schemaOfLines lines = schemaOfLines lines' := by
  unfold schemaOfLines
  have hnil : lines = [] ↔ lines' = [] := by
    rw [← List.length_eq_zero_iff, h.length_eq, List.length_eq_zero_iff]
  rw [MergeMaps.mergeAll_congr fun schema => (h.map lineSchema).mem_iff]
  simp only [hnil]

/-- More lines raise the fields. -/
theorem fieldIn_mono {lines lines' : List Bytes} (h : lines ⊆ lines') {key : Bytes}
    {field : SchemaField} (hfield : fieldIn (schemaOfLines lines) key = some field) :
    ∃ field', fieldIn (schemaOfLines lines') key = some field' ∧ field ≤ field' := by
  rw [fieldIn_schemaOfLines] at hfield ⊢
  exact MergeMaps.mergeAll_mono (List.map_subset lineSchema h) hfield

/-- The schema `infer_schema_from_reader` returns has the keys of the probed lines, each with
the join of the types they show; it is the same for every order of these lines, and further
lines only add keys or raise types. -/
theorem inferSchemaFromReader_join {reader rest : LineReader} {lineFilter : Option LineFilterFn}
    {n : Nat} {schema : Option Schema} {consumed : Bytes}
    (h : inferSchemaFromReader reader lineFilter n = (.ok (schema, consumed), rest)) :
    (∀ key, (fieldIn schema key).isSome ↔
      ∃ line ∈ reader.probedLines lineFilter n, key ∈ lineKeys line) ∧
    (∀ key field, fieldIn schema key = some field →
      IsLUB (typesShown (reader.probedLines lineFilter n) key) field) ∧
    ∀ (reader' rest' : LineReader) (lineFilter' : Option LineFilterFn) (n' : Nat)
      (schema' : Option Schema) (consumed' : Bytes),
      inferSchemaFromReader reader' lineFilter' n' = (.ok (schema', consumed'), rest') →
        ((reader.probedLines lineFilter n).Perm (reader'.probedLines lineFilter' n') →
          schema' = schema) ∧
        (reader.probedLines lineFilter n ⊆ reader'.probedLines lineFilter' n' →
          ∀ key field, fieldIn schema key = some field →
            ∃ field', fieldIn schema' key = some field' ∧ field ≤ field') := by
  rw [schema_inferSchemaFromReader h]
  refine ⟨fun key => fieldIn_isSome, fun key field => isLUB_fieldIn, ?_⟩
  intro reader' rest' lineFilter' n' schema' consumed' h'
  rw [schema_inferSchemaFromReader h']
  exact ⟨fun hperm => (schemaOfLines_perm hperm).symm, fun hsub key field => fieldIn_mono hsub⟩

/-! ## Reading the probed lines -/

/-- Read as the type it has been inferred to be, a value is what was inferred. -/
theorem parseValueAs_inferred (value : Bytes) :
    parseValueAs (some (inferType value).field) value = inferType value := by
  unfold inferType
  cases hdt : parseFromRfc3339 value with
  | some dt => simp only [ParsedValue.field, parseValueAs, hdt]
  | none =>
    cases hi : i64FromStr value with
    | some i => simp only [ParsedValue.field, parseValueAs, hi, Option.getD_some]
    | none =>
      cases hdur : parseDuration value with
      | some dur => simp only [ParsedValue.field, parseValueAs, hdur]
      | none =>
        cases hf : f64FromStr value with
        | some f => simp only [ParsedValue.field, parseValueAs, hf, Option.getD_some]
        | none =>
          cases ht : isTrueWord value with
          | true => simp only [if_true, ParsedValue.field, parseValueAs, ht]
          | false =>
            cases hw : isFalseWord value with
            | true => simp only [Bool.false_eq_true, if_false, if_true, ParsedValue.field,
                parseValueAs, ht]
            | false => simp only [Bool.false_eq_true, if_false, ParsedValue.field, parseValueAs]

theorem i64FromStr_of_integer {value : Bytes} (h : (inferType value).field = .integer) :
    (i64FromStr value).isSome := by
  unfold inferType at h
  cases hdt : parseFromRfc3339 value with
  | some dt =>
    rw [hdt] at h
    cases h
  | none =>
    cases hi : i64FromStr value with
    | some i => rfl
    | none =>
      -- no later kind is an integer
      simp only [hdt, hi] at h
      split at h
      · cases h
      · split at h
        · cases h
        · split at h
          · cases h
          · split at h <;> cases h

/-- A probed value is read under the inferred schema as it was inferred, as the number it is
when integers were widened, or as its text; a value is never replaced by a default. -/
theorem inferSchemaFromReader_sound
    (hwiden : ∀ s, (i64FromStr s).isSome → (f64FromStr s).isSome)
    {reader rest : LineReader} {lineFilter : Option LineFilterFn} {n : Nat} {schema : Schema}
    {consumed : Bytes}
    (h : inferSchemaFromReader reader lineFilter n = (.ok (some schema, consumed), rest))
    {line : Bytes} (hline : line ∈ reader.probedLines lineFilter n) {key value : Bytes}
    (hvalue : rawValue line key = some value) :
    ∃ field, schema[key]? = some field ∧
      (field = (inferType value).field →
        (parseLogfmtLineWithSchema line (some schema))[key]? = some (inferType value)) ∧
      (field = .float → (inferType value).field = .integer →
        ∃ f, f64FromStr value = some f ∧
          (parseLogfmtLineWithSchema line (some schema))[key]? = some (.float f)) ∧
      (field ≠ (inferType value).field → ¬ (field = .float ∧ (inferType value).field = .integer) →
        (parseLogfmtLineWithSchema line (some schema))[key]? = some (.string value)) := by
  have hschema := schema_inferSchemaFromReader h
  have hkey : key ∈ lineKeys line := by
    rw [lineKeys, ← lastValue_isSome, ← rawValue, hvalue]
    rfl
  obtain ⟨field, hfield⟩ := Option.isSome_iff_exists.mp (fieldIn_isSome.mpr ⟨line, hline, hkey⟩)
  have hle : (inferType value).field ≤ field :=
    (isLUB_fieldIn hfield).1 ⟨line, hline, value, hvalue, rfl⟩
  rw [← hschema] at hfield
  have hfield : schema[key]? = some field := hfield
  have hrow : (parseLogfmtLineWithSchema line (some schema))[key]? =
      some (parseValueAs (some field) value) := by
    rw [getElem?_parseLogfmtLineWithSchema, hvalue, Option.map_some]
    simp only [typedValue, hfield]
  refine ⟨field, hfield, ?_, ?_, ?_⟩
  · rintro rfl
    rw [hrow, parseValueAs_inferred]
  · rintro rfl hint
    obtain ⟨f, hf⟩ := Option.isSome_iff_exists.mp (hwiden value (i64FromStr_of_integer hint))
    exact ⟨f, hf, by rw [hrow, parseValueAs, hf, Option.getD_some]⟩
  · intro hne hnot
    rcases SchemaField.le_iff.mp hle with heq | ⟨hint, hfloat⟩ | hstring
    · exact absurd heq.symm hne
    · exact absurd ⟨hfloat, hint⟩ hnot
    · rw [hrow, hstring]
      rfl

end

section

attribute [local instance] smallCrates

/-- The lines `a=1` and `a=x`. -/
def mixedReader : LineReader := .ofBytes (Utf8.ofString "a=1\na=x\n")

/-- A schema is inferred from both of them. -/
theorem mixedReader_inferred : ∃ schema consumed rest,
    inferSchemaFromReader mixedReader none 2 = (.ok (some schema, consumed), rest) := by
  have hsome : ((inferSchemaFromReader mixedReader none 2).1.toOption.bind Prod.fst).isSome := by
    decide +kernel
  cases hprobe : inferSchemaFromReader mixedReader none 2 with
  | mk result rest =>
    rw [hprobe] at hsome
    cases result with
    | error e => cases hsome
    | ok found =>
      obtain ⟨schema | schema, consumed⟩ := found
      · cases hsome
      · exact ⟨schema, consumed, rest, rfl⟩

theorem inferSchemaFromReader_join_mixed : ∃ schema,
    ((fieldIn schema (Utf8.ofString "a")).isSome ↔
      ∃ line ∈ mixedReader.probedLines none 2, Utf8.ofString "a" ∈ lineKeys line) := by
  obtain ⟨schema, consumed, rest, h⟩ := mixedReader_inferred
  exact ⟨some schema, (inferSchemaFromReader_join h).1 _⟩

theorem inferSchemaFromReader_sound_mixed : ∃ (schema : Schema) (field : SchemaField),
    schema[Utf8.ofString "a"]? = some field ∧
      (field = (inferType (Utf8.ofString "1")).field →
        (parseLogfmtLineWithSchema (Utf8.ofString "a=1\n") (some schema))[Utf8.ofString "a"]? =
          some (inferType (Utf8.ofString "1"))) := by
  obtain ⟨schema, consumed, rest, h⟩ := mixedReader_inferred
  have hline : Utf8.ofString "a=1\n" ∈ mixedReader.probedLines none 2 := by decide +kernel
  have hvalue : rawValue (Utf8.ofString "a=1\n") (Utf8.ofString "a") =
    some (Utf8.ofString "1") := by
    decide +kernel
  obtain ⟨field, hfield, hsame, -, -⟩ := inferSchemaFromReader_sound (fun s hs => hs) h hline hvalue
  exact ⟨schema, field, hfield, hsame⟩

end

end PolarsLogfmt
