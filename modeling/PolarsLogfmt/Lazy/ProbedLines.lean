import PolarsLogfmt.Misc.MergeMaps
import PolarsLogfmt.Lazy.InferText

/-!
# The lines a schema is inferred from

`infer_schema_from_reader` takes lines up to the last one it needs, and its schema is the
merge of the schemas of those it accepts. The fields of a schema are ordered by
`merge_schema_field`, which is their join.
-/

namespace PolarsLogfmt

/-! ## The order of the fields -/

instance : SemilatticeSup SchemaField :=
  letI : Max SchemaField := ⟨mergeSchemaField⟩
  SemilatticeSup.mk'
    (fun a b => by cases a <;> cases b <;> rfl)
    (fun a b c => by cases a <;> cases b <;> cases c <;> rfl)
    (fun a => by cases a <;> rfl)

theorem SchemaField.sup_eq (a b : SchemaField) : a ⊔ b = mergeSchemaField a b := rfl

/-- A field goes up to String, and Integer to Float. -/
theorem SchemaField.le_iff {a b : SchemaField} :
    a ≤ b ↔ a = b ∨ (a = .integer ∧ b = .float) ∨ b = .string := by
  rw [← sup_eq_right, sup_eq]
  cases a <;> cases b <;> decide

theorem mergeSchema_eq (merged rowSchema : Schema) :
    mergeSchema merged rowSchema = MergeMaps.merge merged rowSchema := by
  unfold mergeSchema MergeMaps.merge
  congr 1
  funext merged kv
  obtain ⟨k, v⟩ := kv
  dsimp only
  congr 1
  funext seen
  cases seen with
  | none => rfl
  | some seen => rfl

/-! ## The lines taken -/

/-- The lines before the first error. -/
def linesBeforeError : List (Except IoError Bytes) → List Bytes
  | .ok line :: lines => line :: linesBeforeError lines
  | _ => []

theorem linesBeforeError_append (lines : List Bytes) (rest : List (Except IoError Bytes)) :
    linesBeforeError (lines.map .ok ++ rest) = lines ++ linesBeforeError rest := by
  induction lines with
  | nil => rfl
  | cons line lines ih =>
    rw [List.map_cons, List.cons_append, linesBeforeError, ih]
    rfl

/-- The lines a schema is inferred from: the first `n` accepted ones. -/
def LineReader.probedLines (reader : LineReader) (lineFilter : Option LineFilterFn) (n : Nat) :
    List Bytes :=
  ((linesBeforeError reader.lines).filter (accepts lineFilter)).take n

variable [Crates]

section

variable {lineFilter : Option LineFilterFn}

/-- The schema of some lines: none when there is no line. -/
def schemaOfLines (lines : List Bytes) : Option Schema :=
  if lines = [] then none else some (MergeMaps.mergeAll (lines.map lineSchema))

theorem schemaOfLines_concat (lines : List Bytes) (line : Bytes) :
    schemaOfLines (lines ++ [line]) = some ((schemaOfLines lines).elim (lineSchema line)
      fun merged => mergeSchema merged (lineSchema line)) := by
  unfold schemaOfLines
  rw [if_neg (by simp), List.map_append, MergeMaps.mergeAll, List.foldl_append]
  by_cases hnil : lines = []
  · rw [if_pos hnil, hnil]
    congr 1
    apply Std.ExtTreeMap.ext_getElem?
    intro k
    show (MergeMaps.merge ∅ (lineSchema line))[k]? = _
    rw [MergeMaps.getElem?_merge]
    simp
  · rw [if_neg hnil, Option.elim_some, mergeSchema_eq]
    rfl

theorem InferState.foldl_schema (lines : List Bytes) {st : InferState} {seen : List Bytes}
    (hst : st.schema = schemaOfLines seen) :
    (lines.foldl (InferState.takeLine lineFilter) st).schema =
      schemaOfLines (seen ++ lines.filter (accepts lineFilter)) := by
  induction lines generalizing st seen with
  | nil => rw [List.filter_nil, List.append_nil, List.foldl_nil, hst]
  | cons line lines ih =>
    rw [List.foldl_cons]
    by_cases hacc : accepts lineFilter line
    · have hline : (st.takeLine lineFilter line).schema = schemaOfLines (seen ++ [line]) := by
        rw [schemaOfLines_concat, ← hst]
        simp only [InferState.takeLine, hacc, if_true]
        cases st.schema with
        | none => rfl
        | some merged => rfl
      rw [ih hline, List.filter_cons_of_pos hacc, List.append_assoc]
      rfl
    · have hline : (st.takeLine lineFilter line).schema = schemaOfLines seen := by
        rw [← hst]
        simp only [InferState.takeLine, hacc, Bool.false_eq_true, if_false]
      rw [ih hline, List.filter_cons_of_neg hacc]

/-- What `infer_schema_from_reader` has taken when it succeeds. -/
theorem inferSchemaFromReader_taken {reader rest : LineReader} {n : Nat} {schema : Option Schema}
    {consumed : Bytes}
    (h : inferSchemaFromReader reader lineFilter n = (.ok (schema, consumed), rest)) :
    ∃ taken : List Bytes, reader.lines = taken.map .ok ++ rest.lines ∧ rest.stuck = reader.stuck ∧
      consumed = taken.flatten ∧ schema = schemaOfLines (taken.filter (accepts lineFilter)) ∧
      (n ≤ (taken.filter (accepts lineFilter)).length ∨ rest.lines = []) ∧
      ∀ init last, taken = init ++ [last] → (init.filter (accepts lineFilter)).length < n := by
  unfold inferSchemaFromReader at h
  cases hloop : inferLoop lineFilter n reader.stuck reader.lines {} with
  | mk result left =>
    rw [hloop] at h
    cases result with
    | error e => cases h
    | ok out =>
      cases h
      obtain ⟨taken, hlines, hout, hend, hneed⟩ := inferLoop_taken hloop
      have hrows := @InferState.foldl_rows _ lineFilter
      refine ⟨taken, hlines, rfl, ?_, ?_, ?_, ?_⟩
      · rw [hout, InferState.foldl_consumed]
        rfl
      · rw [hout, @InferState.foldl_schema _ lineFilter taken {} [] rfl]
        rfl
      · rw [hout, hrows, Nat.zero_add] at hend
        exact hend
      · intro init last htaken
        have := hneed init last htaken
        rwa [hrows, Nat.zero_add] at this

omit [Crates] in
/-- The accepted lines among them are the probed lines. -/
theorem probedLines_taken {reader : LineReader} {rest : List (Except IoError Bytes)} {n : Nat}
    {taken : List Bytes} (hlines : reader.lines = taken.map .ok ++ rest)
    (hend : n ≤ (taken.filter (accepts lineFilter)).length ∨ rest = [])
    (hneed : ∀ init last, taken = init ++ [last] → (init.filter (accepts lineFilter)).length < n) :
    reader.probedLines lineFilter n = taken.filter (accepts lineFilter) := by
  have hle : (taken.filter (accepts lineFilter)).length ≤ n := by
    rcases List.eq_nil_or_concat taken with rfl | ⟨init, last, rfl⟩
    · exact Nat.zero_le n
    · rw [List.concat_eq_append] at hneed ⊢
      have hinit := hneed init last rfl
      have hlast : ([last].filter (accepts lineFilter)).length ≤ 1 := List.length_filter_le _ _
      rw [List.filter_append, List.length_append]
      omega
  unfold LineReader.probedLines
  rw [hlines, linesBeforeError_append, List.filter_append]
  rcases hend with hfull | rfl
  · exact List.take_left' (Nat.le_antisymm hle hfull)
  · rw [show linesBeforeError [] = [] from rfl, List.filter_nil, List.append_nil,
      List.take_of_length_le hle]

/-- The schema of a successful inference. -/
theorem schema_inferSchemaFromReader {reader rest : LineReader} {n : Nat} {schema : Option Schema}
    {consumed : Bytes}
    (h : inferSchemaFromReader reader lineFilter n = (.ok (schema, consumed), rest)) :
    schema = schemaOfLines (reader.probedLines lineFilter n) := by
  obtain ⟨taken, hlines, -, -, hschema, hend, hneed⟩ := inferSchemaFromReader_taken h
  rw [probedLines_taken hlines hend hneed]
  exact hschema

end

end PolarsLogfmt
