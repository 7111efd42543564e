import PolarsLogfmt.Logfmt.Value
import PolarsLogfmt.Lazy.LineReader

/-!
# Schema inference

`infer_schema_from_row`, `merge_schema_field`, `infer_schema_from_reader` and
`logfmt_schema_to_polars_schema` of `lazy.rs`.
-/

namespace PolarsLogfmt

variable [Crates]

/-- `infer_schema_from_row`. -/
def inferSchemaFromRow (row : Row) : Schema := row.map fun _ value => value.field

/-- `merge_schema_field`. -/
def mergeSchemaField (a b : SchemaField) : SchemaField :=
  if a = b then a
  else
    match a, b with
    | .integer, .float | .float, .integer => .float
    | _, _ => .string

/-- The entries of a row's schema merged into the schema of the rows before it. -/
def mergeSchema (merged rowSchema : Schema) : Schema :=
  rowSchema.toList.foldl
    (fun merged (k, v) => merged.alter k fun
      | some seen => some (mergeSchemaField seen v)
      | none => some v)
    merged

/-- The state of `infer_schema_from_reader`. -/
structure InferState where
  schema : Option Schema := none
  rows : Nat := 0
  consumed : Bytes := []

/-- What the loop does with a line it has read. -/
def InferState.takeLine (lineFilter : Option LineFilterFn) (st : InferState) (line : Bytes) :
    InferState :=
  let st := { st with consumed := st.consumed ++ line }
  if accepts lineFilter line then
    let rowSchema := inferSchemaFromRow (parseLogfmtLine line)
    { st with
      schema := some (match st.schema with
        | none => rowSchema
        | some merged => mergeSchema merged rowSchema)
      rows := st.rows + 1 }
  else st

/-- The loop of `infer_schema_from_reader`: the state it ends with, or the error of
`read_line`, and what is left unread. -/
def inferLoop (lineFilter : Option LineFilterFn) (nRows : Nat) (stuck : Option IoError) :
    List (Except IoError Bytes) → InferState →
      Except IoError InferState × List (Except IoError Bytes)
  | lines, st =>
      if nRows ≤ st.rows then (.ok st, lines)
      else
        match lines with
        | [] => (match stuck with
            | some e => .error e
            | none => .ok st, [])
        | .error e :: rest => (.error e, rest)
        | .ok line :: rest => inferLoop lineFilter nRows stuck rest (st.takeLine lineFilter line)

section

variable {lineFilter : Option LineFilterFn}

theorem InferState.foldl_rows (lines : List Bytes) (st : InferState) :
    (lines.foldl (InferState.takeLine lineFilter) st).rows =
      st.rows + (lines.filter (accepts lineFilter)).length := by
  induction lines generalizing st with
  | nil => rfl
  | cons line lines ih =>
    rw [List.foldl_cons, ih]
    by_cases hacc : accepts lineFilter line
    · rw [List.filter_cons_of_pos hacc, List.length_cons]
      simp only [InferState.takeLine, hacc, if_true]
      omega
    · rw [List.filter_cons_of_neg hacc]
      simp only [InferState.takeLine, hacc, Bool.false_eq_true, if_false]

theorem InferState.foldl_consumed (lines : List Bytes) (st : InferState) :
    (lines.foldl (InferState.takeLine lineFilter) st).consumed = st.consumed ++ lines.flatten := by
  induction lines generalizing st with
  | nil => simp
  | cons line lines ih =>
    rw [List.foldl_cons, ih, List.flatten_cons, ← List.append_assoc]
    congr 1
    unfold InferState.takeLine
    simp only
    split <;> rfl

/-- The loop has taken lines up to the last one it needed, or all of them. -/
theorem inferLoop_taken {n : Nat} {stuck : Option IoError}
    {lines rest : List (Except IoError Bytes)}
    {st out : InferState} (h : inferLoop lineFilter n stuck lines st = (.ok out, rest)) :
    ∃ taken : List Bytes, lines = taken.map .ok ++ rest ∧
      out = taken.foldl (InferState.takeLine lineFilter) st ∧ (n ≤ out.rows ∨ rest = []) ∧
      ∀ init last, taken = init ++ [last] →
        (init.foldl (InferState.takeLine lineFilter) st).rows < n := by
  induction lines generalizing st with
  | nil =>
    rw [inferLoop.eq_def] at h
    dsimp only at h
    split at h
    · rename_i hfull
      cases h
      exact ⟨[], rfl, rfl, .inl hfull, by simp⟩
    · cases stuck with
      | none =>
        cases h
        exact ⟨[], rfl, rfl, .inr rfl, by simp⟩
      | some e => cases h
  | cons line lines ih =>
    rw [inferLoop.eq_def] at h
    dsimp only at h
    split at h
    · rename_i hfull
      cases h
      exact ⟨[], rfl, rfl, .inl hfull, by simp⟩
    · rename_i hmore
      cases line with
      | error e => cases h
      | ok line =>
        obtain ⟨taken, hlines, hout, hend, hneed⟩ := ih h
        refine ⟨line :: taken, by rw [hlines]; rfl, hout, hend, ?_⟩
        intro init last htaken
        cases init with
        | nil => exact Nat.lt_of_not_le hmore
        | cons first init =>
          obtain ⟨hline, htaken⟩ := List.cons.inj htaken
          rw [List.foldl_cons, ← hline]
          exact hneed init last htaken

end

/-- `infer_schema_from_reader`: the schema and the bytes consumed, and the reader
that is left. -/
def inferSchemaFromReader (reader : LineReader) (lineFilter : Option LineFilterFn) (nRows : Nat) :
    Except IoError (Option Schema × Bytes) × LineReader :=
  let (result, rest) := inferLoop lineFilter nRows reader.stuck reader.lines {}
  (result.map fun st => (st.schema, st.consumed), ⟨rest, reader.stuck⟩)

/-- The dtype promised for a schema field. -/
def SchemaField.polarsDtype : SchemaField → DataType
  | .string => .string
  | .integer => .int64
  | .float => .float64
  | .boolean => .boolean
  | .dateTime => .datetime
  | .duration => .int64
  | .auto => .string

/-- `logfmt_schema_to_polars_schema`: the fields in the order of the map. -/
def logfmtSchemaToPolarsSchema (map : Schema) : List (Bytes × DataType) :=
  map.toList.map fun (k, v) => (k, v.polarsDtype)

end PolarsLogfmt
