import PolarsLogfmt.Logfmt.Value

/-!
# Schemas that do not list every key

A key the schema lists with a type gets values of the type. A key it does not list, or
lists as `Auto`, is documented to be inferred; the parser takes it for a string.
-/

namespace PolarsLogfmt

section

variable [Crates]

open Crates

/-- What a text is as a value of a type; `none` when it does not parse as it, or the type is
left open. -/
def readAs (field : SchemaField) (value : Bytes) : Option ParsedValue :=
  match field with
  | .string => some (.string value)
  | .integer => (i64FromStr value).map .integer
  | .float => (f64FromStr value).map .float
  | .boolean =>
      if isTrueWord value then some (.boolean true)
      else if isFalseWord value then some (.boolean false)
      else none
  | .dateTime => (parseFromRfc3339 value).map .dateTime
  | .duration => (parseDuration value).map .duration
  | .auto => none

theorem field_of_readAs {field : SchemaField} {value : Bytes} {pv : ParsedValue}
    (h : readAs field value = some pv) : pv.field = field := by
  cases field with
  | string =>
    cases h
    rfl
  | integer =>
    obtain ⟨i, -, rfl⟩ := Option.map_eq_some_iff.mp h
    rfl
  | float =>
    obtain ⟨f, -, rfl⟩ := Option.map_eq_some_iff.mp h
    rfl
  | boolean =>
    unfold readAs at h
    simp only at h
    split at h
    · cases h
      rfl
    · split at h
      · cases h
        rfl
      · cases h
  | dateTime =>
    obtain ⟨dt, -, rfl⟩ := Option.map_eq_some_iff.mp h
    rfl
  | duration =>
    obtain ⟨d, -, rfl⟩ := Option.map_eq_some_iff.mp h
    rfl
  | auto => cases h

omit [Crates] in
/-- No word is true and false. -/
theorem isTrueWord_of_isFalseWord {value : Bytes} (h : isFalseWord value = true) :
    isTrueWord value = false := by
  simp only [isFalseWord, List.any_cons, List.any_nil, Bool.or_false, Bool.or_eq_true,
    beq_iff_eq] at h
  simp only [isTrueWord, List.any_cons, List.any_nil, Bool.or_false]
  rcases h with h | h | h <;> rw [h] <;> decide +kernel

/-- A text that parses as the type the schema lists becomes that value. -/
theorem parseValueAs_of_readAs {field : SchemaField} {value : Bytes} {pv : ParsedValue}
    (h : readAs field value = some pv) : parseValueAs (some field) value = pv := by
  cases field with
  | string =>
    cases h
    rfl
  | integer =>
    obtain ⟨i, hi, rfl⟩ := Option.map_eq_some_iff.mp h
    rw [parseValueAs, hi]
    rfl
  | float =>
    obtain ⟨f, hf, rfl⟩ := Option.map_eq_some_iff.mp h
    rw [parseValueAs, hf]
    rfl
  | boolean =>
    unfold readAs at h
    rw [parseValueAs]
    simp only at h
    split at h
    · rename_i htrue
      cases h
      rw [htrue]
    · split at h
      · rename_i hfalse
        cases h
        rw [isTrueWord_of_isFalseWord hfalse]
      · cases h
  | dateTime =>
    obtain ⟨dt, hdt, rfl⟩ := Option.map_eq_some_iff.mp h
    rw [parseValueAs, hdt]
  | duration =>
    obtain ⟨d, hd, rfl⟩ := Option.map_eq_some_iff.mp h
    rw [parseValueAs, hd]
  | auto => cases h

/-- The schema leaves the type of the key open. -/
def LeavesOpen (schema : Schema) (key : Bytes) : Prop :=
  schema[key]? = none ∨ schema[key]? = some .auto

theorem parseValueAs_open {schema : Schema} {key : Bytes} (h : LeavesOpen schema key)
    (value : Bytes) : parseValueAs schema[key]? value = .string value := by
  rcases h with h | h <;> rw [h] <;> rfl

/-- What is promised of a key under a schema: the listed type where the text parses as it,
and the inferred value where the schema leaves the key open. -/
structure HonoursSchema (schema : Schema) (line key value : Bytes) : Prop where
  listed : ∀ field pv, schema[key]? = some field → readAs field value = some pv →
    (parseLogfmtLineWithSchema line (some schema))[key]? = some pv ∧ pv.field = field
  inferred : LeavesOpen schema key →
    (parseLogfmtLineWithSchema line (some schema))[key]? = some (inferType value) ∧
      (parseLogfmtLine line)[key]? = some (inferType value)

/-- The promise is kept exactly when the schema lists the key with a type, or the text is
inferred to be a string. -/
theorem honoursSchema_iff (schema : Schema) (line key value : Bytes)
    (hv : rawValue line key = some value) :
    HonoursSchema schema line key value ↔
      (LeavesOpen schema key → inferType value = .string value) := by
  have hrow : (parseLogfmtLineWithSchema line (some schema))[key]? =
      some (parseValueAs schema[key]? value) := by
    rw [getElem?_parseLogfmtLineWithSchema, hv]
    rfl
  have hinfer : (parseLogfmtLine line)[key]? = some (inferType value) := by
    rw [parseLogfmtLine, getElem?_parseLogfmtLineWithSchema, hv]
    rfl
  constructor
  · intro h hopen
    have hkept := (h.inferred hopen).1
    rw [hrow, parseValueAs_open hopen] at hkept
    exact (Option.some.inj hkept).symm
  · intro h
    refine ⟨fun field pv hfield hread => ⟨?_, field_of_readAs hread⟩, fun hopen => ⟨?_, hinfer⟩⟩
    · rw [hrow, hfield, parseValueAs_of_readAs hread]
    · rw [hrow, parseValueAs_open hopen, h hopen]

end

section

attribute [local instance] smallCrates

/-- `n` is an integer; other keys are left open. -/
def countSchema : Schema := (∅ : Schema).insert (Utf8.ofString "n") .integer

/-- `n=7 m=x` -/
def countLine : Bytes := Utf8.ofString "n=7 m=x"

theorem honoursSchema_word :
    HonoursSchema countSchema countLine (Utf8.ofString "m") (Utf8.ofString "x") :=
  (honoursSchema_iff countSchema countLine (Utf8.ofString "m") (Utf8.ofString "x")
    (by decide +kernel)).mpr fun _ => by decide +kernel

/-- A number under a key the schema does not list is read as a text. -/
theorem honoursSchema_counterexample :
    (parseLogfmtLineWithSchema (Utf8.ofString "m=5") (some countSchema))[Utf8.ofString "m"]? =
        some (.string (Utf8.ofString "5")) ∧
      (parseLogfmtLine (Utf8.ofString "m=5"))[Utf8.ofString "m"]? = some (.integer 5) ∧
      ¬ HonoursSchema countSchema (Utf8.ofString "m=5") (Utf8.ofString "m")
        (Utf8.ofString "5") := by
  have htext : (parseLogfmtLineWithSchema (Utf8.ofString "m=5") (some countSchema))[
      Utf8.ofString "m"]? = some (.string (Utf8.ofString "5")) := by decide +kernel
  refine ⟨htext, by decide +kernel, fun h => ?_⟩
  have hinferred := (h.inferred (.inl (by decide +kernel))).1
  rw [htext] at hinferred
  revert hinferred
  decide +kernel

end

end PolarsLogfmt
