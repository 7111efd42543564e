import PolarsLogfmt.Logfmt.Decimal
import PolarsLogfmt.Logfmt.Filter

/-!
# Equality filters

A filter compares its text with the printed value of the row. Which texts print as they were
written depends on the kind they are taken for.
-/

namespace PolarsLogfmt

open Crates

section

variable [Crates]

/-- The text is the one printed for its value: for an integer a canonical one, for a boolean the
word `true` or `false`. A text of no other kind stays as it is. -/
def PrintsBack (v : Bytes) : Prop :=
  match parseFromRfc3339 v with
  | some dt => toRfc3339 dt = v
  | none =>
  if (i64FromStr v).isSome then CanonicalInteger v
  else
  match parseDuration v with
  | some dur => formatDuration dur = v
  | none =>
  match f64FromStr v with
  | some f => f64ToString f = v
  | none =>
    isTrueWord v || isFalseWord v → v = Utf8.ofString "true" ∨ v = Utf8.ofString "false"

omit [Crates] in
theorem boolToString_true_iff {v : Bytes} (h : isTrueWord v = true) :
    boolToString true = v ↔ v = Utf8.ofString "true" ∨ v = Utf8.ofString "false" := by
  have hfalse : v ≠ Utf8.ofString "false" := by
    rintro rfl
    exact absurd h (by decide)
  rw [or_iff_left hfalse, eq_comm]
  rfl

omit [Crates] in
theorem boolToString_false_iff {v : Bytes} (h : isTrueWord v = false) :
    boolToString false = v ↔ v = Utf8.ofString "true" ∨ v = Utf8.ofString "false" := by
  have htrue : v ≠ Utf8.ofString "true" := by
    rintro rfl
    exact absurd h (by decide)
  rw [or_iff_right htrue, eq_comm]
  rfl

/-- The kinds are tried in the order of `infer_type`. -/
theorem asString_inferType_iff (v : Bytes) : (inferType v).asString = v ↔ PrintsBack v := by
  unfold inferType PrintsBack
  cases parseFromRfc3339 v with
  | some dt => exact Iff.rfl
  | none =>
    cases hi : i64FromStr v with
    | some i => exact i64ToString_eq_iff hi
    | none =>
      cases parseDuration v with
      | some dur => exact Iff.rfl
      | none =>
        cases f64FromStr v with
        | some f => exact Iff.rfl
        | none =>
          simp only [Option.isSome_none, Bool.false_eq_true, if_false]
          cases ht : isTrueWord v with
          | true =>
            rw [if_pos rfl, Bool.true_or, forall_prop_of_true rfl]
            exact boolToString_true_iff ht
          | false =>
            cases hf : isFalseWord v with
            | true =>
              rw [if_neg (by decide), if_pos rfl, Bool.or_true, forall_prop_of_true rfl]
              exact boolToString_false_iff ht
            | false => exact iff_of_true rfl (fun h => nomatch h)

/-- A line is selected by the text of its value, and not by the text's negation, exactly when the
text prints back. -/
theorem filterRow_eq_iff {line key value : Bytes} (h : rawValue line key = some value) :
    (filterRow (parseLogfmtLine line) (.eq key value) = true ∧
      filterRow (parseLogfmtLine line) (.notEq key value) = false) ↔ PrintsBack value := by
  have hrow : (parseLogfmtLine line)[key]? = some (inferType value) := by
    rw [parseLogfmtLine, getElem?_parseLogfmtLineWithSchema, h]
    rfl
  rw [← asString_inferType_iff]
  simp only [filterRow, hrow, Option.any_some, Option.all_some, beq_iff_eq, bne_eq_false_iff_eq,
    and_self]

end

section

attribute [local instance] smallCrates

theorem filterRow_eq_iff_seven :
    rawValue (Utf8.ofString "id=7") (Utf8.ofString "id") = some (Utf8.ofString "7") ∧
      ((filterRow (parseLogfmtLine (Utf8.ofString "id=7"))
          (.eq (Utf8.ofString "id") (Utf8.ofString "7")) = true ∧
        filterRow (parseLogfmtLine (Utf8.ofString "id=7"))
          (.notEq (Utf8.ofString "id") (Utf8.ofString "7")) = false) ↔
        PrintsBack (Utf8.ofString "7")) := by
  have hraw : rawValue (Utf8.ofString "id=7") (Utf8.ofString "id") = some (Utf8.ofString "7") := by
    decide +kernel
  exact ⟨hraw, filterRow_eq_iff hraw⟩

/-- The row of `id=007` holds the number 7. -/
theorem filterRow_eq_counterexample :
    rawValue (Utf8.ofString "id=007") (Utf8.ofString "id") = some (Utf8.ofString "007") ∧
      filterRow (parseLogfmtLine (Utf8.ofString "id=007"))
        (.eq (Utf8.ofString "id") (Utf8.ofString "007")) = false ∧
      filterRow (parseLogfmtLine (Utf8.ofString "id=007"))
        (.notEq (Utf8.ofString "id") (Utf8.ofString "007")) = true := by
  decide +kernel

end

end PolarsLogfmt
