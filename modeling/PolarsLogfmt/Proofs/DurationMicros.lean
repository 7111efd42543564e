import PolarsLogfmt.Lazy.MadeColumns
import PolarsLogfmt.Lazy.RowsToDataframe
import PolarsLogfmt.Logfmt.Micros

/-!
# Durations in a column

A builder of durations and a column of integers store the microseconds of a duration by
the same expression. The value is exact for the durations whose whole microseconds are
an `i64`, and for no other.
-/

namespace PolarsLogfmt

section

variable [Crates]

open Crates

/-- The value of a duration is its whole microseconds, computed without a step that wraps or
panics, and no shorter duration has a larger one. -/
structure Duration.MicrosKept (dur : Duration) : Prop where
  exact : dur.asMicros.toInt = dur.wholeMicros
  noneWraps : dur.NoneWraps
  shorter : ∀ other : Duration, other.asNanos ≤ dur.asNanos → other.asMicros ≤ dur.asMicros

omit [Crates] in
theorem Duration.microsKept_iff {dur : Duration} : dur.MicrosKept ↔ dur.wholeMicros < 2 ^ 63 := by
  constructor
  · intro h
    exact toInt_asMicros_iff.mp h.exact
  · intro h
    exact ⟨toInt_asMicros_iff.mpr h, noneWraps_iff.mpr h,
      fun other hother => asMicros_mono h hother⟩

/-- A line adds the microseconds of its duration texts to a column of durations. -/
theorem addedCells_duration {m : DataFrameMaker} (hm : m.Ready) (ht : Typed m.schema m.tracks)
    {schema : Schema} (hs : m.schema = some schema) {line key text : Bytes}
    (hfield : schema[key]? = some .duration) (hw : m.wants key) {j : Nat}
    (hj : (valuesOf key (handleParseLogfmtLineWithSchemaBase line))[j]? = some text)
    {dur : Duration} (hdur : parseDuration text = some dur) :
    (addedCells m line key)[j]? = some (.int64 dur.asMicros) := by
  have hkey : key ∈ lineKeys line := by
    by_contra hnone
    rw [valuesOf_eq_nil hnone] at hj
    cases hj
  have htype : trackType m.schema key = .duration := by
    rw [trackType, hs, Option.bind_some, hfield]
    rfl
  rw [addedCells_eq hm ht hw hkey, List.getElem?_map, hj, htype, Option.map_some, convert, hdur]
  rfl

/-- The parallel path and the columns of integers store `asMicros` for a duration text. It is
exact, comes about without a wrap or a panic and keeps the order exactly when the whole
microseconds are below `2 ^ 63`. -/
theorem duration_micros_iff {text : Bytes} {dur : Duration} (hdur : parseDuration text = some dur) :
    (∀ (schema : Schema) (columnKeys earlier : List Bytes) (line key : Bytes),
        schema[key]? = some .duration → (columnKeys = [] ∨ key ∈ columnKeys) → ∀ j : Nat,
        (valuesOf key (handleParseLogfmtLineWithSchemaBase line))[j]? = some text →
        (addedCells (pushLines { schema := some schema, columnKeys := columnKeys } earlier) line
          key)[j]? = some (.int64 dur.asMicros)) ∧
    (∀ (rows : List Row) (schema : Option Schema) (key : Bytes) (i : Nat) (row : Row),
        inferredType rows key (schema.bind (·[key]?)) = some .int → rows[i]? = some row →
        row[key]? = some (.duration dur) →
        filledCellAt rows schema key i = some (.int64, .int64 dur.asMicros)) ∧
    (dur.MicrosKept ↔ dur.wholeMicros < 2 ^ 63) := by
  refine ⟨?_, ?_, Duration.microsKept_iff⟩
  · intro schema columnKeys earlier line key hfield hw j hj
    obtain ⟨hready, htyped, hschema, hkeys⟩ := pushLines_spec
      (m := { schema := some schema, columnKeys := columnKeys })
      ⟨⟨by simp, by simp, by simp, rfl⟩, by simp⟩ (by intro t ht; cases ht) earlier
    refine addedCells_duration hready ?_ hschema hfield ?_ hj hdur
    · rw [hschema]
      exact htyped
    · rw [DataFrameMaker.wants, hkeys]
      exact hw
  · intro rows schema key i row htype hrow hvalue
    have hkey : key ∈ row := by
      rw [Std.ExtTreeMap.mem_iff_isSome_getElem?, hvalue]
      rfl
    rw [filledCellAt_eq hrow hkey, htype, hvalue]
    rfl

end

/-! ## Long durations -/

theorem noNanos_lt : 0 < 1000000000 := by decide

/-- A duration of whole seconds. -/
def Duration.ofSecs (n : Nat) (h : n < 2 ^ 64) : Duration := ⟨n, 0, h, noNanos_lt⟩

/-- Digits and `s`: a duration of whole seconds. -/
def parseSeconds (s : Bytes) : Option Duration :=
  match s.reverse with
  | 0x73 :: digits =>
      if digits = [] then none
      else (digitsValue digits.reverse).bind fun n =>
        if h : n < 2 ^ 64 then some (.ofSecs n h) else none
  | _ => none

/-- The small instance, with durations of whole seconds. -/
@[reducible] def secondsCrates : Crates := { smallCrates with parseDuration := parseSeconds }

section

attribute [local instance] secondsCrates

open Crates

/-- `d` is a duration. -/
def pauseSchema : Schema := (∅ : Schema).insert (Utf8.ofString "d") .duration

/-- `d` is an integer. -/
def wholeSchema : Schema := (∅ : Schema).insert (Utf8.ofString "d") .integer

/-- The last duration of whole seconds that is exact, the one after it, and the longest. -/
def exactPause : Duration := .ofSecs 9223372036854 (by decide)

def wrappedPause : Duration := .ofSecs 9223372036855 (by decide)

def longestPause : Duration := .ofSecs 18446744073709551615 (by decide)

theorem duration_micros_exactPause :
    (∀ (schema : Schema) (columnKeys earlier : List Bytes) (line key : Bytes),
        schema[key]? = some .duration → (columnKeys = [] ∨ key ∈ columnKeys) → ∀ j : Nat,
        (valuesOf key (handleParseLogfmtLineWithSchemaBase line))[j]? =
          some (Utf8.ofString "9223372036854s") →
        (addedCells (pushLines { schema := some schema, columnKeys := columnKeys } earlier) line
          key)[j]? = some (.int64 exactPause.asMicros)) ∧
    (∀ (rows : List Row) (schema : Option Schema) (key : Bytes) (i : Nat) (row : Row),
        inferredType rows key (schema.bind (·[key]?)) = some .int → rows[i]? = some row →
        row[key]? = some (.duration exactPause) →
        filledCellAt rows schema key i = some (.int64, .int64 exactPause.asMicros)) ∧
    (exactPause.MicrosKept ↔ exactPause.wholeMicros < 2 ^ 63) :=
  @duration_micros_iff _ (Utf8.ofString "9223372036854s") exactPause (by decide +kernel)

/-- One second more than the last exact value is stored as a negative number, or panics in a
build with overflow checks; the longest duration is stored as minus one second in any
build. -/
theorem duration_micros_counterexample :
    parseDuration (Utf8.ofString "9223372036854s") = some exactPause ∧
    parseDuration (Utf8.ofString "9223372036855s") = some wrappedPause ∧
    parseDuration (Utf8.ofString "18446744073709551615s") = some longestPause ∧
    addedCells { schema := some pauseSchema } (Utf8.ofString "d=9223372036855s")
      (Utf8.ofString "d") = [.int64 (-9223372036854551616)] ∧
    filledCellAt [(∅ : Row).insert (Utf8.ofString "d") (.duration wrappedPause)] (some wholeSchema)
      (Utf8.ofString "d") 0 = some (.int64, .int64 (-9223372036854551616)) ∧
    exactPause.asNanos < wrappedPause.asNanos ∧ wrappedPause.asMicros < exactPause.asMicros ∧
    wrappedPause.checkedMicros = none ∧ ¬ wrappedPause.MicrosKept ∧
    longestPause.checkedMicros = some (-1000000) ∧ ¬ longestPause.MicrosKept := by
  refine ⟨by decide +kernel, by decide +kernel, by decide +kernel, by decide +kernel,
    by decide +kernel, by decide, by decide +kernel, by decide +kernel, ?_, by decide +kernel, ?_⟩
  · rw [Duration.microsKept_iff]
    decide
  · rw [Duration.microsKept_iff]
    decide

end

end PolarsLogfmt
