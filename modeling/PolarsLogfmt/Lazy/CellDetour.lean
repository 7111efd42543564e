import PolarsLogfmt.Lazy.SchemaRows

/-!
# A value inferred and then coerced

A text read without a schema becomes a value of the kind it looks like, and the column of
another kind coerces that value later. `KeepsCell` says kind by kind when the coerced cell
is the one the text makes when it is parsed as the column's type at once.
-/

namespace PolarsLogfmt

variable [Crates]

open Crates

/-- What the value `infer_type` makes says of the text: which parsers refused it before. -/
def InferredFrom (text : Bytes) : ParsedValue → Prop
  | .dateTime dt => parseFromRfc3339 text = some dt
  | .integer i => parseFromRfc3339 text = none ∧ i64FromStr text = some i
  | .duration dur =>
      parseFromRfc3339 text = none ∧ i64FromStr text = none ∧ parseDuration text = some dur
  | .float f =>
      parseFromRfc3339 text = none ∧ i64FromStr text = none ∧ parseDuration text = none ∧
        f64FromStr text = some f
  | .boolean b =>
      parseFromRfc3339 text = none ∧ i64FromStr text = none ∧ parseDuration text = none ∧
        f64FromStr text = none ∧ isTrueWord text = b
  | .string s =>
      parseFromRfc3339 text = none ∧ i64FromStr text = none ∧ parseDuration text = none ∧
        f64FromStr text = none ∧ isTrueWord text = false ∧ s = text

theorem inferType_inferred (text : Bytes) : InferredFrom text (inferType text) := by
  unfold inferType
  cases htime : parseFromRfc3339 text with
  | some dt => exact htime
  | none =>
    cases hint : i64FromStr text with
    | some i => exact ⟨htime, hint⟩
    | none =>
      cases hdur : parseDuration text with
      | some dur => exact ⟨htime, hint, hdur⟩
      | none =>
        cases hfloat : f64FromStr text with
        | some f => exact ⟨htime, hint, hdur, hfloat⟩
        | none =>
          simp only
          split
          · rename_i htrue
            exact ⟨htime, hint, hdur, hfloat, htrue⟩
          · rename_i htrue
            rw [Bool.not_eq_true] at htrue
            split
            · exact ⟨htime, hint, hdur, hfloat, htrue⟩
            · exact ⟨htime, hint, hdur, hfloat, htrue, rfl⟩

omit [Crates] in
/-- The only text whose lower case is `1` is an integer. -/
theorem toLowercase_ne_one {text : Bytes} (h : i64FromStr text = none) :
    (toLowercase text == Utf8.ofString "1") = false := by
  rw [beq_eq_false_iff_ne]
  intro hone
  have hlower : toLowercase text = [0x31] := hone
  unfold toLowercase at hlower
  obtain ⟨b, rest, rfl, hb, hrest⟩ := List.map_eq_cons_iff.mp hlower
  obtain rfl := List.map_eq_nil_iff.mp hrest
  have hdigit : b = 0x31 := by
    split at hb
    · rename_i hupper
      have hsmall : b = 0x11 := by
        rw [← UInt8.add_left_inj (0x20 : UInt8)]
        exact hb
      subst hsmall
      exact absurd hupper (by decide)
    · exact hb
  subst hdigit
  exact absurd h (by decide)

/-- The cell a column makes of a text that is parsed as its type. -/
def textCell (field : SchemaField) (text : Bytes) : AnyValue :=
  filledCell (some (schemaType (some field))) (some (parseValueAs (some field) text))

/-- The cell it makes of the value the text is inferred as. -/
def detourCell (field : SchemaField) (text : Bytes) : AnyValue :=
  filledCell (some (schemaType (some field))) (some (inferType text))

/-- Kind by kind, when a text inferred as the value keeps its cell in a column of the type. A
text of the column's own kind does, and so does a plain word. -/
def Keeps (field : SchemaField) (text : Bytes) : ParsedValue → Prop
  | .string _ => True
  | .integer i =>
      match field with
      | .integer => True
      | .float => i64AsF64 i = (f64FromStr text).getD f64Zero
      | .boolean => (i != 0) = isTrueWord text
      | .dateTime => parseFromRfc3339 (i64ToString i) = none
      | .duration => i64ToString i = ((parseDuration text).map formatDuration).getD text
      | .string | .auto => i64ToString i = text
  | .float f =>
      match field with
      | .integer => f64AsI64 f = 0
      | .float => True
      | .boolean => (!f64IsZero f) = isTrueWord text
      | .dateTime => parseFromRfc3339 (f64ToString f) = none
      | .duration | .string | .auto => f64ToString f = text
  | .boolean b =>
      match field with
      | .integer => b = false
      | .float => (if b then f64One else f64Zero) = f64Zero
      | .boolean => True
      | .dateTime => parseFromRfc3339 (boolToString b) = none
      | .duration | .string | .auto => boolToString b = text
  | .dateTime dt =>
      match field with
      | .integer => (i64FromStr text).getD 0 = 0
      | .float => (f64FromStr text).getD f64Zero = f64Zero
      | .boolean => isTrueWord text = false
      | .dateTime => True
      | .duration => toRfc3339 dt = ((parseDuration text).map formatDuration).getD text
      | .string | .auto => toRfc3339 dt = text
  | .duration dur =>
      match field with
      | .integer => dur.asMicros = 0
      | .float => f64Secs dur = (f64FromStr text).getD f64Zero
      | .boolean => isTrueWord text = false
      | .dateTime => parseFromRfc3339 (formatDuration dur) = none
      | .duration => True
      | .string | .auto => formatDuration dur = text

/-- The text keeps its cell through the detour. -/
def KeepsCell (field : SchemaField) (text : Bytes) : Prop := Keeps field text (inferType text)

/-! ## The two cells -/

/-- The text a column of durations keeps of a text. -/
theorem textCell_duration (text : Bytes) :
    textCell .duration text = .string (((parseDuration text).map formatDuration).getD text) := by
  unfold textCell parseValueAs
  cases parseDuration text with
  | none => rfl
  | some dur => rfl

theorem textCell_dateTime_none {text : Bytes} (h : parseFromRfc3339 text = none) :
    textCell .dateTime text = .null := by
  simp only [textCell, parseValueAs, schemaType, filledCell, dateTimeCell, h, Option.map_none]

/-- A column of times has no cell for a text that is no time. -/
theorem dateTime_null_iff (printed : Option DateTime) :
    (match printed.map timestampMicros with
      | some micros => AnyValue.datetime micros
      | none => .null) = .null ↔ printed = none := by
  cases printed with
  | none => simp
  | some dt => simp

/-- A text inferred as an integer. -/
theorem detour_integer {text : Bytes} {i : Int64} (htime : parseFromRfc3339 text = none)
    (hint : i64FromStr text = some i) (field : SchemaField) :
    filledCell (some (schemaType (some field))) (some (.integer i)) = textCell field text ↔
      Keeps field text (.integer i) := by
  cases field with
  | integer => simp [textCell, parseValueAs, schemaType, filledCell, intCell, Keeps, hint]
  | float => simp [textCell, parseValueAs, schemaType, filledCell, floatCell, Keeps]
  | boolean => simp [textCell, parseValueAs, schemaType, filledCell, boolCell, Keeps]
  | dateTime =>
    rw [textCell_dateTime_none htime]
    exact dateTime_null_iff _
  | duration =>
    rw [textCell_duration]
    exact AnyValue.string.injEq _ _ ▸ Iff.rfl
  | string => exact AnyValue.string.injEq _ _ ▸ Iff.rfl
  | auto => exact AnyValue.string.injEq _ _ ▸ Iff.rfl

/-- A text inferred as a number with a fraction. -/
theorem detour_float {text : Bytes} {f : F64} (htime : parseFromRfc3339 text = none)
    (hint : i64FromStr text = none) (hdur : parseDuration text = none)
    (hfloat : f64FromStr text = some f) (field : SchemaField) :
    filledCell (some (schemaType (some field))) (some (.float f)) = textCell field text ↔
      Keeps field text (.float f) := by
  cases field with
  | integer => simp [textCell, parseValueAs, schemaType, filledCell, intCell, Keeps, hint]
  | float => simp [textCell, parseValueAs, schemaType, filledCell, floatCell, Keeps, hfloat]
  | boolean => simp [textCell, parseValueAs, schemaType, filledCell, boolCell, Keeps]
  | dateTime =>
    rw [textCell_dateTime_none htime]
    exact dateTime_null_iff _
  | duration =>
    rw [textCell_duration, hdur]
    exact AnyValue.string.injEq _ _ ▸ Iff.rfl
  | string => exact AnyValue.string.injEq _ _ ▸ Iff.rfl
  | auto => exact AnyValue.string.injEq _ _ ▸ Iff.rfl

/-- A text inferred as a truth value. -/
theorem detour_boolean {text : Bytes} {b : Bool} (htime : parseFromRfc3339 text = none)
    (hint : i64FromStr text = none) (hdur : parseDuration text = none)
    (hfloat : f64FromStr text = none) (hword : isTrueWord text = b) (field : SchemaField) :
    filledCell (some (schemaType (some field))) (some (.boolean b)) = textCell field text ↔
      Keeps field text (.boolean b) := by
  cases field with
  | integer => simp [textCell, parseValueAs, schemaType, filledCell, intCell, Keeps, hint]
  | float => simp [textCell, parseValueAs, schemaType, filledCell, floatCell, Keeps, hfloat]
  | boolean => simp [textCell, parseValueAs, schemaType, filledCell, boolCell, Keeps, hword]
  | dateTime =>
    rw [textCell_dateTime_none htime]
    exact dateTime_null_iff _
  | duration =>
    rw [textCell_duration, hdur]
    exact AnyValue.string.injEq _ _ ▸ Iff.rfl
  | string => exact AnyValue.string.injEq _ _ ▸ Iff.rfl
  | auto => exact AnyValue.string.injEq _ _ ▸ Iff.rfl

/-- A text inferred as a time. -/
theorem detour_dateTime {text : Bytes} {dt : DateTime} (htime : parseFromRfc3339 text = some dt)
    (field : SchemaField) :
    filledCell (some (schemaType (some field))) (some (.dateTime dt)) = textCell field text ↔
      Keeps field text (.dateTime dt) := by
  cases field with
  | integer => simp [textCell, parseValueAs, schemaType, filledCell, intCell, Keeps, eq_comm]
  | float => simp [textCell, parseValueAs, schemaType, filledCell, floatCell, Keeps, eq_comm]
  | boolean => simp [textCell, parseValueAs, schemaType, filledCell, boolCell, Keeps]
  | dateTime => simp [textCell, parseValueAs, schemaType, filledCell, dateTimeCell, Keeps, htime]
  | duration =>
    rw [textCell_duration]
    exact AnyValue.string.injEq _ _ ▸ Iff.rfl
  | string => exact AnyValue.string.injEq _ _ ▸ Iff.rfl
  | auto => exact AnyValue.string.injEq _ _ ▸ Iff.rfl

/-- A text inferred as a duration. -/
theorem detour_duration {text : Bytes} {dur : Duration} (htime : parseFromRfc3339 text = none)
    (hint : i64FromStr text = none) (hdur : parseDuration text = some dur) (field : SchemaField) :
    filledCell (some (schemaType (some field))) (some (.duration dur)) = textCell field text ↔
      Keeps field text (.duration dur) := by
  cases field with
  | integer => simp [textCell, parseValueAs, schemaType, filledCell, intCell, Keeps, hint]
  | float => simp [textCell, parseValueAs, schemaType, filledCell, floatCell, Keeps]
  | boolean => simp [textCell, parseValueAs, schemaType, filledCell, boolCell, Keeps]
  | dateTime =>
    rw [textCell_dateTime_none htime]
    exact dateTime_null_iff _
  | duration =>
    rw [textCell_duration, hdur]
    exact iff_of_true rfl trivial
  | string => exact AnyValue.string.injEq _ _ ▸ Iff.rfl
  | auto => exact AnyValue.string.injEq _ _ ▸ Iff.rfl

/-- A plain word keeps its cell in every column. -/
theorem detour_string {text : Bytes} (htime : parseFromRfc3339 text = none)
    (hint : i64FromStr text = none) (hdur : parseDuration text = none)
    (hfloat : f64FromStr text = none) (hword : isTrueWord text = false) (field : SchemaField) :
    filledCell (some (schemaType (some field))) (some (.string text)) = textCell field text := by
  cases field with
  | integer => simp [textCell, parseValueAs, schemaType, filledCell, intCell, hint]
  | float => simp [textCell, parseValueAs, schemaType, filledCell, floatCell, hfloat]
  | boolean =>
    have hone := toLowercase_ne_one hint
    simp [textCell, parseValueAs, schemaType, filledCell, boolCell, hword, hone]
  | dateTime => simp [textCell, parseValueAs, schemaType, filledCell, dateTimeCell, htime]
  | duration =>
    rw [textCell_duration, hdur]
    rfl
  | string => rfl
  | auto => rfl

/-- The detour through the inferred value leaves the cell of a text exactly as listed. -/
theorem detourCell_eq_iff (field : SchemaField) (text : Bytes) :
    detourCell field text = textCell field text ↔ KeepsCell field text := by
  have hfrom := inferType_inferred text
  unfold detourCell KeepsCell
  cases hvalue : inferType text with
  | integer i =>
    rw [hvalue] at hfrom
    obtain ⟨htime, hint⟩ := hfrom
    exact detour_integer htime hint field
  | float f =>
    rw [hvalue] at hfrom
    obtain ⟨htime, hint, hdur, hfloat⟩ := hfrom
    exact detour_float htime hint hdur hfloat field
  | boolean b =>
    rw [hvalue] at hfrom
    obtain ⟨htime, hint, hdur, hfloat, hword⟩ := hfrom
    exact detour_boolean htime hint hdur hfloat hword field
  | dateTime dt =>
    rw [hvalue] at hfrom
    exact detour_dateTime hfrom field
  | duration dur =>
    rw [hvalue] at hfrom
    obtain ⟨htime, hint, hdur⟩ := hfrom
    exact detour_duration htime hint hdur field
  | string s =>
    rw [hvalue] at hfrom
    obtain ⟨htime, hint, hdur, hfloat, hword, rfl⟩ := hfrom
    exact iff_of_true (detour_string htime hint hdur hfloat hword field) trivial

end PolarsLogfmt
