import PolarsLogfmt.Crates
import PolarsLogfmt.Logfmt.Parser

/-!
# Values, rows and schemas

`ParsedValue`, `Row`, `SchemaField` and `Schema` of `logfmt.rs`, and the line parser
with and without a schema. A `Row` is a `HashMap` of which the program only uses
lookup, insertion and the set of keys; a `Schema` is a `BTreeMap`. Both are
extensional tree maps here, so two rows are equal when their lookups are.
-/

namespace PolarsLogfmt

variable [Crates]

open Crates

inductive ParsedValue where
  | string (s : Bytes)
  | integer (i : Int64)
  | float (f : F64)
  | boolean (b : Bool)
  | dateTime (dt : DateTime)
  | duration (d : Duration)
deriving DecidableEq

inductive SchemaField where
  | string
  | integer
  | float
  | boolean
  | dateTime
  | duration
  | auto
deriving DecidableEq, Repr

abbrev Row := Std.ExtTreeMap Bytes ParsedValue compare

abbrev Schema := Std.ExtTreeMap Bytes SchemaField compare

/-- `b.to_string()`. -/
def boolToString (b : Bool) : Bytes := Utf8.ofString (if b then "true" else "false")

/-- The schema field of a value's kind. -/
def ParsedValue.field : ParsedValue → SchemaField
  | .string _ => .string
  | .integer _ => .integer
  | .float _ => .float
  | .boolean _ => .boolean
  | .dateTime _ => .dateTime
  | .duration _ => .duration

theorem field_ne_auto (value : ParsedValue) : value.field ≠ .auto := by
  cases value <;> exact fun h => by cases h

/-- `ParsedValue::as_string`. -/
def ParsedValue.asString : ParsedValue → Bytes
  | .string s => s
  | .integer i => i64ToString i
  | .float f => f64ToString f
  | .boolean b => boolToString b
  | .dateTime dt => toRfc3339 dt
  | .duration d => formatDuration d

/-- ASCII letters in lower case. The texts `to_lowercase` is compared with have no
`k` and no `i`, the only ASCII letters that are also the lower case of others. -/
def toLowercase (s : Bytes) : Bytes :=
  s.map fun b => if 0x41 ≤ b ∧ b ≤ 0x5A then b + 0x20 else b

/-- `matches!(s.to_lowercase().as_str(), "true" | "yes" | "on")`. -/
def isTrueWord (s : Bytes) : Bool :=
  ["true", "yes", "on"].any fun word => toLowercase s == Utf8.ofString word

/-- `matches!(s.to_lowercase().as_str(), "false" | "no" | "off")`. -/
def isFalseWord (s : Bytes) : Bool :=
  ["false", "no", "off"].any fun word => toLowercase s == Utf8.ofString word

/-- `ParsedValue::infer_type`. -/
def inferType (value : Bytes) : ParsedValue :=
  match parseFromRfc3339 value with
  | some dt => .dateTime dt
  | none =>
  match i64FromStr value with
  | some i => .integer i
  | none =>
  match parseDuration value with
  | some dur => .duration dur
  | none =>
  match f64FromStr value with
  | some f => .float f
  | none =>
    if isTrueWord value then .boolean true
    else if isFalseWord value then .boolean false
    else .string value

/-- The value of a key whose schema entry is `field`, in
`handle_parse_logfmt_line_with_schema`. -/
def parseValueAs (field : Option SchemaField) (value : Bytes) : ParsedValue :=
  match field with
  | some .string => .string value
  | some .integer => .integer ((i64FromStr value).getD 0)
  | some .float => .float ((f64FromStr value).getD f64Zero)
  | some .boolean => .boolean (isTrueWord value)
  | some .duration =>
      match parseDuration value with
      | some dur => .duration dur
      | none => .string value
  | some .dateTime =>
      match parseFromRfc3339 value with
      | some dt => .dateTime dt
      | none => .string value
  | some .auto | none => .string value

/-- The value of a raw text, with or without a schema. -/
def typedValue (schema : Option Schema) (key value : Bytes) : ParsedValue :=
  match schema with
  | some schema => parseValueAs schema[key]? value
  | none => inferType value

/-- `handle_parse_logfmt_line_with_schema`: the calls of its callback. -/
def handleParseLogfmtLineWithSchema (line : Bytes) (schema : Option Schema) :
    List (Bytes × ParsedValue) :=
  (handleParseLogfmtLineWithSchemaBase line).map fun (key, value) =>
  (key, typedValue schema key value)

/-- Later pairs overwrite earlier ones of the same key. -/
def rowOfPairs (kvs : List (Bytes × ParsedValue)) : Row :=
  kvs.foldl (fun map (key, pv) => map.insert key pv) ∅

/-- `parse_logfmt_line_with_schema`. -/
def parseLogfmtLineWithSchema (line : Bytes) (schema : Option Schema) : Row :=
  rowOfPairs (handleParseLogfmtLineWithSchema line schema)

/-- `parse_logfmt_line`. -/
def parseLogfmtLine (line : Bytes) : Row := parseLogfmtLineWithSchema line none

/-! ## What a row holds -/

/-- The value of the last pair with the key. -/
def lastValue {α β : Type} [DecidableEq α] (key : α) : List (α × β) → Option β
  | [] => none
  | (k, v) :: kvs => (lastValue key kvs).or (if k = key then some v else none)

section lastValue

omit [Crates]

variable {α β γ : Type} [DecidableEq α]

theorem lastValue_map (f : α → β → γ) (key : α) (kvs : List (α × β)) :
    lastValue key (kvs.map fun (k, v) => (k, f k v)) = (lastValue key kvs).map (f key) := by
  induction kvs with
  | nil => rfl
  | cons kv kvs ih =>
    obtain ⟨k, v⟩ := kv
    simp only [List.map_cons, lastValue, ih]
    cases lastValue key kvs with
    | some w => rfl
    | none => by_cases h : k = key <;> simp [h]

theorem lastValue_isSome {key : α} {kvs : List (α × β)} :
    (lastValue key kvs).isSome ↔ key ∈ kvs.map Prod.fst := by
  induction kvs with
  | nil => simp [lastValue]
  | cons kv kvs ih =>
    obtain ⟨k, v⟩ := kv
    rw [lastValue, Option.isSome_or, Bool.or_eq_true, ih]
    by_cases h : k = key
    · simp [h]
    · simp [h, Ne.symm h]

/-- With distinct keys the value of a key is the one of its pair. -/
theorem lastValue_eq_some {key : α} {value : β} {kvs : List (α × β)}
    (hd : (kvs.map Prod.fst).Nodup) (h : (key, value) ∈ kvs) : lastValue key kvs = some value := by
  induction kvs with
  | nil => cases h
  | cons kv kvs ih =>
    obtain ⟨k, v⟩ := kv
    rw [List.map_cons, List.nodup_cons] at hd
    rcases List.mem_cons.mp h with heq | h
    · obtain ⟨rfl, rfl⟩ := Prod.mk.inj heq
      have hnone : lastValue key kvs = none := by
        rw [← Option.not_isSome_iff_eq_none, lastValue_isSome]
        exact hd.1
      simp [lastValue, hnone]
    · rw [lastValue, ih hd.2 h]
      rfl

end lastValue

theorem getElem?_foldl_insert (key : Bytes) (kvs : List (Bytes × ParsedValue)) (map : Row) :
    (kvs.foldl (fun map (key, pv) => map.insert key pv) map)[key]? =
      (lastValue key kvs).or map[key]? := by
  induction kvs generalizing map with
  | nil => simp [lastValue]
  | cons kv kvs ih =>
    obtain ⟨k, v⟩ := kv
    rw [List.foldl_cons, ih, lastValue, Option.or_assoc]
    congr 1
    rw [Std.ExtTreeMap.getElem?_insert]
    by_cases h : k = key
    · subst h
      simp
    · simp [h]

/-- A row maps a key to the value of its last pair. -/
theorem getElem?_rowOfPairs (key : Bytes) (kvs : List (Bytes × ParsedValue)) :
    (rowOfPairs kvs)[key]? = lastValue key kvs := by
  rw [rowOfPairs, getElem?_foldl_insert]
  simp

/-- The keys of a line. -/
def lineKeys (line : Bytes) : List Bytes := (handleParseLogfmtLineWithSchemaBase line).map Prod.fst

omit [Crates] in
/-- A key has no blank in it. -/
theorem not_whitespace_of_mem_lineKeys {line key : Bytes} (h : key ∈ lineKeys line) :
    ∀ b ∈ key, isAsciiWhitespace b = false := by
  unfold lineKeys handleParseLogfmtLineWithSchemaBase at h
  rw [List.map_map] at h
  obtain ⟨s, hs, rfl⟩ := List.mem_map.mp h
  exact parseFrom_key hs

/-- The last raw value of a key in a line. -/
def rawValue (line key : Bytes) : Option Bytes :=
  lastValue key (handleParseLogfmtLineWithSchemaBase line)

theorem getElem?_parseLogfmtLineWithSchema (line : Bytes) (schema : Option Schema) (key : Bytes) :
    (parseLogfmtLineWithSchema line schema)[key]? =
      (rawValue line key).map (typedValue schema key) := by
  rw [parseLogfmtLineWithSchema, getElem?_rowOfPairs, rawValue, ← lastValue_map]
  rfl

theorem mem_parseLogfmtLineWithSchema {line key : Bytes} {schema : Option Schema} :
    key ∈ parseLogfmtLineWithSchema line schema ↔ key ∈ lineKeys line := by
  rw [Std.ExtTreeMap.mem_iff_isSome_getElem?, getElem?_parseLogfmtLineWithSchema,
    Option.isSome_map, rawValue, lastValue_isSome, lineKeys]

end PolarsLogfmt
