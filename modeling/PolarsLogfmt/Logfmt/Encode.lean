import PolarsLogfmt.Logfmt.ParserSuffix

/-!
# Writing pairs and parsing them back

A `Field` is a pair that can be written as `key=value` or `key="body"`; a line
of fields has one space between them. `pairs_encodeLine` computes what the
parser reads from such a line for every list of fields: each field's key and
value text, except that an empty quoted body is read as its closing quote.
-/

namespace PolarsLogfmt

/-- Every double quote and every backslash is escaped by a backslash: no quote
stands outside an escape, and no backslash ends the body. -/
def Escaped : Bytes → Prop
  | [] => True
  | b :: rest =>
      if b = doubleQuote then False
      else if b = backslash then
        match rest with
        | [] => False
        | _ :: rest => Escaped rest
      else Escaped rest

/-- The value of a field: an unquoted text, or the body of a quoted one. -/
inductive FieldValue where
  | unquoted (text : Bytes) (ne_nil : text ≠ []) (token : ∀ b ∈ text, isAsciiWhitespace b = false)
      (head : text.head? ≠ some doubleQuote)
  | quoted (body : Bytes) (escaped : Escaped body)

/-- A key with its value. -/
structure Field where
  key : Bytes
  value : FieldValue
  key_ne_nil : key ≠ []
  key_valid : Utf8.Valid key
  key_token : ∀ b ∈ key, b ≠ equalsSign ∧ isAsciiWhitespace b = false

namespace FieldValue

/-- The unquoted text, or the (still escaped) body. -/
def text : FieldValue → Bytes
  | unquoted text _ _ _ => text
  | quoted body _ => body

/-- The value as written after `=`. -/
def encode : FieldValue → Bytes
  | unquoted text _ _ _ => text
  | quoted body _ => doubleQuote :: body ++ [doubleQuote]

/-- The value is written as two quotes with nothing between them. -/
def EmptyQuoted : FieldValue → Prop
  | unquoted _ _ _ _ => False
  | quoted body _ => body = []

instance : DecidablePred EmptyQuoted
  | unquoted _ _ _ _ => .isFalse id
  | quoted body _ => inferInstanceAs (Decidable (body = []))

/-- What the parser reads back. -/
def readBack (v : FieldValue) : Bytes := if v.EmptyQuoted then [doubleQuote] else v.text

theorem readBack_of_not {v : FieldValue} (h : ¬ v.EmptyQuoted) : v.readBack = v.text := if_neg h

end FieldValue

/-- The field as written in a line. -/
def Field.encode (f : Field) : Bytes := f.key ++ equalsSign :: f.value.encode

/-- The space that separates two fields. -/
def space : UInt8 := 0x20

/-- The fields as one line, separated by one space. -/
def encodeLine : List Field → Bytes
  | [] => []
  | [f] => f.encode
  | f :: g :: fields => f.encode ++ space :: encodeLine (g :: fields)

/-- An escaped body ends at the first quote outside it. -/
theorem quotedBody_escaped {body : Bytes} (h : Escaped body) (after : Bytes) :
    quotedBody (body ++ doubleQuote :: after) = some (body, after) := by
  induction body using Escaped.induct with
  | case1 => exact quotedBody_quote after
  | case2 rest =>
    rw [Escaped.eq_def] at h
    exact absurd h (by simp)
  | case3 hq =>
    rw [Escaped.eq_def] at h
    exact absurd h (by simp [backslash, doubleQuote])
  | case4 c rest hq ih =>
    rw [Escaped.eq_def] at h
    have hrest : Escaped rest := by simpa [backslash, doubleQuote] using h
    rw [List.cons_append, List.cons_append, quotedBody_escape, ih hrest]
    rfl
  | case5 b rest hq hb ih =>
    have hrest : Escaped rest := by
      rw [Escaped.eq_def] at h
      simpa [hq, hb] using h
    rw [List.cons_append, quotedBody_plain hq hb, ih hrest]
    rfl

/-- What follows a field in a line: nothing, or whitespace. -/
def Separated (rest : Bytes) : Prop :=
  rest.takeWhile (fun b => !isAsciiWhitespace b) = []

theorem separated_nil : Separated [] := rfl

theorem separated_space (rest : Bytes) : Separated (space :: rest) := rfl

theorem nextValue_encode (v : FieldValue) {rest : Bytes} (hrest : Separated rest) :
    nextValue (v.encode ++ rest) = (v.readBack, rest) := by
  cases v with
  | unquoted text hne htoken hhead =>
    obtain ⟨b, bs, rfl⟩ := List.exists_cons_of_ne_nil hne
    have hq : b ≠ doubleQuote := fun h => hhead (by rw [h]; rfl)
    have hall : ∀ x ∈ b :: bs, (!isAsciiWhitespace x) = true := fun x hx => by rw [htoken x hx]; rfl
    have htake := Scan.takeWhile_append_stop hall hrest
    have hdrop := Scan.dropWhile_append_stop hall hrest
    rw [FieldValue.readBack_of_not id]
    simp only [FieldValue.encode, FieldValue.text]
    rw [List.cons_append] at htake hdrop ⊢
    rw [nextValue, if_neg hq, htake, hdrop]
  | quoted body hescaped =>
    simp only [FieldValue.encode, FieldValue.readBack, FieldValue.EmptyQuoted, FieldValue.text]
    rw [List.cons_append, List.cons_append, List.append_assoc, List.singleton_append, nextValue,
      if_pos rfl, quotedBody_escaped hescaped rest]
    cases body with
    | nil => rfl
    | cons b body => rfl

theorem encode_ne_nil (f : Field) : f.encode ≠ [] := by
  rw [Field.encode]
  simp

/-- A written field is read off the front of the text. -/
theorem nextPair_encode (f : Field) {rest : Bytes} (hrest : Separated rest) :
    nextPair (f.encode ++ rest) = (some (f.key, f.value.readBack), rest) := by
  obtain ⟨k, ks, hkey⟩ := List.exists_cons_of_ne_nil f.key_ne_nil
  have hk := (f.key_token k (by rw [hkey]; exact List.mem_cons_self)).2
  have hall : ∀ b ∈ f.key, (b != equalsSign && !isAsciiWhitespace b) = true := by
    intro b hb
    obtain ⟨hne, hws⟩ := f.key_token b hb
    simp [hne, hws]
  have htext : f.encode ++ rest = f.key ++ equalsSign :: (f.value.encode ++ rest) := by
    rw [Field.encode, List.append_assoc, List.cons_append]
  have hstart : (f.encode ++ rest).dropWhile isAsciiWhitespace = f.encode ++ rest := by
    rw [htext, hkey, List.cons_append, List.dropWhile_cons_of_neg (by rw [hk]; decide)]
  have hstop : (equalsSign :: (f.value.encode ++ rest)).takeWhile
      (fun b => b != equalsSign && !isAsciiWhitespace b) = [] := rfl
  have htake := Scan.takeWhile_append_stop hall hstop
  have hdrop := Scan.dropWhile_append_stop hall hstop
  have hvalue : f.value.encode ++ rest ≠ [] := by
    cases hv : f.value with
    | unquoted text hne _ _ => simp [FieldValue.encode, hne]
    | quoted body _ => simp [FieldValue.encode]
  have hok : ¬ (f.key = [] ∨ ¬ Utf8.Valid f.key) := by
    rintro (h | h)
    · exact f.key_ne_nil h
    · exact h f.key_valid
  have hne : f.key ++ equalsSign :: (f.value.encode ++ rest) ≠ [] := by simp
  unfold nextPair
  simp only [hstart]
  rw [htext, htake, hdrop, if_neg hne, if_neg hok,
    List.dropWhile_cons_of_neg (show ¬ isAsciiWhitespace equalsSign = true by decide)]
  simp only [ne_eq, not_true, if_false, hvalue, nextValue_encode f.value hrest]

theorem pairs_space (text : Bytes) : pairs (space :: text) = pairs text := by
  have hnext : nextPair (space :: text) = nextPair text := rfl
  rw [pairs_of_ne_nil (by simp), hnext]
  by_cases h : text = []
  · subst h
    rfl
  · rw [pairs_of_ne_nil h]

/-- What the parser reads from a line of fields. -/
theorem pairs_encodeLine (fields : List Field) :
    pairs (encodeLine fields) = fields.map fun f => (f.key, f.value.readBack) := by
  induction fields using encodeLine.induct with
  | case1 => exact pairs_nil
  | case2 f =>
    have hnext := nextPair_encode f separated_nil
    rw [List.append_nil] at hnext
    rw [encodeLine, pairs_of_ne_nil (encode_ne_nil f), hnext, pairs_nil]
    rfl
  | case3 f g fields ih =>
    have hne : f.encode ++ space :: encodeLine (g :: fields) ≠ [] := by simp
    rw [encodeLine, pairs_of_ne_nil hne, nextPair_encode f (separated_space _), pairs_space, ih]
    rfl

theorem readBack_eq_text (v : FieldValue) : v.readBack = v.text ↔ ¬ v.EmptyQuoted := by
  rw [FieldValue.readBack]
  split
  · rename_i h
    refine ⟨fun heq => ?_, fun hnot => absurd h hnot⟩
    cases v with
    | unquoted text _ _ _ => exact h.elim
    | quoted body _ =>
      simp only [FieldValue.EmptyQuoted] at h
      subst h
      cases heq
  · rename_i h
    exact iff_of_true rfl h

/-- Parsing undoes encoding exactly when no field has an empty quoted body. -/
theorem handleParse_encodeLine (fields : List Field) :
    handleParseLogfmtLineWithSchemaBase (encodeLine fields) =
        fields.map (fun f => (f.key, f.value.text)) ↔
      ∀ f ∈ fields, ¬ f.value.EmptyQuoted := by
  rw [handleParseLogfmtLineWithSchemaBase_eq, pairs_encodeLine, List.map_inj_left]
  apply forall₂_congr
  intro f _
  rw [Prod.mk.injEq, readBack_eq_text]
  exact and_iff_right rfl

/-- The field `k=""`. -/
def emptyQuotedField : Field where
  key := [0x6B]
  value := .quoted [] trivial
  key_ne_nil := by decide
  key_valid := by decide +kernel
  key_token := by decide +kernel

/-- The line `k=""` reads as the value `"` for the key `k`, not as the empty value. -/
theorem handleParse_emptyQuoted :
    handleParseLogfmtLineWithSchemaBase (encodeLine [emptyQuotedField]) =
      [([0x6B], [doubleQuote])] ∧
      ¬ ∀ fields : List Field,
        handleParseLogfmtLineWithSchemaBase (encodeLine fields) =
          fields.map (fun f => (f.key, f.value.text)) := by
  have hread : handleParseLogfmtLineWithSchemaBase (encodeLine [emptyQuotedField]) =
      [([0x6B], [doubleQuote])] := by decide +kernel
  refine ⟨hread, fun h => ?_⟩
  have := h [emptyQuotedField]
  rw [hread] at this
  simp [emptyQuotedField, FieldValue.text] at this

end PolarsLogfmt
