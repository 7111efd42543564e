import PolarsLogfmt.Lazy.LineReader
import PolarsLogfmt.Logfmt.Value

/-!
# The deprecated line parser

`old_parse_logfmt_line_with_schema` of `logfmt.rs` runs over the characters of a line. It takes
escapes out of a quoted value, and a word without `=` is a token of its own.
-/

namespace PolarsLogfmt

/-- A character of a key. -/
def isKeyChar (c : Char) : Bool := c != '=' && !isWhitespace c

/-- A character of a token. -/
def isTokenChar (c : Char) : Bool := !isWhitespace c

/-- The loop over a quoted value, after the opening quote: its text, and what follows it. -/
def oldQuoted : List Char → List Char × List Char
  | [] => ([], [])
  | c :: it =>
      if c = '\\' then
        match it with
        | [] => ([], [])
        | next :: it =>
            let (value, it) := oldQuoted it
            (next :: value, it)
      else if c = '"' then ([], it)
      else
        let (value, it) := oldQuoted it
        (c :: value, it)

@[simp] theorem oldQuoted_quote (it : List Char) : oldQuoted ('"' :: it) = ([], it) := by
  rw [oldQuoted.eq_def]
  simp

theorem oldQuoted_escaped (next : Char) (it : List Char) :
    oldQuoted ('\\' :: next :: it) = (next :: (oldQuoted it).1, (oldQuoted it).2) := by
  rw [oldQuoted.eq_def]
  simp

theorem oldQuoted_plain {c : Char} (hb : c ≠ '\\') (hq : c ≠ '"') (it : List Char) :
    oldQuoted (c :: it) = (c :: (oldQuoted it).1, (oldQuoted it).2) := by
  rw [oldQuoted.eq_def]
  simp [hb, hq]

theorem oldQuoted_length_le (it : List Char) : (oldQuoted it).2.length ≤ it.length := by
  fun_induction oldQuoted it with
  | case1 => exact Nat.le_refl 0
  | case2 => exact Nat.zero_le _
  | case3 next it value rest hrest ih =>
    rw [hrest] at ih
    exact ih.trans ((Nat.le_succ it.length).trans (Nat.le_succ _))
  | case4 it => exact Nat.le_succ it.length
  | case5 c it hescape hquote value rest hrest ih =>
    rw [hrest] at ih
    exact ih.trans (Nat.le_succ it.length)

/-- The raw value of a pair: whether it was quoted, and its text. -/
structure OldRaw where
  quoted : Bool
  text : List Char
deriving DecidableEq

/-- What follows a key: its pair, if there is a value, and what follows that. -/
def oldAfterKey (key : List Char) : List Char → Option (List Char × OldRaw) × List Char
  | [] => (none, [])
  | e :: it =>
      if e ≠ '=' then (none, (e :: it).dropWhile isTokenChar)
      else
        match it with
        | [] => (none, [])
        | v :: it =>
            if v = '"' then
              let (value, it) := oldQuoted it
              (some (key, ⟨true, value⟩), it)
            else
              (some (key, ⟨false, (v :: it).takeWhile isTokenChar⟩),
              (v :: it).dropWhile isTokenChar)

/-- One turn of the outer loop: the pair put into the map, if any, and what follows. -/
def oldTurn : List Char → Option (List Char × OldRaw) × List Char
  | [] => (none, [])
  | c :: it =>
      if isWhitespace c then (none, it)
      else if isKeyChar c then
        oldAfterKey ((c :: it).takeWhile isKeyChar) ((c :: it).dropWhile isKeyChar)
      else (none, (c :: it).dropWhile isTokenChar)

theorem oldAfterKey_word {e : Char} (he : e ≠ '=') (key it : List Char) :
    oldAfterKey key (e :: it) = (none, (e :: it).dropWhile isTokenChar) := by
  rw [oldAfterKey.eq_def]
  simp [he]

theorem oldAfterKey_quoted (key it : List Char) :
    oldAfterKey key ('=' :: '"' :: it) =
      (some (key, ⟨true, (oldQuoted it).1⟩), (oldQuoted it).2) := by
  rw [oldAfterKey.eq_def]
  simp

theorem oldAfterKey_unquoted {v : Char} (hv : v ≠ '"') (key it : List Char) :
    oldAfterKey key ('=' :: v :: it) =
      (some (key, ⟨false, (v :: it).takeWhile isTokenChar⟩), (v :: it).dropWhile isTokenChar) := by
  rw [oldAfterKey.eq_def]
  simp [hv]

theorem oldTurn_whitespace {c : Char} (h : isWhitespace c = true) (it : List Char) :
    oldTurn (c :: it) = (none, it) := by
  rw [oldTurn, if_pos h]

theorem oldTurn_key {c : Char} (h : isKeyChar c = true) (it : List Char) :
    oldTurn (c :: it) =
      oldAfterKey ((c :: it).takeWhile isKeyChar) ((c :: it).dropWhile isKeyChar) := by
  have hws : ¬ isWhitespace c = true := by
    simpa using (Bool.and_eq_true_iff.mp h).2
  rw [oldTurn, if_neg hws, if_pos h]

theorem oldAfterKey_length_le (key it : List Char) : (oldAfterKey key it).2.length ≤ it.length := by
  fun_cases oldAfterKey key it with
  | case1 => exact Nat.le_refl 0
  | case2 e it hequals => exact (List.dropWhile_sublist isTokenChar).length_le
  | case3 => exact Nat.zero_le _
  | case4 e hequals it value rest hrest =>
    have hquoted := oldQuoted_length_le it
    rw [hrest] at hquoted
    exact hquoted.trans ((Nat.le_succ it.length).trans (Nat.le_succ _))
  | case5 e hequals v it hquote =>
    exact (List.dropWhile_sublist isTokenChar).length_le.trans (Nat.le_succ _)

/-- Every turn makes progress. -/
theorem oldTurn_length_lt {it : List Char} (h : it ≠ []) : (oldTurn it).2.length < it.length := by
  fun_cases oldTurn it with
  | case1 => exact absurd rfl h
  | case2 c it hws => exact Nat.lt_succ_self it.length
  | case3 c it hws hkey =>
    apply Nat.lt_of_le_of_lt (oldAfterKey_length_le _ _)
    rw [List.dropWhile_cons_of_pos hkey]
    exact Nat.lt_succ_of_le (List.dropWhile_sublist isKeyChar).length_le
  | case4 c it hws hkey =>
    rw [List.dropWhile_cons_of_pos (by simp [isTokenChar, hws])]
    exact Nat.lt_succ_of_le (List.dropWhile_sublist isTokenChar).length_le

/-- The outer loop: the pairs put into the map, in order. -/
def oldPairs (it : List Char) : List (List Char × OldRaw) :=
  if _h : it = [] then []
  else (oldTurn it).1.toList ++ oldPairs (oldTurn it).2
termination_by it.length
decreasing_by exact oldTurn_length_lt _h

variable [Crates]

/-- The value of a pair: without a field of the schema a quoted one is a text, and another is
inferred. -/
def oldValue (schema : Option Schema) (key : Bytes) (raw : OldRaw) : ParsedValue :=
  let value := Utf8.encode raw.text
  let field := schema.bind fun schema => schema[key]?
  if raw.quoted then parseValueAs field value
  else
    match field with
    | some .auto | none => inferType value
    | some field => parseValueAs (some field) value

/-- `old_parse_logfmt_line_with_schema`. -/
def oldParseLogfmtLineWithSchema (line : List Char) (schema : Option Schema) : Row :=
  rowOfPairs ((oldPairs line).map fun (key, raw) =>
    (Utf8.encode key, oldValue schema (Utf8.encode key) raw))

end PolarsLogfmt
