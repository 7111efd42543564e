import PolarsLogfmt.Logfmt.ParserSuffix

/-!
# The end of a line

The parser is given a line as `read_line` returns it, with its terminator or, at the
end of a file, without. A line in which the last value is still open reads
differently then: `k=` gives no pair without a terminator and an empty value with one,
and a quoted value that is not closed takes the terminator in. `pairs_append_ending`
says that there is no other difference.
-/

namespace PolarsLogfmt

/-- A carriage return. -/
def carriageReturn : UInt8 := 0x0D

/-- A line feed. -/
def lineFeed : UInt8 := 0x0A

/-- How `read_line` may end a line: `"\n"` or `"\r\n"`. -/
inductive LineEnding where
  | lf
  | crlf

def LineEnding.bytes : LineEnding → Bytes
  | .lf => [lineFeed]
  | .crlf => [carriageReturn, lineFeed]

/-- What follows an `=` leaves its value open: it is nothing, or a quote that is not closed. -/
def LeftOpen : Bytes → Prop
  | [] => True
  | q :: body => q = doubleQuote ∧ quotedBody body = none

/-- The token at the front of a text opens a value the text does not close. -/
def OpensValue (text : Bytes) : Prop :=
  let text := text.dropWhile isAsciiWhitespace
  let key := text.takeWhile fun b => b != equalsSign && !isAsciiWhitespace b
  let rest := text.dropWhile fun b => b != equalsSign && !isAsciiWhitespace b
  key ≠ [] ∧ Utf8.Valid key ∧
    match rest.dropWhile isAsciiWhitespace with
    | [] => False
    | b :: after => b = equalsSign ∧ LeftOpen after

/-- The last value of the text is still open at its end. -/
def EndsOpen (text : Bytes) : Prop :=
  if _h : text = [] then False
  else OpensValue text ∨ EndsOpen (nextPair text).2
termination_by text.length
decreasing_by exact length_nextPair_lt _h

theorem endsOpen_nil : ¬ EndsOpen [] := by
  rw [EndsOpen, dif_pos rfl]
  exact id

theorem endsOpen_iff {text : Bytes} (h : text ≠ []) :
    EndsOpen text ↔ OpensValue text ∨ EndsOpen (nextPair text).2 := by
  rw [EndsOpen, dif_neg h]

/-! ## A quoted value -/

theorem quotedBody_append {text body after : Bytes} (h : quotedBody text = some (body, after))
    (more : Bytes) : quotedBody (text ++ more) = some (body, after ++ more) := by
  induction text using quotedBody.induct generalizing body after with
  | case1 => cases h
  | case2 rest =>
    rw [quotedBody_quote] at h
    cases h
    exact quotedBody_quote _
  | case3 hq =>
    rw [quotedBody.eq_def] at h
    simp [backslash, doubleQuote] at h
  | case4 c rest hq ih =>
    rw [quotedBody_escape] at h
    obtain ⟨⟨body', after'⟩, hrest, heq⟩ := Option.map_eq_some_iff.mp h
    cases heq
    rw [List.cons_append, List.cons_append, quotedBody_escape, ih hrest]
    rfl
  | case5 b rest hq hb ih =>
    rw [quotedBody_plain hq hb] at h
    obtain ⟨⟨body', after'⟩, hrest, heq⟩ := Option.map_eq_some_iff.mp h
    cases heq
    rw [List.cons_append, quotedBody_plain hq hb, ih hrest]
    rfl

theorem quotedBody_eq_none {text : Bytes} (h : doubleQuote ∉ text) : quotedBody text = none := by
  induction text using quotedBody.induct with
  | case1 => rw [quotedBody]
  | case2 rest => exact absurd List.mem_cons_self h
  | case3 hq =>
    rw [quotedBody.eq_def]
    simp [backslash, doubleQuote]
  | case4 c rest hq ih =>
    rw [quotedBody_escape, ih (by simpa using fun hr => h (by simp [hr]))]
    rfl
  | case5 b rest hq hb ih =>
    rw [quotedBody_plain hq hb, ih fun hr => h (List.mem_cons_of_mem _ hr)]
    rfl

/-- A quote that is not closed is not closed by more text without quotes. -/
theorem quotedBody_append_none {text more : Bytes} (h : quotedBody text = none)
    (hmore : doubleQuote ∉ more) : quotedBody (text ++ more) = none := by
  induction text using quotedBody.induct with
  | case1 => exact quotedBody_eq_none hmore
  | case2 rest =>
    rw [quotedBody_quote] at h
    cases h
  | case3 hq =>
    -- the last backslash escapes the first byte of what follows
    cases more with
    | nil => exact h
    | cons c more =>
      rw [List.cons_append, List.nil_append, quotedBody_escape,
        quotedBody_eq_none fun hr => hmore (List.mem_cons_of_mem _ hr)]
      rfl
  | case4 c rest hq ih =>
    rw [quotedBody_escape, Option.map_eq_none_iff] at h
    rw [List.cons_append, List.cons_append, quotedBody_escape, ih h]
    rfl
  | case5 b rest hq hb ih =>
    rw [quotedBody_plain hq hb, Option.map_eq_none_iff] at h
    rw [List.cons_append, quotedBody_plain hq hb, ih h]
    rfl

/-! ## A line and its ending -/

namespace LineEnding

theorem ne_nil (e : LineEnding) : e.bytes ≠ [] := by cases e <;> simp [bytes]

theorem quote_not_mem (e : LineEnding) : doubleQuote ∉ e.bytes := by cases e <;> decide

theorem dropWhile_whitespace (e : LineEnding) : e.bytes.dropWhile isAsciiWhitespace = [] := by
  cases e <;> decide

theorem takeWhile_key (e : LineEnding) :
    e.bytes.takeWhile (fun b => b != equalsSign && !isAsciiWhitespace b) = [] := by
  cases e <;> decide

theorem takeWhile_token (e : LineEnding) :
    e.bytes.takeWhile (fun b => !isAsciiWhitespace b) = [] := by
  cases e <;> decide

theorem nextValue (e : LineEnding) : PolarsLogfmt.nextValue e.bytes = ([], e.bytes) := by
  cases e <;> decide

end LineEnding

theorem pairs_ending (e : LineEnding) : pairs e.bytes = [] := by
  cases e <;> decide +kernel

/-- Whitespace before an ending leaves the ending, or nothing. -/
theorem dropWhile_append_ending (e : LineEnding) (text : Bytes) :
    (text ++ e.bytes).dropWhile isAsciiWhitespace =
      if text.dropWhile isAsciiWhitespace = [] then []
      else text.dropWhile isAsciiWhitespace ++ e.bytes := by
  rw [List.dropWhile_append, e.dropWhile_whitespace]
  by_cases h : text.dropWhile isAsciiWhitespace = []
  · rw [h]
    rfl
  · rw [if_neg h, if_neg (by simpa using h)]

/-- A value the text closes is read as it is without the ending. -/
theorem nextValue_append {text : Bytes} (hne : text ≠ [])
    (hclosed : ∀ body, text = doubleQuote :: body → quotedBody body ≠ none) (e : LineEnding) :
    nextValue (text ++ e.bytes) = ((nextValue text).1, (nextValue text).2 ++ e.bytes) := by
  obtain ⟨b, rest, rfl⟩ := List.exists_cons_of_ne_nil hne
  rw [List.cons_append, nextValue, nextValue]
  by_cases hb : b = doubleQuote
  · subst hb
    rw [if_pos rfl, if_pos rfl]
    obtain ⟨⟨body, after⟩, hbody⟩ := Option.ne_none_iff_exists'.mp (hclosed rest rfl)
    rw [quotedBody_append hbody, hbody]
    cases body with
    | nil => rfl
    | cons c body => rfl
  · rw [if_neg hb, if_neg hb, ← List.cons_append, Scan.takeWhile_append_of_stop e.takeWhile_token,
      Scan.dropWhile_append_of_stop e.takeWhile_token]

/-- A token the text closes is read as it is without the ending, which is left, or skipped
with the rest. -/
theorem nextPair_append {text : Bytes} (hclosed : ¬ OpensValue text) (e : LineEnding) :
    (nextPair (text ++ e.bytes)).1 = (nextPair text).1 ∧
      ((nextPair (text ++ e.bytes)).2 = (nextPair text).2 ++ e.bytes ∨
        (nextPair (text ++ e.bytes)).2 = [] ∧ (nextPair text).2 = []) := by
  unfold OpensValue at hclosed
  unfold nextPair
  simp only [dropWhile_append_ending] at hclosed ⊢
  generalize text.dropWhile isAsciiWhitespace = start at hclosed ⊢
  by_cases hstart : start = []
  · simp [hstart]
  rw [if_neg hstart, if_neg hstart, if_neg (by simp [hstart])]
  rw [Scan.takeWhile_append_of_stop e.takeWhile_key, Scan.dropWhile_append_of_stop e.takeWhile_key]
  generalize start.takeWhile (fun b => b != equalsSign && !isAsciiWhitespace b) = key at hclosed ⊢
  generalize start.dropWhile (fun b => b != equalsSign && !isAsciiWhitespace b) = rest at hclosed ⊢
  by_cases hkey : key = [] ∨ ¬ Utf8.Valid key
  · rw [if_pos hkey, if_pos hkey, Scan.dropWhile_append_of_stop e.takeWhile_token]
    exact ⟨rfl, .inl rfl⟩
  rw [if_neg hkey, if_neg hkey]
  obtain ⟨hne, hvalid⟩ : key ≠ [] ∧ Utf8.Valid key := by
    push Not at hkey
    exact hkey
  rw [dropWhile_append_ending]
  cases hrest : rest.dropWhile isAsciiWhitespace with
  | nil => simp
  | cons b after =>
    rw [if_neg (by simp), List.cons_append]
    rw [hrest] at hclosed
    by_cases hb : b = equalsSign
    · subst hb
      have hopen : ¬ LeftOpen after := fun h => hclosed ⟨hne, hvalid, rfl, h⟩
      have hafter : after ≠ [] := by
        rintro rfl
        exact hopen trivial
      have hquote : ∀ body, after = doubleQuote :: body → quotedBody body ≠ none := by
        rintro body rfl hnone
        exact hopen ⟨rfl, hnone⟩
      have hvalue := nextValue_append hafter hquote e
      simp [hafter, hvalue]
    · simp only [ne_eq, hb, not_false_eq_true, if_true]
      rw [← List.cons_append, Scan.dropWhile_append_of_stop e.takeWhile_token]
      simp

/-- A value that is open at the end reads differently with an ending. -/
theorem pairs_append_of_opensValue {text : Bytes} (hopen : OpensValue text) (e : LineEnding) :
    pairs (text ++ e.bytes) ≠ pairs text := by
  have hne : text ≠ [] := by
    rintro rfl
    exact hopen.1 rfl
  rw [pairs_of_ne_nil (by simp [hne]), pairs_of_ne_nil hne]
  unfold OpensValue at hopen
  unfold nextPair
  simp only [dropWhile_append_ending] at hopen ⊢
  generalize text.dropWhile isAsciiWhitespace = start at hopen ⊢
  have hstart : start ≠ [] := by
    rintro rfl
    exact hopen.1 rfl
  rw [if_neg hstart, if_neg hstart, if_neg (by simp [hstart])]
  rw [Scan.takeWhile_append_of_stop e.takeWhile_key, Scan.dropWhile_append_of_stop e.takeWhile_key]
  generalize start.takeWhile (fun b => b != equalsSign && !isAsciiWhitespace b) = key at hopen ⊢
  generalize start.dropWhile (fun b => b != equalsSign && !isAsciiWhitespace b) = rest at hopen ⊢
  obtain ⟨hkey, hvalid, hmatch⟩ := hopen
  have hok : ¬ (key = [] ∨ ¬ Utf8.Valid key) := by
    rintro (h | h)
    · exact hkey h
    · exact h hvalid
  rw [if_neg hok, if_neg hok, dropWhile_append_ending]
  cases hrest : rest.dropWhile isAsciiWhitespace with
  | nil =>
    rw [hrest] at hmatch
    exact hmatch.elim
  | cons b after =>
    rw [hrest] at hmatch
    obtain ⟨rfl, hafter⟩ := hmatch
    rw [if_neg (by simp), List.cons_append]
    cases after with
    | nil => simp [e.ne_nil, e.nextValue]
    | cons q body =>
      obtain ⟨rfl, hbody⟩ := hafter
      have hmore := quotedBody_append_none hbody e.quote_not_mem
      simp [nextValue, hbody, hmore, e.ne_nil]

/-- An ending makes no difference exactly when every value of the line is closed. -/
theorem pairs_append_ending (line : Bytes) (e : LineEnding) :
    pairs (line ++ e.bytes) = pairs line ↔ ¬ EndsOpen line := by
  -- by induction on the line, token by token
  induction hlen : line.length using Nat.strong_induction_on generalizing line with
  | _ n ih =>
    by_cases hne : line = []
    · subst hne
      rw [List.nil_append, pairs_ending, pairs_nil]
      exact iff_of_true rfl endsOpen_nil
    rw [endsOpen_iff hne]
    by_cases hopen : OpensValue line
    · exact iff_of_false (pairs_append_of_opensValue hopen e) (fun h => h (.inl hopen))
    obtain ⟨hpair, hrest⟩ := nextPair_append hopen e
    have ih := ih (nextPair line).2.length (hlen ▸ length_nextPair_lt hne) _ rfl
    rw [pairs_of_ne_nil (by simp [hne]), pairs_of_ne_nil hne, hpair, List.append_cancel_left_eq,
      or_iff_right hopen]
    rcases hrest with hrest | ⟨hrest, hnil⟩
    · rw [hrest, ih]
    · rw [hrest, hnil]
      exact iff_of_true rfl endsOpen_nil

/-- The terminator of a line carries no meaning exactly when every value of the line is
closed. -/
theorem handleParse_ending (line : Bytes) :
    (∀ e : LineEnding, handleParseLogfmtLineWithSchemaBase (line ++ e.bytes) =
        handleParseLogfmtLineWithSchemaBase line) ↔ ¬ EndsOpen line := by
  simp only [handleParseLogfmtLineWithSchemaBase_eq, pairs_append_ending]
  exact ⟨fun h => h .lf, fun h _ => h⟩

/-- `k=` has no pair, and an empty value once it ends in a newline; an open quote takes the
newline in. -/
theorem handleParse_ending_open :
    handleParseLogfmtLineWithSchemaBase (Utf8.ofString "k=") = [] ∧
      handleParseLogfmtLineWithSchemaBase (Utf8.ofString "k=" ++ LineEnding.lf.bytes) =
        [(Utf8.ofString "k", [])] ∧
      handleParseLogfmtLineWithSchemaBase (Utf8.ofString "k=\"v" ++ LineEnding.lf.bytes) =
        [(Utf8.ofString "k", Utf8.ofString "v" ++ LineEnding.lf.bytes)] ∧
      ¬ ∀ line : Bytes, carriageReturn ∉ line → lineFeed ∉ line → ∀ e : LineEnding,
        handleParseLogfmtLineWithSchemaBase (line ++ e.bytes) =
          handleParseLogfmtLineWithSchemaBase line := by
  have hbare : handleParseLogfmtLineWithSchemaBase (Utf8.ofString "k=") = [] := by decide +kernel
  have hended : handleParseLogfmtLineWithSchemaBase (Utf8.ofString "k=" ++ LineEnding.lf.bytes) =
      [(Utf8.ofString "k", [])] := by decide +kernel
  refine ⟨hbare, hended, by decide +kernel, fun h => ?_⟩
  have := h (Utf8.ofString "k=") (by decide +kernel) (by decide +kernel) .lf
  rw [hbare, hended] at this
  cases this

end PolarsLogfmt
