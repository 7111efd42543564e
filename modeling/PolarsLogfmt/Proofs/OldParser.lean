import PolarsLogfmt.Logfmt.BareWords
import PolarsLogfmt.Logfmt.OldParser

/-!
# What the deprecated parser reads

The deprecated parser reads every pair of a line, whatever words stand between the pairs, and the
text of a quoted value without its escapes.
-/

namespace PolarsLogfmt

open Scan (takeWhile_append_stop dropWhile_append_stop)

/-! ## Lines -/

/-- A quote or a backslash is written after a backslash. -/
def escape : List Char → List Char
  | [] => []
  | c :: text => if c = '\\' ∨ c = '"' then '\\' :: c :: escape text else c :: escape text

inductive OldFieldValue where
  | unquoted (text : List Char) (ne_nil : text ≠ []) (token : ∀ c ∈ text, isWhitespace c = false)
      (head : text.head? ≠ some '"')
  | quoted (text : List Char)

def OldFieldValue.encode : OldFieldValue → List Char
  | unquoted text _ _ _ => text
  | quoted text => '"' :: escape text ++ ['"']

def OldFieldValue.raw : OldFieldValue → OldRaw
  | unquoted text _ _ _ => ⟨false, text⟩
  | quoted text => ⟨true, text⟩

/-- A pair of a line. -/
structure OldField where
  key : List Char
  value : OldFieldValue
  key_ne_nil : key ≠ []
  key_token : ∀ c ∈ key, isKeyChar c = true

/-- A word of a line that is no pair. -/
structure OldWord where
  text : List Char
  ne_nil : text ≠ []
  token : ∀ c ∈ text, isKeyChar c = true

inductive OldToken where
  | field (f : OldField)
  | word (w : OldWord)

namespace OldToken

def encode : OldToken → List Char
  | field f => f.key ++ '=' :: f.value.encode
  | word w => w.text

/-- The pair of a token. -/
def pair? : OldToken → Option (List Char × OldRaw)
  | field f => some (f.key, f.value.raw)
  | word _ => none

end OldToken

/-- The tokens of a line after the first, each after a space. -/
def afterOldTokens : List OldToken → List Char
  | [] => []
  | t :: tokens => ' ' :: t.encode ++ afterOldTokens tokens

/-- The tokens with a space between them. -/
def oldLine : List OldToken → List Char
  | [] => []
  | t :: tokens => t.encode ++ afterOldTokens tokens

/-! ## Reading them -/

/-- Reading a quoted value takes the escapes out. -/
theorem oldQuoted_escape (text rest : List Char) :
    oldQuoted (escape text ++ '"' :: rest) = (text, rest) := by
  induction text with
  | nil => exact oldQuoted_quote rest
  | cons c text ih =>
    unfold escape
    split
    · rw [List.cons_append, List.cons_append, oldQuoted_escaped, ih]
    · rename_i hplain
      push Not at hplain
      rw [List.cons_append, oldQuoted_plain hplain.1 hplain.2, ih]

/-- A token ends where the next one starts. -/
theorem afterOldTokens_stop {p : Char → Bool} (hp : p ' ' = false) (tokens : List OldToken) :
    (afterOldTokens tokens).takeWhile p = [] := by
  cases tokens with
  | nil => rfl
  | cons t tokens => exact List.takeWhile_cons_of_neg (by simp [hp])

theorem oldAfterKey_value (key : List Char) (value : OldFieldValue) (tokens : List OldToken) :
    oldAfterKey key ('=' :: (value.encode ++ afterOldTokens tokens)) =
      (some (key, value.raw), afterOldTokens tokens) := by
  cases value with
  | quoted text =>
    show oldAfterKey key ('=' :: '"' :: ((escape text ++ ['"']) ++ afterOldTokens tokens)) = _
    rw [oldAfterKey_quoted, List.append_assoc, List.singleton_append, oldQuoted_escape]
    rfl
  | unquoted text hne htoken hhead =>
    cases text with
    | nil => exact absurd rfl hne
    | cons v text =>
      have hquote : v ≠ '"' := by
        rintro rfl
        exact hhead rfl
      have hall : ∀ c ∈ v :: text, isTokenChar c = true := by
        intro c hc
        simp [isTokenChar, htoken c hc]
      have hstop := afterOldTokens_stop (show isTokenChar ' ' = false by decide) tokens
      show oldAfterKey key ('=' :: v :: (text ++ afterOldTokens tokens)) = _
      rw [oldAfterKey_unquoted hquote, ← List.cons_append, takeWhile_append_stop hall hstop,
        dropWhile_append_stop hall hstop]
      rfl

theorem oldTurn_append {key rest : List Char} (hne : key ≠ [])
    (htoken : ∀ c ∈ key, isKeyChar c = true)
    (hstop : rest.takeWhile isKeyChar = []) : oldTurn (key ++ rest) = oldAfterKey key rest := by
  cases key with
  | nil => exact absurd rfl hne
  | cons c key =>
    rw [List.cons_append, oldTurn_key (htoken c List.mem_cons_self), ← List.cons_append,
      takeWhile_append_stop htoken hstop, dropWhile_append_stop htoken hstop]

/-- A turn reads a token. -/
theorem oldTurn_token (t : OldToken) (tokens : List OldToken) :
    oldTurn (t.encode ++ afterOldTokens tokens) = (t.pair?, afterOldTokens tokens) := by
  cases t with
  | field f =>
    show oldTurn ((f.key ++ '=' :: f.value.encode) ++ afterOldTokens tokens) = _
    rw [List.append_assoc, oldTurn_append f.key_ne_nil f.key_token]
    · exact oldAfterKey_value f.key f.value tokens
    · exact List.takeWhile_cons_of_neg (by decide)
  | word w =>
    show oldTurn (w.text ++ afterOldTokens tokens) = _
    rw [oldTurn_append w.ne_nil w.token (afterOldTokens_stop (by decide) tokens)]
    cases tokens with
    | nil => rfl
    | cons t tokens =>
      show oldAfterKey w.text (' ' :: (t.encode ++ afterOldTokens tokens)) = _
      rw [oldAfterKey_word (by decide), List.dropWhile_cons_of_neg (by decide)]
      rfl

theorem oldPairs_of_ne_nil {it : List Char} (h : it ≠ []) :
    oldPairs it = (oldTurn it).1.toList ++ oldPairs (oldTurn it).2 := by
  rw [oldPairs, dif_neg h]

theorem OldToken.encode_ne_nil (t : OldToken) : t.encode ≠ [] := by
  cases t with
  | field f => simp [encode]
  | word w => exact w.ne_nil

/-- Token by token, the loop reads the pairs. -/
theorem oldPairs_oldLine (tokens : List OldToken) :
    oldPairs (oldLine tokens) = tokens.filterMap OldToken.pair? := by
  have hafter : ∀ tokens, oldPairs (afterOldTokens tokens) = oldPairs (oldLine tokens) := by
    intro tokens
    cases tokens with
    | nil => rfl
    | cons t tokens =>
      show oldPairs (' ' :: (t.encode ++ afterOldTokens tokens)) = _
      rw [oldPairs_of_ne_nil (List.cons_ne_nil _ _), oldTurn_whitespace (by decide)]
      rfl
  induction tokens with
  | nil => simp [oldLine, oldPairs]
  | cons t tokens ih =>
    have hne : t.encode ++ afterOldTokens tokens ≠ [] := by simp [t.encode_ne_nil]
    show oldPairs (t.encode ++ afterOldTokens tokens) = _
    rw [oldPairs_of_ne_nil hne, oldTurn_token, hafter, ih, List.filterMap_cons]
    cases t.pair? with
    | none => rfl
    | some pair => rfl

variable [Crates]

/-- The row of a line of tokens has the pairs that were written, the later of two with one key. -/
theorem oldParse_oldLine (tokens : List OldToken) (schema : Option Schema) :
    oldParseLogfmtLineWithSchema (oldLine tokens) schema =
      rowOfPairs ((tokens.filterMap OldToken.pair?).map fun pair =>
        (Utf8.encode pair.1, oldValue schema (Utf8.encode pair.1) pair.2)) := by
  unfold oldParseLogfmtLineWithSchema
  rw [oldPairs_oldLine]

end PolarsLogfmt
