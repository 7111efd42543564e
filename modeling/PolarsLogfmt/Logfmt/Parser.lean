import PolarsLogfmt.Misc.Scan
import PolarsLogfmt.Misc.Utf8

/-!
# The logfmt line parser

`handle_parse_logfmt_line_with_schema_base` of `logfmt.rs` runs over the bytes
of a line with one index. `parseTurn` is one turn of its outer loop, `parseFrom`
the loop; both work on positions, and `handleParseLogfmtLineWithSchemaBase`
reads the slices the callback is given.
-/

namespace PolarsLogfmt

open Scan (scanWhile slice)

/-- `u8::is_ascii_whitespace`. -/
def isAsciiWhitespace (b : UInt8) : Bool :=
  b == 0x20 || b == 0x09 || b == 0x0A || b == 0x0C || b == 0x0D

/-- `b'='`. -/
def equalsSign : UInt8 := 0x3D

/-- The double quote that opens and closes a quoted value. -/
def doubleQuote : UInt8 := 0x22

/-- The backslash, the escape inside a quoted value. -/
def backslash : UInt8 := 0x5C

/-- Where a parsed pair stands in its line: the slices `keyStart..keyEnd` and
`valStart..valEnd`. -/
structure PairSpan where
  keyStart : Nat
  keyEnd : Nat
  valStart : Nat
  valEnd : Nat
deriving DecidableEq, Repr

/-- The loop that looks for the closing quote from `i` on, for a value that
starts at `valStart`: the index it ends with and `val_end`. -/
def scanQuoted (bytes : Bytes) (valStart i : Nat) : Nat × Nat :=
  if h : i < bytes.length then
    if bytes[i] = backslash then scanQuoted bytes valStart (i + 2)
    else if bytes[i] = doubleQuote then (i + 1, i)
    else scanQuoted bytes valStart (i + 1)
  else (i, valStart)
termination_by bytes.length - i

/-- The value that starts at `i`: its slice and the index after it. -/
def parseValue (bytes : Bytes) (i : Nat) : (Nat × Nat) × Nat :=
  if bytes[i]? = some doubleQuote then
    let valStart := i + 1
    let (i, valEnd) := scanQuoted bytes valStart valStart
    -- `val_end` still at the start is taken for "no closing quote"
    let valEnd := if valEnd = valStart then min i bytes.length else valEnd
    ((valStart, valEnd), i)
  else
    let valEnd := scanWhile (fun b => !isAsciiWhitespace b) bytes i
    ((i, valEnd), valEnd)

/-- Skip to the next whitespace, as every malformed token does. -/
def skipToken (bytes : Bytes) (i : Nat) : Nat :=
  scanWhile (fun b => !isAsciiWhitespace b) bytes i

/-- One turn of the outer loop from index `i`: the pair handed to the callback,
if any, and the index the next turn starts at. -/
def parseTurn (bytes : Bytes) (i : Nat) : Option PairSpan × Nat :=
  let i := scanWhile isAsciiWhitespace bytes i
  if bytes.length ≤ i then (none, i)
  else
    let keyStart := i
    let keyEnd := scanWhile (fun b => b != equalsSign && !isAsciiWhitespace b) bytes i
    if keyEnd = keyStart then (none, skipToken bytes keyEnd)
    else if ¬ Utf8.Valid (slice bytes keyStart keyEnd) then (none, skipToken bytes keyEnd)
    else
      let i := scanWhile isAsciiWhitespace bytes keyEnd
      if bytes[i]? ≠ some equalsSign then (none, skipToken bytes i)
      else
        let i := i + 1
        if bytes.length ≤ i then (none, i)
        else
          let ((valStart, valEnd), i) := parseValue bytes i
          (some ⟨keyStart, keyEnd, valStart, valEnd⟩, i)

theorem le_scanQuoted (bytes : Bytes) (valStart i : Nat) :
    i ≤ (scanQuoted bytes valStart i).1 := by
  fun_induction scanQuoted bytes valStart i with
  | case1 i h hb ih => omega
  | case2 i h hb hq => exact Nat.le_succ i
  | case3 i h hb hq ih => omega
  | case4 i h => exact Nat.le_refl i

theorem le_parseValue (bytes : Bytes) (i : Nat) : i ≤ (parseValue bytes i).2 := by
  unfold parseValue
  split
  · exact (Nat.le_succ i).trans (le_scanQuoted bytes (i + 1) (i + 1))
  · exact Scan.le_scanWhile _ bytes i

theorem le_skipToken (bytes : Bytes) (i : Nat) : i ≤ skipToken bytes i :=
  Scan.le_scanWhile _ bytes i

theorem lt_skipToken {bytes : Bytes} {i : Nat} (hi : i < bytes.length)
    (hb : isAsciiWhitespace bytes[i] = false) : i < skipToken bytes i :=
  Scan.lt_scanWhile hi (by rw [hb]; rfl)

/-- Every turn makes progress. -/
theorem lt_parseTurn {bytes : Bytes} {i : Nat} (hi : i < bytes.length) :
    i < (parseTurn bytes i).2 := by
  have hws := Scan.le_scanWhile isAsciiWhitespace bytes i
  unfold parseTurn
  simp only
  split
  · -- only whitespace was left
    omega
  · have hs : scanWhile isAsciiWhitespace bytes i < bytes.length := by omega
    have hnot := Scan.getElem_scanWhile hs
    generalize scanWhile isAsciiWhitespace bytes i = s at hws hs hnot ⊢
    have hkey := Scan.le_scanWhile (fun b => b != equalsSign && !isAsciiWhitespace b) bytes s
    generalize scanWhile (fun b => b != equalsSign && !isAsciiWhitespace b) bytes s = k at hkey ⊢
    have hafter := Scan.le_scanWhile isAsciiWhitespace bytes k
    generalize scanWhile isAsciiWhitespace bytes k = a at hafter ⊢
    split
    · -- an empty key: the token is skipped from its first byte
      have := lt_skipToken hs hnot
      simp_all
      omega
    · have := le_skipToken bytes k
      have := le_skipToken bytes a
      have := le_parseValue bytes (a + 1)
      split
      · simp only
        omega
      · split
        · simp only
          omega
        · split
          · simp only
            omega
          · simp only
            omega

/-- The key of a pair has no blank in it. -/
theorem parseTurn_key {bytes : Bytes} {i : Nat} {s : PairSpan}
    (h : (parseTurn bytes i).1 = some s) :
    ∀ b ∈ slice bytes s.keyStart s.keyEnd, isAsciiWhitespace b = false := by
  unfold parseTurn at h
  simp only at h
  generalize scanWhile isAsciiWhitespace bytes i = start at h
  have hkey := Scan.slice_scanWhile (fun b => b != equalsSign && !isAsciiWhitespace b) bytes start
  generalize scanWhile (fun b => b != equalsSign && !isAsciiWhitespace b) bytes start = stop
    at h hkey
  split at h
  · cases h
  split at h
  · cases h
  split at h
  · cases h
  split at h
  · cases h
  split at h
  · cases h
  cases h
  intro b hb
  rw [hkey] at hb
  have hb := List.mem_takeWhile_imp hb
  simp only [Bool.and_eq_true, Bool.not_eq_true'] at hb
  exact hb.2

/-- The outer loop from index `i`: the pairs handed to the callback, in order. -/
def parseFrom (bytes : Bytes) (i : Nat) : List PairSpan :=
  if _h : i < bytes.length then
    (parseTurn bytes i).1.toList ++ parseFrom bytes (parseTurn bytes i).2
  else []
termination_by bytes.length - i
decreasing_by
  have := lt_parseTurn _h
  omega

theorem parseFrom_key {bytes : Bytes} {i : Nat} {s : PairSpan} (h : s ∈ parseFrom bytes i) :
    ∀ b ∈ slice bytes s.keyStart s.keyEnd, isAsciiWhitespace b = false := by
  fun_induction parseFrom bytes i with
  | case1 i hi ih =>
    rcases List.mem_append.mp h with hturn | hrest
    · exact parseTurn_key (Option.mem_toList.mp hturn)
    · exact ih hrest
  | case2 i hi => cases h

/-- The key and the value text of a pair. -/
def PairSpan.read (bytes : Bytes) (s : PairSpan) : Bytes × Bytes :=
  (slice bytes s.keyStart s.keyEnd, slice bytes s.valStart s.valEnd)

/-- `handle_parse_logfmt_line_with_schema_base`: the calls of its callback. -/
def handleParseLogfmtLineWithSchemaBase (line : Bytes) : List (Bytes × Bytes) :=
  (parseFrom line 0).map (PairSpan.read line)

end PolarsLogfmt
