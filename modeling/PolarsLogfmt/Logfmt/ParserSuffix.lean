import PolarsLogfmt.Logfmt.Parser

/-!
# The line parser on the text that is left

The parser of `Logfmt/Parser.lean` keeps one index into the whole line. Here the
same grammar consumes its input: `nextPair` reads one token off the front and
`pairs` the whole text. `handleParseLogfmtLineWithSchemaBase_eq` says that both
read the same pairs, so that statements about lines can be proved by following
the text.
-/

namespace PolarsLogfmt

open Scan (scanWhile slice)

/-- The body of a quoted value up to its closing quote, and what follows the
quote; `none` when the quote is never closed. -/
def quotedBody : Bytes → Option (Bytes × Bytes)
  | [] => none
  | b :: rest =>
      if b = doubleQuote then some ([], rest)
      else if b = backslash then
        match rest with
        | [] => none
        | c :: rest => (quotedBody rest).map fun (body, after) => (b :: c :: body, after)
      else (quotedBody rest).map fun (body, after) => (b :: body, after)

theorem quotedBody_quote (rest : Bytes) : quotedBody (doubleQuote :: rest) = some ([], rest) := by
  rw [quotedBody.eq_def]
  rfl

theorem quotedBody_escape (c : UInt8) (rest : Bytes) :
    quotedBody (backslash :: c :: rest) =
      (quotedBody rest).map fun (body, after) => (backslash :: c :: body, after) := by
  rw [quotedBody.eq_def]
  rfl

theorem quotedBody_plain {b : UInt8} (hq : b ≠ doubleQuote) (hb : b ≠ backslash) (rest : Bytes) :
    quotedBody (b :: rest) = (quotedBody rest).map fun (body, after) => (b :: body, after) := by
  rw [quotedBody.eq_def]
  simp only [if_neg hq, if_neg hb]

theorem head_of_quotedBody_nil {b : UInt8} {rest after : Bytes}
    (h : quotedBody (b :: rest) = some ([], after)) : b = doubleQuote := by
  by_contra hq
  by_cases hb : b = backslash
  · subst hb
    cases rest with
    | nil => cases h
    | cons c rest =>
      rw [quotedBody_escape] at h
      simp at h
  · rw [quotedBody_plain hq hb] at h
    simp at h

/-- A value and what follows it. A quoted value whose body is empty reads as its
closing quote, an unclosed one as the rest of the line. -/
def nextValue (text : Bytes) : Bytes × Bytes :=
  match text with
  | [] => ([], [])
  | b :: rest =>
      if b = doubleQuote then
        match quotedBody rest with
        | some ([], after) => ([doubleQuote], after)
        | some (body, after) => (body, after)
        | none => (rest, [])
      else (text.takeWhile fun b => !isAsciiWhitespace b,
        text.dropWhile fun b => !isAsciiWhitespace b)

/-- One token off the front: its pair, if it is one, and the text after it. -/
def nextPair (text : Bytes) : Option (Bytes × Bytes) × Bytes :=
  let text := text.dropWhile isAsciiWhitespace
  let key := text.takeWhile fun b => b != equalsSign && !isAsciiWhitespace b
  let rest := text.dropWhile fun b => b != equalsSign && !isAsciiWhitespace b
  if text = [] then (none, [])
  else if key = [] ∨ ¬ Utf8.Valid key then (none, rest.dropWhile fun b => !isAsciiWhitespace b)
  else
    match rest.dropWhile isAsciiWhitespace with
    | [] => (none, [])
    | b :: after =>
        if b ≠ equalsSign then (none, (b :: after).dropWhile fun b => !isAsciiWhitespace b)
        else if after = [] then (none, [])
        else (some (key, (nextValue after).1), (nextValue after).2)

theorem drop_skipToken (bytes : Bytes) (i : Nat) :
    bytes.drop (skipToken bytes i) = (bytes.drop i).dropWhile fun b => !isAsciiWhitespace b :=
  Scan.drop_scanWhile _ bytes i

theorem drop_eq_nil {bytes : Bytes} {i : Nat} : bytes.drop i = [] ↔ bytes.length ≤ i :=
  List.drop_eq_nil_iff

/-- The closing quote is found where the body ends. -/
theorem scanQuoted_spec (bytes : Bytes) (valStart i : Nat) :
    match quotedBody (bytes.drop i) with
    | some (body, after) =>
        scanQuoted bytes valStart i = (i + body.length + 1, i + body.length) ∧
          body = (bytes.drop i).take body.length ∧ bytes.drop (i + body.length + 1) = after
    | none => bytes.length ≤ (scanQuoted bytes valStart i).1 ∧
        (scanQuoted bytes valStart i).2 = valStart := by
  fun_induction scanQuoted bytes valStart i with
  | case1 i h hb ih =>
    rw [List.drop_eq_getElem_cons h, hb]
    cases hrest : bytes.drop (i + 1) with
    | nil =>
      have hlen : bytes.length ≤ i + 1 := drop_eq_nil.mp hrest
      have hnext : bytes.drop (i + 2) = [] := drop_eq_nil.mpr (by omega)
      rw [hnext] at ih
      exact ih
    | cons c rest =>
      have hnext : bytes.drop (i + 2) = rest := by
        rw [← List.drop_drop (i := 1) (j := i + 1), hrest]
        rfl
      rw [hnext] at ih
      rw [quotedBody_escape]
      cases hq : quotedBody rest with
      | none =>
        rw [hq] at ih
        exact ih
      | some found =>
        obtain ⟨body, after⟩ := found
        rw [hq] at ih
        obtain ⟨hscan, hbody, hafter⟩ := ih
        simp only [Option.map_some, List.length_cons]
        refine ⟨?_, ?_, ?_⟩
        · rw [hscan, Prod.mk.injEq]
          omega
        · rw [List.take_succ_cons, List.take_succ_cons, ← hbody]
        · rw [← hafter]
          congr 1
          omega
  | case2 i h hb hq =>
    rw [List.drop_eq_getElem_cons h, hq, quotedBody_quote]
    simp
  | case3 i h hb hq ih =>
    rw [List.drop_eq_getElem_cons h, quotedBody_plain hq hb]
    cases hq' : quotedBody (bytes.drop (i + 1)) with
    | none =>
      rw [hq'] at ih
      exact ih
    | some found =>
      obtain ⟨body, after⟩ := found
      rw [hq'] at ih
      obtain ⟨hscan, hbody, hafter⟩ := ih
      simp only [Option.map_some, List.length_cons]
      refine ⟨?_, ?_, ?_⟩
      · rw [hscan, Prod.mk.injEq]
        omega
      · rw [List.take_succ_cons, ← hbody]
      · rw [← hafter]
        congr 1
        omega
  | case4 i h =>
    rw [drop_eq_nil.mpr (Nat.le_of_not_lt h), quotedBody]
    exact ⟨Nat.le_of_not_lt h, rfl⟩

theorem parseValue_spec {bytes : Bytes} {i : Nat} (hi : i < bytes.length) :
    slice bytes (parseValue bytes i).1.1 (parseValue bytes i).1.2 = (nextValue (bytes.drop i)).1 ∧
      bytes.drop (parseValue bytes i).2 = (nextValue (bytes.drop i)).2 := by
  have hdrop := List.drop_eq_getElem_cons hi
  unfold parseValue
  rw [List.getElem?_eq_getElem hi, hdrop, nextValue]
  by_cases hq : bytes[i] = doubleQuote
  · rw [if_pos (by rw [hq]), if_pos hq]
    have hscan := scanQuoted_spec bytes (i + 1) (i + 1)
    cases hbody : quotedBody (bytes.drop (i + 1)) with
    | none =>
      rw [hbody] at hscan
      obtain ⟨hend, hstart⟩ := hscan
      simp only [hstart, if_true]
      refine ⟨?_, drop_eq_nil.mpr hend⟩
      rw [slice, Nat.min_eq_right hend]
      exact List.take_of_length_le (by rw [List.length_drop])
    | some found =>
      obtain ⟨body, after⟩ := found
      rw [hbody] at hscan
      obtain ⟨hscan, htake, hafter⟩ := hscan
      simp only [hscan]
      cases body with
      | nil =>
        -- the closing quote comes first: the slice is the quote itself
        have hlen : i + 1 < bytes.length := by
          by_contra hge
          rw [drop_eq_nil.mpr (Nat.le_of_not_lt hge)] at hbody
          cases hbody
        have hclose : bytes[i + 1] = doubleQuote := by
          rw [List.drop_eq_getElem_cons hlen] at hbody
          exact head_of_quotedBody_nil hbody
        refine ⟨?_, hafter⟩
        simp only [List.length_nil, Nat.add_zero, if_true]
        rw [Nat.min_eq_left (by omega), slice, Nat.add_sub_cancel_left,
          List.drop_eq_getElem_cons hlen, hclose]
        rfl
      | cons b body =>
        refine ⟨?_, hafter⟩
        rw [if_neg (by simp)]
        simp only [slice, Nat.add_sub_cancel_left]
        exact htake.symm
  · have hne : some bytes[i] ≠ some doubleQuote := fun h => hq (Option.some.inj h)
    rw [if_neg hne, if_neg hq, ← hdrop]
    exact ⟨Scan.slice_scanWhile _ bytes i, Scan.drop_scanWhile _ bytes i⟩

/-- One turn of the loop reads the token at the front of the text that is left. -/
theorem parseTurn_spec (bytes : Bytes) (i : Nat) :
    (parseTurn bytes i).1.map (PairSpan.read bytes) = (nextPair (bytes.drop i)).1 ∧
      bytes.drop (parseTurn bytes i).2 = (nextPair (bytes.drop i)).2 := by
  unfold parseTurn nextPair
  simp only
  rw [← Scan.drop_scanWhile isAsciiWhitespace bytes i]
  generalize scanWhile isAsciiWhitespace bytes i = s
  rw [← Scan.drop_scanWhile, ← Scan.slice_scanWhile, ← drop_skipToken]
  generalize hk : scanWhile (fun b => b != equalsSign && !isAsciiWhitespace b) bytes s = k
  have hkey : slice bytes s k = [] ↔ k = s := by
    rw [← hk, Scan.slice_scanWhile, Scan.scanWhile_eq_self]
  by_cases hend : bytes.length ≤ s
  · rw [if_pos hend, if_pos (drop_eq_nil.mpr hend)]
    exact ⟨rfl, drop_eq_nil.mpr hend⟩
  rw [if_neg hend, if_neg (fun h => hend (drop_eq_nil.mp h))]
  by_cases hempty : k = s
  · rw [if_pos hempty, if_pos (.inl (hkey.mpr hempty))]
    exact ⟨rfl, rfl⟩
  rw [if_neg hempty]
  by_cases hvalid : Utf8.Valid (slice bytes s k)
  · have hok : ¬ (slice bytes s k = [] ∨ ¬ Utf8.Valid (slice bytes s k)) := by
      rintro (h | h)
      · exact hempty (hkey.mp h)
      · exact h hvalid
    rw [if_neg (not_not.mpr hvalid), if_neg hok]
    rw [← Scan.drop_scanWhile isAsciiWhitespace bytes k]
    generalize scanWhile isAsciiWhitespace bytes k = a
    by_cases ha : a < bytes.length
    · rw [List.getElem?_eq_getElem ha, List.drop_eq_getElem_cons ha]
      simp only
      by_cases heq : bytes[a] = equalsSign
      · rw [if_neg (not_not.mpr (by rw [heq])), if_neg (not_not.mpr heq)]
        by_cases hnil : bytes.length ≤ a + 1
        · rw [if_pos hnil, if_pos (drop_eq_nil.mpr hnil)]
          exact ⟨rfl, drop_eq_nil.mpr hnil⟩
        · rw [if_neg hnil, if_neg (fun h => hnil (drop_eq_nil.mp h))]
          obtain ⟨hval, hrest⟩ := parseValue_spec (Nat.lt_of_not_le hnil)
          exact ⟨by simp only [Option.map_some, PairSpan.read, hval], hrest⟩
      · rw [if_pos (fun h => heq (Option.some.inj h)), if_pos heq, ← List.drop_eq_getElem_cons ha]
        exact ⟨rfl, drop_skipToken bytes a⟩
    · have hge : bytes.length ≤ a := Nat.le_of_not_lt ha
      rw [List.getElem?_eq_none hge, drop_eq_nil.mpr hge, if_pos (by simp)]
      exact ⟨rfl, drop_eq_nil.mpr (hge.trans (le_skipToken bytes a))⟩
  · rw [if_pos hvalid, if_pos (.inr hvalid)]
    exact ⟨rfl, rfl⟩

theorem length_nextPair_lt {text : Bytes} (h : text ≠ []) :
    (nextPair text).2.length < text.length := by
  have hpos : 0 < text.length := List.length_pos_of_ne_nil h
  have hturn : 0 < (parseTurn text 0).2 := lt_parseTurn hpos
  have hspec := (parseTurn_spec text 0).2
  rw [List.drop_zero] at hspec
  rw [← hspec, List.length_drop]
  omega

/-- The pairs of a text. -/
def pairs (text : Bytes) : List (Bytes × Bytes) :=
  if _h : text = [] then []
  else (nextPair text).1.toList ++ pairs (nextPair text).2
termination_by text.length
decreasing_by exact length_nextPair_lt _h

@[simp] theorem pairs_nil : pairs [] = [] := by
  rw [pairs, dif_pos rfl]

theorem pairs_of_ne_nil {text : Bytes} (h : text ≠ []) :
    pairs text = (nextPair text).1.toList ++ pairs (nextPair text).2 := by
  rw [pairs, dif_neg h]

theorem parseFrom_eq (bytes : Bytes) (i : Nat) :
    (parseFrom bytes i).map (PairSpan.read bytes) = pairs (bytes.drop i) := by
  fun_induction parseFrom bytes i with
  | case1 i h ih =>
    have hne : bytes.drop i ≠ [] := fun hnil => by
      have := drop_eq_nil.mp hnil
      omega
    obtain ⟨hpair, hrest⟩ := parseTurn_spec bytes i
    rw [List.map_append, ih, pairs_of_ne_nil hne, hrest, ← hpair, Option.toList_map]
  | case2 i h =>
    rw [drop_eq_nil.mpr (Nat.le_of_not_lt h), pairs_nil, List.map_nil]

/-- The callback is given the pairs of the text. -/
theorem handleParseLogfmtLineWithSchemaBase_eq (line : Bytes) :
    handleParseLogfmtLineWithSchemaBase line = pairs line := by
  rw [handleParseLogfmtLineWithSchemaBase, parseFrom_eq, List.drop_zero]

end PolarsLogfmt
