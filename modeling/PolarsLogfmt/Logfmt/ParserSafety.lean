import PolarsLogfmt.Logfmt.Parser

/-!
# The line parser stays inside its line

The parser indexes and slices the bytes of the line, and takes two of the slices for text
without a check. `handleParseChecked` is the same parser with every access checked;
`handleParseChecked_eq` says that on a text no check fails, and `sound_of_mem_parseFrom`
and `parseFrom_increasing` where the pairs it reports stand.
-/

namespace PolarsLogfmt

open Scan (scanWhile slice)

/-! ## The parser with its accesses checked -/

/-- What an access can do wrong. -/
inductive Fault where
  | index
  | slice
  | notUtf8
  /-- The outer loop has taken more turns than the line has bytes. -/
  | turns
deriving DecidableEq, Repr

/-- `bytes[i]`. -/
def byteAt (bytes : Bytes) (i : Nat) : Except Fault UInt8 :=
  match bytes[i]? with
  | some b => .ok b
  | none => .error .index

/-- `&bytes[start..stop]`. -/
def sliceAt (bytes : Bytes) (start stop : Nat) : Except Fault Bytes :=
  if start ≤ stop ∧ stop ≤ bytes.length then .ok (slice bytes start stop) else .error .slice

/-- `from_utf8_unchecked`, checked. -/
def fromUtf8Unchecked (s : Bytes) : Except Fault Bytes :=
  if Utf8.Valid s then .ok s else .error .notUtf8

/-- `while i < n && p(bytes[i]) { i += 1 }`. -/
def scanWhileChecked (p : UInt8 → Bool) (bytes : Bytes) (i : Nat) : Except Fault Nat :=
  if _h : i < bytes.length then
    (byteAt bytes i).bind fun b => if p b then scanWhileChecked p bytes (i + 1) else .ok i
  else .ok i
termination_by bytes.length - i

/-- The loop that looks for the closing quote. -/
def scanQuotedChecked (bytes : Bytes) (valStart i : Nat) : Except Fault (Nat × Nat) :=
  if _h : i < bytes.length then
    (byteAt bytes i).bind fun b =>
      if b = backslash then scanQuotedChecked bytes valStart (i + 2)
      else if b = doubleQuote then .ok (i + 1, i)
      else scanQuotedChecked bytes valStart (i + 1)
  else .ok (i, valStart)
termination_by bytes.length - i

/-- The value that starts at `i`, and the index after it. -/
def parseValueChecked (bytes : Bytes) (i : Nat) : Except Fault (Bytes × Nat) :=
  (byteAt bytes i).bind fun b =>
    if b = doubleQuote then
      (scanQuotedChecked bytes (i + 1) (i + 1)).bind fun (next, found) =>
        let valEnd := if found = i + 1 then min next bytes.length else found
        (sliceAt bytes (i + 1) valEnd).bind fun value =>
          (fromUtf8Unchecked value).map fun text => (text, next)
    else
      (scanWhileChecked (fun b => !isAsciiWhitespace b) bytes i).bind fun valEnd =>
        (sliceAt bytes i valEnd).bind fun value =>
          (fromUtf8Unchecked value).map fun text => (text, valEnd)

/-- Skip to the next whitespace, with no pair. -/
def skipChecked (bytes : Bytes) (i : Nat) : Except Fault (Option (Bytes × Bytes) × Nat) :=
  (scanWhileChecked (fun b => !isAsciiWhitespace b) bytes i).map fun i => (none, i)

/-- `i >= n || bytes[i] != b'='`. -/
def notEquals (bytes : Bytes) (i : Nat) : Except Fault Bool :=
  if bytes.length ≤ i then .ok true else (byteAt bytes i).map (· != equalsSign)

/-- One turn of the outer loop. -/
def parseTurnChecked (bytes : Bytes) (i : Nat) : Except Fault (Option (Bytes × Bytes) × Nat) :=
  (scanWhileChecked isAsciiWhitespace bytes i).bind fun keyStart =>
    if bytes.length ≤ keyStart then .ok (none, keyStart)
    else
      (scanWhileChecked (fun b => b != equalsSign && !isAsciiWhitespace b) bytes keyStart).bind
        fun keyEnd =>
          if keyEnd = keyStart then skipChecked bytes keyEnd
          else
            (sliceAt bytes keyStart keyEnd).bind fun key =>
              if ¬ Utf8.Valid key then skipChecked bytes keyEnd
              else
                (scanWhileChecked isAsciiWhitespace bytes keyEnd).bind fun i =>
                  (notEquals bytes i).bind fun malformed =>
                    if malformed then skipChecked bytes i
                    else if bytes.length ≤ i + 1 then .ok (none, i + 1)
                    else
                      (parseValueChecked bytes (i + 1)).map fun (value, i) =>
                        (some (key, value), i)

/-- The outer loop, with so many turns left. -/
def parseFromChecked (bytes : Bytes) : Nat → Nat → Except Fault (List (Bytes × Bytes))
  | 0, i => if bytes.length ≤ i then .ok [] else .error .turns
  | turns + 1, i =>
      if bytes.length ≤ i then .ok []
      else
        (parseTurnChecked bytes i).bind fun (pair, i) =>
          (parseFromChecked bytes turns i).map (pair.toList ++ ·)

/-- `handle_parse_logfmt_line_with_schema_base` with every access checked; the outer loop
has as many turns as the line has bytes. -/
def handleParseChecked (line : Bytes) : Except Fault (List (Bytes × Bytes)) :=
  parseFromChecked line line.length 0

/-! ## Where a turn stops -/

/-- The position is the end of the text or that of an ASCII byte. -/
def Stop (bytes : Bytes) (i : Nat) : Prop :=
  i = bytes.length ∨ ∃ h : i < bytes.length, bytes[i].toNat < 128

theorem Stop.boundary {bytes : Bytes} (hv : Utf8.Valid bytes) {i : Nat} (h : Stop bytes i) :
    Utf8.Boundary bytes i := by
  rcases h with rfl | ⟨hi, hb⟩
  · exact Utf8.boundary_length hv
  · exact (Utf8.boundary_of_ascii hv hi hb).1

theorem Stop.le {bytes : Bytes} {i : Nat} (h : Stop bytes i) : i ≤ bytes.length := by
  rcases h with rfl | ⟨hi, -⟩
  · exact Nat.le_refl _
  · exact hi.le

theorem isAscii_of_whitespace {b : UInt8} (h : isAsciiWhitespace b = true) : b.toNat < 128 := by
  simp only [isAsciiWhitespace, Bool.or_eq_true, beq_iff_eq] at h
  rcases h with (((rfl | rfl) | rfl) | rfl) | rfl <;> decide

theorem scanWhile_le {p : UInt8 → Bool} {bytes : Bytes} {i : Nat} (hi : i ≤ bytes.length) :
    scanWhile p bytes i ≤ bytes.length := by
  fun_induction scanWhile p bytes i with
  | case1 i h hp ih => exact ih h
  | case2 i h hp => exact hi
  | case3 i h => exact hi

/-- A scan that only ASCII bytes end stops at one or at the end. -/
theorem stop_scanWhile {p : UInt8 → Bool} (hp : ∀ b, p b = false → b.toNat < 128) {bytes : Bytes}
    {i : Nat} (hi : i ≤ bytes.length) : Stop bytes (scanWhile p bytes i) := by
  by_cases hend : scanWhile p bytes i < bytes.length
  · exact .inr ⟨hend, hp _ (Scan.getElem_scanWhile hend)⟩
  · exact .inl (Nat.le_antisymm (scanWhile_le hi) (Nat.le_of_not_lt hend))

theorem stop_token {bytes : Bytes} {i : Nat} (hi : i ≤ bytes.length) :
    Stop bytes (scanWhile (fun b => !isAsciiWhitespace b) bytes i) :=
  stop_scanWhile (fun _ hb => isAscii_of_whitespace (by simpa using hb)) hi

theorem stop_key {bytes : Bytes} {i : Nat} (hi : i ≤ bytes.length) :
    Stop bytes (scanWhile (fun b => b != equalsSign && !isAsciiWhitespace b) bytes i) := by
  refine stop_scanWhile (fun b hb => ?_) hi
  by_cases heq : b = equalsSign
  · subst heq
    decide
  · exact isAscii_of_whitespace (by simpa [heq] using hb)

/-- A scan over ASCII bytes goes from boundary to boundary. -/
theorem boundary_scanWhile {p : UInt8 → Bool} (hp : ∀ b, p b = true → b.toNat < 128)
    {bytes : Bytes} (hv : Utf8.Valid bytes) {i : Nat} (hi : Utf8.Boundary bytes i) :
    Utf8.Boundary bytes (scanWhile p bytes i) := by
  fun_induction scanWhile p bytes i with
  | case1 i h hpi ih => exact ih (Utf8.boundary_of_ascii hv h (hp _ hpi)).2
  | case2 i h hpi => exact hi
  | case3 i h => exact hi

/-- The closing quote, if there is one, is a quote after the start of the search. -/
theorem scanQuoted_cases (bytes : Bytes) (valStart i : Nat) :
    (∃ (stop : Nat) (h : stop < bytes.length), i ≤ stop ∧ bytes[stop] = doubleQuote ∧
        scanQuoted bytes valStart i = (stop + 1, stop)) ∨
      ∃ stop, bytes.length ≤ stop ∧ scanQuoted bytes valStart i = (stop, valStart) := by
  fun_induction scanQuoted bytes valStart i with
  | case1 i h hb ih =>
    rcases ih with ⟨stop, hlt, hle, hq, heq⟩ | hopen
    · exact .inl ⟨stop, hlt, by omega, hq, heq⟩
    · exact .inr hopen
  | case2 i h hb hq => exact .inl ⟨i, h, Nat.le_refl i, hq, rfl⟩
  | case3 i h hb hq ih =>
    rcases ih with ⟨stop, hlt, hle, hq', heq⟩ | hopen
    · exact .inl ⟨stop, hlt, by omega, hq', heq⟩
    · exact .inr hopen
  | case4 i h => exact .inr ⟨i, Nat.le_of_not_lt h, rfl⟩

/-- A quote is ASCII. -/
theorem stop_quote {bytes : Bytes} {i : Nat} (hi : i < bytes.length)
    (hq : bytes[i] = doubleQuote) : Stop bytes i := .inr ⟨hi, by rw [hq]; decide⟩

/-! ## Where a pair stands -/

/-- What is promised of the slices of a pair. -/
structure PairSpan.Sound (bytes : Bytes) (s : PairSpan) : Prop where
  key_lt : s.keyStart < s.keyEnd
  key_before : s.keyEnd < s.valStart
  val_le : s.valStart ≤ s.valEnd
  key_start : Utf8.Boundary bytes s.keyStart
  key_end : Utf8.Boundary bytes s.keyEnd
  val_start : Utf8.Boundary bytes s.valStart
  val_end : Utf8.Boundary bytes s.valEnd
  val_valid : Utf8.Valid (slice bytes s.valStart s.valEnd)
  key_token : ∀ b ∈ slice bytes s.keyStart s.keyEnd, b ≠ equalsSign ∧ isAsciiWhitespace b = false
  val_token : bytes[s.valStart - 1]? ≠ some doubleQuote →
    ∀ b ∈ slice bytes s.valStart s.valEnd, isAsciiWhitespace b = false

/-- What is promised of a value that starts at `i`, and of the index after it. -/
structure ValueSound (bytes : Bytes) (i : Nat) (value : (Nat × Nat) × Nat) : Prop where
  le_start : i ≤ value.1.1
  start_le : value.1.1 ≤ value.1.2
  start : Utf8.Boundary bytes value.1.1
  stop : Utf8.Boundary bytes value.1.2
  valid : Utf8.Valid (slice bytes value.1.1 value.1.2)
  token : bytes[value.1.1 - 1]? ≠ some doubleQuote →
    ∀ b ∈ slice bytes value.1.1 value.1.2, isAsciiWhitespace b = false
  stop_le : value.1.2 ≤ value.2
  next : value.2 < bytes.length → Utf8.Boundary bytes value.2
  /-- The index moves past the start of the value, or stands on whitespace. -/
  moves : ∀ h : value.2 < bytes.length,
    value.1.1 < value.2 ∨ isAsciiWhitespace bytes[value.2] = true

theorem parseValue_sound {bytes : Bytes} (hv : Utf8.Valid bytes) {i : Nat} (hi : i < bytes.length)
    (hstart : Utf8.Boundary bytes i) : ValueSound bytes i (parseValue bytes i) := by
  unfold parseValue
  rw [List.getElem?_eq_getElem hi]
  by_cases hq : bytes[i] = doubleQuote
  · have hopen := (Utf8.boundary_of_ascii hv hi (by rw [hq]; decide)).2
    have hprev : bytes[i + 1 - 1]? = some doubleQuote := by
      rw [Nat.add_sub_cancel, List.getElem?_eq_getElem hi, hq]
    rw [if_pos (by rw [hq])]
    rcases scanQuoted_cases bytes (i + 1) (i + 1) with
      ⟨stop, hlt, hle, hclose, heq⟩ | ⟨stop, hend, heq⟩
    · have hafter := (Utf8.boundary_of_ascii hv hlt (by rw [hclose]; decide)).2
      simp only [heq]
      by_cases hempty : stop = i + 1
      · -- the value is taken to be its closing quote
        subst hempty
        have hquote : slice bytes (i + 1) (i + 1 + 1) = [doubleQuote] := by
          rw [slice, Nat.add_sub_cancel_left, List.drop_eq_getElem_cons hlt, hclose]
          rfl
        rw [if_pos rfl, Nat.min_eq_left hlt]
        exact {
          le_start := Nat.le_succ i
          start_le := Nat.le_succ _
          start := hopen
          stop := hafter
          valid := by
            show Utf8.Valid (slice bytes (i + 1) (i + 1 + 1))
            rw [hquote]
            exact Utf8.valid_ascii (by decide)
          token := fun h => absurd hprev h
          stop_le := Nat.le_refl _
          next := fun _ => hafter
          moves := fun _ => .inl (Nat.lt_succ_self _) }
      · rw [if_neg hempty]
        exact {
          le_start := Nat.le_succ i
          start_le := hle
          start := hopen
          stop := (stop_quote hlt hclose).boundary hv
          valid := Utf8.valid_slice hopen hle (stop_quote hlt hclose)
          token := fun h => absurd hprev h
          stop_le := Nat.le_succ _
          next := fun _ => hafter
          moves := fun _ => .inl (Nat.lt_succ_of_le hle) }
    · simp only [heq, if_true, Nat.min_eq_right hend]
      exact {
        le_start := Nat.le_succ i
        start_le := hi
        start := hopen
        stop := Utf8.boundary_length hv
        valid := Utf8.valid_slice hopen hi (.inl rfl)
        token := fun h => absurd hprev h
        stop_le := hend
        next := fun h => absurd h (Nat.not_lt.mpr hend)
        moves := fun h => absurd h (Nat.not_lt.mpr hend) }
  · have hne : some bytes[i] ≠ some doubleQuote := fun h => hq (Option.some.inj h)
    rw [if_neg hne]
    have hstop := @stop_token bytes _ hi.le
    have hle := Scan.le_scanWhile (fun b => !isAsciiWhitespace b) bytes i
    exact {
      le_start := Nat.le_refl i
      start_le := hle
      start := hstart
      stop := hstop.boundary hv
      valid := Utf8.valid_slice hstart hle hstop
      token := by
        intro _ b hb
        simp only [Scan.slice_scanWhile] at hb
        simpa using List.mem_takeWhile_imp hb
      stop_le := Nat.le_refl _
      next := fun _ => hstop.boundary hv
      moves := fun h => .inr (by simpa using Scan.getElem_scanWhile h) }

/-- What a turn from a boundary leaves: the next index is a boundary, and a pair stands
between the two. -/
structure TurnSound (bytes : Bytes) (i : Nat) (turn : Option PairSpan × Nat) : Prop where
  next : turn.2 < bytes.length → Utf8.Boundary bytes turn.2
  sound : ∀ s ∈ turn.1, s.Sound bytes
  le_start : ∀ s ∈ turn.1, i ≤ s.keyStart
  start_token : ∀ s ∈ turn.1, ∃ h : s.keyStart < bytes.length,
    isAsciiWhitespace bytes[s.keyStart] = false
  stop_le : ∀ s ∈ turn.1, s.valEnd ≤ turn.2
  moves : ∀ s ∈ turn.1, ∀ h : turn.2 < bytes.length,
    s.valStart < turn.2 ∨ isAsciiWhitespace bytes[turn.2] = true

theorem skipToken_sound {bytes : Bytes} (hv : Utf8.Valid bytes) (i : Nat) {k : Nat}
    (hk : k ≤ bytes.length) : TurnSound bytes i (none, skipToken bytes k) where
  next := fun _ => (stop_token hk).boundary hv
  sound := by simp
  le_start := by simp
  start_token := by simp
  stop_le := by simp
  moves := by simp

theorem parseTurn_sound {bytes : Bytes} (hv : Utf8.Valid bytes) {i : Nat}
    (hi : Utf8.Boundary bytes i) : TurnSound bytes i (parseTurn bytes i) := by
  have hend : ∀ k, bytes.length ≤ k → TurnSound bytes i (none, k) := fun k hk =>
    ⟨fun h => absurd h (Nat.not_lt.mpr hk), by simp, by simp, by simp, by simp, by simp⟩
  unfold parseTurn
  simp only
  have hlestart := Scan.le_scanWhile isAsciiWhitespace bytes i
  have hstart := boundary_scanWhile (fun _ => isAscii_of_whitespace) hv hi
  by_cases hlong : bytes.length ≤ scanWhile isAsciiWhitespace bytes i
  · rw [if_pos hlong]
    exact hend _ hlong
  rw [if_neg hlong]
  have htoken := Scan.getElem_scanWhile (Nat.lt_of_not_le hlong)
  generalize scanWhile isAsciiWhitespace bytes i = start at hlestart hstart hlong htoken ⊢
  have hlekey := Scan.le_scanWhile (fun b => b != equalsSign && !isAsciiWhitespace b) bytes start
  have hkeystop := @stop_key bytes _ hstart.1
  have hkeyslice := Scan.slice_scanWhile (fun b => b != equalsSign && !isAsciiWhitespace b) bytes
    start
  generalize scanWhile (fun b => b != equalsSign && !isAsciiWhitespace b) bytes start = stop
    at hlekey hkeystop hkeyslice ⊢
  split
  · exact skipToken_sound hv i hkeystop.le
  rename_i hkey
  split
  · exact skipToken_sound hv i hkeystop.le
  have hleeq := Scan.le_scanWhile isAsciiWhitespace bytes stop
  have heq := boundary_scanWhile (fun _ => isAscii_of_whitespace) hv (hkeystop.boundary hv)
  generalize scanWhile isAsciiWhitespace bytes stop = eq at hleeq heq ⊢
  split
  · exact skipToken_sound hv i heq.1
  rename_i hequals
  obtain ⟨hlt, hbyte⟩ := List.getElem?_eq_some_iff.mp (not_not.mp hequals)
  by_cases hlast : bytes.length ≤ eq + 1
  · rw [if_pos hlast]
    exact hend _ hlast
  rw [if_neg hlast]
  have hvalue := parseValue_sound hv (Nat.lt_of_not_le hlast)
    (Utf8.boundary_of_ascii hv hlt (by rw [hbyte]; decide)).2
  generalize parseValue bytes (eq + 1) = value at hvalue ⊢
  have hle := hvalue.le_start
  have hsound : PairSpan.Sound bytes ⟨start, stop, value.1.1, value.1.2⟩ := {
    key_lt := Nat.lt_of_le_of_ne hlekey (Ne.symm hkey)
    key_before := by
      show stop < value.1.1
      omega
    val_le := hvalue.start_le
    key_start := hstart
    key_end := hkeystop.boundary hv
    val_start := hvalue.start
    val_end := hvalue.stop
    val_valid := hvalue.valid
    key_token := by
      intro b hb
      simp only [hkeyslice] at hb
      simpa using List.mem_takeWhile_imp hb
    val_token := hvalue.token }
  exact {
    next := hvalue.next
    sound := by rintro s ⟨⟩; exact hsound
    le_start := by rintro s ⟨⟩; exact hlestart
    start_token := by rintro s ⟨⟩; exact ⟨Nat.lt_of_not_le hlong, htoken⟩
    stop_le := by rintro s ⟨⟩; exact hvalue.stop_le
    moves := by rintro s ⟨⟩; exact hvalue.moves }

/-! ## All pairs -/

/-- The pairs found from a boundary on: each is sound, and starts there or later. -/
theorem parseFrom_sound {bytes : Bytes} (hv : Utf8.Valid bytes) {i : Nat}
    (hi : i < bytes.length → Utf8.Boundary bytes i) :
    ∀ s ∈ parseFrom bytes i, s.Sound bytes ∧ i ≤ s.keyStart ∧
      ∃ h : s.keyStart < bytes.length, isAsciiWhitespace bytes[s.keyStart] = false := by
  fun_induction parseFrom bytes i with
  | case1 i h ih =>
    have hturn := parseTurn_sound hv (hi h)
    intro s hs
    rcases List.mem_append.mp hs with hs | hs
    · have hs := Option.mem_toList.mp hs
      exact ⟨hturn.sound s hs, hturn.le_start s hs, hturn.start_token s hs⟩
    · obtain ⟨hsound, hle, htoken⟩ := ih hturn.next s hs
      exact ⟨hsound, (lt_parseTurn h).le.trans hle, htoken⟩
  | case2 i h => simp

/-- A pair ends before the next one starts, and so does its value start. -/
def PairSpan.Before (s t : PairSpan) : Prop := s.valEnd ≤ t.keyStart ∧ s.valStart < t.keyStart

theorem parseFrom_increasing {bytes : Bytes} (hv : Utf8.Valid bytes) {i : Nat}
    (hi : i < bytes.length → Utf8.Boundary bytes i) :
    (parseFrom bytes i).Pairwise PairSpan.Before := by
  fun_induction parseFrom bytes i with
  | case1 i h ih =>
    have hturn := parseTurn_sound hv (hi h)
    refine List.pairwise_append.mpr ⟨?_, ih hturn.next, ?_⟩
    · cases (parseTurn bytes i).1 with
      | none => exact .nil
      | some s => exact List.pairwise_singleton _ _
    · intro s hs t ht
      have hs := Option.mem_toList.mp hs
      obtain ⟨-, hle, hlt, htoken⟩ := parseFrom_sound hv hturn.next t ht
      refine ⟨(hturn.stop_le s hs).trans hle, ?_⟩
      rcases hturn.moves s hs (hle.trans_lt hlt) with hmoves | hblank
      · exact hmoves.trans_le hle
      · -- the next pair does not start on the whitespace an empty value ends at
        have hval := (hturn.sound s hs).val_le
        have hstop := hturn.stop_le s hs
        by_contra hnot
        have hsame : (parseTurn bytes i).2 = t.keyStart := by omega
        simp only [hsame, htoken] at hblank
        cases hblank
  | case2 i h => exact .nil

/-! ## No check fails -/

theorem byteAt_eq {bytes : Bytes} {i : Nat} (h : i < bytes.length) :
    byteAt bytes i = .ok bytes[i] := by
  rw [byteAt, List.getElem?_eq_getElem h]

theorem sliceAt_eq {bytes : Bytes} {start stop : Nat} (h : start ≤ stop)
    (hs : stop ≤ bytes.length) :
    sliceAt bytes start stop = .ok (slice bytes start stop) := if_pos ⟨h, hs⟩

theorem fromUtf8Unchecked_eq {s : Bytes} (h : Utf8.Valid s) : fromUtf8Unchecked s = .ok s :=
  if_pos h

@[simp] theorem ok_bind {α β : Type} (a : α) (f : α → Except Fault β) :
    (Except.ok a : Except Fault α).bind f = f a := rfl

@[simp] theorem ok_map {α β : Type} (f : α → β) (a : α) :
    (Except.ok a : Except Fault α).map f = .ok (f a) := rfl

theorem scanWhileChecked_eq (p : UInt8 → Bool) (bytes : Bytes) (i : Nat) :
    scanWhileChecked p bytes i = .ok (scanWhile p bytes i) := by
  fun_induction scanWhile p bytes i with
  | case1 i h hp ih => rw [scanWhileChecked, dif_pos h, byteAt_eq h, ok_bind, if_pos hp, ih]
  | case2 i h hp => rw [scanWhileChecked, dif_pos h, byteAt_eq h, ok_bind, if_neg hp]
  | case3 i h => rw [scanWhileChecked, dif_neg h]

theorem scanQuotedChecked_eq (bytes : Bytes) (valStart i : Nat) :
    scanQuotedChecked bytes valStart i = .ok (scanQuoted bytes valStart i) := by
  fun_induction scanQuoted bytes valStart i with
  | case1 i h hb ih => rw [scanQuotedChecked, dif_pos h, byteAt_eq h, ok_bind, if_pos hb, ih]
  | case2 i h hb hq =>
    rw [scanQuotedChecked, dif_pos h, byteAt_eq h, ok_bind, if_neg hb, if_pos hq]
  | case3 i h hb hq ih =>
    rw [scanQuotedChecked, dif_pos h, byteAt_eq h, ok_bind, if_neg hb, if_neg hq, ih]
  | case4 i h => rw [scanQuotedChecked, dif_neg h]

theorem skipChecked_eq (bytes : Bytes) (i : Nat) :
    skipChecked bytes i = .ok (none, skipToken bytes i) := by
  rw [skipChecked, scanWhileChecked_eq, ok_map, skipToken]

theorem notEquals_eq (bytes : Bytes) (i : Nat) :
    notEquals bytes i = .ok (decide (bytes[i]? ≠ some equalsSign)) := by
  unfold notEquals
  split
  · rename_i h
    rw [List.getElem?_eq_none h]
    rfl
  · rename_i h
    have hi := Nat.lt_of_not_le h
    rw [byteAt_eq hi, List.getElem?_eq_getElem hi, ok_map]
    congr 1
    by_cases heq : bytes[i] = equalsSign <;> simp [heq]

theorem parseValueChecked_eq {bytes : Bytes} (hv : Utf8.Valid bytes) {i : Nat}
    (hi : i < bytes.length) (hstart : Utf8.Boundary bytes i) :
    parseValueChecked bytes i =
      .ok (slice bytes (parseValue bytes i).1.1 (parseValue bytes i).1.2,
        (parseValue bytes i).2) := by
  have hsound := parseValue_sound hv hi hstart
  have hslice := sliceAt_eq hsound.start_le hsound.stop.1
  have htext := fromUtf8Unchecked_eq hsound.valid
  unfold parseValueChecked
  unfold parseValue at hslice htext ⊢
  rw [List.getElem?_eq_getElem hi] at hslice htext ⊢
  rw [byteAt_eq hi, ok_bind]
  by_cases hq : bytes[i] = doubleQuote
  · have hopen : some bytes[i] = some doubleQuote := by rw [hq]
    rw [if_pos hopen] at hslice htext ⊢
    rw [if_pos hq, scanQuotedChecked_eq, ok_bind]
    simp only at hslice htext ⊢
    rw [hslice, ok_bind, htext, ok_map]
  · have hplain : some bytes[i] ≠ some doubleQuote := fun h => hq (Option.some.inj h)
    rw [if_neg hplain] at hslice htext ⊢
    rw [if_neg hq, scanWhileChecked_eq, ok_bind]
    simp only at hslice htext ⊢
    rw [hslice, ok_bind, htext, ok_map]

theorem parseTurnChecked_eq {bytes : Bytes} (hv : Utf8.Valid bytes) {i : Nat}
    (hi : Utf8.Boundary bytes i) :
    parseTurnChecked bytes i =
      .ok ((parseTurn bytes i).1.map (PairSpan.read bytes), (parseTurn bytes i).2) := by
  unfold parseTurnChecked parseTurn
  simp only [scanWhileChecked_eq, ok_bind, skipChecked_eq, notEquals_eq]
  have hstart := boundary_scanWhile (fun _ => isAscii_of_whitespace) hv hi
  generalize scanWhile isAsciiWhitespace bytes i = start at hstart ⊢
  split
  · rfl
  have hlekey := Scan.le_scanWhile (fun b => b != equalsSign && !isAsciiWhitespace b) bytes start
  have hkeystop := @stop_key bytes _ hstart.1
  generalize scanWhile (fun b => b != equalsSign && !isAsciiWhitespace b) bytes start = stop
    at hlekey hkeystop ⊢
  rw [sliceAt_eq hlekey hkeystop.le, ok_bind]
  split
  · rfl
  split
  · rfl
  generalize scanWhile isAsciiWhitespace bytes stop = eq
  by_cases hequals : bytes[eq]? = some equalsSign
  · obtain ⟨hlt, hbyte⟩ := List.getElem?_eq_some_iff.mp hequals
    simp only [hequals, ne_eq, not_true, decide_false, Bool.false_eq_true, if_false]
    split
    · rfl
    · rename_i hlast
      rw [parseValueChecked_eq hv (Nat.lt_of_not_le hlast)
        (Utf8.boundary_of_ascii hv hlt (by rw [hbyte]; decide)).2, ok_map]
      rfl
  · simp only [ne_eq, hequals, not_false_eq_true, decide_true, if_true, Option.map_none]

theorem parseFromChecked_eq {bytes : Bytes} (hv : Utf8.Valid bytes) {turns i : Nat}
    (hturns : bytes.length ≤ turns + i) (hi : i < bytes.length → Utf8.Boundary bytes i) :
    parseFromChecked bytes turns i = .ok ((parseFrom bytes i).map (PairSpan.read bytes)) := by
  induction turns generalizing i with
  | zero =>
    have hend : bytes.length ≤ i := by omega
    rw [parseFromChecked, if_pos hend, parseFrom, dif_neg (Nat.not_lt.mpr hend)]
    rfl
  | succ turns ih =>
    rw [parseFromChecked, parseFrom]
    by_cases hend : bytes.length ≤ i
    · rw [if_pos hend, dif_neg (Nat.not_lt.mpr hend)]
      rfl
    · have hlt := Nat.lt_of_not_le hend
      have hmoves := lt_parseTurn hlt
      rw [if_neg hend, dif_pos hlt, parseTurnChecked_eq hv (hi hlt), ok_bind]
      simp only
      rw [ih (by omega) (parseTurn_sound hv (hi hlt)).next, ok_map, List.map_append,
        Option.toList_map]

/-- On a text of any length the parser ends, every access is in bounds, and the values taken
for text without a check are text. The pairs stand one after the other, keys and values
between character boundaries, keys without `=` and whitespace, unquoted values without
whitespace. -/
theorem handleParse_safe (line : Bytes) (h : Utf8.Valid line) :
    handleParseChecked line = .ok (handleParseLogfmtLineWithSchemaBase line) ∧
      (∀ s ∈ parseFrom line 0, s.Sound line) ∧
      (parseFrom line 0).Pairwise PairSpan.Before :=
  ⟨parseFromChecked_eq h (Nat.le_refl _) fun _ => Utf8.boundary_zero h,
    fun s hs => (parseFrom_sound h (fun _ => Utf8.boundary_zero h) s hs).1,
    parseFrom_increasing h fun _ => Utf8.boundary_zero h⟩

/-- The line `é="\é" x=1`: an escape before a character of two bytes. -/
def escapedLine : Bytes := Utf8.ofString "é=\"\\é\" x=1"

theorem handleParse_safe_escaped :
    handleParseChecked escapedLine = .ok (handleParseLogfmtLineWithSchemaBase escapedLine) ∧
      (∀ s ∈ parseFrom escapedLine 0, s.Sound escapedLine) ∧
      (parseFrom escapedLine 0).Pairwise PairSpan.Before :=
  handleParse_safe escapedLine (Utf8.valid_encode _)

end PolarsLogfmt
