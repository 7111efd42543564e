import PolarsLogfmt.Crates

/-!
# Integers in decimal

When the text of an integer is the one that is printed for it: it has no plus sign and no
leading zero, and is not `-0`.
-/

namespace PolarsLogfmt

/-- The digits of a number. -/
def decimal (n : Nat) : Bytes := Utf8.encode (Nat.toDigits 10 n)

/-- The byte of a digit. -/
def digitByte (d : Nat) : UInt8 := UInt8.ofNat (0x30 + d)

theorem encode_digitChar {d : Nat} (h : d < 10) :
    Utf8.encode [Nat.digitChar d] = [digitByte d] := by
  interval_cases d <;> rfl

theorem decimal_of_lt {d : Nat} (h : d < 10) : decimal d = [digitByte d] := by
  rw [decimal, Nat.toDigits_of_lt_base h, encode_digitChar h]

theorem digitByte_toNat {d : Nat} (h : d < 10) : (digitByte d).toNat = 0x30 + d := by
  rw [digitByte, UInt8.toNat_ofNat']
  omega

/-- Another digit. -/
theorem decimal_step {n d : Nat} (hn : 0 < n) (hd : d < 10) :
    decimal (10 * n + d) = decimal n ++ [digitByte d] := by
  unfold decimal
  rw [← Nat.toDigits_append_toDigits (by decide) hn hd, Utf8.encode, List.flatMap_append]
  exact congrArg (Utf8.encode (Nat.toDigits 10 n) ++ ·) (decimal_of_lt hd)

/-- The first digit of a number that is not zero is not zero. -/
theorem head?_decimal (n : Nat) :
    ∃ d < 10, (decimal n).head? = some (digitByte d) ∧ (0 < n → 0 < d) := by
  induction n using Nat.strong_induction_on with
  | _ n ih =>
    by_cases hn : n < 10
    · exact ⟨n, hn, by rw [decimal_of_lt hn]; rfl, id⟩
    · obtain ⟨d, hd, hhead, hpos⟩ := ih (n / 10) (by omega)
      have hstep := @decimal_step (n / 10) (n % 10) (by omega) (Nat.mod_lt n (by decide))
      rw [Nat.div_add_mod] at hstep
      refine ⟨d, hd, ?_, fun _ => hpos (by omega)⟩
      rw [hstep, List.head?_append, hhead]
      rfl

/-- A number is written in digits. -/
theorem mem_decimal {n : Nat} {b : UInt8} (h : b ∈ decimal n) : ∃ d < 10, b = digitByte d := by
  induction n using Nat.strong_induction_on with
  | _ n ih =>
    by_cases hn : n < 10
    · rw [decimal_of_lt hn, List.mem_singleton] at h
      exact ⟨n, hn, h⟩
    · have hd := Nat.mod_lt n (y := 10) (by decide)
      have hstep := @decimal_step (n / 10) (n % 10) (by omega) hd
      rw [Nat.div_add_mod] at hstep
      rw [hstep, List.mem_append, List.mem_singleton] at h
      rcases h with h | h
      · exact ih (n / 10) (by omega) h
      · exact ⟨n % 10, hd, h⟩

theorem digitValue_eq_some {b : UInt8} {d : Nat} (h : digitValue b = some d) :
    d < 10 ∧ b = digitByte d := by
  unfold digitValue at h
  split at h
  · rename_i hrange
    cases h
    obtain ⟨hlow, hhigh⟩ := hrange
    rw [UInt8.le_iff_toNat_le] at hlow hhigh
    simp only [UInt8.reduceToNat] at hlow hhigh
    refine ⟨by omega, ?_⟩
    apply UInt8.toNat_inj.mp
    rw [digitByte_toNat (by omega)]
    omega
  · cases h

/-- Digits after a number that is not zero. -/
theorem decimal_append {acc n : Nat} {digits : Bytes} (hacc : 0 < acc)
    (h : digits.foldlM (fun n b => (digitValue b).map (10 * n + ·)) acc = some n) :
    decimal acc ++ digits = decimal n := by
  induction digits generalizing acc with
  | nil =>
    cases h
    exact List.append_nil _
  | cons b digits ih =>
    rw [List.foldlM_cons] at h
    obtain ⟨next, hnext, hrest⟩ := Option.bind_eq_some_iff.mp h
    obtain ⟨d, hd, rfl⟩ := Option.map_eq_some_iff.mp hnext
    obtain ⟨hlt, rfl⟩ := digitValue_eq_some hd
    rw [← ih (by omega) hrest, decimal_step hacc hlt, List.append_assoc]
    rfl

/-- Digits that do not start with a zero are those of their number. -/
theorem decimal_digits {n : Nat} {b : UInt8} {digits : Bytes} (hb : b ≠ 0x30)
    (h : digitsValue (b :: digits) = some n) : 0 < n ∧ decimal n = b :: digits := by
  unfold digitsValue at h
  rw [List.foldlM_cons] at h
  obtain ⟨next, hnext, hrest⟩ := Option.bind_eq_some_iff.mp h
  obtain ⟨d, hd, rfl⟩ := Option.map_eq_some_iff.mp hnext
  obtain ⟨hlt, rfl⟩ := digitValue_eq_some hd
  have hpos : 0 < d := by
    rw [Nat.pos_iff_ne_zero]
    rintro rfl
    exact hb rfl
  rw [Nat.mul_zero, Nat.zero_add] at hrest
  have hdecimal := decimal_append hpos hrest
  rw [decimal_of_lt hlt] at hdecimal
  refine ⟨?_, hdecimal.symm⟩
  rw [Nat.pos_iff_ne_zero]
  rintro rfl
  rw [decimal_of_lt (by decide)] at hdecimal
  exact hb (List.cons.inj hdecimal).1

/-- The digits of a number are its decimal ones when they are a single zero or start with none. -/
theorem decimal_eq_iff {n : Nat} {digits : Bytes} (hne : digits ≠ [])
    (h : digitsValue digits = some n) :
    decimal n = digits ↔ digits = [0x30] ∨ ¬ [0x30] <+: digits := by
  cases digits with
  | nil => exact absurd rfl hne
  | cons b digits =>
    by_cases hb : b = 0x30
    · subst hb
      rw [or_iff_left (by simp)]
      constructor
      · intro hdecimal
        obtain ⟨d, hd, hhead, hpos⟩ := head?_decimal n
        rw [hdecimal] at hhead
        have hzero := congrArg UInt8.toNat (Option.some.inj hhead)
        rw [digitByte_toNat hd] at hzero
        have hd : d = 0 := by simpa using hzero
        have hn : n = 0 := by omega
        rw [← hdecimal, hn]
        rfl
      · intro hzero
        rw [hzero] at h ⊢
        cases h
        rfl
    · refine iff_of_true (decimal_digits hb h).2 (.inr ?_)
      simpa using fun h => hb h.symm

/-! ## Signed integers -/

theorem i64ToString_nonneg {i : Int64} {n : Nat} (h : i.toInt = n) : i64ToString i = decimal n := by
  rw [i64ToString, h]
  show Utf8.encode (Nat.repr n).toList = _
  rw [Nat.toList_repr]
  rfl

theorem i64ToString_neg {i : Int64} {n : Nat} (hn : 0 < n) (h : i.toInt = -(n : Int)) :
    i64ToString i = 0x2D :: decimal n := by
  obtain ⟨m, rfl⟩ : ∃ m, n = m + 1 := ⟨n - 1, by omega⟩
  rw [i64ToString, h]
  show Utf8.encode ("-" ++ Nat.repr (m + 1)).toList = _
  rw [String.toList_append, Nat.toList_repr]
  rfl

/-- An integer is printed in digits and a minus sign. -/
theorem mem_i64ToString {i : Int64} {b : UInt8} (h : b ∈ i64ToString i) :
    b = 0x2D ∨ ∃ d < 10, b = digitByte d := by
  by_cases hneg : i.toInt < 0
  · rw [i64ToString_neg (n := i.toInt.natAbs) (by omega) (by omega), List.mem_cons] at h
    exact h.imp_right mem_decimal
  · rw [i64ToString_nonneg (n := i.toInt.natAbs) (by omega)] at h
    exact .inr (mem_decimal h)

/-- The text of an integer is the one printed for it. -/
def CanonicalInteger (v : Bytes) : Prop :=
  v = [0x30] ∨ ¬ ([0x2B] <+: v ∨ [0x30] <+: v ∨ [0x2D, 0x30] <+: v)

instance (v : Bytes) : Decidable (CanonicalInteger v) :=
  inferInstanceAs (Decidable (_ ∨ _))

theorem toInt_ofInt {value : Int} (h : -2 ^ 63 ≤ value ∧ value < 2 ^ 63) :
    (Int64.ofInt value).toInt = value := by
  apply Int64.toInt_ofInt_of_le
  · exact h.1
  · exact h.2

/-- The three ways a text is read as an integer. -/
theorem i64FromStr_cases {v : Bytes} {i : Int64} (h : i64FromStr v = some i) :
    (∃ digits n, v = 0x2D :: digits ∧ digits ≠ [] ∧ digitsValue digits = some n ∧
      i.toInt = -(n : Int)) ∨
    (∃ digits, v = 0x2B :: digits) ∨
    (∃ n, v ≠ [] ∧ ¬ [0x2D] <+: v ∧ ¬ [0x2B] <+: v ∧ digitsValue v = some n ∧
      i.toInt = (n : Int)) := by
  unfold i64FromStr at h
  split at h
  rename_i negative digits hsign
  split at h
  · cases h
  · rename_i hne
    split at h
    · cases h
    · rename_i n hn
      generalize hvalue : (if negative = true then -(n : Int) else n) = value at h
      simp only at h
      split at h
      · rename_i hrange
        have hi := toInt_ofInt hrange
        rw [Option.some.inj h, ← hvalue] at hi
        split at hsign
        · obtain ⟨rfl, rfl⟩ := Prod.mk.inj hsign
          exact .inl ⟨_, n, rfl, hne, hn, hi⟩
        · exact .inr (.inl ⟨_, rfl⟩)
        · rename_i hminus hplus
          obtain ⟨rfl, rfl⟩ := Prod.mk.inj hsign
          refine .inr (.inr ⟨n, hne, ?_, ?_, hn, hi⟩)
          · rintro ⟨rest, hrest⟩
            exact hminus rest hrest.symm
          · rintro ⟨rest, hrest⟩
            exact hplus rest hrest.symm
      · cases h

/-- No number starts with a plus sign. -/
theorem decimal_ne_plus (n : Nat) (digits : Bytes) : decimal n ≠ 0x2B :: digits := by
  intro h
  obtain ⟨d, hd, hhead, -⟩ := head?_decimal n
  rw [h] at hhead
  have hbyte := congrArg UInt8.toNat (Option.some.inj hhead)
  rw [digitByte_toNat hd] at hbyte
  simp only [UInt8.reduceToNat] at hbyte
  omega

theorem i64ToString_ne_plus (i : Int64) (digits : Bytes) : i64ToString i ≠ 0x2B :: digits := by
  by_cases hneg : i.toInt < 0
  · rw [i64ToString_neg (n := i.toInt.natAbs) (by omega) (by omega)]
    simp
  · rw [i64ToString_nonneg (n := i.toInt.natAbs) (by omega)]
    exact decimal_ne_plus _ digits

/-- A text is what its integer prints exactly when it is canonical. -/
theorem i64ToString_eq_iff {v : Bytes} {i : Int64} (h : i64FromStr v = some i) :
    i64ToString i = v ↔ CanonicalInteger v := by
  rcases i64FromStr_cases h with ⟨digits, n, rfl, hne, hn, hi⟩ | ⟨digits, rfl⟩ |
    ⟨n, hne, hminus, hplus, hn, hi⟩
  · -- a minus sign: zero prints without it
    have hcanonical : CanonicalInteger (0x2D :: digits) ↔ ¬ [0x30] <+: digits := by
      simp [CanonicalInteger]
    rw [hcanonical]
    rcases Nat.eq_zero_or_pos n with rfl | hpos
    · rw [i64ToString_nonneg (n := 0) (by omega)]
      refine iff_of_false (fun h => nomatch (List.cons.inj h).1) (not_not_intro ?_)
      cases digits with
      | nil => exact absurd rfl hne
      | cons b digits =>
        by_cases hb : b = 0x30
        · subst hb
          exact ⟨digits, rfl⟩
        · exact absurd (decimal_digits hb hn).1 (Nat.lt_irrefl 0)
    · rw [i64ToString_neg hpos hi, List.cons.injEq, and_iff_right rfl, decimal_eq_iff hne hn,
        or_iff_right]
      rintro rfl
      cases hn
      exact absurd hpos (Nat.lt_irrefl 0)
  · -- a plus sign is never printed
    refine iff_of_false (i64ToString_ne_plus i digits) ?_
    simp [CanonicalInteger]
  · rw [i64ToString_nonneg hi, decimal_eq_iff hne hn, CanonicalInteger]
    have hnegZero : ¬ [0x2D, 0x30] <+: v := fun hprefix =>
      hminus (List.IsPrefix.trans (by decide) hprefix)
    simp [hplus, hnegZero]

end PolarsLogfmt
