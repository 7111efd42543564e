import PolarsLogfmt.Misc.Lines

/-!
# UTF-8 text as lists of bytes

A text is the list of its UTF-8 bytes. Core's `ByteArray` decoder decides
validity; the facts below say it of lists, and that cutting after an ASCII byte
never cuts inside a character (`Utf8.valid_of_mem_split`).
-/

/-- Bytes, as `&[u8]`, `Vec<u8>` and (when valid UTF-8) `&str`, `String` are. -/
abbrev Bytes := List UInt8

instance : LawfulBEq Bytes := inferInstance

namespace Utf8

/-- The UTF-8 bytes of a list of characters. -/
def encode (cs : List Char) : Bytes := cs.flatMap String.utf8EncodeChar

/-- The bytes of a literal. -/
def ofString (s : String) : Bytes := encode s.toList

/-- The characters of a text, when the bytes are one. -/
def decode (bs : Bytes) : Option (List Char) :=
  (ByteArray.mk bs.toArray).utf8Decode?.map Array.toList

/-- The bytes are the UTF-8 encoding of some text. -/
def Valid (bs : Bytes) : Prop := (ByteArray.mk bs.toArray).IsValidUTF8

instance : DecidablePred Valid :=
  fun bs => inferInstanceAs (Decidable (ByteArray.mk bs.toArray).IsValidUTF8)

theorem toByteArray_eq (bs : Bytes) : bs.toByteArray = ByteArray.mk bs.toArray := by
  apply ByteArray.ext
  simp [List.data_toByteArray]

theorem valid_iff {bs : Bytes} : Valid bs ↔ ∃ cs, encode cs = bs := by
  constructor
  · rintro ⟨cs, hcs⟩
    refine ⟨cs, ?_⟩
    rw [List.utf8Encode, toByteArray_eq] at hcs
    simpa [encode] using (congrArg (fun b => b.data.toList) hcs).symm
  · rintro ⟨cs, rfl⟩
    exact ⟨cs, by rw [List.utf8Encode, toByteArray_eq]; rfl⟩

theorem valid_encode (cs : List Char) : Valid (encode cs) := valid_iff.mpr ⟨cs, rfl⟩

@[simp] theorem encode_nil : encode [] = [] := rfl

theorem encode_cons (c : Char) (cs : List Char) :
    encode (c :: cs) = String.utf8EncodeChar c ++ encode cs := rfl

/-- A character below 128 is its own byte; every byte of another is 128 or more. -/
theorem encodeChar_cases (c : Char) :
    (String.utf8EncodeChar c = [UInt8.ofNat c.toNat] ∧ c.toNat < 128) ∨
    (128 ≤ c.toNat ∧ ∀ b ∈ String.utf8EncodeChar c, 128 ≤ b.toNat) := by
  by_cases hc : c.toNat < 128
  · left
    refine ⟨?_, hc⟩
    have hle : c.val.toNat ≤ 0x7f := by
      have : c.val.toNat = c.toNat := rfl
      omega
    rw [String.utf8EncodeChar, if_pos hle]
    rfl
  · right
    refine ⟨by omega, ?_⟩
    have hv : c.val.toNat = c.toNat := rfl
    intro b hb
    simp only [String.utf8EncodeChar, hv] at hb
    rw [if_neg (by omega)] at hb
    split at hb
    · simp only [List.mem_cons, List.not_mem_nil, or_false] at hb
      rcases hb with rfl | rfl <;> simp <;> omega
    · split at hb
      · simp only [List.mem_cons, List.not_mem_nil, or_false] at hb
        rcases hb with rfl | rfl | rfl <;> simp <;> omega
      · simp only [List.mem_cons, List.not_mem_nil, or_false] at hb
        rcases hb with rfl | rfl | rfl | rfl <;> simp <;> omega

/-- A non-empty prefix without the delimiter goes to the first piece. -/
theorem split_append_left {d : Char} {pre : Bytes} (hpre : pre ≠ [])
    (hbytes : ∀ b ∈ pre, 128 ≤ b.toNat) (hd : d.toNat < 128) (rest : Bytes) :
    Lines.split (UInt8.ofNat d.toNat) (pre ++ rest) =
      match Lines.split (UInt8.ofNat d.toNat) rest with
      | [] => [pre]
      | piece :: pieces => (pre ++ piece) :: pieces := by
  induction pre with
  | nil => exact absurd rfl hpre
  | cons b pre ih =>
    have hb : b ≠ UInt8.ofNat d.toNat := by
      rintro rfl
      have := hbytes _ List.mem_cons_self
      rw [UInt8.toNat_ofNat', Nat.mod_eq_of_lt (by omega)] at this
      omega
    rw [List.cons_append, Lines.split_cons_ne hb]
    by_cases hp : pre = []
    · subst hp
      rw [List.nil_append]
      cases Lines.split (UInt8.ofNat d.toNat) rest <;> rfl
    · rw [ih hp fun x hx => hbytes x (List.mem_cons_of_mem _ hx)]
      cases Lines.split (UInt8.ofNat d.toNat) rest <;> rfl

theorem encodeChar_ne_nil (c : Char) : String.utf8EncodeChar c ≠ [] := by
  intro h
  have := congrArg List.length h
  have hpos := c.utf8Size_pos
  simp at this
  omega

theorem encode_append (cs ds : List Char) : encode (cs ++ ds) = encode cs ++ encode ds :=
  List.flatMap_append

theorem encode_eq_nil {cs : List Char} : encode cs = [] ↔ cs = [] := by
  cases cs with
  | nil => simp
  | cons c cs => simp [encode_cons]

theorem encode_injective {cs ds : List Char} (h : encode cs = encode ds) : cs = ds := by
  have henc : cs.utf8Encode = ds.utf8Encode := by
    rw [List.utf8Encode, List.utf8Encode]
    exact congrArg List.toByteArray h
  have hdec := congrArg ByteArray.utf8Decode? henc
  rw [List.utf8Decode?_utf8Encode, List.utf8Decode?_utf8Encode] at hdec
  simpa using hdec

/-- A byte below 128 of a text is one of its characters. -/
theorem ascii_of_mem_encode {cs : List Char} {b : UInt8} (hmem : b ∈ encode cs)
    (hb : b.toNat < 128) : ∃ c ∈ cs, c.toNat = b.toNat := by
  obtain ⟨c, hc, hbytes⟩ := List.mem_flatMap.mp hmem
  refine ⟨c, hc, ?_⟩
  rcases encodeChar_cases c with ⟨hone, hlt⟩ | ⟨-, hlarge⟩
  · rw [hone, List.mem_singleton] at hbytes
    rw [hbytes, UInt8.toNat_ofNat', Nat.mod_eq_of_lt (by omega)]
  · have := hlarge b hbytes
    omega

/-- The pieces of the bytes are the bytes of the pieces when the delimiter is ASCII. -/
theorem split_encode {d : Char} (hd : d.toNat < 128) (cs : List Char) :
    Lines.split (UInt8.ofNat d.toNat) (encode cs) = (Lines.split d cs).map encode := by
  induction cs with
  | nil => rfl
  | cons c cs ih =>
    rw [encode_cons]
    rcases encodeChar_cases c with ⟨hc, hlt⟩ | ⟨hge, hbytes⟩
    · rw [hc, List.singleton_append]
      by_cases hcd : c = d
      · subst hcd
        rw [Lines.split_cons_self, Lines.split_cons_self, ih, List.map_cons, encode_cons, hc]
        rfl
      · have hne : UInt8.ofNat c.toNat ≠ UInt8.ofNat d.toNat := by
          intro h
          apply hcd
          have := congrArg UInt8.toNat h
          rw [UInt8.toNat_ofNat', UInt8.toNat_ofNat', Nat.mod_eq_of_lt (by omega),
            Nat.mod_eq_of_lt (by omega)] at this
          exact Char.toNat_inj.mp this
        rw [Lines.split_cons_ne hne, Lines.split_cons_ne hcd, ih]
        cases Lines.split d cs with
        | nil => simp [encode, hc]
        | cons piece pieces => simp [encode, hc]
    · have hcd : c ≠ d := by rintro rfl; omega
      rw [Lines.split_cons_ne hcd, split_append_left (encodeChar_ne_nil c) hbytes hd, ih]
      cases Lines.split d cs with
      | nil => simp [encode]
      | cons piece pieces => simp [encode]

theorem valid_of_mem_split {d : Char} (hd : d.toNat < 128) {text line : Bytes}
    (ht : Valid text) (hl : line ∈ Lines.split (UInt8.ofNat d.toNat) text) : Valid line := by
  obtain ⟨cs, rfl⟩ := valid_iff.mp ht
  rw [split_encode hd, List.mem_map] at hl
  obtain ⟨piece, -, rfl⟩ := hl
  exact valid_encode piece

/-! ## Character boundaries -/

/-- Around an ASCII byte a text can be cut. -/
theorem valid_split_ascii {pre post : Bytes} {b : UInt8} (hb : b.toNat < 128)
    (h : Valid (pre ++ b :: post)) : Valid pre ∧ Valid post := by
  obtain ⟨cs, hcs⟩ := valid_iff.mp h
  clear h
  induction cs generalizing pre with
  | nil => simp at hcs
  | cons c cs ih =>
    rw [encode_cons] at hcs
    rcases encodeChar_cases c with ⟨hc, -⟩ | ⟨-, hbytes⟩
    · rw [hc, List.singleton_append] at hcs
      cases pre with
      | nil =>
        obtain ⟨-, rfl⟩ := List.cons.inj hcs
        exact ⟨valid_encode [], valid_encode cs⟩
      | cons a pre =>
        obtain ⟨rfl, htail⟩ := List.cons.inj hcs
        obtain ⟨hpre, hpost⟩ := ih htail
        obtain ⟨ds, rfl⟩ := valid_iff.mp hpre
        refine ⟨valid_iff.mpr ⟨c :: ds, ?_⟩, hpost⟩
        rw [encode_cons, hc]
        rfl
    · -- the bytes of the character all lie before the cut
      rcases List.append_eq_append_iff.mp hcs with ⟨more, hpre, hrest⟩ | ⟨more, hchar, hrest⟩
      · obtain ⟨hmore, hpost⟩ := ih hrest
        obtain ⟨ds, rfl⟩ := valid_iff.mp hmore
        exact ⟨valid_iff.mpr ⟨c :: ds, by rw [encode_cons, hpre]⟩, hpost⟩
      · cases more with
        | nil =>
          obtain ⟨-, hpost⟩ := @ih [] hrest.symm
          rw [List.append_nil] at hchar
          exact ⟨valid_iff.mpr ⟨[c], by rw [encode_cons, hchar]; simp⟩, hpost⟩
        | cons a more =>
          obtain ⟨rfl, -⟩ := List.cons.inj hrest
          have := hbytes b (by rw [hchar]; simp)
          omega

/-- A text can be cut at the position: `str::is_char_boundary`. -/
def Boundary (text : Bytes) (i : Nat) : Prop :=
  i ≤ text.length ∧ Valid (text.take i) ∧ Valid (text.drop i)

theorem boundary_zero {text : Bytes} (h : Valid text) : Boundary text 0 :=
  ⟨Nat.zero_le _, valid_encode [], h⟩

theorem boundary_length {text : Bytes} (h : Valid text) : Boundary text text.length := by
  refine ⟨Nat.le_refl _, ?_, ?_⟩
  · rwa [List.take_length]
  · rw [List.drop_length]
    exact valid_encode []

theorem valid_append {a b : Bytes} (ha : Valid a) (hb : Valid b) : Valid (a ++ b) := by
  obtain ⟨cs, rfl⟩ := valid_iff.mp ha
  obtain ⟨ds, rfl⟩ := valid_iff.mp hb
  exact valid_iff.mpr ⟨cs ++ ds, List.flatMap_append⟩

theorem valid_ascii {b : UInt8} (hb : b.toNat < 128) : Valid [b] := by
  have hval : b.toNat.isValidChar := .inl (by omega)
  have hc : (Char.ofNatAux b.toNat hval).toNat = b.toNat := rfl
  refine valid_iff.mpr ⟨[Char.ofNatAux b.toNat hval], ?_⟩
  rcases encodeChar_cases (Char.ofNatAux b.toNat hval) with ⟨h, -⟩ | ⟨h, -⟩
  · rw [encode_cons, h, hc]
    simp
  · omega

/-- An ASCII byte stands between two boundaries. -/
theorem boundary_of_ascii {text : Bytes} (h : Valid text) {i : Nat} (hi : i < text.length)
    (hb : text[i].toNat < 128) : Boundary text i ∧ Boundary text (i + 1) := by
  have hcut : text = text.take i ++ text[i] :: text.drop (i + 1) := by
    rw [← List.drop_eq_getElem_cons hi, List.take_append_drop]
  obtain ⟨hpre, hpost⟩ := valid_split_ascii hb (hcut ▸ h)
  refine ⟨⟨hi.le, hpre, ?_⟩, ⟨hi, ?_, hpost⟩⟩
  · rw [List.drop_eq_getElem_cons hi]
    exact valid_append (valid_ascii hb) hpost
  · rw [List.take_succ_eq_append_getElem hi]
    exact valid_append hpre (valid_ascii hb)

/-- The text between a boundary and an ASCII byte, or the end. -/
theorem valid_slice {text : Bytes} {i j : Nat} (hi : Boundary text i) (hij : i ≤ j)
    (hj : j = text.length ∨ ∃ h : j < text.length, text[j].toNat < 128) :
    Valid ((text.drop i).take (j - i)) := by
  rcases hj with rfl | ⟨hlt, hb⟩
  · rw [List.take_of_length_le (by rw [List.length_drop])]
    exact hi.2.2
  · have hcut : text.drop i = (text.drop i).take (j - i) ++ text[j] :: text.drop (j + 1) := by
      rw [← List.drop_eq_getElem_cons hlt]
      conv_lhs => rw [← List.take_append_drop (j - i) (text.drop i), List.drop_drop,
        Nat.add_sub_cancel' hij]
    have hvalid := hi.2.2
    rw [hcut] at hvalid
    exact (valid_split_ascii hb hvalid).1

end Utf8
