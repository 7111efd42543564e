import PolarsLogfmt.Proofs.OldParser

/-!
# The two line parsers

On a line without quotes the parser reads what the deprecated one reads exactly when its words come
in even runs: after a word the parser skips a token, and a pair that is skipped is missed.
-/

namespace PolarsLogfmt

/-! ## The bytes of a line -/

theorem isWhitespace_of_byte {c : Char} {b : UInt8} (h : c.toNat = b.toNat)
    (hb : isAsciiWhitespace b = true) : isWhitespace c = true := by
  simp only [isAsciiWhitespace, Bool.or_eq_true, beq_iff_eq] at hb
  simp only [isWhitespace, h]
  rcases hb with (((rfl | rfl) | rfl) | rfl) | rfl <;> decide

theorem byte_of_token {cs : List Char} (h : ∀ c ∈ cs, isWhitespace c = false) :
    ∀ b ∈ Utf8.encode cs, isAsciiWhitespace b = false := by
  intro b hb
  rw [← Bool.not_eq_true]
  intro hws
  have hlt : b.toNat < 128 := by
    simp only [isAsciiWhitespace, Bool.or_eq_true, beq_iff_eq] at hws
    rcases hws with (((rfl | rfl) | rfl) | rfl) | rfl <;> decide
  obtain ⟨c, hc, heq⟩ := Utf8.ascii_of_mem_encode hb hlt
  have hc := h c hc
  rw [isWhitespace_of_byte heq hws] at hc
  cases hc

theorem byte_of_key {cs : List Char} (h : ∀ c ∈ cs, isKeyChar c = true) :
    ∀ b ∈ Utf8.encode cs, b ≠ equalsSign ∧ isAsciiWhitespace b = false := by
  intro b hb
  have hkey : ∀ c ∈ cs, c ≠ '=' ∧ isWhitespace c = false := by
    intro c hc
    simpa [isKeyChar] using h c hc
  refine ⟨?_, byte_of_token (fun c hc => (hkey c hc).2) b hb⟩
  intro heq
  obtain ⟨c, hc, hnat⟩ := Utf8.ascii_of_mem_encode hb (by rw [heq]; decide)
  apply (hkey c hc).1
  apply Char.toNat_inj.mp
  rw [hnat, heq]
  rfl

/-- The first byte of a text that starts with a quote. -/
theorem head_of_byte {cs : List Char} (h : (Utf8.encode cs).head? = some doubleQuote) :
    cs.head? = some '"' := by
  cases cs with
  | nil => cases h
  | cons c cs =>
    rw [Utf8.encode_cons] at h
    rcases Utf8.encodeChar_cases c with ⟨hone, hlt⟩ | ⟨-, hlarge⟩
    · rw [hone] at h
      have hb : UInt8.ofNat c.toNat = doubleQuote := Option.some.inj h
      have hnat := congrArg UInt8.toNat hb
      rw [UInt8.toNat_ofNat', Nat.mod_eq_of_lt (by omega)] at hnat
      have hc : c = '"' := Char.toNat_inj.mp hnat
      rw [hc]
      rfl
    · have hmem : doubleQuote ∈ String.utf8EncodeChar c := by
        cases hbytes : String.utf8EncodeChar c with
        | nil => exact absurd hbytes (Utf8.encodeChar_ne_nil c)
        | cons b bytes =>
          rw [hbytes] at h
          rw [← Option.some.inj h]
          exact List.mem_cons_self
      exact absurd (hlarge _ hmem) (by decide)

theorem escaped_plain {bs rest : Bytes} (h : ∀ b ∈ bs, 128 ≤ b.toNat) (hrest : Escaped rest) :
    Escaped (bs ++ rest) := by
  induction bs with
  | nil => exact hrest
  | cons b bs ih =>
    have hb := h b List.mem_cons_self
    have hq : b ≠ doubleQuote := by
      rintro rfl
      exact absurd hb (by decide)
    have hs : b ≠ backslash := by
      rintro rfl
      exact absurd hb (by decide)
    rw [List.cons_append, Escaped.eq_def]
    simp only [hq, hs, if_false]
    exact ih fun x hx => h x (List.mem_cons_of_mem b hx)

/-- What is written of a text is escaped. -/
theorem escaped_escape (text : List Char) : Escaped (Utf8.encode (escape text)) := by
  induction text with
  | nil => trivial
  | cons c text ih =>
    unfold escape
    split
    · rename_i hc
      rcases hc with rfl | rfl
      · exact ih
      · exact ih
    · rename_i hc
      push Not at hc
      rw [Utf8.encode_cons]
      rcases Utf8.encodeChar_cases c with ⟨hone, hlt⟩ | ⟨-, hlarge⟩
      · have hne : ∀ d : Char, d.toNat < 128 → c ≠ d →
          UInt8.ofNat c.toNat ≠ UInt8.ofNat d.toNat := by
          intro d hd hcd heq
          apply hcd
          have hnat := congrArg UInt8.toNat heq
          rw [UInt8.toNat_ofNat', UInt8.toNat_ofNat', Nat.mod_eq_of_lt (by omega),
            Nat.mod_eq_of_lt (by omega)] at hnat
          exact Char.toNat_inj.mp hnat
        have hs : UInt8.ofNat c.toNat ≠ backslash := hne '\\' (by decide) hc.1
        have hq : UInt8.ofNat c.toNat ≠ doubleQuote := hne '"' (by decide) hc.2
        rw [hone, List.singleton_append, Escaped.eq_def]
        simp only [hq, hs, if_false]
        exact ih
      · exact escaped_plain hlarge ih

def OldFieldValue.bytes : OldFieldValue → FieldValue
  | unquoted text hne htoken hhead =>
      .unquoted (Utf8.encode text) (fun h => hne (Utf8.encode_eq_nil.mp h)) (byte_of_token htoken)
        (fun h => hhead (head_of_byte h))
  | quoted text => .quoted (Utf8.encode (escape text)) (escaped_escape text)

def OldField.bytes (f : OldField) : Field where
  key := Utf8.encode f.key
  value := f.value.bytes
  key_ne_nil h := f.key_ne_nil (Utf8.encode_eq_nil.mp h)
  key_valid := Utf8.valid_encode f.key
  key_token := byte_of_key f.key_token

def OldWord.bytes (w : OldWord) : BareWord where
  text := Utf8.encode w.text
  ne_nil h := w.ne_nil (Utf8.encode_eq_nil.mp h)
  valid := Utf8.valid_encode w.text
  token := byte_of_key w.token

/-- The token as the parser over bytes meets it. -/
def OldToken.bytes : OldToken → Token
  | field f => .field f.bytes
  | word w => .word w.bytes

theorem encode_value (value : OldFieldValue) : Utf8.encode value.encode = value.bytes.encode := by
  cases value with
  | unquoted text hne htoken hhead => rfl
  | quoted text =>
    show Utf8.encode ('"' :: escape text ++ ['"']) = _
    rw [Utf8.encode_append]
    rfl

theorem encode_token (t : OldToken) : Utf8.encode t.encode = t.bytes.encode := by
  cases t with
  | word w => rfl
  | field f =>
    show Utf8.encode (f.key ++ '=' :: f.value.encode) = f.bytes.encode
    rw [Utf8.encode_append, Utf8.encode_cons, encode_value]
    rfl

theorem afterToken_cons (t : Token) (tokens : List Token) :
    afterToken (t :: tokens) = space :: t.encode ++ afterToken tokens := by
  rw [afterToken, if_neg (List.cons_ne_nil _ _), encodeTokens_cons]
  rfl

/-- The bytes of a line are its tokens with a space between them. -/
theorem encode_oldLine (tokens : List OldToken) :
    Utf8.encode (oldLine tokens) = encodeTokens (tokens.map OldToken.bytes) := by
  have hafter : ∀ tokens : List OldToken,
      Utf8.encode (afterOldTokens tokens) = afterToken (tokens.map OldToken.bytes) := by
    intro tokens
    induction tokens with
    | nil => rfl
    | cons t tokens ih =>
      show Utf8.encode ((' ' :: t.encode) ++ afterOldTokens tokens) = _
      rw [Utf8.encode_append, Utf8.encode_cons, ih, encode_token, List.map_cons, afterToken_cons]
      rfl
  cases tokens with
  | nil => rfl
  | cons t tokens =>
    show Utf8.encode (t.encode ++ afterOldTokens tokens) = _
    rw [Utf8.encode_append, hafter, encode_token, List.map_cons, encodeTokens_cons]

/-! ## Pairs that are skipped -/

/-- The fields a line without blanks inside its tokens is read to have: a word takes the token after
it away. -/
def keptFields : List Token → List Field
  | [] => []
  | .field f :: tokens => f :: keptFields tokens
  | [.word _] => []
  | .word _ :: _ :: tokens => keptFields tokens

theorem pairs_keptFields {tokens : List Token}
    (h : ∀ t ∈ tokens, ∀ b ∈ t.encode, isAsciiWhitespace b = false) :
    pairs (encodeTokens tokens) = (keptFields tokens).map fun f => (f.key, f.value.readBack) := by
  induction tokens using keptFields.induct with
  | case1 => exact pairs_nil
  | case2 f tokens ih =>
    have hnext := nextPair_encode f (separated_afterToken tokens)
    rw [pairs_of_ne_nil (encodeTokens_ne_nil _ _), encodeTokens_cons, Token.encode, hnext,
      pairs_afterToken, ih fun t ht => h t (List.mem_cons_of_mem _ ht)]
    rfl
  | case3 w =>
    rw [pairs_of_ne_nil (encodeTokens_ne_nil _ _), nextPair_word]
    exact pairs_nil
  | case4 w t tokens ih =>
    have hall : ∀ b ∈ t.encode, (!isAsciiWhitespace b) = true := by
      intro b hb
      rw [h t (List.mem_cons_of_mem _ List.mem_cons_self) b hb]
      rfl
    rw [pairs_of_ne_nil (encodeTokens_ne_nil _ _), nextPair_word, encodeTokens_cons,
      Scan.dropWhile_append_stop hall (separated_afterToken tokens), pairs_afterToken,
      ih fun t ht => h t (List.mem_cons_of_mem _ (List.mem_cons_of_mem _ ht))]
    rfl

theorem keptFields_sublist (tokens : List Token) :
    (keptFields tokens).Sublist (tokenFields tokens) := by
  induction tokens using keptFields.induct with
  | case1 => exact List.Sublist.refl []
  | case2 f tokens ih => exact ih.cons_cons f
  | case3 w => exact List.Sublist.refl []
  | case4 w t tokens ih =>
    cases t with
    | field f => exact ih.cons f
    | word w => exact ih

/-- No field is skipped exactly when the words come in even runs. -/
theorem keptFields_eq_iff (tokens : List Token) :
    keptFields tokens = tokenFields tokens ↔ EvenRuns tokens := by
  induction tokens using EvenRuns.induct with
  | case1 => exact iff_of_true rfl trivial
  | case2 f tokens ih =>
    rw [EvenRuns, ← ih, tokenFields_field, keptFields, List.cons_inj_right]
  | case3 w => exact iff_of_true rfl trivial
  | case4 w w' tokens ih => exact ih
  | case5 w f tokens =>
    refine iff_of_false ?_ id
    intro heq
    have hlength := (keptFields_sublist tokens).length_le
    have heq := congrArg List.length heq
    rw [keptFields, tokenFields_word, tokenFields_field, List.length_cons] at heq
    omega

section

variable [Crates]

/-- A row whose keys are distinct misses every pair that is left out. -/
theorem rowOfPairs_sublist {kvs all : List (Bytes × ParsedValue)} (h : kvs.Sublist all)
    (hdistinct : (all.map Prod.fst).Nodup) : rowOfPairs kvs = rowOfPairs all ↔ kvs = all := by
  constructor
  · intro heq
    have hkeys : all.map Prod.fst ⊆ kvs.map Prod.fst := by
      intro key hkey
      rw [← lastValue_isSome, ← getElem?_rowOfPairs] at hkey ⊢
      rwa [heq]
    apply h.eq_of_length_le
    simpa using (hdistinct.subperm hkeys).length_le
  · intro heq
    rw [heq]

/-! ## The rows of a line -/

/-- The schema has a type for every key of the line. -/
def TypesKeys (schema : Schema) (tokens : List OldToken) : Prop :=
  ∀ f, .field f ∈ tokens → ∃ field, schema[Utf8.encode f.key]? = some field ∧ field ≠ .auto

/-- The pair of a field in the row. -/
def Field.typed (schema : Option Schema) (f : Field) : Bytes × ParsedValue :=
  (f.key, typedValue schema f.key f.value.readBack)

theorem oldValue_unquoted {schema : Option Schema} {key : Bytes}
    (htyped : ∀ s, schema = some s → ∃ field, s[key]? = some field ∧ field ≠ .auto)
    (text : List Char) : oldValue schema key ⟨false, text⟩ =
      typedValue schema key (Utf8.encode text) := by
  cases schema with
  | none => rfl
  | some schema =>
    obtain ⟨field, hfield, hauto⟩ := htyped schema rfl
    unfold oldValue typedValue
    simp only [Option.bind_some, hfield, Bool.false_eq_true, if_false]

/-- Without quotes the deprecated parser types the values as the parser does. -/
theorem oldPairs_typed {tokens : List OldToken} {schema : Option Schema}
    (hplain : ∀ f, .field f ∈ tokens → f.value.raw.quoted = false)
    (htyped : ∀ s, schema = some s → TypesKeys s tokens) :
    ((tokens.filterMap OldToken.pair?).map fun pair =>
        (Utf8.encode pair.1, oldValue schema (Utf8.encode pair.1) pair.2)) =
      (tokenFields (tokens.map OldToken.bytes)).map (Field.typed schema) := by
  induction tokens with
  | nil => rfl
  | cons t tokens ih =>
    have hrest := ih (fun f hf => hplain f (List.mem_cons_of_mem t hf))
      (fun s hs f hf => htyped s hs f (List.mem_cons_of_mem t hf))
    cases t with
    | word w => exact hrest
    | field f =>
      have hvalue : oldValue schema (Utf8.encode f.key) f.value.raw =
          typedValue schema (Utf8.encode f.key) f.value.bytes.readBack := by
        have hquoted := hplain f List.mem_cons_self
        have hkey := fun s hs => htyped s hs f List.mem_cons_self
        cases hv : f.value with
        | quoted text =>
          rw [hv] at hquoted
          cases hquoted
        | unquoted text hne htoken hhead =>
          rw [FieldValue.readBack_of_not id]
          exact oldValue_unquoted hkey text
      rw [List.map_cons, OldToken.bytes, tokenFields_field, List.map_cons, ← hrest, Field.typed]
      show (_, oldValue schema (Utf8.encode f.key) f.value.raw) :: _ = _
      rw [hvalue]
      rfl

omit [Crates] in
/-- A token without quotes has no blank inside. -/
theorem bytes_token {t : OldToken} (hplain : ∀ f, t = .field f → f.value.raw.quoted = false) :
    ∀ b ∈ t.bytes.encode, isAsciiWhitespace b = false := by
  rw [← encode_token]
  apply byte_of_token
  have hkey : ∀ {cs : List Char}, (∀ c ∈ cs, isKeyChar c = true) →
    ∀ c ∈ cs, isWhitespace c = false := by
    intro cs h c hc
    simpa using (Bool.and_eq_true_iff.mp (h c hc)).2
  cases t with
  | word w => exact hkey w.token
  | field f =>
    have hquoted := hplain f rfl
    intro c hc
    rcases List.mem_append.mp hc with hc | hc
    · exact hkey f.key_token c hc
    · rcases List.mem_cons.mp hc with rfl | hc
      · rfl
      · cases hv : f.value with
        | quoted text =>
          rw [hv] at hquoted
          cases hquoted
        | unquoted text hne htoken hhead =>
          rw [hv] at hc
          exact htoken c hc

/-- What the parser reads from a line of tokens without quotes. -/
theorem parse_oldLine {tokens : List OldToken} (schema : Option Schema)
    (hplain : ∀ f, .field f ∈ tokens → f.value.raw.quoted = false) :
    parseLogfmtLineWithSchema (Utf8.encode (oldLine tokens)) schema =
      rowOfPairs ((keptFields (tokens.map OldToken.bytes)).map (Field.typed schema)) := by
  have htokens : ∀ t ∈ tokens.map OldToken.bytes, ∀ b ∈ t.encode, isAsciiWhitespace b = false := by
    intro u hu
    obtain ⟨t, ht, rfl⟩ := List.mem_map.mp hu
    apply bytes_token
    rintro f rfl
    exact hplain f ht
  unfold parseLogfmtLineWithSchema handleParseLogfmtLineWithSchema
  rw [handleParseLogfmtLineWithSchemaBase_eq, encode_oldLine, pairs_keptFields htokens,
    List.map_map]
  rfl

/-- On a line without quotes, with distinct keys and with no schema or one that has a type for every
key, the two parsers give one row exactly when the words of the line come in even runs. -/
theorem parsers_agree_iff {tokens : List OldToken} {schema : Option Schema}
    (hplain : ∀ f, .field f ∈ tokens → f.value.raw.quoted = false)
    (hdistinct : ((tokens.filterMap OldToken.pair?).map Prod.fst).Nodup)
    (htyped : ∀ s, schema = some s → TypesKeys s tokens) :
    parseLogfmtLineWithSchema (Utf8.encode (oldLine tokens)) schema =
        oldParseLogfmtLineWithSchema (oldLine tokens) schema ↔
      EvenRuns (tokens.map OldToken.bytes) := by
  have hsub := keptFields_sublist (tokens.map OldToken.bytes)
  have hread := oldPairs_typed hplain htyped
  have hkeys : (((tokenFields (tokens.map OldToken.bytes)).map (Field.typed schema)).map
      Prod.fst).Nodup := by
    rw [← hread, List.map_map]
    have hinj := hdistinct.map fun _ _ h => Utf8.encode_injective h
    rwa [List.map_map] at hinj
  rw [parse_oldLine schema hplain]
  unfold oldParseLogfmtLineWithSchema
  rw [oldPairs_oldLine, hread, rowOfPairs_sublist (hsub.map _) hkeys, ← keptFields_eq_iff]
  constructor
  · intro h
    apply hsub.eq_of_length
    simpa using congrArg List.length h
  · intro h
    rw [h]

end

section

attribute [local instance] smallCrates

/-- The word `up`. -/
def upWord : OldToken := .word ⟨['u', 'p'], by simp, by simp [isKeyChar, isWhitespace]⟩

/-- The pair `a=1`. -/
def onePair : OldToken :=
  .field ⟨['a'], .unquoted ['1'] (by simp) (by simp [isWhitespace]) (by simp), by simp,
    by simp [isKeyChar, isWhitespace]⟩

/-- The line `up up a=1`, where `a` is an integer. -/
theorem parsers_agree_iff_up :
    parseLogfmtLineWithSchema (Utf8.encode (oldLine [upWord, upWord, onePair]))
        (some ((∅ : Schema).insert (Utf8.encode ['a']) .integer)) =
      oldParseLogfmtLineWithSchema (oldLine [upWord, upWord, onePair])
        (some ((∅ : Schema).insert (Utf8.encode ['a']) .integer)) := by
  have hfield : ∀ f, OldToken.field f ∈ [upWord, upWord, onePair] → onePair = .field f := by
    intro f hf
    rcases List.mem_cons.mp hf with h | hf
    · cases h
    rcases List.mem_cons.mp hf with h | hf
    · cases h
    exact (List.mem_singleton.mp hf).symm
  refine (parsers_agree_iff ?_ (by decide) ?_).mpr trivial
  · intro f hf
    cases hfield f hf
    rfl
  · intro s hs f hf
    cases hfield f hf
    cases hs
    exact ⟨.integer, Std.ExtTreeMap.getElem?_insert_self, by decide⟩

end

end PolarsLogfmt
