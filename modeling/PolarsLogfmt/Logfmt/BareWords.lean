import PolarsLogfmt.Logfmt.Encode

/-!
# Words without a value

A bare word among the fields of a line costs the token after it: the parser looks for
`=` past the whitespace, does not find it, and skips the token it has come to. Two
words in a row so leave the next field alone. `pairs_encodeTokens` says that these are
the only lines whose fields all survive, however the rest of a cut field reads.
-/

namespace PolarsLogfmt

/-- A token without `=`. -/
structure BareWord where
  text : Bytes
  ne_nil : text ≠ []
  valid : Utf8.Valid text
  token : ∀ b ∈ text, b ≠ equalsSign ∧ isAsciiWhitespace b = false

/-- A token of a line. -/
inductive Token where
  | field (f : Field)
  | word (w : BareWord)

def Token.encode : Token → Bytes
  | .field f => f.encode
  | .word w => w.text

/-- The tokens as one line, separated by one space. -/
def encodeTokens : List Token → Bytes
  | [] => []
  | [t] => t.encode
  | t :: u :: tokens => t.encode ++ space :: encodeTokens (u :: tokens)

/-- What follows a token in a line. -/
def afterToken (tokens : List Token) : Bytes :=
  if tokens = [] then [] else space :: encodeTokens tokens

def Token.field? : Token → Option Field
  | .field f => some f
  | .word _ => none

/-- The fields among the tokens. -/
def tokenFields (tokens : List Token) : List Field := tokens.filterMap Token.field?

/-- Before every field stand an even number of words, counted from the field before it. -/
def EvenRuns : List Token → Prop
  | [] => True
  | .field _ :: tokens => EvenRuns tokens
  | [.word _] => True
  | .word _ :: .word _ :: tokens => EvenRuns tokens
  | .word _ :: .field _ :: _ => False

theorem encodeTokens_cons (t : Token) (tokens : List Token) :
    encodeTokens (t :: tokens) = t.encode ++ afterToken tokens := by
  cases tokens with
  | nil => simp [encodeTokens, afterToken]
  | cons u tokens => rw [encodeTokens, afterToken, if_neg (by simp)]

theorem separated_afterToken (tokens : List Token) : Separated (afterToken tokens) := by
  unfold afterToken
  split
  · exact separated_nil
  · exact separated_space _

theorem pairs_afterToken (tokens : List Token) :
    pairs (afterToken tokens) = pairs (encodeTokens tokens) := by
  unfold afterToken
  split
  · rename_i h
    rw [h]
    rfl
  · exact pairs_space _

@[simp] theorem tokenFields_field (f : Field) (tokens : List Token) :
    tokenFields (.field f :: tokens) = f :: tokenFields tokens := rfl

@[simp] theorem tokenFields_word (w : BareWord) (tokens : List Token) :
    tokenFields (.word w :: tokens) = tokenFields tokens := rfl

/-- A token starts with a byte that is neither whitespace nor `=`. -/
theorem Token.encode_head (t : Token) :
    ∃ b rest, t.encode = b :: rest ∧ b ≠ equalsSign ∧ isAsciiWhitespace b = false := by
  cases t with
  | field f =>
    obtain ⟨b, key, hkey⟩ := List.exists_cons_of_ne_nil f.key_ne_nil
    obtain ⟨hne, hws⟩ := f.key_token b (by rw [hkey]; exact List.mem_cons_self)
    refine ⟨b, key ++ equalsSign :: f.value.encode, ?_, hne, hws⟩
    rw [encode, Field.encode, hkey]
    rfl
  | word w =>
    obtain ⟨b, text, htext⟩ := List.exists_cons_of_ne_nil w.ne_nil
    obtain ⟨hne, hws⟩ := w.token b (by rw [htext]; exact List.mem_cons_self)
    exact ⟨b, text, htext, hne, hws⟩

/-! ## Where a pair is read -/

theorem quotedBody_eq {text body after : Bytes} (h : quotedBody text = some (body, after)) :
    text = body ++ doubleQuote :: after := by
  induction text using quotedBody.induct generalizing body after with
  | case1 => cases h
  | case2 rest =>
    rw [quotedBody_quote] at h
    cases h
    rfl
  | case3 hq =>
    rw [quotedBody.eq_def] at h
    simp [backslash, doubleQuote] at h
  | case4 c rest hq ih =>
    rw [quotedBody_escape] at h
    obtain ⟨⟨body', after'⟩, hrest, heq⟩ := Option.map_eq_some_iff.mp h
    cases heq
    rw [ih hrest]
    rfl
  | case5 b rest hq hb ih =>
    rw [quotedBody_plain hq hb] at h
    obtain ⟨⟨body', after'⟩, hrest, heq⟩ := Option.map_eq_some_iff.mp h
    cases heq
    rw [ih hrest]
    rfl

/-- A value has no more `=` than the text it is read from. -/
theorem count_nextValue (text : Bytes) :
    ∃ taken, text = taken ++ (nextValue text).2 ∧
      (nextValue text).1.count equalsSign ≤ taken.count equalsSign := by
  cases text with
  | nil => exact ⟨[], rfl, Nat.le_refl _⟩
  | cons b rest =>
    rw [nextValue]
    by_cases hb : b = doubleQuote
    · subst hb
      rw [if_pos rfl]
      cases hbody : quotedBody rest with
      | none => exact ⟨doubleQuote :: rest, by simp, List.count_le_count_cons⟩
      | some found =>
        obtain ⟨body, after⟩ := found
        have hrest := quotedBody_eq hbody
        cases body with
        | nil => exact ⟨[doubleQuote, doubleQuote], by simp [hrest], Nat.zero_le _⟩
        | cons c body =>
          refine ⟨doubleQuote :: ((c :: body) ++ [doubleQuote]), by simp [hrest], ?_⟩
          exact ((List.sublist_append_left _ _).trans (List.sublist_cons_self _ _)).count_le _
    · rw [if_neg hb]
      exact ⟨_, (List.takeWhile_append_dropWhile (p := fun b => !isAsciiWhitespace b)).symm,
        Nat.le_refl _⟩

/-- A pair is read from its key, whitespace, `=` and its value. -/
theorem nextPair_eq_some {text after key value : Bytes}
    (h : nextPair text = (some (key, value), after)) :
    ∃ before blank rest, text = before ++ key ++ blank ++ equalsSign :: rest ∧
      nextValue rest = (value, after) := by
  have htext := List.takeWhile_append_dropWhile (p := isAsciiWhitespace) (l := text)
  unfold nextPair at h
  simp only at h
  generalize text.dropWhile isAsciiWhitespace = start at h htext
  have hstart := List.takeWhile_append_dropWhile
    (p := fun b => b != equalsSign && !isAsciiWhitespace b) (l := start)
  generalize start.takeWhile (fun b => b != equalsSign && !isAsciiWhitespace b) = k at h hstart
  generalize start.dropWhile (fun b => b != equalsSign && !isAsciiWhitespace b) = rest at h hstart
  have hrest := List.takeWhile_append_dropWhile (p := isAsciiWhitespace) (l := rest)
  split at h
  · cases h
  · split at h
    · cases h
    · split at h
      · cases h
      · rename_i b more hmore
        split at h
        · cases h
        · rename_i hb
          split at h
          · cases h
          · obtain ⟨hpair, hafter⟩ := Prod.mk.inj h
            obtain ⟨rfl, hvalue⟩ := Prod.mk.inj (Option.some.inj hpair)
            refine ⟨text.takeWhile isAsciiWhitespace, rest.takeWhile isAsciiWhitespace, more, ?_,
              Prod.ext hvalue hafter⟩
            rw [List.append_assoc, List.append_assoc, ← not_not.mp hb, ← hmore, hrest, hstart,
              htext]

theorem nextPair_suffix (text : Bytes) : ∃ before, text = before ++ (nextPair text).2 := by
  have hspec := (parseTurn_spec text 0).2
  rw [List.drop_zero] at hspec
  exact ⟨text.take (parseTurn text 0).2, by rw [← hspec, List.take_append_drop]⟩

/-- The first pair of a text, and the text its others are read from. -/
theorem pairs_eq_cons {text : Bytes} {pair : Bytes × Bytes} {more : List (Bytes × Bytes)}
    (h : pairs text = pair :: more) :
    ∃ before blank rest, text = before ++ pair.1 ++ blank ++ equalsSign :: rest ∧
      (nextValue rest).1 = pair.2 ∧ pairs (nextValue rest).2 = more := by
  induction hlen : text.length using Nat.strong_induction_on generalizing text with
  | _ n ih =>
    have hne : text ≠ [] := by
      rintro rfl
      rw [pairs_nil] at h
      cases h
    rw [pairs_of_ne_nil hne] at h
    cases hnext : nextPair text with
    | mk found after =>
      rw [hnext] at h
      cases found with
      | none =>
        obtain ⟨pre, hpre⟩ := nextPair_suffix text
        rw [hnext] at hpre
        have hless := length_nextPair_lt hne
        rw [hnext, hlen] at hless
        obtain ⟨before, blank, rest, hafter, hvalue, hmore⟩ := ih after.length hless h rfl
        exact ⟨pre ++ before, blank, rest, by rw [hpre, hafter]; simp, hvalue, hmore⟩
      | some found =>
        obtain ⟨rfl, hmore⟩ := List.cons.inj h
        obtain ⟨before, blank, rest, htext, hvalue⟩ :=
          @nextPair_eq_some _ _ found.1 found.2 hnext
        exact ⟨before, blank, rest, htext, by rw [hvalue], by rw [hvalue]; exact hmore⟩

/-! ## A cut field does not grow back -/

theorem count_readBack (v : FieldValue) :
    v.encode.count equalsSign = v.readBack.count equalsSign := by
  cases v with
  | unquoted text hne htoken hhead => rw [FieldValue.readBack_of_not id]; rfl
  | quoted body hescaped =>
    have hquote : doubleQuote ≠ equalsSign := by decide
    have hcount : (FieldValue.quoted body hescaped).encode.count equalsSign =
        body.count equalsSign := by
      simp [FieldValue.encode, hquote]
    rw [hcount, FieldValue.readBack]
    split
    · rename_i hempty
      rw [show body = [] from hempty]
      rfl
    · rfl

/-- What follows a token up to the next field has no `=`. -/
theorem afterToken_eq (tokens : List Token) :
    ∃ words rest, afterToken tokens = words ++ rest ∧ equalsSign ∉ words ∧
      ((rest = [] ∧ tokenFields tokens = []) ∨
        ∃ f more, rest = encodeTokens (.field f :: more) ∧
          tokenFields tokens = f :: tokenFields more ∧ more.length < tokens.length) := by
  induction tokens with
  | nil => exact ⟨[], [], rfl, by simp, .inl ⟨rfl, rfl⟩⟩
  | cons t tokens ih =>
    have hspace : afterToken (t :: tokens) = space :: t.encode ++ afterToken tokens := by
      rw [afterToken, if_neg (by simp), encodeTokens_cons]
      rfl
    cases t with
    | field f =>
      refine ⟨[space], encodeTokens (.field f :: tokens), ?_, by decide, .inr ?_⟩
      · rw [hspace, encodeTokens_cons]
        rfl
      · exact ⟨f, tokens, rfl, rfl, Nat.lt_succ_self _⟩
    | word w =>
      obtain ⟨words, rest, hafter, hwords, hrest⟩ := ih
      refine ⟨space :: w.text ++ words, rest, ?_, ?_, ?_⟩
      · rw [hspace, hafter]
        simp [Token.encode]
      · intro hmem
        rcases List.mem_append.mp hmem with hmem | hmem
        · rcases List.mem_cons.mp hmem with heq | hmem
          · exact absurd heq (by decide)
          · exact (w.token _ hmem).1 rfl
        · exact hwords hmem
      · rcases hrest with hnone | ⟨f, more, hrest, hfields, hlen⟩
        · exact .inl hnone
        · exact .inr ⟨f, more, hrest, hfields, Nat.lt_succ_of_lt hlen⟩

/-- Nothing stands before a key whose `=` is the first. -/
theorem eq_nil_of_key_eq {key blank before a b : Bytes}
    (h : key ++ equalsSign :: a = before ++ key ++ blank ++ equalsSign :: b)
    (hkey : equalsSign ∉ key) (hbefore : equalsSign ∉ before) (hblank : equalsSign ∉ blank) :
    before = [] := by
  have hstop : ∀ {xs ys : Bytes}, equalsSign ∉ xs →
      (xs ++ equalsSign :: ys).takeWhile (fun b => b != equalsSign) = xs := by
    intro xs ys hxs
    refine Scan.takeWhile_append_stop (fun x hx => ?_) (by simp)
    have hne : x ≠ equalsSign := by
      rintro rfl
      exact hxs hx
    simpa using hne
  have htake := congrArg (List.takeWhile fun b => b != equalsSign) h
  rw [hstop hkey, hstop (by simp [hkey, hbefore, hblank])] at htake
  have hlen := congrArg List.length htake
  rw [List.length_append, List.length_append] at hlen
  exact List.length_eq_zero_iff.mp (by omega)

/-- The pairs of a line of tokens, were its words read as nothing. -/
def tokenPairs (tokens : List Token) : List (Bytes × Bytes) :=
  (tokenFields tokens).map fun f => (f.key, f.value.readBack)

/-- Once the front of a field is cut off, what is left of the line does not have the pairs of
its fields: the first of them would have to be found in what is left of the field. -/
theorem pairs_ne_of_cut (f : Field) (tokens : List Token) {cut text : Bytes} (hcut : cut ≠ [])
    (h : encodeTokens (.field f :: tokens) = cut ++ text) :
    pairs text ≠ tokenPairs (.field f :: tokens) := by
  induction hlen : tokens.length using Nat.strong_induction_on generalizing f tokens cut text with
  | _ n ih =>
    intro hpairs
    obtain ⟨before, blank, rest, htext, hvalue, hmore⟩ :
        ∃ before blank rest, text = before ++ f.key ++ blank ++ equalsSign :: rest ∧
          (nextValue rest).1 = f.value.readBack ∧
          pairs (nextValue rest).2 = tokenPairs tokens := pairs_eq_cons hpairs
    obtain ⟨words, next, hafter, hwords, hnext⟩ := afterToken_eq tokens
    obtain ⟨taken, htaken, hcount⟩ := count_nextValue rest
    have hkey : equalsSign ∉ f.key := fun hmem => (f.key_token _ hmem).1 rfl
    have hline : (f.encode ++ words) ++ next =
        (cut ++ before ++ f.key ++ blank ++ equalsSign :: taken) ++ (nextValue rest).2 := by
      rw [List.append_assoc, ← hafter]
      calc f.encode ++ afterToken tokens
          = cut ++ text := by rw [← h, encodeTokens_cons]; rfl
        _ = cut ++ (before ++ f.key ++ blank ++ equalsSign :: (taken ++ (nextValue rest).2)) := by
          rw [← htaken, htext]
        _ = _ := by simp
    have hnot : ∀ left : Bytes, f.encode ++ words =
        (cut ++ before ++ f.key ++ blank ++ equalsSign :: taken) ++ left → False := by
      intro left heq
      have hwords' : words.count equalsSign = 0 := List.count_eq_zero.mpr hwords
      have hkey' : f.key.count equalsSign = 0 := List.count_eq_zero.mpr hkey
      have hback := count_readBack f.value
      rw [hvalue] at hcount
      have hcounts := congrArg (List.count equalsSign) heq
      simp only [Field.encode, List.count_append, List.count_cons_self, hwords', hkey'] at hcounts
      have hbefore : equalsSign ∉ cut ++ before := by
        rw [← List.count_eq_zero, List.count_append]
        omega
      have hblank : equalsSign ∉ blank := by
        rw [← List.count_eq_zero]
        omega
      have hnil := @eq_nil_of_key_eq f.key blank (cut ++ before)
        (f.value.encode ++ words) (taken ++ left)
        (by simpa [Field.encode] using heq) hkey hbefore hblank
      exact hcut (List.append_eq_nil_iff.mp hnil).1
    rcases List.append_eq_append_iff.mp hline with ⟨gap, hconsumed, hleft⟩ | ⟨gap, hfront, -⟩
    · by_cases hgap : gap = []
      · subst hgap
        exact hnot [] (by rw [hconsumed]; simp)
      · -- the value ends inside a later field: that one is cut now
        rcases hnext with ⟨rfl, -⟩ | ⟨g, more, rfl, hfields, hless⟩
        · exact hgap (List.append_eq_nil_iff.mp hleft.symm).1
        · refine ih more.length (hlen ▸ hless) g more hgap hleft rfl ?_
          rw [hmore]
          simp [tokenPairs, hfields]
    · exact hnot gap hfront

/-! ## Lines with words -/

/-- A word takes the token after it away. -/
theorem nextPair_word (w : BareWord) (tokens : List Token) :
    nextPair (encodeTokens (.word w :: tokens)) =
      (none, (encodeTokens tokens).dropWhile fun b => !isAsciiWhitespace b) := by
  obtain ⟨b, text, htext, -, hb⟩ := Token.encode_head (.word w)
  have hall : ∀ b ∈ w.text, (b != equalsSign && !isAsciiWhitespace b) = true := by
    intro b hb
    obtain ⟨hne, hws⟩ := w.token b hb
    simp [hne, hws]
  have hstart : (encodeTokens (.word w :: tokens)).dropWhile isAsciiWhitespace =
      w.text ++ afterToken tokens := by
    rw [encodeTokens_cons, show (Token.word w).encode = w.text from rfl,
      show w.text = b :: text from htext, List.cons_append,
      List.dropWhile_cons_of_neg (by rw [hb]; decide)]
  have hstop : (afterToken tokens).takeWhile (fun b => b != equalsSign && !isAsciiWhitespace b) =
      [] := by
    unfold afterToken
    split <;> rfl
  have htake := Scan.takeWhile_append_stop hall hstop
  have hdrop := Scan.dropWhile_append_stop hall hstop
  have hne : w.text ++ afterToken tokens ≠ [] := by simp [w.ne_nil]
  have hok : ¬ (w.text = [] ∨ ¬ Utf8.Valid w.text) := by
    rintro (h | h)
    · exact w.ne_nil h
    · exact h w.valid
  unfold nextPair
  simp only [hstart]
  rw [htake, hdrop, if_neg hne, if_neg hok]
  cases tokens with
  | nil => rfl
  | cons t tokens =>
    obtain ⟨c, more, hmore, hc, hws⟩ := t.encode_head
    have hnext : (afterToken (t :: tokens)).dropWhile isAsciiWhitespace =
        c :: (more ++ afterToken tokens) := by
      rw [afterToken, if_neg (by simp), List.dropWhile_cons_of_pos (by decide), encodeTokens_cons,
        hmore, List.cons_append, List.dropWhile_cons_of_neg (by rw [hws]; decide)]
    rw [hnext]
    simp only [ne_eq, hc, not_false_eq_true, if_true]
    rw [encodeTokens_cons, hmore, List.cons_append]

theorem encodeTokens_ne_nil (t : Token) (tokens : List Token) :
    encodeTokens (t :: tokens) ≠ [] := by
  obtain ⟨b, rest, htoken, -⟩ := t.encode_head
  rw [encodeTokens_cons, htoken]
  simp

/-- The fields of a line of tokens are all read exactly when the words come in even runs. -/
theorem pairs_encodeTokens (tokens : List Token) :
    pairs (encodeTokens tokens) = tokenPairs tokens ↔ EvenRuns tokens := by
  induction tokens using EvenRuns.induct with
  | case1 => exact iff_of_true pairs_nil trivial
  | case2 f tokens ih =>
    have hnext := nextPair_encode f (separated_afterToken tokens)
    rw [pairs_of_ne_nil (encodeTokens_ne_nil _ _), encodeTokens_cons, Token.encode, hnext,
      pairs_afterToken, EvenRuns, ← ih]
    simp [tokenPairs]
  | case3 w =>
    rw [pairs_of_ne_nil (encodeTokens_ne_nil _ _), nextPair_word]
    exact iff_of_true pairs_nil trivial
  | case4 w w' tokens ih =>
    have hall : ∀ b ∈ w'.text, (!isAsciiWhitespace b) = true := by
      intro b hb
      rw [(w'.token b hb).2]
      rfl
    rw [pairs_of_ne_nil (encodeTokens_ne_nil _ _), nextPair_word, encodeTokens_cons, Token.encode,
      Scan.dropWhile_append_stop hall (separated_afterToken tokens), pairs_afterToken, EvenRuns,
      ← ih]
    simp [tokenPairs]
  | case5 w f tokens =>
    refine iff_of_false ?_ id
    rw [pairs_of_ne_nil (encodeTokens_ne_nil _ _), nextPair_word]
    obtain ⟨b, rest, hfield, -, hb⟩ := Token.encode_head (.field f)
    refine pairs_ne_of_cut f tokens ?_ (List.takeWhile_append_dropWhile
      (p := fun b => !isAsciiWhitespace b)).symm
    rw [encodeTokens_cons, hfield, List.cons_append, List.takeWhile_cons_of_pos (by rw [hb]; rfl)]
    simp

/-- Words cost only themselves exactly when an even number of them stands before every field. -/
theorem handleParse_encodeTokens (tokens : List Token) :
    handleParseLogfmtLineWithSchemaBase (encodeTokens tokens) =
        handleParseLogfmtLineWithSchemaBase (encodeLine (tokenFields tokens)) ↔
      EvenRuns tokens := by
  rw [handleParseLogfmtLineWithSchemaBase_eq, handleParseLogfmtLineWithSchemaBase_eq,
    pairs_encodeLine, ← pairs_encodeTokens]
  rfl

/-- The word `x`. -/
def wordX : BareWord := ⟨[0x78], by decide, by decide +kernel, by decide +kernel⟩

/-- The field `a=1`. -/
def fieldA : Field where
  key := [0x61]
  value := .unquoted [0x31] (by decide) (by decide +kernel) (by decide)
  key_ne_nil := by decide
  key_valid := by decide +kernel
  key_token := by decide +kernel

/-- The line `x a=1` has no pair. -/
theorem handleParse_word_field :
    handleParseLogfmtLineWithSchemaBase (encodeTokens [.word wordX, .field fieldA]) = [] ∧
      handleParseLogfmtLineWithSchemaBase (encodeLine [fieldA]) = [([0x61], [0x31])] ∧
      ¬ ∀ (before after : List Field) (w : BareWord),
        handleParseLogfmtLineWithSchemaBase
            (encodeTokens (before.map .field ++ .word w :: after.map .field)) =
          handleParseLogfmtLineWithSchemaBase (encodeLine (before ++ after)) := by
  have hword : handleParseLogfmtLineWithSchemaBase
      (encodeTokens [.word wordX, .field fieldA]) = [] := by decide +kernel
  have hfield : handleParseLogfmtLineWithSchemaBase (encodeLine [fieldA]) = [([0x61], [0x31])] := by
    decide +kernel
  refine ⟨hword, hfield, fun h => ?_⟩
  have := h [] [fieldA] wordX
  simp only [List.map_nil, List.nil_append, List.map_cons] at this
  rw [hword, hfield] at this
  cases this

end PolarsLogfmt
