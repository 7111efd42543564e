import PolarsLogfmt.Logfmt.Filter

/-!
# Reading a printed filter

The operators are looked for one after the other, each anywhere in the text. A printed filter is
read as the operator it was printed with when no operator tried earlier occurs in its value.
-/

namespace PolarsLogfmt

open SplitOnce (splitOnce trim Trimmed splitOnce_eq_none splitOnce_append)

/-- A key without whitespace at its ends and without a character of an operator. -/
structure PlainKey (key : List Char) : Prop where
  ne : key ≠ []
  trimmed : Trimmed isWhitespace key
  eq : '=' ∉ key
  bang : '!' ∉ key
  tilde : '~' ∉ key

namespace FilterOp

/-- The operators that are tried earlier. -/
def earlier : FilterOp → List FilterOp
  | notContains => []
  | contains => [notContains]
  | notEq => [notContains, contains]
  | eq => [notContains, contains, notEq]

/-- No operator that is tried earlier occurs in the value. -/
def Clear : FilterOp → List Char → Prop
  | notContains, _ => True
  | contains, value => ¬ ['!', '~'] <:+: value
  | notEq, value => '~' ∉ value
  | eq, value => '~' ∉ value ∧ ¬ ['!', '='] <:+: value

theorem all_eq (op : FilterOp) : ∃ later, all = op.earlier ++ op :: later := by
  cases op <;> exact ⟨_, rfl⟩

theorem not_mem_earlier (op : FilterOp) : op ∉ op.earlier := by cases op <;> decide

/-- A text is cut at the operator it was printed with. -/
theorem splitOnce_text (op : FilterOp) {key : List Char} (h : PlainKey key) (value : List Char) :
    splitOnce op.text (key ++ op.text ++ value) = some (key, value) := by
  cases op with
  | notContains => exact splitOnce_append h.bang value
  | contains => exact splitOnce_append h.tilde value
  | notEq => exact splitOnce_append h.bang value
  | eq => exact splitOnce_append h.eq value

/-- An operator with a tilde occurs in a printed text only where the value has one. -/
theorem tilde_not_mem {key value : List Char} (h : PlainKey key) {text : List Char}
    (htext : '~' ∉ text) : '~' ∈ key ++ text ++ value ↔ '~' ∈ value := by
  simp [h.tilde, htext]

/-- Where an earlier operator occurs in a printed text, it occurs in the value. -/
theorem clear_iff (op : FilterOp) {key : List Char} (h : PlainKey key) (value : List Char) :
    (∀ op' ∈ op.earlier, ¬ op'.text <:+: key ++ op.text ++ value) ↔ op.Clear value := by
  have hbang : ∀ c : Char, c ≠ '!' → '!' ∉ key ++ [c] := by
    intro c hc
    simp [h.bang, hc.symm]
  have htilde : ∀ {text : List Char}, '~' ∉ text →
      (¬ ['!', '~'] <:+: key ++ text ++ value ∧ ¬ ['~'] <:+: key ++ text ++ value ↔
        '~' ∉ value) := by
    intro text htext
    rw [SplitOnce.singleton_infix, tilde_not_mem h htext]
    constructor
    · exact fun hboth => hboth.2
    · refine fun hvalue => ⟨fun hinfix => hvalue ?_, hvalue⟩
      rw [← tilde_not_mem h htext]
      exact hinfix.subset (by simp)
  cases op with
  | notContains => simp [earlier, Clear]
  | contains =>
    simp only [earlier, List.forall_mem_cons, List.not_mem_nil, false_implies, implies_true,
      and_true, Clear, text]
    rw [SplitOnce.infix_append (hbang '~' (by decide))]
  | notEq =>
    simp only [earlier, List.forall_mem_cons, List.not_mem_nil, false_implies, implies_true,
      and_true, Clear, text]
    have hnotEq : '~' ∉ ['!', '='] := by decide
    exact htilde hnotEq
  | eq =>
    simp only [earlier, List.forall_mem_cons, List.not_mem_nil, false_implies, implies_true,
      and_true, Clear, text]
    have heq : '~' ∉ ['='] := by decide
    rw [← and_assoc, htilde heq, SplitOnce.infix_append (hbang '=' (by decide))]

end FilterOp

/-- The operator a text is read with is the first that occurs in it. -/
theorem parseFilterSpec_found {spec : List Char} (hspec : spec ≠ [])
    (htrim : trim isWhitespace spec = spec) {op : FilterOp} {key value : List Char}
    (hfound : (FilterOp.all.findSome? fun op => (splitOnce op.text spec).map (op, ·)) =
      some (op, key, value)) :
    parseFilterSpec (some spec) =
      if trim isWhitespace key = [] ∨ trim isWhitespace value = [] then
        .error (invalidFilterSpec spec)
      else .ok (op.filter (Utf8.encode (trim isWhitespace key))
        (Utf8.encode (trim isWhitespace value))) := by
  unfold parseFilterSpec
  simp only [htrim, if_neg hspec, hfound]

/-- `parse_filter_spec` reads a printed filter back exactly when its value has no operator that is
tried before its own. -/
theorem parseFilterSpec_iff (op : FilterOp) {key value : List Char} (hkey : PlainKey key)
    (hvalue : value ≠ []) (htrimmed : Trimmed isWhitespace value) :
    parseFilterSpec (some (key ++ op.text ++ value)) =
        .ok (op.filter (Utf8.encode key) (Utf8.encode value)) ↔
      op.Clear value := by
  rw [← FilterOp.clear_iff op hkey]
  have hspec : key ++ op.text ++ value ≠ [] := by simp [hkey.ne]
  have htrim := SplitOnce.trim_eq_self
    (hkey.trimmed.append htrimmed hkey.ne hvalue op.text)
  obtain ⟨later, hall⟩ := op.all_eq
  have hparse := @parseFilterSpec_found _ hspec htrim
  rw [hall, List.findSome?_append, List.findSome?_cons, op.splitOnce_text hkey] at hparse
  by_cases hclear : ∀ op' ∈ op.earlier, ¬ op'.text <:+: key ++ op.text ++ value
  · -- no earlier operator is found, and the printed one cuts off the key
    have hnone : (op.earlier.findSome? fun op' =>
        (splitOnce op'.text (key ++ op.text ++ value)).map (op', ·)) = none := by
      rw [List.findSome?_eq_none_iff]
      intro op' hop'
      rw [splitOnce_eq_none.mpr (hclear op' hop')]
      rfl
    rw [hnone] at hparse
    rw [hparse rfl, SplitOnce.trim_eq_self hkey.trimmed, SplitOnce.trim_eq_self htrimmed,
      if_neg (by simp [hkey.ne, hvalue])]
    exact iff_of_true rfl hclear
  · -- an earlier operator is found first
    refine iff_of_false ?_ hclear
    cases hfound : op.earlier.findSome? fun op' =>
        (splitOnce op'.text (key ++ op.text ++ value)).map (op', ·) with
    | none =>
      refine absurd (fun op' hop' => ?_) hclear
      have := List.findSome?_eq_none_iff.mp hfound op' hop'
      rw [Option.map_eq_none_iff] at this
      exact splitOnce_eq_none.mp this
    | some found =>
      obtain ⟨op', key', value'⟩ := found
      obtain ⟨op'', hmem, hsplit⟩ := List.exists_of_findSome?_eq_some hfound
      obtain ⟨cut, -, hcut⟩ := Option.map_eq_some_iff.mp hsplit
      obtain rfl : op'' = op' := congrArg Prod.fst hcut
      rw [hfound] at hparse
      rw [hparse rfl]
      split
      · exact fun h => nomatch h
      · intro h
        have hop := FilterOp.filter_injective (Except.ok.inj h)
        exact op.not_mem_earlier (hop ▸ hmem)

/-- A text is trimmed when its first and its last letter are no blanks. -/
theorem trimmed_letters {text : List Char} {first last : Char} (hfirst : text.head? = some first)
    (hlast : text.getLast? = some last)
    (h : isWhitespace first = false ∧ isWhitespace last = false) :
    Trimmed isWhitespace text := by
  constructor
  · intro x hx
    rw [hfirst] at hx
    cases hx
    exact h.1
  · intro x hx
    rw [hlast] at hx
    cases hx
    exact h.2

/-- A value may hold an operator that is tried later. -/
theorem parseFilterSpec_iff_letters :
    (parseFilterSpec (some (['k'] ++ FilterOp.notEq.text ++ ['a', '=', 'b'])) =
        .ok (.notEq (Utf8.encode ['k']) (Utf8.encode ['a', '=', 'b'])) ↔
      FilterOp.notEq.Clear ['a', '=', 'b']) ∧
    (parseFilterSpec (some (['k'] ++ FilterOp.notEq.text ++ ['a', '~', 'b'])) =
        .ok (.notEq (Utf8.encode ['k']) (Utf8.encode ['a', '~', 'b'])) ↔
      FilterOp.notEq.Clear ['a', '~', 'b']) := by
  have hkey : PlainKey ['k'] :=
    ⟨by decide, trimmed_letters rfl rfl (by decide), by decide, by decide, by decide⟩
  exact ⟨parseFilterSpec_iff .notEq hkey (by decide) (trimmed_letters rfl rfl (by decide)),
    parseFilterSpec_iff .notEq hkey (by decide) (trimmed_letters rfl rfl (by decide))⟩

/-- `k=a~b` is read as a search for `b` in the key `k=a`. -/
theorem parseFilterSpec_counterexample :
    parseFilterSpec (some (['k'] ++ FilterOp.eq.text ++ ['a', '~', 'b'])) ≠
      .ok (.eq (Utf8.encode ['k']) (Utf8.encode ['a', '~', 'b'])) := by
  have hfirst : parseFilterSpec (some (['k'] ++ FilterOp.eq.text ++ ['a', '~', 'b'])) =
      .ok (.contains (Utf8.encode ['k', '=', 'a']) (Utf8.encode ['b'])) := by rfl
  rw [hfirst]
  exact fun h => nomatch h

end PolarsLogfmt
