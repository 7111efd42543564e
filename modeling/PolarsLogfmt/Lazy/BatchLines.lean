import PolarsLogfmt.Lazy.Reader
import PolarsLogfmt.Lazy.BatchRows

/-!
# The lines of a batch

The loop of `parse_batch_from_reader` takes lines until it has its rows, the stream ends or a
line cannot be read. `batchLines` are the lines it takes; `parseBatchFromReader_cases` says how it
ends, and `parseBatchFromReader_readable` what that comes to on readable lines.
-/

namespace PolarsLogfmt

variable [Crates]

/-- The lines a batch that has some rows takes. -/
def batchLines (opts : BatchOpts) (size : Option Nat) :
    Nat → List (Except IoError Bytes) → List Bytes
  | rows, .ok line :: rest =>
      if size.any (· ≤ rows) then []
      else line :: batchLines opts size (if opts.keeps line then rows + 1 else rows) rest
  | _, _ => []

section

variable {opts : BatchOpts} {size : Option Nat}

/-- A batch that is full from the start takes no line. -/
theorem batchLines_full {rows : Nat} (h : size.any (· ≤ rows) = true)
    (entries : List (Except IoError Bytes)) :
    batchLines opts size rows entries = [] := by
  cases entries with
  | nil => rfl
  | cons entry entries =>
    cases entry with
    | error e => rfl
    | ok line => exact if_pos h

/-- What the stream holds after the lines of a batch. -/
theorem batchLines_append (rows : Nat) (entries : List (Except IoError Bytes)) :
    (batchLines opts size rows entries).map .ok ++
      entries.drop (batchLines opts size rows entries).length = entries := by
  fun_induction batchLines opts size rows entries with
  | case1 rows line rest hfull => rfl
  | case2 rows line rest hfull ih => rw [List.map_cons, List.length_cons, List.drop_succ_cons,
      List.cons_append, ih]
  | case3 rows entries hno => rfl

/-- Every line of a batch was needed. -/
theorem batchLines_needed {rows : Nat} {entries : List (Except IoError Bytes)} {init : List Bytes}
    {last : Bytes} (h : batchLines opts size rows entries = init ++ [last]) :
    ¬ size.any (· ≤ rows + (init.filter opts.keeps).length) = true := by
  fun_induction batchLines opts size rows entries generalizing init with
  | case1 rows line rest hfull => simp at h
  | case2 rows line rest hfull ih =>
    cases init with
    | nil => exact hfull
    | cons first init =>
      obtain ⟨rfl, hrest⟩ := List.cons.inj h
      have hmore := ih hrest
      by_cases hk : opts.keeps line = true
      · rw [List.filter_cons_of_pos hk, List.length_cons]
        rw [if_pos hk] at hmore
        rwa [Nat.add_comm _ 1, ← Nat.add_assoc]
      · rw [List.filter_cons_of_neg hk]
        rwa [if_neg hk] at hmore
  | case3 rows entries hno => simp at h

/-- A batch that is not full stops at no line. -/
theorem batchLines_stop {rows : Nat} {entries : List (Except IoError Bytes)}
    (h : ¬ size.any
      (· ≤ rows + ((batchLines opts size rows entries).filter opts.keeps).length) = true)
    (line : Bytes) (rest : List (Except IoError Bytes)) :
    entries.drop (batchLines opts size rows entries).length ≠ .ok line :: rest := by
  fun_induction batchLines opts size rows entries with
  | case1 rows line rest hfull => exact absurd hfull h
  | case2 rows line rest hfull ih =>
    rw [List.length_cons, List.drop_succ_cons]
    apply ih
    by_cases hk : opts.keeps line = true
    · rw [List.filter_cons_of_pos hk, List.length_cons, if_pos hk] at h
      rw [if_pos hk]
      rwa [Nat.add_assoc, Nat.add_comm 1]
    · rw [List.filter_cons_of_neg hk, if_neg hk] at h
      rwa [if_neg hk]
  | case3 rows entries hno =>
    intro heq
    exact hno line rest heq

/-- A batch has no more rows than it was asked for. -/
theorem kept_batchLines_le {n : Nat} (rows : Nat)
    (entries : List (Except IoError Bytes)) (hrows : rows ≤ n) :
    rows + ((batchLines opts (some n) rows entries).filter opts.keeps).length ≤ n := by
  fun_induction batchLines opts (some n) rows entries with
  | case1 rows line rest hfull => exact hrows
  | case2 rows line rest hfull ih =>
    have hmore : rows < n := by simpa using hfull
    by_cases hk : opts.keeps line = true
    · rw [if_pos hk] at ih ⊢
      have ih := ih hmore
      rw [List.filter_cons_of_pos hk, List.length_cons]
      omega
    · rw [if_neg hk] at ih ⊢
      rw [List.filter_cons_of_neg hk]
      exact ih hrows
  | case3 rows entries hno => exact hrows

theorem length_takeLine (st : BatchState) (line : Bytes) :
    (st.takeLine opts line).rows.length =
      if opts.keeps line then st.rows.length + 1 else st.rows.length := by
  have hone := length_foldl_takeLine opts st [line]
  rw [List.foldl_cons, List.foldl_nil] at hone
  rw [hone]
  by_cases hk : opts.keeps line = true
  · rw [List.filter_cons_of_pos hk, if_pos hk]
    rfl
  · rw [List.filter_cons_of_neg hk, if_neg hk]
    rfl

/-- The loop takes the lines of the batch and then stops. -/
theorem parseBatchLoop_batchLines (stuck : Option IoError) (entries : List (Except IoError Bytes))
    (st : BatchState) :
    parseBatchLoop opts size stuck entries st =
      parseBatchLoop opts size stuck
        (entries.drop (batchLines opts size st.rows.length entries).length)
        ((batchLines opts size st.rows.length entries).foldl (BatchState.takeLine opts) st) := by
  induction entries generalizing st with
  | nil => rfl
  | cons entry entries ih =>
    cases entry with
    | error e => rfl
    | ok line =>
      rw [batchLines]
      by_cases hfull : size.any (· ≤ st.rows.length) = true
      · rw [if_pos hfull]
        rfl
      · rw [if_neg hfull, List.length_cons, List.drop_succ_cons, List.foldl_cons,
          ← length_takeLine st line, ← ih (st.takeLine opts line), parseBatchLoop_line hfull]

/-- The batch is full, or the stream has ended. -/
def BatchCompletes (opts : BatchOpts) (size : Option Nat) (reader : LineReader) : Prop :=
  size.any (· ≤ ((batchLines opts size 0 reader.lines).filter opts.keeps).length) = true ∨
    (reader.stuck = none ∧ reader.lines.drop (batchLines opts size 0 reader.lines).length = [])

instance (opts : BatchOpts) (size : Option Nat) (reader : LineReader) :
    Decidable (BatchCompletes opts size reader) := by
  unfold BatchCompletes
  infer_instance

/-- How the loop ends. -/
theorem parseBatchFromReader_cases (reader : LineReader) :
    (BatchCompletes opts size reader ∧ ∃ eof,
      parseBatchFromReader opts size reader =
        (.ok ((batchLines opts size 0 reader.lines).foldl (BatchState.takeLine opts) {}, eof),
          ⟨reader.lines.drop (batchLines opts size 0 reader.lines).length, reader.stuck⟩) ∧
      (eof = true ↔ ¬ size.any
        (· ≤ ((batchLines opts size 0 reader.lines).filter opts.keeps).length) = true)) ∨
    (¬ BatchCompletes opts size reader ∧ ∃ e passed rest,
      parseBatchFromReader opts size reader =
        (.error (.computeError e), ⟨rest, reader.stuck⟩) ∧
      reader.lines.drop (batchLines opts size 0 reader.lines).length = passed ++ rest ∧
      ∀ line, Except.ok line ∉ passed) := by
  have hstart := @parseBatchLoop_batchLines _ opts size reader.stuck reader.lines {}
  have hlength := length_foldl_takeLine opts {} (batchLines opts size 0 reader.lines)
  have hstop := @batchLines_stop _ opts size 0 reader.lines
  rw [show ({} : BatchState).rows.length = 0 from rfl] at hstart hlength
  rw [Nat.zero_add] at hlength hstop
  unfold parseBatchFromReader BatchCompletes
  rw [hstart]
  generalize (batchLines opts size 0 reader.lines).foldl (BatchState.takeLine opts) {} = st at *
  rw [← hlength] at hstop ⊢
  by_cases hfull : size.any (· ≤ st.rows.length) = true
  · left
    rw [parseBatchLoop_full hfull]
    exact ⟨.inl hfull, false, rfl, by simp [hfull]⟩
  · cases hrest : reader.lines.drop (batchLines opts size 0 reader.lines).length with
    | nil =>
      cases hstuck : reader.stuck with
      | none =>
        left
        rw [parseBatchLoop_end hfull]
        exact ⟨.inr ⟨rfl, rfl⟩, true, rfl, by simp [hfull]⟩
      | some e =>
        right
        rw [parseBatchLoop_stuck hfull]
        refine ⟨?_, e, [], [], rfl, rfl, fun line h => nomatch h⟩
        rintro (h | ⟨h, -⟩)
        · exact hfull h
        · cases h
    | cons entry rest =>
      cases entry with
      | ok line => exact absurd hrest (hstop hfull line rest)
      | error e =>
        right
        rw [parseBatchLoop_error hfull]
        refine ⟨?_, e, [.error e], rest, rfl, rfl, ?_⟩
        · rintro (h | ⟨-, h⟩)
          · exact hfull h
          · cases h
        · intro line hmem
          rw [List.mem_singleton] at hmem
          cases hmem

end

/-- A batch of no rows is full before it reads a line. -/
theorem readBatch_eq (self : LazyLogFmtReader) (size : Option Nat) (schema : Option Schema)
    (reader : LineReader) :
    self.readBatch size schema reader =
      parseBatchFromReader (self.batchOpts schema) size reader := by
  unfold LazyLogFmtReader.readBatch
  split
  · rename_i hsize
    rw [hsize, parseBatchFromReader, parseBatchLoop_full rfl]
  · rfl

/-! ## Readable lines -/

/-- A stream of readable lines. -/
def LineReader.readable (lines : List Bytes) : LineReader := ⟨lines.map .ok, none⟩

section

variable {opts : BatchOpts}

/-- A batch does not look at what follows the readable lines. -/
theorem batchLines_tail {size : Option Nat} {tail : List (Except IoError Bytes)}
    (htail : ∀ line rest, tail ≠ .ok line :: rest) (rows : Nat) (lines : List Bytes) :
    batchLines opts size rows (lines.map .ok ++ tail) =
      batchLines opts size rows (lines.map .ok) := by
  induction lines generalizing rows with
  | nil =>
    cases tail with
    | nil => rfl
    | cons entry rest =>
      cases entry with
      | ok line => exact absurd rfl (htail line rest)
      | error e => rfl
  | cons line lines ih => rw [List.map_cons, List.cons_append, batchLines, batchLines, ih]

/-- Without a size it takes all lines. -/
theorem batchLines_all (rows : Nat) (lines : List Bytes) :
    batchLines opts none rows (lines.map .ok) = lines := by
  induction lines generalizing rows with
  | nil => rfl
  | cons line lines ih =>
    rw [List.map_cons, batchLines, ih]
    rfl

/-- The lines a batch leaves. -/
theorem exists_left_batchLines (size : Option Nat) (lines : List Bytes) :
    ∃ left, lines = batchLines opts size 0 (lines.map .ok) ++ left := by
  have happend := @batchLines_append _ opts size 0 (lines.map .ok)
  obtain ⟨taken, left, hlines, htaken, -⟩ := List.map_eq_append_iff.mp happend.symm
  refine ⟨left, ?_⟩
  rwa [← List.map_injective_iff.mpr (fun _ _ => Except.ok.inj) htaken]

/-- Readable lines complete every batch. -/
theorem completes_readable (size : Option Nat) (lines : List Bytes) :
    BatchCompletes opts size (.readable lines) := by
  unfold BatchCompletes LineReader.readable
  by_cases hfull : size.any
      (· ≤ ((batchLines opts size 0 (lines.map .ok)).filter opts.keeps).length) = true
  · exact .inl hfull
  · right
    rw [← Nat.zero_add ((batchLines opts size 0 (lines.map .ok)).filter opts.keeps).length] at hfull
    have hstop := batchLines_stop hfull
    refine ⟨rfl, ?_⟩
    cases hrest : (lines.map Except.ok).drop
        (batchLines opts size 0 (lines.map .ok)).length with
    | nil => rfl
    | cons entry rest =>
      have hmem : entry ∈ lines.map Except.ok :=
        List.mem_of_mem_drop (hrest ▸ List.mem_cons_self)
      obtain ⟨line, -, rfl⟩ := List.mem_map.mp hmem
      exact absurd hrest (hstop line rest)

/-- A batch of readable lines, and what is left of them. -/
theorem parseBatchFromReader_readable (size : Option Nat) (lines : List Bytes) :
    ∃ left eof, lines = batchLines opts size 0 (lines.map .ok) ++ left ∧
      parseBatchFromReader opts size (.readable lines) =
        (.ok ((batchLines opts size 0 (lines.map .ok)).foldl (BatchState.takeLine opts) {}, eof),
          .readable left) ∧
      (eof = true ↔ ¬ size.any
        (· ≤ ((batchLines opts size 0 (lines.map .ok)).filter opts.keeps).length) = true) := by
  obtain ⟨left, hleft⟩ := @exists_left_batchLines _ opts size lines
  rcases @parseBatchFromReader_cases _ opts size (.readable lines) with
    ⟨-, eof, hbatch, heof⟩ | ⟨hfails, -⟩
  · refine ⟨left, eof, hleft, hbatch.trans ?_, heof⟩
    have hdrop : ∀ taken, lines = taken ++ left →
        (lines.map Except.ok).drop taken.length = left.map (Except.ok (ε := IoError)) := by
      rintro taken rfl
      rw [List.map_append]
      exact List.drop_left' (List.length_map _)
    simp only [LineReader.readable, hdrop _ hleft]
  · exact absurd (completes_readable size lines) hfails

/-- A batch of `n` rows takes the first lines, up to the `n`-th that is kept. -/
theorem batchLines_readable (n : Nat) (lines : List Bytes) :
    ∃ left, lines = batchLines opts (some n) 0 (lines.map .ok) ++ left ∧
      (batchLines opts (some n) 0 (lines.map .ok)).filter opts.keeps =
        (lines.filter opts.keeps).take n ∧
      left.filter opts.keeps = (lines.filter opts.keeps).drop n := by
  obtain ⟨left, hlines⟩ := @exists_left_batchLines _ opts (some n) lines
  have hle := @kept_batchLines_le _ opts n 0 (lines.map .ok) (Nat.zero_le n)
  have hcompletes := @completes_readable _ opts (some n) lines
  unfold BatchCompletes LineReader.readable at hcompletes
  rw [Nat.zero_add] at hle
  generalize batchLines opts (some n) 0 (lines.map .ok) = taken at *
  refine ⟨left, hlines, ?_⟩
  rw [hlines, List.filter_append]
  rcases hcompletes with hfull | ⟨-, hnil⟩
  · rw [Option.any_some, decide_eq_true_eq] at hfull
    have heq := Nat.le_antisymm hle hfull
    exact ⟨(List.take_left' heq).symm, (List.drop_left' heq).symm⟩
  · have hnone : left = [] := by
      rw [hlines, List.map_append, List.drop_left' (List.length_map _)] at hnil
      exact List.map_eq_nil_iff.mp hnil
    rw [hnone, List.filter_nil, List.append_nil]
    exact ⟨(List.take_of_length_le hle).symm, (List.drop_eq_nil_of_le hle).symm⟩

end

end PolarsLogfmt
