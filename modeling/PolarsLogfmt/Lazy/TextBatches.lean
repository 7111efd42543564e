import PolarsLogfmt.Lazy.ScanPaths
import PolarsLogfmt.Lazy.ReadableChunks

/-!
# The sequential path on a text

The sequential path reads the lines of a text up to the first that is no UTF-8, and fails
only when it gets there: `scanLoop_text` says for any text what its loop makes of the lines
before it.
-/

namespace PolarsLogfmt

variable [Crates]

open LazyLogFmtReader (scanLoop)

/-! ## A stream with an error -/

/-- The lines, and then an error. -/
def LineReader.faulty (lines : List Bytes) (e : IoError) (rest : List (Except IoError Bytes)) :
    LineReader := ⟨lines.map .ok ++ .error e :: rest, none⟩

section

variable {opts : BatchOpts} {lines : List Bytes} {e : IoError} {rest : List (Except IoError Bytes)}

theorem batchLines_faulty (size : Option Nat) :
    batchLines opts size 0 (LineReader.faulty lines e rest).lines =
      batchLines opts size 0 (lines.map .ok) := by
  refine batchLines_tail ?_ 0 lines
  rintro line rest ⟨⟩

/-- A batch runs into the error unless it is full before. -/
theorem completes_faulty_iff {size : Option Nat} :
    BatchCompletes opts size (.faulty lines e rest) ↔
      size.any (· ≤ ((batchLines opts size 0 (lines.map .ok)).filter opts.keeps).length) =
        true := by
  unfold BatchCompletes
  rw [batchLines_faulty]
  apply or_iff_left
  rintro ⟨-, hnil⟩
  obtain ⟨left, hleft⟩ := @exists_left_batchLines _ opts size lines
  have hlen := congrArg List.length hleft
  rw [LineReader.faulty, List.drop_eq_nil_iff, List.length_append, List.length_map,
    List.length_cons] at hnil
  rw [List.length_append] at hlen
  omega

/-- Of a batch of `n` rows: when there are `n` kept lines before the error. -/
theorem completes_faulty_size {n : Nat} :
    BatchCompletes opts (some n) (.faulty lines e rest) ↔ n ≤ (lines.filter opts.keeps).length := by
  obtain ⟨left, -, htaken, -⟩ := @batchLines_readable _ opts n lines
  rw [completes_faulty_iff, htaken, Option.any_some, decide_eq_true_eq, List.length_take]
  omega

omit [Crates] in
/-- What a batch that is full before the error leaves. -/
theorem drop_faulty {taken left : List Bytes} (h : lines = taken ++ left) :
    (LineReader.faulty lines e rest).lines.drop taken.length =
      (LineReader.faulty left e rest).lines := by
  subst h
  rw [LineReader.faulty, List.map_append, List.append_assoc]
  exact List.drop_left' (List.length_map _)

end

/-! ## The loop on such a stream -/

section

variable {self : LazyLogFmtReader} {schema : Schema} (hschema : self.schema = some schema)
  (scanOpts : AnonymousScanArgs) (sched : Schedule) {size : Option Nat}
  (hsize : scanOpts.nRows.or self.batchSize = size) {lines : List Bytes}
  (e : IoError) (rest : List (Except IoError Bytes)) (offset : Nat)

include hschema hsize

/-- A batch that wants more lines than there are fails. -/
theorem wrrapNextBatch_faulty
    (hshort : ∀ n ∈ size, (lines.filter (self.batchOpts (some schema)).keeps).length < n) :
    ∃ e' state', self.wrrapNextBatch scanOpts sched
      { reader := some (.faulty lines e rest), offset := offset } = (.error e', state') := by
  rw [wrrapNextBatch_open hschema scanOpts sched rfl rfl, readBatch_eq, hsize]
  rcases @parseBatchFromReader_cases _ (self.batchOpts (some schema)) size
    (.faulty lines e rest) with ⟨hcompletes, -⟩ | ⟨-, e', passed, rest', hbatch, -⟩
  · exfalso
    cases size with
    | none =>
      rw [completes_faulty_iff] at hcompletes
      cases hcompletes
    | some n => exact Nat.not_lt.mpr (completes_faulty_size.mp hcompletes) (hshort n rfl)
  · rw [hbatch]
    exact ⟨_, _, rfl⟩

/-- The loop then fails. -/
theorem scanLoop_faulty_short
    (hshort : ∀ n ∈ size, (lines.filter (self.batchOpts (some schema)).keeps).length < n)
    (acc : Option DataFrame) :
    ∃ e', scanLoop self scanOpts sched
      { reader := some (.faulty lines e rest), offset := offset } acc = .error e' := by
  obtain ⟨e', state', hturn⟩ :=
    wrrapNextBatch_faulty hschema scanOpts sched hsize e rest offset hshort
  refine ⟨e', ?_⟩
  rw [scanLoop_turn, hturn]

end

/-- A batch that is full before the error. -/
theorem wrrapNextBatch_before {self : LazyLogFmtReader} {schema : Schema}
    (hschema : self.schema = some schema) (scanOpts : AnonymousScanArgs) (sched : Schedule)
    {n : Nat} (hsize : scanOpts.nRows.or self.batchSize = some n) {lines : List Bytes}
    (hfull : n ≤ (lines.filter (self.batchOpts (some schema)).keeps).length) (e : IoError)
    (rest : List (Except IoError Bytes)) (offset : Nat) :
    ∃ (batch : BatchState) (left : List Bytes),
      self.wrrapNextBatch scanOpts sched
          { reader := some (.faulty lines e rest), offset := offset } =
        LazyLogFmtReader.finishBatch scanOpts (scanOpts.nRows.or self.batchSize) (some schema)
          { reader := some (.faulty left e rest), offset := offset } batch false ∧
      batch.rows.length ≤ batch.linesRead ∧
      batch.rows = batchRows (self.batchOpts (some schema))
        ((lines.filter (self.batchOpts (some schema)).keeps).take n) ∧
      left.filter (self.batchOpts (some schema)).keeps =
        (lines.filter (self.batchOpts (some schema)).keeps).drop n ∧
      (n = 0 → batch.linesRead = 0) := by
  have hzero : ({} : BatchState).rows.length ≤ ({} : BatchState).linesRead := Nat.le_refl 0
  rw [wrrapNextBatch_open hschema scanOpts sched rfl rfl, readBatch_eq, hsize]
  generalize self.batchOpts (some schema) = opts at hfull ⊢
  obtain ⟨left, hlines, htaken, hleft⟩ := @batchLines_readable _ opts n lines
  rcases @parseBatchFromReader_cases _ opts (some n) (.faulty lines e rest) with
    ⟨-, eof, hbatch, heof⟩ | ⟨hfails, -⟩
  · rw [batchLines_faulty] at hbatch heof
    rw [drop_faulty hlines] at hbatch
    obtain rfl : eof = false := by
      rw [← Bool.not_eq_true, heof, htaken, not_not, Option.any_some, decide_eq_true_eq,
        List.length_take]
      omega
    rw [hbatch]
    refine ⟨_, left, rfl, rows_le_linesRead opts hzero _, ?_, hleft, ?_⟩
    · rw [foldl_takeLine_eq, htaken]
    · rintro rfl
      rw [batchLines_full rfl]
      rfl
  · exact absurd (completes_faulty_size.mpr hfull) hfails

/-- The sequential path asks for more kept lines than these: it never stops before the end of
the stream but for a slice, or a batch size of 0. -/
def WantsMore (nRows batchSize : Option Nat) (kept : Nat) : Prop :=
  match nRows with
  | some n => kept < n
  | none => batchSize ≠ some 0

section

variable {self : LazyLogFmtReader} {schema : Schema} (hschema : self.schema = some schema)
  (scanOpts : AnonymousScanArgs) (sched : Schedule)

include hschema

/-- The loop over batches of `n` lines goes on to the error. -/
theorem scanLoop_faulty_batches (hnRows : scanOpts.nRows = none) {n : Nat}
    (hsize : self.batchSize = some n) (hn : 0 < n) (lines : List Bytes) (e : IoError)
    (rest : List (Except IoError Bytes)) (offset : Nat) (acc : Option DataFrame) :
    ∃ e', scanLoop self scanOpts sched
      { reader := some (.faulty lines e rest), offset := offset } acc = .error e' := by
  have hor : scanOpts.nRows.or self.batchSize = some n := by rw [hnRows, hsize, Option.none_or]
  -- by induction on the number of kept lines; a full batch leaves fewer
  induction hlen : (lines.filter (self.batchOpts (some schema)).keeps).length using
    Nat.strong_induction_on generalizing lines offset acc with
  | _ k ih =>
    by_cases hshort : k < n
    · refine scanLoop_faulty_short hschema scanOpts sched hor e rest offset ?_ acc
      rintro m ⟨⟩
      exact hlen ▸ hshort
    · obtain ⟨batch, left, hturn, hread, hrows, hleft, -⟩ := wrrapNextBatch_before hschema scanOpts
        sched hor (hlen ▸ Nat.le_of_not_lt hshort) e rest offset
      have hlenRows := length_batchRows (self.batchOpts (some schema))
        ((lines.filter (self.batchOpts (some schema)).keeps).take n)
      rw [← hrows, List.length_take, hlen] at hlenRows
      have hnonzero : (batch.linesRead == 0) = false := by
        rw [beq_eq_false_iff_ne]
        omega
      have hframe := @finishBatch_frame _ scanOpts (scanOpts.nRows.or self.batchSize)
        (self.batchOpts (some schema)) schema rfl
        { reader := some (.faulty left e rest), offset := offset } batch false _ hrows (by simp)
        (by rw [hor]; rintro m ⟨⟩; exact List.length_take_le _ _)
      have hless : (left.filter (self.batchOpts (some schema)).keeps).length < k := by
        rw [hleft, List.length_drop, hlen]
        omega
      have hnext := fun acc => ih _ hless left (offset + batch.linesRead) acc rfl
      rw [scanLoop_turn, hturn, hframe]
      cases batchFrame scanOpts (self.batchOpts (some schema))
        ((lines.filter (self.batchOpts (some schema)).keeps).take n) with
      | error e' => exact ⟨e', rfl⟩
      | ok df =>
        simp only [hnRows, Option.any_none, hnonzero, Bool.or_self, Bool.false_eq_true, if_false]
        split
        · exact hnext acc
        · split
          · exact ⟨_, rfl⟩
          · exact hnext _

/-- A loop that wants more lines than there are before the error fails. -/
theorem scanLoop_faulty_fails {lines : List Bytes}
    (hmore : WantsMore scanOpts.nRows self.batchSize
      (lines.filter (self.batchOpts (some schema)).keeps).length) (e : IoError)
    (rest : List (Except IoError Bytes)) (offset : Nat) (acc : Option DataFrame) :
    ∃ e', scanLoop self scanOpts sched
      { reader := some (.faulty lines e rest), offset := offset } acc = .error e' := by
  unfold WantsMore at hmore
  cases hnRows : scanOpts.nRows with
  | some n =>
    rw [hnRows] at hmore
    have hor : scanOpts.nRows.or self.batchSize = some n := by rw [hnRows]; rfl
    refine scanLoop_faulty_short hschema scanOpts sched hor e rest offset ?_ acc
    rintro m ⟨⟩
    exact hmore
  | none =>
    rw [hnRows] at hmore
    cases hsize : self.batchSize with
    | none =>
      have hor : scanOpts.nRows.or self.batchSize = none := by rw [hnRows, hsize]; rfl
      exact scanLoop_faulty_short hschema scanOpts sched hor e rest offset (by simp) acc
    | some n =>
      have hn : 0 < n := Nat.pos_of_ne_zero fun h => hmore (by rw [hsize, h])
      exact scanLoop_faulty_batches hschema scanOpts sched hnRows hsize hn lines e rest offset acc

/-- One that does not never sees it. -/
theorem scanLoop_faulty_stops {lines : List Bytes}
    (hmore : ¬ WantsMore scanOpts.nRows self.batchSize
      (lines.filter (self.batchOpts (some schema)).keeps).length) (e : IoError)
    (rest : List (Except IoError Bytes)) (offset : Nat) (acc : Option DataFrame) :
    scanLoop self scanOpts sched { reader := some (.faulty lines e rest), offset := offset } acc =
      stackBatches scanOpts (self.batchOpts (some schema)) acc
        (scanBatches scanOpts.nRows self.batchSize
          (lines.filter (self.batchOpts (some schema)).keeps)) := by
  -- there is one batch, of the lines asked for
  have hone : ∃ n, scanOpts.nRows.or self.batchSize = some n ∧
      n ≤ (lines.filter (self.batchOpts (some schema)).keeps).length ∧
      scanBatches scanOpts.nRows self.batchSize
          (lines.filter (self.batchOpts (some schema)).keeps) =
        [(lines.filter (self.batchOpts (some schema)).keeps).take n] ∧
      (scanOpts.nRows = some n ∨ n = 0) := by
    unfold WantsMore at hmore
    cases hnRows : scanOpts.nRows with
    | some n =>
      rw [hnRows] at hmore
      have hle := Nat.le_of_not_lt hmore
      refine ⟨n, rfl, hle, ?_, .inl rfl⟩
      rw [scanBatches]
      by_cases hn : n = 0
      · rw [if_pos hn, hn, List.take_zero]
      · have hne : lines.filter (self.batchOpts (some schema)).keeps ≠ [] := by
          intro hnil
          rw [hnil] at hle
          exact hn (Nat.le_zero.mp hle)
        rw [if_neg hn, if_neg hne]
    | none =>
      rw [hnRows] at hmore
      have hzero : self.batchSize = some 0 := not_not.mp hmore
      refine ⟨0, by rw [hzero]; rfl, Nat.zero_le _, ?_, .inr rfl⟩
      rw [hzero]
      rfl
  obtain ⟨n, hor, hle, hbatches, hlast⟩ := hone
  obtain ⟨batch, left, hturn, hread, hrows, -, hzero⟩ :=
    wrrapNextBatch_before hschema scanOpts sched hor hle e rest offset
  rw [hbatches]
  refine scanLoop_finishBatch hturn rfl hrows (by simp) ?_ ?_
  · rw [hor]
    rintro m ⟨⟩
    exact List.length_take_le _ _
  · intro acc
    refine scanLoop_finished _ _ _ ?_ acc
    rw [List.length_take, Nat.min_eq_left hle]
    rcases hlast with hnRows | rfl
    · simp [hnRows]
    · simp [hzero rfl]

end

/-- What the loop of `scan` makes of a text: the frames of the batches of its readable lines,
unless it wants more of them than there are before a line that is no UTF-8. -/
theorem scanLoop_text {self : LazyLogFmtReader} {schema : Schema}
    (hschema : self.schema = some schema) (scanOpts : AnonymousScanArgs) (sched : Schedule)
    {text : Bytes}
    (h : ValidLines text ∨ ¬ WantsMore scanOpts.nRows self.batchSize
      ((readableLines text).filter (self.batchOpts (some schema)).keeps).length) :
    scanLoop self scanOpts sched { reader := some (.ofBytes text) } none =
      stackBatches scanOpts (self.batchOpts (some schema)) none
        (scanBatches scanOpts.nRows self.batchSize
          ((readableLines text).filter (self.batchOpts (some schema)).keeps)) := by
  by_cases hvalid : ValidLines text
  · have hreader : LineReader.ofBytes text = .readable (readableLines text) := by
      rw [LineReader.ofBytes, textLines_of_valid hvalid]
      rfl
    rw [hreader]
    exact scanLoop_eq hschema scanOpts sched (readableLines text) 0 none
  · obtain ⟨rest, hlines⟩ := textLines_of_invalid hvalid
    have hreader : LineReader.ofBytes text = .faulty (readableLines text) invalidUtf8 rest := by
      rw [LineReader.ofBytes, hlines]
      rfl
    rw [hreader]
    exact scanLoop_faulty_stops hschema scanOpts sched (h.resolve_left hvalid) _ _ 0 none

theorem scanLoop_text_fails {self : LazyLogFmtReader} {schema : Schema}
    (hschema : self.schema = some schema) (scanOpts : AnonymousScanArgs) (sched : Schedule)
    {text : Bytes} (hvalid : ¬ ValidLines text)
    (hmore : WantsMore scanOpts.nRows self.batchSize
      ((readableLines text).filter (self.batchOpts (some schema)).keeps).length) :
    ∃ e, scanLoop self scanOpts sched { reader := some (.ofBytes text) } none = .error e := by
  obtain ⟨rest, hlines⟩ := textLines_of_invalid hvalid
  have hreader : LineReader.ofBytes text = .faulty (readableLines text) invalidUtf8 rest := by
    rw [LineReader.ofBytes, hlines]
    rfl
  rw [hreader]
  exact scanLoop_faulty_fails hschema scanOpts sched hmore _ _ 0 none

end PolarsLogfmt
