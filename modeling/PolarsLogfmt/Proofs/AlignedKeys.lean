import PolarsLogfmt.Lazy.BatchRows

/-!
# The keys of aligned rows

With `aligned_cols_cnt` the sequential path drops the keys of a row that its first row with
a key does not have, but only from rows with another number of keys.
-/

namespace PolarsLogfmt

section

variable [Crates]

/-- The first row that has a key. -/
def keyedRow? (rows : List Row) : Option Row := rows.find? fun row => row.keys ≠ []

/-- Every row has only keys of the first one that has any. -/
def AlignedRows (rows : List Row) : Prop :=
  ∀ first ∈ keyedRow? rows, ∀ row ∈ rows, ∀ key ∈ row, key ∈ first

/-- The rows with as many keys as the first one that has any have its keys. -/
def EqualCountsAgree (rows : List Row) : Prop :=
  ∀ first ∈ keyedRow? rows, ∀ row ∈ rows, row.size = first.size → ∀ key ∈ row, key ∈ first

/-- The rows of the loop, with the column keys it has. -/
def alignRows (columnKeys : List Bytes) : List Row → List Row
  | [] => []
  | row :: rows => (alignRow columnKeys row).1 :: alignRows (alignRow columnKeys row).2 rows

theorem foldl_pushRow_aligned {opts : BatchOpts} (ha : opts.alignedColsCnt = true)
    (lines : List Bytes) (acc : List Row × List Bytes) :
    (lines.foldl (pushRow opts) acc).1 =
      acc.1 ++ alignRows acc.2 (lines.map fun line =>
        parseLogfmtLineWithSchema line opts.schema) := by
  induction lines generalizing acc with
  | nil => simp [alignRows]
  | cons line lines ih =>
    rw [List.foldl_cons, ih, pushRow]
    simp [ha, alignRows]

theorem batchRows_aligned {opts : BatchOpts} (ha : opts.alignedColsCnt = true)
    (lines : List Bytes) :
    batchRows opts lines =
      alignRows [] (lines.map fun line => parseLogfmtLineWithSchema line opts.schema) := by
  rw [batchRows, foldl_pushRow_aligned ha]
  rfl

/-- Once there are columns they stay. -/
theorem alignRow_keys {columnKeys : List Bytes} (hk : columnKeys ≠ []) (row : Row) :
    (alignRow columnKeys row).2 = columnKeys := if_neg hk

/-- A row keeps its keys, except for foreign ones when their number is another. -/
theorem mem_alignRow {columnKeys : List Bytes} (hk : columnKeys ≠ []) {row : Row} {key : Bytes} :
    key ∈ (alignRow columnKeys row).1 ↔
      key ∈ row ∧ (row.size ≠ columnKeys.length → key ∈ columnKeys) := by
  unfold alignRow
  by_cases hsize : row.size = columnKeys.length
  · simp [hsize]
  · simp [hk, hsize, Std.ExtTreeMap.mem_filter]

theorem mem_alignRows {columnKeys : List Bytes} (hk : columnKeys ≠ []) {rows : List Row}
    {row' : Row} :
    row' ∈ alignRows columnKeys rows ↔ ∃ row ∈ rows, (alignRow columnKeys row).1 = row' := by
  induction rows with
  | nil => simp [alignRows]
  | cons row rows ih =>
    rw [alignRows, List.mem_cons, alignRow_keys hk, ih, List.exists_mem_cons_iff, eq_comm]

theorem alignRows_iff (rows : List Row) :
    AlignedRows (alignRows [] rows) ↔ EqualCountsAgree rows := by
  induction rows with
  | nil =>
    exact iff_of_true (by simp [AlignedRows, alignRows, keyedRow?])
      (by simp [EqualCountsAgree, keyedRow?])
  | cons row rows ih =>
    have halign : alignRow [] row = (row, row.keys) := by simp [alignRow]
    rw [alignRows, halign]
    by_cases hkeys : row.keys = []
    · -- a row without keys is nothing to align with, and has nothing to align
      have hnone : ∀ key, key ∉ row := by
        intro key hmem
        rw [← Std.ExtTreeMap.mem_keys, hkeys] at hmem
        cases hmem
      have hskip : ∀ more, keyedRow? (row :: more) = keyedRow? more :=
        fun more => List.find?_cons_of_neg (by rw [decide_eq_true_eq]; exact fun h => h hkeys)
      rw [hkeys]
      unfold AlignedRows EqualCountsAgree at ih ⊢
      simp only [hskip, List.forall_mem_cons]
      simp only [hnone, IsEmpty.forall_iff, implies_true, true_and]
      exact ih
    · have hfirst : ∀ more, keyedRow? (row :: more) = some row :=
        fun more => List.find?_cons_of_pos (by rw [decide_eq_true_eq]; exact hkeys)
      unfold AlignedRows EqualCountsAgree
      simp only [hfirst, Option.mem_some_iff, forall_eq', List.forall_mem_cons, mem_alignRows hkeys]
      refine ⟨fun h => ⟨fun _ _ hkey => hkey, ?_⟩, fun h => ⟨fun _ hkey => hkey, ?_⟩⟩
      · intro row' hrow' hsize key hkey
        refine h.2 _ ⟨row', hrow', rfl⟩ key ((mem_alignRow hkeys).mpr ⟨hkey, fun hne => ?_⟩)
        rw [Std.ExtTreeMap.length_keys] at hne
        exact absurd hsize hne
      · rintro _ ⟨row', hrow', rfl⟩ key hkey
        obtain ⟨hmem, hpruned⟩ := (mem_alignRow hkeys).mp hkey
        by_cases hsize : row'.size = row.size
        · exact h.2 row' hrow' hsize key hmem
        · rw [← Std.ExtTreeMap.length_keys (t := row)] at hsize
          exact Std.ExtTreeMap.mem_keys.mp (hpruned hsize)

/-- The loop has taken the first lines of the stream. -/
theorem parseBatchLoop_taken {opts : BatchOpts} {batchSize : Option Nat} {stuck : Option IoError}
    {lines rest : List (Except IoError Bytes)} {st out : BatchState} {eof : Bool}
    (h : parseBatchLoop opts batchSize stuck lines st = (.ok (out, eof), rest)) :
    ∃ taken : List Bytes, lines = taken.map .ok ++ rest ∧
      out = taken.foldl (BatchState.takeLine opts) st := by
  induction lines generalizing st with
  | nil =>
    rw [parseBatchLoop.eq_def] at h
    dsimp only at h
    refine ⟨[], ?_⟩
    split at h
    · cases h
      exact ⟨rfl, rfl⟩
    · cases stuck with
      | none =>
        cases h
        exact ⟨rfl, rfl⟩
      | some e => cases h
  | cons line lines ih =>
    rw [parseBatchLoop.eq_def] at h
    dsimp only at h
    split at h
    · cases h
      exact ⟨[], rfl, rfl⟩
    · cases line with
      | error e => cases h
      | ok line =>
        obtain ⟨taken, rfl, hout⟩ := ih h
        exact ⟨line :: taken, rfl, hout⟩

/-- The rows of a batch are aligned exactly when those of its lines with as many keys as the
first keyed one have its keys. The lines are the kept ones of those read for the batch. -/
theorem alignedRows_iff {opts : BatchOpts} (ha : opts.alignedColsCnt = true)
    {batchSize : Option Nat} {reader reader' : LineReader} {batch : BatchState} {eof : Bool}
    (h : parseBatchFromReader opts batchSize reader = (.ok (batch, eof), reader')) :
    ∃ taken : List Bytes, reader.lines = taken.map .ok ++ reader'.lines ∧
      (AlignedRows batch.rows ↔
        EqualCountsAgree ((taken.filter opts.keeps).map fun line =>
          parseLogfmtLineWithSchema line opts.schema)) := by
  unfold parseBatchFromReader at h
  simp only [Prod.mk.injEq] at h
  obtain ⟨hloop, rfl⟩ := h
  obtain ⟨taken, hlines, hout⟩ := @parseBatchLoop_taken _ _ _ _ _ _ _ batch eof (Prod.ext hloop rfl)
  refine ⟨taken, hlines, ?_⟩
  rw [hout, foldl_takeLine_eq, batchRows_aligned ha, alignRows_iff]

end

section

attribute [local instance] smallCrates

def alignedOpts : BatchOpts := { alignedColsCnt := true }

/-- `a=1` and `a=2 b=3`: the foreign key is dropped. -/
def raggedLines : List Bytes := [Utf8.ofString "a=1\n", Utf8.ofString "a=2 b=3\n"]

theorem alignedRows_ragged :
    ∃ taken : List Bytes, (⟨raggedLines.map .ok, none⟩ : LineReader).lines = taken.map .ok ++ [] ∧
      (AlignedRows (raggedLines.foldl (BatchState.takeLine alignedOpts) {}).rows ↔
        EqualCountsAgree ((taken.filter alignedOpts.keeps).map fun line =>
          parseLogfmtLineWithSchema line alignedOpts.schema)) :=
  @alignedRows_iff _ alignedOpts rfl none ⟨raggedLines.map .ok, none⟩ ⟨[], none⟩
    (raggedLines.foldl (BatchState.takeLine alignedOpts) {}) true rfl

/-- `a=1` and `b=2`: one key each, but not the same. -/
def foreignLines : List Bytes := [Utf8.ofString "a=1\n", Utf8.ofString "b=2\n"]

/-- The row of the second line keeps its key `b`, which the first row does not have. -/
theorem alignedRows_counterexample :
    parseBatchFromReader alignedOpts none ⟨foreignLines.map .ok, none⟩ =
        (.ok (foreignLines.foldl (BatchState.takeLine alignedOpts) {}, true), ⟨[], none⟩) ∧
      ¬ AlignedRows (foreignLines.foldl (BatchState.takeLine alignedOpts) {}).rows := by
  refine ⟨rfl, fun h => ?_⟩
  have hkept : ∃ row ∈ (foreignLines.foldl (BatchState.takeLine alignedOpts) {}).rows,
      Utf8.ofString "b" ∈ row := by decide +kernel
  have hfirst : ∃ first ∈ keyedRow? (foreignLines.foldl (BatchState.takeLine alignedOpts) {}).rows,
      Utf8.ofString "b" ∉ first := by decide +kernel
  obtain ⟨row, hrow, hkey⟩ := hkept
  obtain ⟨first, hmem, hnot⟩ := hfirst
  exact hnot (h first hmem row hrow _ hkey)

end

end PolarsLogfmt
