import PolarsLogfmt.Lazy.ParallelFrames

/-!
# Rows of an aligned parallel scan

Which lines become rows of the frame a worker makes of its chunk, and of the frame
of the whole scan.
-/

namespace PolarsLogfmt

open SideBySide

section

variable [Crates]

/-! ## One worker -/

/-- Every line yields one row: the frame of the first `k` lines has `k` rows, for every `k`. -/
def OneRowEach (opts : FrameOpts) (lines : List PushedLine) : Prop :=
  ∀ k ≤ lines.length, ∃ df, workerFrame opts (lines.take k) = .ok df ∧ df.height = k

/-- So a line that has a key twice adds two rows or more to the frame. -/
theorem height_of_repeated {m : DataFrameMaker} (hm : m.Ready) (ht : Typed m.schema m.tracks)
    (hkeys : m.columnKeys.Nodup) (hne : m.columnKeys ≠ []) {n : Nat}
    (hcells : ∀ key ∈ m.columnKeys, ((cellsOf m.tracks key).getD []).length = n) {line : Bytes}
    (hrep : ¬ HasOnce m.columnKeys line) {df : DataFrame} (hdf : (m.pushLine line).toDf = .ok df) :
    n + 2 ≤ df.height ∧ 0 < df.width := by
  obtain ⟨key, hkey, cells, hgrown, hlen⟩ := DataFrameMaker.cells_of_repeated hm ht hne hcells hrep
  obtain ⟨hready, -, -, hcols⟩ := DataFrameMaker.pushLine_spec hm line
  obtain ⟨hheight, hwidth⟩ := DataFrameMaker.height_of_toDf hready (by rw [hcols]; exact hkeys) hdf
    (by rw [hcols]; exact hkey) hgrown
  exact ⟨hheight ▸ hlen, hwidth⟩

/-- So does the frame of a worker that has aligned the lines before. -/
theorem height_workerFrame_repeated {opts : FrameOpts} (ha : opts.alignedColsCnt = true)
    (hp : opts.predicate = none) (hc : opts.withColumns = none) {first p : PushedLine}
    (hk : lineColumns first.line ≠ []) {before rest : List PushedLine}
    (hbefore : before ++ [p] = first :: rest)
    (honce : ∀ q ∈ before, HasOnce (lineColumns first.line) q.line)
    (hrep : ¬ HasOnce (lineColumns first.line) p.line) {df : DataFrame}
    (hdf : workerFrame opts (before ++ [p]) = .ok df) : before.length + 2 ≤ df.height := by
  have hhead : ∀ line ∈ (before.map PushedLine.line).head?,
      ∀ key ∈ lineColumns first.line, key ∈ lineKeys line := by
    intro line hline key hkey
    cases before with
    | nil => cases hline
    | cons q before =>
      obtain rfl := (List.cons.inj hbefore).1
      cases hline
      exact mem_lineColumns.mp hkey
  have honce' : ∀ line ∈ before.map PushedLine.line, HasOnce (lineColumns first.line) line := by
    intro line hline
    obtain ⟨q, hq, rfl⟩ := List.mem_map.mp hline
    exact honce q hq
  obtain ⟨ht, -⟩ := DataFrameMaker.tracksFor_aligned (some (makerSchema opts first.line))
    (lineColumns_nodup first.line) hk hhead honce'
  obtain ⟨hready, -, hschema, hcols⟩ := pushLines_spec (DataFrameMaker.ready_asked
    (some (makerSchema opts first.line)) (lineColumns first.line))
    (by simp [Typed, DataFrameMaker.tracks]) (before.map PushedLine.line)
  have hworker := @pushed_aligned _ opts ha _ hk rest
  rw [← hbefore, List.map_append, List.map_singleton, pushLines_concat] at hworker
  rw [workerFrame, finishWorker, hworker] at hdf
  generalize pushLines _ (before.map PushedLine.line) = m at ht hready hschema hcols hdf
  simp only at hschema hcols hdf
  rw [← hcols] at hk hrep
  have hcells : ∀ key ∈ m.columnKeys, ((cellsOf m.tracks key).getD []).length = before.length := by
    intro key hkey
    rw [ht.cells key (hcols ▸ hkey)]
    simp
  cases hmade : (m.pushLine p.line).toDf with
  | error e =>
    rw [hmade] at hdf
    cases hdf
  | ok made =>
    obtain ⟨hheight, hwidth⟩ := height_of_repeated hready (by rw [hschema]; exact ht.typed)
      (by rw [hcols]; exact lineColumns_nodup _) hk hcells hrep hmade
    rw [hmade] at hdf
    have hfin : finishFrame opts made = .ok df := hdf
    rw [finishFrame_plain hp hc, if_pos ⟨hwidth, by omega⟩] at hfin
    cases hfin
    exact hheight

/-- Every line of a worker yields one row exactly when the worker can align its lines. -/
theorem oneRowEach_iff {opts : FrameOpts} (ha : opts.alignedColsCnt = true)
    (hpred : opts.predicate = none) (hc : opts.withColumns = none) (lines : List PushedLine) :
    OneRowEach opts lines ↔ Aligned (lines.map PushedLine.line) := by
  cases lines with
  | nil =>
    refine iff_of_true ?_ trivial
    intro k hk
    obtain rfl : k = 0 := Nat.le_zero.mp hk
    exact ⟨_, workerFrame_nil opts, rfl⟩
  | cons first lines =>
    constructor
    · intro h
      have hk : lineColumns first.line ≠ [] := by
        intro hnil
        obtain ⟨df, hdf, hheight⟩ := h 1 (by simp)
        rw [List.take_succ_cons, List.take_zero, workerFrame_keyless (by simpa using hnil)] at hdf
        cases hdf
        cases hheight
      -- by induction on the number of lines: the first line that repeats a key adds two rows
      have hprefix : ∀ k ≤ (first :: lines).length, ∀ p ∈ (first :: lines).take k,
          HasOnce (lineColumns first.line) p.line := by
        intro k
        induction k with
        | zero =>
          intro _ p hp
          cases hp
        | succ k ih =>
          intro hle p hp
          have hlt : k < (first :: lines).length := hle
          have ih := ih (Nat.le_of_lt hlt)
          obtain ⟨df, hdf, hheight⟩ := h (k + 1) hle
          have hcons : (first :: lines).take k ++ [(first :: lines)[k]] =
            first :: lines.take k := by
            rw [← List.take_succ_eq_append_getElem hlt, List.take_succ_cons]
          rw [List.take_succ_eq_append_getElem hlt] at hp hdf
          rcases List.mem_append.mp hp with hp | hp
          · exact ih p hp
          · obtain rfl := List.mem_singleton.mp hp
            by_contra hrep
            have hheight' := height_workerFrame_repeated ha hpred hc hk hcons ih hrep hdf
            rw [List.length_take, Nat.min_eq_left (Nat.le_of_lt hlt)] at hheight'
            omega
      refine ⟨hk, fun line hline => ?_⟩
      obtain ⟨p, hp, rfl⟩ := List.mem_map.mp (show line ∈ (first :: lines).map PushedLine.line
        from hline)
      exact hprefix (first :: lines).length (Nat.le_refl _) p (by simpa using hp)
    · rintro ⟨hk, honce⟩ k hle
      cases k with
      | zero => exact ⟨_, workerFrame_nil opts, rfl⟩
      | succ k =>
        have haligned : Aligned ((first :: lines.take k).map PushedLine.line) := by
          refine ⟨hk, fun line hline => honce line ?_⟩
          rcases List.mem_cons.mp hline with rfl | hline
          · exact List.mem_cons_self
          · exact List.mem_cons_of_mem _ (List.map_subset _ (List.take_subset k lines) hline)
        rw [List.take_succ_cons, workerFrame_aligned ha haligned, finishFrame_plain hpred hc]
        refine ⟨_, rfl, ?_⟩
        rw [if_pos ⟨alignedFrame_width hk _ _, by rw [alignedFrame_height hk]; simp⟩,
          alignedFrame_height hk, List.length_map, List.length_cons, List.length_take]
        rw [List.length_cons] at hle
        omega

/-! ## The whole scan -/

omit [Crates] in
theorem sum_length_flatMap {α β : Type} (f : α → List β) (xs : List α) :
    (xs.map fun x => (f x).length).sum = (xs.flatMap f).length := by
  rw [List.length_flatMap]

/-- The frames without rows do not count. -/
theorem sum_height_filter (dfs : List DataFrame) :
    ((dfs.filter fun df => 0 < df.height).map DataFrame.height).sum =
      (dfs.map DataFrame.height).sum := by
  induction dfs with
  | nil => rfl
  | cons df dfs ih =>
    by_cases h : 0 < df.height
    · rw [List.filter_cons_of_pos (by simpa using h), List.map_cons, List.sum_cons, ih,
        List.map_cons, List.sum_cons]
    · rw [List.filter_cons_of_neg (by simpa using h), ih, List.map_cons, List.sum_cons]
      omega

/-- A worker whose lines all yield one row makes a frame of as many rows. -/
theorem OneRowEach.height {opts : FrameOpts} {lines : List PushedLine} (h : OneRowEach opts lines)
    {df : DataFrame} (hdf : workerFrame opts lines = .ok df) : df.height = lines.length := by
  obtain ⟨df', hdf', hheight⟩ := h lines.length (Nat.le_refl _)
  rw [List.take_length, hdf] at hdf'
  cases hdf'
  exact hheight

open LazyLogFmtReader (workerChunks)

/-- When the parallel attempt of an aligned scan returns a frame, the frame has a row for each
accepted line of the text, and every line yields one row of its worker's frame,
exactly when every chunk starts with a line that has a key, and has no line that
repeats a key of that first line. -/
theorem row_conservation (self : LazyLogFmtReader) (ha : self.alignedColsCnt = true)
    (schema : Option Schema) (sched : Schedule) {schema' : Option Schema} {df : DataFrame}
    (h : self.parallelBatch {} schema sched = (schema', .ok (some df))) {origin : FrameOrigin}
    {frames : List FrameRange} {probe : LineReader}
    (horigin : self.parallelOrigin = some (origin, frames, probe)) {text : Bytes}
    (hwhole : Lines.Whole newline (frames.map origin.frameText))
    (htext : (frames.map origin.frameText).flatten = text) :
    (df.height = (acceptedLines self.lineFilter text).length ∧ ∀ chunk ∈ self.chunks frames,
        OneRowEach (self.frameOpts {} schema') (origin.chunkLines self.lineFilter chunk).1) ↔
      ∀ chunk ∈ self.chunks frames,
        Aligned (chunk.2.flatMap fun range =>
          acceptedLines self.lineFilter (origin.frameText range)) := by
  obtain ⟨origin', frames', probe', horigin', hflat, dfs, first, rest, hmade, hkept, hacc⟩ :=
    LazyLogFmtReader.parallelBatch_eq_some rfl h
  rw [horigin] at horigin'
  cases horigin'
  -- every chunk was read to its end
  have hlines : ∀ chunk ∈ self.chunks frames,
      (origin.chunkLines self.lineFilter chunk).1.map PushedLine.line =
        chunk.2.flatMap fun range => acceptedLines self.lineFilter (origin.frameText range) := by
    intro chunk hchunk
    obtain ⟨d, -, hd⟩ := exists_of_forall₂ hmade hchunk
    exact FrameOrigin.map_line_chunkLines (FrameOrigin.chunkFrame_eq_ok.mp hd).1
  have hiff : ∀ chunk ∈ self.chunks frames,
      (OneRowEach (self.frameOpts {} schema') (origin.chunkLines self.lineFilter chunk).1 ↔
        Aligned (chunk.2.flatMap fun range =>
          acceptedLines self.lineFilter (origin.frameText range))) := by
    intro chunk hchunk
    rw [oneRowEach_iff (by exact ha) rfl rfl, hlines chunk hchunk]
  constructor
  · rintro ⟨-, heach⟩ chunk hchunk
    exact (hiff chunk hchunk).mp (heach chunk hchunk)
  · intro haligned
    have heach : ∀ chunk ∈ self.chunks frames,
        OneRowEach (self.frameOpts {} schema') (origin.chunkLines self.lineFilter chunk).1 :=
      fun chunk hchunk => (hiff chunk hchunk).mpr (haligned chunk hchunk)
    refine ⟨?_, heach⟩
    have hheights : (self.chunks frames).map (fun chunk => (chunk.2.flatMap fun range =>
        acceptedLines self.lineFilter (origin.frameText range)).length) =
          dfs.map DataFrame.height := by
      apply map_eq_of_forall₂ hmade
      intro chunk hchunk d hd
      rw [(heach chunk hchunk).height (FrameOrigin.chunkFrame_eq_ok.mp hd).2, ← hlines chunk hchunk,
        List.length_map]
    calc df.height
        = ((first :: rest).map DataFrame.height).sum := by
          rw [DataFrame.accumulateVertical_height hacc, List.map_cons, List.sum_cons]
      _ = (dfs.map DataFrame.height).sum := by rw [← hkept, sum_height_filter]
      _ = ((self.chunks frames).flatMap fun chunk => chunk.2.flatMap fun range =>
            acceptedLines self.lineFilter (origin.frameText range)).length := by
          rw [← hheights, sum_length_flatMap]
      _ = ((frames.map origin.frameText).flatMap (acceptedLines self.lineFilter)).length := by
          rw [← List.flatMap_assoc, hflat, List.flatMap_map]
      _ = (acceptedLines self.lineFilter text).length := by
          rw [flatMap_acceptedLines hwhole, htext]

end

section

attribute [local instance] smallCrates

/-- The units `hello` and `a=1`, a worker for each. -/
def keylessUnit : LazyLogFmtReader where
  source := .units
    { units := [.ok (Utf8.ofString "hello\n"), .ok (Utf8.ofString "a=1\n")], countUnits := some 2 }
  alignedColsCnt := true
  nThreads := some 2

/-- The units `a=1` and `a=2`. -/
def keyedSource : UnitSource where
  units := [.ok (Utf8.ofString "a=1\n"), .ok (Utf8.ofString "a=2\n")]
  countUnits := some 2

/-- A worker for each of them. -/
def keyedUnits : LazyLogFmtReader where
  source := .units keyedSource
  alignedColsCnt := true
  nThreads := some 2

/-- The column `a` of 1 and 2. -/
def keyedFrame : DataFrame :=
  alignedFrame (some (inferSchemaFromRow (parseLogfmtLine (Utf8.ofString "a=1\n"))))
    [Utf8.ofString "a"] (by decide) [Utf8.ofString "a=1\n", Utf8.ofString "a=2\n"]

theorem row_conservation_keyed :
    keyedFrame.height = (acceptedLines none (Utf8.ofString "a=1\na=2\n")).length ∧
      ∀ chunk ∈ keyedUnits.chunks [{ idx := 0 }, { idx := 1 }],
        OneRowEach (keyedUnits.frameOpts {} (keyedUnits.parallelBatch {} none {}).1)
          ((FrameOrigin.units keyedSource).chunkLines none chunk).1 :=
  (row_conservation keyedUnits rfl none {} (Prod.ext rfl (by decide +kernel)) rfl
    (by decide +kernel) rfl).mpr (by decide +kernel)

/-- The height of a parallel attempt's frame. -/
def parallelHeight (self : LazyLogFmtReader) : Option Nat :=
  ((self.parallelBatch {} none {}).2.toOption.bind id).map DataFrame.height

/-- The line `hello` is accepted and has no row. -/
theorem row_conservation_counterexample :
    parallelHeight keylessUnit = some 1 ∧
      (acceptedLines keylessUnit.lineFilter (Utf8.ofString "hello\na=1\n")).length = 2 := by
  decide +kernel

end

end PolarsLogfmt
