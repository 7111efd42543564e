import PolarsLogfmt.Lazy.AcceptedScan
import PolarsLogfmt.Lazy.AlignedScan
import PolarsLogfmt.Proofs.BatchSize
import PolarsLogfmt.Proofs.SourceIndependence

/-!
# A limit on the rows

polars leaves a limit to the scan, which then reads one batch of that many rows. Its columns are
the keys of these rows only, so it is the head of the whole frame when every key has come by then.
-/

namespace PolarsLogfmt

section

variable [Crates]

/-- The first `n` lines have every key that any of the lines has. -/
def HeadCarries (n : Nat) (kept : List Bytes) : Prop :=
  ∀ line ∈ kept, ∀ key ∈ lineKeys line, ∃ other ∈ kept.take n, key ∈ lineKeys other

instance (n : Nat) : DecidablePred (HeadCarries n) := fun kept =>
  inferInstanceAs (Decidable
    (∀ line ∈ kept, ∀ key ∈ lineKeys line, ∃ other ∈ kept.take n, key ∈ lineKeys other))

section

variable {opts : BatchOpts} {schema : Schema}

theorem headCarries_iff (ha : opts.alignedColsCnt = false) (n : Nat) (kept : List Bytes) :
    HeadCarries n kept ↔ batchKeys opts (kept.take n) = batchKeys opts kept := by
  constructor
  · intro h
    apply batchKeys_congr ha
    intro key
    constructor
    · rintro ⟨line, hline, hkey⟩
      exact ⟨line, List.mem_of_mem_take hline, hkey⟩
    · rintro ⟨line, hline, hkey⟩
      exact h line hline key hkey
  · intro h line hline key hkey
    apply (mem_batchKeys ha).mp
    rw [h]
    exact (mem_batchKeys ha).mpr ⟨line, hline, hkey⟩

/-- A frame that is not stacked has no columns. -/
theorem filledFrame_getD (lines : List Bytes) :
    (if batchKeys opts lines = [] then none
      else some (filledFrame (batchRows opts lines) (some schema))).getD .empty =
        filledFrame (batchRows opts lines) (some schema) := by
  by_cases hkeys : batchKeys opts lines = []
  · rw [if_pos hkeys]
    apply DataFrame.ext
    · show 0 = if batchKeys opts lines = [] then 0 else (batchRows opts lines).length
      rw [if_pos hkeys]
    · apply Eq.symm
      apply List.length_eq_zero_iff.mp
      show (filledFrame (batchRows opts lines) (some schema)).width = 0
      rw [filledFrame_width]
      exact List.length_eq_zero_iff.mpr hkeys
  · rw [if_neg hkeys]
    rfl

/-- A limit makes the frame of the first lines. -/
theorem stackBatches_limit (hschema : opts.schema = some schema) (n : Nat) (batchSize : Option Nat)
    (kept : List Bytes) :
    (stackBatches { nRows := some n } opts none (scanBatches (some n) batchSize kept)).map
        (·.getD .empty) =
      .ok (filledFrame (batchRows opts (kept.take n)) (some schema)) := by
  have hone : ∀ batch, (stackBatches { nRows := some n } opts none [batch]).map (·.getD .empty) =
      .ok (filledFrame (batchRows opts batch) (some schema)) := by
    intro batch
    have hframe : batchFrame { nRows := some n } opts batch =
        .ok (filledFrame (batchRows opts batch) (some schema)) := by
      rw [batchFrame, hschema]
      rfl
    have hzero : (filledFrame (batchRows opts batch) (some schema)).width = 0 ↔
        batchKeys opts batch = [] := by
      rw [filledFrame_width]
      exact List.length_eq_zero_iff
    rw [stackBatches_singleton, hframe]
    refine Eq.trans ?_ (congrArg Except.ok (filledFrame_getD batch))
    simp only [Except.map, hzero]
  unfold scanBatches
  simp only
  split
  · rename_i hzero
    rw [hzero, List.take_zero]
    exact hone []
  · split
    · rename_i hnil
      rw [hnil, List.take_nil]
      exact congrArg Except.ok (filledFrame_getD [])
    · exact hone _

/-- The frame of the first lines is the head of the frame of all of them when they have all the
keys. -/
theorem filledFrame_take_iff (hschema : opts.schema = some schema)
    (ha : opts.alignedColsCnt = false) (n : Nat) (kept : List Bytes) :
    filledFrame (batchRows opts (kept.take n)) (some schema) =
        (filledFrame (batchRows opts kept) (some schema)).head n ↔
      HeadCarries n kept := by
  have htake : batchRows opts (kept.take n) = (batchRows opts kept).take n := by
    rw [batchRows_unaligned ha, batchRows_unaligned ha, List.map_take]
  have hn : (batchKeys opts kept).Nodup := rowKeys_nodup _
  have hfull := filledFrame_eq_table (readUnder_batchRows hschema kept) rfl hn
  constructor
  · intro h
    apply (headCarries_iff ha n kept).mpr
    have hnames := congrArg DataFrame.columnNames h
    rw [filledFrame_columnNames, hfull, Table.head_frame, Table.frame_columnNames] at hnames
    exact hnames
  · intro h
    have hkeys : batchKeys opts (kept.take n) = batchKeys opts kept :=
      (headCarries_iff ha n kept).mp h
    rw [filledFrame_eq_table (readUnder_batchRows hschema (kept.take n)) hkeys hn, hfull,
      Table.head_frame, htake]
    rfl

end

section

variable {self : LazyLogFmtReader} {text : Bytes} (hsource : self.source.Delivers text)
  (ha : self.alignedColsCnt = false)

include hsource ha

/-- What a limited scan of a text that can be read returns. -/
theorem sliceOutcome_limit {schema : Schema} (hschema : self.textSchema text = .ok schema)
    (hread : self.FramesReadable) (hvalid : ValidLines text) (n : Nat) (sched : Schedule) :
    sliceOutcome self (some n) sched =
      some (filledFrame (batchRows (self.batchOpts (some schema))
        ((self.keptLines schema text).take n)) (some schema)) := by
  have hlimit := @stackBatches_limit _ (self.batchOpts (some schema)) schema rfl n self.batchSize
    (self.keptLines schema text)
  unfold sliceOutcome
  rw [LazyLogFmtReader.scan_accepted ha hsource hvalid hread, hschema]
  simp only
  cases hstack : stackBatches { nRows := some n } (self.batchOpts (some schema)) none
      (scanBatches (some n) self.batchSize (self.keptLines schema text)) with
  | error e =>
    rw [hstack] at hlimit
    cases hlimit
  | ok acc =>
    rw [hstack] at hlimit
    have hacc : acc.getD .empty = _ := Except.ok.inj hlimit
    show some (LazyLogFmtReader.sliceRows (some n) (acc.getD .empty)) = _
    rw [hacc, LazyLogFmtReader.sliceRows, if_neg]
    -- the frame has no more than `n` rows
    have hheight := filledFrame_height_le (batchRows (self.batchOpts (some schema))
      ((self.keptLines schema text).take n)) (some schema)
    rw [length_batchRows] at hheight
    exact Nat.not_lt.mpr (hheight.trans (List.length_take_le n _))

/-- What a scan of it in one batch returns. -/
theorem sliceOutcome_once (hsize : self.batchSize = none) {schema : Schema}
    (hschema : self.textSchema text = .ok schema) (hread : self.FramesReadable)
    (hvalid : ValidLines text) (sched : Schedule) :
    sliceOutcome self none sched =
      some (filledFrame (batchRows (self.batchOpts (some schema)) (self.keptLines schema text))
        (some schema)) := by
  have hall := @stackBatches_once _ (self.batchOpts (some schema)) schema rfl
    (self.keptLines schema text)
  unfold sliceOutcome
  rw [LazyLogFmtReader.scan_accepted ha hsource hvalid hread, hschema, hsize]
  simp only
  refine (congrArg (fun made => (Except.map (fun acc : Option DataFrame => acc.getD .empty)
    made).toOption) hall).trans ?_
  exact congrArg some (filledFrame_getD _)

/-- A scan in one batch succeeds on a text that can be read only. -/
theorem readable_of_once (hsize : self.batchSize = none) {sched : Schedule} {df : DataFrame}
    (hdf : sliceOutcome self none sched = some df) :
    ∃ schema, self.textSchema text = .ok schema ∧ self.FramesReadable ∧ ValidLines text := by
  by_contra hnone
  have hzero : self.batchSize ≠ some 0 := by
    rw [hsize]
    simp
  have hfails := @scanOutcome_fails _ self text hsource ha hzero none (by simp)
    (fun schema hschema hboth => hnone ⟨schema, hschema, hboth.1 (by simp), hboth.2⟩) sched
  have hdf' : scanOutcome self sched none = some df := hdf
  rw [hfails] at hdf'
  cases hdf'

end

/-- A scan with a limit returns the head of the frame of a scan without one exactly when the first
`n` lines it keeps have every key of the lines it keeps. -/
theorem row_limit_iff {self : LazyLogFmtReader} {text : Bytes} (hsource : self.source.Delivers text)
    (ha : self.alignedColsCnt = false) {sched : Schedule} {df : DataFrame}
    (hfull : sliceOutcome { self with batchSize := none } none sched = some df) (n : Nat)
    (sched' : Schedule) :
    sliceOutcome self (some n) sched' = some (df.head n) ↔
      ∀ schema, self.textSchema text = .ok schema → HeadCarries n (self.keptLines schema text) := by
  obtain ⟨schema, hschema, hread, hvalid⟩ : ∃ schema, self.textSchema text = .ok schema ∧
      self.FramesReadable ∧ ValidLines text :=
    @readable_of_once _ { self with batchSize := none } text hsource ha rfl sched df hfull
  have hwhole := @sliceOutcome_once _ { self with batchSize := none } text hsource ha rfl schema
    hschema hread hvalid sched
  have hdf : df = filledFrame (batchRows (self.batchOpts (some schema))
    (self.keptLines schema text))
      (some schema) := Option.some.inj (hfull.symm.trans hwhole)
  rw [sliceOutcome_limit hsource ha hschema hread hvalid n sched', Option.some.injEq, hdf,
    filledFrame_take_iff rfl ha]
  constructor
  · intro h other hother
    rw [hschema] at hother
    cases hother
    exact h
  · intro h
    exact h schema hschema

end

section

attribute [local instance] smallCrates

/-- The second of three lines has a key the first has not. -/
def pairText : Bytes := Utf8.ofString "a=1\na=2 b=3\na=4\n"

def pairReader : LazyLogFmtReader := { source := .cursor pairText, schema := some ∅ }

/-- The frame of the three lines. -/
def pairFrame : DataFrame :=
  filledFrame (batchRows (pairReader.batchOpts (some ∅)) (pairReader.keptLines ∅ pairText)) (some ∅)

theorem sliceOutcome_pairReader : sliceOutcome pairReader none {} = some pairFrame := by
  have hread : pairReader.FramesReadable := by
    intro origin frames probe horigin
    cases horigin
  have hmade := @scanOutcome_unaligned _ pairReader pairText rfl rfl none (by simp) ∅ rfl
    (fun _ => hread) (by decide +kernel) {}
  have hall := @stackBatches_once _ ((pairReader.scanReader ∅).batchOpts (some ∅)) ∅ rfl
    (pairReader.keptLines ∅ pairText)
  refine hmade.trans ((congrArg (fun made => (Except.toOption made).map (·.getD .empty)) hall).trans
    ?_)
  exact congrArg some (filledFrame_getD _)

/-- The first two lines have both keys, the first has one. -/
theorem row_limit_pairs :
    sliceOutcome pairReader (some 2) {} = some (pairFrame.head 2) ∧
      sliceOutcome pairReader (some 1) {} ≠ some (pairFrame.head 1) := by
  have hsource : pairReader.source.Delivers pairText := rfl
  constructor
  · apply (row_limit_iff hsource rfl sliceOutcome_pairReader 2 {}).mpr
    intro schema hschema
    cases hschema
    decide +kernel
  · intro heq
    have hcarries := (row_limit_iff hsource rfl sliceOutcome_pairReader 1 {}).mp heq ∅ rfl
    revert hcarries
    decide +kernel

end

end PolarsLogfmt
