import PolarsLogfmt.Lazy.StackedBatches
import PolarsLogfmt.Lazy.TextBatches
import PolarsLogfmt.Lazy.WorkerTexts

/-!
# What a scan returns

The frame of a scan of a text, errors aside, and what the sequential path makes of the
lines it keeps.
-/

namespace PolarsLogfmt

variable [Crates]

/-! ## The copy of the reader -/

namespace LazyLogFmtReader

theorem accepts_scanReader (self : LazyLogFmtReader) (schema : Schema) :
    accepts (self.scanReader schema).lineFilter = accepts self.lineFilter := by
  funext line
  unfold accepts scanReader
  cases self.lineFilter with
  | none => rfl
  | some filter => rfl

/-- The lines of a text a scan makes rows of. -/
def keptLines (self : LazyLogFmtReader) (schema : Schema) (text : Bytes) :
    List Bytes :=
  (Lines.split newline text).filter (self.batchOpts (some schema)).keeps

end LazyLogFmtReader

theorem keeps_scanReader (self : LazyLogFmtReader) (schema : Schema) :
    ((self.scanReader schema).batchOpts (some schema)).keeps =
      (self.batchOpts (some schema)).keeps := by
  funext line
  have haccepts := congrFun (LazyLogFmtReader.accepts_scanReader self schema) line
  unfold BatchOpts.keeps
  exact congrArg (· && _) haccepts

theorem LazyLogFmtReader.keptLines_scanReader (self : LazyLogFmtReader) (schema : Schema)
    (text : Bytes) :
    (self.scanReader schema).keptLines schema text = self.keptLines schema text := by
  unfold keptLines
  rw [keeps_scanReader]

omit [Crates] in
theorem toOption_map {α β ε : Type} (f : α → β) (x : Except ε α) :
    (x.map f).toOption = x.toOption.map f := by
  cases x with
  | error e => rfl
  | ok a => rfl

/-! ## The sequential path -/

/-- The sequential path makes a frame of the text: it does not get to a line that is no UTF-8,
and the batches with keys have the same keys. -/
def SequentialReads (self : LazyLogFmtReader) (nRows : Option Nat) (schema : Schema)
    (text : Bytes) : Prop :=
  let opts := self.batchOpts (some schema)
  let kept := (readableLines text).filter opts.keeps
  (ValidLines text ∨ ¬ WantsMore nRows self.batchSize kept.length) ∧
    SameKeys opts (scanBatches nRows self.batchSize kept)

/-- One batch goes under no other. -/
theorem stackBatches_slice {opts : BatchOpts} {schema : Schema}
    (hschema : opts.schema = some schema) (n : Nat) (batchSize : Option Nat) (kept : List Bytes) :
    ∃ acc, stackBatches { nRows := some n } opts none (scanBatches (some n) batchSize kept) =
      .ok acc := by
  have hone : ∀ batch, ∃ acc, stackBatches { nRows := some n } opts none [batch] = .ok acc := by
    intro batch
    have hframe : batchFrame { nRows := some n } opts batch =
        .ok (filledFrame (batchRows opts batch) (some schema)) := by
      rw [batchFrame, hschema]
      rfl
    rw [stackBatches_singleton, hframe]
    exact ⟨_, rfl⟩
  unfold scanBatches
  simp only
  split
  · exact hone _
  · split
    · exact ⟨_, rfl⟩
    · exact hone _

omit [Crates] in
/-- A slice is one batch at most. -/
theorem length_scanBatches_slice (n : Nat) (batchSize : Option Nat) (kept : List Bytes) :
    (scanBatches (some n) batchSize kept).length ≤ 1 := by
  unfold scanBatches
  simp only
  split
  · simp
  · split <;> simp

theorem sameKeys_slice (opts : BatchOpts) (n : Nat) (batchSize : Option Nat) (kept : List Bytes) :
    SameKeys opts (scanBatches (some n) batchSize kept) := by
  have hlen := length_scanBatches_slice n batchSize kept
  intro batch hbatch other hother
  have hmem := (List.mem_filter.mp hbatch).1
  have hmem' := (List.mem_filter.mp hother).1
  generalize scanBatches (some n) batchSize kept = batches at hlen hmem hmem'
  cases batches with
  | nil => cases hmem
  | cons only rest =>
    obtain rfl := List.length_eq_zero_iff.mp (Nat.le_zero.mp (Nat.le_of_succ_le_succ hlen))
    rw [List.mem_singleton.mp hmem, List.mem_singleton.mp hmem']

/-- Whether it makes one, and which, does not depend on the source. -/
theorem scanLoop_reads {self : LazyLogFmtReader} {schema : Schema}
    (hschema : self.schema = some schema)
    {nRows : Option Nat} {text : Bytes} (h : SequentialReads self nRows schema text) :
    ∃ acc, ∀ source sched, ({ self with source := source } : LazyLogFmtReader).scanLoop
      { nRows := nRows } sched { reader := some (.ofBytes text) } none = .ok acc := by
  obtain ⟨hlines, hkeys⟩ := h
  obtain ⟨acc, hacc⟩ : ∃ acc, stackBatches { nRows := nRows } (self.batchOpts (some schema)) none
      (scanBatches nRows self.batchSize
        ((readableLines text).filter (self.batchOpts (some schema)).keeps)) = .ok acc := by
    cases nRows with
    | some n => exact stackBatches_slice rfl n self.batchSize _
    | none => exact ⟨_, stackBatches_ok rfl hkeys⟩
  refine ⟨acc, fun source sched => ?_⟩
  have htext := @scanLoop_text _ { self with source := source } schema hschema { nRows := nRows }
    sched text hlines
  exact htext.trans hacc

theorem scanLoop_fails {self : LazyLogFmtReader} {schema : Schema}
    (hschema : self.schema = some schema)
    {nRows : Option Nat} {text : Bytes} (h : ¬ SequentialReads self nRows schema text)
    (sched : Schedule) :
    ∃ e, self.scanLoop { nRows := nRows } sched { reader := some (.ofBytes text) } none =
      .error e := by
  by_cases hlines : ValidLines text ∨ ¬ WantsMore nRows self.batchSize
      ((readableLines text).filter (self.batchOpts (some schema)).keeps).length
  · have hkeys : ¬ SameKeys (self.batchOpts (some schema)) (scanBatches nRows self.batchSize
        ((readableLines text).filter (self.batchOpts (some schema)).keeps)) :=
      fun hkeys => h ⟨hlines, hkeys⟩
    rw [scanLoop_text hschema { nRows := nRows } sched hlines]
    cases nRows with
    | some n => exact absurd (sameKeys_slice _ n self.batchSize _) hkeys
    | none => exact stackBatches_fails rfl hkeys
  · rw [not_or, not_not] at hlines
    exact scanLoop_text_fails hschema { nRows := nRows } sched hlines.1 hlines.2

theorem sequentialReads_scanReader (self : LazyLogFmtReader) (schema : Schema) (nRows : Option Nat)
    (text : Bytes) :
    SequentialReads (self.scanReader schema) nRows schema text ↔
      SequentialReads self nRows schema text := by
  unfold SequentialReads
  simp only [keeps_scanReader]
  exact Iff.rfl

end PolarsLogfmt
