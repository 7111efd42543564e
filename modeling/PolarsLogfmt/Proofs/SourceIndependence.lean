import PolarsLogfmt.Lazy.ScanOutcome
import PolarsLogfmt.Lazy.SliceReach
import PolarsLogfmt.Proofs.SourceKinds

/-!
# Scans of one text from different sources

Without aligned columns the frame of a scan comes from the sequential path, whatever the
source. The workers of a file, or of units that are counted, read the text before for
nothing, and may fail on a line that the sequential path never gets to.
-/

namespace PolarsLogfmt

section

variable [Crates]

/-! ## The kinds of source -/

/-- The text as a cursor, as a file, as counted units and as units of unknown number. -/
def sourceKinds (text : Bytes) (file : SeekableVfsFile) (units : List Bytes) : List LogFmtSource :=
  [.cursor text, .seekable file, .units { units := units.map .ok, countUnits := some units.length },
    .units { units := units.map .ok, countUnits := none }]

omit [Crates] in
theorem sourceKinds_deliver {text : Bytes} {file : SeekableVfsFile} (hcontent : file.content = text)
    (hfile : file.Sound) {units : List Bytes} (hunits : units.flatten = text) :
    ∀ source ∈ sourceKinds text file units, source.Delivers text := by
  simp only [sourceKinds, List.forall_mem_cons, List.not_mem_nil, false_imp_iff, implies_true,
    and_true]
  exact ⟨rfl, ⟨hcontent, hfile⟩, ⟨units, rfl, hunits⟩, ⟨units, rfl, hunits⟩⟩

/-- What a scan for `nRows` rows returns, errors aside. -/
def sliceOutcome (self : LazyLogFmtReader) (nRows : Option Nat) (sched : Schedule) :
    Option DataFrame := (AnonymousScan.scan self { nRows := nRows } sched none).toOption

/-- The scans of the sources have one outcome, whatever the workers of each do first. -/
def KindsAgree (self : LazyLogFmtReader) (nRows : Option Nat) (sources : List LogFmtSource) :
    Prop :=
  ∀ source ∈ sources, ∀ other ∈ sources, ∀ sched sched',
    sliceOutcome { self with source := source } nRows sched =
      sliceOutcome { self with source := other } nRows sched'

omit [Crates] in
theorem reachesInvalid_congr {lineFilter lineFilter' : Option LineFilterFn}
    (h : accepts lineFilter = accepts lineFilter') (nRows : Option Nat) (slots : Nat)
    (texts : List Bytes) :
    ReachesInvalid lineFilter nRows slots texts ↔ ReachesInvalid lineFilter' nRows slots texts := by
  induction texts generalizing slots with
  | nil => exact Iff.rfl
  | cons text texts ih =>
    unfold ReachesInvalid readableCount
    simp only [h, ih]

theorem workerReachesInvalid_scanReader (self : LazyLogFmtReader) (schema : Schema)
    (nRows : Option Nat) :
    (self.scanReader schema).WorkerReachesInvalid nRows ↔ self.WorkerReachesInvalid nRows := by
  unfold LazyLogFmtReader.WorkerReachesInvalid
  simp only [reachesInvalid_congr (LazyLogFmtReader.accepts_scanReader self schema)]
  exact Iff.rfl

/-- A cursor has no workers. -/
theorem cursor_unreached (self : LazyLogFmtReader) (text : Bytes) (nRows : Option Nat) :
    ¬ ({ self with source := .cursor text } : LazyLogFmtReader).WorkerReachesInvalid nRows := by
  rintro ⟨origin, frames, probe, horigin, -⟩
  cases horigin

/-! ## The scans -/

theorem sliceOutcome_eq {self : LazyLogFmtReader} {text : Bytes}
    (hsource : self.source.Delivers text)
    {schema : Schema} (hschema : self.textSchema text = .ok schema) (nRows : Option Nat)
    (sched : Schedule) :
    sliceOutcome self nRows sched =
      ((self.scanReader schema).scanText { nRows := nRows } sched text none).toOption.map
        fun acc => LazyLogFmtReader.sliceRows nRows (acc.getD .empty) := by
  unfold sliceOutcome
  rw [scan_delivers hsource { nRows := nRows } sched (by simp), hschema]
  simp only [Option.bind_fun_none]
  exact toOption_map _ _

/-- The scan of a text whose lines can be read goes wrong only where a worker may come to a line
that is no UTF-8. -/
theorem sliceOutcome_reads {self : LazyLogFmtReader} (ha : self.alignedColsCnt = false)
    {text : Bytes} {schema : Schema} (hschema : self.textSchema text = .ok schema)
    {nRows : Option Nat} (h : SequentialReads self nRows schema text) :
    ∃ df, ∀ source, source.Delivers text →
      (({ self with source := source } : LazyLogFmtReader).WorkerReachesInvalid nRows →
        ∃ sched, sliceOutcome { self with source := source } nRows sched = none) ∧
      (¬ ({ self with source := source } : LazyLogFmtReader).WorkerReachesInvalid nRows →
        ∀ sched, sliceOutcome { self with source := source } nRows sched = some df) := by
  obtain ⟨acc, hacc⟩ := @scanLoop_reads _ (self.scanReader schema) schema rfl nRows text
    ((sequentialReads_scanReader self schema nRows text).mpr h)
  refine ⟨LazyLogFmtReader.sliceRows nRows (acc.getD .empty), fun source hsource => ?_⟩
  have heq := @sliceOutcome_eq _ { self with source := source } text hsource schema hschema nRows
  have hreaches := workerReachesInvalid_scanReader { self with source := source } schema nRows
  constructor
  · intro hreach
    obtain ⟨sched, e, he⟩ := @LazyLogFmtReader.scanText_reached _
      (({ self with source := source } : LazyLogFmtReader).scanReader schema) text ha hsource
      { nRows := nRows } schema rfl (hreaches.mpr hreach)
    refine ⟨sched, ?_⟩
    rw [heq, he]
    rfl
  · intro hreach sched
    have hcases := @LazyLogFmtReader.scanText_cases _
      (({ self with source := source } : LazyLogFmtReader).scanReader schema) text ha hsource
      { nRows := nRows } schema rfl sched
    have hloop : LazyLogFmtReader.scanLoop
        (({ self with source := source } : LazyLogFmtReader).scanReader schema)
        { nRows := nRows } sched
        { reader := some (.ofBytes text) } none = .ok acc := hacc source sched
    rw [heq, hcases.resolve_right fun hfails => hreach (hreaches.mp hfails.2), hloop]
    rfl

/-- The scan of one whose lines cannot be read fails from every source. -/
theorem sliceOutcome_fails {self : LazyLogFmtReader} (ha : self.alignedColsCnt = false)
    {text : Bytes} (hsource : self.source.Delivers text) {nRows : Option Nat}
    (h : ∀ schema, self.textSchema text = .ok schema → ¬ SequentialReads self nRows schema text)
    (sched : Schedule) : sliceOutcome self nRows sched = none := by
  cases hschema : self.textSchema text with
  | error e =>
    unfold sliceOutcome
    rw [scan_delivers hsource { nRows := nRows } sched (by simp), hschema]
    rfl
  | ok schema =>
    obtain ⟨e, he⟩ := @scanLoop_fails _ (self.scanReader schema) schema rfl nRows text
      (fun hreads => h schema hschema
        ((sequentialReads_scanReader self schema nRows text).mp hreads))
      sched
    rw [sliceOutcome_eq hsource hschema]
    rcases @LazyLogFmtReader.scanText_cases _ (self.scanReader schema) text ha hsource
      { nRows := nRows } schema rfl sched with hloop | ⟨⟨e', he'⟩, -⟩
    · rw [hloop, he]
      rfl
    · rw [he']
      rfl

/-- The scans of a text from the four kinds of source agree exactly when, unless the sequential
path fails on the text, no worker may come to a line of it that is no UTF-8. -/
theorem kindsAgree_iff {self : LazyLogFmtReader} (ha : self.alignedColsCnt = false) {text : Bytes}
    {file : SeekableVfsFile} (hcontent : file.content = text) (hfile : file.Sound)
    {units : List Bytes} (hunits : units.flatten = text) (nRows : Option Nat) :
    KindsAgree self nRows (sourceKinds text file units) ↔
      ∀ schema, self.textSchema text = .ok schema → SequentialReads self nRows schema text →
        ∀ source ∈ sourceKinds text file units,
          ¬ ({ self with source := source } : LazyLogFmtReader).WorkerReachesInvalid nRows := by
  have hdeliver := sourceKinds_deliver hcontent hfile hunits
  constructor
  · intro hagree schema hschema hreads source hsource hreach
    obtain ⟨df, hdf⟩ := sliceOutcome_reads ha hschema hreads
    obtain ⟨sched, hfails⟩ := (hdf source (hdeliver source hsource)).1 hreach
    have hcursor : .cursor text ∈ sourceKinds text file units := List.mem_cons_self
    have hsome := (hdf _ (hdeliver _ hcursor)).2 (cursor_unreached self text nRows) {}
    have hsame := hagree source hsource _ hcursor sched {}
    rw [hfails, hsome] at hsame
    cases hsame
  · intro h source hsource other hother sched sched'
    by_cases hreads : ∃ schema, self.textSchema text = .ok schema ∧
        SequentialReads self nRows schema text
    · obtain ⟨schema, hschema, hreads⟩ := hreads
      obtain ⟨df, hdf⟩ := sliceOutcome_reads ha hschema hreads
      have hquiet := h schema hschema hreads
      rw [(hdf source (hdeliver source hsource)).2 (hquiet source hsource) sched,
        (hdf other (hdeliver other hother)).2 (hquiet other hother) sched']
    · have hnone : ∀ schema, self.textSchema text = .ok schema →
          ¬ SequentialReads self nRows schema text :=
        fun schema hschema hreads' => hreads ⟨schema, hschema, hreads'⟩
      rw [@sliceOutcome_fails _ { self with source := source } ha text (hdeliver source hsource)
          nRows hnone sched,
        @sliceOutcome_fails _ { self with source := other } ha text (hdeliver other hother)
          nRows hnone sched']

end

section

attribute [local instance] smallCrates

theorem kindsAgree_integers :
    KindsAgree { source := .cursor [], schema := some ∅ } (some 1)
        (sourceKinds (Utf8.ofString "a=1\na=2\n") (fileOf (Utf8.ofString "a=1\na=2\n"))
          [Utf8.ofString "a=1\n", Utf8.ofString "a=2\n"]) ↔
      ∀ schema, ({ source := .cursor [], schema := some ∅ } : LazyLogFmtReader).textSchema
          (Utf8.ofString "a=1\na=2\n") = .ok schema →
        SequentialReads { source := .cursor [], schema := some ∅ } (some 1) schema
          (Utf8.ofString "a=1\na=2\n") →
        ∀ source ∈ sourceKinds (Utf8.ofString "a=1\na=2\n") (fileOf (Utf8.ofString "a=1\na=2\n"))
          [Utf8.ofString "a=1\n", Utf8.ofString "a=2\n"],
          ¬ ({ source := source, schema := some ∅ } : LazyLogFmtReader).WorkerReachesInvalid
            (some 1) :=
  @kindsAgree_iff _ { source := .cursor [], schema := some ∅ } rfl _
    (fileOf (Utf8.ofString "a=1\na=2\n")) rfl (fileOf_sound _)
    [Utf8.ofString "a=1\n", Utf8.ofString "a=2\n"] (by decide +kernel) (some 1)

/-- `a=1`, and a line that is no UTF-8. -/
def brokenText : Bytes := Utf8.ofString "a=1\n" ++ [0xff, newline]

/-- The text as one counted unit. -/
def brokenUnit : LogFmtSource := .units { units := [brokenText].map .ok, countUnits := some 1 }

/-- A reader of one worker, with a schema that lists no key. -/
def oneWorker : LazyLogFmtReader :=
  { source := .cursor brokenText, schema := some ∅, nThreads := some 1 }

/-- For one row the cursor reads the first line only; the worker of the unit reads on. -/
theorem kindsAgree_counterexample :
    ¬ KindsAgree oneWorker (some 1) (sourceKinds brokenText (fileOf brokenText) [brokenText]) := by
  have hdeliver := @sourceKinds_deliver brokenText (fileOf brokenText) rfl (fileOf_sound _)
    [brokenText] (by simp)
  have hreads : SequentialReads oneWorker (some 1) ∅ brokenText := by
    refine ⟨.inr ?_, sameKeys_slice _ 1 _ _⟩
    show ¬ ((readableLines brokenText).filter (oneWorker.batchOpts (some ∅)).keeps).length < 1
    decide +kernel
  have hunit : brokenUnit ∈ sourceKinds brokenText (fileOf brokenText) [brokenText] := by
    simp [sourceKinds, brokenUnit]
  have hcursor : .cursor brokenText ∈ sourceKinds brokenText (fileOf brokenText) [brokenText] :=
    List.mem_cons_self
  have hreach : ({ oneWorker with source := brokenUnit } : LazyLogFmtReader).WorkerReachesInvalid
      (some 1) := by
    refine ⟨_, _, _, rfl, (0, [{ idx := 0 }]), by decide +kernel, ?_⟩
    show ReachesInvalid none (some 1) 0 [brokenText]
    decide +kernel
  obtain ⟨df, hdf⟩ := @sliceOutcome_reads _ oneWorker rfl brokenText ∅ rfl (some 1) hreads
  obtain ⟨sched, hfails⟩ := (hdf brokenUnit (hdeliver _ hunit)).1 hreach
  have hsome := (hdf _ (hdeliver _ hcursor)).2 (cursor_unreached oneWorker brokenText (some 1)) {}
  intro hagree
  have hsame := hagree _ hunit _ hcursor sched {}
  rw [hfails, hsome] at hsame
  cases hsame

end

end PolarsLogfmt
