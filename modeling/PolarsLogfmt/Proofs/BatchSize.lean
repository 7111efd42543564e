import PolarsLogfmt.Lazy.ScanOutcome
import PolarsLogfmt.Lazy.UnalignedAttempt

/-!
# The batch size

A batch makes its frame of the keys its own lines have, and `scan` puts the frames under
each other by name. Which texts give the same frame in batches as at once.
-/

namespace PolarsLogfmt

section

variable [Crates]

/-! ## Batches of lines -/

/-- Every batch of `b` lines has every key that any of the lines has. -/
def BatchesCarry (b : Nat) (kept : List Bytes) : Prop :=
  ∀ batch ∈ Batches.batches b kept, ∀ line ∈ kept, ∀ key ∈ lineKeys line,
    ∃ other ∈ batch, key ∈ lineKeys other

section

variable {opts : BatchOpts} {schema : Schema}

theorem mem_batchKeys (ha : opts.alignedColsCnt = false) {lines : List Bytes} {key : Bytes} :
    key ∈ batchKeys opts lines ↔ ∃ line ∈ lines, key ∈ lineKeys line := by
  rw [batchKeys, mem_rowKeys, batchRows_unaligned ha, exists_row_parsed]

theorem batchKeys_congr (ha : opts.alignedColsCnt = false) {lines lines' : List Bytes}
    (h : ∀ key, (∃ line ∈ lines, key ∈ lineKeys line) ↔ ∃ line ∈ lines', key ∈ lineKeys line) :
    batchKeys opts lines = batchKeys opts lines' := by
  apply rowKeys_congr
  intro key
  rw [← mem_rowKeys, ← mem_rowKeys]
  exact (mem_batchKeys ha).trans ((h key).trans (mem_batchKeys ha).symm)

omit [Crates] in
theorem mem_of_mem_batches {b : Nat} {kept batch : List Bytes}
    (hbatch : batch ∈ Batches.batches b kept)
    {line : Bytes} (hline : line ∈ batch) : line ∈ kept := by
  rw [← Batches.flatten_batches b kept]
  exact List.mem_flatten.mpr ⟨batch, hbatch, hline⟩

/-- The batches carry the keys when each has the keys of all the lines. -/
theorem batchesCarry_iff (ha : opts.alignedColsCnt = false) (b : Nat) (kept : List Bytes) :
    BatchesCarry b kept ↔
      ∀ batch ∈ Batches.batches b kept, batchKeys opts batch = batchKeys opts kept := by
  constructor
  · intro h batch hbatch
    refine batchKeys_congr ha fun key => ⟨?_, ?_⟩
    · rintro ⟨line, hline, hkey⟩
      exact ⟨line, mem_of_mem_batches hbatch hline, hkey⟩
    · rintro ⟨line, hline, hkey⟩
      exact h batch hbatch line hline key hkey
  · intro h batch hbatch line hline key hkey
    have hmem : key ∈ batchKeys opts kept := (mem_batchKeys ha).mpr ⟨line, hline, hkey⟩
    rw [← h batch hbatch] at hmem
    exact (mem_batchKeys ha).mp hmem

/-- All the lines at once. -/
theorem stackBatches_once (hschema : opts.schema = some schema) (kept : List Bytes) :
    stackBatches {} opts none (scanBatches none none kept) = .ok
      (if batchKeys opts kept = [] then none
        else some (filledFrame (batchRows opts kept) (some schema))) := by
  by_cases hnil : kept = []
  · subst hnil
    rfl
  · have hone : SameKeys opts [kept] := by
      intro batch hbatch other hother
      rw [List.mem_singleton.mp (List.mem_filter.mp hbatch).1,
        List.mem_singleton.mp (List.mem_filter.mp hother).1]
    rw [scanBatches, if_neg hnil, stackBatches_ok hschema hone]
    unfold keyedBatches
    by_cases hkeys : batchKeys opts kept = []
    · rw [List.filter_cons_of_neg (by simpa using hkeys), if_pos hkeys]
      rfl
    · rw [List.filter_cons_of_pos (by simpa using hkeys), if_neg hkeys, List.filter_nil,
        if_neg (List.cons_ne_nil _ _), List.flatMap_singleton]

theorem flatMap_batchRows (ha : opts.alignedColsCnt = false) (batches : List (List Bytes)) :
    batches.flatMap (batchRows opts) = batchRows opts batches.flatten := by
  rw [batchRows_unaligned ha, List.map_flatten, List.flatMap_def]
  exact congrArg List.flatten (List.map_congr_left fun batch _ => batchRows_unaligned ha batch)

theorem filledFrame_height {rows : List Row} (h : rowKeys rows ≠ []) (schema : Option Schema) :
    (filledFrame rows schema).height = rows.length := if_neg h

/-- Frames that are the same were made of as many rows. -/
theorem length_of_filledFrame_eq {rows rows' : List Row} {schema : Option Schema}
    (h : filledFrame rows schema = filledFrame rows' schema) (hkeys : rowKeys rows' ≠ []) :
    rows.length = rows'.length := by
  have hnames := congrArg DataFrame.columnNames h
  rw [filledFrame_columnNames, filledFrame_columnNames] at hnames
  have hheight := congrArg DataFrame.height h
  rwa [filledFrame_height (hnames ▸ hkeys), filledFrame_height hkeys] at hheight

/-- Batches with the same keys that make the frame of all the lines leave no batch out. -/
theorem keyed_of_same {b : Nat} {kept : List Bytes} (ha : opts.alignedColsCnt = false)
    (hkept : batchKeys opts kept ≠ [])
    (h : (if keyedBatches opts (Batches.batches b kept) = [] then none
        else some (filledFrame ((keyedBatches opts (Batches.batches b kept)).flatMap
          (batchRows opts)) (some schema))).getD .empty =
      filledFrame (batchRows opts kept) (some schema)) :
    ∀ batch ∈ Batches.batches b kept, batchKeys opts batch ≠ [] := by
  by_cases hnil : keyedBatches opts (Batches.batches b kept) = []
  · rw [if_pos hnil] at h
    have hwidth := congrArg DataFrame.width h
    rw [filledFrame_width] at hwidth
    exact absurd (List.length_eq_zero_iff.mp hwidth.symm) hkept
  · rw [if_neg hnil, Option.getD_some] at h
    have hlen := length_of_filledFrame_eq h hkept
    rw [flatMap_batchRows ha, length_batchRows, length_batchRows] at hlen
    intro batch hbatch
    have hfull : (Batches.batches b kept).flatten.length ≤
        (keyedBatches opts (Batches.batches b kept)).flatten.length := by
      rw [Batches.flatten_batches, hlen]
    have hkeyed := Batches.forall_of_flatten_length hfull batch hbatch
      (Batches.ne_nil_of_mem_batches hbatch)
    simpa using hkeyed

/-- The batches of some lines make the frame of all of them exactly when each has all the
keys. -/
theorem stackBatches_batches_iff (hschema : opts.schema = some schema)
    (ha : opts.alignedColsCnt = false) {b : Nat} (hb : 0 < b) (kept : List Bytes) :
    (stackBatches {} opts none (scanBatches none (some b) kept)).toOption.map (·.getD .empty) =
        (stackBatches {} opts none (scanBatches none none kept)).toOption.map (·.getD .empty) ↔
      BatchesCarry b kept := by
  have hbatches : scanBatches none (some b) kept = Batches.batches b kept := if_neg hb.ne'
  rw [stackBatches_once hschema, hbatches, batchesCarry_iff ha]
  by_cases hsame : SameKeys opts (Batches.batches b kept)
  · rw [stackBatches_ok hschema hsame]
    simp only [Except.toOption, Option.map_some, Option.some.injEq]
    by_cases hkept : batchKeys opts kept = []
    · -- no key at all: nothing is stacked
      have hnone : ∀ batch ∈ Batches.batches b kept, batchKeys opts batch = [] := by
        intro batch hbatch
        rw [List.eq_nil_iff_forall_not_mem]
        intro key hkey
        obtain ⟨line, hline, hmem⟩ := (mem_batchKeys ha).mp hkey
        have hall : key ∈ batchKeys opts kept :=
          (mem_batchKeys ha).mpr ⟨line, mem_of_mem_batches hbatch hline, hmem⟩
        rw [hkept] at hall
        cases hall
      have hkeyed : keyedBatches opts (Batches.batches b kept) = [] :=
        List.filter_eq_nil_iff.mpr fun batch hbatch => by simpa using hnone batch hbatch
      rw [if_pos hkept, if_pos hkeyed]
      exact iff_of_true rfl fun batch hbatch => (hnone batch hbatch).trans hkept.symm
    · rw [if_neg hkept, Option.getD_some]
      constructor
      · intro h batch hbatch
        have hkeyed := keyed_of_same ha hkept h
        refine batchKeys_congr ha fun key => ⟨?_, ?_⟩
        · rintro ⟨line, hline, hkey⟩
          exact ⟨line, mem_of_mem_batches hbatch hline, hkey⟩
        · rintro ⟨line, hline, hkey⟩
          rw [← Batches.flatten_batches b kept] at hline
          obtain ⟨other, hother, hmem⟩ := List.mem_flatten.mp hline
          have hsame' := hsame other (List.mem_filter.mpr
            ⟨hother, by simpa using hkeyed other hother⟩)
            batch (List.mem_filter.mpr ⟨hbatch, by simpa using hkeyed batch hbatch⟩)
          have hkeys : key ∈ batchKeys opts other := (mem_batchKeys ha).mpr ⟨line, hmem, hkey⟩
          rw [hsame'] at hkeys
          exact (mem_batchKeys ha).mp hkeys
      · intro h
        have hall : keyedBatches opts (Batches.batches b kept) = Batches.batches b kept :=
          List.filter_eq_self.mpr fun batch hbatch => by
            rw [h batch hbatch]
            simpa using hkept
        have hne : Batches.batches b kept ≠ [] := by
          intro hnil
          have hflat := Batches.flatten_batches b kept
          rw [hnil] at hflat
          rw [← hflat] at hkept
          exact hkept rfl
        rw [hall, if_neg hne, flatMap_batchRows ha, Batches.flatten_batches, Option.getD_some]
  · obtain ⟨e, he⟩ := stackBatches_fails hschema hsame
    rw [he]
    refine iff_of_false (fun h => by cases h) fun h => hsame ?_
    intro batch hbatch other hother
    exact (h batch (List.mem_filter.mp hbatch).1).trans (h other (List.mem_filter.mp hother).1).symm

end

/-! ## The scan -/

/-- What `scan` returns, errors aside. -/
def scanOutcome (self : LazyLogFmtReader) (sched : Schedule) (probe : Option LineReader) :
    Option DataFrame := (AnonymousScan.scan self {} sched probe).toOption

section

variable {self : LazyLogFmtReader} {text : Bytes} (hsource : self.source.Delivers text)
  (ha : self.alignedColsCnt = false) (hbatch : self.batchSize ≠ some 0) {probe : Option LineReader}
  (hprobe : ∀ reader ∈ probe, reader = .ofBytes text)

include hsource ha hprobe

/-- The outcome of a scan without aligned columns. -/
theorem scanOutcome_unaligned {schema : Schema} (hschema : self.textSchema text = .ok schema)
    (hread : self.schema.bind (fun _ => probe) = none → self.FramesReadable)
    (hvalid : ValidLines text) (sched : Schedule) :
    scanOutcome self sched probe =
      (stackBatches {} ((self.scanReader schema).batchOpts (some schema)) none
        (scanBatches none self.batchSize (self.keptLines schema text))).toOption.map
          (·.getD .empty) := by
  have hread' : self.schema.bind (fun _ => probe) = none →
    (self.scanReader schema).FramesReadable :=
    hread
  have hsource' : (self.scanReader schema).source.Delivers text := hsource
  have ha' : (self.scanReader schema).alignedColsCnt = false := ha
  unfold scanOutcome
  rw [scan_delivers hsource {} sched hprobe, hschema]
  simp only
  rw [LazyLogFmtReader.scanText_readable ha' hsource' rfl rfl hread' sched,
    scanLoop_text rfl {} sched (.inl hvalid), readableLines_of_valid hvalid, keeps_scanReader,
    toOption_map]
  rfl

include hbatch in
theorem scanOutcome_fails (h : ∀ schema, self.textSchema text = .ok schema →
      ¬ ((self.schema.bind (fun _ => probe) = none → self.FramesReadable) ∧ ValidLines text))
    (sched : Schedule) : scanOutcome self sched probe = none := by
  unfold scanOutcome
  rw [scan_delivers hsource {} sched hprobe]
  cases hschema : self.textSchema text with
  | error e => rfl
  | ok schema =>
    simp only
    rw [toOption_map]
    have hsource' : (self.scanReader schema).source.Delivers text := hsource
    have ha' : (self.scanReader schema).alignedColsCnt = false := ha
    by_cases hread : self.schema.bind (fun _ => probe) = none → self.FramesReadable
    · have hread' : self.schema.bind (fun _ => probe) = none →
          (self.scanReader schema).FramesReadable := hread
      have hvalid : ¬ ValidLines text := fun hvalid => h schema hschema ⟨hread, hvalid⟩
      obtain ⟨e, he⟩ := @scanLoop_text_fails _ (self.scanReader schema) schema rfl {} sched text
        hvalid hbatch
      rw [LazyLogFmtReader.scanText_readable ha' hsource' rfl rfl hread' sched, he]
      rfl
    · rw [Classical.not_imp] at hread
      obtain ⟨hnone, hread⟩ := hread
      have hread' : ¬ (self.scanReader schema).FramesReadable := hread
      obtain ⟨e, he⟩ :=
        @LazyLogFmtReader.scanText_unreadable _ (self.scanReader schema) text ha' hsource' {} rfl
          schema rfl hread' sched
      rw [hnone, he]
      rfl

end

/-- `scan` in batches of `b` rows has the outcome of `scan` at once exactly when, for a text it
can read at all, every batch has every key the rows have. -/
theorem batching_iff {self : LazyLogFmtReader} {text : Bytes} (hsource : self.source.Delivers text)
    (ha : self.alignedColsCnt = false) {b : Nat} (hb : 1 ≤ b) {probe : Option LineReader}
    (hprobe : ∀ reader ∈ probe, reader = .ofBytes text) (sched sched' : Schedule) :
    scanOutcome { self with batchSize := some b } sched probe =
        scanOutcome { self with batchSize := none } sched' probe ↔
      ∀ schema, self.textSchema text = .ok schema →
        (self.schema.bind (fun _ => probe) = none → self.FramesReadable) → ValidLines text →
          BatchesCarry b (self.keptLines schema text) := by
  have hsome : (some b : Option Nat) ≠ some 0 := fun h => by
    cases h
    cases hb
  by_cases h : ∃ schema, self.textSchema text = .ok schema ∧
      (self.schema.bind (fun _ => probe) = none → self.FramesReadable) ∧ ValidLines text
  · obtain ⟨schema, hschema, hread, hvalid⟩ := h
    rw [@scanOutcome_unaligned _ { self with batchSize := some b } text hsource ha probe hprobe
        schema hschema hread hvalid sched,
      @scanOutcome_unaligned _ { self with batchSize := none } text hsource ha probe hprobe
        schema hschema hread hvalid sched']
    have hiff := @stackBatches_batches_iff _
      (({ self with batchSize := none } : LazyLogFmtReader).scanReader schema |>.batchOpts
        (some schema)) schema rfl ha b hb (self.keptLines schema text)
    refine hiff.trans ⟨fun hcarry other hother _ _ => ?_,
      fun hall => hall schema hschema hread hvalid⟩
    rw [hschema] at hother
    cases hother
    exact hcarry
  · have hfails : ∀ schema, self.textSchema text = .ok schema →
        ¬ ((self.schema.bind (fun _ => probe) = none → self.FramesReadable) ∧ ValidLines text) :=
      fun schema hschema hboth => h ⟨schema, hschema, hboth⟩
    rw [@scanOutcome_fails _ { self with batchSize := some b } text hsource ha hsome probe hprobe
        hfails sched,
      @scanOutcome_fails _ { self with batchSize := none } text hsource ha (by simp) probe hprobe
        hfails sched']
    exact iff_of_true rfl fun schema hschema hread hvalid =>
      absurd ⟨schema, hschema, hread, hvalid⟩ h

end

section

attribute [local instance] smallCrates

/-- `a=1` and `b=2`. -/
def twoKeysText : Bytes := Utf8.ofString "a=1\nb=2\n"

/-- A reader of the two lines, with a schema that lists no key. -/
def twoKeysReader : LazyLogFmtReader := { source := .cursor twoKeysText, schema := some ∅ }

theorem batching_twoKeys :
    scanOutcome { twoKeysReader with batchSize := some 1 } {} none =
        scanOutcome { twoKeysReader with batchSize := none } {} none ↔
      ∀ schema, twoKeysReader.textSchema twoKeysText = .ok schema →
        (twoKeysReader.schema.bind (fun _ => (none : Option LineReader)) = none →
          twoKeysReader.FramesReadable) → ValidLines twoKeysText →
          BatchesCarry 1 (twoKeysReader.keptLines schema twoKeysText) :=
  @batching_iff _ twoKeysReader twoKeysText rfl rfl 1 (Nat.le_refl 1) none (by simp) {} {}

/-- At once the two lines make a frame of two columns; one by one they make none. -/
theorem batching_counterexample :
    scanOutcome { twoKeysReader with batchSize := some 1 } {} none ≠
      scanOutcome { twoKeysReader with batchSize := none } {} none := by
  have hread : twoKeysReader.schema.bind (fun _ => (none : Option LineReader)) = none →
      twoKeysReader.FramesReadable := by
    intro _ origin frames probe horigin
    cases horigin
  have hvalid : ValidLines twoKeysText := by decide +kernel
  rw [@scanOutcome_unaligned _ { twoKeysReader with batchSize := some 1 } twoKeysText rfl rfl none
      (by simp) ∅ rfl hread hvalid {},
    @scanOutcome_unaligned _ { twoKeysReader with batchSize := none } twoKeysText rfl rfl none
      (by simp) ∅ rfl hread hvalid {}]
  intro h
  have hcarry : BatchesCarry 1 (twoKeysReader.keptLines ∅ twoKeysText) :=
    (stackBatches_batches_iff rfl rfl Nat.one_pos _).mp h
  have hkept : twoKeysReader.keptLines ∅ twoKeysText =
      [Utf8.ofString "a=1\n", Utf8.ofString "b=2\n"] := by decide +kernel
  rw [hkept] at hcarry
  have hbatches : [Utf8.ofString "a=1\n"] ∈
      Batches.batches 1 [Utf8.ofString "a=1\n", Utf8.ofString "b=2\n"] := by
    rw [Batches.batches_of_ne_nil Nat.one_pos (List.cons_ne_nil _ _)]
    exact List.mem_cons_self
  have hfirst := hcarry _ hbatches (Utf8.ofString "b=2\n") (by simp) (Utf8.ofString "b")
    (by decide +kernel)
  exact absurd hfirst (by decide +kernel)

end

end PolarsLogfmt
