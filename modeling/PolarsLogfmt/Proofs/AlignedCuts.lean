import PolarsLogfmt.Lazy.AlignedScan
import PolarsLogfmt.Proofs.SourceIndependence

/-!
# Cuts of an aligned scan

Each worker takes its columns from the first line of its own chunk, and the scan falls back to
the sequential path when they differ. Cuts whose chunks all start with the keys of the text make
the promised frame, and so the same.
-/

namespace PolarsLogfmt

section

variable [Crates]

/-- What an aligned cut of a text scans to: the promised frame, unless no schema is found or some
line is no UTF-8. -/
theorem sliceOutcome_alignedCut {self : LazyLogFmtReader} (ha : self.alignedColsCnt = true)
    {text : Bytes} (hcut : self.CutsLines text) (h : self.AlignedCut text) (sched : Schedule) :
    sliceOutcome self none sched =
      (self.textSchema text).toOption.bind fun schema =>
        if ValidLines text then some (promisedFrame schema (acceptedLines self.lineFilter text))
        else none := by
  cases hschema : self.textSchema text with
  | error e =>
    unfold sliceOutcome
    rw [scan_delivers hcut.delivers { nRows := none } sched (by simp), hschema]
    rfl
  | ok schema =>
    have hcut' : (self.scanReader schema).CutsLines text :=
      ⟨hcut.delivers, hcut.whole, hcut.flatten⟩
    have hscan := @LazyLogFmtReader.scanText_alignedCut _ (self.scanReader schema) text ha hcut'
      (h.scanReader schema) schema rfl sched
    rw [LazyLogFmtReader.acceptedLines_scanReader] at hscan
    rw [sliceOutcome_eq hcut.delivers hschema]
    exact hscan

/-- Two cuts of a text into whole lines, for any numbers of workers, scan to the same frame, which
is the promised one, when every chunk of either starts with the keys of the text and repeats none
of them. -/
theorem alignedCuts_agree {self : LazyLogFmtReader} (ha : self.alignedColsCnt = true) {text : Bytes}
    (hcut : self.CutsLines text) (h : self.AlignedCut text) {source : LogFmtSource}
    {nThreads : Option Nat}
    (hcut' : ({ self with source := source, nThreads := nThreads } : LazyLogFmtReader).CutsLines
      text)
    (h' : ({ self with source := source, nThreads := nThreads } : LazyLogFmtReader).AlignedCut text)
    (sched sched' : Schedule) :
    sliceOutcome self none sched =
        sliceOutcome { self with source := source, nThreads := nThreads } none sched' ∧
      ∀ df ∈ sliceOutcome self none sched, ∃ schema, self.textSchema text = .ok schema ∧
        df = promisedFrame schema (acceptedLines self.lineFilter text) := by
  have hone := sliceOutcome_alignedCut ha hcut h sched
  have hother := @sliceOutcome_alignedCut _
    { self with source := source, nThreads := nThreads } ha text hcut' h' sched'
  refine ⟨hone.trans hother.symm, fun df hdf => ?_⟩
  rw [hone] at hdf
  obtain ⟨schema, hschema, hdf⟩ := Option.bind_eq_some_iff.mp hdf
  refine ⟨schema, ?_, ?_⟩
  · cases htext : self.textSchema text with
    | error e =>
      rw [htext] at hschema
      cases hschema
    | ok schema' =>
      rw [htext] at hschema
      cases hschema
      rfl
  · split at hdf
    · exact (Option.some.inj hdf).symm
    · cases hdf

end

section

attribute [local instance] smallCrates

/-- A unit for each of the texts. -/
def countedUnits (units : List Bytes) : LogFmtSource :=
  .units { units := units.map .ok, countUnits := some units.length }

/-- An aligned reader of the texts with so many workers, and a schema that lists no key. -/
def alignedReader (units : List Bytes) (nThreads : Nat) : LazyLogFmtReader :=
  { source := countedUnits units, nThreads := some nThreads, alignedColsCnt := true,
    schema := some ∅ }

theorem cutsLines_alignedReader (units : List Bytes) (nThreads : Nat)
    (hframes : (alignedReader units nThreads).frameTexts = units)
    (hwhole : Lines.Whole newline units) :
    (alignedReader units nThreads).CutsLines units.flatten where
  delivers := ⟨units, rfl, rfl⟩
  whole := by rwa [hframes]
  flatten := by rw [hframes]

example : (alignedReader [Utf8.ofString "a=1\n", Utf8.ofString "a=2\n"] 2).frameTexts =
    [Utf8.ofString "a=1\n", Utf8.ofString "a=2\n"] := by decide +kernel

/-- Two lines with the key `a`, in two units for two workers and in one unit. -/
theorem alignedCuts_agree_twoLines :
    sliceOutcome (alignedReader [Utf8.ofString "a=1\n", Utf8.ofString "a=2\n"] 2) none {} =
        sliceOutcome (alignedReader [Utf8.ofString "a=1\na=2\n"] 1) none {} ∧
      ∀ df ∈ sliceOutcome (alignedReader [Utf8.ofString "a=1\n", Utf8.ofString "a=2\n"] 2) none {},
        ∃ schema, (alignedReader [Utf8.ofString "a=1\n", Utf8.ofString "a=2\n"] 2).textSchema
            (Utf8.ofString "a=1\na=2\n") = .ok schema ∧
          df = promisedFrame schema (acceptedLines none (Utf8.ofString "a=1\na=2\n")) := by
  have hlines : acceptedLines none (Utf8.ofString "a=1\na=2\n") =
      [Utf8.ofString "a=1\n", Utf8.ofString "a=2\n"] := by decide +kernel
  refine @alignedCuts_agree _ (alignedReader [Utf8.ofString "a=1\n", Utf8.ofString "a=2\n"] 2) rfl
    (Utf8.ofString "a=1\na=2\n") ?_ ⟨by decide, .inr ?_⟩
    (countedUnits [Utf8.ofString "a=1\na=2\n"]) (some 1) ?_ ⟨by decide, .inr ?_⟩ {} {}
  · exact cutsLines_alignedReader _ 2 (by decide +kernel) (by decide +kernel)
  · intro first hfirst
    rw [show (alignedReader _ _).lineFilter = none from rfl, hlines] at hfirst
    cases hfirst
    decide +kernel
  · exact cutsLines_alignedReader [Utf8.ofString "a=1\na=2\n"] 1 (by decide +kernel)
      (by decide +kernel)
  · intro first hfirst
    rw [show (alignedReader _ _).lineFilter = none from rfl, hlines] at hfirst
    cases hfirst
    decide +kernel

/-- `a=1 b=1` and `a=2`. -/
def raggedUnits : List Bytes := [Utf8.ofString "a=1 b=1\n", Utf8.ofString "a=2\n"]

theorem cutsLines_raggedUnits :
    (alignedReader [raggedUnits.flatten] 1).CutsLines raggedUnits.flatten := by
  have hcut := cutsLines_alignedReader [raggedUnits.flatten] 1 (by decide +kernel)
    (by decide +kernel)
  rwa [List.flatten_singleton] at hcut

theorem alignedCut_raggedUnits :
    (alignedReader [raggedUnits.flatten] 1).AlignedCut raggedUnits.flatten where
  workers := by decide
  aligned := by
    have hlines : acceptedLines none raggedUnits.flatten = raggedUnits := by decide +kernel
    right
    intro first hfirst
    rw [show (alignedReader _ _).lineFilter = none from rfl, hlines] at hfirst
    cases hfirst
    decide +kernel

/-- One worker makes the promised frame, where `b` is null in the second row. Two workers have
other columns each; the sequential path puts an empty text there. -/
theorem alignedCuts_counterexample :
    sliceOutcome (alignedReader [raggedUnits.flatten] 1) none {} =
        some (promisedFrame ∅ (acceptedLines none raggedUnits.flatten)) ∧
      sliceOutcome (alignedReader raggedUnits 2) none {} ≠
        some (promisedFrame ∅ (acceptedLines none raggedUnits.flatten)) := by
  have hvalid : ValidLines raggedUnits.flatten := by decide +kernel
  constructor
  · rw [sliceOutcome_alignedCut rfl cutsLines_raggedUnits alignedCut_raggedUnits]
    show (if ValidLines raggedUnits.flatten then some _ else none) = _
    rw [if_pos hvalid]
    rfl
  · have hdeliver : (alignedReader raggedUnits 2).source.Delivers raggedUnits.flatten :=
      ⟨raggedUnits, rfl, rfl⟩
    have hattempt : ((alignedReader raggedUnits 2).scanReader ∅).attempt { nRows := none } {} none =
        .ok none := by decide +kernel
    rw [sliceOutcome_eq hdeliver rfl, LazyLogFmtReader.scanText, hattempt]
    simp only
    rw [scanLoop_text rfl { nRows := none } {} (.inl hvalid)]
    decide +kernel

end

end PolarsLogfmt
