import PolarsLogfmt.Lazy.FramePrograms
import PolarsLogfmt.Proofs.SourceKinds
import PolarsLogfmt.Vfs.ZstFrames

/-!
# Compressed files and units

A `.zst` path is read through its seek table, and a host hands its decompressed frames on as
units. Both are read by the same rules: the lazy frames promise the same columns and return the
same frames, with aligned columns, limits, pulled batches and any number of workers.
-/

namespace PolarsLogfmt

section

variable [Crates]

/-- The lazy frames of two sources of one text, cut into the same frames, promise the same columns
and return the same from every run of collects and pulled batches. -/
theorem lazy_frame_of_texts (self : LazyLogFmtReader) {text : Bytes} {source other : LogFmtSource}
    (hsource : source.Delivers text) (hother : other.Delivers text)
    (htexts : ({ self with source := source } : LazyLogFmtReader).frameTexts =
      ({ self with source := other } : LazyLogFmtReader).frameTexts)
    (hresumed : source.resumed text = other.resumed text) (calls : List ReaderCall) :
    ({ self with source := source } : LazyLogFmtReader).scanLogfmt.map
        (LazyLogFmtReader.observe calls) =
      ({ self with source := other } : LazyLogFmtReader).scanLogfmt.map
        (LazyLogFmtReader.observe calls) :=
  LazyLogFmtReader.observe_congr hsource hother htexts hresumed calls

/-- The lazy frame of a compressed file is the lazy frame of the units it decompresses to. -/
theorem zst_frame_eq_units (self : LazyLogFmtReader) {file : SeekableVfsFile} {texts : List Bytes}
    (h : file.Decompresses texts) (calls : List ReaderCall) :
    ({ self with source := .seekable file } : LazyLogFmtReader).scanLogfmt.map
        (LazyLogFmtReader.observe calls) =
      ({ self with source := .units (.counted texts) } : LazyLogFmtReader).scanLogfmt.map
        (LazyLogFmtReader.observe calls) := by
  have hsource : LogFmtSource.Delivers texts.flatten (.seekable file) := ⟨h.content, h.sound⟩
  have htexts : ({ self with source := .seekable file } : LazyLogFmtReader).frameTexts =
      ({ self with source := .units (.counted texts) } : LazyLogFmtReader).frameTexts := by
    rw [self.frameTexts_decompresses h, self.frameTexts_counted]
  exact LazyLogFmtReader.observe_congr hsource (UnitSource.counted_delivers texts) htexts rfl calls

end

section

attribute [local instance] smallCrates

/-- A plain file is one frame, as is one unit. -/
theorem lazy_frame_of_texts_lines :
    ({ source := .seekable (fileOf (Utf8.ofString "a=1\na=2\n")) } :
        LazyLogFmtReader).scanLogfmt.map
        (LazyLogFmtReader.observe [.scan { nRows := some 1 } {}, .nextBatch {} {}]) =
      ({ source := .units (.counted [Utf8.ofString "a=1\na=2\n"]) } :
        LazyLogFmtReader).scanLogfmt.map
          (LazyLogFmtReader.observe [.scan { nRows := some 1 } {}, .nextBatch {} {}]) := by
  have hsource : LogFmtSource.Delivers (Utf8.ofString "a=1\na=2\n")
      (.seekable (fileOf (Utf8.ofString "a=1\na=2\n"))) := ⟨rfl, fileOf_sound _⟩
  have hunits := UnitSource.counted_delivers [Utf8.ofString "a=1\na=2\n"]
  rw [List.flatten_singleton] at hunits
  exact lazy_frame_of_texts { source := .cursor [] } hsource hunits (by decide +kernel) rfl
    [.scan { nRows := some 1 } {}, .nextBatch {} {}]

/-- The texts of three frames, the second of them empty. -/
def zstTexts : List Bytes := [Utf8.ofString "a=1\n", [], Utf8.ofString "a=2\n"]

/-- The file of these frames, whose first reads come up short. -/
def zstFile : SeekableVfsFile where
  content := zstTexts.flatten
  size := .ok 8
  seekTableDecompFrames := SeekTable.decompFrames ⟨[.ok 4, .ok 4, .ok 8]⟩
  replies := fun _ => .ok [.short 0, .short 2]

theorem zst_frame_eq_units_short :
    ({ source := .seekable zstFile, alignedColsCnt := true, nThreads := some 2 } :
        LazyLogFmtReader).scanLogfmt.map
        (LazyLogFmtReader.observe [.scan { nRows := some 1 } { steps := [1, 1, 0] }]) =
      ({ source := .units (.counted zstTexts), alignedColsCnt := true, nThreads := some 2 } :
        LazyLogFmtReader).scanLogfmt.map
        (LazyLogFmtReader.observe [.scan { nRows := some 1 } { steps := [1, 1, 0] }]) := by
  have hsound : zstFile.Sound := by
    intro use
    refine ⟨_, rfl, fun e he => ?_⟩
    cases he with
    | tail _ he =>
      cases he with
      | tail _ he => cases he
  have hends : [4, 4, 8] = frameEnds 0 zstTexts := by decide +kernel
  have htable : SeekTable.Lists ⟨[.ok 4, .ok 4, .ok 8]⟩ zstTexts :=
    congrArg (List.map Except.ok) hends
  have hfile : zstFile.Decompresses zstTexts := ⟨rfl, hsound, _, htable, rfl, rfl⟩
  exact zst_frame_eq_units
    { source := .cursor [], alignedColsCnt := true, nThreads := some 2 } hfile
    [.scan { nRows := some 1 } { steps := [1, 1, 0] }]

end

end PolarsLogfmt
