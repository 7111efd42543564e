import PolarsLogfmt.Lazy.ParallelFrames
import PolarsLogfmt.Lazy.FrameBuffer

/-!
# What the workers can read

On a source that does not fail, a worker stops for one reason only: a line of one of its
frames is no UTF-8. A frame may cut a line, so that the lines of the frames need not be
valid when those of the text are.
-/

namespace PolarsLogfmt

/-- Every line of the text is UTF-8. -/
def ValidLines (text : Bytes) : Prop := ∀ line ∈ Lines.split newline text, Utf8.Valid line

instance (text : Bytes) : Decidable (ValidLines text) :=
  inferInstanceAs (Decidable (∀ line ∈ Lines.split newline text, Utf8.Valid line))

theorem checkLine_valid {line : Bytes} : checkLine line = .ok line ↔ Utf8.Valid line := by
  unfold checkLine
  by_cases h : Utf8.Valid line
  · exact iff_of_true (if_pos h) h
  · rw [if_neg h]
    exact iff_of_false (fun hok => by cases hok) h

/-! ## The readable lines -/

/-- The lines before the first that is no UTF-8. -/
def readableLines (text : Bytes) : List Bytes :=
  (Lines.split newline text).takeWhile fun line => Utf8.Valid line

theorem readableLines_of_valid {text : Bytes} (h : ValidLines text) :
    readableLines text = Lines.split newline text :=
  List.takeWhile_eq_self_iff.mpr fun line hline => decide_eq_true (h line hline)

theorem map_checkLine_of_valid {lines : List Bytes} (h : ∀ line ∈ lines, Utf8.Valid line) :
    lines.map checkLine = lines.map .ok :=
  List.map_congr_left fun line hline => checkLine_valid.mpr (h line hline)

theorem textLines_of_valid {text : Bytes} (h : ValidLines text) :
    textLines text = (readableLines text).map .ok := by
  rw [readableLines_of_valid h]
  exact map_checkLine_of_valid h

/-- Otherwise `read_line` fails on the line after them. -/
theorem textLines_of_invalid {text : Bytes} (h : ¬ ValidLines text) :
    ∃ rest, textLines text = (readableLines text).map .ok ++ .error invalidUtf8 :: rest := by
  unfold ValidLines at h
  unfold textLines readableLines
  generalize Lines.split newline text = lines at h ⊢
  induction lines with
  | nil => exact absurd (fun _ => List.not_mem_nil.elim) h
  | cons line lines ih =>
    rw [List.map_cons]
    by_cases hline : Utf8.Valid line
    · obtain ⟨rest, hrest⟩ := ih fun hall => h (List.forall_mem_cons.mpr ⟨hline, hall⟩)
      refine ⟨rest, ?_⟩
      rw [List.takeWhile_cons_of_pos (by simpa using hline), List.map_cons, List.cons_append,
        ← hrest, checkLine_valid.mpr hline]
    · refine ⟨lines.map checkLine, ?_⟩
      rw [List.takeWhile_cons_of_neg (by simpa using hline), checkLine, if_neg hline]
      rfl

/-- The lines of a frame are read up to the first that is no UTF-8. -/
theorem frameLines_err (lineFilter : Option LineFilterFn) (frame number : Nat)
    (lines : List Bytes) :
    (frameLines lineFilter frame (lines.map checkLine) number).2 =
      if ∀ line ∈ lines, Utf8.Valid line then none else some invalidUtf8 := by
  induction lines generalizing number with
  | nil => rfl
  | cons line lines ih =>
    rw [List.map_cons]
    by_cases hline : Utf8.Valid line
    · rw [checkLine_valid.mpr hline]
      simp only [frameLines, ih, List.forall_mem_cons, hline, true_and]
    · rw [checkLine, if_neg hline, if_neg fun h => hline (h line List.mem_cons_self)]
      rfl

/-! ## Handles that do not fail -/

/-- No call on the handle fails. -/
def FrameHandle.Sound : FrameHandle → Prop
  | .file h => h.Sound
  | .units u => ∃ texts : List Bytes, u.units = texts.map .ok

/-- No handle on the source fails. -/
def FrameOrigin.Sound : FrameOrigin → Prop
  | .file f => f.Sound
  | .units u => ∃ texts : List Bytes, u.units = texts.map .ok

theorem FrameOrigin.cloneHandle_sound {origin : FrameOrigin} (hs : origin.Sound) (w : Nat) :
    ∃ handle, origin.cloneHandle w = .ok handle ∧ handle.Sound := by
  cases origin with
  | file f =>
    obtain ⟨handle, hclone, hsound⟩ := hs (.worker w)
    refine ⟨.file handle, ?_, hsound⟩
    simp only [cloneHandle, hclone]
    rfl
  | units u => exact ⟨.units u, rfl, hs⟩

theorem FrameHandle.readFrame_sound {handle : FrameHandle} (hs : handle.Sound)
    (range : FrameRange) :
    ∃ found handle', FrameBytes.readFrame handle range = (.ok found, handle') ∧ handle'.Sound := by
  cases handle with
  | file h =>
    obtain ⟨found, hfound, -, hsound, -⟩ := Handle.readFrame_sound hs range
    refine ⟨found, .file (FrameBytes.readFrame h range).2, ?_, hsound⟩
    rw [← hfound]
    rfl
  | units u =>
    obtain ⟨texts, hunits⟩ := hs
    have hunit : ∃ found, u.readUnit range.idx = .ok found := by
      unfold UnitSource.readUnit
      rw [hunits, List.getElem?_map]
      cases texts[range.idx]? with
      | none => exact ⟨none, rfl⟩
      | some text => exact ⟨some text, rfl⟩
    obtain ⟨found, hfound⟩ := hunit
    refine ⟨found.map fun bytes => (bytes.length, bytes), .units u, ?_, texts, hunits⟩
    simp only [FrameBytes.readFrame, hfound]
    rfl

/-- A worker on such a handle stops at a line that is no UTF-8, and for no other reason. -/
theorem workerLines_err (lineFilter : Option LineFilterFn) {ranges : List FrameRange}
    {handle : FrameHandle} (hs : handle.Sound) :
    (workerLines lineFilter ranges handle).2 =
      if ∀ range ∈ ranges, ValidLines (handle.frameText range) then none
      else some invalidUtf8 := by
  induction ranges generalizing handle with
  | nil => rfl
  | cons range ranges ih =>
    obtain ⟨found, handle', hread, hs'⟩ := FrameHandle.readFrame_sound hs range
    obtain ⟨htext, hsame⟩ := FrameHandle.readFrame_spec hread
    have herr := frameLines_err lineFilter range.idx 0
      (Lines.split newline (handle.frameText range))
    have ih := ih hs'
    rw [hsame] at ih
    rw [workerLines, hread]
    simp only [htext, textLines, List.forall_mem_cons]
    cases hf : frameLines lineFilter range.idx
      ((Lines.split newline (handle.frameText range)).map checkLine) 0 with
    | mk lines err =>
      rw [hf] at herr
      by_cases hvalid : ValidLines (handle.frameText range)
      · obtain rfl : err = none := herr.trans (if_pos hvalid)
        simp only [ih, hvalid, true_and]
      · obtain rfl : err = some invalidUtf8 := herr.trans (if_neg hvalid)
        simp only [hvalid, false_and, if_false]

theorem FrameOrigin.chunkLines_err {origin : FrameOrigin} (hs : origin.Sound)
    (lineFilter : Option LineFilterFn) (chunk : Nat × List FrameRange) :
    (origin.chunkLines lineFilter chunk).2 =
      if ∀ range ∈ chunk.2, ValidLines (origin.frameText range) then none
      else some invalidUtf8 := by
  obtain ⟨handle, hclone, hsound⟩ := cloneHandle_sound hs chunk.1
  unfold chunkLines
  rw [hclone, ← frameText_cloneHandle hclone]
  exact workerLines_err lineFilter hsound

/-! ## The frames of a source that delivers a text -/

variable [Crates]

namespace LazyLogFmtReader

theorem parallelOrigin_sound {self : LazyLogFmtReader} {text : Bytes}
    (hsource : self.source.Delivers text) {origin : FrameOrigin} {frames : List FrameRange}
    {probe : LineReader} (h : self.parallelOrigin = some (origin, frames, probe)) :
    origin.Sound := by
  unfold parallelOrigin at h
  cases hs : self.source with
  | cursor content =>
    rw [hs] at h
    cases h
  | ssh connect =>
    rw [hs] at h
    cases h
  | seekable file =>
    rw [hs] at h hsource
    obtain ⟨handle, hclone, -⟩ := hsource.2 .frames
    simp only [hclone] at h
    split at h
    · cases h
    · cases h
      exact hsource.2
  | units units =>
    rw [hs] at h hsource
    simp only at h
    split at h
    · cases h
    · cases h
      obtain ⟨texts, hunits, -⟩ := hsource
      exact ⟨texts, hunits⟩

/-- The workers have every frame between them, if there is one. -/
theorem mem_chunks {self : LazyLogFmtReader} {frames : List FrameRange}
    (hworkers : 0 < workerCount self.maxInflight frames.length) {range : FrameRange} :
    (∃ chunk ∈ self.chunks frames, range ∈ chunk.2) ↔ range ∈ frames := by
  rw [← List.mem_flatMap, chunks_flatMap hworkers]

/-- The workers of an attempt can read the lines of their frames. -/
def FramesReadable (self : LazyLogFmtReader) : Prop :=
  ∀ origin frames probe, self.parallelOrigin = some (origin, frames, probe) →
    0 < workerCount self.maxInflight frames.length →
      ∀ range ∈ frames, ValidLines (origin.frameText range)

end LazyLogFmtReader

end PolarsLogfmt
