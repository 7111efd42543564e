import PolarsLogfmt.Lazy.ParallelFrames
import PolarsLogfmt.Lazy.FrameTiling
import PolarsLogfmt.Lazy.FrameBuffer
import PolarsLogfmt.Proofs.FrameBoundaries

/-!
# The content of the frames

Reading the frames of a file one after the other gives the file.
-/

namespace PolarsLogfmt

/-- Frames numbered from 0 that follow each other from the first byte to `stop`. -/
structure Tiling (stop : Nat) (frames : List FrameRange) : Prop where
  idx : frames.map FrameRange.idx = List.range frames.length
  tiles : Tiles 0 stop frames

/-- Reading the frames through a handle that does not fail gives the content, whatever the
reads return and whatever is in the buffer at first. -/
def Reproduces (content : Bytes) (frames : List FrameRange) : Prop :=
  ∀ (h : Handle) (buf : Bytes), h.Sound → h.content = content →
    readFrames h buf frames = .ok content

theorem Tiling.reproduces {content : Bytes} {frames : List FrameRange}
    (h : Tiling content.length frames) : Reproduces content frames := by
  rintro handle buf hs rfl
  rw [readFrames_eq hs, h.tiles.flatten_texts handle.content, List.drop_zero, Nat.sub_zero,
    List.take_length]

/-- The frames of a file without a seek table, whatever the calls of the search return. -/
theorem tiling_plain {file : SeekableVfsFile} (search : Handle) {total : Nat} (hpos : 0 < total)
    (hsize : file.size = .ok total) (htable : file.seekTableDecompFrames = none) :
    ∃ frames, (framesFromSeekable file search).1 = some frames ∧ Tiling total frames ∧
      ∀ range ∈ frames, 1 ≤ range.len ∧ range.len ≤ maxFrameSize := by
  rw [framesFromSeekable_plain hsize hpos htable]
  obtain ⟨htiles, hlens⟩ := framesFrom_tiles maxFrameSize_pos search 0 (Nat.zero_le total)
  refine ⟨_, rfl, ⟨?_, htiles⟩, hlens⟩
  rw [framesFrom_idx, List.range_eq_range']

/-- The frames of a seek table. -/
theorem tiling_seekTable {file : SeekableVfsFile} (search : Handle) {ends : List Nat}
    (hne : ends ≠ []) (hsorted : ends.Pairwise (· ≤ ·))
    (htable : file.seekTableDecompFrames = (SeekTable.mk (ends.map .ok)).decompFrames) :
    ∃ frames, (framesFromSeekable file search).1 = some frames ∧
      Tiling (ends.getLastD 0) frames := by
  obtain ⟨frames, hframes, htiles⟩ := tiles_mapIdx
    (List.pairwise_cons.mpr ⟨fun stop _ => Nat.zero_le stop, hsorted⟩) 0
  rw [SeekTable.decompFrames, if_neg (by simpa using hne), hframes] at htable
  unfold framesFromSeekable
  rw [htable]
  refine ⟨_, rfl, ?_, htiles⟩
  apply List.ext_getElem
  · simp
  · intro i hi hi'
    simp

/-- The frames of a file follow each other from its first byte to its last, and reading them
gives its content: for a file without a seek table, whatever its search meets with, and for
one whose seek table has ends in order. -/
theorem frames_reproduce (file : SeekableVfsFile) (search : Handle) :
    (∀ total, 0 < total → file.size = .ok total → file.seekTableDecompFrames = none →
      ∃ frames, (framesFromSeekable file search).1 = some frames ∧ Tiling total frames ∧
        (∀ range ∈ frames, 1 ≤ range.len ∧ range.len ≤ maxFrameSize) ∧
        (file.content.length = total → Reproduces file.content frames)) ∧
      ∀ ends : List Nat, ends ≠ [] → ends.Pairwise (· ≤ ·) →
        file.seekTableDecompFrames = (SeekTable.mk (ends.map .ok)).decompFrames →
        ∃ frames, (framesFromSeekable file search).1 = some frames ∧
          Tiling (ends.getLastD 0) frames ∧
          (file.content.length = ends.getLastD 0 → Reproduces file.content frames) := by
  constructor
  · intro total hpos hsize htable
    obtain ⟨frames, hframes, htiling, hlens⟩ := tiling_plain search hpos hsize htable
    refine ⟨frames, hframes, htiling, hlens, ?_⟩
    rintro rfl
    exact htiling.reproduces
  · intro ends hne hsorted htable
    obtain ⟨frames, hframes, htiling⟩ := tiling_seekTable search hne hsorted htable
    refine ⟨frames, hframes, htiling, fun hlast => ?_⟩
    rw [← hlast] at htiling
    exact htiling.reproduces

/-- A handle on a pair and a long line: a call returns one byte, the next one fails. -/
def failingHandle : Handle :=
  { content := longText, replies := [.short 0, .error (Utf8.ofString "reset")] }

/-- A file of two lines with a seek table. -/
def twoLines : SeekableVfsFile :=
  { content := Utf8.ofString "a=1\nb=2\n"
    size := .ok 8
    seekTableDecompFrames := some [(0, 4), (4, 4)]
    replies := fun _ => .ok [] }

/-- The search for a newline in a file longer than a frame meets with the error. -/
theorem frames_reproduce_longFile :
    (∃ frames, (framesFromSeekable longFile failingHandle).1 = some frames ∧
        Tiling longText.length frames ∧
        (∀ range ∈ frames, 1 ≤ range.len ∧ range.len ≤ maxFrameSize) ∧ Reproduces longText frames) ∧
      ∃ frames, (framesFromSeekable twoLines failingHandle).1 = some frames ∧
        Tiling 8 frames ∧ Reproduces twoLines.content frames := by
  have hpos : 0 < longText.length := by
    rw [longText_length]
    exact Nat.add_pos_right _ (by decide)
  obtain ⟨frames, hframes, htiling, hlens, hreproduces⟩ :=
    (frames_reproduce longFile failingHandle).1 longText.length hpos rfl rfl
  obtain ⟨frames', hframes', htiling', hreproduces'⟩ :=
    (frames_reproduce twoLines failingHandle).2 [4, 8] (by decide) (by decide) rfl
  exact ⟨⟨frames, hframes, htiling, hlens, hreproduces rfl⟩,
    ⟨frames', hframes', htiling', hreproduces' rfl⟩⟩

end PolarsLogfmt
