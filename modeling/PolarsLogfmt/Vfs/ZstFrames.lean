import PolarsLogfmt.Lazy.FrameTiling
import PolarsLogfmt.Lazy.WorkerTexts

/-!
# The frames of a compressed file

A seekable zstd file lists in its seek table where each of its frames ends once decompressed.
`seek_table_decomp_frames` makes ranges of these ends; the ranges cut the decompressed text into
the texts of the frames, in order and with nothing between them.
-/

namespace PolarsLogfmt

/-- Where each of the texts ends when they follow each other from `start`. -/
def frameEnds (start : Nat) : List Bytes → List Nat
  | [] => []
  | text :: texts => (start + text.length) :: frameEnds (start + text.length) texts

theorem length_frameEnds (start : Nat) (texts : List Bytes) :
    (frameEnds start texts).length = texts.length := by
  induction texts generalizing start with
  | nil => rfl
  | cons text texts ih => rw [frameEnds, List.length_cons, List.length_cons, ih]

theorem getLast?_frameEnds (start : Nat) {texts : List Bytes} (h : texts ≠ []) :
    (frameEnds start texts).getLast? = some (start + texts.flatten.length) := by
  induction texts generalizing start with
  | nil => exact absurd rfl h
  | cons text texts ih =>
    rw [frameEnds, List.flatten_cons, List.length_append, ← Nat.add_assoc]
    cases texts with
    | nil => rfl
    | cons next texts =>
      rw [← ih (start + text.length) (List.cons_ne_nil _ _), frameEnds, List.getLast?_cons_cons]

namespace SeekTable

/-- The table lists the frames of a file that decompress to the texts. -/
def Lists (table : SeekTable) (texts : List Bytes) : Prop :=
  table.frameEndDecomp = (frameEnds 0 texts).map .ok

/-- The size of the decompressed text, zero when the last frame has no end:
`frame_end_decomp(num_frames.saturating_sub(1)).unwrap_or(0)`. -/
def size (table : SeekTable) : Nat :=
  match table.frameEndDecomp[table.frameEndDecomp.length - 1]? with
  | some (.ok stop) => stop
  | _ => 0

theorem Lists.size {table : SeekTable} {texts : List Bytes} (h : table.Lists texts) :
    table.size = texts.flatten.length := by
  unfold SeekTable.size
  rw [← List.getLast?_eq_getElem?, h, List.getLast?_map]
  by_cases hnil : texts = []
  · rw [hnil]
    rfl
  · rw [getLast?_frameEnds 0 hnil, Nat.zero_add]
    rfl

end SeekTable

/-- The ranges from `start` on cut what follows it into the texts. -/
theorem decompFrames_texts (content : Bytes) {texts : List Bytes} {start : Nat}
    (h : content.drop start = texts.flatten) :
    ∃ frames, decompFrames start ((frameEnds start texts).map .ok) = some frames ∧
      frames.map (fun range => (content.drop range.1).take range.2) = texts := by
  induction texts generalizing start with
  | nil => exact ⟨[], rfl, rfl⟩
  | cons text texts ih =>
    rw [List.flatten_cons] at h
    have hrest : content.drop (start + text.length) = texts.flatten := by
      rw [← List.drop_drop, h, List.drop_left]
    obtain ⟨frames, hframes, htexts⟩ := ih hrest
    refine ⟨(start, text.length) :: frames, ?_, ?_⟩
    · rw [frameEnds, List.map_cons, decompFrames, hframes, Nat.add_sub_cancel_left]
      rfl
    · rw [List.map_cons, htexts, h, List.take_left]

/-- The ranges of a table cut the decompressed text into the texts of its frames. -/
theorem SeekTable.Lists.decompFrames {table : SeekTable} {texts : List Bytes}
    (h : table.Lists texts) (hsome : texts ≠ []) :
    ∃ frames, table.decompFrames = some frames ∧
      frames.map (fun range => (texts.flatten.drop range.1).take range.2) = texts := by
  obtain ⟨frames, hframes, htexts⟩ := @decompFrames_texts texts.flatten texts 0
    (List.drop_zero ..)
  refine ⟨frames, ?_, htexts⟩
  unfold SeekTable.decompFrames
  rw [if_neg, h, hframes]
  rw [h, List.map_eq_nil_iff, ← List.length_eq_zero_iff, length_frameEnds, List.length_eq_zero_iff]
  exact hsome

/-- The file decompresses to the texts, frame by frame, and reads without errors. -/
structure SeekableVfsFile.Decompresses (file : SeekableVfsFile) (texts : List Bytes) : Prop where
  content : file.content = texts.flatten
  sound : file.Sound
  table : ∃ table : SeekTable, table.Lists texts ∧ file.size = .ok table.size ∧
    file.seekTableDecompFrames = table.decompFrames

/-- The units of a source that counts them. -/
def UnitSource.counted (texts : List Bytes) : UnitSource :=
  { units := texts.map .ok, countUnits := some texts.length }

theorem UnitSource.counted_delivers (texts : List Bytes) :
    LogFmtSource.Delivers texts.flatten (.units (.counted texts)) := ⟨texts, rfl, rfl⟩

variable [Crates]

namespace LazyLogFmtReader

/-- The frames of the counted units are the units. -/
theorem frameTexts_counted (self : LazyLogFmtReader) (texts : List Bytes) :
    ({ self with source := .units (.counted texts) } : LazyLogFmtReader).frameTexts = texts := by
  show ((List.range texts.length).map fun idx => ({ idx := idx } : FrameRange)).map
    (FrameOrigin.frameText (.units (.counted texts))) = texts
  rw [List.map_map]
  apply List.ext_getElem
  · rw [List.length_map, List.length_range]
  · intro i _ hi
    rw [List.getElem_map, List.getElem_range]
    have hunit : (UnitSource.counted texts).units[i]? = some (.ok texts[i]) := by
      show (texts.map Except.ok)[i]? = _
      rw [List.getElem?_map, List.getElem?_eq_getElem hi]
      rfl
    show FrameHandle.frameText (.units (.counted texts)) { idx := i } = texts[i]
    unfold FrameHandle.frameText
    simp only [hunit]

/-- The frames of a compressed file are the texts they decompress to. -/
theorem frameTexts_decompresses (self : LazyLogFmtReader) {file : SeekableVfsFile}
    {texts : List Bytes} (h : file.Decompresses texts) :
    ({ self with source := .seekable file } : LazyLogFmtReader).frameTexts = texts := by
  obtain ⟨table, hlists, hsize, htable⟩ := h.table
  obtain ⟨probe, hclone, -⟩ := h.sound .frames
  unfold frameTexts parallelOrigin
  simp only [hclone]
  by_cases hnil : texts = []
  · -- without a frame the file is empty, and there is nothing to search for lines
    have hnone : table.decompFrames = none := by
      unfold SeekTable.decompFrames
      rw [if_pos]
      rw [hlists, hnil]
      rfl
    unfold framesFromSeekable
    rw [htable, hnone, hsize, hlists.size, hnil]
    rfl
  · obtain ⟨frames, hframes, htexts⟩ := hlists.decompFrames hnil
    unfold framesFromSeekable
    rw [htable, hframes]
    show ((frames.mapIdx fun idx span => ({ idx := idx, start := span.1, len := span.2 } :
      FrameRange)).map fun range => (file.content.drop range.start).take range.len) = texts
    rw [h.content]
    refine Eq.trans ?_ htexts
    apply List.ext_getElem
    · rw [List.length_map, List.length_mapIdx, List.length_map]
    · intro i _ hi
      rw [List.getElem_map, List.getElem_mapIdx, List.getElem_map]

end LazyLogFmtReader

end PolarsLogfmt
