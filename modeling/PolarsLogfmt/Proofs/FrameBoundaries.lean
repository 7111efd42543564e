import PolarsLogfmt.Lazy.FrameSearch

/-!
# Lines and frame boundaries

When the boundaries of the frames of a file without a seek table cut a line.
-/

namespace PolarsLogfmt

/-! ## Lines of a file -/

/-- `content` has a newline between the two offsets. -/
def HasNewline (content : Bytes) (start stop : Nat) : Prop :=
  ∃ i, start ≤ i ∧ i < stop ∧ content[i]? = some newline

/-- The bytes between the two offsets are a line of `content`, its newline included. -/
structure IsLine (content : Bytes) (start stop : Nat) : Prop where
  nonempty : start < stop
  inside : stop ≤ content.length
  starts : start = 0 ∨ content[start - 1]? = some newline
  unbroken : ∀ i, start ≤ i → i + 1 < stop → content[i]? ≠ some newline
  ends : stop = content.length ∨ content[stop - 1]? = some newline

/-- A line starts wherever one may start. -/
theorem exists_isLine {content : Bytes} {start : Nat} (hlt : start < content.length)
    (hstart : start = 0 ∨ content[start - 1]? = some newline) :
    ∃ stop, IsLine content start stop := by
  by_cases h : ∃ i, start ≤ i ∧ content[i]? = some newline
  · -- up to its first newline
    have hspec := Nat.find_spec h
    have hmin := fun j (hj : j < Nat.find h) => Nat.find_min h hj
    generalize Nat.find h = i at hspec hmin
    obtain ⟨hle, hget⟩ := hspec
    refine ⟨i + 1, ⟨by omega, (List.getElem?_eq_some_iff.mp hget).1, hstart, ?_, .inr hget⟩⟩
    intro j hj hj' hnl
    exact hmin j (by omega) ⟨hj, hnl⟩
  · push Not at h
    exact ⟨content.length, ⟨hlt, Nat.le_refl _, hstart, fun i hi _ => h i hi, .inl rfl⟩⟩

/-! ## Boundaries -/

/-- A frame that does not end the file ends after a newline, if its window has one. -/
def BoundariesAtNewlines (content : Bytes) (frames : List FrameRange) : Prop :=
  ∀ range ∈ frames, range.start + range.len < content.length →
    HasNewline content range.start (range.start + maxFrameSize) →
    content[range.start + range.len - 1]? = some newline

/-- No line is longer than a frame may be. -/
def ShortLines (content : Bytes) : Prop :=
  ∀ start stop, IsLine content start stop → stop - start ≤ maxFrameSize

/-- Every line lies inside one frame. -/
def LinesInFrames (content : Bytes) (frames : List FrameRange) : Prop :=
  ∀ start stop, IsLine content start stop →
    ∃ range ∈ frames, range.start ≤ start ∧ stop ≤ range.start + range.len

/-- Some frame covers every offset of the tiles. -/
theorem Tiles.exists_covering {start stop : Nat} {ranges : List FrameRange}
    (h : Tiles start stop ranges) {i : Nat} (hi : start ≤ i) (hlt : i < stop) :
    ∃ range ∈ ranges, range.start ≤ i ∧ i < range.start + range.len := by
  induction ranges generalizing start with
  | nil =>
    obtain rfl : start = stop := h
    omega
  | cons range ranges ih =>
    obtain ⟨rfl, hrest⟩ := h
    by_cases hin : i < range.start + range.len
    · exact ⟨range, List.mem_cons_self, hi, hin⟩
    · obtain ⟨r, hr, hcover⟩ := ih hrest (Nat.le_of_not_lt hin)
      exact ⟨r, List.mem_cons_of_mem _ hr, hcover⟩

/-- With lines no longer than a frame, every window in which a line starts has a newline, so
every boundary is after one. -/
theorem boundaries_of_shortLines {content : Bytes} (hshort : ShortLines content) {start : Nat}
    {frames : List FrameRange} (htiles : Tiles start content.length frames)
    (hlens : ∀ range ∈ frames, 1 ≤ range.len)
    (hwindow : ∀ range ∈ frames, range.start + range.len < content.length →
      range.start + maxFrameSize < content.length)
    (hstart : start = 0 ∨ content[start - 1]? = some newline)
    (hbound : BoundariesAtNewlines content frames) :
    ∀ range ∈ frames, range.start + range.len < content.length →
      content[range.start + range.len - 1]? = some newline := by
  induction frames generalizing start with
  | nil =>
    intro range hrange
    cases hrange
  | cons range frames ih =>
    obtain ⟨rfl, hrest⟩ := htiles
    have hlen := hlens range List.mem_cons_self
    have hhead : range.start + range.len < content.length →
        content[range.start + range.len - 1]? = some newline := by
      intro hlt
      obtain ⟨stop, hline⟩ := exists_isLine (by omega) hstart
      have hle := hshort range.start stop hline
      have hfar := hwindow range List.mem_cons_self hlt
      have hne := hline.nonempty
      have hnl := hline.ends.resolve_left (by omega)
      exact hbound range List.mem_cons_self hlt ⟨stop - 1, by omega, by omega, hnl⟩
    intro r hr hlt
    rcases List.mem_cons.mp hr with rfl | hr
    · exact hhead hlt
    · by_cases hend : range.start + range.len < content.length
      · exact ih hrest (fun r hr => hlens r (List.mem_cons_of_mem _ hr))
          (fun r hr => hwindow r (List.mem_cons_of_mem _ hr)) (.inr (hhead hend))
          (fun r hr => hbound r (List.mem_cons_of_mem _ hr)) r hr hlt
      · -- the file ends with this frame: none follows
        have hle := hrest.start_le hr
        omega

/-- Then no line is cut. -/
theorem linesInFrames_of_boundaries {content : Bytes} {frames : List FrameRange}
    (htiles : Tiles 0 content.length frames)
    (hbound : ∀ range ∈ frames, range.start + range.len < content.length →
      content[range.start + range.len - 1]? = some newline) : LinesInFrames content frames := by
  intro start stop hline
  have hne := hline.nonempty
  have hin := hline.inside
  obtain ⟨range, hrange, hle, hlt⟩ := htiles.exists_covering (Nat.zero_le start) (by omega)
  refine ⟨range, hrange, hle, ?_⟩
  by_contra hcut
  exact hline.unbroken (range.start + range.len - 1) (by omega) (by omega)
    (hbound range hrange (by omega))

/-- No line is cut while it can be avoided. -/
def NoLineCut (content : Bytes) (frames : List FrameRange) : Prop :=
  BoundariesAtNewlines content frames ∧ (ShortLines content → LinesInFrames content frames)

/-! ## The frames of a file -/

/-- From this state of the loop the search finds a newline of the window, if there is one: one
of its reads returns one, or the window ends with one. -/
def SearchSees (content : Bytes) (st : Handle × Nat) : Prop :=
  HasNewline content st.2 (st.2 + maxFrameSize) →
    SearchMeets st.1 st.2 (st.2 + maxFrameSize) ∨
      content[st.2 + maxFrameSize - 1]? = some newline

/-- One turn of the loop. -/
theorem frameEnd_iff {total : Nat} {h : Handle} (hs : h.Sound) {start : Nat}
    (hin : start + maxFrameSize < total) :
    (HasNewline h.content start (start + maxFrameSize) →
        h.content[(frameEnd maxFrameSize total h start).1 - 1]? = some newline) ↔
      SearchSees h.content (h, start) := by
  obtain ⟨hmeets, hmisses, -⟩ := @searchDelim_sound h hs start
    (start + maxFrameSize) (start + maxFrameSize)
  rw [frameEnd_interior hin]
  unfold SearchSees
  apply imp_congr_right
  intro _
  by_cases hsee : SearchMeets h start (start + maxFrameSize)
  · exact iff_of_true (hmeets hsee) (.inl hsee)
  · rw [hmisses hsee, or_iff_right hsee]

/-- A frame ends before the file does when its window does. -/
theorem frameEnd_lt_iff {total : Nat} {h : Handle} {start : Nat} :
    (frameEnd maxFrameSize total h start).1 < total ↔ start + maxFrameSize < total := by
  constructor
  · intro hend
    by_contra hnot
    rw [frameEnd_last hnot] at hend
    exact Nat.lt_irrefl total hend
  · intro hin
    have hle : (frameEnd maxFrameSize total h start).1 ≤ min (start + maxFrameSize) total :=
      frameEnd_le
    omega

/-- The boundaries of the frames are after newlines exactly when every search of the loop
finds one. -/
theorem boundaries_iff {h : Handle} (hs : h.Sound) :
    BoundariesAtNewlines h.content
        (framesFrom maxFrameSize h.content.length maxFrameSize_pos h 0 0).1 ↔
      ∀ st ∈ frameStates maxFrameSize h.content.length maxFrameSize_pos h 0,
        st.2 + maxFrameSize < h.content.length → SearchSees h.content st := by
  unfold BoundariesAtNewlines
  rw [forall_framesFrom maxFrameSize_pos h 0 0 fun start len => start + len < h.content.length →
    HasNewline h.content start (start + maxFrameSize) → h.content[start + len - 1]? = some newline]
  apply forall₂_congr
  intro st hst
  obtain ⟨hsound, hcontent, hlt⟩ := frameStates_sound maxFrameSize_pos hs 0 st hst
  have hgt := lt_frameEnd (h := st.1) maxFrameSize_pos hlt
  simp only [Nat.add_sub_cancel' (Nat.le_of_lt hgt), frameEnd_lt_iff]
  apply imp_congr_right
  intro hin
  have hiff := frameEnd_iff hsound hin
  rwa [hcontent] at hiff

/-- The windows of the frames that do not end the file do not reach its end. -/
theorem window_lt {h : Handle} (hs : h.Sound) :
    ∀ range ∈ (framesFrom maxFrameSize h.content.length maxFrameSize_pos h 0 0).1,
      range.start + range.len < h.content.length →
        range.start + maxFrameSize < h.content.length := by
  rw [forall_framesFrom maxFrameSize_pos h 0 0 fun start len => start + len < h.content.length →
    start + maxFrameSize < h.content.length]
  intro st hst
  obtain ⟨-, -, hlt⟩ := frameStates_sound maxFrameSize_pos hs 0 st hst
  have hgt := lt_frameEnd (h := st.1) maxFrameSize_pos hlt
  rw [Nat.add_sub_cancel' (Nat.le_of_lt hgt), frameEnd_lt_iff]
  exact id

/-- The frames of a file without a seek table, searched through a handle that does not fail but
may read less than it is asked for, cut no line that they need not cut exactly when every
search finds the newline its window has. -/
theorem noLineCut_iff {file : SeekableVfsFile} {search : Handle} (hs : search.Sound)
    (hcontent : search.content = file.content) (hsize : file.size = .ok file.content.length)
    (htable : file.seekTableDecompFrames = none) {frames : List FrameRange}
    (hframes : (framesFromSeekable file search).1 = some frames) :
    NoLineCut file.content frames ↔
      ∀ st ∈ frameStates maxFrameSize file.content.length maxFrameSize_pos search 0,
        st.2 + maxFrameSize < file.content.length → SearchSees file.content st := by
  have hfrom : frames =
      (framesFrom maxFrameSize file.content.length maxFrameSize_pos search 0 0).1 := by
    unfold framesFromSeekable at hframes
    simp only [htable, hsize] at hframes
    split at hframes
    · cases hframes
    · exact (Option.some.inj hframes).symm
  rw [hfrom, ← hcontent, ← boundaries_iff hs]
  refine ⟨And.left, fun hbound => ⟨hbound, fun hshort => ?_⟩⟩
  obtain ⟨htiles, hlens⟩ := framesFrom_tiles maxFrameSize_pos search 0
    (Nat.zero_le search.content.length)
  exact linesInFrames_of_boundaries htiles (boundaries_of_shortLines hshort htiles
    (fun range hrange => (hlens range hrange).1) (window_lt hs) (.inl rfl) hbound)

/-! ## A search that misses -/

/-- A pair, and a line as long as a frame. -/
def longText : Bytes := Utf8.ofString "a=1\n" ++ List.replicate maxFrameSize 97

def longFile : SeekableVfsFile :=
  { content := longText
    size := .ok longText.length
    seekTableDecompFrames := none
    replies := fun _ => .ok [] }

/-- A handle on it whose reads return one byte each. -/
def oneByteHandle : Handle := { content := longText, replies := List.replicate 2048 (.short 0) }

theorem longText_length : longText.length = maxFrameSize + 4 := by
  have hfirst : (Utf8.ofString "a=1\n").length = 4 := rfl
  rw [longText, List.length_append, List.length_replicate, hfirst, Nat.add_comm]

/-- Its one newline ends the pair. -/
theorem longText_newline {i : Nat} : longText[i]? = some newline ↔ i = 3 := by
  unfold longText
  have hfirst : (Utf8.ofString "a=1\n").length = 4 := rfl
  rcases Nat.lt_or_ge i 4 with hlt | hge
  · rw [List.getElem?_append_left (by rw [hfirst]; exact hlt)]
    match i, hlt with
    | 0, _ => decide
    | 1, _ => decide
    | 2, _ => decide
    | 3, _ => decide
  · rw [List.getElem?_append_right (by rw [hfirst]; exact hge), List.getElem?_replicate]
    refine iff_of_false ?_ (by omega)
    split
    · decide
    · exact fun h => by cases h

theorem framesFromSeekable_longFile (search : Handle) :
    (framesFromSeekable longFile search).1 =
      some (framesFrom maxFrameSize longText.length maxFrameSize_pos search 0 0).1 := by
  have hpos : 0 < longText.length := by
    rw [longText_length]
    exact Nat.add_pos_right _ (by decide)
  rw [@framesFromSeekable_plain longFile _ rfl hpos rfl]

/-- Read in full, the windows of the search show the newline. -/
theorem noLineCut_longFile :
    NoLineCut longFile.content
        (framesFrom maxFrameSize longText.length maxFrameSize_pos { content := longText } 0 0).1 ↔
      ∀ st ∈ frameStates maxFrameSize longFile.content.length maxFrameSize_pos
          { content := longText } 0,
        st.2 + maxFrameSize < longFile.content.length → SearchSees longFile.content st :=
  noLineCut_iff (fun _ => by simp) rfl rfl rfl (framesFromSeekable_longFile _)

theorem oneByteHandle_sound : oneByteHandle.Sound := by
  intro e he
  cases List.eq_of_mem_replicate he

/-- Read byte by byte they do not, and the first frame ends inside the second line. -/
theorem noLineCut_counterexample :
    oneByteHandle.Sound ∧ ∃ frames, (framesFromSeekable longFile oneByteHandle).1 = some frames ∧
      ¬ NoLineCut longText frames := by
  refine ⟨oneByteHandle_sound, _, framesFromSeekable_longFile _, fun hcut => ?_⟩
  have hmax : maxFrameSize = 4194304 := by norm_num [maxFrameSize]
  have hpos : 0 < longText.length := by rw [longText_length]; exact Nat.succ_pos _
  have hfirst : (oneByteHandle, 0) ∈
      frameStates maxFrameSize longText.length maxFrameSize_pos oneByteHandle 0 := by
    rw [frameStates, dif_pos hpos]
    exact List.mem_cons_self
  have hsees := (boundaries_iff oneByteHandle_sound).mp hcut.1 _ hfirst
    (by rw [show oneByteHandle.content = longText from rfl, longText_length]; simp only; omega)
    ⟨3, Nat.zero_le _, by simp only; omega, longText_newline.mpr rfl⟩
  rcases hsees with ⟨i, hi, hmem⟩ | hlast
  · -- each read returns the first byte of its window
    obtain ⟨k, hk⟩ := List.mem_iff_getElem?.mp hmem
    have hcheck : checkSize = 4096 := rfl
    rw [hcheck] at hi
    simp only at hi
    have hreply : oneByteHandle.replies[2 * i + 1]? = some (.short 0) :=
      List.getElem?_replicate_of_lt (by omega)
    unfold searchRead at hk
    simp only [hreply, granted, hcheck] at hk
    have hk0 : k = 0 := by
      have := (List.getElem?_eq_some_iff.mp hk).1
      rw [List.length_take] at this
      omega
    rw [hk0, List.getElem?_take_of_lt (by omega), List.getElem?_drop] at hk
    have h3 := longText_newline.mp hk
    omega
  · have h3 : 0 + maxFrameSize - 1 = 3 := longText_newline.mp hlast
    omega

end PolarsLogfmt
