import PolarsLogfmt.Lazy.SourceTexts

/-!
# Where the frames of a file lie

The frames that `frames_from_seekable` makes follow each other from the first byte of
the file to the last, whatever the reads of its search return, and so do the frames of a
seek table. Offsets are natural numbers: a file is shorter than 2^63 bytes, so
`start + MAX_FRAME_SIZE` stays below 2^64.
-/

namespace PolarsLogfmt

/-! ## The search -/

theorem rposition_eq_some {delim : UInt8} {buf : Bytes} {i : Nat}
    (h : rposition delim buf = some i) : buf[i]? = some delim := by
  simpa using List.find?_some h

theorem rposition_eq_none {delim : UInt8} {buf : Bytes} :
    rposition delim buf = none ↔ delim ∉ buf := by
  rw [rposition, List.find?_eq_none]
  constructor
  · intro h hmem
    obtain ⟨i, hi, hget⟩ := List.mem_iff_getElem.mp hmem
    refine h i (by simpa using hi) ?_
    rw [List.getElem?_eq_getElem hi, hget]
    exact beq_self_eq_true _
  · intro h i _ hget
    exact h (List.mem_of_getElem? (by simpa using hget))

/-- One read of the search: where in the bytes it returns the last newline is. -/
def searchWindow (h : Handle) (seekPos readSize : Nat) : Option Nat × Handle :=
  match h.seek seekPos with
  | (.error _, h) => (none, h)
  | (.ok (), h) =>
      match h.read readSize with
      | (.error _, h) => (none, h)
      | (.ok buf, h) => (rposition newline buf, h)

/-- The search reads window after window; it never reaches below `start`. -/
theorem searchDelim_step {h : Handle} {start stop pos : Nat} (hp : start < pos) :
    searchDelim h start stop pos =
      match searchWindow h (pos - min checkSize (pos - start)) (min checkSize (pos - start)) with
      | (some relpos, h) => (pos - min checkSize (pos - start) + relpos + 1, h)
      | (none, h) => searchDelim h start stop (pos - min checkSize (pos - start)) := by
  have hin : ¬ pos < min checkSize (pos - start) + start := by omega
  rw [searchDelim, if_pos hp]
  simp only [hin, if_false, searchWindow]
  cases hseek : h.seek (pos - min checkSize (pos - start)) with
  | mk sought h₁ =>
    cases sought with
    | error e => rfl
    | ok u =>
      cases hread : h₁.read (min checkSize (pos - start)) with
      | mk result h₂ =>
        cases result with
        | error e => simp only [hread]
        | ok buf =>
          simp only [hread]
          cases rposition newline buf <;> rfl

theorem searchDelim_done {h : Handle} {start stop pos : Nat} (hp : ¬ start < pos) :
    searchDelim h start stop pos = (stop, h) := by
  rw [searchDelim, if_neg hp]

/-- What a read of the search finds is a newline of the content. -/
theorem searchWindow_spec (h : Handle) (seekPos readSize : Nat) :
    (searchWindow h seekPos readSize).2.content = h.content ∧
      ∀ relpos, (searchWindow h seekPos readSize).1 = some relpos →
        relpos < readSize ∧ h.content[seekPos + relpos]? = some newline := by
  unfold searchWindow
  cases hseek : h.seek seekPos with
  | mk sought h₁ =>
    have hsought := @Handle.seek_spec h seekPos
    have hcontent := Handle.seek_content h seekPos
    rw [hseek] at hsought hcontent
    cases sought with
    | error e => exact ⟨hcontent, fun relpos hfound => by cases hfound⟩
    | ok u =>
      obtain ⟨-, hpos⟩ := hsought rfl
      have hread := fun bytes => @Handle.read_spec h₁ readSize bytes
      have hcontent' := Handle.read_content h₁ readSize
      cases hr : h₁.read readSize with
      | mk result h₂ =>
        rw [hr] at hread hcontent'
        simp only [hr]
        cases result with
        | error e => exact ⟨hcontent'.trans hcontent, fun relpos hfound => by cases hfound⟩
        | ok buf =>
          obtain ⟨n, hle, rfl, -⟩ := hread buf rfl
          refine ⟨hcontent'.trans hcontent, fun relpos hfound => ?_⟩
          have hget := rposition_eq_some hfound
          have hlt := (List.getElem?_eq_some_iff.mp hget).1
          rw [List.length_take] at hlt
          have hltn : relpos < n := by omega
          rw [List.getElem?_take_of_lt hltn, List.getElem?_drop, hpos, hcontent] at hget
          exact ⟨by omega, hget⟩

/-- The search ends the frame after a newline of its window, or at the end of the window. -/
theorem searchDelim_spec {start stop : Nat} (h : Handle) {pos : Nat} (hp : pos ≤ stop) :
    (searchDelim h start stop pos).2.content = h.content ∧
      (searchDelim h start stop pos).1 ≤ stop ∧
      ((searchDelim h start stop pos).1 = stop ∨
        h.content[(searchDelim h start stop pos).1 - 1]? = some newline) := by
  induction pos using Nat.strong_induction_on generalizing h with
  | _ pos ih =>
    by_cases hlt : start < pos
    · have hcheck := checkSize_pos
      obtain ⟨hcontent, hfound⟩ := searchWindow_spec h (pos - min checkSize (pos - start))
        (min checkSize (pos - start))
      rw [searchDelim_step hlt]
      generalize hw : searchWindow h (pos - min checkSize (pos - start))
        (min checkSize (pos - start)) = out at hcontent hfound
      obtain ⟨found, h'⟩ := out
      cases found with
      | some relpos =>
        obtain ⟨hrel, hget⟩ := hfound relpos rfl
        refine ⟨hcontent, ?_, .inr hget⟩
        simp only
        omega
      | none =>
        have hlow : pos - min checkSize (pos - start) < pos := by omega
        have ih := ih _ hlow h' (Nat.le_of_lt (hlow.trans_le hp))
        rw [show h'.content = h.content from hcontent] at ih
        exact ih
    · rw [searchDelim_done hlt]
      exact ⟨rfl, Nat.le_refl _, .inl rfl⟩

/-- A frame whose window ends before the file does ends where the search says. -/
theorem frameEnd_interior {maxFrame total : Nat} {h : Handle} {start : Nat}
    (hin : start + maxFrame < total) :
    frameEnd maxFrame total h start =
      searchDelim h start (start + maxFrame) (start + maxFrame) := by
  simp only [frameEnd, Nat.min_eq_left (Nat.le_of_lt hin), hin, if_true]

/-- The last frame ends with the file. -/
theorem frameEnd_last {maxFrame total : Nat} {h : Handle} {start : Nat}
    (hlast : ¬ start + maxFrame < total) : frameEnd maxFrame total h start = (total, h) := by
  simp only [frameEnd, Nat.min_eq_right (Nat.le_of_not_lt hlast), Nat.lt_irrefl, if_false]

theorem frameEnd_le {maxFrame total : Nat} {h : Handle} {start : Nat} :
    (frameEnd maxFrame total h start).1 ≤ min (start + maxFrame) total := by
  by_cases hin : start + maxFrame < total
  · rw [frameEnd_interior hin, Nat.min_eq_left (Nat.le_of_lt hin)]
    exact (searchDelim_spec h (Nat.le_refl _)).2.1
  · rw [frameEnd_last hin, Nat.min_eq_right (Nat.le_of_not_lt hin)]

/-! ## Tiles -/

/-- The frames follow each other from `start` to `stop`. -/
def Tiles : Nat → Nat → List FrameRange → Prop
  | start, stop, [] => start = stop
  | start, stop, range :: ranges => range.start = start ∧ Tiles (start + range.len) stop ranges

theorem Tiles.le {start stop : Nat} {ranges : List FrameRange} (h : Tiles start stop ranges) :
    start ≤ stop := by
  induction ranges generalizing start with
  | nil => exact Nat.le_of_eq h
  | cons range ranges ih => exact (Nat.le_add_right _ _).trans (ih h.2)

theorem Tiles.start_le {start stop : Nat} {ranges : List FrameRange} (h : Tiles start stop ranges)
    {range : FrameRange} (hrange : range ∈ ranges) : start ≤ range.start := by
  induction ranges generalizing start with
  | nil => cases hrange
  | cons first ranges ih =>
    obtain ⟨rfl, hrest⟩ := h
    rcases List.mem_cons.mp hrange with rfl | hrange
    · exact Nat.le_refl _
    · exact (Nat.le_add_right _ _).trans (ih hrest hrange)

/-- The texts of frames that follow each other are the content between their ends. -/
theorem Tiles.flatten_texts {start stop : Nat} {ranges : List FrameRange}
    (h : Tiles start stop ranges) (content : Bytes) :
    (ranges.map fun range => (content.drop range.start).take range.len).flatten =
      (content.drop start).take (stop - start) := by
  induction ranges generalizing start with
  | nil =>
    obtain rfl : start = stop := h
    simp
  | cons range ranges ih =>
    obtain ⟨rfl, hrest⟩ := h
    have hle := hrest.le
    rw [List.map_cons, List.flatten_cons, ih hrest, ← List.drop_drop, ← List.take_add]
    congr 1
    omega

/-- The frames of a file without a seek table follow each other up to its end. None is empty
or longer than a window. -/
theorem framesFrom_tiles {maxFrame total : Nat} (hm : 0 < maxFrame) (h : Handle) (idx : Nat)
    {start : Nat} (hs : start ≤ total) :
    Tiles start total (framesFrom maxFrame total hm h idx start).1 ∧
      ∀ range ∈ (framesFrom maxFrame total hm h idx start).1,
        1 ≤ range.len ∧ range.len ≤ maxFrame := by
  fun_induction framesFrom maxFrame total hm h idx start with
  | case1 h idx start hlt found rest ih =>
    have hend : start < found.1 := lt_frameEnd hm hlt
    have hle : found.1 ≤ min (start + maxFrame) total := frameEnd_le
    obtain ⟨htiles, hlens⟩ := ih (hle.trans (Nat.min_le_right _ _))
    refine ⟨⟨rfl, ?_⟩, ?_⟩
    · rw [Nat.add_sub_cancel' (Nat.le_of_lt hend)]
      exact htiles
    · intro range hrange
      rcases List.mem_cons.mp hrange with rfl | hrange
      · simp only
        omega
      · exact hlens range hrange
  | case2 h idx start hnot =>
    refine ⟨Nat.le_antisymm hs (Nat.le_of_not_lt hnot), ?_⟩
    intro range hrange
    cases hrange

/-- A file without a seek table that is not empty has the frames of the loop. -/
theorem framesFromSeekable_plain {file : SeekableVfsFile} {total : Nat}
    (hsize : file.size = .ok total) (hpos : 0 < total) (htable : file.seekTableDecompFrames = none)
    (search : Handle) :
    framesFromSeekable file search =
      (some (framesFrom maxFrameSize total maxFrameSize_pos search 0 0).1,
        (framesFrom maxFrameSize total maxFrameSize_pos search 0 0).2) := by
  unfold framesFromSeekable
  simp only [htable, hsize, Nat.ne_of_gt hpos, if_false]

/-! ## Seek tables -/

/-- A `SeekTable`: what `frame_end_decomp` gives for each of its frames. -/
structure SeekTable where
  frameEndDecomp : List (Except IoError Nat)

/-- The loop of `seek_table_decomp_frames`: the start and length of every frame. -/
def decompFrames (prevEnd : Nat) : List (Except IoError Nat) → Option (List (Nat × Nat))
  | [] => some []
  | .error _ :: _ => none
  | .ok stop :: ends => (decompFrames stop ends).map ((prevEnd, stop - prevEnd) :: ·)

/-- `LocalSeekableZstdFile::seek_table_decomp_frames`. -/
def SeekTable.decompFrames (table : SeekTable) : Option (List (Nat × Nat)) :=
  if table.frameEndDecomp = [] then none else PolarsLogfmt.decompFrames 0 table.frameEndDecomp

/-- `frames_from_seekable_with_seekable_zst`, from frame number `idx` on. -/
theorem tiles_mapIdx {prevEnd : Nat} {ends : List Nat}
    (hsorted : (prevEnd :: ends).Pairwise (· ≤ ·)) (idx : Nat) :
    ∃ frames, decompFrames prevEnd (ends.map .ok) = some frames ∧
      Tiles prevEnd (ends.getLastD prevEnd)
        (frames.mapIdx fun i (start, len) => { idx := i + idx, start := start, len := len }) := by
  induction ends generalizing prevEnd idx with
  | nil => exact ⟨[], rfl, rfl⟩
  | cons stop ends ih =>
    rw [List.pairwise_cons] at hsorted
    obtain ⟨frames, hframes, htiles⟩ := ih hsorted.2 (idx + 1)
    have hle : prevEnd ≤ stop := hsorted.1 stop List.mem_cons_self
    refine ⟨(prevEnd, stop - prevEnd) :: frames, ?_, ?_⟩
    · rw [List.map_cons, decompFrames, hframes]
      rfl
    · rw [List.mapIdx_cons]
      refine ⟨rfl, ?_⟩
      simp only [Nat.add_sub_cancel' hle, List.getLastD_cons]
      have hshift : (fun (i : Nat) (p : Nat × Nat) =>
          ({ idx := i + (idx + 1), start := p.1, len := p.2 } : FrameRange)) =
          fun i p => { idx := i + 1 + idx, start := p.1, len := p.2 } := by
        funext i p
        rw [Nat.add_assoc i 1 idx, Nat.add_comm 1 idx]
      rwa [hshift] at htiles

end PolarsLogfmt
