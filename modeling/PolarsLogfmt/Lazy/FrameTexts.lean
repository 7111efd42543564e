import PolarsLogfmt.Lazy.Chunks

/-!
# The texts of the frames

A handle that reads a frame without an error reads its text, however short the single
reads are, so the lines of the chunks of a source are the lines of its frames.
-/

namespace PolarsLogfmt

/-! ## Handles -/

namespace Handle

/-- A read returns a piece of the content and moves on by its length; it returns nothing
only at the end. -/
theorem read_spec {h : Handle} {len : Nat} {bytes : Bytes} (hb : (h.read len).1 = .ok bytes) :
    ∃ n ≤ len, bytes = (h.content.drop h.pos).take n ∧ (0 < len → 0 < n) ∧
      (h.read len).2.content = h.content ∧ (h.read len).2.pos = h.pos + bytes.length := by
  unfold read at hb ⊢
  split at hb
  · cases hb
  · rename_i most replies hr
    cases hb
    exact ⟨min len (most + 1), Nat.min_le_left _ _, rfl, fun hl => by omega, rfl, rfl⟩
  · rename_i hr
    cases hb
    exact ⟨min len len, Nat.min_le_left _ _, rfl, fun hl => by omega, rfl, rfl⟩

theorem seek_spec {h : Handle} {pos : Nat} (hs : (h.seek pos).1 = .ok ()) :
    (h.seek pos).2.content = h.content ∧ (h.seek pos).2.pos = pos := by
  unfold seek at hs ⊢
  split at hs
  · cases hs
  · exact ⟨rfl, rfl⟩

theorem seek_content (h : Handle) (pos : Nat) : (h.seek pos).2.content = h.content := by
  unfold seek
  split
  · rfl
  · rfl

theorem read_content (h : Handle) (len : Nat) : (h.read len).2.content = h.content := by
  unfold read
  simp only
  split
  · rfl
  · rfl
  · rfl

end Handle

/-- The buffer is filled with the bytes that follow, as far as there are any. -/
theorem fillBuf_spec {h : Handle} {len : Nat} {got bytes : Bytes}
    (hb : (fillBuf h len got).1 = .ok bytes) :
    bytes = got ++ (h.content.drop h.pos).take (len - got.length) ∧
      (fillBuf h len got).2.content = h.content := by
  fun_induction fillBuf h len got with
  | case1 h got hn e hr => cases hb
  | case2 h got hn hr =>
    cases hb
    obtain ⟨n, -, hnil, hpos, hcontent, -⟩ := Handle.read_spec hr
    have hend : h.content.drop h.pos = [] := by
      have := hpos (Nat.sub_pos_of_lt hn)
      rcases List.take_eq_nil_iff.mp hnil.symm with h0 | h0
      · omega
      · exact h0
    rw [hend]
    exact ⟨by simp, hcontent⟩
  | case3 h got hn bytes' hr hne ih =>
    obtain ⟨hbytes, hcontent⟩ := ih hb
    obtain ⟨n, hle, hpiece, -, hcontent', hpos'⟩ := Handle.read_spec hr
    refine ⟨?_, hcontent.trans hcontent'⟩
    have hdrop : (h.content.drop h.pos).take (len - got.length) =
        bytes' ++ (h.content.drop (h.pos + bytes'.length)).take
          (len - (got ++ bytes').length) := by
      rw [← List.drop_drop, List.length_append, ← Nat.sub_sub]
      generalize h.content.drop h.pos = rest at hpiece
      subst hpiece
      rw [List.length_take]
      rcases Nat.le_total n rest.length with hr | hr
      · rw [Nat.min_eq_left hr, ← List.take_add, Nat.add_sub_cancel' hle]
      · rw [Nat.min_eq_right hr, List.drop_length, List.take_nil, List.append_nil,
          List.take_of_length_le (hr.trans hle), List.take_of_length_le hr]
    rw [hbytes, hcontent', hpos', hdrop, List.append_assoc]
  | case4 h got hn =>
    cases hb
    rw [Nat.sub_eq_zero_of_le (Nat.le_of_not_lt hn)]
    simp

/-! ## Frames -/

/-- The text of a frame as a handle on the file, or the units, has it. -/
def FrameHandle.frameText : FrameHandle → FrameRange → Bytes
  | .file h, range => (h.content.drop range.start).take range.len
  | .units u, range =>
      match u.units[range.idx]? with
      | some (.ok text) => text
      | _ => []

/-- The text of a frame of the source. -/
def FrameOrigin.frameText : FrameOrigin → FrameRange → Bytes
  | .file f, range => (f.content.drop range.start).take range.len
  | .units u, range => FrameHandle.frameText (.units u) range

theorem FrameOrigin.frameText_cloneHandle {origin : FrameOrigin} {w : Nat} {handle : FrameHandle}
    (h : origin.cloneHandle w = .ok handle) : handle.frameText = origin.frameText := by
  cases origin with
  | file f =>
    simp only [cloneHandle, SeekableVfsFile.cloneHandle] at h
    cases hr : f.replies (.worker w) with
    | error e =>
      rw [hr] at h
      cases h
    | ok replies =>
      rw [hr] at h
      cases h
      rfl
  | units u =>
    cases h
    rfl

/-- A frame that is read is its text, and the handle goes on to read the same texts. -/
theorem FrameHandle.readFrame_spec {handle handle' : FrameHandle} {range : FrameRange}
    {found : Option (Nat × Bytes)}
    (h : FrameBytes.readFrame handle range = (.ok found, handle')) :
    (found.map Prod.snd).getD [] = handle.frameText range ∧
      handle'.frameText = handle.frameText := by
  cases handle with
  | units u =>
    simp only [FrameBytes.readFrame, UnitSource.readUnit] at h
    obtain ⟨hfound, rfl⟩ := Prod.mk.inj h
    refine ⟨?_, rfl⟩
    simp only [frameText]
    cases hu : u.units[range.idx]? with
    | none =>
      rw [hu] at hfound
      cases hfound
      rfl
    | some unit =>
      rw [hu] at hfound
      cases unit with
      | error e => cases hfound
      | ok text =>
        cases hfound
        rfl
  | file file =>
    simp only [FrameBytes.readFrame] at h
    by_cases hlen : range.len = 0
    · simp only [hlen, if_true, Prod.mk.injEq] at h
      obtain ⟨hfound, rfl⟩ := h
      cases hfound
      simp [frameText, hlen]
    · simp only [hlen, if_false] at h
      cases hseek : file.seek range.start with
      | mk sought file' =>
        rw [hseek] at h
        cases sought with
        | error e =>
          simp only [Prod.mk.injEq] at h
          cases h.1
        | ok u =>
          obtain ⟨hcontent, hpos⟩ := @Handle.seek_spec file range.start (by rw [hseek])
          rw [hseek] at hcontent hpos
          simp only [Prod.mk.injEq] at h hcontent hpos
          obtain ⟨hfound, rfl⟩ := h
          cases hfill : (fillBuf file' range.len []).1 with
          | error e =>
            rw [hfill] at hfound
            cases hfound
          | ok bytes =>
            rw [hfill] at hfound
            cases hfound
            obtain ⟨hbytes, hcontent'⟩ := fillBuf_spec hfill
            refine ⟨?_, ?_⟩
            · simpa [frameText, hcontent, hpos] using hbytes
            · funext r
              simp only [frameText, hcontent', hcontent]

/-! ## The lines of a chunk -/

/-- The accepted lines of a text. -/
def acceptedLines (lineFilter : Option LineFilterFn) (text : Bytes) : List Bytes :=
  (Lines.split newline text).filter (accepts lineFilter)

/-- The lines of a valid text are valid. -/
theorem checkLine_of_valid {text line : Bytes} (h : Utf8.Valid text)
    (hline : line ∈ Lines.split newline text) : checkLine line = .ok line := by
  have hd : '\n'.toNat < 128 := by decide
  exact if_pos (Utf8.valid_of_mem_split hd h hline)

theorem checkLine_eq_ok {line line' : Bytes} (h : checkLine line = .ok line') : line' = line := by
  unfold checkLine at h
  split at h
  · cases h
    rfl
  · cases h

/-- Lines that were handed over are the lines of the text. -/
theorem map_checkLine_eq_map_ok {pieces lines : List Bytes}
    (h : pieces.map checkLine = lines.map Except.ok) : pieces = lines := by
  induction pieces generalizing lines with
  | nil => exact (List.map_eq_nil_iff.mp h.symm).symm
  | cons piece pieces ih =>
    cases lines with
    | nil => cases h
    | cons line lines =>
      rw [List.map_cons, List.map_cons] at h
      obtain ⟨hpiece, hpieces⟩ := List.cons.inj h
      rw [checkLine_eq_ok hpiece, ih hpieces]

theorem map_line_frameLines {lineFilter : Option LineFilterFn} {frame number : Nat}
    {lines : List Bytes} (h : (frameLines lineFilter frame (lines.map checkLine) number).2 = none) :
    (frameLines lineFilter frame (lines.map checkLine) number).1.map PushedLine.line =
      lines.filter (accepts lineFilter) := by
  induction lines generalizing number with
  | nil => rfl
  | cons line lines ih =>
    rw [List.map_cons] at h ⊢
    cases hc : checkLine line with
    | error e =>
      rw [hc] at h
      cases h
    | ok line' =>
      obtain rfl := checkLine_eq_ok hc
      rw [hc] at h
      simp only [frameLines] at h ⊢
      have ih := ih h
      by_cases hacc : accepts lineFilter line'
      · rw [if_pos hacc, List.map_cons, ih, List.filter_cons_of_pos hacc]
      · rw [if_neg hacc, ih, List.filter_cons_of_neg hacc]

/-- A chunk that is read to its end has the accepted lines of its frames. -/
theorem map_line_workerLines {lineFilter : Option LineFilterFn} {ranges : List FrameRange}
    {handle : FrameHandle} (h : (workerLines lineFilter ranges handle).2 = none) :
    (workerLines lineFilter ranges handle).1.map PushedLine.line =
      ranges.flatMap fun range => acceptedLines lineFilter (handle.frameText range) := by
  induction ranges generalizing handle with
  | nil => rfl
  | cons range ranges ih =>
    rw [workerLines] at h ⊢
    cases hr : FrameBytes.readFrame handle range with
    | mk read handle' =>
      rw [hr] at h
      cases read with
      | error e => cases h
      | ok found =>
        obtain ⟨htext, hsame⟩ := FrameHandle.readFrame_spec hr
        simp only [htext] at h ⊢
        have hlines := @map_line_frameLines lineFilter range.idx 0
          (Lines.split newline (handle.frameText range))
        rw [← textLines] at hlines
        cases hf : frameLines lineFilter range.idx (textLines (handle.frameText range)) 0 with
        | mk lines stop =>
          rw [hf] at h hlines
          cases stop with
          | some e => cases h
          | none =>
            rw [List.map_append, hlines rfl, ih h, hsame, List.flatMap_cons]
            rfl

theorem FrameOrigin.map_line_chunkLines {origin : FrameOrigin} {lineFilter : Option LineFilterFn}
    {chunk : Nat × List FrameRange} (h : (origin.chunkLines lineFilter chunk).2 = none) :
    (origin.chunkLines lineFilter chunk).1.map PushedLine.line =
      chunk.2.flatMap fun range => acceptedLines lineFilter (origin.frameText range) := by
  unfold chunkLines at h ⊢
  cases hc : origin.cloneHandle chunk.1 with
  | error e =>
    rw [hc] at h
    cases h
  | ok handle =>
    rw [hc] at h
    rw [← frameText_cloneHandle hc]
    exact map_line_workerLines h

/-- The accepted lines of frames of whole lines are those of the text they cut. -/
theorem flatMap_acceptedLines {lineFilter : Option LineFilterFn} {texts : List Bytes}
    (h : Lines.Whole newline texts) :
    texts.flatMap (acceptedLines lineFilter) = acceptedLines lineFilter texts.flatten := by
  rw [acceptedLines, Lines.split_flatten h, List.filter_flatMap]
  rfl

end PolarsLogfmt
