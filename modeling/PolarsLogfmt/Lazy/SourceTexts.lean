import PolarsLogfmt.Lazy.FrameTexts
import PolarsLogfmt.Lazy.Scan

/-!
# Sources of a text

A source delivers a text when no call on it fails. However it cuts the text, and however
short its reads are, the sequential path then reads the lines of the text, and the
schema is inferred from them.
-/

namespace PolarsLogfmt

/-! ## Handles that do not fail -/

namespace Handle

/-- No call on the handle fails; reads may come up short. -/
def Sound (h : Handle) : Prop := ∀ e, Reply.error e ∉ h.replies

theorem read_sound {h : Handle} (hs : h.Sound) (len : Nat) :
    ∃ bytes, (h.read len).1 = .ok bytes ∧ (h.read len).2.Sound := by
  unfold Sound at hs ⊢
  unfold read
  cases hr : h.replies with
  | nil => exact ⟨_, rfl, by simp⟩
  | cons r replies =>
    rw [hr] at hs
    cases r with
    | error e => exact absurd List.mem_cons_self (hs e)
    | short most => exact ⟨_, rfl, fun e he => hs e (List.mem_cons_of_mem _ he)⟩

theorem seek_sound {h : Handle} (hs : h.Sound) (pos : Nat) :
    (h.seek pos).1 = .ok () ∧ (h.seek pos).2.Sound := by
  unfold Sound at hs ⊢
  unfold seek
  cases hr : h.replies with
  | nil => exact ⟨rfl, by simp⟩
  | cons r replies =>
    rw [hr] at hs
    cases r with
    | error e => exact absurd List.mem_cons_self (hs e)
    | short most => exact ⟨rfl, fun e he => hs e (List.mem_cons_of_mem _ he)⟩

/-- A `BufReader` gets the rest of the file, in pieces. -/
theorem chunks_sound {h : Handle} (hs : h.Sound) :
    ∃ pieces : List Bytes, h.chunks = pieces.map .ok ∧ pieces.flatten = h.content.drop h.pos := by
  fun_induction chunks h with
  | case1 h e hr =>
    obtain ⟨bytes, hb, -⟩ := read_sound hs bufSize
    rw [hb] at hr
    cases hr
  | case2 h hr =>
    obtain ⟨n, -, hnil, hpos, -⟩ := read_spec hr
    refine ⟨[], rfl, ?_⟩
    have hn : 0 < n := hpos (by norm_num [bufSize])
    rcases List.take_eq_nil_iff.mp hnil.symm with h0 | h0
    · omega
    · exact h0.symm
  | case3 h bytes hr hb ih =>
    obtain ⟨-, -, hsound⟩ := read_sound hs bufSize
    obtain ⟨pieces, hpieces, hflat⟩ := ih hsound
    obtain ⟨n, -, hbytes, -, hcontent, hpos⟩ := read_spec hr
    refine ⟨bytes :: pieces, by rw [hpieces]; rfl, ?_⟩
    rw [List.flatten_cons, hflat, hcontent, hpos, ← List.drop_drop]
    generalize h.content.drop h.pos = rest at hbytes
    subst hbytes
    rw [List.length_take]
    rcases Nat.le_total n rest.length with hle | hle
    · rw [Nat.min_eq_left hle, List.take_append_drop]
    · rw [Nat.min_eq_right hle, List.drop_length, List.append_nil, List.take_of_length_le hle]

end Handle

/-- Every handle on the file works. -/
def SeekableVfsFile.Sound (file : SeekableVfsFile) : Prop :=
  ∀ use, ∃ handle, file.cloneHandle use = .ok handle ∧ handle.Sound

theorem SeekableVfsFile.content_cloneHandle {file : SeekableVfsFile} {use : HandleUse}
    {handle : Handle} (h : file.cloneHandle use = .ok handle) :
    handle.content = file.content ∧ handle.pos = 0 := by
  unfold cloneHandle at h
  cases hr : file.replies use with
  | error e =>
    rw [hr] at h
    cases h
  | ok replies =>
    rw [hr] at h
    cases h
    exact ⟨rfl, rfl⟩

/-! ## Streams of a text -/

theorem chunkLines_pieces (pending : Bytes) (pieces : List Bytes) :
    chunkLines pending (pieces.map .ok) = textLines (pending ++ pieces.flatten) := by
  induction pieces generalizing pending with
  | nil => simp [chunkLines]
  | cons piece pieces ih =>
    rw [List.map_cons, chunkLines, ih, List.flatten_cons, List.append_assoc]

theorem unitLines_units (pending : Bytes) (units : List Bytes) :
    unitLines pending (units.map .ok) = .ofBytes (pending ++ units.flatten) := by
  induction units generalizing pending with
  | nil => simp [unitLines, LineReader.ofBytes]
  | cons unit units ih =>
    rw [List.map_cons, unitLines, ih, List.flatten_cons, List.append_assoc]

theorem Handle.lineReader_sound {h : Handle} (hs : h.Sound) :
    h.lineReader = .ofBytes (h.content.drop h.pos) := by
  obtain ⟨pieces, hpieces, hflat⟩ := chunks_sound hs
  rw [lineReader, hpieces, chunkLines_pieces, hflat]
  rfl

/-- The source delivers the text: nothing fails. It may cut the text anywhere. -/
def LogFmtSource.Delivers (text : Bytes) : LogFmtSource → Prop
  | .cursor content => content = text
  | .ssh connect => connect = .ok (.ofBytes text)
  | .seekable file => file.content = text ∧ file.Sound
  | .units source => ∃ texts : List Bytes, source.units = texts.map .ok ∧ texts.flatten = text

namespace LogFmtSource.Delivers

variable {text : Bytes} {source : LogFmtSource}

theorem cloneHandle {file : SeekableVfsFile} (h : Delivers text (.seekable file))
    (use : HandleUse) :
    ∃ handle, file.cloneHandle use = .ok handle ∧ handle.lineReader = .ofBytes text := by
  obtain ⟨hcontent, hsound⟩ := h
  obtain ⟨handle, hclone, hs⟩ := hsound use
  obtain ⟨hc, hpos⟩ := SeekableVfsFile.content_cloneHandle hclone
  refine ⟨handle, hclone, ?_⟩
  rw [Handle.lineReader_sound hs, hc, hpos, hcontent, List.drop_zero]

theorem unitsReader {units : UnitSource} (h : Delivers text (.units units)) :
    units.lineReader = .ofBytes text := by
  obtain ⟨texts, hunits, hflat⟩ := h
  rw [UnitSource.lineReader, hunits, unitLines_units, List.nil_append, hflat]

end LogFmtSource.Delivers

variable [Crates]

/-- The stream of the sequential path is the text. -/
theorem LazyLogFmtReader.openReader_delivers {self : LazyLogFmtReader} {text : Bytes}
    (h : self.source.Delivers text) : self.openReader = .ok (.ofBytes text) := by
  unfold openReader
  cases hs : self.source with
  | cursor content =>
    rw [hs] at h
    rw [show content = text from h]
  | ssh connect =>
    rw [hs] at h
    rw [show connect = .ok (.ofBytes text) from h]
    rfl
  | seekable file =>
    rw [hs] at h
    obtain ⟨handle, hclone, hreader⟩ := h.cloneHandle .lines
    simp only [hclone, hreader]
  | units units =>
    rw [hs] at h
    simp only [h.unitsReader]

/-! ## Schema inference -/

/-- The loop of `infer_schema_from_reader` has read the first lines of the stream. -/
theorem inferLoop_consumed {lineFilter : Option LineFilterFn} {nRows : Nat} {lines : List Bytes}
    {st out : InferState} {rest : List (Except IoError Bytes)}
    (h : inferLoop lineFilter nRows none (lines.map checkLine) st = (.ok out, rest)) :
    ∃ taken left, lines = taken ++ left ∧ out.consumed = st.consumed ++ taken.flatten ∧
      rest = left.map checkLine := by
  obtain ⟨taken, hlines, hout, -⟩ := inferLoop_taken h
  obtain ⟨taken', left, hsplit, htaken, hleft⟩ := List.map_eq_append_iff.mp hlines
  obtain rfl := map_checkLine_eq_map_ok htaken
  refine ⟨taken', left, hsplit, ?_, hleft.symm⟩
  rw [hout, InferState.foldl_consumed]

/-- Reading on after the lines consumed is reading from the start. -/
theorem chain_consumed {text consumed : Bytes} {lineFilter : Option LineFilterFn} {nRows : Nat}
    {schema : Option Schema} {rest : LineReader}
    (h : inferSchemaFromReader (.ofBytes text) lineFilter nRows = (.ok (schema, consumed), rest)) :
    LineReader.chain consumed rest = .ofBytes text := by
  unfold inferSchemaFromReader at h
  simp only [Prod.mk.injEq] at h
  obtain ⟨hloop, rfl⟩ := h
  cases hresult : inferLoop lineFilter nRows none (textLines text) {} with
  | mk result left =>
    rw [show (LineReader.ofBytes text).stuck = none from rfl,
      show (LineReader.ofBytes text).lines = textLines text from rfl, hresult] at hloop ⊢
    cases result with
    | error e => cases hloop
    | ok out =>
      obtain ⟨-, rfl⟩ : schema = out.schema ∧ out.consumed = consumed := by
        cases hloop
        exact ⟨rfl, rfl⟩
      obtain ⟨taken, left', hsplit, hconsumed, rfl⟩ := inferLoop_consumed hresult
      obtain ⟨hpieces, hend⟩ := Lines.split_prefix hsplit
      rw [List.nil_append] at hconsumed
      unfold LineReader.chain
      rw [hconsumed, hpieces]
      unfold LineReader.ofBytes textLines
      rw [hsplit, List.map_append]
      by_cases hcut : taken.flatten.getLast? = some newline ∨ taken.flatten = []
      · simp only [hcut, if_true]
      · -- an unfinished last line is the last line of the text
        have hleft : left' = [] := by
          by_contra hne
          exact hcut (hend hne).symm
        subst hleft
        rw [if_neg hcut]
        have hne : taken ≠ [] := by
          rintro rfl
          exact hcut (.inr rfl)
        simp only [List.map_nil, List.append_nil]
        conv_rhs => rw [← List.dropLast_append_getLast hne, List.map_append, List.map_singleton]
        rw [List.getLast?_eq_some_getLast hne, Option.getD_some]

/-- Where a scan goes on after inferring its schema: an ssh source is not opened again. -/
def LogFmtSource.resumed (text : Bytes) : LogFmtSource → Option LineReader
  | .ssh _ => some (.ofBytes text)
  | _ => none

/-- The schema is inferred from the text. -/
theorem inferSchemaFromSource_delivers {source : LogFmtSource} {text : Bytes}
    (h : source.Delivers text) (lineFilter : Option LineFilterFn) (nRows : Nat) :
    inferSchemaFromSource source lineFilter nRows =
      (inferSchemaFromReader (.ofBytes text) lineFilter nRows).1.map fun found =>
        (found.1, source.resumed text) := by
  unfold inferSchemaFromSource
  cases hr : inferSchemaFromReader (.ofBytes text) lineFilter nRows with
  | mk result rest =>
    cases source with
    | cursor content =>
      obtain rfl : content = text := h
      simp only [hr]
      cases result with
      | error e => rfl
      | ok found => rfl
    | ssh connect =>
      obtain rfl : connect = .ok (.ofBytes text) := h
      simp only [hr]
      cases result with
      | error e => rfl
      | ok found =>
        simp only [chain_consumed hr]
        rfl
    | seekable file =>
      obtain ⟨handle, hclone, hreader⟩ := h.cloneHandle .infer
      simp only [hclone, hreader, hr]
      cases result with
      | error e => rfl
      | ok found => rfl
    | units units =>
      simp only [h.unitsReader, hr]
      cases result with
      | error e => rfl
      | ok found => rfl

end PolarsLogfmt
