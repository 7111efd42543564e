import PolarsLogfmt.Lazy.FrameSearch
import PolarsLogfmt.Lazy.InferText

/-!
# Where the schema is inferred from

The parallel attempt reads the schema from the handle the frames were searched with,
`predict_schema_from_first_line` rewinds it first, and `infer_schema_from_source` takes a
handle of its own.
-/

namespace PolarsLogfmt

/-! ## The probe -/

/-- The search for the frames leaves a handle that does not fail as one, on the same file. It
does not move it when the file has a seek table or fits into one frame, and leaves it behind
the first byte otherwise. -/
theorem framesFromSeekable_handle {file : SeekableVfsFile} {probe : Handle} (hs : probe.Sound)
    (hcontent : probe.content = file.content) (hpos : probe.pos = 0)
    (hsize : file.size = .ok file.content.length) :
    (framesFromSeekable file probe).2.Sound ∧
      (framesFromSeekable file probe).2.content = file.content ∧
      ((framesFromSeekable file probe).2.pos = 0 ↔
        file.seekTableDecompFrames ≠ none ∨ file.content.length ≤ maxFrameSize) := by
  cases htable : file.seekTableDecompFrames with
  | some frames =>
    unfold framesFromSeekable
    rw [htable]
    exact ⟨hs, hcontent, iff_of_true hpos (.inl (by simp))⟩
  | none =>
    rcases Nat.eq_zero_or_pos file.content.length with hzero | hsome
    · unfold framesFromSeekable
      simp only [htable, hsize, hzero, if_true]
      exact ⟨hs, hcontent, iff_of_true hpos (.inr (Nat.zero_le _))⟩
    · obtain ⟨hsound, hsame, hstay, hmoved⟩ := framesFrom_handle maxFrameSize_pos hs
        (Nat.le_of_eq (congrArg List.length hcontent.symm)) 0 0
      rw [framesFromSeekable_plain hsize hsome htable]
      refine ⟨hsound, hsame.trans hcontent, ?_⟩
      simp only [Nat.zero_add] at hstay hmoved
      constructor
      · intro h0
        right
        by_contra hlong
        exact absurd h0 (Nat.ne_of_gt (hmoved (.inl (Nat.lt_of_not_le hlong))))
      · intro h
        rw [hstay (Nat.not_lt.mpr (h.resolve_left (by simp)))]
        exact hpos

/-- Only an empty file has no frames. -/
theorem content_of_no_frames {file : SeekableVfsFile} {probe : Handle}
    (hsize : file.size = .ok file.content.length) (h : (framesFromSeekable file probe).1 = none) :
    file.content = [] := by
  unfold framesFromSeekable at h
  split at h
  · cases h
  · simp only [hsize] at h
    split at h
    · exact List.length_eq_zero_iff.mp ‹_›
    · cases h

section

variable [Crates]

/-! ## The entry points -/

/-- The parallel attempt, the prediction from the first line and the inference from the source
give the schema of the content. -/
structure InferencesAgree (reader : LazyLogFmtReader) (scanOpts : AnonymousScanArgs)
    (sched : Schedule) (content : Bytes) : Prop where
  parallel : (reader.parallelBatch scanOpts none sched).1 = inferredSchema reader content
  predicted : reader.predictSchemaFromFirstLine reader.inferSchemaLength =
    (inferFromText reader content).mapError .computeError
  source :
    (inferSchemaFromSource reader.source reader.lineFilter reader.inferSchemaLength).map Prod.fst =
      inferFromText reader content

section

variable {self : LazyLogFmtReader} {file : SeekableVfsFile}

/-- The parallel attempt infers the schema of what follows the position of its probe. -/
theorem parallelBatch_infers (hsource : self.source = .seekable file)
    (hsize : file.size = .ok file.content.length) {probe : Handle}
    (hprobe : file.cloneHandle .frames = .ok probe) (hs : probe.Sound)
    (scanOpts : AnonymousScanArgs) (sched : Schedule) :
    (self.parallelBatch scanOpts none sched).1 =
      inferredSchema self (file.content.drop (framesFromSeekable file probe).2.pos) := by
  obtain ⟨hcontent, hpos⟩ := SeekableVfsFile.content_cloneHandle hprobe
  obtain ⟨hsound, hsame, -⟩ := framesFromSeekable_handle hs hcontent hpos hsize
  have horigin : self.parallelOrigin =
      (framesFromSeekable file probe).1.map fun frames =>
        (.file file, frames, (framesFromSeekable file probe).2.lineReader) := by
    unfold LazyLogFmtReader.parallelOrigin
    rw [hsource]
    simp only [hprobe]
    cases framesFromSeekable file probe with
    | mk frames probe' => cases frames <;> rfl
  have hreader := Handle.lineReader_sound hsound
  rw [hsame] at hreader
  unfold LazyLogFmtReader.parallelBatch
  rw [horigin, hreader]
  cases hframes : (framesFromSeekable file probe).1 with
  | none =>
    -- without frames the file is empty
    rw [content_of_no_frames hsize hframes, List.drop_nil]
    unfold inferredSchema
    rw [inferFromText_nil]
    rfl
  | some frames =>
    simp only [Option.map_some, Option.isNone_none, if_true, predictSchemaFromHandle_eq]
    unfold inferredSchema
    cases inferFromText self (file.content.drop (framesFromSeekable file probe).2.pos) with
    | error e => rfl
    | ok schema =>
      simp only [Except.mapError, Option.none_or]
      split <;> rfl

/-- The prediction infers the schema of the content: it rewinds the handle. -/
theorem predictSchema_infers (hsource : self.source = .seekable file) (hfile : file.Sound)
    (hsize : file.size = .ok file.content.length) :
    self.predictSchemaFromFirstLine self.inferSchemaLength =
      (inferFromText self file.content).mapError .computeError := by
  obtain ⟨probe, hprobe, hs⟩ := hfile .predict
  obtain ⟨hcontent, hpos⟩ := SeekableVfsFile.content_cloneHandle hprobe
  obtain ⟨hsound, hsame, -⟩ := framesFromSeekable_handle hs hcontent hpos hsize
  unfold LazyLogFmtReader.predictSchemaFromFirstLine
  rw [hsource]
  simp only [hprobe]
  cases hframes : framesFromSeekable file probe with
  | mk frames probe' =>
    rw [hframes] at hsound hsame
    obtain ⟨hok, hrewound⟩ := Handle.seek_sound hsound 0
    obtain ⟨hcontent', hpos'⟩ := Handle.seek_spec hok
    simp only
    generalize probe'.seek 0 = out at hok hrewound hcontent' hpos'
    obtain ⟨sought, rewound⟩ := out
    simp only at hok hrewound hcontent' hpos'
    subst hok
    simp only
    have hreader := Handle.lineReader_sound hrewound
    rw [hcontent', hpos', hsame, List.drop_zero] at hreader
    cases frames with
    | some frames =>
      rw [hreader, ← predictSchemaFromHandle_eq]
      rfl
    | none =>
      rw [content_of_no_frames hsize (by rw [hframes]), inferFromText_nil]
      rfl

/-- The entry points agree exactly when what follows the position at which the search for the
frames leaves the probe has the schema of the whole file. The probe is at the start when the
file has a seek table or fits into one frame, and then only. -/
theorem inferencesAgree_iff (hsource : self.source = .seekable file) (hfile : file.Sound)
    (hsize : file.size = .ok file.content.length) {probe : Handle}
    (hprobe : file.cloneHandle .frames = .ok probe) (scanOpts : AnonymousScanArgs)
    (sched : Schedule) :
    (InferencesAgree self scanOpts sched file.content ↔
        inferredSchema self (file.content.drop (framesFromSeekable file probe).2.pos) =
          inferredSchema self file.content) ∧
      ((framesFromSeekable file probe).2.pos = 0 ↔
        file.seekTableDecompFrames ≠ none ∨ file.content.length ≤ maxFrameSize) := by
  obtain ⟨handle, hhandle, hs⟩ := hfile .frames
  obtain rfl : handle = probe := by
    rw [hprobe] at hhandle
    exact (Except.ok.inj hhandle).symm
  obtain ⟨hcontent, hpos⟩ := SeekableVfsFile.content_cloneHandle hprobe
  obtain ⟨-, -, hstart⟩ := framesFromSeekable_handle hs hcontent hpos hsize
  have hparallel := parallelBatch_infers hsource hsize hprobe hs scanOpts sched
  refine ⟨⟨fun h => hparallel.symm.trans h.parallel, fun hsame => ?_⟩, hstart⟩
  refine ⟨hparallel.trans hsame, predictSchema_infers hsource hfile hsize, ?_⟩
  have hdelivers : self.source.Delivers file.content := by
    rw [hsource]
    exact ⟨rfl, hfile⟩
  rw [inferSchemaFromSource_delivers hdelivers]
  unfold inferFromText
  cases (inferSchemaFromReader (.ofBytes file.content) self.lineFilter self.inferSchemaLength).1 <;>
    rfl

end

/-! ## A file longer than a frame -/

omit [Crates] in
theorem split_replicate (k : Nat) :
    Lines.split newline (List.replicate k newline) = List.replicate k [newline] := by
  induction k with
  | zero => rfl
  | succ k ih => rw [List.replicate_succ, Lines.split_cons_self, ih, List.replicate_succ]

omit [Crates] in
/-- Blank lines are not accepted. -/
theorem filter_accepts_replicate (lineFilter : Option LineFilterFn) (k : Nat) :
    (List.replicate k [newline]).filter (accepts lineFilter) = [] := by
  rw [List.filter_eq_nil_iff]
  intro line hline
  obtain rfl := List.eq_of_mem_replicate hline
  have hblank : isBlank [newline] = true := by decide +kernel
  rw [accepts, hblank]
  exact Bool.false_ne_true

/-- The schema of a line and blank ones after it is that of the line, if it is accepted and
the only one asked for. -/
theorem inferredSchema_blank {self : LazyLogFmtReader} (hn : self.inferSchemaLength = 1)
    {pre : Bytes} {pieces : List Bytes} (hpre : pre = [] ∨ pre.getLast? = some newline)
    (hsplit : Lines.split newline pre = pieces)
    (hvalid : ∀ line ∈ pieces, checkLine line = .ok line) (k : Nat) :
    inferredSchema self (pre ++ List.replicate k newline) =
      (pieces.filter (accepts self.lineFilter)).head?.map lineSchema := by
  have hall : Lines.split newline (pre ++ List.replicate k newline) =
      pieces ++ List.replicate k [newline] := by
    rw [Lines.split_append hpre, hsplit, split_replicate]
  unfold inferredSchema
  rw [inferFromText_one hn, hall, List.filter_append, filter_accepts_replicate, List.append_nil]
  · rfl
  · rw [hall]
    intro line hline
    rcases List.mem_append.mp hline with hline | hline
    · exact hvalid line hline
    · obtain rfl := List.eq_of_mem_replicate hline
      decide +kernel

end

section

attribute [local instance] smallCrates

/-- A pair and blank lines, more than fit into a frame. -/
def blankText : Bytes := Utf8.ofString "a=1" ++ List.replicate (maxFrameSize + 1) newline

def blankFile : SeekableVfsFile :=
  { content := blankText
    size := .ok blankText.length
    seekTableDecompFrames := none
    replies := fun _ => .ok [] }

def blankReader : LazyLogFmtReader := { source := .seekable blankFile }

/-- The file is longer than a frame, so the search has read part of it. -/
theorem inferencesAgree_blankFile :
    (InferencesAgree blankReader {} {} blankFile.content ↔
        inferredSchema blankReader (blankFile.content.drop
            (framesFromSeekable blankFile { content := blankFile.content }).2.pos) =
          inferredSchema blankReader blankFile.content) ∧
      ((framesFromSeekable blankFile { content := blankFile.content }).2.pos = 0 ↔
        blankFile.seekTableDecompFrames ≠ none ∨ blankFile.content.length ≤ maxFrameSize) :=
  inferencesAgree_iff rfl (fun _ => ⟨_, rfl, fun _ => List.not_mem_nil⟩) rfl rfl {} {}

theorem blankText_length : blankText.length = maxFrameSize + 4 := by
  have hfirst : (Utf8.ofString "a=1").length = 3 := rfl
  rw [blankText, List.length_append, List.length_replicate, hfirst]
  omega

/-- The text after its first line, or after a part of it. -/
theorem drop_blankText (p : Nat) :
    blankText.drop p = (Utf8.ofString "a=1").drop p ++
      List.replicate (maxFrameSize + 1 - (p - 3)) newline := by
  have hfirst : (Utf8.ofString "a=1").length = 3 := rfl
  rw [blankText, List.drop_append, List.drop_replicate, hfirst]

/-- A part of the first line with its newline. -/
theorem inferredSchema_drop {p : Nat} (hp : p ≤ 2) {line : Bytes}
    (hline : (Utf8.ofString "a=1").drop p ++ [newline] = line)
    (hone : Lines.split newline line = [line]) (hvalid : checkLine line = .ok line)
    (hacc : accepts none line = true) :
    inferredSchema blankReader (blankText.drop p) = some (lineSchema line) := by
  have hlast : line.getLast? = some newline := by rw [← hline, List.getLast?_concat]
  rw [drop_blankText, Nat.sub_eq_zero_of_le (by omega : p ≤ 3), Nat.sub_zero, List.replicate_succ,
    List.append_cons, hline, inferredSchema_blank rfl (.inr hlast) hone]
  · rw [show blankReader.lineFilter = none from rfl, List.filter_cons_of_pos hacc]
    rfl
  · intro l hl
    obtain rfl := List.mem_singleton.mp hl
    exact hvalid

/-- Its first line has the key `a`. -/
theorem inferredSchema_blankText :
    ∃ schema, inferredSchema blankReader blankText = some schema ∧ Utf8.ofString "a" ∈ schema := by
  refine ⟨lineSchema (Utf8.ofString "a=1\n"), ?_, ?_⟩
  · exact inferredSchema_drop (p := 0) (Nat.zero_le 2) (by decide +kernel) (by decide +kernel)
      (by decide +kernel) (by decide +kernel)
  · rw [mem_lineSchema]
    decide +kernel

/-- What follows its first byte has no such key. -/
theorem inferredSchema_drop_blankText {p : Nat} (hp : 0 < p) :
    ∀ schema, inferredSchema blankReader (blankText.drop p) = some schema →
      Utf8.ofString "a" ∉ schema := by
  intro schema hschema
  match p, hp with
  | 1, _ =>
    rw [@inferredSchema_drop 1 (by decide) (Utf8.ofString "=1\n") (by decide +kernel)
      (by decide +kernel) (by decide +kernel) (by decide +kernel)] at hschema
    obtain rfl := Option.some.inj hschema
    rw [mem_lineSchema]
    decide +kernel
  | 2, _ =>
    rw [@inferredSchema_drop 2 (by decide) (Utf8.ofString "1\n") (by decide +kernel)
      (by decide +kernel) (by decide +kernel) (by decide +kernel)] at hschema
    obtain rfl := Option.some.inj hschema
    rw [mem_lineSchema]
    decide +kernel
  | q + 3, _ =>
    -- nothing but blank lines
    have hnil : (Utf8.ofString "a=1").drop (q + 3) = [] :=
      List.drop_eq_nil_of_le (Nat.le_add_left 3 q)
    rw [drop_blankText, hnil, inferredSchema_blank rfl (.inl rfl) rfl (fun _ => by simp)] at hschema
    cases hschema

/-- The attempt infers no column `a`, which the first line has. -/
theorem inferencesAgree_counterexample : ¬ InferencesAgree blankReader {} {} blankFile.content := by
  intro h
  have hlong : ¬ blankText.length ≤ maxFrameSize := by
    rw [blankText_length]
    omega
  have hsound : (⟨blankText, 0, []⟩ : Handle).Sound := fun _ => List.not_mem_nil
  obtain ⟨-, -, hstart⟩ := @framesFromSeekable_handle blankFile _ hsound rfl rfl rfl
  have hpos : (framesFromSeekable blankFile ⟨blankText, 0, []⟩).2.pos ≠ 0 := by
    rw [Ne, hstart]
    rintro (h | h)
    · exact h rfl
    · exact hlong h
  have hprobe : blankFile.cloneHandle .frames = .ok ⟨blankText, 0, []⟩ := rfl
  have hparallel := @parallelBatch_infers _ blankReader _ rfl rfl _ hprobe hsound {} {}
  obtain ⟨schema, hschema, hkey⟩ := inferredSchema_blankText
  have hrest := h.parallel.symm.trans hparallel
  rw [show blankFile.content = blankText from rfl, hschema] at hrest
  exact inferredSchema_drop_blankText (Nat.pos_of_ne_zero hpos) schema hrest.symm hkey

end

end PolarsLogfmt
