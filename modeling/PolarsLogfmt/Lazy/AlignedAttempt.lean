import PolarsLogfmt.Frame.Table
import PolarsLogfmt.Lazy.UnalignedAttempt
import PolarsLogfmt.Lazy.WorkerTexts

/-!
# The parallel attempt with columns

Workers whose chunks start with lines of the same keys make frames of one table. The frames
under each other are the table of the lines the workers have pushed, chunk by chunk.
-/

namespace PolarsLogfmt

open SharedCounter (outcome outcome_of_silent outcome_of_claims)
open SideBySide

variable [Crates]

/-! ## Aligned lines -/

/-- The table of lines that are aligned to some keys. -/
def alignedTable (schema : Schema) (keys : List Bytes) (hn : keys.Nodup) : Table Bytes where
  keys := keys
  nodup := hn
  dtype := fun key => finishedType (trackType (some schema) key)
  cell := alignedCell (some schema)
  fits := alignedCell_fits (some schema)

/-- The first line has just these keys, and no line has one of them twice. -/
def AlignedTo (keys : List Bytes) (lines : List Bytes) : Prop :=
  (∀ first ∈ lines.head?, lineColumns first = keys) ∧ ∀ line ∈ lines, HasOnce keys line

instance (keys : List Bytes) : DecidablePred (AlignedTo keys) := fun lines =>
  inferInstanceAs (Decidable ((∀ first ∈ lines.head?, lineColumns first = keys) ∧
    ∀ line ∈ lines, HasOnce keys line))

theorem AlignedTo.of_prefix {keys lines lines' : List Bytes} (h : AlignedTo keys lines)
    (hpre : lines' <+: lines) : AlignedTo keys lines' := by
  obtain ⟨rest, rfl⟩ := hpre
  refine ⟨fun first hfirst => h.1 first ?_,
    fun line hline => h.2 line (List.mem_append_left _ hline)⟩
  rw [List.head?_append, Option.mem_def.mp hfirst]
  rfl

/-! ## Frames of one table -/

/-- The frame of some rows, and the empty one when there are none. -/
def Table.shown {α : Type} (t : Table α) (rows : List α) : DataFrame :=
  if rows = [] then .empty else t.frame rows

theorem Table.shown_height {α : Type} {t : Table α} (hne : t.keys ≠ []) (rows : List α) :
    (t.shown rows).height = rows.length := by
  unfold shown
  split
  · rename_i hnil
    rw [hnil]
    rfl
  · exact t.frame_height rows hne

/-- What a worker shows of its frame. -/
theorem Table.shown_of_frame {α : Type} {t : Table α} (hne : t.keys ≠ []) (rows : List α) :
    (if 0 < (t.frame rows).width ∧ 0 < (t.frame rows).height then t.frame rows else .empty) =
      t.shown rows := by
  have hwidth : 0 < (t.frame rows).width := by
    rw [Table.frame_width]
    exact List.length_pos_of_ne_nil hne
  rw [Table.frame_height _ hne, Table.shown]
  by_cases hrows : rows = []
  · rw [if_pos hrows, hrows, if_neg (by simp)]
  · rw [if_neg hrows, if_pos ⟨hwidth, List.length_pos_of_ne_nil hrows⟩]

/-- The frames with rows are those of the parts that are not empty. -/
theorem filter_map_shown {α : Type} {t : Table α} (hne : t.keys ≠ []) (parts : List (List α)) :
    (parts.map t.shown).filter (fun df => 0 < df.height) =
      (parts.filter fun rows => rows ≠ []).map t.frame := by
  induction parts with
  | nil => rfl
  | cons rows parts ih =>
    have hheight := t.shown_height hne rows
    by_cases hrows : rows = []
    · rw [List.map_cons, List.filter_cons_of_neg (by rw [hheight, hrows]; simp), ih,
        List.filter_cons_of_neg (by simpa using hrows)]
    · rw [List.map_cons, List.filter_cons_of_pos
        (by simpa [hheight, List.length_pos_iff] using hrows),
        ih, List.filter_cons_of_pos (by simpa using hrows), List.map_cons, Table.shown,
        if_neg hrows]

/-- Frames of one table under each other. -/
theorem stackResults_shown {α : Type} {t : Table α} (hne : t.keys ≠ [])
    {scanOpts : AnonymousScanArgs}
    (hpush : scanOpts.nRows = none ∨ scanOpts.predicate = none ∧ scanOpts.withColumns = none)
    (parts : List (List α)) (pick : Nat) :
    LazyLogFmtReader.stackResults scanOpts (parts.map fun rows => .ok (t.shown rows)) pick =
      .ok (if parts.flatten = [] then none else some (t.frame parts.flatten)) := by
  have hcollect : LazyLogFmtReader.collectResults (parts.map fun rows => .ok (t.shown rows)) pick =
      .ok ((parts.filter fun rows => rows ≠ []).map t.frame) := by
    rw [LazyLogFmtReader.collectResults_eq_ok]
    refine ⟨parts.map t.shown, ?_, (filter_map_shown hne parts).symm⟩
    rw [List.map_map]
    rfl
  have hflat : (parts.filter fun rows => rows ≠ []).flatten = parts.flatten := by
    simpa using List.flatten_filter_ne_nil (L := parts)
  unfold LazyLogFmtReader.stackResults
  rw [hcollect, ← hflat]
  cases hparts : parts.filter fun rows => rows ≠ [] with
  | nil => rfl
  | cons rows rest =>
    have hrows : rows ≠ [] := by
      have hmem : rows ∈ parts.filter fun rows => rows ≠ [] := hparts ▸ List.mem_cons_self
      simpa using (List.mem_filter.mp hmem).2
    have hsome : (rows :: rest).flatten ≠ [] := by simp [hrows]
    rw [if_neg hsome]
    simp only [List.map_cons, Table.accumulateVertical_frames, List.flatten_cons]
    rcases hpush with hn | ⟨hp, hc⟩
    · rw [hn]
    · rw [hp, hc]
      cases scanOpts.nRows with
      | none => rfl
      | some n => rfl

/-- The frame of a worker that has aligned its lines. -/
theorem workerFrame_alignedTo {opts : FrameOpts} (ha : opts.alignedColsCnt = true) {schema : Schema}
    (hs : opts.schema = some schema) {keys : List Bytes} (hn : keys.Nodup) (hne : keys ≠ [])
    {lines : List PushedLine} (h : AlignedTo keys (lines.map PushedLine.line)) :
    workerFrame opts lines =
      if lines = [] then .ok .empty
      else finishFrame opts ((alignedTable schema keys hn).frame (lines.map PushedLine.line)) := by
  cases lines with
  | nil => exact workerFrame_nil opts
  | cons first lines =>
    obtain ⟨hfirst, honce⟩ := h
    have hkeys : lineColumns first.line = keys := hfirst _ rfl
    subst hkeys
    have hschema : makerSchema opts first.line = schema := by
      rw [makerSchema, hs]
      rfl
    rw [workerFrame_aligned ha ⟨hne, honce⟩, hschema, if_neg (List.cons_ne_nil _ _)]
    rfl

/-- Without pushdown a worker hands on the frame it has made. -/
theorem finishFrame_table {opts : FrameOpts} (hp : opts.predicate = none)
    (hc : opts.withColumns = none) {t : Table Bytes} (hne : t.keys ≠ []) (rows : List Bytes) :
    finishFrame opts (t.frame rows) = .ok (t.shown rows) := by
  rw [finishFrame_plain hp hc, Table.shown_of_frame hne]

section

variable {opts : FrameOpts} (ha : opts.alignedColsCnt = true) {schema : Schema}
  (hs : opts.schema = some schema) {keys : List Bytes} (hn : keys.Nodup) (hne : keys ≠ [])
  {t : Table Bytes} {keep : Bytes → Bool}
  (hfinish : ∀ rows, finishFrame opts ((alignedTable schema keys hn).frame rows) =
    .ok (t.shown (rows.filter keep)))

include ha hs hne hfinish

/-- The frame of a worker that has aligned its lines shows those the pushdown keeps. -/
theorem workerFrame_shown {lines : List PushedLine}
    (h : AlignedTo keys (lines.map PushedLine.line)) :
    workerFrame opts lines = .ok (t.shown ((lines.map PushedLine.line).filter keep)) := by
  rw [workerFrame_alignedTo ha hs hn hne h]
  by_cases hnil : lines = []
  · rw [if_pos hnil, hnil]
    rfl
  · rw [if_neg hnil, hfinish]

end

theorem workerFrame_plain {opts : FrameOpts} (ha : opts.alignedColsCnt = true) {schema : Schema}
    (hs : opts.schema = some schema) (hp : opts.predicate = none) (hc : opts.withColumns = none)
    {keys : List Bytes} (hn : keys.Nodup) (hne : keys ≠ []) {lines : List PushedLine}
    (h : AlignedTo keys (lines.map PushedLine.line)) :
    workerFrame opts lines =
      .ok ((alignedTable schema keys hn).shown (lines.map PushedLine.line)) := by
  have hall := fun rows => finishFrame_table hp hc (t := alignedTable schema keys hn) hne rows
  have hshown := @workerFrame_shown _ opts ha schema hs keys hn hne (alignedTable schema keys hn)
    (fun _ => true) (fun rows => by rw [hall, List.filter_true]) lines h
  rwa [List.filter_true] at hshown

/-! ## The lines of the frame -/

namespace LazyLogFmtReader

/-! ## The attempt without a slice -/

section

variable {self : LazyLogFmtReader} (ha : self.alignedColsCnt = true) {text : Bytes}
  (hsource : self.source.Delivers text) {scanOpts : AnonymousScanArgs}
  (hnRows : scanOpts.nRows = none)
  (schema : Schema) {keys : List Bytes} (hn : keys.Nodup) (hne : keys ≠ [])
  (hto : ∀ texts ∈ self.workerTexts, AlignedTo keys (self.acceptedBy texts))
  {t : Table Bytes} {keep : Bytes → Bool}
  (hfinish : ∀ rows, finishFrame (self.frameOpts scanOpts (some schema))
    ((alignedTable schema keys hn).frame rows) = .ok (t.shown (rows.filter keep)))

include ha hsource hnRows hne hto hfinish

/-- The workers have aligned their lines to the same keys: the attempt makes one frame of the
lines the pushdown keeps, -/
theorem parallelBatch_alignedTo (hkeys : t.keys ≠ [])
    (hvalid : ∀ texts ∈ self.workerTexts, ∀ text ∈ texts, ValidLines text) (sched : Schedule) :
    (self.parallelBatch scanOpts (some schema) sched).2 =
      .ok (if (self.workerTexts.flatMap self.acceptedBy).filter keep = [] then none
        else some (t.frame ((self.workerTexts.flatMap self.acceptedBy).filter keep))) := by
  obtain ⟨results, hresults, hbatch⟩ := parallelBatch_results hsource hnRows schema sched
  have hshown : (self.workerTexts.map fun texts => (self.acceptedBy texts).filter keep).map
      (fun rows => .ok (t.shown rows)) = results := by
    rw [List.map_map, ← List.map_id results]
    apply map_eq_of_forall₂ hresults
    intro texts htexts result hresult
    rw [WorkerResult, if_pos (hvalid texts htexts)] at hresult
    obtain ⟨lines, hlines, rfl⟩ := hresult
    have hto := hto texts htexts
    rw [← hlines] at hto
    rw [Function.comp_apply, ← hlines]
    exact (workerFrame_shown ha rfl hn hne hfinish hto).symm
  rw [hbatch, ← hshown, stackResults_shown hkeys (.inl hnRows), List.filter_flatMap,
    List.flatMap_def]

/-- unless some line is no UTF-8. -/
theorem parallelBatch_alignedTo_fails
    (hinvalid : ¬ ∀ texts ∈ self.workerTexts, ∀ text ∈ texts, ValidLines text) (sched : Schedule) :
    ∃ e, (self.parallelBatch scanOpts (some schema) sched).2 = .error e := by
  obtain ⟨results, hresults, hbatch⟩ := parallelBatch_results hsource hnRows schema sched
  push Not at hinvalid
  obtain ⟨texts, htexts, text, htext, hinvalid⟩ := hinvalid
  rw [hbatch]
  obtain ⟨result, hmem, hresult⟩ := exists_of_forall₂ hresults htexts
  rw [WorkerResult, if_neg fun hall => hinvalid (hall text htext)] at hresult
  subst hresult
  refine stackResults_error scanOpts hmem ?_ sched.error
  intro e he
  obtain ⟨texts', htexts', hfailed⟩ := exists_of_forall₂ hresults.flip he
  have hfailed : self.WorkerResult _ texts' (.error e) := hfailed
  unfold WorkerResult at hfailed
  split at hfailed
  · obtain ⟨lines, hlines, hframe⟩ := hfailed
    have hto := hto texts' htexts'
    rw [← hlines] at hto
    rw [workerFrame_shown ha rfl hn hne hfinish hto] at hframe
    cases hframe
  · cases hfailed
    exact not_cloneHandleFailed

end

end LazyLogFmtReader

end PolarsLogfmt
