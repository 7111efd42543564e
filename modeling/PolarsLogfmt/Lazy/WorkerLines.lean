import PolarsLogfmt.Lazy.ParseFrames

/-!
# What a worker pushes

`workerLines` lists the accepted lines of a worker's frames, up to the first error.
`claims_parseFrames` is the one fact about `parse_frames` that the results about the
parallel scan rest on: a worker pushes these lines in order, each after claiming
a slot when there is a slice, and its frame is made of the lines it pushed.
-/

namespace PolarsLogfmt

open SharedCounter (Prog Claims)

variable [Crates]

/-! ## The lines of a chunk -/

/-- The accepted lines of a frame, from line `number` on, and the error they end in. -/
def frameLines (lineFilter : Option LineFilterFn) (frame : Nat) :
    List (Except IoError Bytes) → Nat → List PushedLine × Option IoError
  | [], _ => ([], none)
  | .error e :: _, _ => ([], some e)
  | .ok line :: lines, number =>
      let (rest, err) := frameLines lineFilter frame lines (number + 1)
      (if accepts lineFilter line then ⟨frame, number, line⟩ :: rest else rest, err)

/-- The accepted lines of a worker's frames, and the error they end in. -/
def workerLines {F : Type} [FrameBytes F] (lineFilter : Option LineFilterFn) :
    List FrameRange → F → List PushedLine × Option IoError
  | [], _ => ([], none)
  | range :: ranges, handle =>
      match FrameBytes.readFrame handle range with
      | (.error e, _) => ([], some e)
      | (.ok found, handle) =>
          match frameLines lineFilter range.idx (textLines ((found.map Prod.snd).getD [])) 0 with
          | (lines, some e) => (lines, some e)
          | (lines, none) =>
              let (rest, err) := workerLines lineFilter ranges handle
              (lines ++ rest, err)

omit [Crates] in
theorem frame_of_mem_frameLines {lineFilter : Option LineFilterFn} {frame number : Nat}
    {lines : List (Except IoError Bytes)} {p : PushedLine}
    (hp : p ∈ (frameLines lineFilter frame lines number).1) :
    p.frame = frame ∧ number ≤ p.number := by
  induction lines generalizing number with
  | nil => cases hp
  | cons line lines ih =>
    cases line with
    | error e => cases hp
    | ok line =>
      simp only [frameLines] at hp
      split at hp
      · rcases List.mem_cons.mp hp with rfl | hp
        · exact ⟨rfl, Nat.le_refl _⟩
        · exact ⟨(ih hp).1, Nat.le_of_succ_le (ih hp).2⟩
      · exact ⟨(ih hp).1, Nat.le_of_succ_le (ih hp).2⟩

/-- A line of an earlier frame, or an earlier one of the same frame; `before` says which frames
are earlier. -/
def PushedLine.Precedes (before : Nat → Nat → Prop) (p q : PushedLine) : Prop :=
  before p.frame q.frame ∨ p.frame = q.frame ∧ p.number < q.number

omit [Crates] in
theorem PushedLine.Precedes.ne {p q : PushedLine} (h : p.Precedes (· ≠ ·) q) : p ≠ q := by
  rintro rfl
  rcases h with hframe | ⟨-, hnumber⟩
  · exact hframe rfl
  · exact Nat.lt_irrefl _ hnumber

omit [Crates] in
theorem frameLines_pairwise (before : Nat → Nat → Prop) (lineFilter : Option LineFilterFn)
    (frame number : Nat) (lines : List (Except IoError Bytes)) :
    (frameLines lineFilter frame lines number).1.Pairwise (PushedLine.Precedes before) := by
  induction lines generalizing number with
  | nil => exact .nil
  | cons line lines ih =>
    cases line with
    | error e => exact .nil
    | ok line =>
      simp only [frameLines]
      split
      · refine List.pairwise_cons.mpr ⟨?_, ih _⟩
        intro p hp
        obtain ⟨hframe, hnumber⟩ := frame_of_mem_frameLines hp
        exact .inr ⟨hframe.symm, hnumber⟩
      · exact ih _

section

variable {F : Type} [FrameBytes F]

omit [Crates] in
theorem frame_of_mem_workerLines {lineFilter : Option LineFilterFn} {ranges : List FrameRange}
    {handle : F} {p : PushedLine} (hp : p ∈ (workerLines lineFilter ranges handle).1) :
    p.frame ∈ ranges.map FrameRange.idx := by
  induction ranges generalizing handle with
  | nil => cases hp
  | cons range ranges ih =>
    rw [workerLines] at hp
    split at hp
    · cases hp
    · split at hp
      · rename_i hlines
        have hp' := frame_of_mem_frameLines (p := p) (by rw [hlines]; exact hp)
        rw [hp'.1]
        exact List.mem_cons_self
      · rename_i hlines
        rcases List.mem_append.mp hp with hp | hp
        · have hp' := frame_of_mem_frameLines (p := p) (by rw [hlines]; exact hp)
          rw [hp'.1]
          exact List.mem_cons_self
        · exact List.mem_cons_of_mem _ (ih hp)

omit [Crates] in
/-- The lines of a chunk come in the order of its frames. -/
theorem workerLines_pairwise {before : Nat → Nat → Prop} (lineFilter : Option LineFilterFn)
    {ranges : List FrameRange} (hidx : (ranges.map FrameRange.idx).Pairwise before) (handle : F) :
    (workerLines lineFilter ranges handle).1.Pairwise (PushedLine.Precedes before) := by
  induction ranges generalizing handle with
  | nil => exact .nil
  | cons range ranges ih =>
    rw [List.map_cons, List.pairwise_cons] at hidx
    rw [workerLines]
    split
    · exact .nil
    · rename_i found handle' hread
      have hframe := frameLines_pairwise before lineFilter range.idx 0
        (textLines ((found.map Prod.snd).getD []))
      split
      · rename_i hlines
        rw [hlines] at hframe
        exact hframe
      · rename_i hlines
        rw [hlines] at hframe
        refine List.pairwise_append.mpr ⟨hframe, ih hidx.2 _, ?_⟩
        intro p hp q hq
        have hp' : p.frame = range.idx :=
          (frame_of_mem_frameLines (p := p) (by rw [hlines]; exact hp)).1
        refine .inl ?_
        rw [hp']
        exact hidx.1 _ (frame_of_mem_workerLines hq)

end

/-! ## The state the lines leave -/

/-- A worker between two lines: the frame of the last line, the first row of that frame, and
what it keeps across frames. -/
structure LineState where
  frame : Option Nat
  firstRow : Option Row
  worker : WorkerState

/-- The first row a line of `frame` finds. -/
def LineState.rowIn (s : LineState) (frame : Nat) : Option Row :=
  if s.frame = some frame then s.firstRow else none

def LineState.push (opts : FrameOpts) (s : LineState) (p : PushedLine) : LineState :=
  let next := acceptLine opts (s.rowIn p.frame) s.worker p.line
  ⟨some p.frame, next.1, next.2⟩

/-- The state after some lines. -/
def pushed (opts : FrameOpts) (lines : List PushedLine) : LineState :=
  lines.foldl (LineState.push opts) ⟨none, none, { dfMaker := { schema := opts.schema } }⟩

theorem pushed_concat (opts : FrameOpts) (lines : List PushedLine) (p : PushedLine) :
    pushed opts (lines ++ [p]) = (pushed opts lines).push opts p := by
  rw [pushed, List.foldl_append]
  rfl

@[simp] theorem LineState.push_rowIn (opts : FrameOpts) (s : LineState) (p : PushedLine) :
    (s.push opts p).rowIn p.frame = (acceptLine opts (s.rowIn p.frame) s.worker p.line).1 :=
  if_pos rfl

@[simp] theorem LineState.push_worker (opts : FrameOpts) (s : LineState) (p : PushedLine) :
    (s.push opts p).worker = (acceptLine opts (s.rowIn p.frame) s.worker p.line).2 := rfl

/-- A frame no line has come from yet has no first row. -/
theorem rowIn_pushed {opts : FrameOpts} {lines : List PushedLine} {frame : Nat}
    (h : ∀ p ∈ lines, p.frame ≠ frame) : (pushed opts lines).rowIn frame = none := by
  rcases List.eq_nil_or_concat lines with rfl | ⟨init, p, rfl⟩
  · rfl
  · rw [List.concat_eq_append] at h ⊢
    rw [pushed_concat, LineState.rowIn, if_neg]
    intro heq
    exact h p (by simp) (Option.some.inj heq)

/-- The frame a worker makes of the lines it pushed. -/
def workerFrame (opts : FrameOpts) (lines : List PushedLine) : Except PolarsError DataFrame :=
  finishWorker opts (pushed opts lines).worker

/-! ## The worker -/

/-- How a worker ends whose chunk ends in `err`: with the frame of the lines it pushed, or
with the error. Without a slice it gets as far as the error. -/
def WorkerEnds (opts : FrameOpts) (err : Option IoError) (lines : List PushedLine)
    (result : Except PolarsError DataFrame) : Prop :=
  (result = workerFrame opts lines ∧ (opts.rowCap = none → err = none)) ∨
    ∃ e, err = some e ∧ result = .error (.computeError e)

/-- A worker that finds the slice full ends with the frame of the lines it pushed. -/
theorem workerEnds_capped {opts : FrameOpts} {err : Option IoError} (h : opts.rowCap.isSome)
    (lines : List PushedLine) : WorkerEnds opts err lines (workerFrame opts lines) := by
  left
  refine ⟨rfl, ?_⟩
  intro hnone
  rw [hnone] at h
  cases h

/-- The loop over the lines of a frame, followed by `k`. -/
theorem claims_frameLoop {opts : FrameOpts} {frame : Nat} {err : Option IoError}
    {k : Except PolarsError (WorkerState × Bool) → Prog PushedLine (Except PolarsError DataFrame)}
    (hcapped : ∀ st, k (.ok (st, true)) = .done (finishWorker opts st))
    (hfailed : ∀ e, k (.error e) = .done (.error e))
    {lines : List (Except IoError Bytes)} {number : Nat} {seen rest : List PushedLine}
    (hend : match (frameLines opts.lineFilter frame lines number).2 with
      | some e => err = some e ∧ rest = []
      | none => ∀ st, (pushed opts (seen ++
        (frameLines opts.lineFilter frame lines number).1)).worker =
          st → Claims (WorkerEnds opts err) opts.rowCap
            (seen ++ (frameLines opts.lineFilter frame lines number).1) rest
            (k (.ok (st, false)))) :
    Claims (WorkerEnds opts err) opts.rowCap seen
      ((frameLines opts.lineFilter frame lines number).1 ++ rest)
      (frameLoop opts frame lines number ((pushed opts seen).rowIn frame)
      (pushed opts seen).worker >>=
        k) := by
  induction lines generalizing number seen with
  | nil =>
    simp only [frameLines, List.append_nil] at hend
    exact hend _ rfl
  | cons line lines ih =>
    cases line with
    | error e =>
      obtain ⟨rfl, rfl⟩ := hend
      simp only [frameLoop, Prog.done_bind, hfailed, frameLines, List.append_nil]
      exact .done (.inr ⟨e, rfl, rfl⟩)
    | ok line =>
      simp only [frameLines] at hend ⊢
      by_cases hacc : accepts opts.lineFilter line
      · simp only [hacc, if_true, List.cons_append] at hend ⊢
        -- the rest of the frame, once the line is pushed
        have hgo := @ih (number + 1) (seen ++ [⟨frame, number, line⟩]) (by simpa using hend)
        have hrow : ((pushed opts seen).push opts ⟨frame, number, line⟩).rowIn frame =
            (acceptLine opts ((pushed opts seen).rowIn frame) (pushed opts seen).worker line).1 :=
          LineState.push_rowIn opts _ ⟨frame, number, line⟩
        rw [pushed_concat, hrow, LineState.push_worker] at hgo
        rw [frameLoop_accepted hacc, Prog.claimSlot_bind, Prog.done_bind, hcapped, Prog.emit_bind]
        refine Claims.claimSlot ?_ hgo
        intro hcap
        exact workerEnds_capped hcap seen
      · simp only [hacc, Bool.false_eq_true, if_false] at hend ⊢
        rw [frameLoop_refused hacc]
        exact ih hend

section

variable {F : Type} [FrameBytes F]

/-- A frame that is not refused for want of slots, followed by `k`. -/
theorem claims_processOne {opts : FrameOpts} {range : FrameRange} {handle : F}
    {err : Option IoError}
    {k : Except PolarsError (WorkerState × Bool × F) →
      Prog PushedLine (Except PolarsError DataFrame)}
    (hcapped : ∀ st handle, k (.ok (st, true, handle)) = .done (finishWorker opts st))
    (hfailed : ∀ e, k (.error e) = .done (.error e))
    {seen all : List PushedLine} (hfresh : ∀ p ∈ seen, p.frame ≠ range.idx)
    (hend : match FrameBytes.readFrame handle range with
      | (.error e, _) => err = some e ∧ all = []
      | (.ok found, handle) =>
          match frameLines opts.lineFilter range.idx
              (textLines ((found.map Prod.snd).getD [])) 0 with
          | (lines, some e) => err = some e ∧ all = lines
          | (lines, none) => ∃ rest, all = lines ++ rest ∧
              Claims (WorkerEnds opts err) opts.rowCap (seen ++ lines) rest
                (k (.ok ((pushed opts (seen ++ lines)).worker, false, handle)))) :
    Claims (WorkerEnds opts err) opts.rowCap seen all
      (processOne opts range handle (pushed opts seen).worker >>= k) := by
  have hrow : (pushed opts seen).rowIn range.idx = none := rowIn_pushed hfresh
  have hfull : opts.rowCap.isSome → WorkerEnds opts err seen (workerFrame opts seen) :=
    fun hcap => workerEnds_capped hcap seen
  split at hend
  · rename_i e handle' hread
    obtain ⟨rfl, rfl⟩ := hend
    rw [processOne_failed hread, Prog.unlessFull_bind, Prog.done_bind, hcapped, Prog.done_bind,
      hfailed]
    exact Claims.unlessFull hfull (.done (.inr ⟨e, rfl, rfl⟩))
  · rename_i found handle' hread
    rw [processOne_read hread, Prog.unlessFull_bind, Prog.done_bind, hcapped, Prog.bind_assoc]
    refine Claims.unlessFull hfull ?_
    cases hlines : frameLines opts.lineFilter range.idx
        (textLines ((found.map Prod.snd).getD [])) 0 with
    | mk lines stop =>
      rw [hlines] at hend
      have hloop := @claims_frameLoop _ opts range.idx err
        (fun result : Except PolarsError (WorkerState × Bool) =>
          k (result.map fun r : WorkerState × Bool => (r.1, r.2, handle')))
        (fun st => hcapped st handle') (fun e => hfailed e)
        (textLines ((found.map Prod.snd).getD [])) 0 seen
      rw [hrow, hlines] at hloop
      cases stop with
      | some e =>
        obtain ⟨rfl, rfl⟩ := hend
        have hlast := @hloop [] ⟨rfl, rfl⟩
        rwa [List.append_nil] at hlast
      | none =>
        obtain ⟨rest, rfl, hrest⟩ := hend
        exact hloop (by rintro st rfl; exact hrest)

theorem claims_framesLoop {opts : FrameOpts} {ranges : List FrameRange} (hne : ranges ≠ [])
    (hidx : (ranges.map FrameRange.idx).Nodup) (handle : F) {seen : List PushedLine}
    (hfresh : ∀ p ∈ seen, p.frame ∉ ranges.map FrameRange.idx) :
    Claims (WorkerEnds opts (workerLines opts.lineFilter ranges handle).2) opts.rowCap seen
      (workerLines opts.lineFilter ranges handle).1
      (framesLoop opts ranges handle (pushed opts seen).worker) := by
  induction ranges generalizing handle seen with
  | nil => exact absurd rfl hne
  | cons range ranges ih =>
    rw [List.map_cons, List.nodup_cons] at hidx
    rw [framesLoop]
    refine claims_processOne ?_ ?_ ?_ ?_
    · intro st handle
      simp
    · intro e
      rfl
    · intro p hp heq
      exact hfresh p hp (by rw [heq]; exact List.mem_cons_self)
    · rw [workerLines]
      cases hr : FrameBytes.readFrame handle range with
      | mk read handle' =>
        cases read with
        | error e => exact ⟨rfl, rfl⟩
        | ok found =>
          simp only
          cases hlines : frameLines opts.lineFilter range.idx
              (textLines ((found.map Prod.snd).getD [])) 0 with
          | mk lines stop =>
            cases stop with
            | some e => exact ⟨rfl, rfl⟩
            | none =>
              refine ⟨_, rfl, ?_⟩
              cases ranges with
              | nil =>
                simp only [ne_eq, not_true, false_and, if_false]
                exact .done (.inl ⟨rfl, fun _ => rfl⟩)
              | cons next ranges =>
                simp only [ne_eq, reduceCtorEq, not_false_eq_true, true_and, if_true]
                refine ih (by simp) hidx.2 handle' ?_
                intro p hp
                rcases List.mem_append.mp hp with hp | hp
                · exact fun hmem => hfresh p hp (List.mem_cons_of_mem _ hmem)
                · rw [(frame_of_mem_frameLines (p := p) (by rw [hlines]; exact hp)).1]
                  exact hidx.1

/-- A worker pushes the accepted lines of its chunk in order, each after claiming a slot when
there is a slice, and makes its frame of the lines it pushed. -/
theorem claims_parseFrames (opts : FrameOpts) {ranges : List FrameRange}
    (hidx : (ranges.map FrameRange.idx).Nodup) (handle : F) :
    Claims (WorkerEnds opts (workerLines opts.lineFilter ranges handle).2) opts.rowCap []
      (workerLines opts.lineFilter ranges handle).1 (parseFrames opts ranges handle) := by
  cases ranges with
  | nil =>
    refine .done (.inl ⟨?_, fun _ => rfl⟩)
    rfl
  | cons range ranges => exact claims_framesLoop (by simp) hidx handle (by simp)

end

end PolarsLogfmt
