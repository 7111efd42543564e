import PolarsLogfmt.Lazy.UnalignedAttempt

/-!
# How far a worker reads under a slice

A slice may stop a worker before it comes to a line that is no UTF-8: `ReachesInvalid` says
when it does not, provided that the other workers claim no slot before. Without columns that
is all the worker's result depends on.
-/

namespace PolarsLogfmt

open SharedCounter (Prog Ends outcome outcome_ends exists_outcome_exec)

/-! ## The lines before the invalid one -/

/-- The number of lines a worker accepts before a line that is no UTF-8. -/
def readableCount (lineFilter : Option LineFilterFn) (lines : List Bytes) : Nat :=
  ((lines.takeWhile fun line => Utf8.Valid line).filter (accepts lineFilter)).length

theorem readableCount_accepted {lineFilter : Option LineFilterFn} {line : Bytes}
    (hline : Utf8.Valid line) (hacc : accepts lineFilter line = true) (lines : List Bytes) :
    readableCount lineFilter (line :: lines) = readableCount lineFilter lines + 1 := by
  rw [readableCount, List.takeWhile_cons_of_pos (by simpa using hline),
    List.filter_cons_of_pos hacc, List.length_cons]
  rfl

theorem readableCount_refused {lineFilter : Option LineFilterFn} {line : Bytes}
    (hline : Utf8.Valid line) (hacc : ¬ accepts lineFilter line = true) (lines : List Bytes) :
    readableCount lineFilter (line :: lines) = readableCount lineFilter lines := by
  rw [readableCount, List.takeWhile_cons_of_pos (by simpa using hline),
    List.filter_cons_of_neg hacc]
  rfl

theorem readableCount_invalid {line : Bytes} (hline : ¬ Utf8.Valid line)
    (lineFilter : Option LineFilterFn) (lines : List Bytes) :
    readableCount lineFilter (line :: lines) = 0 := by
  rw [readableCount, List.takeWhile_cons_of_neg (by simpa using hline)]
  rfl

/-- With `slots` slots of the slice taken, a worker that goes on alone comes to a line of these
frames that is no UTF-8: it enters a frame while there is a slot left, and needs one for every
line it accepts. -/
def ReachesInvalid (lineFilter : Option LineFilterFn) (nRows : Option Nat) :
    Nat → List Bytes → Prop
  | _, [] => False
  | slots, text :: texts =>
      let count := readableCount lineFilter (Lines.split newline text)
      (∀ n ∈ nRows, slots < n) ∧
        if ValidLines text then ReachesInvalid lineFilter nRows (slots + count) texts
        else ∀ n ∈ nRows, slots + count ≤ n

instance decidableReachesInvalid (lineFilter : Option LineFilterFn) (nRows : Option Nat) :
    ∀ slots texts, Decidable (ReachesInvalid lineFilter nRows slots texts)
  | _, [] => .isFalse id
  | slots, text :: texts =>
      have (slots : Nat) : Decidable (ReachesInvalid lineFilter nRows slots texts) :=
        decidableReachesInvalid lineFilter nRows slots texts
      inferInstanceAs (Decidable ((∀ n ∈ nRows, slots < n) ∧ if ValidLines text then _ else _))

/-- With fewer slots taken it gets at least as far. -/
theorem ReachesInvalid.mono {lineFilter : Option LineFilterFn} {nRows : Option Nat} {slots : Nat}
    {texts : List Bytes} (h : ReachesInvalid lineFilter nRows slots texts) {slots' : Nat}
    (hle : ∀ n ∈ nRows, slots' ≤ slots) : ReachesInvalid lineFilter nRows slots' texts := by
  induction texts generalizing slots slots' with
  | nil => exact h
  | cons text texts ih =>
    obtain ⟨henter, hrest⟩ := h
    refine ⟨fun n hn => Nat.lt_of_le_of_lt (hle n hn) (henter n hn), ?_⟩
    split
    · rename_i hvalid
      rw [if_pos hvalid] at hrest
      exact ih hrest fun n hn => Nat.add_le_add_right (hle n hn) _
    · rename_i hvalid
      rw [if_neg hvalid] at hrest
      exact fun n hn => (Nat.add_le_add_right (hle n hn) _).trans (hrest n hn)

theorem ReachesInvalid.lt {lineFilter : Option LineFilterFn} {nRows : Option Nat} {slots : Nat}
    {texts : List Bytes} (h : ReachesInvalid lineFilter nRows slots texts) :
    ∀ n ∈ nRows, slots < n := by
  cases texts with
  | nil => exact h.elim
  | cons text texts => exact h.1

/-- Without a slice it gets there whenever there is one. -/
theorem reachesInvalid_uncapped {lineFilter : Option LineFilterFn} {slots : Nat}
    {texts : List Bytes} :
    ReachesInvalid lineFilter none slots texts ↔ ∃ text ∈ texts, ¬ ValidLines text := by
  induction texts generalizing slots with
  | nil => simp [ReachesInvalid]
  | cons text texts ih =>
    by_cases hvalid : ValidLines text
    · simp [ReachesInvalid, hvalid, ih]
    · simp [ReachesInvalid, hvalid]

/-! ## A worker among others -/

variable [Crates]

/-- What the loop over some lines comes to between the counters `c` and `c'`, for a worker
without columns. -/
def LoopEnds (opts : FrameOpts) (lines : List Bytes) (c c' : Nat) :
    Except PolarsError (WorkerState × Bool) → Prop
  | .error e => e = .computeError invalidUtf8 ∧ ¬ (∀ line ∈ lines, Utf8.Valid line) ∧
      ∀ n ∈ opts.rowCap, c + readableCount opts.lineFilter lines ≤ n
  | .ok (st, capped) => st.Columnless ∧ (capped = false → (∀ line ∈ lines, Utf8.Valid line) ∧
      ∀ n ∈ opts.rowCap, c + readableCount opts.lineFilter lines ≤ c')

section

variable {opts : FrameOpts} {line : Bytes} {lines : List Bytes} {c c₁ c' : Nat}
  {result : Except PolarsError (WorkerState × Bool)}

/-- An accepted line takes a slot of a slice. -/
theorem LoopEnds.accepted (hline : Utf8.Valid line) (hacc : accepts opts.lineFilter line = true)
    (hc : ∀ n ∈ opts.rowCap, c + 1 ≤ c₁) (h : LoopEnds opts lines c₁ c' result) :
    LoopEnds opts (line :: lines) c c' result := by
  have hcount := readableCount_accepted hline hacc lines
  cases result with
  | error e =>
    obtain ⟨he, hinvalid, hle⟩ := h
    refine ⟨he, fun hall => hinvalid (List.forall_mem_cons.mp hall).2, fun n hn => ?_⟩
    have hslots := hle n hn
    have hslot := hc n hn
    omega
  | ok out =>
    obtain ⟨hst, hrest⟩ := h
    refine ⟨hst, fun hcapped => ?_⟩
    obtain ⟨hvalid, hle⟩ := hrest hcapped
    refine ⟨List.forall_mem_cons.mpr ⟨hline, hvalid⟩, fun n hn => ?_⟩
    have hslots := hle n hn
    have hslot := hc n hn
    omega

theorem LoopEnds.refused (hline : Utf8.Valid line) (hacc : ¬ accepts opts.lineFilter line = true)
    (h : LoopEnds opts lines c c' result) : LoopEnds opts (line :: lines) c c' result := by
  have hcount := readableCount_refused hline hacc lines
  unfold LoopEnds at h ⊢
  simpa only [hcount, List.forall_mem_cons, hline, true_and] using h

end

theorem loopEnds_frameLoop {opts : FrameOpts} (ha : opts.alignedColsCnt = false) {frame : Nat}
    {lines : List Bytes} {number : Nat} {firstRow : Option Row} {st : WorkerState}
    (hst : st.Columnless) {c c' : Nat} (hc : ∀ n ∈ opts.rowCap, c ≤ n)
    {result : Except PolarsError (WorkerState × Bool)}
    (h : Ends c (frameLoop opts frame (lines.map checkLine) number firstRow st) c' result) :
    LoopEnds opts lines c c' result := by
  induction lines generalizing number firstRow st c with
  | nil =>
    cases h with
    | done hle _ => exact ⟨hst, fun _ => ⟨by simp, fun n _ => hle⟩⟩
  | cons line lines ih =>
    rw [List.map_cons] at h
    by_cases hline : Utf8.Valid line
    · rw [checkLine_valid.mpr hline] at h
      by_cases hacc : accepts opts.lineFilter line
      · rw [frameLoop_accepted hacc] at h
        rcases h.of_claimSlot with rfl | ⟨v, hv, hpush⟩
        · -- the slice is full, and the line is not pushed
          exact ⟨hst, fun hcapped => by cases hcapped⟩
        · cases hpush with
          | emit hrest =>
            have hrest := ih (acceptLine_unaligned ha hst firstRow line) (fun n hn =>
              (hv n hn).2) hrest
            exact hrest.accepted hline hacc fun n hn => (hv n hn).1
      · rw [frameLoop_refused hacc] at h
        exact (ih hst hc h).refused hline hacc
    · rw [checkLine, if_neg hline, frameLoop] at h
      cases h with
      | done _ _ =>
        refine ⟨rfl, fun hall => hline (hall line List.mem_cons_self), fun n hn => ?_⟩
        rw [readableCount_invalid hline]
        exact hc n hn

/-- What a worker without columns comes to in a frame. -/
def FrameEnds (opts : FrameOpts) (handle : FrameHandle) (text : Bytes) (c c' : Nat) :
    Except PolarsError (WorkerState × Bool × FrameHandle) → Prop
  | .error e => e = .computeError invalidUtf8 ∧ ¬ ValidLines text ∧ ∀ n ∈ opts.rowCap,
      c < n ∧ c + readableCount opts.lineFilter (Lines.split newline text) ≤ n
  | .ok (st, capped, handle') => st.Columnless ∧ (capped = false →
      handle'.Sound ∧ handle'.frameText = handle.frameText ∧ ValidLines text ∧ ∀ n ∈ opts.rowCap,
        c < n ∧ c + readableCount opts.lineFilter (Lines.split newline text) ≤ c')

theorem FrameEnds.mono {opts : FrameOpts} {handle : FrameHandle} {text : Bytes} {c₀ c c' : Nat}
    (hc : c₀ ≤ c) {result : Except PolarsError (WorkerState × Bool × FrameHandle)}
    (h : FrameEnds opts handle text c c' result) : FrameEnds opts handle text c₀ c' result := by
  cases result with
  | error e =>
    obtain ⟨he, hinvalid, hle⟩ := h
    refine ⟨he, hinvalid, fun n hn => ?_⟩
    have hslots := hle n hn
    omega
  | ok out =>
    obtain ⟨hst, hrest⟩ := h
    refine ⟨hst, fun hcapped => ?_⟩
    obtain ⟨hs, hsame, hvalid, hle⟩ := hrest hcapped
    refine ⟨hs, hsame, hvalid, fun n hn => ?_⟩
    have hslots := hle n hn
    omega

theorem frameEnds_processOne {opts : FrameOpts} (ha : opts.alignedColsCnt = false)
    {range : FrameRange} {handle : FrameHandle} (hs : handle.Sound) {st : WorkerState}
    (hst : st.Columnless) {c c' : Nat}
    {result : Except PolarsError (WorkerState × Bool × FrameHandle)}
    (h : Ends c (processOne opts range handle st) c' result) :
    FrameEnds opts handle (handle.frameText range) c c' result := by
  obtain ⟨found, handle', hread, hs'⟩ := FrameHandle.readFrame_sound hs range
  obtain ⟨htext, hsame⟩ := FrameHandle.readFrame_spec hread
  rw [processOne_read hread, htext] at h
  rcases h.of_unlessFull with rfl | ⟨v, hv, hslot, h⟩
  · exact ⟨hst, fun hcapped => by cases hcapped⟩
  · refine FrameEnds.mono hv ?_
    obtain ⟨m, out, hloop, hend⟩ := h.of_bind
    have hlines := loopEnds_frameLoop ha hst (fun n hn => (hslot n hn).le) hloop
    cases hend with
    | done hle _ =>
      cases out with
      | error e =>
        obtain ⟨he, hinvalid, hslots⟩ := hlines
        exact ⟨he, hinvalid, fun n hn => ⟨hslot n hn, hslots n hn⟩⟩
      | ok out =>
        obtain ⟨hst', hrest⟩ := hlines
        refine ⟨hst', fun hcapped => ?_⟩
        obtain ⟨hvalid, hslots⟩ := hrest hcapped
        exact ⟨hs', hsame, hvalid, fun n hn => ⟨hslot n hn, (hslots n hn).trans hle⟩⟩

theorem framesLoop_ends {opts : FrameOpts} (ha : opts.alignedColsCnt = false)
    {ranges : List FrameRange} {handle : FrameHandle} (hs : handle.Sound) {st : WorkerState}
    (hst : st.Columnless) {c c' : Nat} {result : Except PolarsError DataFrame}
    (h : Ends c (framesLoop opts ranges handle st) c' result) :
    result = .ok .empty ∨ result = .error (.computeError invalidUtf8) ∧
      ReachesInvalid opts.lineFilter opts.rowCap c (ranges.map handle.frameText) := by
  induction ranges generalizing handle st c with
  | nil =>
    cases h with
    | done _ _ => exact .inl rfl
  | cons range ranges ih =>
    rw [framesLoop] at h
    obtain ⟨m, out, hone, hrest⟩ := h.of_bind
    have hframe := frameEnds_processOne ha hs hst hone
    cases out with
    | error e =>
      obtain ⟨rfl, hinvalid, hslots⟩ := hframe
      cases hrest with
      | done _ _ =>
        refine .inr ⟨rfl, fun n hn => (hslots n hn).1, ?_⟩
        rw [if_neg hinvalid]
        exact fun n hn => (hslots n hn).2
    | ok out =>
      obtain ⟨st', capped, handle'⟩ := out
      obtain ⟨hst', hmore⟩ := hframe
      simp only at hrest
      split at hrest
      · rename_i hgo
        obtain ⟨hs', hsame, hvalid, hslots⟩ := hmore hgo.2
        refine (ih hs' hst' hrest).imp id fun hreach => ⟨hreach.1, ?_⟩
        refine ⟨fun n hn => (hslots n hn).1, ?_⟩
        rw [if_pos hvalid]
        have hrest := hreach.2
        rw [hsame] at hrest
        exact hrest.mono fun n hn => (hslots n hn).2
      · cases hrest with
        | done _ _ =>
          left
          exact finishWorker_of_no_columns hst'.makerKeys

theorem workerProg_ends {opts : FrameOpts} (ha : opts.alignedColsCnt = false)
    {origin : FrameOrigin} (hs : origin.Sound) {chunk : Nat × List FrameRange} {c : Nat}
    {result : Except PolarsError DataFrame}
    (h : Ends 0 (LazyLogFmtReader.workerProg opts origin chunk) c result) :
    result = .ok .empty ∨ result = .error (.computeError invalidUtf8) ∧
      ReachesInvalid opts.lineFilter opts.rowCap 0 (chunk.2.map origin.frameText) := by
  obtain ⟨handle, hclone, hsound⟩ := FrameOrigin.cloneHandle_sound hs chunk.1
  unfold LazyLogFmtReader.workerProg at h
  rw [hclone] at h
  rw [← FrameOrigin.frameText_cloneHandle hclone]
  exact framesLoop_ends ha hsound (columnless_new opts.schema) h

/-! ## A worker alone -/

/-- The loop over lines with enough slots for them. -/
theorem frameLoop_exec {opts : FrameOpts} {frame : Nat} {lines : List Bytes} {number : Nat}
    {firstRow : Option Row} {st : WorkerState} {c : Nat}
    (hc : ∀ n ∈ opts.rowCap, c + readableCount opts.lineFilter lines ≤ n) :
    if ∀ line ∈ lines, Utf8.Valid line then
      (∃ st', ((frameLoop opts frame (lines.map checkLine) number firstRow st).exec c).1 =
        .ok (st', false)) ∧
      ((frameLoop opts frame (lines.map checkLine) number firstRow st).exec c).2.2 ≤
        c + readableCount opts.lineFilter lines
    else ((frameLoop opts frame (lines.map checkLine) number firstRow st).exec c).1 =
      .error (.computeError invalidUtf8) := by
  induction lines generalizing number firstRow st c with
  | nil =>
    rw [if_pos (by simp)]
    exact ⟨⟨st, rfl⟩, Nat.le_refl c⟩
  | cons line lines ih =>
    rw [List.map_cons]
    by_cases hline : Utf8.Valid line
    · rw [checkLine_valid.mpr hline]
      simp only [List.forall_mem_cons, hline, true_and]
      by_cases hacc : accepts opts.lineFilter line
      · rw [readableCount_accepted hline hacc] at hc ⊢
        have hfree : ∀ n ∈ opts.rowCap, c < n := by
          intro n hn
          have := hc n hn
          omega
        rw [frameLoop_accepted hacc]
        obtain ⟨c₁, hle, hslot, hexec⟩ := Prog.exec_claimSlot hfree (.done (.ok (st, true)))
          (.emit ⟨frame, number, line⟩ (frameLoop opts frame (lines.map checkLine) (number + 1)
            (acceptLine opts firstRow st line).1 (acceptLine opts firstRow st line).2))
        rw [hexec]
        simp only [Prog.exec]
        have ih := @ih (number + 1) (acceptLine opts firstRow st line).1
          (acceptLine opts firstRow st line).2 c₁ fun n hn => by
            have hn' := hc n hn
            have hslot' := hslot n hn
            omega
        split
        · rename_i hvalid
          rw [if_pos hvalid] at ih
          exact ⟨ih.1, ih.2.trans (by omega)⟩
        · rename_i hvalid
          rw [if_neg hvalid] at ih
          exact ih
      · rw [readableCount_refused hline hacc] at hc ⊢
        rw [frameLoop_refused hacc]
        exact ih hc
    · rw [checkLine, if_neg hline, if_neg fun hall => hline (hall line List.mem_cons_self)]
      rfl

/-- A frame that is entered with enough slots for its lines. -/
theorem processOne_exec {opts : FrameOpts} {range : FrameRange} {handle : FrameHandle}
    (hs : handle.Sound) (st : WorkerState) {c : Nat}
    (hc : ∀ n ∈ opts.rowCap, c < n ∧
      c + readableCount opts.lineFilter (Lines.split newline (handle.frameText range)) ≤ n) :
    if ValidLines (handle.frameText range) then
      (∃ st' handle', ((processOne opts range handle st).exec c).1 = .ok (st', false, handle') ∧
        handle'.Sound ∧ handle'.frameText = handle.frameText) ∧
      ((processOne opts range handle st).exec c).2.2 ≤
        c + readableCount opts.lineFilter (Lines.split newline (handle.frameText range))
    else ((processOne opts range handle st).exec c).1 = .error (.computeError invalidUtf8) := by
  obtain ⟨found, handle', hread, hs'⟩ := FrameHandle.readFrame_sound hs range
  obtain ⟨htext, hsame⟩ := FrameHandle.readFrame_spec hread
  rw [processOne_read hread, htext, Prog.exec_unlessFull fun n hn => (hc n hn).1]
  have hloop := @frameLoop_exec _ opts range.idx (Lines.split newline (handle.frameText range))
    0 none st c fun n hn => (hc n hn).2
  rw [← textLines] at hloop
  change if ValidLines (handle.frameText range) then _ else _ at hloop
  simp only [Prog.exec_bind, Prog.exec]
  by_cases hvalid : ValidLines (handle.frameText range)
  · rw [if_pos hvalid] at hloop ⊢
    obtain ⟨⟨st', hst'⟩, hcounter⟩ := hloop
    rw [hst']
    exact ⟨⟨st', handle', rfl, hs', hsame⟩, hcounter⟩
  · rw [if_neg hvalid] at hloop ⊢
    rw [hloop]
    rfl

/-- A worker that comes to a line that is no UTF-8 ends there. -/
theorem framesLoop_exec {opts : FrameOpts} {ranges : List FrameRange} {handle : FrameHandle}
    (hs : handle.Sound) (st : WorkerState) {c : Nat}
    (h : ReachesInvalid opts.lineFilter opts.rowCap c (ranges.map handle.frameText)) :
    ((framesLoop opts ranges handle st).exec c).1 = .error (.computeError invalidUtf8) := by
  induction ranges generalizing handle st c with
  | nil => exact h.elim
  | cons range ranges ih =>
    obtain ⟨henter, hrest⟩ := h
    have hslots : ∀ n ∈ opts.rowCap,
        c + readableCount opts.lineFilter (Lines.split newline (handle.frameText range)) ≤ n := by
      intro n hn
      split at hrest
      · exact (hrest.lt n hn).le
      · exact hrest n hn
    have hone := processOne_exec hs st fun n hn => ⟨henter n hn, hslots n hn⟩
    rw [framesLoop, Prog.exec_bind]
    split at hrest
    · rename_i hvalid
      rw [if_pos hvalid] at hone
      obtain ⟨⟨st', handle', hresult, hs', hsame⟩, hcounter⟩ := hone
      rw [hresult]
      simp only
      rw [if_pos]
      · have hreach := hrest.mono fun _ _ => hcounter
        rw [← hsame] at hreach
        exact ih hs' st' hreach
      · refine ⟨?_, trivial⟩
        rintro rfl
        exact hrest
    · rename_i hvalid
      rw [if_neg hvalid] at hone
      rw [hone]
      rfl

theorem workerProg_exec {opts : FrameOpts} {origin : FrameOrigin} (hs : origin.Sound)
    {chunk : Nat × List FrameRange}
    (h : ReachesInvalid opts.lineFilter opts.rowCap 0 (chunk.2.map origin.frameText)) :
    ((LazyLogFmtReader.workerProg opts origin chunk).exec 0).1 =
      .error (.computeError invalidUtf8) := by
  obtain ⟨handle, hclone, hsound⟩ := FrameOrigin.cloneHandle_sound hs chunk.1
  unfold LazyLogFmtReader.workerProg
  rw [hclone]
  rw [← FrameOrigin.frameText_cloneHandle hclone] at h
  exact framesLoop_exec hsound _ h

/-! ## The attempt -/

namespace LazyLogFmtReader

variable {self : LazyLogFmtReader} {text : Bytes}

/-- A worker of the attempt may come to a line that is no UTF-8. -/
def WorkerReachesInvalid (self : LazyLogFmtReader) (nRows : Option Nat) : Prop :=
  ∃ origin frames probe, self.parallelOrigin = some (origin, frames, probe) ∧
    ∃ chunk ∈ self.chunks frames,
      ReachesInvalid self.lineFilter nRows 0 (chunk.2.map origin.frameText)

/-- What the workers of an attempt come to. -/
theorem results_cases {opts : FrameOpts} (ha : opts.alignedColsCnt = false) {origin : FrameOrigin}
    (hs : origin.Sound) {chunks : List (Nat × List FrameRange)} {steps : List Nat}
    {result : Except PolarsError DataFrame}
    (h : result ∈ (outcome (chunks.map (workerProg opts origin)) steps).map Prod.fst) :
    result = .ok .empty ∨ result = .error (.computeError invalidUtf8) ∧
      ∃ chunk ∈ chunks,
        ReachesInvalid opts.lineFilter opts.rowCap 0 (chunk.2.map origin.frameText) := by
  obtain ⟨⟨r, events⟩, hr, rfl⟩ := List.mem_map.mp h
  obtain ⟨prog, hprog, c, hends⟩ := outcome_ends hr
  obtain ⟨chunk, hchunk, rfl⟩ := List.mem_map.mp hprog
  exact (workerProg_ends ha hs hends).imp id fun hreach => ⟨hreach.1, chunk, hchunk, hreach.2⟩

/-- The attempt makes no frame; it fails only if a worker came to such a line. -/
theorem parallelBatch_cases (ha : self.alignedColsCnt = false)
    (hsource : self.source.Delivers text) (scanOpts : AnonymousScanArgs) (schema : Schema)
    (sched : Schedule) :
    (self.parallelBatch scanOpts (some schema) sched).2 = .ok none ∨
      (∃ e, (self.parallelBatch scanOpts (some schema) sched).2 = .error e) ∧
        self.WorkerReachesInvalid scanOpts.nRows := by
  unfold parallelBatch
  cases horigin : self.parallelOrigin with
  | none => exact .inl rfl
  | some found =>
    obtain ⟨origin, frames, probe⟩ := found
    have hs := parallelOrigin_sound hsource horigin
    simp only [Option.isNone_some, Bool.false_eq_true, if_false, Option.some_or]
    split
    · exact .inl rfl
    · have hresults := fun result => @results_cases _ (self.frameOpts scanOpts (some schema)) ha
        origin hs (self.chunks frames) sched.steps result
      unfold chunks at hresults
      simp only
      generalize (outcome _ sched.steps).map Prod.fst = results at hresults ⊢
      by_cases hfailed : .error (.computeError invalidUtf8) ∈ results
      · right
        refine ⟨stackResults_invalid scanOpts hfailed
          (fun result hresult => (hresults result hresult).imp id And.left) sched.error, ?_⟩
        rcases hresults _ hfailed with hempty | ⟨-, chunk, hchunk, hreach⟩
        · cases hempty
        · exact ⟨origin, frames, probe, horigin, chunk, hchunk, hreach⟩
      · left
        refine stackResults_empty scanOpts (fun result hresult => ?_) sched.error
        rcases hresults result hresult with hempty | ⟨rfl, -⟩
        · exact hempty
        · exact absurd hresult hfailed

/-- If a worker may come to such a line, the attempt fails in an interleaving that lets this
worker go first. -/
theorem parallelBatch_reached (ha : self.alignedColsCnt = false)
    (hsource : self.source.Delivers text) {scanOpts : AnonymousScanArgs}
    (h : self.WorkerReachesInvalid scanOpts.nRows) (schema : Schema) :
    ∃ sched e, (self.parallelBatch scanOpts (some schema) sched).2 = .error e := by
  obtain ⟨origin, frames, probe, horigin, chunk, hchunk, hreach⟩ := h
  have hs := parallelOrigin_sound hsource horigin
  have hworkers : workerCount self.maxInflight frames.length ≠ 0 := by
    intro hzero
    rw [chunks, hzero] at hchunk
    cases hchunk
  obtain ⟨steps, hmem⟩ := exists_outcome_exec
    (List.mem_map_of_mem (f := workerProg (self.frameOpts scanOpts (some schema)) origin) hchunk)
  have hfailed := @workerProg_exec _ (self.frameOpts scanOpts (some schema)) _ hs _ hreach
  rw [hfailed] at hmem
  refine ⟨{ steps := steps }, ?_⟩
  unfold parallelBatch
  rw [horigin]
  simp only [Option.isNone_some, Bool.false_eq_true, if_false, Option.some_or, hworkers]
  exact stackResults_invalid scanOpts (List.mem_map_of_mem (f := Prod.fst) hmem)
    (fun result hresult => (results_cases ha hs hresult).imp id And.left) 0

/-- Without aligned columns a scan reads the text line by line, unless the attempt fails. -/
theorem scanText_cases (ha : self.alignedColsCnt = false) (hsource : self.source.Delivers text)
    (scanOpts : AnonymousScanArgs) {schema : Schema} (hschema : self.schema = some schema)
    (sched : Schedule) :
    self.scanText scanOpts sched text none =
        self.scanLoop scanOpts sched { reader := some (.ofBytes text) } none ∨
      (∃ e, self.scanText scanOpts sched text none = .error e) ∧
        self.WorkerReachesInvalid scanOpts.nRows := by
  have hattempt : self.attempt scanOpts sched none =
      (self.parallelBatch scanOpts (some schema) sched).2 := by
    rw [← hschema]
    rfl
  unfold scanText
  rw [hattempt]
  rcases parallelBatch_cases ha hsource scanOpts schema sched with hnone | ⟨⟨e, he⟩, hreach⟩
  · left
    rw [hnone]
  · right
    rw [he]
    exact ⟨⟨e, rfl⟩, hreach⟩

theorem scanText_reached (ha : self.alignedColsCnt = false) (hsource : self.source.Delivers text)
    {scanOpts : AnonymousScanArgs} {schema : Schema} (hschema : self.schema = some schema)
    (h : self.WorkerReachesInvalid scanOpts.nRows) :
    ∃ sched e, self.scanText scanOpts sched text none = .error e := by
  obtain ⟨sched, e, he⟩ := parallelBatch_reached ha hsource h schema
  refine ⟨sched, e, ?_⟩
  unfold scanText attempt
  rw [hschema, if_neg (by simp), he]

end LazyLogFmtReader

end PolarsLogfmt
