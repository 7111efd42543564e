import PolarsLogfmt.Lazy.AcceptedScan
import PolarsLogfmt.Lazy.FramePrograms
import PolarsLogfmt.Lazy.ScanOpts
import PolarsLogfmt.Proofs.RepeatedCollects

/-!
# Filtering lines before or while reading

A line filter keeps lines of the log. The lazy frame is that of the log with the other lines taken
out beforehand, as `grep` does: the schema is inferred from the kept lines, and batches and limits
count these only.
-/

namespace PolarsLogfmt

/-- The lines of a text that pass a filter. -/
def grep (filter : LineFilterFn) (text : Bytes) : Bytes :=
  ((Lines.split newline text).filter filter).flatten

theorem split_grep (filter : LineFilterFn) (text : Bytes) :
    Lines.split newline (grep filter text) = (Lines.split newline text).filter filter :=
  Lines.split_flatten_sublist List.filter_sublist

theorem validLines_grep {filter : LineFilterFn} {text : Bytes} (h : ValidLines text) :
    ValidLines (grep filter text) := by
  intro line hline
  rw [split_grep] at hline
  exact h line (List.mem_of_mem_filter hline)

/-- A filter accepts what is accepted of the lines that pass it. -/
theorem acceptedLines_grep (filter : LineFilterFn) (text : Bytes) :
    acceptedLines (some fun _ => true) (grep filter text) = acceptedLines (some filter) text := by
  unfold acceptedLines
  rw [split_grep, List.filter_filter]
  apply List.filter_congr
  intro line _
  simp [accepts]

section

variable [Crates]

/-! ## Readers that accept the same lines -/

namespace LazyLogFmtReader

/-- A lazy frame shows its promise, and the scans of the reader it is made of. -/
theorem observe_scans {self : LazyLogFmtReader} {text : Bytes} (hsource : self.source.Delivers text)
    (collects : List (AnonymousScanArgs × Schedule)) :
    self.scanLogfmt.map (observe (collects.map fun c => .scan c.1 c.2)) =
      (self.scanLogfmt.map fun made => made.2.2).map fun promise =>
        (promise, collects.map fun c => (AnonymousScan.scan self c.1 c.2 none).map some) := by
  cases hmade : self.scanLogfmt with
  | error e => rfl
  | ok made =>
    obtain ⟨logs, probe, promise⟩ := made
    obtain ⟨schema, hschema, rfl, hprobe⟩ := scanLogfmt_delivers hsource hmade
    have hanswers := answers_scans hsource hschema hprobe collects
    exact congrArg (fun answers => Except.ok (promise, answers)) hanswers

/-- Readers that differ in their source and their line filter. -/
structure AcceptsAlike (logs other : LazyLogFmtReader) (text text' : Bytes) : Prop where
  eq : other = { logs with source := other.source, lineFilter := other.lineFilter }
  delivers : logs.source.Delivers text
  delivers' : other.source.Delivers text'
  valid : ValidLines text
  valid' : ValidLines text'
  readable : logs.FramesReadable
  readable' : other.FramesReadable
  accepted : acceptedLines logs.lineFilter text = acceptedLines other.lineFilter text'

namespace AcceptsAlike

variable {self other : LazyLogFmtReader} {text text' : Bytes}
    (h : self.AcceptsAlike other text text')

include h

theorem textSchema_eq : other.textSchema text' = self.textSchema text := by
  rw [textSchema_accepted h.valid, textSchema_accepted h.valid', h.accepted, h.eq]

theorem scan_eq (ha : self.alignedColsCnt = false) (scanOpts : AnonymousScanArgs)
    (sched sched' : Schedule) :
    AnonymousScan.scan self scanOpts sched none =
      AnonymousScan.scan other scanOpts sched' none := by
  have ha' : other.alignedColsCnt = false := by
    rw [h.eq]
    exact ha
  rw [scan_accepted ha h.delivers h.valid h.readable,
    scan_accepted ha' h.delivers' h.valid' h.readable', h.textSchema_eq]
  cases self.textSchema text with
  | error e => rfl
  | ok schema =>
    simp only
    rw [keptLines_accepted, keptLines_accepted, h.accepted, h.eq]
    congr 1
    apply stackBatches_congr
    · rfl
    · rfl

/-- Their lazy frames promise the same, and every collect of one returns what the collect of the
other does. -/
theorem observe_eq (ha : self.alignedColsCnt = false)
    (collects : List (AnonymousScanArgs × Schedule × Schedule)) :
    self.scanLogfmt.map (observe (collects.map fun c => .scan c.1 c.2.1)) =
      other.scanLogfmt.map (observe (collects.map fun c => .scan c.1 c.2.2)) := by
  have hpromise : (self.scanLogfmt.map fun made => made.2.2) =
      other.scanLogfmt.map fun made => made.2.2 := by
    rw [promise_accepted h.delivers h.valid, promise_accepted h.delivers' h.valid', h.accepted,
      h.eq]
  have hself := observe_scans h.delivers (collects.map fun c => (c.1, c.2.1))
  have hother := observe_scans h.delivers' (collects.map fun c => (c.1, c.2.2))
  rw [List.map_map, List.map_map] at hself hother
  rw [show (collects.map fun c => ReaderCall.scan c.1 c.2.1) = collects.map
      ((fun c => ReaderCall.scan c.1 c.2) ∘ fun c => (c.1, c.2.1)) from rfl, hself,
    show (collects.map fun c => ReaderCall.scan c.1 c.2.2) = collects.map
      ((fun c => ReaderCall.scan c.1 c.2) ∘ fun c => (c.1, c.2.2)) from rfl, hother, hpromise]
  congr 1
  funext promise
  congr 1
  apply List.map_congr_left
  intro c _
  exact congrArg (Except.map some) (h.scan_eq ha c.1 c.2.1 c.2.2)

end AcceptsAlike

end LazyLogFmtReader

/-! ## The entry points -/

/-- A reader that some entry point makes with the options. -/
inductive Opens (outside : Outside) (opts : LogfmtScanOpts) : LazyLogFmtReader → Prop where
  | scanLogfmt {source : Bytes} {logs : LazyLogFmtReader}
      (h : opts.reader outside source = .ok logs) : Opens outside opts logs
  | plugin {source : ScanBytes} {logs : LazyLogFmtReader}
      (h : source.reader outside opts = .ok logs) : Opens outside opts logs

/-- The options as a reader of a source has them. -/
def LogfmtScanOpts.logs (opts : LogfmtScanOpts) (source : LogFmtSource) : LazyLogFmtReader where
  source := source
  batchSize := opts.batchSize
  lineFilter := some opts.builder.lineFilter
  schema := opts.schema
  alignedColsCnt := opts.alignedColsCnt
  nThreads := opts.nThreads
  inferSchemaLength := opts.inferSchemaLength.getD 1

/-- Every entry point hands the options on. -/
theorem Opens.eq {outside : Outside} {opts : LogfmtScanOpts} {logs : LazyLogFmtReader}
    (h : Opens outside opts logs) : logs = opts.logs logs.source := by
  have hbuild : ∀ (spec : SourceSpec) (cmd : Option Bytes),
      (({ opts.builder with source := some spec, cmd := cmd } : LazyLogFmtReaderBuilder).build
        outside).mapError PolarsError.computeError = .ok logs → logs = opts.logs logs.source := by
    intro spec cmd hmade
    unfold LazyLogFmtReaderBuilder.build at hmade
    simp only at hmade
    cases hspec : LazyLogFmtReaderBuilder.spec2LogFmtSrc outside cmd (some spec) with
    | error e =>
      rw [hspec] at hmade
      cases hmade
    | ok source =>
      rw [hspec] at hmade
      cases hmade
      rfl
  cases h with
  | @scanLogfmt source _ h =>
    unfold LogfmtScanOpts.reader at h
    simp only at h
    split at h
    · split at h
      · cases h
      · exact hbuild _ _ h
    · cases h
    · exact hbuild _ _ h
  | @plugin source _ h =>
    unfold ScanBytes.reader at h
    split at h
    · cases h
    · exact hbuild _ _ h

/-- A scan with a needle is the scan of the lines that contain it: whatever the entry points, both
lazy frames promise the same, and every collect of one returns what the collect of the other does.
-/
theorem line_filter_greps {outside : Outside} {opts : LogfmtScanOpts} {needle text : Bytes}
    {self other : LazyLogFmtReader}
    (hself : Opens outside { opts with lineFilter := some needle } self)
    (hother : Opens outside { opts with lineFilter := none } other)
    (ha : opts.alignedColsCnt = false) (hsource : self.source.Delivers text)
    (hgrep : other.source.Delivers (grep (containsNeedle needle) text)) (hvalid : ValidLines text)
    (hread : self.FramesReadable) (hread' : other.FramesReadable)
    (collects : List (AnonymousScanArgs × Schedule × Schedule)) :
    self.scanLogfmt.map (LazyLogFmtReader.observe (collects.map fun c => .scan c.1 c.2.1)) =
      other.scanLogfmt.map (LazyLogFmtReader.observe (collects.map fun c => .scan c.1 c.2.2)) := by
  have hfilter : self.lineFilter = some (containsNeedle needle) := by
    rw [hself.eq]
    rfl
  have hfilter' : other.lineFilter = some fun _ => true := by
    rw [hother.eq]
    rfl
  have halike : self.AcceptsAlike other text (grep (containsNeedle needle) text) := by
    refine ⟨?_, hsource, hgrep, hvalid, validLines_grep hvalid, hread, hread', ?_⟩
    · rw [hself.eq, hother.eq]
      rfl
    · rw [hfilter, hfilter', acceptedLines_grep]
  apply halike.observe_eq
  rw [hself.eq]
  exact ha

end

section

attribute [local instance] smallCrates

def logText : Bytes := Utf8.ofString "a=1\nb=2\na=3\n"

/-- The URL of a log at a host. -/
def logUrl (host : Bytes) : Bytes := Utf8.ofString "ssh://me@" ++ host ++ Utf8.ofString "/app.log"

/-- Two hosts with the log, on one of which only the lines with an `a` are left. -/
def logHosts : Outside where
  parseUrl source :=
    match [Utf8.ofString "here", Utf8.ofString "there"].find? fun host => source = logUrl host with
    | some host =>
        .ok
          { scheme := Utf8.ofString "ssh"
            username := Utf8.ofString "me"
            host := some host
            port := none
            path := Utf8.ofString "/app.log" }
    | none => .error (Utf8.ofString "relative URL without a base")
  openPath _ := .error (Utf8.ofString "No such file or directory (os error 2)")
  runCommand source _ _ :=
    .ok (.ofBytes (if source.host = Utf8.ofString "here" then logText
      else grep (containsNeedle (Utf8.ofString "a=")) logText))

/-- A command's output is filtered for `a=`, or has been before. -/
theorem line_filter_greps_ssh :
    ∃ self other, Opens logHosts { cmd := some [], lineFilter := some (Utf8.ofString "a=") } self ∧
      Opens logHosts { cmd := some [] } other ∧
      self.scanLogfmt.map (LazyLogFmtReader.observe [.scan {} {}, .scan { nRows := some 1 } {}]) =
        other.scanLogfmt.map (LazyLogFmtReader.observe [.scan {} {},
          .scan { nRows := some 1 } {}]) := by
  have hself : Opens logHosts { cmd := some [], lineFilter := some (Utf8.ofString "a=") }
      (LogfmtScanOpts.logs { cmd := some [], lineFilter := some (Utf8.ofString "a=") }
        (.ssh (.ok (.ofBytes logText)))) :=
    @Opens.scanLogfmt _ _ _ (logUrl (Utf8.ofString "here")) _ rfl
  have hother : Opens logHosts { cmd := some [] } (LogfmtScanOpts.logs { cmd := some [] }
      (.ssh (.ok (.ofBytes (grep (containsNeedle (Utf8.ofString "a=")) logText))))) :=
    @Opens.scanLogfmt _ _ _ (logUrl (Utf8.ofString "there")) _ rfl
  refine ⟨_, _, hself, hother, ?_⟩
  refine @line_filter_greps _ logHosts { cmd := some [] }
    (Utf8.ofString "a=") logText _ _ hself hother
    rfl rfl rfl (by decide +kernel) ?_ ?_ [({}, {}, {}), ({ nRows := some 1 }, {}, {})]
  · intro origin frames probe horigin
    cases horigin
  · intro origin frames probe horigin
    cases horigin

end

end PolarsLogfmt
