import PolarsLogfmt.Lazy.SharedReader

/-!
# Collecting a lazy frame again

The first collect of a lazy frame goes on from the stream the schema was inferred from, later ones
open the source again. All of them return what a scan of the untouched reader returns.
-/

namespace PolarsLogfmt

section

variable [Crates]

namespace LazyLogFmtReader

/-- A scan that goes on from the stream of the probe is the scan that opens its own. -/
theorem scan_probed {self : LazyLogFmtReader} {text : Bytes} (hsource : self.source.Delivers text)
    {schema : Schema} (hschema : self.textSchema text = .ok schema) {probe : Option LineReader}
    (hprobe : probe = none ∨ probe = self.source.resumed text) (scanOpts : AnonymousScanArgs)
    (sched : Schedule) :
    AnonymousScan.scan { self with schema := some schema } scanOpts sched probe =
      AnonymousScan.scan self scanOpts sched none := by
  have hreader : ∀ reader ∈ probe, reader = .ofBytes text := by
    intro reader hmem
    rcases hprobe with rfl | rfl
    · cases hmem
    · unfold LogFmtSource.resumed at hmem
      cases hs : self.source with
      | ssh connect =>
        rw [hs] at hmem
        exact (Option.some.inj hmem).symm
      | _ =>
        rw [hs] at hmem
        cases hmem
  have hattempt : (self.scanReader schema).attempt scanOpts sched probe =
      (self.scanReader schema).attempt scanOpts sched none := by
    rcases hprobe with rfl | rfl
    · rfl
    · exact @attempt_resumed _ (self.scanReader schema) scanOpts sched text
  have htext : (self.scanReader schema).scanText scanOpts sched text probe =
      (self.scanReader schema).scanText scanOpts sched text none := by
    unfold scanText
    rw [hattempt]
  rw [@scan_delivers _ { self with schema := some schema } text hsource scanOpts sched probe
    hreader, scan_delivers hsource scanOpts sched (by simp), hschema]
  show ((self.scanReader schema).scanText scanOpts sched text probe).map _ =
    ((self.scanReader schema).scanText scanOpts sched text (self.schema.bind fun _ => none)).map _
  rw [htext, Option.bind_fun_none]

/-- So are the scans after it, which open the source again. -/
theorem answers_scans {self : LazyLogFmtReader} {text : Bytes} (hsource : self.source.Delivers text)
    {schema : Schema} (hschema : self.textSchema text = .ok schema) {probe : Option LineReader}
    (hprobe : probe = none ∨ probe = self.source.resumed text)
    (collects : List (AnonymousScanArgs × Schedule)) :
    answers { self with schema := some schema } { reader := probe }
        (collects.map fun c => .scan c.1 c.2) =
      collects.map fun c => (AnonymousScan.scan self c.1 c.2 none).map some := by
  induction collects generalizing probe with
  | nil => rfl
  | cons collect collects ih =>
    rw [List.map_cons, List.map_cons, answers]
    congr 1
    · show (AnonymousScan.scan _ _ _ probe).map some = _
      rw [scan_probed hsource hschema hprobe]
    · exact ih (.inl rfl)

end LazyLogFmtReader

/-- Every collect of a lazy frame, the first and any later one, with whatever pushed down, returns
what a scan of the reader it was made of returns. -/
theorem collects_agree {self : LazyLogFmtReader} {text : Bytes}
    (hsource : self.source.Delivers text)
    {logs : LazyLogFmtReader} {probe : Option LineReader} {promise : List (Bytes × DataType)}
    (hscan : self.scanLogfmt = .ok (logs, probe, promise))
    (collects : List (AnonymousScanArgs × Schedule)) :
    logs.answers { reader := probe } (collects.map fun c => .scan c.1 c.2) =
      collects.map fun c => (AnonymousScan.scan self c.1 c.2 none).map some := by
  obtain ⟨schema, hschema, rfl, hprobe⟩ := LazyLogFmtReader.scanLogfmt_delivers hsource hscan
  exact LazyLogFmtReader.answers_scans hsource hschema hprobe collects

end

section

attribute [local instance] smallCrates

/-- The output of a command. -/
def sshReader : LazyLogFmtReader := { source := .ssh (.ok (.ofBytes (Utf8.ofString "a=1\n"))) }

/-- The output is read for the schema, for the first collect and for a second one. -/
theorem collects_agree_ssh :
    ∃ logs probe promise, sshReader.scanLogfmt = .ok (logs, probe, promise) ∧
      logs.answers { reader := probe } [.scan {} {}, .scan { nRows := some 1 } {}] =
        [(AnonymousScan.scan sshReader {} {} none).map some,
          (AnonymousScan.scan sshReader { nRows := some 1 } {} none).map some] := by
  have hscans : sshReader.scanLogfmt.toOption.isSome = true := by decide +kernel
  cases hscan : sshReader.scanLogfmt with
  | error e =>
    rw [hscan] at hscans
    cases hscans
  | ok scanned =>
    obtain ⟨logs, probe, promise⟩ := scanned
    have hsource : sshReader.source.Delivers (Utf8.ofString "a=1\n") := rfl
    exact ⟨logs, probe, promise, rfl,
      collects_agree hsource hscan [({}, {}), ({ nRows := some 1 }, {})]⟩

end

end PolarsLogfmt
