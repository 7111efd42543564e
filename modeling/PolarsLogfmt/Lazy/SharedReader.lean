import PolarsLogfmt.Lazy.ScanBatches
import PolarsLogfmt.Lazy.ScanPaths
import PolarsLogfmt.Lazy.SourceTexts

/-!
# The reader a lazy frame shares

A `LazyFrame` holds one reader for all its collects, and `next_batch` may be called on it, too. The
calls share `reader_state`: `scan` takes the stream out of it, `next_batch` reads on in it.
-/

namespace PolarsLogfmt

variable [Crates]

/-- A call on a shared reader. -/
inductive ReaderCall where
  | scan (scanOpts : AnonymousScanArgs) (sched : Schedule)
  | nextBatch (scanOpts : AnonymousScanArgs) (sched : Schedule)

namespace LazyLogFmtReader

variable (self : LazyLogFmtReader)

/-- What a call returns, and the state it leaves behind. The batches of `scan` are pulled from a
copy of the reader, with a state of its own. -/
def answer (state : LogFmtReaderState) :
    ReaderCall → Except PolarsError (Option DataFrame) × LogFmtReaderState
  | .scan scanOpts sched =>
      ((AnonymousScan.scan self scanOpts sched state.reader).map some,
      { state with reader := none })
  | .nextBatch scanOpts sched => self.wrrapNextBatch scanOpts sched state

/-- What some calls return, one after the other. -/
def answers (state : LogFmtReaderState) :
    List ReaderCall → List (Except PolarsError (Option DataFrame))
  | [] => []
  | call :: calls => (self.answer state call).1 :: answers (self.answer state call).2 calls

variable {self}

/-- The reader `scan_logfmt` makes has the schema of the text, and keeps a stream of an ssh source
that starts over at the first byte. -/
theorem scanLogfmt_delivers {text : Bytes} (hsource : self.source.Delivers text)
    {logs : LazyLogFmtReader} {probe : Option LineReader} {promise : List (Bytes × DataType)}
    (h : self.scanLogfmt = .ok (logs, probe, promise)) :
    ∃ schema, self.textSchema text = .ok schema ∧ logs = { self with schema := some schema } ∧
      (probe = none ∨ probe = self.source.resumed text) := by
  unfold scanLogfmt at h
  cases hschema : self.schema with
  | some schema =>
    rw [hschema] at h
    cases h
    refine ⟨schema, ?_, ?_, .inl rfl⟩
    · unfold textSchema
      rw [hschema]
    · rw [← hschema]
  | none =>
    rw [hschema, inferSchemaFromSource_delivers hsource] at h
    unfold textSchema
    rw [hschema]
    cases hfound : (inferSchemaFromReader
      (.ofBytes text) self.lineFilter self.inferSchemaLength).1 with
    | error e =>
      rw [hfound] at h
      cases h
    | ok found =>
      rw [hfound] at h
      obtain ⟨schema | schema, consumed⟩ := found
      · cases h
      · cases h
        exact ⟨schema, rfl, rfl, .inr rfl⟩

end LazyLogFmtReader

end PolarsLogfmt
