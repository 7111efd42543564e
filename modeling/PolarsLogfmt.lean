import PolarsLogfmt.Misc.Lines
import PolarsLogfmt.Misc.Utf8
import PolarsLogfmt.Misc.Scan
import PolarsLogfmt.Misc.SideBySide
import PolarsLogfmt.Misc.SharedCounter
import PolarsLogfmt.Misc.MergeMaps
import PolarsLogfmt.Misc.BufferedStream
import PolarsLogfmt.Misc.SplitOnce
import PolarsLogfmt.Crates
import PolarsLogfmt.Logfmt.Parser
import PolarsLogfmt.Logfmt.ParserSuffix
import PolarsLogfmt.Logfmt.Encode
import PolarsLogfmt.Logfmt.Value
import PolarsLogfmt.Frame.Column
import PolarsLogfmt.Frame.DataFrame
import PolarsLogfmt.Frame.Table
import PolarsLogfmt.Lazy.LineReader
import PolarsLogfmt.Lazy.RowsToDataframe
import PolarsLogfmt.Lazy.InferSchema
import PolarsLogfmt.Lazy.Source
import PolarsLogfmt.Lazy.DataFrameMaker
import PolarsLogfmt.Lazy.MakerTracks
import PolarsLogfmt.Lazy.TrackCells
import PolarsLogfmt.Lazy.SchemaRows
import PolarsLogfmt.Lazy.ParseFrames
import PolarsLogfmt.Lazy.Pushdown
import PolarsLogfmt.Lazy.ParseBatch
import PolarsLogfmt.Lazy.Reader
import PolarsLogfmt.Lazy.Scan
import PolarsLogfmt.Misc.Batches
import PolarsLogfmt.Lazy.BatchRows
import PolarsLogfmt.Lazy.BatchLines
import PolarsLogfmt.Lazy.ScanBatches
import PolarsLogfmt.Lazy.WorkerLines
import PolarsLogfmt.Lazy.Chunks
import PolarsLogfmt.Lazy.AlignedFrame
import PolarsLogfmt.Lazy.WorkerFrame
import PolarsLogfmt.Lazy.FrameTexts
import PolarsLogfmt.Lazy.ParallelFrames
import PolarsLogfmt.Lazy.SourceTexts
import PolarsLogfmt.Lazy.UnitsReader
import PolarsLogfmt.Lazy.ScanPaths
import PolarsLogfmt.Proofs.CellParity
import PolarsLogfmt.Proofs.SlotClaims
import PolarsLogfmt.Proofs.RowConservation
import PolarsLogfmt.Logfmt.LineEnd
import PolarsLogfmt.Logfmt.BareWords
import PolarsLogfmt.Logfmt.ParserSafety
import PolarsLogfmt.Proofs.PartialSchema
import PolarsLogfmt.Proofs.AlignedKeys
import PolarsLogfmt.Proofs.MakerInvariant
import PolarsLogfmt.Lazy.FrameTiling
import PolarsLogfmt.Lazy.FrameBuffer
import PolarsLogfmt.Proofs.FrameContent
import PolarsLogfmt.Lazy.FrameSearch
import PolarsLogfmt.Proofs.FrameBoundaries
import PolarsLogfmt.Proofs.InferenceEntry
import PolarsLogfmt.Lazy.InferText
import PolarsLogfmt.Lazy.ProbedLines
import PolarsLogfmt.Lazy.ProbeBytes
import PolarsLogfmt.Lazy.ReadableChunks
import PolarsLogfmt.Lazy.WorkerTexts
import PolarsLogfmt.Lazy.UnalignedAttempt
import PolarsLogfmt.Lazy.SliceReach
import PolarsLogfmt.Lazy.AlignedAttempt
import PolarsLogfmt.Lazy.TextBatches
import PolarsLogfmt.Lazy.StackedBatches
import PolarsLogfmt.Lazy.ScanOutcome
import PolarsLogfmt.Lazy.AlignedScan
import PolarsLogfmt.Lazy.FirstBatch
import PolarsLogfmt.Lazy.NextBatch
import PolarsLogfmt.Lazy.CallRuns
import PolarsLogfmt.Lazy.ReadableCalls
import PolarsLogfmt.Lazy.CellDetour
import PolarsLogfmt.Proofs.SourceKinds
import PolarsLogfmt.Proofs.BatchSize
import PolarsLogfmt.Proofs.SourceIndependence
import PolarsLogfmt.Proofs.InferredSchema
import PolarsLogfmt.Proofs.ProbeLossless
import PolarsLogfmt.Proofs.UnitsInOrder
import PolarsLogfmt.Proofs.FailedBatch
import PolarsLogfmt.Proofs.ExactlyOnce
import PolarsLogfmt.Proofs.ScanTerminates
import PolarsLogfmt.Logfmt.Filter
import PolarsLogfmt.Logfmt.Decimal
import PolarsLogfmt.Proofs.FilterSpecs
import PolarsLogfmt.Proofs.EqualityFilter
import PolarsLogfmt.Frame.TimeFilter
import PolarsLogfmt.Proofs.TimeFilters
import PolarsLogfmt.Proofs.AlignedCuts
import PolarsLogfmt.Lazy.SequentialScan
import PolarsLogfmt.Lazy.PushedFrames
import PolarsLogfmt.Proofs.PushdownTransparency
import PolarsLogfmt.Frame.FrameSchema
import PolarsLogfmt.Lazy.BatchSchema
import PolarsLogfmt.Proofs.PromisedSchema
import PolarsLogfmt.Lazy.ShownLines
import PolarsLogfmt.Proofs.RowFilter
import PolarsLogfmt.Misc.Overflow
import PolarsLogfmt.Logfmt.Micros
import PolarsLogfmt.Lazy.MadeColumns
import PolarsLogfmt.Proofs.DurationMicros
import PolarsLogfmt.Frame.Rows
import PolarsLogfmt.Proofs.WorkSplitting
import PolarsLogfmt.Proofs.ParallelParity
import PolarsLogfmt.Lazy.SharedReader
import PolarsLogfmt.Proofs.RepeatedCollects
import PolarsLogfmt.Proofs.Handover
import PolarsLogfmt.Proofs.OneDelivery
import PolarsLogfmt.Lazy.FramePrograms
import PolarsLogfmt.Proofs.RowLimit
import PolarsLogfmt.Vfs.ZstFrames
import PolarsLogfmt.Proofs.ZstSource
import PolarsLogfmt.Misc.Runs
import PolarsLogfmt.Vfs.Files
import PolarsLogfmt.Proofs.FileRuns
import PolarsLogfmt.Misc.SlotShares
import PolarsLogfmt.Proofs.LimitShares
import PolarsLogfmt.Lazy.AcceptedScan
import PolarsLogfmt.Lazy.ScanOpts
import PolarsLogfmt.Proofs.LineGrep
import PolarsLogfmt.Proofs.GrownLog
import PolarsLogfmt.Logfmt.OldParser
import PolarsLogfmt.Proofs.OldParser
import PolarsLogfmt.Proofs.ParserParity
import PolarsLogfmt.Proofs.LimitedPushdown
import PolarsLogfmt.Proofs.EagerFrame
import PolarsLogfmt.Frame.SelectedRows
import PolarsLogfmt.Lazy.WorkerColumns
import PolarsLogfmt.Lazy.AttemptFrames
import PolarsLogfmt.Lazy.SelectedFrames
import PolarsLogfmt.Lazy.LineOrigins
