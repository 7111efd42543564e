import PolarsLogfmt.Lazy.Scan

/-!
# Opening a scan

A host opens a source with the options of `LogfmtScanOpts`: by `scan_logfmt`, which opens the
source itself, or by the plugin's `Logfmt::scan`, which is handed its bytes. Both make a reader with
`LazyLogFmtReaderBuilder`, and scan it.
-/

namespace PolarsLogfmt

/-- `LogfmtScanOpts`. -/
structure LogfmtScanOpts where
  lineFilter : Option Bytes := none
  schema : Option Schema := none
  inferSchemaLength : Option Nat := none
  batchSize : Option Nat := none
  nThreads : Option Nat := none
  alignedColsCnt : Bool := false
  cmd : Option Bytes := none

/-- `SshSource`. -/
structure SshSource where
  user : Bytes
  host : Bytes
  port : Nat
  path : Bytes
  lineFilter : Option Bytes := none

/-- What the `url` crate reads of a URL. -/
structure Url where
  scheme : Bytes
  username : Bytes
  host : Option Bytes
  port : Option Nat
  path : Bytes

/-- What is outside of the program: how a URL is read, what opening a path gives, and what running
a command on a host prints, decompressed if it is a zstd file. -/
structure Outside where
  parseUrl : Bytes → Except Bytes Url
  openPath : Bytes → Except Bytes SeekableVfsFile
  runCommand : SshSource → Bytes → Bool → Except IoError LineReader

/-- `parse_ssh_source`. -/
def Outside.parseSshSource (outside : Outside) (source : Bytes) : Except Bytes SshSource :=
  match outside.parseUrl source with
  | .error e => .error (Utf8.ofString "invalid source url: " ++ e)
  | .ok url =>
      if url.scheme ≠ Utf8.ofString "ssh" then .error (Utf8.ofString "source scheme must be ssh")
      else if url.username = [] then .error (Utf8.ofString "source must include user")
      else
        match url.host with
        | none => .error (Utf8.ofString "source must include host")
        | some host =>
            if url.path = Utf8.ofString "/" ∨ url.path = [] then
              .error (Utf8.ofString "source must include path")
            else
              .ok { user := url.username, host := host, port := url.port.getD 22, path := url.path }

/-! ## The builder -/

/-- `SourceSpec`. -/
inductive SourceSpec where
  | path (path : Bytes)
  | cursor (content : Bytes)
  | seekable (file : SeekableVfsFile)
  | ssh (source : SshSource)
  | units (units : UnitSource)

variable [Crates]

/-- `LazyLogFmtReaderBuilder`; its defaults are those of `new`, and a setter replaces a field. -/
structure LazyLogFmtReaderBuilder where
  source : Option SourceSpec := none
  lineFilter : LineFilterFn := fun _ => true
  cmd : Option Bytes := none
  batchSize : Option Nat := none
  rowFilter : Option RowFilter := none
  schema : Option Schema := none
  alignedColsCnt : Bool := false
  nThreads : Option Nat := none
  useParallel : Bool := true
  inferSchemaLength : Nat := 1

namespace LazyLogFmtReaderBuilder

def sourceNotSet : Bytes := Utf8.ofString "LazyLogFmtReaderBuilder.source is not set"

/-- `spec_2_log_fmt_src`. An ssh source runs the command, `cat` of its path when there is none. -/
def spec2LogFmtSrc (outside : Outside) (cmd : Option Bytes) :
    Option SourceSpec → Except Bytes LogFmtSource
  | some (.path path) =>
      match outside.openPath path with
      | .error e => .error (Utf8.ofString "open " ++ path ++ Utf8.ofString ": " ++ e)
      | .ok file => .ok (.seekable file)
  | some (.seekable file) => .ok (.seekable file)
  | some (.cursor content) => .ok (.cursor content)
  | some (.ssh source) =>
      .ok (.ssh (outside.runCommand source
        (cmd.getD (Utf8.ofString "cat " ++ source.path))
        ((Utf8.ofString ".zst").isSuffixOf source.path)))
  | some (.units units) => .ok (.units units)
  | none => .error sourceNotSet

/-- `LazyLogFmtReaderBuilder::build`. -/
def build (outside : Outside) (builder : LazyLogFmtReaderBuilder) : Except Bytes LazyLogFmtReader :=
  match spec2LogFmtSrc outside builder.cmd builder.source with
  | .error e => .error e
  | .ok source =>
      .ok
        { source := source
          batchSize := builder.batchSize
          rowFilter := builder.rowFilter
          lineFilter := some builder.lineFilter
          schema := builder.schema
          alignedColsCnt := builder.alignedColsCnt
          nThreads := builder.nThreads
          useParallel := builder.useParallel
          inferSchemaLength := builder.inferSchemaLength }

end LazyLogFmtReaderBuilder

/-! ## The entry points -/

/-- `memmem::Finder::find`: the needle is somewhere in the line. -/
def containsNeedle (needle : Bytes) : LineFilterFn := fun line => needle <:+: line

namespace LogfmtScanOpts

/-- The calls on the builder both entry points make of the options. -/
def builder (opts : LogfmtScanOpts) : LazyLogFmtReaderBuilder where
  batchSize := opts.batchSize
  nThreads := opts.nThreads
  alignedColsCnt := opts.alignedColsCnt
  inferSchemaLength := opts.inferSchemaLength.getD 1
  schema := opts.schema
  lineFilter :=
    match opts.lineFilter with
    | some needle => containsNeedle needle
    | none => fun _ => true

/-- The reader `scan_logfmt` makes of a path or an `ssh://` URL. -/
def reader (outside : Outside) (opts : LogfmtScanOpts) (source : Bytes) :
    Except PolarsError LazyLogFmtReader :=
  let build := fun builder : LazyLogFmtReaderBuilder =>
    (builder.build outside).mapError .computeError
  match (Utf8.ofString "ssh://").isPrefixOf source, opts.cmd with
  | true, some cmd =>
      match outside.parseSshSource source with
      | .error e => .error (.computeError e)
      | .ok ssh => build { opts.builder with source := some (.ssh ssh), cmd := some cmd }
  | false, some _ =>
      .error (.computeError (Utf8.ofString "cmd is only valid for an ssh:// source: " ++ source))
  | _, none => build { opts.builder with source := some (.path source) }

end LogfmtScanOpts

/-- What the source before hands the plugin: bytes read at an offset, or records. -/
inductive ScanBytes where
  | readAt (content : Bytes) (len : Except IoError Nat) (replies : HandleUse → List Reply)
  | records (units : UnitSource)

/-- `ReadAtFile`: every handle is a new cursor over the bytes. -/
def readAtFile (content : Bytes) (len : Except IoError Nat) (replies : HandleUse → List Reply) :
    SeekableVfsFile where
  content := content
  size := len
  seekTableDecompFrames := none
  replies := fun use => .ok (replies use)

/-- The reader `Logfmt::scan` makes. -/
def ScanBytes.reader (outside : Outside) (opts : LogfmtScanOpts) (source : ScanBytes) :
    Except PolarsError LazyLogFmtReader :=
  if opts.cmd.isSome then
    .error (.computeError (Utf8.ofString
      ("`cmd` is not taken here: the plugin opens the source, and an ssh:// one is read over sftp")))
  else
    let spec := match source with
      | .readAt content len replies => SourceSpec.seekable (readAtFile content len replies)
      | .records units => .units units
    ({ opts.builder with source := some spec }.build outside).mapError .computeError

/-- `scan_logfmt`. -/
def LogfmtScanOpts.scanLogfmt (outside : Outside) (opts : LogfmtScanOpts) (source : Bytes) :
    Except PolarsError (LazyLogFmtReader × Option LineReader × List (Bytes × DataType)) :=
  opts.reader outside source >>= LazyLogFmtReader.scanLogfmt

/-- `Logfmt::scan`. -/
def ScanBytes.scan (outside : Outside) (opts : LogfmtScanOpts) (source : ScanBytes) :
    Except PolarsError (LazyLogFmtReader × Option LineReader × List (Bytes × DataType)) :=
  source.reader outside opts >>= LazyLogFmtReader.scanLogfmt

end PolarsLogfmt
