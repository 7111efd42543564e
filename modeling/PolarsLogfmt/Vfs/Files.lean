import PolarsLogfmt.Lazy.FrameTexts
import PolarsLogfmt.Misc.Runs
import PolarsLogfmt.Vfs.ZstFrames

/-!
# Open files

The files of `ssh_vfs`: plain ones and compressed ones, local and on a host. A compressed one reads
what its decoder makes of the file, and keeps on reading until the buffer is full; the ones on a
host count the offset themselves.
-/

namespace PolarsLogfmt

/-- `VfsFileStat`, with the time of the last change in seconds. -/
structure VfsFileStat where
  size : Nat
  isSeekable : Bool
  mtime : Option Nat
deriving DecidableEq

/-- `SeekableVfsFile`, but for `clone_handle`, which opens the path again. -/
class VfsFile (F : Type) where
  seek : F → Nat → Except IoError Nat × F
  read : F → Nat → Except IoError Bytes × F
  size : F → Except IoError Nat
  stat : F → Except IoError VfsFileStat
  seekTableDecompFrames : F → Option (List (Nat × Nat)) := fun _ => none

/-- `LocalSeekableFile`. What the metadata of the open file says of its last change is read
when it is asked for. -/
structure LocalSeekableFile where
  file : Handle
  size : Nat
  path : Bytes
  modified : Except IoError (Option Nat)

instance : VfsFile LocalSeekableFile where
  seek f pos :=
    match f.file.seek pos with
    | (.error e, file) => (.error e, { f with file := file })
    | (.ok (), file) => (.ok pos, { f with file := file })
  read f len :=
    match f.file.read len with
    | (.error e, file) => (.error e, { f with file := file })
    | (.ok bytes, file) => (.ok bytes, { f with file := file })
  size f := .ok f.size
  stat f := f.modified.map fun mtime => { size := f.size, isSeekable := true, mtime := mtime }

/-- `SshSeekablePlainFile`. -/
structure SshSeekablePlainFile where
  path : Bytes
  offset : Nat
  size : Option Nat
  file : Option Handle

def fileNotInitialized : IoError := Utf8.ofString "file not initialized"

def sizeUnknown : IoError := Utf8.ofString "size unknown"

instance : VfsFile SshSeekablePlainFile where
  seek f pos :=
    match f.file with
    | some file =>
        match file.seek pos with
        | (.error e, file) => (.error e, { f with file := some file })
        | (.ok (), file) => (.ok pos, { f with file := some file, offset := pos })
    | none => (.error fileNotInitialized, f)
  read f len :=
    match f.file with
    | some file =>
        match file.read len with
        | (.error e, file) => (.error e, { f with file := some file })
        | (.ok bytes, file) =>
            (.ok bytes, { f with file := some file, offset := f.offset + bytes.length })
    | none => (.error fileNotInitialized, f)
  size f := f.size.elim (.error sizeUnknown) .ok
  stat f := .ok { size := f.size.getD 0, isSeekable := true, mtime := none }

/-- `zeekstd::Decoder`: a reader of the decompressed text, and the seek table of the file. -/
structure Decoder where
  reader : Handle
  seekTable : SeekTable

/-- `LocalSeekableZstdFile`. -/
structure LocalSeekableZstdFile where
  inner : Decoder
  pos : Nat
  size : Nat
  path : Bytes

instance : VfsFile LocalSeekableZstdFile where
  seek f pos :=
    match f.inner.reader.seek pos with
    | (.error e, reader) => (.error e, { f with inner := { f.inner with reader := reader } })
    | (.ok (), reader) =>
        (.ok pos, { f with inner := { f.inner with reader := reader }, pos := pos })
  read f len :=
    match fillBuf f.inner.reader len [] with
    | (.error e, reader) => (.error e, { f with inner := { f.inner with reader := reader } })
    | (.ok bytes, reader) =>
        (.ok bytes,
          { f with inner := { f.inner with reader := reader }, pos := f.pos + bytes.length })
  size f := .ok f.size
  stat f := .ok { size := f.size, isSeekable := true, mtime := none }
  seekTableDecompFrames f := f.inner.seekTable.decompFrames

/-- `SshSeekableZstFile`. -/
structure SshSeekableZstFile where
  path : Bytes
  offset : Nat
  size : Option Nat
  decoder : Option Decoder

def decoderNotInitialized : IoError := Utf8.ofString "decoder not initialized"

instance : VfsFile SshSeekableZstFile where
  seek f pos :=
    match f.decoder with
    | some decoder =>
        match decoder.reader.seek pos with
        | (.error e, reader) => (.error e,
          { f with decoder := some { decoder with reader := reader } })
        | (.ok (), reader) =>
            (.ok pos, { f with decoder := some { decoder with reader := reader }, offset := pos })
    | none => (.error decoderNotInitialized, f)
  read f len :=
    match f.decoder with
    | some decoder =>
        match fillBuf decoder.reader len [] with
        | (.error e, reader) => (.error e,
          { f with decoder := some { decoder with reader := reader } })
        | (.ok bytes, reader) =>
            (.ok bytes,
              { f with
                decoder := some { decoder with reader := reader }
                offset := f.offset + bytes.length })
    | none => (.error decoderNotInitialized, f)
  size f := f.size.elim (.error sizeUnknown) .ok
  stat f := .ok { size := f.size.getD 0, isSeekable := true, mtime := none }
  seekTableDecompFrames f := f.decoder.bind fun decoder => decoder.seekTable.decompFrames

/-! ## Opening -/

/-- A file that has been opened: what it holds, how the calls on it turn out, and its metadata. -/
structure FoundFile where
  content : Bytes
  replies : List Reply
  len : Except IoError Nat
  modified : Except IoError (Option Nat)

/-- A decoder that has been made of a file: what it decompresses to, how the calls on it turn out,
and the seek table of the file. -/
structure FoundFrames where
  content : Bytes
  replies : List Reply
  seekTable : SeekTable

def FoundFrames.decoder (found : FoundFrames) : Decoder :=
  { reader := { content := found.content, replies := found.replies }, seekTable := found.seekTable }

/-- `ssh2::Sftp`: the plain files of a host, each with the size the host reports, and what decoders
make of them. Errors are as `open` words them. -/
structure Sftp where
  plain : Bytes → Except IoError (FoundFile × Except IoError (Option Nat))
  frames : Bytes → Except IoError FoundFrames

/-- `SshSeekableZstdVfs`, with what it opens files through: `connect` parses the address,
connects and authenticates, and gives the path on the host and its files. -/
structure SshSeekableZstdVfs where
  plain : Bytes → Except IoError FoundFile
  frames : Bytes → Except IoError FoundFrames
  connect : Bytes → Except IoError (Bytes × Sftp)

/-- `LocalSeekableFile::open`. -/
def LocalSeekableFile.openFile (vfs : SshSeekableZstdVfs) (path : Bytes) :
    Except IoError LocalSeekableFile := do
  let found ← vfs.plain path
  let size ← found.len
  return {
    file := { content := found.content, replies := found.replies }
    size := size
    path := path
    modified := found.modified }

/-- `LocalSeekableZstdFile::open`. -/
def LocalSeekableZstdFile.openFile (vfs : SshSeekableZstdVfs) (path : Bytes) :
    Except IoError LocalSeekableZstdFile := do
  let found ← vfs.frames path
  return { inner := found.decoder, pos := 0, size := found.seekTable.size, path := path }

/-- `SshSeekablePlainFile::open`. -/
def SshSeekablePlainFile.openFile (sftp : Sftp) (path : Bytes) :
    Except IoError SshSeekablePlainFile := do
  let (found, stat) ← sftp.plain path
  let size ← stat
  return {
    path := path
    offset := 0
    size := size
    file := some { content := found.content, replies := found.replies } }

/-- `SshSeekableZstFile::open`. -/
def SshSeekableZstFile.openFile (sftp : Sftp) (path : Bytes) :
    Except IoError SshSeekableZstFile := do
  let found ← sftp.frames path
  return {
    path := path
    offset := 0
    size := some found.seekTable.size
    decoder := some found.decoder }

/-- `Box<dyn SeekableVfsFile>`, as `SshSeekableZstdVfs::open` returns it. -/
inductive OpenFile where
  | localPlain (f : LocalSeekableFile)
  | localZst (f : LocalSeekableZstdFile)
  | sshPlain (f : SshSeekablePlainFile)
  | sshZst (f : SshSeekableZstFile)

instance : VfsFile OpenFile where
  seek f pos :=
    match f with
    | .localPlain f => (VfsFile.seek f pos).map id .localPlain
    | .localZst f => (VfsFile.seek f pos).map id .localZst
    | .sshPlain f => (VfsFile.seek f pos).map id .sshPlain
    | .sshZst f => (VfsFile.seek f pos).map id .sshZst
  read f len :=
    match f with
    | .localPlain f => (VfsFile.read f len).map id .localPlain
    | .localZst f => (VfsFile.read f len).map id .localZst
    | .sshPlain f => (VfsFile.read f len).map id .sshPlain
    | .sshZst f => (VfsFile.read f len).map id .sshZst
  size
    | .localPlain f => VfsFile.size f
    | .localZst f => VfsFile.size f
    | .sshPlain f => VfsFile.size f
    | .sshZst f => VfsFile.size f
  stat
    | .localPlain f => VfsFile.stat f
    | .localZst f => VfsFile.stat f
    | .sshPlain f => VfsFile.stat f
    | .sshZst f => VfsFile.stat f
  seekTableDecompFrames
    | .localPlain f => VfsFile.seekTableDecompFrames f
    | .localZst f => VfsFile.seekTableDecompFrames f
    | .sshPlain f => VfsFile.seekTableDecompFrames f
    | .sshZst f => VfsFile.seekTableDecompFrames f

/-- The path ends like that of a compressed file. -/
def isZstPath (path : Bytes) : Bool :=
  (Utf8.ofString ".zst").isSuffixOf path || (Utf8.ofString ".seek.zst").isSuffixOf path

/-- `SshSeekableZstdVfs::open`. -/
def SshSeekableZstdVfs.openFile (vfs : SshSeekableZstdVfs) (path : Bytes) :
    Except IoError OpenFile :=
  if (Utf8.ofString "ssh://").isPrefixOf path then
    match vfs.connect path with
    | .error e => .error e
    | .ok (pathOnRemote, sftp) =>
        if isZstPath pathOnRemote then (SshSeekableZstFile.openFile sftp pathOnRemote).map .sshZst
        else (SshSeekablePlainFile.openFile sftp pathOnRemote).map .sshPlain
  else if isZstPath path then (LocalSeekableZstdFile.openFile vfs path).map .localZst
  else (LocalSeekableFile.openFile vfs path).map .localPlain

/-! ## Calls -/

/-- A call that moves a file. -/
inductive FileCall where
  | seek (pos : Nat)
  | read (len : Nat)
deriving DecidableEq

/-- Where a seek has gone to, or the bytes a read has got. -/
abbrev FileAnswer := Except IoError (Nat ⊕ Bytes)

/-- The answer to a call, and the file after it. -/
def VfsFile.answer {F : Type} [VfsFile F] (f : F) : FileCall → FileAnswer × F
  | .seek pos => ((seek f pos).1.map .inl, (seek f pos).2)
  | .read len => ((read f len).1.map .inr, (read f len).2)

end PolarsLogfmt
