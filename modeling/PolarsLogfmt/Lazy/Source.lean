import PolarsLogfmt.Misc.Scan
import PolarsLogfmt.Lazy.LineReader

/-!
# Sources

Where a scan reads from: an ssh command, a cursor, a seekable file or text read by
unit. A handle on a seekable file may fail a call or read fewer bytes than
asked for; how it behaves is a list of replies, and once they are used up every
call succeeds in full.
-/

namespace PolarsLogfmt

/-! ## Seekable files -/

/-- How a call on a handle turns out: it fails, or, if it reads, it returns at most
`most + 1` bytes. -/
inductive Reply where
  | error (e : IoError)
  | short (most : Nat)
deriving DecidableEq

/-- An open handle on a file. -/
structure Handle where
  content : Bytes
  pos : Nat := 0
  replies : List Reply := []

namespace Handle

/-- `SeekableVfsFile::seek`. -/
def seek (h : Handle) (pos : Nat) : Except IoError Unit × Handle :=
  match h.replies with
  | .error e :: replies => (.error e, { h with replies := replies })
  | _ => (.ok (), { h with pos := pos, replies := h.replies.tail })

/-- `Read::read` into a buffer of `len` bytes: the bytes read, none at the end. -/
def read (h : Handle) (len : Nat) : Except IoError Bytes × Handle :=
  let got (most : Nat) := (h.content.drop h.pos).take (min len most)
  match h.replies with
  | .error e :: replies => (.error e, { h with replies := replies })
  | .short most :: replies =>
      (.ok (got (most + 1)),
        { h with pos := h.pos + (got (most + 1)).length, replies := replies })
  | [] => (.ok (got len), { h with pos := h.pos + (got len).length })

/-- The size of the buffer of a `BufReader`. -/
def bufSize : Nat := 8 * 1024

/-- What is left to do with a handle: replies and bytes. -/
def left (h : Handle) : Nat := h.replies.length + (h.content.length - h.pos)

theorem read_left {h : Handle} {len : Nat} {bytes : Bytes} (hb : (h.read len).1 = .ok bytes)
    (hne : bytes ≠ []) : (h.read len).2.left < h.left := by
  have hpos := List.length_pos_of_ne_nil hne
  unfold read at hb ⊢
  unfold left
  split at hb
  · cases hb
  · rename_i hr
    cases hb
    simp only [hr, List.length_cons]
    omega
  · rename_i hr
    cases hb
    rw [List.length_take, List.length_drop] at hpos
    simp only [hr, List.length_take, List.length_drop]
    omega

theorem read_left_of_error {h : Handle} {len : Nat} {e : IoError} (he : (h.read len).1 = .error e) :
    (h.read len).2.left < h.left := by
  unfold read at he ⊢
  unfold left
  split at he
  · rename_i hr
    simp only [hr, List.length_cons]
    omega
  · cases he
  · cases he

/-- The chunks and errors a `BufReader` gets from the handle up to the end of the
file. -/
def chunks (h : Handle) : List (Except IoError Bytes) :=
  match _hr : (h.read bufSize).1 with
  | .error e => .error e :: chunks (h.read bufSize).2
  | .ok bytes =>
      if _hb : bytes = [] then [] else .ok bytes :: chunks (h.read bufSize).2
termination_by h.left
decreasing_by
  · exact read_left_of_error _hr
  · exact read_left _hr _hb

/-- A `BufReader` over the handle. -/
def lineReader (h : Handle) : LineReader := ⟨chunkLines [] h.chunks, none⟩

end Handle

/-- What a handle is cloned for: each place of the program that clones one. -/
inductive HandleUse where
  | scan
  | infer
  | frames
  | predict
  | lines
  | worker (w : Nat)
deriving DecidableEq

/-- A `SeekableVfsFile`: its size and seek table as it reports them, and the handles
cloned from it. -/
structure SeekableVfsFile where
  content : Bytes
  size : Except IoError Nat
  seekTableDecompFrames : Option (List (Nat × Nat))
  replies : HandleUse → Except IoError (List Reply)

/-- `clone_handle`. -/
def SeekableVfsFile.cloneHandle (file : SeekableVfsFile) (use : HandleUse) :
    Except IoError Handle :=
  (file.replies use).map fun replies => { content := file.content, replies := replies }

/-! ## Units -/

/-- A `UnitSource`. -/
structure UnitSource where
  units : List (Except IoError Bytes)
  countUnits : Option Nat

/-- `read_unit`: the unit, or `none` when there is no such unit. -/
def UnitSource.readUnit (u : UnitSource) (index : Nat) : Except IoError (Option Bytes) :=
  match u.units[index]? with
  | some unit => unit.map some
  | none => .ok none

/-- The lines of a `UnitsReader`, which stays at a unit it cannot read. -/
def unitLines (pending : Bytes) : List (Except IoError Bytes) → LineReader
  | [] => ⟨textLines pending, none⟩
  | .ok unit :: units => unitLines (pending ++ unit) units
  | .error e :: _ => ⟨finishedLines pending, some e⟩

def UnitSource.lineReader (u : UnitSource) : LineReader := unitLines [] u.units

/-! ## Sources -/

/-- `LogFmtSource`. An ssh source is what connecting and running its command gives. -/
inductive LogFmtSource where
  | ssh (connect : Except IoError LineReader)
  | cursor (content : Bytes)
  | seekable (file : SeekableVfsFile)
  | units (units : UnitSource)

/-! ## Frames -/

/-- A byte range of a file, or the number of a unit. -/
structure FrameRange where
  idx : Nat
  start : Nat := 0
  len : Nat := 0
deriving DecidableEq

/-- `MAX_FRAME_SIZE`. -/
def maxFrameSize : Nat := 4 * 1024 * 1024

/-- `CHECK_SIZE`. -/
def checkSize : Nat := 4096

theorem maxFrameSize_pos : 0 < maxFrameSize := by norm_num [maxFrameSize]

theorem checkSize_pos : 0 < checkSize := by norm_num [checkSize]

/-- `buf.iter().rposition(|&b| b == DELIM)`. -/
def rposition (delim : UInt8) (buf : Bytes) : Option Nat :=
  (List.range buf.length).reverse.find? fun i => buf[i]? == some delim

/-- The search backwards from `pos` for the newline that ends the frame from `start`;
`stop` is the end when none is found. A read that comes up short leaves zeros in
the rest of the buffer, which are no newlines. -/
def searchDelim (h : Handle) (start stop pos : Nat) : Nat × Handle :=
  if start < pos then
    let readSize := min checkSize (pos - start)
    let seekPos := pos - readSize
    let (sought, h) := h.seek seekPos
    let (found, h) : Option Nat × Handle :=
      match sought with
      | .error _ => (none, h)
      | .ok () =>
          match h.read readSize with
          | (.error _, h) => (none, h)
          | (.ok buf, h) => (rposition newline buf, h)
    match found with
    | some relpos => (seekPos + relpos + 1, h)
    | none => if pos < readSize + start then (stop, h)
      else searchDelim h start stop (pos - readSize)
  else (stop, h)
termination_by pos
decreasing_by
  have := checkSize_pos
  omega

theorem lt_searchDelim {h : Handle} {start stop pos : Nat} (hs : start < stop) :
    start < (searchDelim h start stop pos).1 := by
  fun_induction searchDelim h start stop pos with
  | case1 h pos hpos readSize seekPos =>
    simp only
    omega
  | case2 => exact hs
  | case3 h pos hpos readSize seekPos sought h' hseek h'' hfound hle ih => exact ih
  | case4 => exact hs

/-- The end of the frame that starts at `start`: after the last newline of its window of
`maxFrame` bytes, except for the last frame. -/
def frameEnd (maxFrame total : Nat) (h : Handle) (start : Nat) : Nat × Handle :=
  let window := min (start + maxFrame) total
  if window < total then searchDelim h start window window else (window, h)

theorem lt_frameEnd {maxFrame total : Nat} {h : Handle} {start : Nat} (hm : 0 < maxFrame)
    (hs : start < total) : start < (frameEnd maxFrame total h start).1 := by
  have hw : start < min (start + maxFrame) total := lt_min (Nat.lt_add_of_pos_right hm) hs
  rw [frameEnd]
  generalize min (start + maxFrame) total = window at hw ⊢
  by_cases hlast : window < total
  · rw [if_pos hlast]
    exact lt_searchDelim hw
  · rw [if_neg hlast]
    exact hw

/-- The loop of `frames_from_seekable_without_seekable_zst` from `start`, and the handle as
the search leaves it. -/
def framesFrom (maxFrame total : Nat) (hm : 0 < maxFrame) (h : Handle) (idx start : Nat) :
    List FrameRange × Handle :=
  if _hs : start < total then
    let found := frameEnd maxFrame total h start
    let rest := framesFrom maxFrame total hm found.2 (idx + 1) found.1
    ({ idx := idx, start := start, len := found.1 - start } :: rest.1, rest.2)
  else ([], h)
termination_by total - start
decreasing_by exact Nat.sub_lt_sub_left _hs (lt_frameEnd hm _hs)

/-- `frames_from_seekable`, and the handle as the search leaves it. -/
def framesFromSeekable (file : SeekableVfsFile) (h : Handle) : Option (List FrameRange) × Handle :=
  match file.seekTableDecompFrames with
  | some frames =>
      (some (frames.mapIdx fun idx (start, len) => { idx := idx, start := start, len := len }), h)
  | none =>
      match file.size with
      | .error _ => (none, h)
      | .ok total =>
          if total = 0 then (none, h)
          else
            let (frames, h) := framesFrom maxFrameSize total maxFrameSize_pos h 0 0
            (some frames, h)

/-! ## Reading a frame -/

/-- `FrameBytes`: where the parallel scan reads the bytes of a frame from. The one
buffer a worker reuses is replaced by every frame it reads. -/
class FrameBytes (F : Type) where
  /-- The length of the frame and its bytes, or `none` when it is to be skipped. -/
  readFrame : F → FrameRange → Except IoError (Option (Nat × Bytes)) × F

/-- The loop that fills the buffer of `len` bytes, of which `got` are read. -/
def fillBuf (h : Handle) (len : Nat) (got : Bytes) : Except IoError Bytes × Handle :=
  if _hn : got.length < len then
    match _hr : (h.read (len - got.length)).1 with
    | .error e => (.error e, (h.read (len - got.length)).2)
    | .ok bytes =>
        if _hb : bytes = [] then (.ok got, (h.read (len - got.length)).2)
        else fillBuf (h.read (len - got.length)).2 len (got ++ bytes)
  else (.ok got, h)
termination_by len - got.length
decreasing_by
  have := List.length_pos_of_ne_nil _hb
  rw [List.length_append]
  omega

instance : FrameBytes Handle where
  readFrame h range :=
    if range.len = 0 then (.ok none, h)
    else
      match h.seek range.start with
      | (.error e, h) => (.error e, h)
      | (.ok (), h) =>
          let (result, h) := fillBuf h range.len []
          (result.map fun bytes => some (range.len, bytes), h)

instance : FrameBytes UnitSource where
  readFrame u range := ((u.readUnit range.idx).map (·.map fun bytes => (bytes.length, bytes)), u)

/-- `Box<dyn FrameBytes + Send>`, as `FrameOrigin::clone_handle` returns it. -/
inductive FrameHandle where
  | file (handle : Handle)
  | units (units : UnitSource)

instance : FrameBytes FrameHandle where
  readFrame
    | .file h, range => let (result, h) := FrameBytes.readFrame h range; (result, .file h)
    | .units u, range => let (result, u) := FrameBytes.readFrame u range; (result, .units u)

/-- What the workers of the parallel scan take their frames from. -/
inductive FrameOrigin where
  | file (file : SeekableVfsFile)
  | units (units : UnitSource)

/-- `FrameOrigin::clone_handle` for worker `w`. -/
def FrameOrigin.cloneHandle (w : Nat) : FrameOrigin → Except IoError FrameHandle
  | .file f => (f.cloneHandle (.worker w)).map .file
  | .units u => .ok (.units u)

end PolarsLogfmt
