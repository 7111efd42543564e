import PolarsLogfmt.Frame.DataFrame

/-!
# Streams of lines

What successive `BufRead::read_line` calls return is a list of lines and errors,
and the error that every later call fails with, if the source is stuck at one.
`read_line` ends a line after its newline, drops a line that is no UTF-8 and
says so, and drops the bytes before an error of the source.
-/

namespace PolarsLogfmt

/-- `b'\n'`. -/
def newline : UInt8 := 0x0A

/-- The error of `read_line` on a line that is no UTF-8. -/
def invalidUtf8 : IoError := Utf8.ofString "stream did not contain valid UTF-8"

/-- A stream as its successive `read_line` results. -/
structure LineReader where
  lines : List (Except IoError Bytes)
  /-- The error every call fails with once `lines` is used up; `none` at end of file. -/
  stuck : Option IoError

/-- A line as `read_line` hands it over. -/
def checkLine (line : Bytes) : Except IoError Bytes :=
  if Utf8.Valid line then .ok line else .error invalidUtf8

/-- The lines of a text. -/
def textLines (text : Bytes) : List (Except IoError Bytes) :=
  (Lines.split newline text).map checkLine

/-- The lines of a text that end with a newline: all but an unfinished last one. -/
def finishedLines (text : Bytes) : List (Except IoError Bytes) :=
  ((Lines.split newline text).filter fun line => line.getLast? == some newline).map checkLine

/-- The lines of a stream that hands out these chunks and errors; `pending` are the
bytes of the line in progress. -/
def chunkLines (pending : Bytes) : List (Except IoError Bytes) → List (Except IoError Bytes)
  | [] => textLines pending
  | .ok chunk :: chunks => chunkLines (pending ++ chunk) chunks
  | .error e :: chunks => finishedLines pending ++ .error e :: chunkLines [] chunks

namespace LineReader

/-- A `BufReader` over a `Cursor`. -/
def ofBytes (text : Bytes) : LineReader := ⟨textLines text, none⟩

/-- `Cursor::new(consumed).chain(rest)`: an unfinished last line of `consumed` goes on
in `rest`. -/
def chain (consumed : Bytes) (rest : LineReader) : LineReader :=
  let pieces := Lines.split newline consumed
  if consumed.getLast? = some newline ∨ consumed = [] then
    ⟨pieces.map checkLine ++ rest.lines, rest.stuck⟩
  else
    let (tail, lines) : Except IoError Bytes × List (Except IoError Bytes) :=
      match rest.lines with
      | .ok line :: lines => (checkLine ((pieces.getLast?).getD [] ++ line), lines)
      | .error e :: lines => (.error e, lines)
      | [] => (match rest.stuck with
          | some e => .error e
          | none => checkLine ((pieces.getLast?).getD []), [])
    ⟨pieces.dropLast.map checkLine ++ tail :: lines, rest.stuck⟩

end LineReader

/-! ## Blank lines -/

/-- `char::is_whitespace`: the characters of the Unicode property `White_Space`. -/
def isWhitespace (c : Char) : Bool :=
  let n := c.toNat
  (0x09 ≤ n && n ≤ 0x0D) || n == 0x20 || n == 0x85 || n == 0xA0 || n == 0x1680 ||
    (0x2000 ≤ n && n ≤ 0x200A) || n == 0x2028 || n == 0x2029 || n == 0x202F || n == 0x205F ||
    n == 0x3000

/-- `line.trim().is_empty()`. -/
def isBlank (line : Bytes) : Bool :=
  match Utf8.decode line with
  | some chars => chars.all isWhitespace
  | none => false

/-- `LineFilterFn`. -/
abbrev LineFilterFn := Bytes → Bool

/-- The lines a scan takes: not blank, and passed by the filter. -/
def accepts (lineFilter : Option LineFilterFn) (line : Bytes) : Bool :=
  !isBlank line && lineFilter.all fun filter => filter line

end PolarsLogfmt
