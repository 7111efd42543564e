import PolarsLogfmt.Misc.BufferedStream
import PolarsLogfmt.Lazy.SourceTexts

/-!
# The units as one stream

`UnitsReader` reads the units of a source in order. When every unit can be read it is a buffered
stream of their concatenation, so no call skips, repeats or hides a byte.
-/

namespace PolarsLogfmt

open BufferedStream (Call Answer)

/-- `UnitsReader`. -/
structure UnitsReader where
  units : UnitSource
  next : Nat
  buf : Bytes
  pos : Nat

theorem UnitSource.lt_of_readUnit {u : UnitSource} {index : Nat} {unit : Bytes}
    (h : u.readUnit index = .ok (some unit)) : index < u.units.length := by
  unfold readUnit at h
  split at h
  · rename_i found hget
    exact (List.getElem?_eq_some_iff.mp hget).1
  · cases h

namespace UnitsReader

def new (units : UnitSource) : UnitsReader := { units, next := 0, buf := [], pos := 0 }

/-- `fill_buf`: the next units are taken until one has a byte. -/
def fillBuf (r : UnitsReader) : Except IoError Bytes × UnitsReader :=
  if r.pos = r.buf.length then
    match _h : r.units.readUnit r.next with
    | .error e => (.error e, { r with buf := [], pos := 0 })
    | .ok none => (.ok [], { r with buf := [], pos := 0 })
    | .ok (some unit) => fillBuf { r with buf := unit, pos := 0, next := r.next + 1 }
  else (.ok (r.buf.drop r.pos), r)
termination_by r.units.units.length - r.next
decreasing_by
  have := UnitSource.lt_of_readUnit _h
  show r.units.units.length - (r.next + 1) < r.units.units.length - r.next
  omega

/-- `consume`. -/
def consume (r : UnitsReader) (amt : Nat) : UnitsReader :=
  { r with pos := min (r.pos + amt) r.buf.length }

/-- `read` into a slice of `len` bytes. -/
def read (r : UnitsReader) (len : Nat) : Except IoError Bytes × UnitsReader :=
  match r.fillBuf with
  | (.error e, r) => (.error e, r)
  | (.ok available, r) =>
      let n := min available.length len
      (.ok (available.take n), r.consume n)

/-- What the buffer still holds. -/
def buffer (r : UnitsReader) : Bytes := r.buf.drop r.pos

/-- One call; `consume` passes over the front of the buffer. -/
def call (r : UnitsReader) : Call → Except IoError (Answer UInt8) × UnitsReader
  | .fillBuf => (r.fillBuf.1.map .shown, r.fillBuf.2)
  | .consume amt => (.ok (.passed (r.buffer.take amt)), r.consume amt)
  | .read len => ((r.read len).1.map .copied, (r.read len).2)

/-- The reader after some calls. -/
def after (r : UnitsReader) (calls : List Call) : UnitsReader :=
  calls.foldl (fun r c => (r.call c).2) r

/-- The bytes some calls hand out. -/
def handed (r : UnitsReader) : List Call → Bytes
  | [] => []
  | c :: calls => (r.call c).1.toOption.elim [] Answer.handed ++ handed (r.call c).2 calls

/-! ## Units that can be read -/

/-- Every unit can be read, and the position is in the buffer. -/
structure Readable (r : UnitsReader) : Prop where
  units : ∃ texts : List Bytes, r.units.units = texts.map .ok
  next_le : r.next ≤ r.units.units.length
  pos_le : r.pos ≤ r.buf.length

/-- What is left: the buffer and the units after it. -/
def rest (r : UnitsReader) : Bytes :=
  r.buffer ++ (r.units.units.drop r.next).flatMap fun unit => unit.toOption.getD []

theorem buffer_of_pos {r : UnitsReader} (h : r.pos = r.buf.length) : r.buffer = [] := by
  unfold buffer
  rw [h, List.drop_length]

theorem rest_of_unit {r : UnitsReader} {unit : Bytes} (hpos : r.pos = r.buf.length)
    (hunit : r.units.readUnit r.next = .ok (some unit)) :
    rest { r with buf := unit, pos := 0, next := r.next + 1 } = r.rest := by
  unfold rest
  rw [buffer_of_pos hpos]
  unfold UnitSource.readUnit at hunit
  split at hunit
  · rename_i found hget
    obtain ⟨hlt, hget⟩ := List.getElem?_eq_some_iff.mp hget
    cases found with
    | error e => cases hunit
    | ok text =>
      cases hunit
      rw [List.drop_eq_getElem_cons hlt, hget, List.flatMap_cons]
      rfl
  · cases hunit

/-- `fill_buf` shows what the buffer then holds, loses nothing, and shows nothing only after the
last unit. -/
theorem fillBuf_readable {r : UnitsReader} (h : r.Readable) :
    ∃ r' : UnitsReader, r.fillBuf = (.ok r'.buffer, r') ∧ r'.Readable ∧ r'.units = r.units ∧
      r'.rest = r.rest ∧
      (r'.buffer = [] → r'.rest = [] ∧ r'.next = r.units.units.length) := by
  induction hleft : r.units.units.length - r.next using Nat.strong_induction_on generalizing r with
  | _ n ih =>
    rw [fillBuf.eq_def]
    by_cases hpos : r.pos = r.buf.length
    · rw [if_pos hpos]
      split
      · rename_i e hread
        obtain ⟨texts, htexts⟩ := h.units
        unfold UnitSource.readUnit at hread
        rw [htexts, List.getElem?_map] at hread
        cases hget : texts[r.next]? with
        | none =>
          rw [hget] at hread
          cases hread
        | some text =>
          rw [hget] at hread
          cases hread
      · rename_i hread
        have hge : r.units.units.length ≤ r.next := by
          unfold UnitSource.readUnit at hread
          split at hread
          · rename_i found hget
            cases found with
            | error e => cases hread
            | ok text => cases hread
          · rename_i hget
            exact List.getElem?_eq_none_iff.mp hget
        have hrest : r.rest = [] := by
          unfold rest
          rw [buffer_of_pos hpos, List.drop_eq_nil_of_le hge]
          rfl
        have hempty : rest { r with buf := [], pos := 0 } = [] := by
          unfold rest
          rw [buffer_of_pos rfl, List.drop_eq_nil_of_le hge]
          rfl
        refine ⟨{ r with buf := [], pos := 0 }, rfl, ⟨h.units, h.next_le, Nat.le_refl 0⟩, rfl, ?_,
          ?_⟩
        · rw [hrest, hempty]
        · exact fun _ => ⟨hempty, Nat.le_antisymm h.next_le hge⟩
      · rename_i unit hread
        have hlt := UnitSource.lt_of_readUnit hread
        have hready : Readable { r with buf := unit, pos := 0, next := r.next + 1 } :=
          ⟨h.units, hlt, Nat.zero_le _⟩
        have hdec : r.units.units.length - (r.next + 1) < n := by omega
        obtain ⟨r', hfill, hr', hunits, hrest, hend⟩ := ih _ hdec hready rfl
        exact ⟨r', hfill, hr', hunits, by rw [hrest, rest_of_unit hpos hread], hend⟩
    · rw [if_neg hpos]
      refine ⟨r, rfl, h, rfl, rfl, fun hnil => absurd ?_ hpos⟩
      have := List.drop_eq_nil_iff.mp hnil
      have := h.pos_le
      omega

theorem consume_readable {r : UnitsReader} (h : r.Readable) (amt : Nat) :
    (r.consume amt).Readable := ⟨h.units, h.next_le, Nat.min_le_right _ _⟩

/-- `consume` takes the front of the buffer. -/
theorem rest_consume (r : UnitsReader) (amt : Nat) :
    (r.consume amt).rest = r.rest.drop (r.buffer.take amt).length := by
  have hlen : (r.buffer.take amt).length ≤ r.buffer.length := List.length_take_le' _ _
  unfold rest
  rw [List.drop_append_of_le_length hlen]
  congr 1
  unfold buffer consume
  rw [List.drop_drop, List.length_take, List.length_drop]
  show r.buf.drop (min (r.pos + amt) r.buf.length) = _
  by_cases hle : r.pos + amt ≤ r.buf.length
  · congr 1
    omega
  · rw [List.drop_eq_nil_of_le (by omega), List.drop_eq_nil_of_le (by omega)]

/-- A reader whose units can be read, as a stream. -/
def stream : BufferedStream UInt8 { r : UnitsReader // r.Readable } where
  fillBuf r := (r.val.fillBuf.2.buffer, ⟨r.val.fillBuf.2, by
    obtain ⟨r', hfill, hr', -⟩ := fillBuf_readable r.property
    rw [hfill]
    exact hr'⟩)
  consume r amt := ⟨r.val.consume amt, consume_readable r.property amt⟩
  buffer r := r.val.buffer
  rest r := r.val.rest
  buffer_prefix r := List.prefix_append ..
  fillBuf_fst _ := rfl
  rest_fillBuf r := by
    obtain ⟨r', hfill, -, -, hrest, -⟩ := fillBuf_readable r.property
    show r.val.fillBuf.2.rest = _
    rw [hfill, hrest]
  rest_of_empty r := by
    intro hempty
    obtain ⟨r', hfill, -, -, hrest, hend⟩ := fillBuf_readable r.property
    have hempty : r.val.fillBuf.2.buffer = [] := hempty
    rw [hfill] at hempty
    rw [← hrest]
    exact (hend hempty).1
  rest_consume r amt := UnitsReader.rest_consume r.val amt

/-- The calls of the reader are those of the stream. -/
theorem call_stream (r : { r : UnitsReader // r.Readable }) (c : Call) :
    r.val.call c = (.ok (stream.call r c).1, (stream.call r c).2.val) := by
  obtain ⟨r', hfill, -⟩ := fillBuf_readable r.property
  cases c with
  | fillBuf =>
    show (r.val.fillBuf.1.map Answer.shown, r.val.fillBuf.2) =
      (.ok (.shown r.val.fillBuf.2.buffer), r.val.fillBuf.2)
    rw [hfill]
    rfl
  | consume amt => rfl
  | read len =>
    show ((r.val.read len).1.map Answer.copied, (r.val.read len).2) =
      (.ok (.copied (r.val.fillBuf.2.buffer.take (min r.val.fillBuf.2.buffer.length len))),
        r.val.fillBuf.2.consume (min r.val.fillBuf.2.buffer.length len))
    unfold read
    rw [hfill]
    rfl

theorem after_stream (r : { r : UnitsReader // r.Readable }) (calls : List Call) :
    r.val.after calls = (stream.after r calls).val := by
  induction calls generalizing r with
  | nil => rfl
  | cons c calls ih =>
    show (r.val.call c).2.after calls = _
    rw [call_stream, ih]
    rfl

theorem handed_stream (r : { r : UnitsReader // r.Readable }) (calls : List Call) :
    r.val.handed calls = stream.handed r calls := by
  induction calls generalizing r with
  | nil => rfl
  | cons c calls ih =>
    rw [handed, BufferedStream.handed, call_stream, ih]
    rfl

/-! ## A source of texts -/

theorem new_readable (texts : List Bytes) (count : Option Nat) :
    (new ⟨texts.map .ok, count⟩).Readable :=
  ⟨⟨texts, rfl⟩, Nat.zero_le _, Nat.zero_le _⟩

theorem rest_new (texts : List Bytes) (count : Option Nat) :
    (new ⟨texts.map .ok, count⟩).rest = texts.flatten := by
  unfold rest
  rw [buffer_of_pos rfl]
  show ((texts.map Except.ok).drop 0).flatMap _ = _
  rw [List.drop_zero, List.flatMap_map]
  exact List.flatMap_id'

theorem units_call (r : { r : UnitsReader // r.Readable }) (c : Call) :
    (r.val.call c).2.units = r.val.units := by
  obtain ⟨r', hfill, -, hunits, -⟩ := fillBuf_readable r.property
  cases c with
  | fillBuf =>
    show r.val.fillBuf.2.units = _
    rw [hfill, hunits]
  | consume amt => rfl
  | read len =>
    show (r.val.read len).2.units = _
    unfold read
    rw [hfill]
    exact hunits

theorem units_after (r : { r : UnitsReader // r.Readable }) (calls : List Call) :
    (r.val.after calls).units = r.val.units := by
  induction calls generalizing r with
  | nil => rfl
  | cons c calls ih =>
    show ((r.val.call c).2.after calls).units = _
    rw [call_stream, ih]
    show (stream.call r c).2.val.units = _
    rw [← units_call r c, call_stream]

/-- The end is reported after the last unit has been read. -/
theorem next_of_saysEnd (r : { r : UnitsReader // r.Readable }) {c : Call}
    (h : c.SaysEnd (stream.call r c).1) : (r.val.call c).2.next = r.val.units.units.length := by
  obtain ⟨r', hfill, -, -, hrest, hend⟩ := fillBuf_readable r.property
  have hnil := BufferedStream.rest_of_saysEnd h
  have hbuffer : r'.buffer = [] := by
    have hnil : r'.rest = [] := hrest.trans hnil
    exact (List.append_eq_nil_iff.mp hnil).1
  cases c with
  | fillBuf =>
    show r.val.fillBuf.2.next = _
    rw [hfill]
    exact (hend hbuffer).2
  | consume amt => exact h.elim
  | read len =>
    show (r.val.read len).2.next = _
    unfold read
    rw [hfill]
    exact (hend hbuffer).2

/-- The lines read from the units are the lines of their text. -/
theorem pieces_new (texts : List Bytes) (count : Option Nat) :
    (stream.pieces newline ⟨new ⟨texts.map .ok, count⟩, new_readable texts count⟩).map checkLine =
      (UnitSource.mk (texts.map .ok) count).lineReader.lines := by
  rw [BufferedStream.pieces_eq, UnitSource.lineReader, unitLines_units]
  show (Lines.split newline (new ⟨texts.map .ok, count⟩).rest).map checkLine = _
  rw [rest_new]
  rfl

end UnitsReader

end PolarsLogfmt
