import PolarsLogfmt.Misc.Lines

/-!
# Streams read through a buffer

A stream shows a first part of what is left of it in a buffer, from which it is consumed. Any
sequence of calls hands out what the stream holds in order, and nothing is shown only when nothing
is left. Reading up to a delimiter gives the pieces of `Lines.split`.
-/

/-- A stream read through a buffer. -/
structure BufferedStream (α σ : Type) where
  fillBuf : σ → List α × σ
  consume : σ → Nat → σ
  /-- What the buffer still holds. -/
  buffer : σ → List α
  /-- What is left of the stream. -/
  rest : σ → List α
  buffer_prefix : ∀ s, buffer s <+: rest s
  fillBuf_fst : ∀ s, (fillBuf s).1 = buffer (fillBuf s).2
  rest_fillBuf : ∀ s, rest (fillBuf s).2 = rest s
  rest_of_empty : ∀ s, (fillBuf s).1 = [] → rest s = []
  rest_consume : ∀ s n, rest (consume s n) = (rest s).drop ((buffer s).take n).length

namespace BufferedStream

variable {α σ : Type}

/-- A call of one of the two reading interfaces. -/
inductive Call where
  | fillBuf
  | consume (amt : Nat)
  | read (len : Nat)
deriving DecidableEq

/-- What a call gives: the bytes the buffer shows, those a consumer passes over, or those copied
to the caller. -/
inductive Answer (α : Type) where
  | shown (bytes : List α)
  | passed (bytes : List α)
  | copied (bytes : List α)
deriving DecidableEq

namespace Answer

def bytes : Answer α → List α
  | shown bytes | passed bytes | copied bytes => bytes

/-- What is taken from the stream. -/
def handed : Answer α → List α
  | shown _ => []
  | passed bytes | copied bytes => bytes

end Answer

/-- The call reports the end of the stream. -/
def Call.SaysEnd : Call → Answer α → Prop
  | .fillBuf, .shown bytes => bytes = []
  | .read len, .copied bytes => len ≠ 0 ∧ bytes = []
  | _, _ => False

variable (stream : BufferedStream α σ)

/-- `Read::read` by way of the buffer. -/
def read (s : σ) (len : Nat) : List α × σ :=
  let (available, s) := stream.fillBuf s
  let n := min available.length len
  (available.take n, stream.consume s n)

def call (s : σ) : Call → Answer α × σ
  | .fillBuf => (.shown (stream.fillBuf s).1, (stream.fillBuf s).2)
  | .consume amt => (.passed ((stream.buffer s).take amt), stream.consume s amt)
  | .read len => (.copied (stream.read s len).1, (stream.read s len).2)

/-- The stream after some calls. -/
def after (s : σ) (calls : List Call) : σ := calls.foldl (fun s c => (stream.call s c).2) s

/-- What some calls take from the stream. -/
def handed (s : σ) : List Call → List α
  | [] => []
  | c :: calls => (stream.call s c).1.handed ++ handed (stream.call s c).2 calls

variable {stream}

theorem after_append (s : σ) (calls more : List Call) :
    stream.after s (calls ++ more) = stream.after (stream.after s calls) more :=
  List.foldl_append ..

/-- Consuming takes the front of the buffer. -/
theorem take_append_rest_consume (s : σ) (n : Nat) :
    (stream.buffer s).take n ++ stream.rest (stream.consume s n) = stream.rest s := by
  rw [stream.rest_consume]
  exact (List.prefix_iff_eq_append.mp
    ((List.take_prefix n _).trans (stream.buffer_prefix s)))

theorem read_append_rest (s : σ) (len : Nat) :
    (stream.read s len).1 ++ stream.rest (stream.read s len).2 = stream.rest s := by
  show (stream.fillBuf s).1.take _ ++ stream.rest (stream.consume (stream.fillBuf s).2 _) = _
  rw [stream.fillBuf_fst, take_append_rest_consume, stream.rest_fillBuf]

/-- A call takes the front of what is left. -/
theorem handed_append_rest (s : σ) (c : Call) :
    (stream.call s c).1.handed ++ stream.rest (stream.call s c).2 = stream.rest s := by
  cases c with
  | fillBuf => exact stream.rest_fillBuf s
  | consume amt => exact take_append_rest_consume s amt
  | read len => exact read_append_rest s len

/-- Any calls take the front of what is left. -/
theorem handed_append_rest_after (s : σ) (calls : List Call) :
    stream.handed s calls ++ stream.rest (stream.after s calls) = stream.rest s := by
  induction calls generalizing s with
  | nil => rfl
  | cons c calls ih =>
    rw [handed, List.append_assoc]
    show _ ++ (stream.handed _ calls ++ stream.rest (stream.after (stream.call s c).2 calls)) = _
    rw [ih, handed_append_rest]

theorem bytes_prefix (s : σ) (c : Call) : (stream.call s c).1.bytes <+: stream.rest s := by
  cases c with
  | fillBuf =>
    show (stream.fillBuf s).1 <+: _
    rw [stream.fillBuf_fst, ← stream.rest_fillBuf s]
    exact stream.buffer_prefix _
  | consume amt => exact ⟨_, take_append_rest_consume s amt⟩
  | read len => exact ⟨_, read_append_rest s len⟩

/-- The end is reported only when nothing is left. -/
theorem rest_of_saysEnd {s : σ} {c : Call} (h : c.SaysEnd (stream.call s c).1) :
    stream.rest s = [] := by
  cases c with
  | fillBuf => exact stream.rest_of_empty s h
  | consume amt => exact h.elim
  | read len =>
    obtain ⟨hlen, hempty⟩ := h
    apply stream.rest_of_empty s
    have htake : (stream.fillBuf s).1.take (min (stream.fillBuf s).1.length len) = [] := hempty
    rcases List.take_eq_nil_iff.mp htake with hzero | hnil
    · apply List.eq_nil_of_length_eq_zero
      omega
    · exact hnil

/-- Once nothing is left, every call comes back empty. -/
theorem call_of_rest {s : σ} (h : stream.rest s = []) (c : Call) :
    (stream.call s c).1.bytes = [] ∧ stream.rest (stream.call s c).2 = [] := by
  constructor
  · exact List.prefix_nil.mp (h ▸ bytes_prefix s c)
  · have hrest := stream.handed_append_rest s c
    rw [h] at hrest
    exact (List.append_eq_nil_iff.mp hrest).2

theorem rest_after_of_rest {s : σ} (h : stream.rest s = []) (calls : List Call) :
    stream.rest (stream.after s calls) = [] := by
  have hrest := stream.handed_append_rest_after s calls
  rw [h] at hrest
  exact (List.append_eq_nil_iff.mp hrest).2

/-! ## Reading up to a delimiter -/

/-- What a shown buffer leaves is shorter. -/
theorem rest_consume_lt {s : σ} (h : (stream.fillBuf s).1 ≠ []) :
    (stream.rest (stream.consume (stream.fillBuf s).2 (stream.fillBuf s).1.length)).length <
      (stream.rest s).length := by
  have hrest := stream.take_append_rest_consume (stream.fillBuf s).2 (stream.fillBuf s).1.length
  rw [← stream.fillBuf_fst, List.take_length, stream.rest_fillBuf] at hrest
  rw [← hrest, List.length_append]
  have := List.length_pos_iff.mpr h
  omega

variable [DecidableEq α] (stream)

/-- `BufRead::read_until`: the bytes up to and with the next delimiter, or all that are left. -/
def readUntil (delim : α) (s : σ) : List α × σ :=
  let available := (stream.fillBuf s).1
  let filled := (stream.fillBuf s).2
  if delim ∈ available then
    let used := available.idxOf delim + 1
    (available.take used, stream.consume filled used)
  else if _h : available = [] then ([], stream.consume filled 0)
  else
    let (more, last) := readUntil delim (stream.consume filled available.length)
    (available ++ more, last)
termination_by (stream.rest s).length
decreasing_by exact rest_consume_lt _h

variable {stream}

theorem readUntil_append_rest (delim : α) (s : σ) :
    (stream.readUntil delim s).1 ++ stream.rest (stream.readUntil delim s).2 = stream.rest s := by
  induction hlen : (stream.rest s).length using Nat.strong_induction_on generalizing s with
  | _ n ih =>
    have hrest := stream.take_append_rest_consume (stream.fillBuf s).2
    rw [← stream.fillBuf_fst, stream.rest_fillBuf] at hrest
    rw [readUntil.eq_def]
    dsimp only
    split
    · exact hrest _
    · split
      · rename_i hempty
        exact hrest 0
      · rename_i hne
        have hlt := rest_consume_lt hne
        rw [hlen] at hlt
        rw [List.append_assoc, ih _ hlt _ rfl, ← hrest (stream.fillBuf s).1.length,
          List.take_length]

/-- `read_until` gives the first piece of what is left, and leaves the others. -/
theorem split_readUntil (delim : α) {s : σ} (h : stream.rest s ≠ []) :
    Lines.split delim (stream.rest s) = (stream.readUntil delim s).1 ::
      Lines.split delim (stream.rest (stream.readUntil delim s).2) := by
  induction hlen : (stream.rest s).length using Nat.strong_induction_on generalizing s with
  | _ n ih =>
    have hrest := stream.take_append_rest_consume (stream.fillBuf s).2
    rw [← stream.fillBuf_fst, stream.rest_fillBuf] at hrest
    rw [readUntil.eq_def]
    dsimp only
    split
    · rename_i hmem
      rw [← hrest, Lines.split_append_of_mem hmem]
    · rename_i hmem
      split
      · rename_i hempty
        exact absurd (stream.rest_of_empty s hempty) h
      · rename_i hne
        have hlt := rest_consume_lt hne
        rw [hlen] at hlt
        rw [← hrest (stream.fillBuf s).1.length, List.take_length,
          Lines.split_append_of_not_mem hmem hne]
        by_cases hnil : stream.rest
            (stream.consume (stream.fillBuf s).2 (stream.fillBuf s).1.length) = []
        · have hmore := stream.readUntil_append_rest delim
            (stream.consume (stream.fillBuf s).2 (stream.fillBuf s).1.length)
          rw [hnil] at hmore
          obtain ⟨hpiece, hlast⟩ := List.append_eq_nil_iff.mp hmore
          rw [hnil, hpiece, hlast]
          rfl
        · rw [ih _ hlt hnil rfl]
          rfl

theorem readUntil_of_rest {delim : α} {s : σ} (h : stream.rest s = []) :
    (stream.readUntil delim s).1 = [] := by
  have hrest := stream.readUntil_append_rest delim s
  rw [h] at hrest
  exact (List.append_eq_nil_iff.mp hrest).1

theorem rest_readUntil_lt {delim : α} {s : σ} (h : (stream.readUntil delim s).1 ≠ []) :
    (stream.rest (stream.readUntil delim s).2).length < (stream.rest s).length := by
  rw [← stream.readUntil_append_rest delim s, List.length_append]
  have := List.length_pos_iff.mpr h
  omega

variable (stream)

/-- What `read_until` gives, call after call, until it gives nothing. -/
def pieces (delim : α) (s : σ) : List (List α) :=
  if _h : (stream.readUntil delim s).1 = [] then []
  else (stream.readUntil delim s).1 :: pieces delim (stream.readUntil delim s).2
termination_by (stream.rest s).length
decreasing_by exact rest_readUntil_lt _h

variable {stream}

/-- The stream is read piece by piece. -/
theorem pieces_eq (delim : α) (s : σ) :
    stream.pieces delim s = Lines.split delim (stream.rest s) := by
  induction hlen : (stream.rest s).length using Nat.strong_induction_on generalizing s with
  | _ n ih =>
    rw [pieces.eq_def]
    by_cases hnil : stream.rest s = []
    · rw [dif_pos (readUntil_of_rest hnil), hnil]
      rfl
    · have hsplit := split_readUntil delim hnil
      have hne : (stream.readUntil delim s).1 ≠ [] :=
        Lines.ne_nil_of_mem_split (hsplit ▸ List.mem_cons_self)
      have hlt := rest_readUntil_lt hne
      rw [hlen] at hlt
      rw [dif_neg hne, hsplit, ih _ hlt _ rfl]

end BufferedStream
