import PolarsLogfmt.Lazy.SourceTexts

/-!
# The buffer of a worker

`FrameBytes.readFrame` says which bytes a frame has; `read_frame` itself writes them
over what the frames before have left in the one buffer of the worker. It leaves the
same bytes there, whatever they were.
-/

namespace PolarsLogfmt

/-! ## Reading into a buffer -/

/-- `buf.resize(len, 0)`. -/
def resizeBuf (buf : Bytes) (len : Nat) : Bytes :=
  buf.take len ++ List.replicate (len - buf.length) 0

@[simp] theorem resizeBuf_length (buf : Bytes) (len : Nat) : (resizeBuf buf len).length = len := by
  rw [resizeBuf, List.length_append, List.length_take, List.length_replicate]
  omega

/-- A buffer with `bytes` written from offset `n` on. -/
def writeAt (buf : Bytes) (n : Nat) (bytes : Bytes) : Bytes :=
  buf.take n ++ (bytes ++ buf.drop (n + bytes.length))

theorem writeAt_length {buf : Bytes} {n : Nat} {bytes : Bytes} (h : n + bytes.length ≤ buf.length) :
    (writeAt buf n bytes).length = buf.length := by
  rw [writeAt, List.length_append, List.length_append, List.length_take, List.length_drop]
  omega

theorem writeAt_take {buf : Bytes} {n : Nat} {bytes : Bytes} (h : n + bytes.length ≤ buf.length) :
    (writeAt buf n bytes).take (n + bytes.length) = buf.take n ++ bytes := by
  have hlen : (buf.take n ++ bytes).length = n + bytes.length := by
    rw [List.length_append, List.length_take, Nat.min_eq_left (Nat.le_of_add_right_le h)]
  rw [writeAt, ← List.append_assoc, ← hlen, List.take_left]

theorem Handle.read_length {h : Handle} {len : Nat} {bytes : Bytes}
    (hb : (h.read len).1 = .ok bytes) :
    bytes.length ≤ len := by
  obtain ⟨n, hle, rfl, -⟩ := read_spec hb
  rw [List.length_take]
  omega

/-- The loop of `read_frame` that fills the buffer from offset `n` on: how much of it is
filled, and the buffer. -/
def fillInto (h : Handle) (buf : Bytes) (n : Nat) : Except IoError Nat × Bytes × Handle :=
  if _hn : n < buf.length then
    match _hr : (h.read (buf.length - n)).1 with
    | .error e => (.error e, buf, (h.read (buf.length - n)).2)
    | .ok bytes =>
        if _hb : bytes = [] then (.ok n, buf, (h.read (buf.length - n)).2)
        else fillInto (h.read (buf.length - n)).2 (writeAt buf n bytes) (n + bytes.length)
  else (.ok n, buf, h)
termination_by buf.length - n
decreasing_by
  have hpos := List.length_pos_of_ne_nil _hb
  have hle := Handle.read_length _hr
  rw [writeAt_length (by omega)]
  omega

/-- `read_frame` of a file: the length of the frame, or `none` when it is to be skipped, and
the buffer. -/
def readFrameInto (h : Handle) (range : FrameRange) (buf : Bytes) :
    Except IoError (Option Nat) × Bytes × Handle :=
  if range.len = 0 then (.ok none, buf, h)
  else
    match h.seek range.start with
    | (.error e, h) => (.error e, buf, h)
    | (.ok (), h) =>
        match fillInto h (resizeBuf buf range.len) 0 with
        | (.error e, buf, h) => (.error e, buf, h)
        | (.ok n, buf, h) => (.ok (some range.len), buf.take n, h)

/-! ## The bytes it reads -/

/-- The loop fills the buffer with the bytes that `fillBuf` collects. -/
theorem fillInto_spec {h : Handle} {buf : Bytes} {n : Nat} (hn : n ≤ buf.length) :
    (fillInto h buf n).1 = (fillBuf h buf.length (buf.take n)).1.map List.length ∧
      (fillInto h buf n).2.2 = (fillBuf h buf.length (buf.take n)).2 ∧
      ∀ bytes, (fillBuf h buf.length (buf.take n)).1 = .ok bytes →
        (fillInto h buf n).2.1.take bytes.length = bytes := by
  fun_induction fillInto h buf n with
  | case1 h buf n hlt e hr =>
    have htake : (buf.take n).length = n := by rw [List.length_take, Nat.min_eq_left hn]
    rw [fillBuf, htake, dif_pos hlt]
    split
    · rename_i e' hr'
      cases hr.symm.trans hr'
      exact ⟨rfl, rfl, fun bytes hb => by cases hb⟩
    · rename_i bytes hr'
      cases hr.symm.trans hr'
  | case2 h buf n hlt hr =>
    have htake : (buf.take n).length = n := by rw [List.length_take, Nat.min_eq_left hn]
    rw [fillBuf, htake, dif_pos hlt]
    split
    · rename_i e hr'
      cases hr.symm.trans hr'
    · rename_i bytes hr'
      cases hr.symm.trans hr'
      rw [dif_pos rfl]
      refine ⟨by rw [Except.map, htake], rfl, fun bytes hb => ?_⟩
      cases hb
      rw [htake]
  | case3 h buf n hlt bytes hr hne ih =>
    have htake : (buf.take n).length = n := by rw [List.length_take, Nat.min_eq_left hn]
    have hle := Handle.read_length hr
    have hfit : n + bytes.length ≤ buf.length := by omega
    rw [writeAt_length hfit, writeAt_take hfit] at ih
    rw [fillBuf, htake, dif_pos hlt]
    split
    · rename_i e hr'
      cases hr.symm.trans hr'
    · rename_i bytes' hr'
      cases hr.symm.trans hr'
      rw [dif_neg hne]
      exact ih hfit
  | case4 h buf n hlt =>
    have htake : (buf.take n).length = n := by rw [List.length_take, Nat.min_eq_left hn]
    rw [fillBuf, htake, dif_neg hlt]
    refine ⟨by rw [Except.map, htake], rfl, fun bytes hb => ?_⟩
    cases hb
    rw [htake]

/-- `read_frame` leaves the bytes of the frame in the buffer, whatever was there before. -/
theorem readFrameInto_spec (h : Handle) (range : FrameRange) (buf : Bytes) :
    (readFrameInto h range buf).1 = (FrameBytes.readFrame h range).1.map (Option.map Prod.fst) ∧
      (readFrameInto h range buf).2.2 = (FrameBytes.readFrame h range).2 ∧
      ∀ len bytes, (FrameBytes.readFrame h range).1 = .ok (some (len, bytes)) →
        (readFrameInto h range buf).2.1 = bytes := by
  unfold readFrameInto
  simp only [FrameBytes.readFrame]
  by_cases hlen : range.len = 0
  · rw [if_pos hlen, if_pos hlen]
    exact ⟨rfl, rfl, fun len bytes hb => by cases hb⟩
  · rw [if_neg hlen, if_neg hlen]
    cases hseek : h.seek range.start with
    | mk sought h₁ =>
      cases sought with
      | error e => exact ⟨rfl, rfl, fun len bytes hb => by cases hb⟩
      | ok u =>
        have hfill := @fillInto_spec h₁ (resizeBuf buf range.len) 0 (Nat.zero_le _)
        rw [resizeBuf_length, List.take_zero] at hfill
        obtain ⟨hresult, hhandle, hbytes⟩ := hfill
        simp only
        generalize fillInto h₁ (resizeBuf buf range.len) 0 = out at hresult hhandle hbytes
        obtain ⟨result, buf', h₂⟩ := out
        cases hfilled : fillBuf h₁ range.len [] with
        | mk filled h₃ =>
          rw [hfilled] at hresult hhandle hbytes
          simp only at hresult hhandle hbytes
          subst hresult hhandle
          cases filled with
          | error e => exact ⟨rfl, rfl, fun len bytes hb => by cases hb⟩
          | ok got =>
            refine ⟨rfl, rfl, fun len bytes hb => ?_⟩
            cases hb
            exact hbytes got rfl

/-! ## Frame after frame -/

/-- The bytes of the frames, read one after the other into the one buffer. -/
def readFrames (h : Handle) (buf : Bytes) : List FrameRange → Except IoError Bytes
  | [] => .ok []
  | range :: ranges =>
      match readFrameInto h range buf with
      | (.error e, _, _) => .error e
      | (.ok none, buf, h) => readFrames h buf ranges
      | (.ok (some _), buf, h) => (readFrames h buf ranges).map (buf ++ ·)

namespace Handle

/-- A handle that does not fail fills the buffer. -/
theorem fillBuf_sound {h : Handle} (hs : h.Sound) (len : Nat) (got : Bytes) :
    ∃ bytes, (fillBuf h len got).1 = .ok bytes ∧ (fillBuf h len got).2.Sound := by
  fun_induction fillBuf h len got with
  | case1 h got hn e hr =>
    obtain ⟨bytes, hb, -⟩ := read_sound hs (len - got.length)
    cases hb.symm.trans hr
  | case2 h got hn hr =>
    obtain ⟨-, -, hsound⟩ := read_sound hs (len - got.length)
    exact ⟨got, rfl, hsound⟩
  | case3 h got hn bytes hr hne ih =>
    obtain ⟨-, -, hsound⟩ := read_sound hs (len - got.length)
    exact ih hsound
  | case4 h got hn => exact ⟨got, rfl, hs⟩

/-- It reads every frame, and goes on not to fail. -/
theorem readFrame_sound {h : Handle} (hs : h.Sound) (range : FrameRange) :
    ∃ found, (FrameBytes.readFrame h range).1 = .ok found ∧
      (found.map Prod.snd).getD [] = (h.content.drop range.start).take range.len ∧
      (FrameBytes.readFrame h range).2.Sound ∧
      (FrameBytes.readFrame h range).2.content = h.content := by
  simp only [FrameBytes.readFrame]
  by_cases hlen : range.len = 0
  · rw [if_pos hlen]
    refine ⟨none, rfl, ?_, hs, rfl⟩
    rw [hlen, List.take_zero]
    rfl
  · rw [if_neg hlen]
    obtain ⟨hok, hsound⟩ := seek_sound hs range.start
    obtain ⟨hcontent, hpos⟩ := seek_spec hok
    generalize h.seek range.start = out at hok hsound hcontent hpos
    obtain ⟨sought, h₁⟩ := out
    simp only at hok hsound hcontent hpos
    subst hok
    obtain ⟨bytes, hb, hsound'⟩ := fillBuf_sound hsound range.len []
    obtain ⟨hbytes, hcontent'⟩ := fillBuf_spec hb
    refine ⟨some (range.len, bytes), ?_, ?_, hsound', hcontent'.trans hcontent⟩
    · simp only [hb]
      rfl
    · simpa [hcontent, hpos] using hbytes

end Handle

/-- A handle that does not fail reads the texts of the frames, whatever is in the buffer. -/
theorem readFrames_eq {h : Handle} (hs : h.Sound) (buf : Bytes) (ranges : List FrameRange) :
    readFrames h buf ranges =
      .ok (ranges.map fun range => (h.content.drop range.start).take range.len).flatten := by
  induction ranges generalizing h buf with
  | nil => rfl
  | cons range ranges ih =>
    obtain ⟨found, hfound, htext, hsound, hcontent⟩ := Handle.readFrame_sound hs range
    obtain ⟨hresult, hhandle, hbytes⟩ := readFrameInto_spec h range buf
    rw [hfound] at hresult
    rw [readFrames]
    generalize readFrameInto h range buf = out at hresult hhandle hbytes
    obtain ⟨result, buf', h'⟩ := out
    simp only at hresult hhandle hbytes
    subst hresult hhandle
    have ih := ih hsound buf'
    rw [hcontent] at ih
    rw [List.map_cons, List.flatten_cons, ← htext]
    cases found with
    | none =>
      simp only [Except.map, Option.map_none, Option.getD_none, List.nil_append]
      exact ih
    | some p =>
      obtain ⟨len, bytes⟩ := p
      obtain rfl := hbytes len bytes hfound
      simp only [Except.map, Option.map_some, Option.getD_some]
      rw [ih]

end PolarsLogfmt
