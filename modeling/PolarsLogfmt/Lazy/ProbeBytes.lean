import PolarsLogfmt.Lazy.ProbedLines

/-!
# The probe as it reads bytes

The loop of `infer_schema_from_reader` over the bytes of a stream, with the one line buffer it
appends to and clears. It takes the same lines as the loop over lines does.
-/

namespace PolarsLogfmt

variable [Crates]

/-- `BufRead::read_line`: the next line of the stream is appended to the buffer, unless it is no
UTF-8. The number of bytes read, the buffer, and what is left of the stream. -/
def readLine (stream line : Bytes) : Except IoError Nat × Bytes × Bytes :=
  match Lines.split newline stream with
  | [] => (.ok 0, line, stream)
  | next :: _ =>
      if Utf8.Valid next then (.ok next.length, line ++ next, stream.drop next.length)
      else (.error invalidUtf8, line, stream.drop next.length)

omit [Crates] in
theorem readLine_unread {stream line : Bytes} {n : Nat} (h : (readLine stream line).1 = .ok n)
    (hn : n ≠ 0) : (readLine stream line).2.2.length < stream.length := by
  unfold readLine at h ⊢
  cases hsplit : Lines.split newline stream with
  | nil =>
    rw [hsplit] at h
    cases h
    exact absurd rfl hn
  | cons next pieces =>
    rw [hsplit] at h
    obtain ⟨rest, rfl, -, -, -⟩ := Lines.split_first hsplit
    simp only at h ⊢
    split at h
    · rename_i hvalid
      cases h
      rw [if_pos hvalid, List.drop_left]
      show rest.length < _
      rw [List.length_append]
      omega
    · cases h

/-- `infer_schema_from_reader` from some point of its loop on, and what it leaves unread. -/
def probeLoop (lineFilter : Option LineFilterFn) (nRows : Nat) (stream line : Bytes)
    (st : InferState) : Except IoError (Option Schema × Bytes) × Bytes :=
  if st.rows < nRows then
    match _hread : (readLine stream line).1 with
    | .error e => (.error e, (readLine stream line).2.2)
    | .ok n =>
        if _hn : n = 0 then (.ok (st.schema, st.consumed), (readLine stream line).2.2)
        else
          let line' := (readLine stream line).2.1
          let st := { st with consumed := st.consumed ++ line' }
          if isBlank line' then
            -- `line.clear()` on each of the three ways on
            probeLoop lineFilter nRows (readLine stream line).2.2 [] st
          else if lineFilter.any fun filter => !filter line' then
            probeLoop lineFilter nRows (readLine stream line).2.2 [] st
          else
            let rowSchema := inferSchemaFromRow (parseLogfmtLine line')
            probeLoop lineFilter nRows (readLine stream line).2.2 []
              { st with
                schema := some (match st.schema with
                  | none => rowSchema
                  | some merged => mergeSchema merged rowSchema)
                rows := st.rows + 1 }
  else (.ok (st.schema, st.consumed), stream)
termination_by stream.length
decreasing_by
  · exact readLine_unread _hread _hn
  · exact readLine_unread _hread _hn
  · exact readLine_unread _hread _hn

/-- `infer_schema_from_reader` on a stream of bytes. -/
def inferSchemaFromBytes (stream : Bytes) (lineFilter : Option LineFilterFn) (nRows : Nat) :
    Except IoError (Option Schema × Bytes) × Bytes :=
  probeLoop lineFilter nRows stream [] {}

/-- One turn of the loop does with a line what the loop over lines does. -/
theorem probeLoop_line {lineFilter : Option LineFilterFn} {nRows : Nat} {next rest : Bytes}
    {st : InferState} (hrows : st.rows < nRows)
    (hsplit : Lines.split newline (next ++ rest) = next :: Lines.split newline rest)
    (hvalid : Utf8.Valid next) :
    probeLoop lineFilter nRows (next ++ rest) [] st =
      probeLoop lineFilter nRows rest [] (st.takeLine lineFilter next) := by
  have hne : next.length ≠ 0 := by
    have := Lines.ne_nil_of_mem_split (hsplit ▸ List.mem_cons_self : next ∈ _)
    simpa using this
  have hread : readLine (next ++ rest) [] = (.ok next.length, next, rest) := by
    unfold readLine
    rw [hsplit]
    simp only [hvalid, if_true, List.nil_append, List.drop_left]
  rw [probeLoop.eq_def, if_pos hrows]
  unfold InferState.takeLine accepts
  split
  · rename_i e herr
    rw [hread] at herr
    cases herr
  · rename_i n hok
    rw [hread] at hok
    cases hok
    rw [dif_neg hne]
    simp only [hread]
    cases hblank : isBlank next with
    | true => simp
    | false =>
      cases lineFilter with
      | none => cases st with | mk schema rows consumed => cases schema <;> simp
      | some filter =>
        cases hfilter : filter next with
        | true => cases st with | mk schema rows consumed => cases schema <;> simp [hfilter]
        | false => simp [hfilter]

/-- The two loops agree. -/
theorem probeLoop_eq (lineFilter : Option LineFilterFn) (nRows : Nat) (stream : Bytes)
    (st : InferState) :
    ∃ unread, probeLoop lineFilter nRows stream [] st =
        ((inferLoop lineFilter nRows none (textLines stream) st).1.map fun st =>
          (st.schema, st.consumed), unread) ∧
      (inferLoop lineFilter nRows none (textLines stream) st).2 = textLines unread := by
  unfold textLines
  induction hsplit : Lines.split newline stream generalizing stream st with
  | nil =>
    obtain rfl := Lines.split_eq_nil.mp hsplit
    refine ⟨[], ?_, ?_⟩
    · rw [probeLoop.eq_def, inferLoop.eq_def]
      by_cases hrows : st.rows < nRows
      · rw [if_pos hrows]
        simp only [List.map_nil, if_neg (Nat.not_le.mpr hrows)]
        split
        · rename_i e herr
          cases herr
        · rename_i n hok
          cases hok
          rfl
      · rw [if_neg hrows]
        simp only [List.map_nil, if_pos (Nat.not_lt.mp hrows)]
        rfl
    · rw [inferLoop.eq_def]
      simp only [List.map_nil]
      split <;> rfl
  | cons next pieces ih =>
    obtain ⟨rest, rfl, hrest, -, -⟩ := Lines.split_first hsplit
    by_cases hrows : st.rows < nRows
    · rw [List.map_cons]
      by_cases hvalid : Utf8.Valid next
      · have hloop : inferLoop lineFilter nRows none (checkLine next :: pieces.map checkLine) st =
            inferLoop lineFilter nRows none (pieces.map checkLine)
              (st.takeLine lineFilter next) := by
          rw [inferLoop.eq_def, checkLine, if_pos hvalid]
          simp only [if_neg (Nat.not_le.mpr hrows)]
        rw [probeLoop_line hrows (by rw [hsplit, hrest]) hvalid, hloop]
        exact ih rest _ hrest
      · have hloop : inferLoop lineFilter nRows none (checkLine next :: pieces.map checkLine) st =
            (.error invalidUtf8, pieces.map checkLine) := by
          rw [inferLoop.eq_def, checkLine, if_neg hvalid]
          simp only [if_neg (Nat.not_le.mpr hrows)]
        have hread : readLine (next ++ rest) [] = (.error invalidUtf8, [], rest) := by
          unfold readLine
          rw [hsplit]
          simp only [hvalid, if_false, List.drop_left]
        refine ⟨rest, ?_, by rw [hloop, hrest]⟩
        rw [hloop, probeLoop.eq_def, if_pos hrows]
        split
        · rename_i e herr
          rw [hread] at herr ⊢
          cases herr
          rfl
        · rename_i n hok
          rw [hread] at hok
          cases hok
    · refine ⟨next ++ rest, ?_, ?_⟩
      · rw [probeLoop.eq_def, inferLoop.eq_def, if_neg hrows]
        simp only [if_pos (Nat.not_lt.mp hrows)]
        rfl
      · rw [inferLoop.eq_def]
        simp only [if_pos (Nat.not_lt.mp hrows), hsplit]

/-- The probe of a stream is that of its lines. -/
theorem inferSchemaFromBytes_eq (stream : Bytes) (lineFilter : Option LineFilterFn) (nRows : Nat) :
    ∃ unread, inferSchemaFromBytes stream lineFilter nRows =
        ((inferSchemaFromReader (.ofBytes stream) lineFilter nRows).1, unread) ∧
      (inferSchemaFromReader (.ofBytes stream) lineFilter nRows).2 = .ofBytes unread := by
  obtain ⟨unread, hloop, hleft⟩ := probeLoop_eq lineFilter nRows stream {}
  refine ⟨unread, hloop, ?_⟩
  unfold inferSchemaFromReader LineReader.ofBytes
  simp only [hleft]

end PolarsLogfmt
