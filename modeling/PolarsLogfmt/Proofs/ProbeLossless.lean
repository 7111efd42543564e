import PolarsLogfmt.Lazy.ProbeBytes

/-!
# The probe loses nothing

What the schema inference has taken from a stream and what it left there make up the stream, cut
between two lines, so a scan that goes on from the probe of an ssh command sees every line once.
-/

namespace PolarsLogfmt

section

variable [Crates]

/-- Valid lines are read without an error. -/
theorem inferLoop_ok (lineFilter : Option LineFilterFn) (n : Nat) (lines : List Bytes)
    (st : InferState) :
    ∃ out rest, inferLoop lineFilter n none (lines.map .ok) st = (.ok out, rest) := by
  induction lines generalizing st with
  | nil =>
    rw [List.map_nil, inferLoop.eq_def]
    dsimp only
    split
    · exact ⟨st, [], rfl⟩
    · exact ⟨st, [], rfl⟩
  | cons line lines ih =>
    rw [List.map_cons, inferLoop.eq_def]
    dsimp only
    split
    · exact ⟨st, _, rfl⟩
    · exact ih (st.takeLine lineFilter line)

/-- A text is cut after some of its lines, the last of which was still needed to find `n`
accepted ones. -/
structure ProbeCut (text : Bytes) (lineFilter : Option LineFilterFn) (n : Nat)
    (consumed unread : Bytes) : Prop where
  lines : ∃ taken left, Lines.split newline text = taken ++ left ∧ consumed = taken.flatten ∧
    unread = left.flatten
  needed : ∀ init last, Lines.split newline consumed = init ++ [last] →
    (init.filter (accepts lineFilter)).length < n

omit [Crates] in
theorem ProbeCut.text_eq {text consumed unread : Bytes} {lineFilter : Option LineFilterFn} {n : Nat}
    (h : ProbeCut text lineFilter n consumed unread) : consumed ++ unread = text := by
  obtain ⟨taken, left, hsplit, rfl, rfl⟩ := h.lines
  rw [← List.flatten_append, ← hsplit, Lines.flatten_split]

/-- The probe of a text is cut between two lines, and its schema is that of the lines consumed. -/
theorem inferSchemaFromBytes_cut {text : Bytes} (h : Utf8.Valid text)
    (lineFilter : Option LineFilterFn) (n : Nat) :
    ∃ schema consumed unread rest,
      inferSchemaFromBytes text lineFilter n = (.ok (schema, consumed), unread) ∧
      inferSchemaFromReader (.ofBytes text) lineFilter n = (.ok (schema, consumed), rest) ∧
      ProbeCut text lineFilter n consumed unread ∧
      schema = schemaOfLines ((Lines.split newline consumed).filter (accepts lineFilter)) := by
  have hlines := LineReader.ofBytes_valid fun line => checkLine_of_valid h
  obtain ⟨unread, hbytes, hleft⟩ := inferSchemaFromBytes_eq text lineFilter n
  obtain ⟨out, left, hloop⟩ := inferLoop_ok lineFilter n (Lines.split newline text) {}
  have hread : inferSchemaFromReader (.ofBytes text) lineFilter n =
      (.ok (out.schema, out.consumed), ⟨left, none⟩) := by
    unfold inferSchemaFromReader
    rw [hlines]
    simp only [hloop]
    rfl
  obtain ⟨taken, htaken, -, hconsumed, hschema, -, hneed⟩ := inferSchemaFromReader_taken hread
  rw [hread] at hbytes hleft
  -- the lines left are the lines of the bytes left
  have hunread : textLines unread = left := congrArg LineReader.lines hleft.symm
  rw [hlines, show (LineReader.mk left none).lines = textLines unread from hunread.symm] at htaken
  obtain ⟨taken', left', hsplit, hmap, hmap'⟩ := List.map_eq_append_iff.mp htaken
  obtain rfl : taken' = taken := List.map_injective_iff.mpr (fun a b => Except.ok.inj) hmap
  have hrest : Lines.split newline unread = left' := map_checkLine_eq_map_ok hmap'.symm
  have hpieces : Lines.split newline taken'.flatten = taken' := (Lines.split_prefix hsplit).1
  refine ⟨out.schema, out.consumed, unread, _, hbytes, hread,
    ⟨⟨taken', left', hsplit, hconsumed, ?_⟩, ?_⟩, ?_⟩
  · rw [← hrest, Lines.flatten_split]
  · rw [hconsumed, hpieces]
    exact hneed
  · rw [hconsumed, hpieces]
    exact hschema

/-- The bytes consumed and the bytes left are the stream, cut between two lines where no further
line was needed; the schema is that of the consumed bytes, and the probe stream of an ssh command
hands out every line. -/
theorem probe_lossless {text : Bytes} (h : Utf8.Valid text) (lineFilter : Option LineFilterFn)
    (n : Nat) :
    ∃ schema consumed unread,
      inferSchemaFromBytes text lineFilter n = (.ok (schema, consumed), unread) ∧
      consumed ++ unread = text ∧
      ProbeCut text lineFilter n consumed unread ∧
      schema = schemaOfLines ((Lines.split newline consumed).filter (accepts lineFilter)) ∧
      ∃ probe : LineReader,
        inferSchemaFromSource (.ssh (.ok (.ofBytes text))) lineFilter n = .ok (schema, some probe) ∧
        probe = .chain consumed (.ofBytes unread) ∧
        probe.lines = (Lines.split newline text).map .ok ∧ probe.stuck = none := by
  obtain ⟨schema, consumed, unread, rest, hbytes, hread, hcut, hschema⟩ :=
    inferSchemaFromBytes_cut h lineFilter n
  refine ⟨schema, consumed, unread, hbytes, hcut.text_eq, hcut, hschema, .ofBytes text, ?_, ?_, ?_,
    rfl⟩
  · have hdelivers : (LogFmtSource.ssh (.ok (.ofBytes text))).Delivers text := rfl
    rw [inferSchemaFromSource_delivers hdelivers, hread]
    rfl
  · obtain ⟨unread', hbytes', hleft⟩ := inferSchemaFromBytes_eq text lineFilter n
    obtain rfl : unread' = unread := by
      rw [hbytes'] at hbytes
      exact congrArg Prod.snd hbytes
    rw [hread] at hleft
    rw [← hleft]
    exact (chain_consumed hread).symm
  · rw [LineReader.ofBytes_valid fun line => checkLine_of_valid h]

end

section

attribute [local instance] smallCrates

/-- Two of the three lines are accepted, and only they are taken. -/
theorem probe_lossless_twoLines :
    ∃ consumed unread, ProbeCut (Utf8.ofString "a=1\n\nb=2\nc=3\n") none 2 consumed unread := by
  have h : Utf8.Valid (Utf8.ofString "a=1\n\nb=2\nc=3\n") := Utf8.valid_encode _
  obtain ⟨-, consumed, unread, -, -, hcut, -⟩ := probe_lossless h none 2
  exact ⟨consumed, unread, hcut⟩

end

end PolarsLogfmt
