import PolarsLogfmt.Vfs.Files

/-!
# A compressed file reads like a plain one

Whatever path is opened, the calls on the file are answered as on a plain local file that holds
the text: a decoder that hands out less than asked for is asked again. The one exception is a read
that fails after the decoder has handed something out, which is lost; a seek finds the way back.
-/

namespace PolarsLogfmt

open Runs (answers after)

/-! ## Handles -/

/-- A failed call leaves the position. -/
theorem Handle.seek_failed {h : Handle} {pos : Nat} {e : IoError} (he : (h.seek pos).1 = .error e) :
    (h.seek pos).2.pos = h.pos := by
  unfold seek at he ⊢
  split at he
  · rfl
  · cases he

theorem Handle.read_failed {h : Handle} {len : Nat} {e : IoError} (he : (h.read len).1 = .error e) :
    (h.read len).2.pos = h.pos := by
  unfold read at he ⊢
  split at he
  · rfl
  · cases he
  · cases he

/-- Filling a buffer moves the handle past what it returns. -/
theorem fillBuf_after (h : Handle) (len : Nat) (got : Bytes) :
    (fillBuf h len got).2.content = h.content ∧ ∀ bytes, (fillBuf h len got).1 = .ok bytes →
      (fillBuf h len got).2.pos + got.length = h.pos + bytes.length := by
  fun_induction fillBuf h len got with
  | case1 h got hn e hr =>
    refine ⟨Handle.read_content h _, ?_⟩
    intro bytes hbytes
    cases hbytes
  | case2 h got hn hr =>
    obtain ⟨n, -, -, -, hcontent, hpos⟩ := Handle.read_spec hr
    refine ⟨hcontent, fun bytes hbytes => ?_⟩
    cases hbytes
    rw [hpos]
    rfl
  | case3 h got hn bytes hr hb ih =>
    obtain ⟨n, -, -, -, hcontent, hpos⟩ := Handle.read_spec hr
    obtain ⟨ihcontent, ihpos⟩ := ih
    refine ⟨ihcontent.trans hcontent, fun all hall => ?_⟩
    have hmoved := ihpos all hall
    rw [hpos, List.length_append] at hmoved
    omega
  | case4 h got hn => exact ⟨rfl, fun bytes hbytes => by cases hbytes; rfl⟩

/-! ## Runs that lose nothing -/

/-- No read follows a failed one before a seek has succeeded. -/
def Steady (lost : Bool) : List FileCall → List FileAnswer → Prop
  | .seek _ :: calls, answer :: answers => Steady (lost && !answer.isOk) calls answers
  | .read _ :: calls, answer :: answers => lost = false ∧ Steady (!answer.isOk) calls answers
  | _, _ => True

/-- A plain local file with the text, at the position. -/
def plainFile (text : Bytes) (pos : Nat) (replies : List Reply) : LocalSeekableFile where
  file := { content := text, pos := pos, replies := replies }
  size := text.length
  path := []
  modified := .ok none

open VfsFile (answer)

section

variable (text : Bytes) (pos : Nat) (replies : List Reply)

theorem plainFile_failed (e : IoError) (call : FileCall) :
    answer (plainFile text pos (.error e :: replies)) call =
      (.error e, plainFile text pos replies) := by
  cases call with
  | seek target => rfl
  | read len => rfl

theorem plainFile_seek (target : Nat) :
    answer (plainFile text pos (.short 0 :: replies)) (.seek target) =
      (.ok (.inl target), plainFile text target replies) := rfl

theorem plainFile_read (len : Nat) :
    answer (plainFile text pos (.short len :: replies)) (.read len) =
      (.ok (.inr ((text.drop pos).take len)),
        plainFile text (pos + ((text.drop pos).take len).length) replies) := by
  have hlen : min len (len + 1) = len := Nat.min_eq_left (Nat.le_succ len)
  show (Except.ok (Sum.inr ((text.drop pos).take (min len (len + 1)))),
      plainFile text (pos + ((text.drop pos).take (min len (len + 1))).length) replies) = _
  rw [hlen]

end

/-! ## Compressed files -/

/-- A seek leaves the text. A failed one also leaves the position, of the decoder and the one
kept beside it. -/
theorem localZst_seek (f : LocalSeekableZstdFile) (target : Nat) :
    (answer f (.seek target)).2.inner.reader.content = f.inner.reader.content ∧
      ((∃ e, (answer f (.seek target)).1 = .error e ∧ (answer f (.seek target)).2.pos = f.pos ∧
          (answer f (.seek target)).2.inner.reader.pos = f.inner.reader.pos) ∨
        (answer f (.seek target)).1 = .ok (.inl target) ∧ (answer f (.seek target)).2.pos = target ∧
          (answer f (.seek target)).2.inner.reader.pos = target) := by
  have hcontent := Handle.seek_content f.inner.reader target
  have hok := @Handle.seek_spec f.inner.reader target
  have hfailed := @Handle.seek_failed f.inner.reader target
  unfold answer VfsFile.seek instVfsFileLocalSeekableZstdFile
  simp only
  generalize f.inner.reader.seek target = sought at hcontent hok hfailed
  obtain ⟨result, reader⟩ := sought
  cases result with
  | error e => exact ⟨hcontent, .inl ⟨e, rfl, rfl, hfailed rfl⟩⟩
  | ok _ => exact ⟨hcontent, .inr ⟨rfl, rfl, (hok rfl).2⟩⟩

/-- A read that succeeds returns what follows the position of the decoder, as much as is asked for,
and moves both positions; a failed one leaves the one beside the decoder. -/
theorem localZst_read (f : LocalSeekableZstdFile) (len : Nat) :
    (answer f (.read len)).2.inner.reader.content = f.inner.reader.content ∧
      ((∃ e, (answer f (.read len)).1 = .error e ∧ (answer f (.read len)).2.pos = f.pos) ∨
        ∃ bytes, bytes = (f.inner.reader.content.drop f.inner.reader.pos).take len ∧
          (answer f (.read len)).1 = .ok (.inr bytes) ∧
          (answer f (.read len)).2.pos = f.pos + bytes.length ∧
          (answer f (.read len)).2.inner.reader.pos = f.inner.reader.pos + bytes.length) := by
  obtain ⟨hcontent, hpos⟩ := fillBuf_after f.inner.reader len []
  have hspec := @fillBuf_spec f.inner.reader len []
  unfold answer VfsFile.read instVfsFileLocalSeekableZstdFile
  simp only
  generalize fillBuf f.inner.reader len [] = filled at hcontent hpos hspec
  obtain ⟨result, reader⟩ := filled
  cases result with
  | error e => exact ⟨hcontent, .inl ⟨e, rfl, rfl⟩⟩
  | ok bytes =>
    obtain ⟨hbytes, -⟩ := hspec rfl
    exact ⟨hcontent, .inr ⟨bytes, hbytes, rfl, rfl, hpos bytes rfl⟩⟩

/-- A call of a steady run is answered as by a plain file at the position the file keeps. The
decoder is there too, unless the call was a read that failed. -/
theorem localZst_step {lost : Bool} {f : LocalSeekableZstdFile}
    (hpos : lost = false → f.inner.reader.pos = f.pos) {call : FileCall} {calls : List FileCall}
    {more : List FileAnswer} (hsteady : Steady lost (call :: calls) ((answer f call).1 :: more)) :
    ∃ reply lost', Steady lost' calls more ∧
      (answer f call).2.inner.reader.content = f.inner.reader.content ∧
      (lost' = false → (answer f call).2.inner.reader.pos = (answer f call).2.pos) ∧
      ∀ replies, answer (plainFile f.inner.reader.content f.pos (reply :: replies)) call =
        ((answer f call).1, plainFile f.inner.reader.content (answer f call).2.pos replies) := by
  cases call with
  | seek target =>
    obtain ⟨hcontent, ⟨e, he, hkept, hreader⟩ | ⟨hok, hmoved, hreader⟩⟩ := localZst_seek f target
    · refine ⟨.error e, lost, ?_, hcontent, ?_, ?_⟩
      · rw [Steady, he, show (!(Except.error e : FileAnswer).isOk) = true from rfl,
          Bool.and_true] at hsteady
        exact hsteady
      · intro hlost
        rw [hreader, hkept, hpos hlost]
      · intro replies
        rw [plainFile_failed, he, hkept]
    · refine ⟨.short 0, false, ?_, hcontent, ?_, ?_⟩
      · rw [Steady, hok, show (!(Except.ok (.inl target) : FileAnswer).isOk) = false from rfl,
          Bool.and_false] at hsteady
        exact hsteady
      · intro _
        rw [hreader, hmoved]
      · intro replies
        rw [plainFile_seek, hok, hmoved]
  | read len =>
    obtain ⟨rfl, hsteady⟩ : lost = false ∧ Steady (!(answer f (.read len)).1.isOk) calls more :=
      hsteady
    obtain ⟨hcontent, ⟨e, he, hkept⟩ | ⟨bytes, hbytes, hok, hmoved, hreader⟩⟩ := localZst_read f len
    · refine ⟨.error e, true, ?_, hcontent, ?_, ?_⟩
      · rw [he] at hsteady
        exact hsteady
      · intro hlost
        cases hlost
      · intro replies
        rw [plainFile_failed, he, hkept]
    · refine ⟨.short len, false, ?_, hcontent, ?_, ?_⟩
      · rw [hok] at hsteady
        exact hsteady
      · intro _
        rw [hreader, hmoved, hpos rfl]
      · intro replies
        rw [hpos rfl] at hbytes
        rw [plainFile_read, ← hbytes, hok, hmoved]

/-- A steady run on a compressed file is one on a plain file with the text, from the position the
file keeps. -/
theorem localZst_runs {lost : Bool} {f : LocalSeekableZstdFile}
    (hpos : lost = false → f.inner.reader.pos = f.pos) {calls : List FileCall}
    (hsteady : Steady lost calls (answers answer f calls)) :
    ∃ replies,
      answers answer f calls =
        answers answer (plainFile f.inner.reader.content f.pos replies) calls ∧
      (after answer f calls).pos =
        (after answer (plainFile f.inner.reader.content f.pos replies) calls).file.pos := by
  induction calls generalizing lost f with
  | nil => exact ⟨[], rfl, rfl⟩
  | cons call calls ih =>
    obtain ⟨reply, lost', hnext, hcontent, hpos', hplain⟩ := localZst_step hpos hsteady
    obtain ⟨replies, hanswers, hafter⟩ := ih hpos' hnext
    rw [hcontent] at hanswers hafter
    refine ⟨reply :: replies, ?_, ?_⟩
    · rw [answers, answers, hplain, hanswers]
    · rw [after, after, hplain, hafter]

/-! ## The files of a host -/

/-- A plain file of a host is a local one, and its offset is the position. -/
def SshSeekablePlainFile.Follows (f : SshSeekablePlainFile) (g : LocalSeekableFile) : Prop :=
  f.file = some g.file ∧ f.offset = g.file.pos

theorem sshPlain_step {f : SshSeekablePlainFile} {g : LocalSeekableFile} (call : FileCall)
    (h : f.Follows g) :
    (answer f call).1 = (answer g call).1 ∧ (answer f call).2.Follows (answer g call).2 := by
  obtain ⟨path, offset, size, file⟩ := f
  obtain ⟨hfile, hoffset⟩ := h
  obtain rfl : file = some g.file := hfile
  obtain rfl : offset = g.file.pos := hoffset
  cases call with
  | seek target =>
    have hfailed := @Handle.seek_failed g.file target
    have hok := @Handle.seek_spec g.file target
    unfold answer VfsFile.seek instVfsFileSshSeekablePlainFile instVfsFileLocalSeekableFile
    simp only
    generalize g.file.seek target = sought at hfailed hok
    obtain ⟨result, file⟩ := sought
    cases result with
    | error e => exact ⟨rfl, rfl, (hfailed rfl).symm⟩
    | ok _ => exact ⟨rfl, rfl, (hok rfl).2.symm⟩
  | read len =>
    have hfailed := @Handle.read_failed g.file len
    have hok := @Handle.read_spec g.file len
    unfold answer VfsFile.read instVfsFileSshSeekablePlainFile instVfsFileLocalSeekableFile
    simp only
    generalize g.file.read len = found at hfailed hok
    obtain ⟨result, file⟩ := found
    cases result with
    | error e => exact ⟨rfl, rfl, (hfailed rfl).symm⟩
    | ok bytes =>
      obtain ⟨n, -, -, -, -, hpos⟩ := hok rfl
      exact ⟨rfl, rfl, hpos.symm⟩

/-- A compressed file of a host is a local one. -/
def SshSeekableZstFile.Follows (f : SshSeekableZstFile) (g : LocalSeekableZstdFile) : Prop :=
  f.decoder = some g.inner ∧ f.offset = g.pos

theorem sshZst_step {f : SshSeekableZstFile} {g : LocalSeekableZstdFile} (call : FileCall)
    (h : f.Follows g) :
    (answer f call).1 = (answer g call).1 ∧ (answer f call).2.Follows (answer g call).2 := by
  obtain ⟨path, offset, size, decoder⟩ := f
  obtain ⟨hdecoder, hoffset⟩ := h
  obtain rfl : decoder = some g.inner := hdecoder
  obtain rfl : offset = g.pos := hoffset
  cases call with
  | seek target =>
    unfold answer VfsFile.seek instVfsFileSshSeekableZstFile instVfsFileLocalSeekableZstdFile
    simp only
    generalize g.inner.reader.seek target = sought
    obtain ⟨result, reader⟩ := sought
    cases result with
    | error e => exact ⟨rfl, rfl, rfl⟩
    | ok _ => exact ⟨rfl, rfl, rfl⟩
  | read len =>
    unfold answer VfsFile.read instVfsFileSshSeekableZstFile instVfsFileLocalSeekableZstdFile
    simp only
    generalize fillBuf g.inner.reader len [] = filled
    obtain ⟨result, reader⟩ := filled
    cases result with
    | error e => exact ⟨rfl, rfl, rfl⟩
    | ok bytes => exact ⟨rfl, rfl, rfl⟩

/-- A local file answers as another on the same handle. -/
theorem localPlain_step {f g : LocalSeekableFile} (call : FileCall) (h : f.file = g.file) :
    (answer f call).1 = (answer g call).1 ∧ (answer f call).2.file = (answer g call).2.file := by
  cases call with
  | seek target =>
    unfold answer VfsFile.seek instVfsFileLocalSeekableFile
    simp only
    rw [h]
    generalize g.file.seek target = sought
    obtain ⟨result, file⟩ := sought
    cases result with
    | error e => exact ⟨rfl, rfl⟩
    | ok _ => exact ⟨rfl, rfl⟩
  | read len =>
    unfold answer VfsFile.read instVfsFileLocalSeekableFile
    simp only
    rw [h]
    generalize g.file.read len = found
    obtain ⟨result, file⟩ := found
    cases result with
    | error e => exact ⟨rfl, rfl⟩
    | ok bytes => exact ⟨rfl, rfl⟩

/-! ## Opened files -/

namespace OpenFile

/-- The text of a file. -/
def text : OpenFile → Bytes
  | localPlain f => f.file.content
  | localZst f => f.inner.reader.content
  | sshPlain f => (f.file.map Handle.content).getD []
  | sshZst f => (f.decoder.map fun decoder => decoder.reader.content).getD []

/-- The position a file keeps. -/
def offset : OpenFile → Nat
  | localPlain f => f.file.pos
  | localZst f => f.pos
  | sshPlain f => f.offset
  | sshZst f => f.offset

/-- A compressed file. -/
def isZst : OpenFile → Bool
  | localPlain _ => false
  | localZst _ => true
  | sshPlain _ => false
  | sshZst _ => true

end OpenFile

section

variable {F : Type} [VfsFile F] (wrap : F → OpenFile)
  (hwrap : ∀ f call, answer (wrap f) call = ((answer f call).1, wrap (answer f call).2))

include hwrap

/-- A file in a box is the file. -/
theorem boxed_runs (f : F) (calls : List FileCall) :
    answers answer (wrap f) calls = answers answer f calls ∧
      after answer (wrap f) calls = wrap (after answer f calls) := by
  apply Runs.simulates (R := fun boxed f => boxed = wrap f)
  · rintro _ f call rfl
    rw [hwrap]
    exact ⟨rfl, rfl⟩
  · rfl

end

namespace OpenFile

/-- What a plain local file that holds the text answers. -/
def RunsAsPlain (f : OpenFile) (pos : Nat) (calls : List FileCall) : Prop :=
  ∃ replies, answers answer f calls = answers answer (plainFile f.text pos replies) calls ∧
    (after answer f calls).offset =
      (after answer (plainFile f.text pos replies) calls).file.pos

theorem localPlain_runsAsPlain (f : LocalSeekableFile) (calls : List FileCall) :
    (localPlain f).RunsAsPlain f.file.pos calls := by
  obtain ⟨hboxed, hkept⟩ := boxed_runs localPlain (fun f call => by cases call <;> rfl) f calls
  have hstart : f.file = (plainFile f.file.content f.file.pos f.file.replies).file := rfl
  obtain ⟨hanswers, hafter⟩ := Runs.simulates
    (R := fun f g : LocalSeekableFile => f.file = g.file)
    (fun f g call h => localPlain_step call h) hstart calls
  refine ⟨f.file.replies, hboxed.trans hanswers, ?_⟩
  rw [hkept]
  exact congrArg Handle.pos hafter

theorem sshPlain_runsAsPlain {f : SshSeekablePlainFile} {file : Handle} (hfile : f.file = some file)
    (hoffset : f.offset = file.pos) (calls : List FileCall) :
    (sshPlain f).RunsAsPlain file.pos calls := by
  obtain ⟨hboxed, hkept⟩ := boxed_runs sshPlain (fun f call => by cases call <;> rfl) f calls
  have hstart : f.Follows (plainFile file.content file.pos file.replies) := ⟨hfile, hoffset⟩
  obtain ⟨hanswers, -, hafter⟩ := Runs.simulates (R := SshSeekablePlainFile.Follows)
    (fun f g call h => sshPlain_step call h) hstart calls
  have htext : (sshPlain f).text = file.content := by
    show (f.file.map Handle.content).getD [] = file.content
    rw [hfile]
    rfl
  refine ⟨file.replies, ?_, ?_⟩
  · rw [htext]
    exact hboxed.trans hanswers
  · rw [htext, hkept]
    exact hafter

theorem localZst_runsAsPlain {f : LocalSeekableZstdFile} (hpos : f.inner.reader.pos = f.pos)
    {calls : List FileCall} (hsteady : Steady false calls (answers answer (localZst f) calls)) :
    (localZst f).RunsAsPlain f.pos calls := by
  obtain ⟨hboxed, hkept⟩ := boxed_runs localZst (fun f call => by cases call <;> rfl) f calls
  rw [hboxed] at hsteady
  obtain ⟨replies, hanswers, hafter⟩ := localZst_runs (fun _ => hpos) hsteady
  refine ⟨replies, hboxed.trans hanswers, ?_⟩
  rw [hkept]
  exact hafter

theorem sshZst_runsAsPlain {f : SshSeekableZstFile} {decoder : Decoder}
    (hdecoder : f.decoder = some decoder) (hoffset : f.offset = decoder.reader.pos)
    {calls : List FileCall} (hsteady : Steady false calls (answers answer (sshZst f) calls)) :
    (sshZst f).RunsAsPlain decoder.reader.pos calls := by
  obtain ⟨hboxed, hkept⟩ := boxed_runs sshZst (fun f call => by cases call <;> rfl) f calls
  let g : LocalSeekableZstdFile := { inner := decoder, pos := f.offset, size := 0, path := [] }
  have hstart : f.Follows g := ⟨hdecoder, rfl⟩
  obtain ⟨hlocal, -, hlocalAfter⟩ := Runs.simulates (R := SshSeekableZstFile.Follows)
    (fun f g call h => sshZst_step call h) hstart calls
  rw [hboxed, hlocal] at hsteady
  obtain ⟨replies, hanswers, hafter⟩ := localZst_runs (f := g) (fun _ => hoffset.symm) hsteady
  have htext : (sshZst f).text = g.inner.reader.content := by
    show (f.decoder.map fun decoder => decoder.reader.content).getD [] = decoder.reader.content
    rw [hdecoder]
    rfl
  refine ⟨replies, ?_, ?_⟩
  · rw [htext, ← hoffset]
    exact hboxed.trans (hlocal.trans hanswers)
  · rw [htext, ← hoffset, hkept]
    exact hlocalAfter.trans hafter

end OpenFile

/-- Whatever path is opened, a run of calls is answered as on a plain local file that holds the
text, and the file keeps the position of the plain one. A compressed file needs a seek after a read
that failed. -/
theorem opened_file_reads_plain {vfs : SshSeekableZstdVfs} {path : Bytes} {f : OpenFile}
    (h : vfs.openFile path = .ok f) {calls : List FileCall}
    (hsteady : f.isZst = true → Steady false calls (answers answer f calls)) :
    ∃ replies, answers answer f calls = answers answer (plainFile f.text 0 replies) calls ∧
      (after answer f calls).offset =
        (after answer (plainFile f.text 0 replies) calls).file.pos := by
  unfold SshSeekableZstdVfs.openFile at h
  split at h
  · cases hconnect : vfs.connect path with
    | error e =>
      rw [hconnect] at h
      cases h
    | ok found =>
      obtain ⟨pathOnRemote, sftp⟩ := found
      rw [hconnect] at h
      simp only at h
      split at h
      · unfold SshSeekableZstFile.openFile at h
        cases hframes : sftp.frames pathOnRemote with
        | error e =>
          rw [hframes] at h
          cases h
        | ok frames =>
          rw [hframes] at h
          cases h
          exact OpenFile.sshZst_runsAsPlain rfl rfl (hsteady rfl)
      · unfold SshSeekablePlainFile.openFile at h
        cases hplain : sftp.plain pathOnRemote with
        | error e =>
          rw [hplain] at h
          cases h
        | ok plain =>
          obtain ⟨file, stat⟩ := plain
          rw [hplain] at h
          cases stat with
          | error e => cases h
          | ok size =>
            cases h
            exact @OpenFile.sshPlain_runsAsPlain _
              { content := file.content, replies := file.replies } rfl rfl calls
  · split at h
    · unfold LocalSeekableZstdFile.openFile at h
      cases hframes : vfs.frames path with
      | error e =>
        rw [hframes] at h
        cases h
      | ok frames =>
        rw [hframes] at h
        cases h
        exact OpenFile.localZst_runsAsPlain rfl (hsteady rfl)
    · unfold LocalSeekableFile.openFile at h
      cases hplain : vfs.plain path with
      | error e =>
        rw [hplain] at h
        cases h
      | ok file =>
        rw [hplain] at h
        obtain ⟨content, replies, len, modified⟩ := file
        cases len with
        | error e => cases h
        | ok size =>
          cases h
          exact OpenFile.localPlain_runsAsPlain _ calls

/-- A decoder that hands out one byte, and whose next call fails. -/
def brokenFrames : FoundFrames where
  content := Utf8.ofString "a=1\na=2\n"
  replies := [.short 0, .error (Utf8.ofString "reset")]
  seekTable := ⟨[.ok 8]⟩

/-- Every compressed file is this one, and there are no others. -/
def brokenVfs : SshSeekableZstdVfs where
  plain := fun _ => .error (Utf8.ofString "not found")
  frames := fun _ => .ok brokenFrames
  connect := fun _ => .error (Utf8.ofString "no host in ssh url")

def brokenFile : OpenFile :=
  .localZst { inner := brokenFrames.decoder, pos := 0, size := 8, path := Utf8.ofString "a.zst" }

/-- The byte is lost when no seek follows. -/
example : answers answer brokenFile [.read 3, .read 2] =
    [.error (Utf8.ofString "reset"), .ok (.inr (Utf8.ofString "=1"))] := by decide +kernel

theorem opened_file_reads_plain_broken :
    ∃ replies, answers answer brokenFile [.read 3, .seek 0, .read 2] =
        answers answer (plainFile brokenFile.text 0 replies) [.read 3, .seek 0, .read 2] ∧
      (after answer brokenFile [.read 3, .seek 0, .read 2]).offset =
        (after answer (plainFile brokenFile.text 0 replies) [.read 3, .seek 0,
          .read 2]).file.pos := by
  have hopen : brokenVfs.openFile (Utf8.ofString "a.zst") = .ok brokenFile := rfl
  have hanswers : answers answer brokenFile [.read 3, .seek 0, .read 2] =
      [.error (Utf8.ofString "reset"), .ok (.inl 0), .ok (.inr (Utf8.ofString "a="))] := by
    decide +kernel
  apply opened_file_reads_plain hopen
  intro _
  rw [hanswers]
  exact ⟨rfl, rfl, trivial⟩

end PolarsLogfmt
