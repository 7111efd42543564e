import PolarsLogfmt.Lazy.FrameTiling

/-!
# What the search for a newline sees

The search reads each of its windows once. On a handle that does not fail but whose reads
may come up short, it finds a newline exactly when one of these reads returns one.
-/

namespace PolarsLogfmt

/-! ## One read -/

/-- How much of `len` bytes a read with this reply returns, if the file goes on. -/
def granted (len : Nat) : Option Reply → Nat
  | some (.short most) => min len (most + 1)
  | some (.error _) => 0
  | none => len

/-- A read returns what is granted and takes a reply. -/
theorem Handle.read_granted {h : Handle} (hs : h.Sound) (len : Nat) :
    (h.read len).1 = .ok ((h.content.drop h.pos).take (granted len h.replies.head?)) ∧
      (h.read len).2.replies = h.replies.drop 1 := by
  unfold Sound at hs
  unfold read
  cases hr : h.replies with
  | nil => simp [granted]
  | cons r replies =>
    rw [hr] at hs
    cases r with
    | error e => exact absurd List.mem_cons_self (hs e)
    | short most => exact ⟨rfl, rfl⟩

theorem Handle.seek_replies {h : Handle} (hs : h.Sound) (pos : Nat) :
    (h.seek pos).2.replies = h.replies.drop 1 := by
  unfold Sound at hs
  unfold seek
  cases hr : h.replies with
  | nil => rfl
  | cons r replies =>
    rw [hr] at hs
    cases r with
    | error e => exact absurd List.mem_cons_self (hs e)
    | short most => rfl

/-- A read of the search looks for the last newline in the bytes it is granted. The seek
before it takes a reply too. -/
theorem searchWindow_sound {h : Handle} (hs : h.Sound) (seekPos readSize : Nat) :
    (searchWindow h seekPos readSize).1 =
        rposition newline ((h.content.drop seekPos).take (granted readSize h.replies[1]?)) ∧
      (searchWindow h seekPos readSize).2.Sound ∧
      (searchWindow h seekPos readSize).2.content = h.content ∧
      (searchWindow h seekPos readSize).2.replies = h.replies.drop 2 ∧
      (searchWindow h seekPos readSize).2.pos =
        seekPos + ((h.content.drop seekPos).take (granted readSize h.replies[1]?)).length := by
  obtain ⟨hok, hsound⟩ := Handle.seek_sound hs seekPos
  obtain ⟨hcontent, hpos⟩ := Handle.seek_spec hok
  have hreplies := Handle.seek_replies hs seekPos
  obtain ⟨hread, hreplies'⟩ := Handle.read_granted hsound readSize
  obtain ⟨-, -, -, -, hcontent', hpos'⟩ := Handle.read_spec hread
  obtain ⟨-, -, hsound'⟩ := Handle.read_sound hsound readSize
  rw [hreplies, List.head?_drop, hcontent, hpos] at hread
  rw [hpos, hcontent, hreplies, List.head?_drop] at hpos'
  rw [hreplies, List.drop_drop] at hreplies'
  unfold searchWindow
  generalize h.seek seekPos = out at hok hread hreplies' hcontent hcontent' hpos' hsound'
  obtain ⟨sought, h₁⟩ := out
  simp only at hok hread hreplies' hcontent hcontent' hpos' hsound'
  subst hok
  simp only
  generalize h₁.read readSize = out at hread hreplies' hcontent' hpos' hsound'
  obtain ⟨result, h₂⟩ := out
  simp only at hread hreplies' hcontent' hpos' hsound'
  subst hread
  exact ⟨rfl, hsound', hcontent'.trans hcontent, hreplies', hpos'⟩

/-! ## The whole search -/

/-- What read number `i` of the search backwards from `pos` returns. -/
def searchRead (h : Handle) (start pos i : Nat) : Bytes :=
  let readSize := min checkSize (pos - i * checkSize - start)
  (h.content.drop (pos - i * checkSize - readSize)).take (granted readSize h.replies[2 * i + 1]?)

/-- Some read of the search returns a newline. -/
def SearchMeets (h : Handle) (start pos : Nat) : Prop :=
  ∃ i, i * checkSize < pos - start ∧ newline ∈ searchRead h start pos i

/-- The reads after the first are those of the search from where it goes on. -/
theorem searchMeets_iff {h h' : Handle} {start pos : Nat} (hlt : start < pos)
    (hcontent : h'.content = h.content) (hreplies : h'.replies = h.replies.drop 2) :
    SearchMeets h start pos ↔
      newline ∈ searchRead h start pos 0 ∨
        SearchMeets h' start (pos - min checkSize (pos - start)) := by
  have hnext : ∀ i, (i + 1) * checkSize < pos - start →
      searchRead h' start (pos - min checkSize (pos - start)) i =
        searchRead h start pos (i + 1) := by
    intro i hi
    rw [Nat.add_mul, Nat.one_mul] at hi
    have hfull : min checkSize (pos - start) = checkSize := by omega
    have hpos : pos - checkSize - i * checkSize = pos - (i + 1) * checkSize := by
      rw [Nat.add_mul, Nat.one_mul]
      omega
    have hreply : (h.replies.drop 2)[2 * i + 1]? = h.replies[2 * (i + 1) + 1]? := by
      rw [List.getElem?_drop]
      congr 1
      omega
    unfold searchRead
    simp only
    rw [hfull, hpos, hcontent, hreplies, hreply]
  constructor
  · rintro ⟨i, hi, hmem⟩
    cases i with
    | zero => exact .inl hmem
    | succ i =>
      refine .inr ⟨i, ?_, ?_⟩
      · rw [Nat.add_mul, Nat.one_mul] at hi
        omega
      · rwa [hnext i hi]
  · rintro (hmem | ⟨i, hi, hmem⟩)
    · exact ⟨0, by omega, hmem⟩
    · have hi' : (i + 1) * checkSize < pos - start := by
        rw [Nat.add_mul, Nat.one_mul]
        omega
      exact ⟨i + 1, hi', by rwa [← hnext i hi']⟩

/-- The search ends the frame after a newline that one of its reads returns, if there is one,
and at the end of the window otherwise. -/
theorem searchDelim_sound {h : Handle} (hs : h.Sound) {start stop pos : Nat} :
    (SearchMeets h start pos →
        h.content[(searchDelim h start stop pos).1 - 1]? = some newline) ∧
      (¬ SearchMeets h start pos → (searchDelim h start stop pos).1 = stop) ∧
      (searchDelim h start stop pos).2.Sound := by
  induction pos using Nat.strong_induction_on generalizing h with
  | _ pos ih =>
    by_cases hlt : start < pos
    · have hcheck := checkSize_pos
      obtain ⟨hfound, hsound, hcontent, hreplies, -⟩ := searchWindow_sound hs
        (pos - min checkSize (pos - start)) (min checkSize (pos - start))
      have hspec := (searchWindow_spec h (pos - min checkSize (pos - start))
        (min checkSize (pos - start))).2
      have hfirst : (h.content.drop (pos - min checkSize (pos - start))).take
          (granted (min checkSize (pos - start)) h.replies[1]?) = searchRead h start pos 0 := by
        unfold searchRead
        simp only [Nat.zero_mul, Nat.sub_zero, Nat.mul_zero, Nat.zero_add]
      rw [hfirst] at hfound
      rw [searchDelim_step hlt]
      generalize searchWindow h (pos - min checkSize (pos - start))
        (min checkSize (pos - start)) = out at hfound hsound hcontent hreplies hspec
      obtain ⟨found, h'⟩ := out
      simp only at hfound hsound hcontent hreplies hspec
      have hiff := searchMeets_iff hlt hcontent hreplies
      cases found with
      | some relpos =>
        have hget := (hspec relpos rfl).2
        have hmem := List.mem_of_getElem? (rposition_eq_some hfound.symm)
        exact ⟨fun _ => hget, fun hnot => absurd (hiff.mpr (.inl hmem)) hnot, hsound⟩
      | none =>
        have hlow : pos - min checkSize (pos - start) < pos := by omega
        have ih := ih _ hlow hsound
        rw [hcontent] at ih
        rw [hiff, or_iff_right (rposition_eq_none.mp hfound.symm)]
        exact ih
    · rw [searchDelim_done hlt]
      refine ⟨?_, fun _ => rfl, hs⟩
      rintro ⟨i, hi, -⟩
      omega

/-! ## The states of the loop -/

/-- The handle and the start of each frame of `framesFrom`. -/
def frameStates (maxFrame total : Nat) (hm : 0 < maxFrame) (h : Handle) (start : Nat) :
    List (Handle × Nat) :=
  if _hs : start < total then
    (h, start) ::
      frameStates maxFrame total hm (frameEnd maxFrame total h start).2
        (frameEnd maxFrame total h start).1
  else []
termination_by total - start
decreasing_by exact Nat.sub_lt_sub_left _hs (lt_frameEnd hm _hs)

/-- The frames are what the loop makes of its states. -/
theorem framesFrom_states {maxFrame total : Nat} (hm : 0 < maxFrame) (h : Handle)
    (idx start : Nat) :
    (framesFrom maxFrame total hm h idx start).1.map (fun range => (range.start, range.len)) =
      (frameStates maxFrame total hm h start).map fun st =>
        (st.2, (frameEnd maxFrame total st.1 st.2).1 - st.2) := by
  fun_induction framesFrom maxFrame total hm h idx start with
  | case1 h idx start hlt found rest ih =>
    rw [frameStates, dif_pos hlt, List.map_cons, List.map_cons, ih]
  | case2 h idx start hnot =>
    rw [frameStates, dif_neg hnot]
    rfl

theorem forall_framesFrom {maxFrame total : Nat} (hm : 0 < maxFrame) (h : Handle) (idx start : Nat)
    (P : Nat → Nat → Prop) :
    (∀ range ∈ (framesFrom maxFrame total hm h idx start).1, P range.start range.len) ↔
      ∀ st ∈ frameStates maxFrame total hm h start,
        P st.2 ((frameEnd maxFrame total st.1 st.2).1 - st.2) := by
  have hpairs : (∀ range ∈ (framesFrom maxFrame total hm h idx start).1, P range.start range.len) ↔
      ∀ p ∈ (framesFrom maxFrame total hm h idx start).1.map
        (fun range => (range.start, range.len)), P p.1 p.2 := by
    rw [List.forall_mem_map]
  rw [hpairs, framesFrom_states, List.forall_mem_map]

/-- The search leaves a handle that does not fail as one, on the same file. -/
theorem frameEnd_sound {maxFrame total : Nat} {h : Handle} (hs : h.Sound) (start : Nat) :
    (frameEnd maxFrame total h start).2.Sound ∧
      (frameEnd maxFrame total h start).2.content = h.content := by
  by_cases hin : start + maxFrame < total
  · rw [frameEnd_interior hin]
    exact ⟨(searchDelim_sound hs).2.2, (searchDelim_spec h (Nat.le_refl _)).1⟩
  · rw [frameEnd_last hin]
    exact ⟨hs, rfl⟩

theorem frameStates_sound {maxFrame total : Nat} (hm : 0 < maxFrame) {h : Handle} (hs : h.Sound)
    (start : Nat) :
    ∀ st ∈ frameStates maxFrame total hm h start,
      st.1.Sound ∧ st.1.content = h.content ∧ st.2 < total := by
  fun_induction frameStates maxFrame total hm h start with
  | case1 h start hlt ih =>
    intro st hst
    obtain ⟨hsound, hcontent⟩ := @frameEnd_sound maxFrame total _ hs start
    rcases List.mem_cons.mp hst with rfl | hst
    · exact ⟨hs, rfl, hlt⟩
    · obtain ⟨hs', hc', hlt'⟩ := ih hsound st hst
      exact ⟨hs', hc'.trans hcontent, hlt'⟩
  | case2 =>
    intro st hst
    cases hst

/-! ## Where the search leaves the handle -/

theorem granted_pos {h : Handle} (hs : h.Sound) {len : Nat} (hlen : 0 < len) (i : Nat) :
    0 < granted len h.replies[i]? := by
  cases hr : h.replies[i]? with
  | none => exact hlen
  | some reply =>
    cases reply with
    | error e => exact absurd (List.mem_of_getElem? hr) (hs e)
    | short most => exact Nat.lt_min.mpr ⟨hlen, Nat.succ_pos most⟩

/-- A search that reads leaves the handle behind the first byte. -/
theorem searchDelim_pos {h : Handle} (hs : h.Sound) {start stop pos : Nat} (hlt : start < pos)
    (hle : pos ≤ h.content.length) : 0 < (searchDelim h start stop pos).2.pos := by
  induction pos using Nat.strong_induction_on generalizing h with
  | _ pos ih =>
    have hcheck := checkSize_pos
    obtain ⟨-, hsound, hcontent, -, hpos⟩ := searchWindow_sound hs
      (pos - min checkSize (pos - start)) (min checkSize (pos - start))
    have hgranted := granted_pos hs (show 0 < min checkSize (pos - start) by omega) 1
    rw [List.length_take, List.length_drop] at hpos
    rw [searchDelim_step hlt]
    generalize searchWindow h (pos - min checkSize (pos - start))
      (min checkSize (pos - start)) = out at hsound hcontent hpos
    obtain ⟨found, h'⟩ := out
    simp only at hsound hcontent hpos
    have hmoved : 0 < h'.pos := by omega
    cases found with
    | some relpos => exact hmoved
    | none =>
      by_cases hmore : start < pos - min checkSize (pos - start)
      · exact ih _ (by omega) hsound hmore (by rw [hcontent]; omega)
      · simp only [searchDelim_done hmore]
        exact hmoved

/-- The loop does not move the handle when its first window reaches the end of the file. It
leaves it behind the first byte otherwise. -/
theorem framesFrom_handle {maxFrame total : Nat} (hm : 0 < maxFrame) {h : Handle} (hs : h.Sound)
    (hle : total ≤ h.content.length) (idx start : Nat) :
    (framesFrom maxFrame total hm h idx start).2.Sound ∧
      (framesFrom maxFrame total hm h idx start).2.content = h.content ∧
      (¬ start + maxFrame < total → (framesFrom maxFrame total hm h idx start).2 = h) ∧
      (start + maxFrame < total ∨ 0 < h.pos →
        0 < (framesFrom maxFrame total hm h idx start).2.pos) := by
  fun_induction framesFrom maxFrame total hm h idx start with
  | case1 h idx start hlt found rest ih =>
    obtain ⟨hsound, hcontent⟩ := @frameEnd_sound maxFrame total _ hs start
    obtain ⟨hsound', hcontent', hstay, hmoved⟩ := ih hsound (hcontent ▸ hle)
    refine ⟨hsound', hcontent'.trans hcontent, ?_, ?_⟩
    · intro hlast
      have hend : found = (total, h) := frameEnd_last hlast
      have hsame := hstay (by rw [hend]; simp only; omega)
      simp only [rest, hend] at hsame ⊢
      exact hsame
    · intro hread
      apply hmoved
      right
      by_cases hin : start + maxFrame < total
      · rw [show found = _ from frameEnd_interior hin]
        exact searchDelim_pos hs (Nat.lt_add_of_pos_right hm) (by omega)
      · rw [show found = _ from frameEnd_last hin]
        exact hread.resolve_left hin
  | case2 h idx start hnot =>
    refine ⟨hs, rfl, fun _ => rfl, fun hread => hread.resolve_left (by omega)⟩

end PolarsLogfmt
