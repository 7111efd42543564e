import PolarsLogfmt.Misc.SharedCounter

/-!
# The shares of the threads

Threads that claim a slot of a shared counter for each event share the slots between them. Every
way to share them is the outcome of some interleaving: the threads take their shares one after the
other, and then find the slots used up.
-/

namespace SharedCounter

variable {ε α : Type}

/-- A thread takes as many events more as there are slots for. -/
theorem Claims.run_take {n : Nat} {post : List ε → α → Prop} {seen rest : List ε} {p : Prog ε α}
    (h : Claims post (some n) seen rest p) {k c : Nat} (hk : k ≤ rest.length) (hc : c + k ≤ n)
    (before behind : List (Thread ε α)) :
    ∃ (m : Nat) (p' : Prog ε α),
      Sys.run ⟨c, before ++ ⟨p, seen⟩ :: behind⟩ (List.replicate m before.length) =
        ⟨c + k, before ++ ⟨p', seen ++ rest.take k⟩ :: behind⟩ ∧
      Claims post (some n) (seen ++ rest.take k) (rest.drop k) p' := by
  generalize hcap : some n = cap at h
  induction h generalizing k c with
  | @done cap seen a hpost =>
    obtain rfl : k = 0 := Nat.le_zero.mp hk
    refine ⟨0, .done a, ?_, ?_⟩
    · simp [Sys.run]
    · simpa using .done hpost
  | emit go => cases hcap
  | @load n' seen rest next result go stop hpost ih =>
    cases hcap
    cases k with
    | zero =>
      refine ⟨0, .load next, ?_, ?_⟩
      · simp [Sys.run]
      · simpa using .load result go stop hpost
    | succ k =>
      have hlt : c < n := by omega
      obtain ⟨m, p', hrun, hclaims⟩ := ih c hlt hk hc rfl
      refine ⟨m + 1, p', ?_, hclaims⟩
      rw [List.replicate_succ, Sys.run, List.foldl_cons, Sys.step_at]
      exact hrun
  | @fetchAdd n' seen rest e next cont result grant go stop hpost ih =>
    cases hcap
    cases k with
    | zero =>
      refine ⟨0, .fetchAdd next, ?_, ?_⟩
      · simp [Sys.run]
      · simpa using .fetchAdd cont result grant go stop hpost
    | succ k =>
      have hlt : c < n := by omega
      have hcount : c + 1 + k = c + (k + 1) := by omega
      obtain ⟨m, p', hrun, hclaims⟩ := ih c hlt (Nat.le_of_succ_le_succ hk) (hcount ▸ hc) rfl
      rw [List.append_assoc, List.singleton_append] at hrun hclaims
      refine ⟨m + 2, p', ?_, hclaims⟩
      -- the slot, then the event
      rw [List.replicate_succ, List.replicate_succ, Sys.run, List.foldl_cons, List.foldl_cons,
        Sys.step_at]
      show List.foldl Sys.step (Sys.step ⟨c + 1, before ++ ⟨next c, seen⟩ :: behind⟩ before.length)
        _ = _
      rw [grant c hlt, Sys.step_at, ← hcount]
      exact hrun

/-- A thread that has used up the slots, or has no event left, emits none. -/
theorem Claims.exec_idle {n : Nat} {post : List ε → α → Prop} {seen rest : List ε} {p : Prog ε α}
    (h : Claims post (some n) seen rest p) {c : Nat} (hidle : n ≤ c ∨ rest = []) :
    (p.exec c).2.1 = [] ∧ c ≤ (p.exec c).2.2 := by
  generalize hcap : some n = cap at h
  induction h generalizing c with
  | done hpost => exact ⟨rfl, Nat.le_refl c⟩
  | emit go => cases hcap
  | @load n' seen rest next result go stop hpost ih =>
    cases hcap
    by_cases hfull : n ≤ c
    · rw [Prog.exec, stop c hfull]
      exact ⟨rfl, Nat.le_refl c⟩
    · exact ih c (Nat.lt_of_not_le hfull) hidle rfl
  | @fetchAdd n' seen rest e next cont result grant go stop hpost ih =>
    cases hcap
    have hfull : n ≤ c := hidle.resolve_right (List.cons_ne_nil _ _)
    rw [Prog.exec, stop c hfull]
    exact ⟨rfl, Nat.le_succ c⟩

section

variable {γ : Type} {n : Nat} {post : γ → List ε → α → Prop} {all : γ → List ε}
    {prog : γ → Prog ε α}

/-- The thread of a program that has taken its share. -/
def Shared (n : Nat) (post : γ → List ε → α → Prop) (all : γ → List ε) (share : γ × Nat)
    (t : Thread ε α) : Prop :=
  t.trace = (all share.1).take share.2 ∧
    Claims (post share.1) (some n) t.trace ((all share.1).drop share.2) t.prog

/-- The threads take their shares one after the other. -/
theorem exists_run_shares {shares : List (γ × Nat)}
    (h : ∀ share ∈ shares, Claims (post share.1) (some n) [] (all share.1) (prog share.1))
    (hle : ∀ share ∈ shares, share.2 ≤ (all share.1).length) {c : Nat}
    (hsum : c + (shares.map Prod.snd).sum ≤ n) (before : List (Thread ε α)) :
    ∃ sched threads,
      Sys.run ⟨c, before ++ shares.map fun share => ⟨prog share.1, []⟩⟩ sched =
        ⟨c + (shares.map Prod.snd).sum, before ++ threads⟩ ∧
      List.Forall₂ (Shared n post all) shares threads := by
  induction shares generalizing c before with
  | nil => exact ⟨[], [], rfl, .nil⟩
  | cons share shares ih =>
    rw [List.map_cons, List.sum_cons, ← Nat.add_assoc] at hsum
    have hclaims := h share List.mem_cons_self
    have hshare := hle share List.mem_cons_self
    obtain ⟨m, p', hrun, hrest⟩ := hclaims.run_take hshare (by omega : c + share.2 ≤ n) before
      (shares.map fun share => ⟨prog share.1, []⟩)
    rw [List.nil_append] at hrun hrest
    obtain ⟨sched, threads, hothers, hshared⟩ := ih
      (fun other hother => h other (List.mem_cons_of_mem _ hother))
      (fun other hother => hle other (List.mem_cons_of_mem _ hother)) hsum
      (before ++ [⟨p', (all share.1).take share.2⟩])
    rw [List.append_assoc, List.singleton_append] at hothers
    refine ⟨List.replicate m before.length ++ sched, ⟨p', (all share.1).take share.2⟩ :: threads,
      ?_, .cons ⟨rfl, hrest⟩ hshared⟩
    rw [Sys.run_append, List.map_cons, hrun, hothers, List.append_assoc, List.singleton_append,
      List.map_cons, List.sum_cons, Nat.add_assoc]

/-- Threads that find nothing more to do keep their shares. -/
theorem finish_shares {shares : List (γ × Nat)} {threads : List (Thread ε α)}
    (h : List.Forall₂ (Shared n post all) shares threads) {c : Nat}
    (hidle : n ≤ c ∨ ∀ share ∈ shares, (all share.1).drop share.2 = []) :
    (Sys.finish c threads).map Prod.snd = shares.map fun share => (all share.1).take share.2 := by
  induction h generalizing c with
  | nil => rfl
  | @cons share t shares threads hshared _ ih =>
    obtain ⟨htrace, hclaims⟩ := hshared
    have hone : n ≤ c ∨ (all share.1).drop share.2 = [] := by
      rcases hidle with hfull | hnone
      · exact .inl hfull
      · exact .inr (hnone share List.mem_cons_self)
    obtain ⟨hevents, hcount⟩ := hclaims.exec_idle hone
    have hrest : n ≤ (t.prog.exec c).2.2 ∨ ∀ share ∈ shares, (all share.1).drop share.2 = [] := by
      rcases hidle with hfull | hnone
      · exact .inl (hfull.trans hcount)
      · exact .inr fun other hother => hnone other (List.mem_cons_of_mem _ hother)
    rw [Sys.finish, List.map_cons, List.map_cons, ih hrest]
    show (t.trace ++ (t.prog.exec c).2.1) :: _ = _
    rw [hevents, List.append_nil, htrace]

/-- Shares that add up to everything are everything. -/
theorem shares_all {shares : List (γ × Nat)}
    (hle : ∀ share ∈ shares, share.2 ≤ (all share.1).length)
    (hsum : (shares.map fun share => (all share.1).length).sum ≤ (shares.map Prod.snd).sum) :
    ∀ share ∈ shares, (all share.1).drop share.2 = [] := by
  induction shares with
  | nil =>
    intro share hshare
    cases hshare
  | cons share shares ih =>
    have hhead := hle share List.mem_cons_self
    have htail : (shares.map Prod.snd).sum ≤ (shares.map fun share => (all share.1).length).sum :=
      List.sum_le_sum fun other hother => hle other (List.mem_cons_of_mem _ hother)
    rw [List.map_cons, List.map_cons, List.sum_cons, List.sum_cons] at hsum
    intro other hother
    rcases List.mem_cons.mp hother with rfl | hother
    · exact List.drop_eq_nil_of_le (by omega)
    · exact ih (fun other hother => hle other (List.mem_cons_of_mem _ hother))
        (by omega) other hother

/-- Every way to share the slots is the outcome of some interleaving. -/
theorem exists_outcome_shares {shares : List (γ × Nat)}
    (h : ∀ share ∈ shares, Claims (post share.1) (some n) [] (all share.1) (prog share.1))
    (hle : ∀ share ∈ shares, share.2 ≤ (all share.1).length)
    (hsum : (shares.map Prod.snd).sum = min n (shares.map fun share => (all share.1).length).sum) :
    ∃ sched, (outcome (shares.map fun share => prog share.1) sched).map Prod.snd =
      shares.map fun share => (all share.1).take share.2 := by
  obtain ⟨sched, threads, hrun, hshared⟩ := exists_run_shares h hle
    (show 0 + (shares.map Prod.snd).sum ≤ n by omega) []
  refine ⟨sched, ?_⟩
  have hinit : Sys.init (shares.map fun share => prog share.1) =
      (⟨0, [] ++ shares.map fun share => ⟨prog share.1, []⟩⟩ : Sys ε α) := by
    unfold Sys.init
    rw [List.map_map]
    rfl
  unfold outcome
  rw [hinit, hrun]
  apply finish_shares hshared
  by_cases hfull : n ≤ (shares.map Prod.snd).sum
  · left
    show n ≤ 0 + (shares.map Prod.snd).sum
    rwa [Nat.zero_add]
  · exact .inr (shares_all hle (by omega))

/-- A prefix of what a thread may emit is a share of it. -/
theorem exists_shares {parts : List (List ε)} {xs : List γ}
    (h : List.Forall₂ (fun part x => part <+: all x) parts xs) :
    ∃ shares : List (γ × Nat), shares.map Prod.fst = xs ∧
      shares.map Prod.snd = parts.map List.length ∧
      (∀ share ∈ shares, share.2 ≤ (all share.1).length) ∧
      (shares.map fun share => (all share.1).take share.2) = parts := by
  induction h with
  | nil => exact ⟨[], rfl, rfl, fun _ hshare => (List.not_mem_nil hshare).elim, rfl⟩
  | @cons part x parts xs hpart _ ih =>
    obtain ⟨shares, hxs, hlengths, hle, hparts⟩ := ih
    refine ⟨(x, part.length) :: shares, ?_, ?_, ?_, ?_⟩
    · rw [List.map_cons, hxs]
    · rw [List.map_cons, hlengths, List.map_cons]
    · intro share hshare
      rcases List.mem_cons.mp hshare with rfl | hshare
      · exact hpart.length_le
      · exact hle share hshare
    · rw [List.map_cons, hparts, ← List.prefix_iff_eq_take.mp hpart]

/-- So any prefixes that use the slots are what the threads emit in some interleaving. -/
theorem exists_outcome_prefixes {xs : List γ}
    (h : ∀ x ∈ xs, Claims (post x) (some n) [] (all x) (prog x)) {parts : List (List ε)}
    (hparts : List.Forall₂ (fun part x => part <+: all x) parts xs)
    (hslots : parts.flatten.length = min n (xs.map fun x => (all x).length).sum) :
    ∃ sched, (outcome (xs.map prog) sched).map Prod.snd = parts := by
  obtain ⟨shares, rfl, hlengths, hle, rfl⟩ := exists_shares hparts
  rw [List.map_map]
  apply @exists_outcome_shares _ _ _ _ post all prog
  · intro share hshare
    exact h share.1 (List.mem_map_of_mem hshare)
  · exact hle
  · rw [hlengths, ← List.length_flatten, hslots, List.map_map]
    rfl

end

end SharedCounter
