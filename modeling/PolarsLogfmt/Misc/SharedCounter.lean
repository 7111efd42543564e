import Mathlib

/-!
# Threads that share one atomic counter

`Prog ε α` is a program that loads a shared counter, increments it by an atomic
fetch-and-add, emits events of type `ε` that others cannot see, and ends with a
result. `Sys` is a counter with a list of threads; a schedule is the list of the
threads that take the next step, and `outcome` runs a schedule and then lets
every thread finish, so it ranges over all interleavings.

* `outcome_of_silent`: threads that never touch the counter end the same way in
  every interleaving.
* `Claims`: the protocol "take the next event only after claiming a slot below
  `n`", or without claiming any; `outcome_of_claims` counts the events of all
  threads together.
-/

namespace SharedCounter

/-- A program over a shared counter. -/
inductive Prog (ε α : Type) where
  | done (a : α)
  | load (next : Nat → Prog ε α)
  | fetchAdd (next : Nat → Prog ε α)
  | emit (e : ε) (next : Prog ε α)

variable {ε α β : Type}

namespace Prog

def bind : Prog ε α → (α → Prog ε β) → Prog ε β
  | done a, f => f a
  | load next, f => load fun v => (next v).bind f
  | fetchAdd next, f => fetchAdd fun v => (next v).bind f
  | emit e next, f => emit e (next.bind f)

instance : Monad (Prog ε) where
  pure := done
  bind := bind

@[simp] theorem pure_eq (a : α) : (pure a : Prog ε α) = done a := rfl

@[simp] theorem done_bind (a : α) (f : α → Prog ε β) : (done a : Prog ε α) >>= f = f a := rfl

@[simp] theorem load_bind (next : Nat → Prog ε α) (f : α → Prog ε β) :
    load next >>= f = load fun v => next v >>= f := rfl

@[simp] theorem fetchAdd_bind (next : Nat → Prog ε α) (f : α → Prog ε β) :
    fetchAdd next >>= f = fetchAdd fun v => next v >>= f := rfl

@[simp] theorem emit_bind (e : ε) (next : Prog ε α) (f : α → Prog ε β) :
    emit e next >>= f = emit e (next >>= f) := rfl

@[simp] theorem bind_assoc {γ : Type} (p : Prog ε α) (f : α → Prog ε β) (g : β → Prog ε γ) :
    p >>= f >>= g = p >>= fun a => f a >>= g := by
  induction p with
  | done a => rfl
  | load next ih => exact congrArg load (funext ih)
  | fetchAdd next ih => exact congrArg fetchAdd (funext ih)
  | emit e next ih => exact congrArg (emit e) ih

/-- The program run alone: its result, its events and the counter it leaves. -/
def exec : Prog ε α → Nat → α × List ε × Nat
  | done a, c => (a, [], c)
  | load next, c => (next c).exec c
  | fetchAdd next, c => (next c).exec (c + 1)
  | emit e next, c =>
      let (a, events, c') := next.exec c
      (a, e :: events, c')

theorem exec_bind (p : Prog ε α) (f : α → Prog ε β) (c : Nat) :
    (p >>= f).exec c =
      (((f (p.exec c).1).exec (p.exec c).2.2).1,
        (p.exec c).2.1 ++ ((f (p.exec c).1).exec (p.exec c).2.2).2.1,
        ((f (p.exec c).1).exec (p.exec c).2.2).2.2) := by
  induction p generalizing c with
  | done a => rfl
  | load next ih => exact ih c c
  | fetchAdd next ih => exact ih c (c + 1)
  | emit e next ih =>
    rw [emit_bind, exec, ih]
    rfl

/-- The program never touches the counter. -/
inductive Silent : Prog ε α → Prop where
  | done (a : α) : Silent (done a)
  | emit (e : ε) {next : Prog ε α} (h : Silent next) : Silent (emit e next)

/-- The result of a program that never touches the counter. -/
def value (p : Prog ε α) : α := (p.exec 0).1

/-- The events of a program that never touches the counter. -/
def events (p : Prog ε α) : List ε := (p.exec 0).2.1

@[simp] theorem value_done (a : α) : (done a : Prog ε α).value = a := rfl
@[simp] theorem events_done (a : α) : (done a : Prog ε α).events = [] := rfl
@[simp] theorem value_emit (e : ε) (p : Prog ε α) : (emit e p).value = p.value := rfl
@[simp] theorem events_emit (e : ε) (p : Prog ε α) : (emit e p).events = e :: p.events := rfl

/-! ### Slots under a cap -/

/-- `p`, unless the slots of the cap are all claimed. -/
def unlessFull (cap : Option Nat) (full p : Prog ε α) : Prog ε α :=
  match cap with
  | some n => load fun v => if n ≤ v then full else p
  | none => p

/-- `p` once it has claimed a slot of the cap. -/
def claimSlot (cap : Option Nat) (full p : Prog ε α) : Prog ε α :=
  match cap with
  | some n => fetchAdd fun v => if n ≤ v then full else p
  | none => p

theorem unlessFull_bind (cap : Option Nat) (full p : Prog ε α) (f : α → Prog ε β) :
    unlessFull cap full p >>= f = unlessFull cap (full >>= f) (p >>= f) := by
  cases cap with
  | none => rfl
  | some n =>
    rw [unlessFull, unlessFull, load_bind]
    congr 1
    funext v
    split <;> rfl

theorem claimSlot_bind (cap : Option Nat) (full p : Prog ε α) (f : α → Prog ε β) :
    claimSlot cap full p >>= f = claimSlot cap (full >>= f) (p >>= f) := by
  cases cap with
  | none => rfl
  | some n =>
    rw [claimSlot, claimSlot, fetchAdd_bind]
    congr 1
    funext v
    split <;> rfl

/-- Alone, a program that finds a slot free goes on. -/
theorem exec_unlessFull {cap : Option Nat} {c : Nat} (hc : ∀ n ∈ cap, c < n) (full p : Prog ε α) :
    (unlessFull cap full p).exec c = p.exec c := by
  cases cap with
  | none => rfl
  | some n => rw [unlessFull, exec, if_neg (Nat.not_le.mpr (hc n rfl))]

/-- Alone, a program that claims a free slot goes on, with one slot less to claim. -/
theorem exec_claimSlot {cap : Option Nat} {c : Nat} (hc : ∀ n ∈ cap, c < n) (full p : Prog ε α) :
    ∃ c₁, c₁ ≤ c + 1 ∧ (∀ n ∈ cap, c₁ = c + 1) ∧ (claimSlot cap full p).exec c = p.exec c₁ := by
  cases cap with
  | none =>
    refine ⟨c, Nat.le_succ c, ?_, rfl⟩
    intro n hn
    cases hn
  | some n =>
    refine ⟨c + 1, Nat.le_refl _, fun _ _ => rfl, ?_⟩
    rw [claimSlot, exec, if_neg (Nat.not_le.mpr (hc n rfl))]

end Prog

/-- A thread: what it has still to do and the events it emitted. -/
structure Thread (ε α : Type) where
  prog : Prog ε α
  trace : List ε

/-- One atomic step of a thread; a thread that is done stays. -/
def Thread.step (t : Thread ε α) (c : Nat) : Nat × Thread ε α :=
  match t.prog with
  | .done _ => (c, t)
  | .load next => (c, { t with prog := next c })
  | .fetchAdd next => (c + 1, { t with prog := next c })
  | .emit e next => (c, ⟨next, t.trace ++ [e]⟩)

theorem Thread.le_step (t : Thread ε α) (c : Nat) : c ≤ (t.step c).1 := by
  unfold Thread.step
  split <;> simp

/-- Threads over one counter. -/
structure Sys (ε α : Type) where
  counter : Nat
  threads : List (Thread ε α)

namespace Sys

/-- Thread `i` takes a step. -/
def step (s : Sys ε α) (i : Nat) : Sys ε α :=
  match s.threads[i]? with
  | none => s
  | some t => ⟨(t.step s.counter).1, s.threads.set i (t.step s.counter).2⟩

/-- The threads of `sched` take their steps in order. -/
def run (s : Sys ε α) (sched : List Nat) : Sys ε α := sched.foldl step s

theorem run_append (s : Sys ε α) (xs ys : List Nat) : s.run (xs ++ ys) = (s.run xs).run ys :=
  List.foldl_append

/-- An invariant of the steps holds after every schedule. -/
theorem run_induct {inv : Sys ε α → Prop} (hstep : ∀ s i, inv s → inv (s.step i))
    {s : Sys ε α} (h : inv s) (sched : List Nat) : inv (s.run sched) := by
  induction sched generalizing s with
  | nil => exact h
  | cons i sched ih => exact ih (hstep s i h)

/-- Every thread runs to its end, one after the other. -/
def finish (c : Nat) : List (Thread ε α) → List (α × List ε)
  | [] => []
  | t :: ts =>
      let (a, events, c') := t.prog.exec c
      (a, t.trace ++ events) :: finish c' ts

/-- The threads before their first step. -/
def init (progs : List (Prog ε α)) : Sys ε α := ⟨0, progs.map fun p => ⟨p, []⟩⟩

theorem step_at (c : Nat) (pre : List (Thread ε α)) (t : Thread ε α) (post : List (Thread ε α)) :
    step ⟨c, pre ++ t :: post⟩ pre.length = ⟨(t.step c).1, pre ++ (t.step c).2 :: post⟩ := by
  simp [step]

/-- Steps of one thread alone run it to its end. -/
theorem run_exec (p : Prog ε α) (c : Nat) (pre : List (Thread ε α)) (trace : List ε)
    (post : List (Thread ε α)) :
    ∃ k, run ⟨c, pre ++ ⟨p, trace⟩ :: post⟩ (List.replicate k pre.length) =
      ⟨(p.exec c).2.2, pre ++ ⟨.done (p.exec c).1, trace ++ (p.exec c).2.1⟩ :: post⟩ := by
  induction p generalizing c trace with
  | done a => exact ⟨0, by simp [run, Prog.exec]⟩
  | load next ih =>
    obtain ⟨k, hk⟩ := ih c c trace
    refine ⟨k + 1, ?_⟩
    rw [List.replicate_succ, run, List.foldl_cons, step_at]
    exact hk
  | fetchAdd next ih =>
    obtain ⟨k, hk⟩ := ih c (c + 1) trace
    refine ⟨k + 1, ?_⟩
    rw [List.replicate_succ, run, List.foldl_cons, step_at]
    exact hk
  | emit e next ih =>
    obtain ⟨k, hk⟩ := ih c (trace ++ [e])
    refine ⟨k + 1, ?_⟩
    rw [List.replicate_succ, run, List.foldl_cons, step_at]
    rw [run] at hk
    simpa [Thread.step, Prog.exec] using hk

/-- Letting every thread finish is one more schedule. -/
theorem exists_run_finish (c : Nat) (pre ts : List (Thread ε α)) :
    ∃ sched c', run ⟨c, pre ++ ts⟩ sched =
      ⟨c', pre ++ (finish c ts).map fun r => ⟨.done r.1, r.2⟩⟩ := by
  induction ts generalizing c pre with
  | nil => exact ⟨[], c, by simp [run, finish]⟩
  | cons t ts ih =>
    obtain ⟨k, hk⟩ := run_exec t.prog c pre t.trace ts
    obtain ⟨sched, c', hs⟩ := ih (t.prog.exec c).2.2
      (pre ++ [⟨.done (t.prog.exec c).1, t.trace ++ (t.prog.exec c).2.1⟩])
    refine ⟨List.replicate k pre.length ++ sched, c', ?_⟩
    rw [run_append, hk]
    simpa [finish] using hs

end Sys

/-- The results and events of the threads when the steps of `sched` are taken
and every thread then finishes: over all `sched`, every interleaving. -/
def outcome (progs : List (Prog ε α)) (sched : List Nat) : List (α × List ε) :=
  Sys.finish ((Sys.init progs).run sched).counter ((Sys.init progs).run sched).threads

/-- What holds of the initial threads and is kept by every step holds at the end. -/
theorem outcome_induct {inv : Sys ε α → Prop} (hstep : ∀ s i, inv s → inv (s.step i))
    {progs : List (Prog ε α)} (h : inv (Sys.init progs)) (sched : List Nat) :
    ∃ c, inv ⟨c, (outcome progs sched).map fun r => ⟨.done r.1, r.2⟩⟩ := by
  obtain ⟨more, c', hrun⟩ := Sys.exists_run_finish ((Sys.init progs).run sched).counter []
    ((Sys.init progs).run sched).threads
  refine ⟨c', ?_⟩
  have := Sys.run_induct hstep (Sys.run_induct hstep h sched) more
  rw [List.nil_append] at hrun
  rwa [show (Sys.init progs).run sched = ⟨((Sys.init progs).run sched).counter,
    ((Sys.init progs).run sched).threads⟩ from rfl, hrun] at this

theorem forall₂_set {γ δ : Type} {R S : γ → δ → Prop} {xs : List γ} {ts : List δ} {i : Nat}
    {t t' : δ} (h : List.Forall₂ R xs ts) (ht : ts[i]? = some t) (hRS : ∀ x u, R x u → S x u)
    (hnew : ∀ x, R x t → S x t') : List.Forall₂ S xs (ts.set i t') := by
  induction h generalizing i with
  | nil => simp at ht
  | @cons x u xs ts hxu hrest ih =>
    cases i with
    | zero =>
      obtain rfl : u = t := by simpa using ht
      exact .cons (hnew x hxu) (hrest.imp hRS)
    | succ i => exact .cons (hRS x u hxu) (ih (by simpa using ht))

theorem sum_map_set {δ : Type} (g : δ → Nat) {ts : List δ} {i : Nat} {t : δ} (t' : δ)
    (ht : ts[i]? = some t) : ((ts.set i t').map g).sum + g t = (ts.map g).sum + g t' := by
  induction ts generalizing i with
  | nil => simp at ht
  | cons u ts ih =>
    cases i with
    | zero =>
      obtain rfl : u = t := by simpa using ht
      simp only [List.set_cons_zero, List.map_cons, List.sum_cons]
      omega
    | succ i =>
      have := ih (i := i) (by simpa using ht)
      simp only [List.set_cons_succ, List.map_cons, List.sum_cons]
      omega

/-- Thread-modular reasoning: a property of single threads that their own steps keep,
and that survives a growing counter, holds of every thread at the end. The
threads are the programs of the items `xs`. -/
theorem outcome_forall₂ {γ : Type} {R : Nat → γ → Thread ε α → Prop} (prog : γ → Prog ε α)
    (hmono : ∀ c c' x t, c ≤ c' → R c x t → R c' x t)
    (hstep : ∀ c x t, R c x t → R (t.step c).1 x (t.step c).2)
    {xs : List γ} (hinit : ∀ x ∈ xs, R 0 x ⟨prog x, []⟩) (sched : List Nat) :
    ∃ c, List.Forall₂ (fun x r => R c x ⟨.done r.1, r.2⟩) xs (outcome (xs.map prog) sched) := by
  have hs : ∀ (s : Sys ε α) i, List.Forall₂ (R s.counter) xs s.threads →
      List.Forall₂ (R (s.step i).counter) xs (s.step i).threads := by
    intro s i h
    simp only [Sys.step]
    cases ht : s.threads[i]? with
    | none => exact h
    | some t =>
      exact forall₂_set h ht (fun x u => hmono _ _ x u (Thread.le_step t s.counter))
        fun x hx => hstep _ x t hx
  have h0 : List.Forall₂ (R (Sys.init (xs.map prog)).counter) xs
      (Sys.init (xs.map prog)).threads := by
    simp only [Sys.init, List.forall₂_map_right_iff]
    exact List.forall₂_same.mpr hinit
  obtain ⟨c, hend⟩ := outcome_induct hs h0 sched
  refine ⟨c, ?_⟩
  simpa only [List.forall₂_map_right_iff] using hend

/-- Threads that never touch the counter end the same way in every interleaving. -/
theorem outcome_of_silent {progs : List (Prog ε α)} (hs : ∀ p ∈ progs, p.Silent)
    (sched : List Nat) : outcome progs sched = progs.map fun p => (p.value, p.events) := by
  let R : Nat → Prog ε α → Thread ε α → Prop := fun _ p t =>
    t.prog.Silent ∧ t.prog.value = p.value ∧ t.trace ++ t.prog.events = p.events
  have hstep : ∀ c x t, R c x t → R (t.step c).1 x (t.step c).2 := by
    rintro c x ⟨prog, trace⟩ ⟨hsilent, hvalue, hevents⟩
    cases hsilent with
    | done a => exact ⟨.done a, hvalue, hevents⟩
    | emit e h => exact ⟨h, hvalue, by simpa [Thread.step] using hevents⟩
  obtain ⟨c, hend⟩ := outcome_forall₂ (R := R) id (fun _ _ _ _ _ h => h) hstep
    (fun p hp => ⟨hs p hp, rfl, by simp⟩) sched
  rw [List.map_id] at hend
  have := hend.imp fun p r h =>
    show (p.value, p.events) = r from Prod.ext h.2.1.symm (by simpa using h.2.2.symm)
  exact (List.forall₂_eq_eq_eq ▸ (List.forall₂_map_left_iff.mpr this)).symm

/-! ## Interference -/

/-- `Ends c p c' a`: started on the counter `c`, which others may increment at any time, the
program `p` may end with `a` on the counter `c'`. -/
inductive Ends : Nat → Prog ε α → Nat → α → Prop where
  | done {c c' : Nat} (hc : c ≤ c') (a : α) : Ends c (.done a) c' a
  | load {c v c' : Nat} {next : Nat → Prog ε α} {a : α} (hv : c ≤ v) (h : Ends v (next v) c' a) :
      Ends c (.load next) c' a
  | fetchAdd {c v c' : Nat} {next : Nat → Prog ε α} {a : α} (hv : c ≤ v)
      (h : Ends (v + 1) (next v) c' a) : Ends c (.fetchAdd next) c' a
  | emit {c c' : Nat} {e : ε} {next : Prog ε α} {a : α} (h : Ends c next c' a) :
      Ends c (.emit e next) c' a

/-- The others may have come first. -/
theorem Ends.mono {c₀ c c' : Nat} (hc : c₀ ≤ c) {p : Prog ε α} {a : α} (h : Ends c p c' a) :
    Ends c₀ p c' a := by
  induction h with
  | done h a => exact .done (hc.trans h) a
  | load hv h _ => exact .load (hc.trans hv) h
  | fetchAdd hv h _ => exact .fetchAdd (hc.trans hv) h
  | emit _ ih => exact .emit (ih hc)

/-- A program ends where its two parts do, one after the other. -/
theorem Ends.of_bind {c c' : Nat} {p : Prog ε α} {f : α → Prog ε β} {b : β}
    (h : Ends c (p >>= f) c' b) : ∃ m a, Ends c p m a ∧ Ends m (f a) c' b := by
  induction p generalizing c with
  | done a => exact ⟨c, a, .done (Nat.le_refl c) a, h⟩
  | load next ih =>
    cases h with
    | load hv h =>
      obtain ⟨m, a, hp, hf⟩ := ih _ h
      exact ⟨m, a, .load hv hp, hf⟩
  | fetchAdd next ih =>
    cases h with
    | fetchAdd hv h =>
      obtain ⟨m, a, hp, hf⟩ := ih _ h
      exact ⟨m, a, .fetchAdd hv hp, hf⟩
  | emit e next ih =>
    cases h with
    | emit h =>
      obtain ⟨m, a, hp, hf⟩ := ih h
      exact ⟨m, a, .emit hp, hf⟩

/-- Among others, a program is held up or goes on while there is a slot left. -/
theorem Ends.of_unlessFull {cap : Option Nat} {c c' : Nat} {a b : α} {p : Prog ε α}
    (h : Ends c (Prog.unlessFull cap (.done a) p) c' b) :
    b = a ∨ ∃ v, c ≤ v ∧ (∀ n ∈ cap, v < n) ∧ Ends v p c' b := by
  cases cap with
  | none =>
    refine .inr ⟨c, Nat.le_refl c, ?_, h⟩
    intro n hn
    cases hn
  | some n =>
    cases h with
    | @load _ v _ _ _ hv h =>
      simp only at h
      by_cases hfull : n ≤ v
      · rw [if_pos hfull] at h
        cases h with
        | done _ _ => exact .inl rfl
      · rw [if_neg hfull] at h
        refine .inr ⟨v, hv, ?_, h⟩
        rintro m ⟨⟩
        exact Nat.lt_of_not_le hfull

/-- Among others, a program is held up or goes on with a slot of its own. -/
theorem Ends.of_claimSlot {cap : Option Nat} {c c' : Nat} {a b : α} {p : Prog ε α}
    (h : Ends c (Prog.claimSlot cap (.done a) p) c' b) :
    b = a ∨ ∃ v, (∀ n ∈ cap, c + 1 ≤ v ∧ v ≤ n) ∧ Ends v p c' b := by
  cases cap with
  | none =>
    refine .inr ⟨c, ?_, h⟩
    intro n hn
    cases hn
  | some n =>
    cases h with
    | @fetchAdd _ v _ _ _ hv h =>
      simp only at h
      by_cases hfull : n ≤ v
      · rw [if_pos hfull] at h
        cases h with
        | done _ _ => exact .inl rfl
      · rw [if_neg hfull] at h
        refine .inr ⟨v + 1, ?_, h⟩
        rintro m ⟨⟩
        exact ⟨Nat.succ_le_succ hv, Nat.lt_of_not_le hfull⟩

/-- All that a thread sees of the others is that the counter grows. -/
theorem outcome_ends {progs : List (Prog ε α)} {sched : List Nat} {r : α × List ε}
    (hr : r ∈ outcome progs sched) : ∃ p ∈ progs, ∃ c, Ends 0 p c r.1 := by
  let R : Nat → Prog ε α → Thread ε α → Prop := fun c p t =>
    ∀ c' a, Ends c t.prog c' a → Ends 0 p c' a
  have hstep : ∀ c x t, R c x t → R (t.step c).1 x (t.step c).2 := by
    rintro c x ⟨prog, trace⟩ hR c' a hends
    cases prog with
    | done b => exact hR c' a hends
    | load next => exact hR c' a (.load (Nat.le_refl c) hends)
    | fetchAdd next => exact hR c' a (.fetchAdd (Nat.le_refl c) hends)
    | emit e next => exact hR c' a (.emit hends)
  obtain ⟨c, hend⟩ := outcome_forall₂ (R := R) id
    (fun _ _ _ _ hc hR c' a h => hR c' a (h.mono hc)) hstep (fun _ _ _ _ h => h) sched
  rw [List.map_id] at hend
  obtain ⟨i, hi, rfl⟩ := List.getElem_of_mem hr
  have hlt : i < progs.length := hend.length_eq ▸ hi
  exact ⟨progs[i], List.getElem_mem hlt, c, hend.get hlt hi c _ (.done (Nat.le_refl c) _)⟩

theorem Sys.mem_finish {c : Nat} {ts : List (Thread ε α)} {a : α} {trace : List ε}
    (h : ⟨.done a, trace⟩ ∈ ts) : (a, trace) ∈ finish c ts := by
  induction ts generalizing c with
  | nil => cases h
  | cons t ts ih =>
    rcases List.mem_cons.mp h with rfl | h
    · simp [finish, Prog.exec]
    · exact List.mem_cons_of_mem _ (ih h)

/-- In some interleaving a thread comes to its end before the others begin. -/
theorem exists_outcome_exec {progs : List (Prog ε α)} {p : Prog ε α} (hp : p ∈ progs) :
    ∃ sched, ((p.exec 0).1, (p.exec 0).2.1) ∈ outcome progs sched := by
  obtain ⟨before, after, rfl⟩ := List.append_of_mem hp
  obtain ⟨k, hk⟩ := Sys.run_exec p 0 (before.map fun p => ⟨p, []⟩) []
    (after.map fun p => ⟨p, []⟩)
  refine ⟨List.replicate k (before.map fun p => (⟨p, []⟩ : Thread ε α)).length, ?_⟩
  rw [outcome, Sys.init, List.map_append, List.map_cons, hk]
  apply Sys.mem_finish
  rw [List.nil_append]
  exact List.mem_append_right _ List.mem_cons_self

/-! ## Claiming slots -/

/-- `Claims post cap seen rest p`: having emitted `seen`, the program `p` emits the
events of `rest` in order. With the cap `some n` each comes after a fetch-and-add
that returned less than `n`, and the program stops early only on a load or a
fetch-and-add that returned `n` or more; without a cap it leaves the counter
alone. Its result satisfies `post` with all the events it emitted. -/
inductive Claims (post : List ε → α → Prop) : Option Nat → List ε → List ε → Prog ε α → Prop where
  | done {cap : Option Nat} {seen : List ε} {a : α} (h : post seen a) :
      Claims post cap seen [] (.done a)
  | emit {seen rest : List ε} {e : ε} {next : Prog ε α}
      (go : Claims post none (seen ++ [e]) rest next) :
      Claims post none seen (e :: rest) (.emit e next)
  | load {n : Nat} {seen rest : List ε} {next : Nat → Prog ε α} (result : Nat → α)
      (go : ∀ v < n, Claims post (some n) seen rest (next v))
      (stop : ∀ v, n ≤ v → next v = .done (result v))
      (hpost : ∀ v, n ≤ v → post seen (result v)) : Claims post (some n) seen rest (.load next)
  | fetchAdd {n : Nat} {seen rest : List ε} {e : ε} {next : Nat → Prog ε α} (cont : Nat → Prog ε α)
      (result : Nat → α)
      (grant : ∀ v < n, next v = .emit e (cont v))
      (go : ∀ v < n, Claims post (some n) (seen ++ [e]) rest (cont v))
      (stop : ∀ v, n ≤ v → next v = .done (result v))
      (hpost : ∀ v, n ≤ v → post seen (result v)) :
      Claims post (some n) seen (e :: rest) (.fetchAdd next)

theorem Claims.unlessFull {post : List ε → α → Prop} {cap : Option Nat} {seen rest : List ε}
    {a : α} {p : Prog ε α} (hpost : cap.isSome → post seen a) (go : Claims post cap seen rest p) :
    Claims post cap seen rest (Prog.unlessFull cap (.done a) p) := by
  cases cap with
  | none => exact go
  | some n =>
    refine .load (fun _ => a) ?_ ?_ ?_
    · intro v hv
      rw [if_neg (Nat.not_le.mpr hv)]
      exact go
    · intro v hv
      exact if_pos hv
    · intro v _
      exact hpost rfl

theorem Claims.claimSlot {post : List ε → α → Prop} {cap : Option Nat} {seen rest : List ε}
    {a : α} {e : ε} {p : Prog ε α} (hpost : cap.isSome → post seen a)
    (go : Claims post cap (seen ++ [e]) rest p) :
    Claims post cap seen (e :: rest) (Prog.claimSlot cap (.done a) (.emit e p)) := by
  cases cap with
  | none => exact .emit go
  | some n =>
    refine .fetchAdd (fun _ => p) (fun _ => a) ?_ (fun _ _ => go) ?_ ?_
    · intro v hv
      exact if_neg (Nat.not_le.mpr hv)
    · intro v hv
      exact if_pos hv
    · intro v _
      exact hpost rfl

/-- Without a cap the program emits all its events, whatever the others do. -/
theorem Claims.silent {post : List ε → α → Prop} {seen rest : List ε} {p : Prog ε α}
    (h : Claims post none seen rest p) :
    p.Silent ∧ p.events = rest ∧ post (seen ++ rest) p.value := by
  generalize hcap : (none : Option Nat) = cap at h
  induction h with
  | done h => exact ⟨.done _, rfl, by simpa using h⟩
  | emit go ih =>
    obtain ⟨hsilent, hevents, hpost⟩ := ih rfl
    exact ⟨.emit _ hsilent, by simp [hevents], by simpa using hpost⟩
  | load => cases hcap
  | fetchAdd => cases hcap

/-- The slots a thread holds: its events, and the one it is about to emit. -/
def Thread.held (t : Thread ε α) : Nat :=
  t.trace.length + match t.prog with
    | .emit _ _ => 1
    | _ => 0

/-- Where a claiming thread with the events `all` stands when the counter is `c`. -/
inductive Claims.At (n : Nat) (post : List ε → α → Prop) (c : Nat) (all : List ε) :
    Thread ε α → Prop where
  | running {trace rest : List ε} {p : Prog ε α} (hall : all = trace ++ rest)
      (h : Claims post (some n) trace rest p) : At n post c all ⟨p, trace⟩
  | granted {trace rest : List ε} {e : ε} {p : Prog ε α} (hall : all = trace ++ e :: rest)
      (h : Claims post (some n) (trace ++ [e]) rest p) : At n post c all ⟨.emit e p, trace⟩
  | stopped {trace rest : List ε} {a : α} (hall : all = trace ++ rest) (hc : n ≤ c)
      (h : post trace a) : At n post c all ⟨.done a, trace⟩

theorem Claims.At.mono {n c c' : Nat} {post : List ε → α → Prop} {all : List ε}
    {t : Thread ε α} (hc : c ≤ c') (h : At n post c all t) : At n post c' all t := by
  cases h with
  | running hall h => exact .running hall h
  | granted hall h => exact .granted hall h
  | stopped hall hn h => exact .stopped hall (hn.trans hc) h

theorem Claims.held_eq {n : Nat} {post : List ε → α → Prop} {seen rest : List ε}
    {p : Prog ε α} (h : Claims post (some n) seen rest p) (trace : List ε) :
    Thread.held ⟨p, trace⟩ = trace.length := by
  cases h <;> simp [Thread.held]

/-- A step of a claiming thread keeps where it stands, and takes a slot exactly
when it increments a counter below `n`. -/
theorem Claims.At.step {n c : Nat} {post : List ε → α → Prop} {all : List ε} {t : Thread ε α}
    (h : At n post c all t) :
    At n post (t.step c).1 all (t.step c).2 ∧
      (t.step c).2.held + min c n = t.held + min (t.step c).1 n := by
  cases h with
  | running hall h =>
    cases h with
    | done h => exact ⟨.running hall (.done h), rfl⟩
    | load result go stop hpost =>
      by_cases hc : c < n
      · refine ⟨.running hall (go c hc), ?_⟩
        simp only [Thread.step, (go c hc).held_eq]
        simp [Thread.held]
      · have hn : n ≤ c := Nat.le_of_not_lt hc
        simp only [Thread.step, stop c hn]
        exact ⟨.stopped hall hn (hpost c hn), by simp [Thread.held]⟩
    | fetchAdd cont result grant go stop hpost =>
      by_cases hc : c < n
      · simp only [Thread.step, grant c hc]
        refine ⟨.granted hall (go c hc), ?_⟩
        simp only [Thread.held]
        omega
      · have hn : n ≤ c := Nat.le_of_not_lt hc
        simp only [Thread.step, stop c hn]
        refine ⟨.stopped hall (hn.trans c.le_succ) (hpost c hn), ?_⟩
        simp only [Thread.held]
        omega
  | granted hall h =>
    refine ⟨.running (by simpa using hall) h, ?_⟩
    simp only [Thread.step, h.held_eq]
    simp [Thread.held]
  | stopped hall hc h => exact ⟨.stopped hall hc h, rfl⟩

/-- At the end a thread has emitted a prefix of its events. -/
theorem Claims.At.trace_le {n c : Nat} {post : List ε → α → Prop} {all trace : List ε} {a : α}
    (h : At n post c all ⟨.done a, trace⟩) : trace <+: all := by
  cases h with
  | running hall _ => exact ⟨_, hall.symm⟩
  | stopped hall _ _ => exact ⟨_, hall.symm⟩

theorem Claims.At.post_of_done {n c : Nat} {post : List ε → α → Prop} {all trace : List ε}
    {a : α} (h : At n post c all ⟨.done a, trace⟩) : post trace a := by
  cases h with
  | running _ h =>
    cases h with
    | done h => exact h
  | stopped _ _ h => exact h

/-- At the end a thread has emitted all its events unless the counter reached `n`. -/
theorem Claims.At.eq_of_lt {n c : Nat} {post : List ε → α → Prop} {all trace : List ε} {a : α}
    (h : At n post c all ⟨.done a, trace⟩) (hc : c < n) : trace = all := by
  cases h with
  | running hall h =>
    cases h with
    | done _ => simpa using hall.symm
  | stopped _ hn _ => omega

/-- Threads that claim slots below `n` before each event: together they emit `n`
events, or all of them when there are fewer; each thread emits a prefix of its
own events, and its result satisfies its postcondition on that prefix. -/
theorem outcome_of_claims {γ : Type} {n : Nat} {post : γ → List ε → α → Prop}
    {all : γ → List ε} {prog : γ → Prog ε α} {xs : List γ}
    (h : ∀ x ∈ xs, Claims (post x) (some n) [] (all x) (prog x)) (sched : List Nat) :
    List.Forall₂ (fun x r => r.2 <+: all x ∧ post x r.2 r.1) xs (outcome (xs.map prog) sched) ∧
      ((outcome (xs.map prog) sched).map fun r => r.2.length).sum =
        min n (xs.map fun x => (all x).length).sum := by
  let inv : Sys ε α → Prop := fun s =>
    List.Forall₂ (fun x => Claims.At n (post x) s.counter (all x)) xs s.threads ∧
      (s.threads.map Thread.held).sum = min s.counter n
  have hstep : ∀ s i, inv s → inv (s.step i) := by
    rintro s i ⟨hat, hheld⟩
    simp only [Sys.step]
    cases ht : s.threads[i]? with
    | none => exact ⟨hat, hheld⟩
    | some t =>
      have hx : ∃ x, Claims.At n (post x) s.counter (all x) t := by
        obtain ⟨hi, rfl⟩ := List.getElem?_eq_some_iff.mp ht
        exact ⟨_, List.Forall₂.get hat (hat.length_eq ▸ hi) hi⟩
      obtain ⟨x, hx⟩ := hx
      refine ⟨forall₂_set hat ht (fun x u => Claims.At.mono (Thread.le_step t s.counter))
        fun x hx => hx.step.1, ?_⟩
      have hsum := sum_map_set Thread.held (t.step s.counter).2 ht
      have := hx.step.2
      simp only
      omega
  have hinit : inv (Sys.init (xs.map prog)) := by
    refine ⟨?_, ?_⟩
    · simp only [Sys.init, List.forall₂_map_right_iff]
      exact List.forall₂_same.mpr fun x hx => .running rfl (h x hx)
    · have : ∀ ys ⊆ xs, ((ys.map prog).map fun p => Thread.held (⟨p, []⟩ : Thread ε α)).sum =
        0 := by
        intro ys hys
        rw [List.sum_eq_zero]
        intro k hk
        simp only [List.mem_map, exists_exists_and_eq_and] at hk
        obtain ⟨x, hx, rfl⟩ := hk
        exact (h x (hys hx)).held_eq []
      simpa [Sys.init, Function.comp_def] using this xs (List.Subset.refl xs)
  obtain ⟨c, hat, hheld⟩ := outcome_induct hstep hinit sched
  simp only [List.forall₂_map_right_iff] at hat
  refine ⟨hat.imp fun x r hr => ⟨hr.trace_le, hr.post_of_done⟩, ?_⟩
  have hlens : ((outcome (xs.map prog) sched).map fun r => r.2.length).sum = min c n := by
    simpa [Thread.held, Function.comp_def] using hheld
  by_cases hc : n ≤ c
  · have hle : ((outcome (xs.map prog) sched).map fun r => r.2.length).sum ≤
        (xs.map fun x => (all x).length).sum := by
      apply List.Forall₂.sum_le_sum
      rw [List.forall₂_map_left_iff, List.forall₂_map_right_iff]
      exact hat.flip.imp fun r x hr => hr.trace_le.length_le
    omega
  · have heq : (outcome (xs.map prog) sched).map (fun r => r.2.length) =
        xs.map fun x => (all x).length := by
      rw [← List.forall₂_eq_eq_eq, List.forall₂_map_left_iff, List.forall₂_map_right_iff]
      exact hat.flip.imp fun r x hr => by rw [hr.eq_of_lt (by omega)]
    rw [heq] at hlens ⊢
    omega

end SharedCounter
