import Mathlib.Data.List.DropRight
import Mathlib.Data.List.Infix

/-!
# Splitting a list once

`splitOnce op xs` cuts a list around the first place where `op` occurs; `trim` drops the elements
of a kind from both ends. Over the characters of a string these are `str::split_once` and
`str::trim`.
-/

namespace SplitOnce

variable {α : Type} [DecidableEq α]

/-- The parts before and after the first occurrence of `op`. -/
def splitOnce (op : List α) : List α → Option (List α × List α)
  | [] => if op = [] then some ([], []) else none
  | x :: xs =>
      if op <+: x :: xs then some ([], (x :: xs).drop op.length)
      else (splitOnce op xs).map fun (before, after) => (x :: before, after)

/-- There is no cut when `op` does not occur. -/
theorem splitOnce_eq_none {op xs : List α} : splitOnce op xs = none ↔ ¬ op <:+: xs := by
  induction xs with
  | nil => simp [splitOnce]
  | cons x xs ih =>
    rw [splitOnce, List.infix_cons_iff]
    by_cases h : op <+: x :: xs
    · simp [h]
    · simp [h, ih]

/-- The cut is at the place where `op` stands, when its first element is not before it. -/
theorem splitOnce_append {c : α} {op before : List α} (h : c ∉ before) (after : List α) :
    splitOnce (c :: op) (before ++ c :: op ++ after) = some (before, after) := by
  induction before with
  | nil =>
    have hprefix : c :: op <+: [] ++ c :: op ++ after := List.prefix_append ..
    rw [List.nil_append, List.cons_append] at hprefix ⊢
    rw [splitOnce, if_pos hprefix]
    simp
  | cons x before ih =>
    have hx : ¬ c :: op <+: x :: (before ++ c :: op ++ after) := by
      rintro ⟨rest, hrest⟩
      rw [List.cons_append] at hrest
      exact h ((List.cons.inj hrest).1 ▸ List.mem_cons_self)
    rw [List.cons_append, List.cons_append, splitOnce, if_neg hx,
      ih fun hc => h (List.mem_cons_of_mem x hc)]
    rfl

omit [DecidableEq α] in
/-- In front of a part without its first element `op` does not start. -/
theorem infix_append {c : α} {op before after : List α} (h : c ∉ before) :
    c :: op <:+: before ++ after ↔ c :: op <:+: after := by
  induction before with
  | nil => exact Iff.rfl
  | cons x before ih =>
    have hx : ¬ c :: op <+: x :: (before ++ after) := by
      rintro ⟨rest, hrest⟩
      rw [List.cons_append] at hrest
      exact h ((List.cons.inj hrest).1 ▸ List.mem_cons_self)
    rw [List.cons_append, List.infix_cons_iff, ih fun hc => h (List.mem_cons_of_mem x hc)]
    simp [hx]

omit [DecidableEq α] in
theorem singleton_infix {c : α} {xs : List α} : [c] <:+: xs ↔ c ∈ xs := by
  constructor
  · rintro ⟨before, after, rfl⟩
    simp
  · intro h
    obtain ⟨before, after, rfl⟩ := List.append_of_mem h
    exact ⟨before, after, by simp⟩

/-! ## Trimming -/

omit [DecidableEq α]

/-- The list without the elements of a kind at its ends. -/
def trim (p : α → Bool) (xs : List α) : List α := (xs.dropWhile p).rdropWhile p

/-- The list neither starts nor ends with an element of the kind. -/
structure Trimmed (p : α → Bool) (xs : List α) : Prop where
  head : ∀ x ∈ xs.head?, p x = false
  last : ∀ x ∈ xs.getLast?, p x = false

theorem trim_eq_self {p : α → Bool} {xs : List α} (h : Trimmed p xs) : trim p xs = xs := by
  have hfront : xs.dropWhile p = xs := by
    cases xs with
    | nil => rfl
    | cons x xs => rw [List.dropWhile_cons_of_neg (by rw [h.head x rfl]; exact Bool.false_ne_true)]
  rw [trim, hfront, List.rdropWhile_eq_self_iff]
  intro hne
  rw [h.last _ (List.getLast?_eq_some_getLast hne)]
  exact Bool.false_ne_true

/-- What starts with one trimmed list and ends with another is trimmed. -/
theorem Trimmed.append {p : α → Bool} {xs zs : List α} (hx : Trimmed p xs) (hz : Trimmed p zs)
    (hxne : xs ≠ []) (hzne : zs ≠ []) (ys : List α) : Trimmed p (xs ++ ys ++ zs) := by
  constructor
  · intro x hmem
    rw [List.append_assoc, List.head?_append_of_ne_nil _ hxne] at hmem
    exact hx.head x hmem
  · intro x hmem
    rw [List.getLast?_append_of_ne_nil _ hzne] at hmem
    exact hz.last x hmem

end SplitOnce
