import Mathlib

/-!
# Scanning a list by index

A loop `while i < n && p(xs[i]) { i += 1 }` over a list is `scanWhile p xs i`.
What is left after it is what `List.dropWhile` leaves, and what it passed over
is what `List.takeWhile` takes, so that a scanner written with one index can be
compared with one that consumes its input.
-/

namespace Scan

variable {α : Type}

/-- `while i < xs.len() && p(xs[i]) { i += 1 }`; the value is the last `i`. -/
def scanWhile (p : α → Bool) (xs : List α) (i : Nat) : Nat :=
  if h : i < xs.length then
    if p xs[i] then scanWhile p xs (i + 1) else i
  else i
termination_by xs.length - i

/-- The slice `xs[start..stop]`. -/
def slice (xs : List α) (start stop : Nat) : List α := (xs.drop start).take (stop - start)

theorem scanWhile_eq (p : α → Bool) (xs : List α) (i : Nat) :
    scanWhile p xs i = i + ((xs.drop i).takeWhile p).length := by
  fun_induction scanWhile p xs i with
  | case1 i h hp ih =>
    rw [ih, List.drop_eq_getElem_cons h, List.takeWhile_cons_of_pos hp, List.length_cons]
    omega
  | case2 i h hp =>
    rw [List.drop_eq_getElem_cons h, List.takeWhile_cons_of_neg hp]
    rfl
  | case3 i h =>
    rw [List.drop_eq_nil_of_le (Nat.le_of_not_lt h)]
    rfl

theorem le_scanWhile (p : α → Bool) (xs : List α) (i : Nat) : i ≤ scanWhile p xs i := by
  rw [scanWhile_eq]
  exact Nat.le_add_right _ _

theorem drop_length_takeWhile (p : α → Bool) (xs : List α) :
    xs.drop (xs.takeWhile p).length = xs.dropWhile p := by
  have h := List.takeWhile_append_dropWhile (p := p) (l := xs)
  calc xs.drop (xs.takeWhile p).length
      = (xs.takeWhile p ++ xs.dropWhile p).drop (xs.takeWhile p).length := by rw [h]
    _ = xs.dropWhile p := List.drop_left

theorem drop_scanWhile (p : α → Bool) (xs : List α) (i : Nat) :
    xs.drop (scanWhile p xs i) = (xs.drop i).dropWhile p := by
  rw [scanWhile_eq, ← List.drop_drop, drop_length_takeWhile]

theorem slice_scanWhile (p : α → Bool) (xs : List α) (i : Nat) :
    slice xs i (scanWhile p xs i) = (xs.drop i).takeWhile p := by
  rw [slice, scanWhile_eq, Nat.add_sub_cancel_left]
  exact List.prefix_iff_eq_take.mp (List.takeWhile_prefix p) |>.symm

theorem scanWhile_eq_self {p : α → Bool} {xs : List α} {i : Nat} :
    scanWhile p xs i = i ↔ (xs.drop i).takeWhile p = [] := by
  rw [scanWhile_eq]
  constructor
  · intro h
    exact List.length_eq_zero_iff.mp (by omega)
  · intro h
    rw [h]
    rfl

theorem lt_scanWhile {p : α → Bool} {xs : List α} {i : Nat} (hi : i < xs.length)
    (hp : p xs[i] = true) : i < scanWhile p xs i := by
  rw [scanWhile, dif_pos hi, if_pos hp]
  exact le_scanWhile p xs (i + 1)

/-- A scan stops at the end or at an element that fails the test. -/
theorem getElem_scanWhile {p : α → Bool} {xs : List α} {i : Nat}
    (h : scanWhile p xs i < xs.length) : p xs[scanWhile p xs i] = false := by
  have hnot := List.head?_dropWhile_not p (xs.drop i)
  rw [← drop_scanWhile, List.head?_drop, List.getElem?_eq_getElem h] at hnot
  exact hnot

/-- The scan of a list that goes on after a first part without a stop. -/
theorem takeWhile_append_stop {p : α → Bool} {xs ys : List α} (hx : ∀ x ∈ xs, p x = true)
    (hy : ys.takeWhile p = []) : (xs ++ ys).takeWhile p = xs := by
  rw [List.takeWhile_append_of_pos hx, hy, List.append_nil]

theorem dropWhile_append_stop {p : α → Bool} {xs ys : List α} (hx : ∀ x ∈ xs, p x = true)
    (hy : ys.takeWhile p = []) : (xs ++ ys).dropWhile p = ys := by
  rw [List.dropWhile_append_of_pos hx, ← drop_length_takeWhile, hy]
  rfl

/-- A scan that more of the list would stop does not go on into it. -/
theorem takeWhile_append_of_stop {p : α → Bool} {ys : List α} (hy : ys.takeWhile p = [])
    (xs : List α) : (xs ++ ys).takeWhile p = xs.takeWhile p := by
  induction xs with
  | nil => exact hy
  | cons x xs ih =>
    rw [List.cons_append]
    by_cases hx : p x
    · rw [List.takeWhile_cons_of_pos hx, List.takeWhile_cons_of_pos hx, ih]
    · rw [List.takeWhile_cons_of_neg hx, List.takeWhile_cons_of_neg hx]

theorem dropWhile_append_of_stop {p : α → Bool} {ys : List α} (hy : ys.takeWhile p = [])
    (xs : List α) : (xs ++ ys).dropWhile p = xs.dropWhile p ++ ys := by
  rw [← drop_length_takeWhile, takeWhile_append_of_stop hy, ← drop_length_takeWhile,
    List.drop_append_of_le_length (List.takeWhile_prefix p).length_le]

end Scan
