import Mathlib

/-!
# Cutting a list into batches

`batches n xs` are the consecutive batches of `n` elements of `xs`, the last of which
may be shorter. A loop that takes `n` elements at a time sees these batches.
-/

namespace Batches

variable {α : Type}

/-- The batches of `n` elements; `n = 0` counts as 1. -/
def batches (n : Nat) : List α → List (List α)
  | [] => []
  | x :: xs => (x :: xs.take (n - 1)) :: batches n (xs.drop (n - 1))
termination_by xs => xs.length
decreasing_by
  rw [List.length_drop, List.length_cons]
  omega

@[simp] theorem batches_nil (n : Nat) : batches n ([] : List α) = [] := by rw [batches]

theorem batches_of_ne_nil {n : Nat} (hn : 0 < n) {xs : List α} (hx : xs ≠ []) :
    batches n xs = xs.take n :: batches n (xs.drop n) := by
  obtain ⟨m, rfl⟩ : ∃ m, n = m + 1 := ⟨n - 1, by omega⟩
  cases xs with
  | nil => exact absurd rfl hx
  | cons x xs => rw [batches, Nat.add_sub_cancel, List.take_succ_cons, List.drop_succ_cons]

theorem flatten_batches (n : Nat) (xs : List α) : (batches n xs).flatten = xs := by
  fun_induction batches n xs with
  | case1 => rfl
  | case2 x xs ih => rw [List.flatten_cons, ih, List.cons_append, List.take_append_drop]

theorem ne_nil_of_mem_batches {n : Nat} {xs batch : List α} (h : batch ∈ batches n xs) :
    batch ≠ [] := by
  fun_induction batches n xs with
  | case1 => cases h
  | case2 x xs ih =>
    rcases List.mem_cons.mp h with rfl | h
    · exact List.cons_ne_nil _ _
    · exact ih h

/-- The batches are the slices from the multiples of `n` that lie in the list. -/
theorem batches_eq_slices {n : Nat} (hn : 0 < n) {xs : List α} {k : Nat} (hk : xs.length ≤ k * n) :
    ((List.range k).filter fun w => w * n < xs.length).map
        (fun w => (xs.drop (w * n)).take (min (w * n + n) xs.length - w * n)) = batches n xs := by
  induction k generalizing xs with
  | zero =>
    rw [Nat.zero_mul, Nat.le_zero, List.length_eq_zero_iff] at hk
    rw [hk, batches_nil]
    rfl
  | succ k ih =>
    by_cases hx : xs = []
    · simp [hx]
    · have hpos := List.length_pos_of_ne_nil hx
      have hrest := @ih (xs.drop n) (by rw [List.length_drop, Nat.succ_mul] at *; omega)
      rw [batches_of_ne_nil hn hx, ← hrest, List.range_succ_eq_map,
        List.filter_cons_of_pos (by simpa using hpos), List.map_cons, List.filter_map, List.map_map]
      congr 1
      · rw [Nat.zero_mul, List.drop_zero, List.take_eq_take_iff]
        omega
      · -- the later slices start `n` further on
        have hsame : ((List.range k).filter fun w => w * n + n < xs.length) =
            (List.range k).filter fun w => w * n < xs.length - n :=
          List.filter_congr fun w _ => decide_eq_decide.mpr (by omega)
        simp only [Function.comp_def, Nat.succ_mul, List.drop_drop, List.length_drop, hsame]
        apply List.map_congr_left
        intro w _
        rw [Nat.add_comm n (w * n)]
        congr 1
        omega

theorem length_flatten_filter_le (p : List α → Bool) (xss : List (List α)) :
    (xss.filter p).flatten.length ≤ xss.flatten.length :=
  (List.filter_sublist.flatten).length_le

/-- A filter that keeps as many elements keeps every list that has any. -/
theorem forall_of_flatten_length {p : List α → Bool} {xss : List (List α)}
    (h : xss.flatten.length ≤ (xss.filter p).flatten.length) :
    ∀ xs ∈ xss, xs ≠ [] → p xs = true := by
  induction xss with
  | nil =>
    intro xs hxs
    cases hxs
  | cons ys xss ih =>
    have hle := length_flatten_filter_le p xss
    intro xs hxs hne
    by_cases hp : p ys = true
    · rw [List.filter_cons_of_pos hp, List.flatten_cons, List.flatten_cons, List.length_append,
        List.length_append, Nat.add_le_add_iff_left] at h
      rcases List.mem_cons.mp hxs with rfl | hxs
      · exact hp
      · exact ih h xs hxs hne
    · rw [List.filter_cons_of_neg hp, List.flatten_cons, List.length_append] at h
      rcases List.mem_cons.mp hxs with rfl | hxs
      · have hpos := List.length_pos_of_ne_nil hne
        omega
      · exact ih (by omega) xs hxs hne

/-- A filter that keeps every list that has an element keeps the elements. -/
theorem flatten_filter_of_ne_nil {p : List α → Bool} {xss : List (List α)}
    (h : ∀ xs ∈ xss, xs ≠ [] → p xs = true) : (xss.filter p).flatten = xss.flatten := by
  induction xss with
  | nil => rfl
  | cons ys xss ih =>
    have ih := ih fun xs hxs => h xs (List.mem_cons_of_mem _ hxs)
    by_cases hp : p ys = true
    · rw [List.filter_cons_of_pos hp, List.flatten_cons, List.flatten_cons, ih]
    · have hnil : ys = [] := by
        by_contra hne
        exact hp (h ys List.mem_cons_self hne)
      rw [List.filter_cons_of_neg hp, ih, hnil]
      rfl

end Batches
