import Mathlib.Algebra.Order.Ring.Int

/-!
# Signed integers of 64 bits

An operation on `Int64` returns its exact result reduced modulo `2 ^ 64`, so it is exact
when that result is in range. `checked` is the result of an operation that panics
otherwise.
-/

namespace Overflow

/-- The integer is a value of `Int64`. -/
def InRange (x : Int) : Prop := -2 ^ 63 ≤ x ∧ x < 2 ^ 63

instance (x : Int) : Decidable (InRange x) :=
  inferInstanceAs (Decidable (-2 ^ 63 ≤ x ∧ x < 2 ^ 63))

theorem toInt_inRange (a : Int64) : InRange a.toInt := ⟨a.le_toInt, a.toInt_lt⟩

theorem toInt_ofInt_eq_iff {x : Int} : (Int64.ofInt x).toInt = x ↔ InRange x := by
  constructor
  · intro h
    rw [← h]
    exact toInt_inRange _
  · intro h
    exact Int64.toInt_ofInt_of_le h.1 h.2

theorem toInt_ofNat_eq_iff {n : Nat} : (Int64.ofNat n).toInt = n ↔ n < 2 ^ 63 := by
  rw [← Int64.ofInt_eq_ofNat, toInt_ofInt_eq_iff, InRange]
  have hn : (0 : Int) ≤ n := Int.natCast_nonneg n
  omega

/-- A product is exact when the exact product is in range. -/
theorem toInt_mul_eq_iff {a b : Int64} :
    (a * b).toInt = a.toInt * b.toInt ↔ InRange (a.toInt * b.toInt) := by
  rw [← toInt_ofInt_eq_iff, Int64.ofInt_mul, Int64.ofInt_toInt, Int64.ofInt_toInt]

/-- A sum is exact when the exact sum is in range. -/
theorem toInt_add_eq_iff {a b : Int64} :
    (a + b).toInt = a.toInt + b.toInt ↔ InRange (a.toInt + b.toInt) := by
  rw [← toInt_ofInt_eq_iff, Int64.ofInt_add, Int64.ofInt_toInt, Int64.ofInt_toInt]

/-! ## Overflow checks -/

/-- The result of an operation with overflow checks; `none` is the panic. -/
def checked (exact : Int) : Option Int64 := if InRange exact then some (Int64.ofInt exact) else none

theorem checked_eq_some {x : Int} {a : Int64} : checked x = some a ↔ a.toInt = x := by
  unfold checked
  constructor
  · intro h
    split at h
    · rename_i hx
      cases h
      exact toInt_ofInt_eq_iff.mpr hx
    · cases h
  · intro h
    rw [if_pos (h ▸ toInt_inRange a), ← h, Int64.ofInt_toInt]

end Overflow
