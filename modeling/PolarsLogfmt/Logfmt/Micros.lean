import PolarsLogfmt.Crates
import PolarsLogfmt.Misc.Overflow
import Mathlib.Tactic.Ring

/-!
# Durations in microseconds

What `(dur.as_secs() as i64) * 1_000_000 + (dur.subsec_micros() as i64)` makes of a
duration, step by step. The seconds are any `u64`, so each of the cast, the product and
the sum can leave the range of `i64`.
-/

namespace PolarsLogfmt

open Overflow

namespace Duration

/-- The length of the duration, in nanoseconds. -/
def asNanos (dur : Duration) : Nat := dur.secs * 1000000000 + dur.nanos

/-- The whole microseconds of the duration. -/
def wholeMicros (dur : Duration) : Nat := dur.asNanos / 1000

theorem wholeMicros_eq (dur : Duration) :
    dur.wholeMicros = dur.secs * 1000000 + dur.nanos / 1000 := by
  unfold wholeMicros asNanos
  omega

theorem wholeMicros_mono {shorter longer : Duration} (h : shorter.asNanos ≤ longer.asNanos) :
    shorter.wholeMicros ≤ longer.wholeMicros := Nat.div_le_div_right h

/-- `asMicros` of a build with overflow checks; `none` is the panic. The cast of the seconds
is never checked. -/
def checkedMicros (dur : Duration) : Option Int64 := do
  let product ← checked ((Int64.ofNat dur.secs).toInt * (1000000 : Int64).toInt)
  checked (product.toInt + (Int64.ofNat (dur.nanos / 1000)).toInt)

theorem toInt_million : (1000000 : Int64).toInt = 1000000 := by decide

theorem toInt_subsecMicros (dur : Duration) :
    (Int64.ofNat (dur.nanos / 1000)).toInt = (dur.nanos / 1000 : Nat) := by
  have hnanos := dur.nanos_lt
  rw [toInt_ofNat_eq_iff]
  omega

/-- No step of `asMicros` wraps or panics. -/
structure NoneWraps (dur : Duration) : Prop where
  cast : (Int64.ofNat dur.secs).toInt = dur.secs
  product : (Int64.ofNat dur.secs * 1000000).toInt =
    (Int64.ofNat dur.secs).toInt * (1000000 : Int64).toInt
  sum : dur.asMicros.toInt =
    (Int64.ofNat dur.secs * 1000000).toInt + (Int64.ofNat (dur.nanos / 1000)).toInt
  panics : dur.checkedMicros ≠ none

/-- Then the value is exact. -/
theorem NoneWraps.exact {dur : Duration} (h : dur.NoneWraps) :
    dur.asMicros.toInt = dur.wholeMicros := by
  rw [h.sum, h.product, h.cast, toInt_million, toInt_subsecMicros, wholeMicros_eq]
  push_cast
  ring

/-- No step wraps for a duration whose whole microseconds are an `i64`, -/
theorem noneWraps_of_lt {dur : Duration} (h : dur.wholeMicros < 2 ^ 63) : dur.NoneWraps := by
  rw [wholeMicros_eq] at h
  have hcast : (Int64.ofNat dur.secs).toInt = dur.secs := by
    rw [toInt_ofNat_eq_iff]
    omega
  have hsubsec := toInt_subsecMicros dur
  have hproduct : (Int64.ofNat dur.secs * 1000000).toInt =
      (Int64.ofNat dur.secs).toInt * (1000000 : Int64).toInt := by
    rw [toInt_mul_eq_iff, hcast, toInt_million, InRange]
    omega
  have hsum : dur.asMicros.toInt =
      (Int64.ofNat dur.secs * 1000000).toInt + (Int64.ofNat (dur.nanos / 1000)).toInt := by
    rw [asMicros, toInt_add_eq_iff, hproduct, hcast, toInt_million, hsubsec, InRange]
    omega
  refine ⟨hcast, hproduct, hsum, ?_⟩
  have hchecked : dur.checkedMicros = some dur.asMicros := by
    rw [checkedMicros, checked_eq_some.mpr hproduct, Option.bind_eq_bind, Option.bind_some,
      checked_eq_some.mpr hsum]
  rw [hchecked]
  exact Option.some_ne_none _

/-- The value is exact for the same durations. -/
theorem toInt_asMicros_iff {dur : Duration} :
    dur.asMicros.toInt = dur.wholeMicros ↔ dur.wholeMicros < 2 ^ 63 := by
  constructor
  · intro h
    have hlt := (toInt_inRange dur.asMicros).2
    rw [h] at hlt
    omega
  · intro h
    exact (noneWraps_of_lt h).exact

/-- and for no other. -/
theorem noneWraps_iff {dur : Duration} : dur.NoneWraps ↔ dur.wholeMicros < 2 ^ 63 :=
  ⟨fun h => toInt_asMicros_iff.mp h.exact, noneWraps_of_lt⟩

/-- A shorter duration has no larger value than one whose value is exact. -/
theorem asMicros_mono {shorter longer : Duration} (hlt : longer.wholeMicros < 2 ^ 63)
    (h : shorter.asNanos ≤ longer.asNanos) : shorter.asMicros ≤ longer.asMicros := by
  have hle := wholeMicros_mono h
  rw [Int64.le_iff_toInt_le, toInt_asMicros_iff.mpr hlt,
    toInt_asMicros_iff.mpr (Nat.lt_of_le_of_lt hle hlt)]
  exact Int.ofNat_le.mpr hle

end Duration

end PolarsLogfmt
