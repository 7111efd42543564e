import PolarsLogfmt.Misc.Utf8

/-!
# What the program takes from other crates

Floating-point numbers, times and durations come from `std`, `chrono` and
`humantime`, the size of the thread pool from rayon, the texts of errors from polars.
`Crates` names the operations the program calls; nothing is assumed about them here
beyond their types.
-/

namespace PolarsLogfmt

/-- A `std::io::Error`, by its text. -/
abbrev IoError := Bytes

inductive PolarsError where
  | computeError (msg : Bytes)
  | columnNotFound (name : Bytes)
  | duplicate
  | shapeMismatch
  | schemaMismatch
deriving DecidableEq

/-- `std::time::Duration`. -/
structure Duration where
  secs : Nat
  nanos : Nat
  secs_lt : secs < 2 ^ 64
  nanos_lt : nanos < 1000000000
deriving DecidableEq

/-- `(dur.as_secs() as i64) * 1_000_000 + (dur.subsec_micros() as i64)`, with the
wrapping arithmetic of a release build. -/
def Duration.asMicros (dur : Duration) : Int64 :=
  Int64.ofNat dur.secs * 1000000 + Int64.ofNat (dur.nanos / 1000)

/-- The operations of other crates the program calls. -/
class Crates where
  /-- `f64`. -/
  F64 : Type
  f64DecEq : DecidableEq F64
  /-- `f64::from_str(s).ok()`. -/
  f64FromStr : Bytes → Option F64
  /-- `f.to_string()`. -/
  f64ToString : F64 → Bytes
  /-- `f as i64`. -/
  f64AsI64 : F64 → Int64
  /-- `i as f64`. -/
  i64AsF64 : Int64 → F64
  /-- `0.0`. -/
  f64Zero : F64
  /-- `1.0`. -/
  f64One : F64
  /-- `f == 0.0`. -/
  f64IsZero : F64 → Bool
  /-- `dur.as_secs() as f64 + (dur.subsec_micros() as f64) / 1_000_000.0`. -/
  f64Secs : Duration → F64
  /-- `chrono::DateTime<FixedOffset>`. -/
  DateTime : Type
  dateTimeDecEq : DecidableEq DateTime
  /-- `DateTime::parse_from_rfc3339(s).ok()`. -/
  parseFromRfc3339 : Bytes → Option DateTime
  toRfc3339 : DateTime → Bytes
  timestampMicros : DateTime → Int64
  /-- `humantime::parse_duration(s).ok()`. -/
  parseDuration : Bytes → Option Duration
  /-- `humantime::format_duration(d)` as text. -/
  formatDuration : Duration → Bytes
  /-- A text as `{:?}` prints it. -/
  debugText : Bytes → Bytes
  /-- `e.to_string()` of an error polars itself raises. -/
  errorText : PolarsError → Bytes
  /-- `RAYON.current_num_threads()`. -/
  currentNumThreads : Nat

attribute [reducible, instance] Crates.f64DecEq Crates.dateTimeDecEq

/-! ## Integers -/

/-- The value of an ASCII digit. -/
def digitValue (b : UInt8) : Option Nat :=
  if 0x30 ≤ b ∧ b ≤ 0x39 then some (b.toNat - 0x30) else none

/-- The number a list of digits writes. -/
def digitsValue (digits : Bytes) : Option Nat :=
  digits.foldlM (fun n b => (digitValue b).map (10 * n + ·)) 0

/-- `i64::from_str(s).ok()`: an optional sign, at least one digit, in range. -/
def i64FromStr (s : Bytes) : Option Int64 :=
  let (negative, digits) :=
    match s with
    | 0x2D :: rest => (true, rest)
    | 0x2B :: rest => (false, rest)
    | _ => (false, s)
  if digits = [] then none
  else
    match digitsValue digits with
    | none => none
    | some n =>
        let value : Int := if negative then -n else n
        if -2 ^ 63 ≤ value ∧ value < 2 ^ 63 then some (Int64.ofInt value) else none

/-- `i.to_string()`. -/
def i64ToString (i : Int64) : Bytes := Utf8.ofString (toString i.toInt)

/-! ## A small instance -/

/-- Numbers without a fraction, one instant and one duration: enough to evaluate the
program on small inputs. It agrees with the crates on texts of digits and on
words that are no number, time or duration. -/
@[reducible] def smallCrates : Crates where
  F64 := Int64
  f64DecEq := inferInstance
  f64FromStr := i64FromStr
  f64ToString := i64ToString
  f64AsI64 := id
  i64AsF64 := id
  f64Zero := 0
  f64One := 1
  f64IsZero f := f == 0
  f64Secs dur := Int64.ofNat dur.secs
  DateTime := Unit
  dateTimeDecEq := inferInstance
  parseFromRfc3339 s := if s = Utf8.ofString "1970-01-01T00:00:00+00:00" then some () else none
  toRfc3339 _ := Utf8.ofString "1970-01-01T00:00:00+00:00"
  timestampMicros _ := 0
  parseDuration s :=
    if s = Utf8.ofString "1s" then some ⟨1, 0, by decide, by decide⟩ else none
  formatDuration _ := Utf8.ofString "1s"
  debugText s := Utf8.ofString "\"" ++ s ++ Utf8.ofString "\""
  errorText
    | .computeError msg => msg
    | .columnNotFound name => Utf8.ofString "not found: " ++ name
    | .duplicate => Utf8.ofString "duplicate"
    | .shapeMismatch => Utf8.ofString "lengths don't match"
    | .schemaMismatch => Utf8.ofString "data types don't match"
  currentNumThreads := 8

end PolarsLogfmt
