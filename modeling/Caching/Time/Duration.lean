import Caching.Text.Unsigned

/-!
# Durations

Lengths of time in nanoseconds, up to `2 ^ 64 - 1` seconds and 999999999 nanoseconds. Addition is
partial: a sum beyond that bound does not exist.
-/

namespace Caching

/-- The nanoseconds of a second. -/
def nanosPerSecond : Nat := 1000000000

/-- A length of time. -/
@[ext]
structure Duration where
  nanos : Nat
  nanos_lt : nanos < UInt64.size * nanosPerSecond
  deriving DecidableEq, Repr

namespace Duration

/-- No time at all. -/
def zero : Duration := ⟨0, by decide⟩

instance : Inhabited Duration := ⟨zero⟩

/-- The duration of that many nanoseconds, if there is one. -/
def ofNanos? (n : Nat) : Option Duration :=
  if h : n < UInt64.size * nanosPerSecond then some ⟨n, h⟩ else none

/-- That many milliseconds; 64 bits of them always fit. -/
def ofMillis (ms : UInt64) : Duration :=
  ⟨ms.toNat * 1000000, by
    have h := ms.toNat_lt
    simp only [UInt64.size, nanosPerSecond]
    omega⟩

/-- A duration of whole seconds and a fraction. -/
def ofParts? (seconds nanos : Nat) : Option Duration :=
  ofNanos? (seconds * nanosPerSecond + nanos)

/-- The sum, if it is a duration. -/
def add? (a b : Duration) : Option Duration :=
  ofNanos? (a.nanos + b.nanos)

/-- The longer of two durations. -/
def longer (a b : Duration) : Duration :=
  if a.nanos < b.nanos then b else a

/-- The shorter of two durations. -/
def shorter (a b : Duration) : Duration :=
  if b.nanos < a.nanos then b else a

/-- A whole part of the duration, rounded down. -/
def quotient (a : Duration) (n : Nat) : Duration :=
  ⟨a.nanos / n, Nat.lt_of_le_of_lt (Nat.div_le_self _ _) a.nanos_lt⟩

/-- The whole seconds. -/
def seconds (a : Duration) : Nat :=
  a.nanos / nanosPerSecond

/-- The nanoseconds beyond the whole seconds. -/
def fraction (a : Duration) : Nat :=
  a.nanos % nanosPerSecond

/-- Exactly the numbers below the bound are the nanoseconds of a duration. -/
theorem ofNanos?_eq_some_iff {n : Nat} {d : Duration} : ofNanos? n = some d ↔ d.nanos = n := by
  unfold ofNanos?
  split
  · simp [Duration.ext_iff, eq_comm]
  · next h =>
    simp only [reduceCtorEq, false_iff]
    intro hd
    exact h (hd ▸ d.nanos_lt)

/-- A sum is the sum of the nanoseconds. -/
theorem add?_eq_some_iff {a b c : Duration} : a.add? b = some c ↔ c.nanos = a.nanos + b.nanos :=
  ofNanos?_eq_some_iff

/-- A sum is missing exactly when it is out of range. -/
theorem add?_eq_none_iff {a b : Duration} :
    a.add? b = none ↔ UInt64.size * nanosPerSecond ≤ a.nanos + b.nanos := by
  unfold add? ofNanos?
  split
  · next h => exact ⟨nofun, fun hle ↦ absurd h (Nat.not_lt.mpr hle)⟩
  · next h => exact ⟨fun _ ↦ Nat.not_lt.mp h, fun _ ↦ rfl⟩

/-- The decimal digits of `n`, with zeros in front up to `width`. -/
def padded (width n : Nat) : List Char :=
  let digits := Text.decimal n
  List.replicate (width - digits.length) '0' ++ digits

/-- Seconds, a point and nine digits. -/
def text (a : Duration) : String :=
  String.ofList (Text.decimal a.seconds ++ '.' :: padded 9 a.fraction)

/-- The units of diagnostic output with their nanoseconds, largest first. -/
private def units : List (Nat × Nat × String) :=
  [(nanosPerSecond, 9, "s"), (1000000, 6, "ms"), (1000, 3, "µs")]

/-- Digits without the zeros at their end. -/
private def withoutTrailingZeros (digits : List Char) : List Char :=
  (digits.reverse.dropWhile (· == '0')).reverse

/-- The duration in the largest unit that it fills, with a fraction as long as needed. -/
def debug (a : Duration) : String :=
  match units.find? fun unit ↦ unit.1 ≤ a.nanos with
  | none => String.ofList (Text.decimal a.nanos) ++ "ns"
  | some (size, places, name) =>
    let fraction := withoutTrailingZeros (padded places (a.nanos % size))
    String.ofList (Text.decimal (a.nanos / size) ++
      if fraction.isEmpty then [] else '.' :: fraction) ++ name

end Duration

end Caching
