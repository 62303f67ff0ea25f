import Caching.Time.Duration

/-!
# Instants

Points of time, as nanoseconds before or after an arbitrary zero, with seconds of 64 bits and sign.
An instant and a duration may add up to no instant; two instants always differ by a duration.
-/

namespace Caching

/-- The nanoseconds from the zero of instants to the end of their range. -/
def instantBound : Int := (UInt64.size / 2 * nanosPerSecond : Nat)

/-- A point of time. -/
@[ext]
structure Instant where
  nanos : Int
  le_nanos : -instantBound ≤ nanos
  nanos_lt : nanos < instantBound
  deriving DecidableEq, Repr

namespace Instant

/-- The point of time at that many nanoseconds, if it is in range. -/
def ofNanos? (n : Int) : Option Instant :=
  if h : -instantBound ≤ n ∧ n < instantBound then some ⟨n, h.1, h.2⟩ else none

/-- The instant that much later, if it is in range. -/
def add? (a : Instant) (d : Duration) : Option Instant :=
  ofNanos? (a.nanos + d.nanos)

/-- The instant that much earlier, if it is in range. -/
def sub? (a : Instant) (d : Duration) : Option Instant :=
  ofNanos? (a.nanos - d.nanos)

/-- The time from `b` to `a`, nothing if `b` is later. -/
def since (a b : Instant) : Duration :=
  ⟨(a.nanos - b.nanos).toNat, by
    have h₁ := a.nanos_lt
    have h₂ := b.le_nanos
    simp only [instantBound, UInt64.size, nanosPerSecond] at *
    omega⟩

instance : LE Instant := ⟨fun a b ↦ a.nanos ≤ b.nanos⟩

instance : LT Instant := ⟨fun a b ↦ a.nanos < b.nanos⟩

instance (a b : Instant) : Decidable (a ≤ b) :=
  inferInstanceAs (Decidable (a.nanos ≤ b.nanos))

instance (a b : Instant) : Decidable (a < b) :=
  inferInstanceAs (Decidable (a.nanos < b.nanos))

/-- Order of instants is order of their nanoseconds. -/
theorem le_iff {a b : Instant} : a ≤ b ↔ a.nanos ≤ b.nanos :=
  Iff.rfl

/-- Strict order of instants is strict order of their nanoseconds. -/
theorem lt_iff {a b : Instant} : a < b ↔ a.nanos < b.nanos :=
  Iff.rfl

/-- Exactly the numbers in range are the nanoseconds of an instant. -/
theorem ofNanos?_eq_some_iff {n : Int} {a : Instant} : ofNanos? n = some a ↔ a.nanos = n := by
  unfold ofNanos?
  split
  · simp [Instant.ext_iff, eq_comm]
  · next h =>
    simp only [reduceCtorEq, false_iff]
    intro ha
    exact h (ha ▸ ⟨a.le_nanos, a.nanos_lt⟩)

/-- A later instant is at the sum of the nanoseconds. -/
theorem add?_eq_some_iff {a b : Instant} {d : Duration} :
    a.add? d = some b ↔ b.nanos = a.nanos + d.nanos :=
  ofNanos?_eq_some_iff

/-- The nanoseconds between two instants, zero if the second is later. -/
theorem nanos_since (a b : Instant) : (a.since b).nanos = (a.nanos - b.nanos).toNat :=
  rfl

end Instant

end Caching
