import Caching.Time.Clock

/-!
# What clocks count and show

A clock counts the time that has passed since its start, and what it counts never becomes less. It
adds a length of time exactly, with a second of nanoseconds carried over, as long as the sum is a
duration. It is moved on to an instant that it has not reached yet, and not to any other one. It can
be read as long as what it shows lies in the range of instants, which ends before its count does.
-/

namespace Caching

/-- There is a later instant as long as it is in range. -/
theorem Instant.exists_add? {a : Instant} {d : Duration} (h : a.nanos + d.nanos < instantBound) :
    ∃ b, a.add? d = some b := by
  have hlow := a.le_nanos
  refine ⟨⟨a.nanos + d.nanos, by omega, h⟩, ?_⟩
  rw [Instant.add?_eq_some_iff]

namespace Duration

variable {a b c : Duration}

/-- Two lengths of time that can pass one after the other can pass together. -/
theorem exists_add? {now : Instant} (h : now.nanos + a.nanos + b.nanos < instantBound) :
    ∃ ab, a.add? b = some ab := by
  apply Option.ne_none_iff_exists'.mp
  rw [ne_eq, add?_eq_none_iff]
  have hlow := now.le_nanos
  simp only [instantBound, UInt64.size, nanosPerSecond] at *
  omega

/-- What the fractions of two durations carry over to the seconds of their sum. -/
def carry (a b : Duration) : Nat :=
  if nanosPerSecond ≤ a.fraction + b.fraction then 1 else 0

/-- The sum of two durations: seconds to seconds and fraction to fraction, with a full second
carried over from these to those. -/
structure IsSum (a b c : Duration) : Prop where
  nanos : c.nanos = a.nanos + b.nanos
  seconds : c.seconds = a.seconds + b.seconds + a.carry b
  fraction : c.fraction + a.carry b * nanosPerSecond = a.fraction + b.fraction

private theorem seconds_add_carry (a b : Duration) :
    (a.nanos + b.nanos) / nanosPerSecond = a.seconds + b.seconds + a.carry b := by
  rw [carry]
  split
  · next h =>
    simp only [seconds, fraction, nanosPerSecond] at *
    omega
  · next h =>
    simp only [seconds, fraction, nanosPerSecond] at *
    omega

/-- A sum that exists is one column by column. -/
theorem isSum_of_add? (h : a.add? b = some c) : IsSum a b c := by
  have hnanos := add?_eq_some_iff.mp h
  have hseconds : c.seconds = a.seconds + b.seconds + a.carry b := by
    rw [seconds, hnanos, seconds_add_carry]
  refine ⟨hnanos, hseconds, ?_⟩
  simp only [seconds, fraction, nanosPerSecond] at *
  omega

/-- A sum is missing exactly when its seconds are out of range. -/
theorem add?_eq_none_iff_seconds :
    a.add? b = none ↔ UInt64.size ≤ a.seconds + b.seconds + a.carry b := by
  rw [add?_eq_none_iff, ← seconds_add_carry, Nat.le_div_iff_mul_le (by decide)]

end Duration

/-- What the clock shows, also where that is no instant any more. -/
def Clock.shown (c : Clock) : Int :=
  c.start.nanos + c.elapsed.nanos

namespace Clock

variable {c : Clock} {t first last instant : Instant}

/-- A clock shows the instant that lies behind its start by what it has counted. -/
theorem now_eq_ok_iff : c.now = .ok t ↔ t.nanos = c.start.nanos + c.elapsed.nanos := by
  rw [← Instant.add?_eq_some_iff, now]
  cases h : c.start.add? c.elapsed with
  | none => simp only [reduceCtorEq]
  | some instant => simp only [Except.ok.injEq, Option.some.injEq]

/-- A clock that can be read shows its reading. -/
theorem now_eq_ok_iff_shown : c.now = .ok instant ↔ c.shown = instant.nanos := by
  rw [now_eq_ok_iff, shown, eq_comm]

/-- A clock shows one instant at most. -/
theorem exists_shown (c : Clock) : ∃ now, ∀ t, c.now = .ok t → t = now := by
  cases h : c.now with
  | error abort => exact ⟨c.start, fun t ht ↦ by cases ht⟩
  | ok now => exact ⟨now, fun t ht ↦ (Except.ok.inj ht).symm⟩

/-- A clock can be read as long as what it shows is in range. -/
theorem exists_now (h : c.shown < instantBound) : ∃ now, c.now = .ok now := by
  have hlow := c.start.le_nanos
  rw [shown] at h
  refine ⟨⟨c.shown, ?_, h⟩, now_eq_ok_iff_shown.mpr rfl⟩
  rw [shown]
  omega

/-- A clock cannot be read when what it shows is no instant. -/
theorem now_eq_error (h : ∀ t : Instant, t.nanos ≠ c.start.nanos + c.elapsed.nanos) :
    c.now = .error .instantRange := by
  rw [now]
  cases hadd : c.start.add? c.elapsed with
  | none => rfl
  | some instant => exact absurd (Instant.add?_eq_some_iff.mp hadd) (h instant)

/-- Two clocks with one start that show the same are the same. -/
theorem eq_of_shown {c d : Clock} (hstart : c.start = d.start) (h : c.shown = d.shown) : c = d := by
  obtain ⟨start, elapsed⟩ := c
  obtain ⟨start', elapsed'⟩ := d
  obtain rfl : start = start' := hstart
  simp only [shown] at h
  obtain rfl : elapsed = elapsed' := Duration.ext (by omega)
  rfl

/-- A clock that is moved on keeps its start. -/
@[simp]
theorem start_advanceTo (c : Clock) (instant : Instant) :
    (c.advanceTo instant).start = c.start :=
  rfl

/-- A clock that is moved on to an instant shows the later of the two. -/
theorem shown_advanceTo (c : Clock) (instant : Instant) :
    (c.advanceTo instant).shown = max c.shown instant.nanos := by
  have hsince := Instant.nanos_since instant c.start
  simp only [shown, advanceTo, Duration.longer]
  split <;> omega

/-- A clock that is moved on to a later instant shows it, and any other one stays. -/
theorem now_advanceTo (h : c.now = .ok t) (instant : Instant) :
    (c.advanceTo instant).now = .ok (if t ≤ instant then instant else t) := by
  rw [now_eq_ok_iff_shown] at h ⊢
  rw [shown_advanceTo, h]
  split
  · next hle => exact Int.max_eq_right (Instant.le_iff.mp hle)
  · next hlt =>
    rw [Instant.le_iff] at hlt
    exact Int.max_eq_left (by omega)

/-- A clock is never moved back. -/
theorem le_elapsed_advanceTo (c : Clock) (instant : Instant) :
    c.elapsed.nanos ≤ (c.advanceTo instant).elapsed.nanos := by
  have hshown := c.shown_advanceTo instant
  simp only [shown, start_advanceTo] at hshown
  omega

/-- A clock that is moved on to an instant has reached it. -/
theorem le_advanceTo (c : Clock) (instant : Instant) :
    instant.nanos ≤ c.start.nanos + (c.advanceTo instant).elapsed.nanos := by
  have hshown := c.shown_advanceTo instant
  simp only [shown, start_advanceTo] at hshown
  omega

/-- A clock that shows an instant or more is not moved on to it. -/
theorem advanceTo_of_le_shown (h : instant.nanos ≤ c.shown) : c.advanceTo instant = c := by
  apply eq_of_shown (start_advanceTo c instant)
  rw [shown_advanceTo]
  exact Int.max_eq_left h

/-- A clock that has passed an instant is not moved on to it. -/
theorem advanceTo_of_le (h : c.now = .ok t) (hle : first ≤ t) : c.advanceTo first = c :=
  advanceTo_of_le_shown (now_eq_ok_iff_shown.mp h ▸ Instant.le_iff.mp hle)

/-- A clock that is moved on in two parts ends where it would have been moved at once. -/
theorem advanceTo_advanceTo (h : first ≤ last) :
    (c.advanceTo first).advanceTo last = c.advanceTo last := by
  rw [Instant.le_iff] at h
  have hstart : ((c.advanceTo first).advanceTo last).start = (c.advanceTo last).start := rfl
  apply eq_of_shown hstart
  simp only [shown_advanceTo]
  omega

/-- A clock can be moved on as long as it can be read then. -/
theorem now_advance {d : Duration} {t' : Instant} (h : c.now = .ok t) (hadd : t.add? d = some t') :
    ∃ c', c.advance d = .ok c' ∧ c'.now = .ok t' := by
  have hnanos := now_eq_ok_iff.mp h
  have hsum := Instant.add?_eq_some_iff.mp hadd
  have hstart := c.start.le_nanos
  have hend := t'.nanos_lt
  cases he : c.elapsed.add? d with
  | none =>
    have hrange := Duration.add?_eq_none_iff.mp he
    simp only [instantBound, UInt64.size, nanosPerSecond] at *
    omega
  | some elapsed =>
    have helapsed := Duration.add?_eq_some_iff.mp he
    refine ⟨{ c with elapsed }, by rw [advance, he], ?_⟩
    rw [now_eq_ok_iff]
    dsimp only
    omega

end Clock

end Caching
