import Caching.Abort
import Caching.Time.Instant

/-!
# Clocks

A clock that moves only when told to. It starts at an instant and counts the time elapsed since,
which may run beyond the last instant: such a clock still counts, but cannot be read.
-/

namespace Caching

/-- A clock moved by hand; `SPEC_FULL.md`, section 10. -/
structure Clock where
  start : Instant
  elapsed : Duration
  deriving DecidableEq, Repr

namespace Clock

/-- A clock that stands at its start. -/
def ofStart (start : Instant) : Clock :=
  ⟨start, .zero⟩

/-- A clock that starts when a host has been up for a while. -/
def fresh : Clock :=
  ofStart ⟨1000000 * nanosPerSecond, by decide, by decide⟩

/-- The reading of the clock. -/
def now (c : Clock) : Except Abort Instant :=
  match c.start.add? c.elapsed with
  | some instant => .ok instant
  | none => .error .instantRange

/-- Moves the clock on. -/
def advance (c : Clock) (d : Duration) : Except Abort Clock :=
  match c.elapsed.add? d with
  | some elapsed => .ok { c with elapsed }
  | none => .error .durationRange

/-- Moves the clock on to an instant, unless it has passed it already. -/
def advanceTo (c : Clock) (instant : Instant) : Clock :=
  { c with elapsed := c.elapsed.longer (instant.since c.start) }

end Clock

end Caching
