/-!
# Aborts

Failures that no caller is expected to handle. What changed before an abort stays changed.
-/

namespace Caching

/-- A computation that could not be finished. -/
inductive Abort where
  /-- A duration beyond the largest one. -/
  | durationRange
  /-- An instant beyond the last one. -/
  | instantRange
  /-- A table so large that its size in bytes is beyond all addresses. -/
  | tableRange
  /-- A table for which there is no memory left. It takes the whole process down. -/
  | outOfMemory
  /-- A life of entries beyond the longest one, counted from their last use if the flag is set and
  from their last write otherwise. -/
  | lifeRange (resetsOnRead : Bool)
  /-- A remapping function of the caller gave up. -/
  | remap
  deriving DecidableEq, Repr

namespace Abort

/-- The wording of the abort. -/
def message : Abort → String
  | durationRange => "overflow when adding durations"
  | instantRange => "overflow when adding duration to instant"
  | tableRange => "Hash table capacity overflow"
  | outOfMemory => "memory allocation failed"
  | lifeRange true => "time_to_idle is longer than 1000 years"
  | lifeRange false => "time_to_live is longer than 1000 years"
  | remap => "remap panicked"

end Abort

end Caching
