import Caching.Vocabulary.Named

/-!
# Removal causes

Why an entry left a cache.
-/

namespace Caching

/-- The reason that a removal listener is given; `SPEC_FULL.md`, section 3. -/
inductive RemovalCause where
  | explicit
  | replaced
  | expired
  | size
  | collected
  | other
  deriving DecidableEq, Repr

namespace RemovalCause

instance : Named RemovalCause where
  kind := "RemovalCause"
  members := [explicit, replaced, expired, size, collected, other]
  name
    | explicit => "explicit"
    | replaced => "replaced"
    | expired => "expired"
    | size => "size"
    | collected => "collected"
    | other => "other"
  tag
    | explicit => "Explicit"
    | replaced => "Replaced"
    | expired => "Expired"
    | size => "Size"
    | collected => "Collected"
    | other => "Other"

/-- The cache removed the entry of its own accord: no caller took or overwrote it; `SPEC_FULL.md`,
section 3. -/
def isEviction : RemovalCause → Bool
  | explicit | replaced => false
  | expired | size | collected | other => true

end RemovalCause

end Caching
