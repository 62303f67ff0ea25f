import Caching.Time.Duration
import Caching.Vocabulary.Named

/-!
# Expiry types

Which operations restart the time that an entry has left, and how long that time is.
-/

namespace Caching

/-- What restarts the expiry clock of an entry; `SPEC_FULL.md`, section 3. -/
inductive ExpiryType where
  | none
  | postWrite
  | postAccess
  deriving DecidableEq, Repr, Inhabited

namespace ExpiryType

instance : Named ExpiryType where
  kind := "ExpiryType"
  members := [none, postWrite, postAccess]
  name
    | none => "none"
    | postWrite => "post_write"
    | postAccess => "post_access"
  tag
    | none => "None"
    | postWrite => "PostWrite"
    | postAccess => "PostAccess"

/-- Entries expire at all. -/
def isEnabled : ExpiryType → Bool
  | none => false
  | postWrite | postAccess => true

/-- A read restarts the clock. -/
def resetsOnRead : ExpiryType → Bool
  | none | postWrite => false
  | postAccess => true

end ExpiryType

/-- How entries expire. -/
structure Expiry where
  resetsOnRead : Bool
  time : Duration
  deriving DecidableEq, Repr

end Caching
