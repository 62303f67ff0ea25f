import Caching.Vocabulary.ExpiryType

/-!
# Capabilities

What a specification may ask of a provider and a provider may lack.
-/

namespace Caching

/-- A feature that not every provider has; `SPEC_FULL.md`, section 11. -/
inductive Capability where
  | sizeBound
  | postWriteExpiry
  | postAccessExpiry
  deriving DecidableEq, Repr

namespace Capability

instance : Named Capability where
  kind := "Capability"
  members := [sizeBound, postWriteExpiry, postAccessExpiry]
  name
    | sizeBound => "size_bound"
    | postWriteExpiry => "post_write_expiry"
    | postAccessExpiry => "post_access_expiry"
  tag
    | sizeBound => "SizeBound"
    | postWriteExpiry => "PostWriteExpiry"
    | postAccessExpiry => "PostAccessExpiry"

/-- The feature in the words of a refusal. -/
def phrase : Capability → String
  | sizeBound => "a maximum size"
  | postWriteExpiry => "post-write expiry"
  | postAccessExpiry => "post-access expiry"

/-- The feature that an expiry type needs. -/
def forExpiry? : ExpiryType → Option Capability
  | .none => none
  | .postWrite => some postWriteExpiry
  | .postAccess => some postAccessExpiry

end Capability

end Caching
