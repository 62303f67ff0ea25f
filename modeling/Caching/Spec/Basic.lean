import Caching.Text.Unsigned
import Caching.Vocabulary.ExpiryType
import Caching.Vocabulary.Provider

/-!
# Cache specifications

What a cache is to be like. `L` stands for the listeners and `E` for the executors that may be
supplied; two specifications are equal when they agree in all fields, listener and executor
included.
-/

namespace Caching

/-- What a cache is to be like; `SPEC_FULL.md`, section 3. -/
structure Spec (L E : Type) where
  provider : Option Provider
  maxSize : Option UInt64
  expiryType : ExpiryType
  expiryTime : Option Duration
  listener : Option L
  executor : Option E
  highContention : Bool
  deriving DecidableEq, Repr

namespace Spec

variable {L E : Type}

/-- How entries are to expire, if at all. -/
def expiry (s : Spec L E) : Option (ExpiryType × Duration) :=
  if s.expiryType.isEnabled then s.expiryTime.map fun time ↦ (s.expiryType, time) else none

/-- The expiry in the form that engines use. -/
def engineExpiry (s : Spec L E) : Option Expiry :=
  s.expiry.map fun (kind, time) ↦ ⟨kind.resetsOnRead, time⟩

/-- Nothing may ever be retained; `SPEC_FULL.md`, section 13. -/
def isAlwaysEmpty (s : Spec L E) : Bool :=
  decide (s.maxSize = some 0)

/-- An optional value in diagnostic output. -/
def debugOption {α : Type} (debug : α → String) : Option α → String
  | some a => "Some(" ++ debug a ++ ")"
  | none => "None"

/-- A number in diagnostic output. -/
def debugWord (n : UInt64) : String :=
  String.ofList (Text.decimal n.toNat)

/-- The specification as diagnostic output shows it, with a given text for executors. -/
def debug (debugExecutor : E → String) (s : Spec L E) : String :=
  "CacheSpec \x7b provider: " ++ debugOption Named.tag s.provider ++
    ", max_size: " ++ debugOption debugWord s.maxSize ++
    ", expiry_type: " ++ Named.tag s.expiryType ++
    ", expiry_time: " ++ debugOption Duration.debug s.expiryTime ++
    ", removal_listener: " ++ toString s.listener.isSome ++
    ", executor: " ++ debugOption debugExecutor s.executor ++
    ", high_contention: " ++ toString s.highContention ++ " \x7d"

end Spec

end Caching
