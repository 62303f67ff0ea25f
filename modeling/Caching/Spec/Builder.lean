import Caching.Fault
import Caching.Settings.Basic
import Caching.Spec.Basic

/-!
# Specification builders

A builder collects what a specification is to hold, until one is built; from then on it refuses
everything. An expiry time has to be positive and bounded, and goes with an expiry type that uses
it.
-/

namespace Caching

/-- The longest expiry time: a hundred years of 365 days; `SPEC_FULL.md`, section 12. -/
def maxExpiryTime : Duration :=
  ⟨100 * 365 * 24 * 60 * 60 * nanosPerSecond, by decide⟩

/-- A specification in the making; `SPEC_FULL.md`, section 4.1. -/
structure Builder (L E : Type) where
  provider : Option Provider
  maxSize : Option UInt64
  expiryType : Option ExpiryType
  expiryTime : Option Duration
  listener : Option L
  executor : Option E
  highContention : Bool
  finalized : Bool
  deriving DecidableEq, Repr

namespace Builder

variable {L E : Type}

/-- A builder that was told nothing. -/
def new : Builder L E :=
  ⟨none, none, none, none, none, none, false, false⟩

/-- Refuses everything after a specification was built. -/
def guarded {α : Type} (b : Builder L E) (result : Except Fault α) : Except Fault α :=
  if b.finalized then .error .builderFinalized else result

/-- Asks for a provider. -/
def setProvider (b : Builder L E) (p : Provider) : Except Fault (Builder L E) :=
  b.guarded (.ok { b with provider := some p })

/-- Bounds the number of entries. -/
def setMaxSize (b : Builder L E) (n : UInt64) : Except Fault (Builder L E) :=
  b.guarded (.ok { b with maxSize := some n })

/-- Says what restarts the time of an entry. -/
def setExpiryType (b : Builder L E) (e : ExpiryType) : Except Fault (Builder L E) :=
  b.guarded (.ok { b with expiryType := some e })

/-- Why a duration is no expiry time; `SPEC_FULL.md`, section 16. -/
def expiryTimeProblem? (time : Duration) : Option String :=
  if time.nanos = 0 then some "expiry time must be a positive duration"
  else if maxExpiryTime.nanos < time.nanos then
    some ("expiry time " ++ time.debug ++ " exceeds the maximum of " ++ maxExpiryTime.debug)
  else none

/-- Says how long an entry lives. -/
def setExpiryTime (b : Builder L E) (time : Duration) : Except Fault (Builder L E) :=
  b.guarded <|
    match expiryTimeProblem? time with
    | some problem => .error (.invalidSpecification problem)
    | none => .ok { b with expiryTime := some time }

/-- Supplies a listener. -/
def setListener (b : Builder L E) (listener : L) : Except Fault (Builder L E) :=
  b.guarded (.ok { b with listener := some listener })

/-- Supplies an executor. -/
def setExecutor (b : Builder L E) (executor : E) : Except Fault (Builder L E) :=
  b.guarded (.ok { b with executor := some executor })

/-- Hints that many threads will use the cache. -/
def setHighContention (b : Builder L E) (enabled : Bool) : Except Fault (Builder L E) :=
  b.guarded (.ok { b with highContention := enabled })

/-- A call that may fail: the builder after it, and the fault if there was one. -/
abbrev Outcome (L E : Type) := Option Fault × Builder L E

/-- A call that changes nothing if it fails. -/
def attempt (b : Builder L E) (result : Except Fault (Builder L E)) : Outcome L E :=
  match result with
  | .ok b => (none, b)
  | .error fault => (some fault, b)

/-- Makes a call for a value that is set, unless an earlier call has failed. -/
def attemptSome {α : Type} (value : Option α)
    (call : Builder L E → α → Except Fault (Builder L E)) (outcome : Outcome L E) :
    Outcome L E :=
  match outcome, value with
  | (none, b), some a => b.attempt (call b a)
  | outcome, _ => outcome

/-- Makes the calls for all fields that are set, in their order, up to the first that fails. The
calls before that one keep their effect; `SPEC_FULL.md`, section 15.3. -/
def applySettings (b : Builder L E) (s : Settings) : Outcome L E :=
  if b.finalized then (some .builderFinalized, b)
  else
    (none, b) |> attemptSome s.provider setProvider
      |> attemptSome s.maxSize setMaxSize
      |> attemptSome s.expiryType setExpiryType
      |> attemptSome s.expiryTime setExpiryTime
      |> attemptSome s.highContention setHighContention

/-- Why expiry type and time do not go together; `SPEC_FULL.md`, section 3. -/
def expiryProblem? (kind : ExpiryType) (time : Option Duration) : Option String :=
  match kind.isEnabled, time with
  | false, some time =>
    some ("expiry time " ++ time.debug ++
      " requires expiry type post_write or post_access, got " ++ Named.name kind)
  | true, none => some ("expiry type " ++ Named.name kind ++ " requires an expiry time")
  | _, _ => none

/-- Builds the specification. The builder keeps neither listener nor executor then; `SPEC_FULL.md`,
section 4.1. -/
def build (b : Builder L E) : Except Fault (Spec L E × Builder L E) :=
  b.guarded <|
    let kind := b.expiryType.getD default
    match expiryProblem? kind b.expiryTime with
    | some problem => .error (.invalidSpecification problem)
    | none =>
      .ok (⟨b.provider, b.maxSize, kind, b.expiryTime, b.listener, b.executor, b.highContention⟩,
        { b with finalized := true, listener := none, executor := none })

end Builder

end Caching
