import Caching.Script
import Caching.Spec.Builder

/-!
# Calls on builders

All that can be done with a builder. Whoever configures one may choose each call in the light of
what became of those before it.
-/

namespace Caching.Builder

/-- A call on a builder. -/
inductive Call (L E : Type) where
  | provider (p : Provider)
  | maxSize (n : UInt64)
  | expiryType (e : ExpiryType)
  | expiryTime (time : Duration)
  | listener (listener : L)
  | executor (executor : E)
  | highContention (enabled : Bool)
  /-- Makes the calls for all fields that are set. -/
  | settings (s : Settings)
  | build

variable {L E : Type}

/-- What became of a call that gives no specification. -/
def answered (outcome : Outcome L E) : Except Fault (Option (Spec L E)) × Builder L E :=
  match outcome with
  | (none, b) => (.ok none, b)
  | (some fault, b) => (.error fault, b)

/-- Makes a call. It is answered by the specification if it is the one that builds it. -/
def make (call : Call L E) (b : Builder L E) :
    Except Fault (Option (Spec L E)) × Builder L E :=
  match call with
  | .provider p => answered (b.attempt (b.setProvider p))
  | .maxSize n => answered (b.attempt (b.setMaxSize n))
  | .expiryType e => answered (b.attempt (b.setExpiryType e))
  | .expiryTime time => answered (b.attempt (b.setExpiryTime time))
  | .listener listener => answered (b.attempt (b.setListener listener))
  | .executor executor => answered (b.attempt (b.setExecutor executor))
  | .highContention enabled => answered (b.attempt (b.setHighContention enabled))
  | .settings s => answered (b.applySettings s)
  | .build =>
    match b.build with
    | .ok (spec, b) => (.ok (some spec), b)
    | .error fault => (.error fault, b)

/-- A program that makes calls on a builder, and may fail. -/
abbrev Configuration (L E : Type) :=
  Script (Call L E) (Except Fault (Option (Spec L E))) (Option Fault)

/-- Makes the calls in their order, and fails with the first that fails. -/
def Configuration.ofCalls : List (Call L E) → Configuration L E
  | [] => .done none
  | call :: rest => .call call fun
    | .ok _ => ofCalls rest
    | .error fault => .done (some fault)

/-- A new builder after a configuration, and the fault if it failed. -/
def configured (configuration : Configuration L E) : Outcome L E :=
  configuration.run make .new

/-- The specification that a configuration comes to, unless it fails or nothing can be built then.
-/
def specified (configuration : Configuration L E) : Except Fault (Spec L E) :=
  match configured configuration with
  | (some fault, _) => .error fault
  | (none, b) => b.build.map Prod.fst

end Caching.Builder
