import Caching.Engine.Deferred
import Caching.Engine.Recency
import Caching.Engine.Timed
import Caching.Engine.Vacant
import Caching.Spec.Basic

/-!
# Caches

A cache is a running cache on one of the engines. Which engine it is stays the same for its whole
life, and whoever uses it sees the contract only.
-/

namespace Caching

/-- The engines. -/
inductive Kind where
  | vacant
  | deferred
  | recency
  | timed
  deriving DecidableEq, Repr

/-- What the engine of a kind stores. -/
def Kind.Store (K V : Type) : Kind → Type
  | vacant => Vacant
  | deferred => Deferred K V
  | recency => Recency K V
  | timed => Timed K V

section

variable {K V : Type} [DecidableEq K]

instance (kind : Kind) : Engine (kind.Store K V) K V :=
  match kind with
  | .vacant => inferInstanceAs (Engine Vacant K V)
  | .deferred => inferInstanceAs (Engine (Deferred K V) K V)
  | .recency => inferInstanceAs (Engine (Recency K V) K V)
  | .timed => inferInstanceAs (Engine (Timed K V) K V)

end

/-- A specification together with the listener and the executor themselves. -/
abbrev CacheSpec (K V : Type) := Spec (Listener K V) (Agenda (Duty K V))

/-- A cache that starts to run on a store, as specified. Without an executor its agenda is one that
nobody attends to, on the clock of the host. -/
def Running.start {σ K V : Type} (store : σ) (provider : Provider) (spec : CacheSpec K V)
    (host : Clock) : Running σ K V where
  store
  provider
  phase := .active
  dispatching := 0
  listener := spec.listener
  heard := []
  agenda := spec.executor.getD (.ofClock host)
  supplied := spec.executor.isSome
  host
  log := []

/-- A cache on any engine; `SPEC_FULL.md`, section 3. -/
structure Cache (K V : Type) where
  kind : Kind
  body : Running (kind.Store K V) K V

namespace Cache

variable {K V : Type}

/-- The provider that the cache goes by. -/
def provider (c : Cache K V) : Provider :=
  c.body.provider

/-- Whether the cache still serves operations. -/
def phase (c : Cache K V) : Phase :=
  c.body.phase

/-- The cache as diagnostic output shows it. -/
def debug (c : Cache K V) : String :=
  "CacheHandle \x7b provider: " ++ Named.tag c.provider ++ ", state: " ++ c.phase.tag ++ " \x7d"

variable [DecidableEq K] [DecidableEq V]

/-- Runs a script of operations. -/
def follow {α : Type} (script : Script (Operation K V) (Reply V) α) (c : Cache K V) :
    α × Cache K V :=
  let (a, body) := c.body.follow script
  (a, { c with body })

/-- Performs an operation. -/
def perform (operation : Operation K V) (c : Cache K V) : Reply V × Cache K V :=
  let (reply, body) := c.body.perform operation
  (reply, { c with body })

/-- Lets go of a cache that nobody uses any more. -/
def release (c : Cache K V) : Cache K V :=
  { c with body := c.body.release }

/-- Lets time pass on the executor. -/
def advance (fuel : Nat) (d : Duration) (c : Cache K V) :
    Option (Except Abort Nat × Cache K V) :=
  (c.body.advance fuel d).map fun (count, body) ↦ (count, { c with body })

/-- Takes the calls of the listener and the log entries since they were last taken. -/
def takeRecords (c : Cache K V) : List (Heard K V) × List LogEntry × Cache K V :=
  (c.body.heard, c.body.log, { c with body := { c.body with heard := [], log := [] } })

end Cache

end Caching
