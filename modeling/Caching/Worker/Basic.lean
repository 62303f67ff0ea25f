import Caching.Fault
import Caching.Text.Quoted
import Caching.Time.Duration

/-!
# Workers

Schedulers that run what they are given in the background as time passes. A worker runs it on a
runtime, which it has started for itself and owns, or which a host lends it.
-/

namespace Caching

/-- A runtime, on which things are run. -/
inductive Runtime where
  /-- A runtime of a host, who lends it. -/
  | host (n : Nat)
  /-- The runtime that was started for the worker with the number. -/
  | started (worker : Nat)
  deriving DecidableEq, Repr

/-- A scheduler that runs jobs in the background; `SPEC_FULL.md`, section 14. -/
structure Worker where
  name : String
  /-- The runtime on which it runs what it is given. -/
  handle : Runtime
  /-- The runtime that it owns, until that is taken from it to be stopped. -/
  runtime : Option Runtime
  /-- It is the worker that the whole process shares. -/
  isProcessWide : Bool
  /-- It was shut down, or nobody was left who held it. -/
  stopped : Bool
  deriving DecidableEq, Repr

namespace Worker

/-- A worker with a runtime of its own. `i` is its number; `SPEC_FULL.md`, section 14. -/
def dedicated (name : String) (i : Nat) : Worker :=
  ⟨name, .started i, some (.started i), false, false⟩

/-- A worker that borrows the runtime of a host; `SPEC_FULL.md`, section 14. -/
def borrowing (name : String) (host : Nat) : Worker :=
  ⟨name, .host host, none, false, false⟩

/-- The worker that the whole process shares; `SPEC_FULL.md`, section 14. -/
def processWide (i : Nat) : Worker :=
  { dedicated "omnicache-shared" i with isProcessWide := true }

/-- The worker owns the runtime on which it runs things. -/
def ownsRuntime (w : Worker) : Bool :=
  w.runtime.isSome

/-- The worker as diagnostic output shows it. -/
def debug (w : Worker) : String :=
  "RuntimeScheduler \x7b name: " ++ Text.quoted w.name ++ ", owns_runtime: " ++
    toString w.ownsRuntime ++ ", process_wide: " ++ toString w.isProcessWide ++
    ", shutdown: " ++ toString w.stopped ++ " \x7d"

/-- What is logged about the runtime of a worker. -/
def entry (w : Worker) (level : Level) (message : String) : LogEntry :=
  ⟨level, message, [("scheduler", w.name)]⟩

end Worker

end Caching
