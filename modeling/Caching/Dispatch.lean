/-!
# Dispatch across threads

Caches are used from many threads, and listeners are called on all of them. Each cache counts the
calls of its listener that have started and not ended, and each thread knows which of them run on
it. Closing a cache lets no further call start and waits for the calls on other threads. It does
not wait for calls on its own thread, as they cannot end before it returns.

Threads take turns in any order: `Threads.step` says what one thread does in its turn.
-/

namespace Caching

/-- How far a cache has come: nobody uses it yet, it serves operations, or it is closed for good. -/
inductive Stage where
  | preparing
  | active
  | closed
  deriving DecidableEq, Repr

/-- The calls of one cache's listener. `running` counts those that have started and not ended;
`SPEC_FULL.md`, section 5. -/
structure Dispatch where
  stage : Stage
  running : Nat
  deriving DecidableEq, Repr

namespace Dispatch

/-- A cache that is being built. -/
def fresh : Dispatch :=
  ⟨.preparing, 0⟩

/-- The cache is ready; later this has no effect. -/
def activate (d : Dispatch) : Dispatch :=
  match d.stage with
  | .preparing => { d with stage := .active }
  | .active | .closed => d

/-- A call starts, unless the cache is closed. -/
def start? (d : Dispatch) : Option Dispatch :=
  match d.stage with
  | .closed => none
  | .preparing | .active => some { d with running := d.running + 1 }

/-- A call ends. -/
def finish (d : Dispatch) : Dispatch :=
  { d with running := d.running - 1 }

/-- The cache is closed. -/
def shut (d : Dispatch) : Dispatch :=
  { d with stage := .closed }

end Dispatch

/-- A thread: the caches of the calls that run on it, innermost first, and the cache whose close has
made it wait. -/
structure Thread where
  calls : List Nat
  waiting : Option Nat
  deriving DecidableEq, Repr

/-- The caches and the threads of a process, both known by their positions. -/
structure Threads where
  caches : List Dispatch
  threads : List Thread
  deriving DecidableEq, Repr

/-- What a thread may do in its turn. -/
inductive Turn where
  /-- It finishes building a cache. -/
  | activate (cache : Nat)
  /-- It is about to call the listener of a cache. -/
  | enter (cache : Nat)
  /-- A call of the listener has come to its end. -/
  | leave (cache : Nat)
  /-- It closes a cache. -/
  | close (cache : Nat)
  /-- It looks whether its wait is over. -/
  | awaken
  deriving DecidableEq, Repr

/-- What came of a turn. -/
inductive Effect where
  | activated
  /-- The call may run. -/
  | entered
  /-- The cache was closed, so there is no call. -/
  | turnedAway
  | left
  /-- The close has to wait. -/
  | held
  /-- The close returns; the flag tells whether it was the one that closed the cache. -/
  | returned (first : Bool)
  deriving DecidableEq, Repr

namespace Threads

/-- Active caches and idle threads, so many of each. -/
def idle (caches threads : Nat) : Threads :=
  ⟨List.replicate caches ⟨.active, 0⟩, List.replicate threads ⟨[], none⟩⟩

/-- Another state of one cache. -/
def setCache (s : Threads) (cache : Nat) (d : Dispatch) : Threads :=
  { s with caches := s.caches.set cache d }

/-- Another state of one thread. -/
def setThread (s : Threads) (thread : Nat) (t : Thread) : Threads :=
  { s with threads := s.threads.set thread t }

/-- The number of calls of a cache's listener that run on any thread. -/
def callsOf (s : Threads) (cache : Nat) : Nat :=
  (s.threads.flatMap Thread.calls).count cache

/-- A call of a cache's listener runs on the thread. -/
def isDispatching (s : Threads) (thread cache : Nat) : Bool :=
  (s.threads[thread]?).any fun t ↦ t.calls.contains cache

/-- No call of the cache runs but those on the thread itself. -/
def isClear (d : Dispatch) (t : Thread) (cache : Nat) : Bool :=
  decide (d.running ≤ t.calls.count cache)

/-- Closes a cache; `SPEC_FULL.md`, section 5. -/
def close (thread : Nat) (t : Thread) (cache : Nat) (d : Dispatch) (s : Threads) :
    Effect × Threads :=
  match d.stage with
  | .closed => (.returned false, s)
  | .preparing | .active =>
    let s := s.setCache cache d.shut
    if isClear d t cache then (.returned true, s)
    else (.held, s.setThread thread { t with waiting := some cache })

/-- One turn of a thread, if it can be taken: a thread that waits can only look whether it still has
to, and only calls that run on a thread can end there. -/
def step (thread : Nat) (turn : Turn) (s : Threads) : Option (Effect × Threads) := do
  let t ← s.threads[thread]?
  match turn, t.waiting with
  | .activate cache, none =>
    let d ← s.caches[cache]?
    return (.activated, s.setCache cache d.activate)
  | .enter cache, none =>
    let d ← s.caches[cache]?
    match d.start? with
    | some d =>
      return (.entered, (s.setCache cache d).setThread thread { t with calls := cache :: t.calls })
    | none => return (.turnedAway, s)
  | .leave cache, none =>
    let d ← s.caches[cache]?
    if cache ∈ t.calls then
      return (.left, (s.setCache cache d.finish).setThread thread
        { t with calls := t.calls.erase cache })
    else none
  | .close cache, none =>
    let d ← s.caches[cache]?
    return s.close thread t cache d
  | .awaken, some cache =>
    let d ← s.caches[cache]?
    if isClear d t cache then
      return (.returned true, s.setThread thread { t with waiting := none })
    else none
  | _, _ => none

/-- Takes turns in a given order, with their effects. Turns that cannot be taken are passed over. -/
def play : List (Nat × Turn) → Threads → List Effect × Threads
  | [], s => ([], s)
  | (thread, turn) :: rest, s =>
    match s.step thread turn with
    | none => play rest s
    | some (effect, s) =>
      let (effects, s) := play rest s
      (effect :: effects, s)

end Threads

end Caching
