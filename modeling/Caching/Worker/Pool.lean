import Caching.Worker.Basic

/-!
# Pools of workers

All workers of a process with the assignments they were given. A worker that was shut down starts
nothing more, nor does one that nobody holds; the shared one can be neither. A repeated assignment
that waits for its next run, or is in the midst of one, holds its worker.

Which assignment is started when is up to the machine: `start` says what a start does, at any moment
at which one may happen, and `finish` what is done at the end of the run.
-/

namespace Caching

/-- How an assignment is repeated: once a period, as long as the number of runs so far lets it. -/
structure Repetition where
  period : Duration
  goesOn : Nat → Bool

/-- Something that a worker was given to run. -/
structure Assignment where
  worker : Nat
  /-- The runtime that was given the runs. -/
  handle : Runtime
  cancelled : Bool
  /-- The time from which the next run may start, in nanoseconds; without it none waits. -/
  due : Option Nat
  repetition : Option Repetition
  /-- The number of runs that were started. -/
  runs : Nat
  /-- A run has been started and has not ended. -/
  isRunning : Bool

namespace Assignment

/-- The assignment is repeated, and its next run waits or a run of it goes on. -/
def isAlive (a : Assignment) : Bool :=
  a.repetition.isSome && (a.due.isSome || a.isRunning)

/-- A stopped runtime drops what waits on it. -/
def dropOn (r : Runtime) (a : Assignment) : Assignment :=
  if a.handle = r then { a with due := none } else a

/-- The assignment once a run of it has started. -/
def begun (a : Assignment) : Assignment :=
  { a with due := none, runs := a.runs + 1, isRunning := true }

end Assignment

/-- Where somebody stands who stops a runtime. -/
inductive Place where
  | outside
  /-- On a runtime, where nobody may block. -/
  | inside
  deriving DecidableEq, Repr

/-- The end of a runtime: which one, and how it was stopped. -/
structure Halt where
  runtime : Runtime
  place : Place
  /-- Whoever stopped it waited for it to wind down. -/
  blocking : Bool
  deriving DecidableEq, Repr

/-- Where a worker that is hired has its runtime from. -/
inductive Origin where
  /-- A runtime is started for it. -/
  | dedicated
  /-- It borrows that of a host, the first one unless told otherwise. -/
  | borrowed (host : Nat := 0)
  deriving DecidableEq, Repr

/-- The workers of a process. Those who hold a worker, and the assignments, are known by labels; a
label stands for what it was last given to. -/
structure Pool where
  now : Nat
  workers : List Worker
  /-- The number of the shared worker, once it has been asked for. -/
  shared? : Option Nat
  /-- The runtimes that were stopped. -/
  halts : List Halt
  holders : List (String × Nat)
  assignments : List Assignment
  labels : List (String × Nat)
  log : List LogEntry

namespace Pool

/-- The process before anything is asked of it. -/
def fresh : Pool :=
  ⟨0, [], none, [], [], [], [], []⟩

/-- Adds to the log. -/
def note (p : Pool) (entry : LogEntry) : Pool :=
  { p with log := p.log ++ [entry] }

/-- The worker that somebody holds. -/
def worker? (p : Pool) (holder : String) : Option (Nat × Worker) :=
  (p.holders.lookup holder).bind fun i ↦ (p.workers[i]?).map fun w ↦ (i, w)

/-- The assignment with a label. -/
def assignment? (p : Pool) (label : String) : Option (Nat × Assignment) :=
  (p.labels.lookup label).bind fun i ↦ (p.assignments[i]?).map fun a ↦ (i, a)

/-- Somebody or something holds the worker. -/
def isHeld (p : Pool) (i : Nat) : Bool :=
  p.shared? == some i || (p.holders.any fun h ↦ h.2 == i) ||
    p.assignments.any fun a ↦ a.worker == i && a.isAlive

/-- The runtime has been stopped. -/
def isHalted (p : Pool) (r : Runtime) : Bool :=
  p.halts.any fun h ↦ decide (h.runtime = r)

/-- Takes the runtime from a worker that owns one, and stops it. Nobody waits for it to wind down
who must not block. -/
def stopRuntime (place : Place) (i : Nat) (p : Pool) : Pool :=
  match p.workers[i]? with
  | none => p
  | some w =>
    match w.runtime with
    | none => p
    | some r =>
      let q : Pool := { p with
        workers := p.workers.set i { w with runtime := none }
        halts := p.halts ++ [⟨r, place, decide (place = .outside)⟩]
        assignments := p.assignments.map (Assignment.dropOn r) }
      q.note (w.entry .debug "stopped dedicated scheduler runtime")

/-- Stops a worker for good, and its own runtime with it. -/
def stop (place : Place) (i : Nat) (p : Pool) : Pool :=
  stopRuntime place i
    { p with workers := p.workers.modify i fun w ↦ { w with stopped := true } }

/-- The workers that nobody holds although they have not been stopped. -/
def forsaken (p : Pool) : List Nat :=
  (List.range p.workers.length).filter fun i ↦
    (p.workers[i]?.any fun w ↦ !w.stopped) && !p.isHeld i

/-- Stops the workers that nobody holds. -/
def dismiss (place : Place) (p : Pool) : Pool :=
  p.forsaken.foldl (fun p i ↦ p.stop place i) p

/-- Stops the workers that nobody holds, on threads whose log is not kept. -/
def dismissQuietly (p : Pool) : Pool :=
  { p.dismiss .inside with log := p.log }

/-- Gives a worker to a holder, who lets go of another one. -/
def hold (place : Place) (holder : String) (i : Nat) (p : Pool) : Pool :=
  { p with holders := (holder, i) :: p.holders.filter fun h ↦ h.1 != holder }.dismiss place

/-- Logs that the runtime of a worker was started. -/
def noteStarted (w : Worker) (p : Pool) : Pool :=
  p.note (w.entry .debug "started dedicated scheduler runtime")

/-- Adds a worker. -/
def enlist (w : Worker) (p : Pool) : Pool :=
  let p := { p with workers := p.workers ++ [w] }
  if w.ownsRuntime then p.noteStarted w else p

/-- Hires a worker. -/
def hire (holder name : String) (origin : Origin) (p : Pool) (place : Place := .outside) : Pool :=
  let i := p.workers.length
  let w := match origin with
    | .dedicated => Worker.dedicated name i
    | .borrowed host => Worker.borrowing name host
  (p.enlist w).hold place holder i

/-- The shared worker, which is made when it is asked for the first time; `SPEC_FULL.md`,
section 14. -/
def shared (p : Pool) : Nat × Pool :=
  match p.shared? with
  | some i => (i, p)
  | none =>
    let i := p.workers.length
    (i, { p with shared? := some i }.enlist (.processWide i))

/-- Gives the shared worker to a holder. -/
def share (holder : String) (p : Pool) (place : Place := .outside) : Pool :=
  let (i, p) := p.shared
  p.hold place holder i

/-- A process in which the shared worker has been asked for before. -/
def new : Pool :=
  { fresh.shared.2 with log := [] }

/-- Another one holds the same worker as well. -/
def copy (holder other : String) (p : Pool) (place : Place := .outside) : Pool :=
  match p.holders.lookup holder with
  | some i => p.hold place other i
  | none => p

/-- Lets go of a worker; tells whether there was one. -/
def letGo (holder : String) (p : Pool) (place : Place := .outside) : Bool × Pool :=
  ((p.holders.lookup holder).isSome,
    { p with holders := p.holders.filter fun h ↦ h.1 != holder }.dismiss place)

/-- Shuts down a worker, unless it is the shared one or was shut down before; `SPEC_FULL.md`,
section 14. -/
def shutdown (holder : String) (p : Pool) (place : Place := .outside) : Pool :=
  match p.worker? holder with
  | none => p
  | some (i, w) =>
    if w.isProcessWide then
      p.note (w.entry .warn "ignoring shutdown request for process-wide scheduler")
    else if w.stopped then p
    else p.stop place i

/-- The two hold the same worker. -/
def isSame (p : Pool) (holder other : String) : Bool :=
  match p.holders.lookup holder, p.holders.lookup other with
  | some i, some j => i == j
  | _, _ => false

/-- The time from which something may start that is given to a runtime. A runtime that was stopped
drops it. -/
def spawned (p : Pool) (r : Runtime) (delay : Duration) : Option Nat :=
  if p.isHalted r then none else some (p.now + delay.nanos)

/-- Adds an assignment under a label. -/
def add (label : String) (a : Assignment) (p : Pool) : Pool :=
  { p with
    assignments := p.assignments ++ [a]
    labels := (label, p.assignments.length) :: p.labels }

/-- Assigns something to be run once. A worker that was stopped gives it back cancelled;
`SPEC_FULL.md`, section 14. -/
def schedule (holder label : String) (delay : Duration) (p : Pool) : Pool :=
  match p.worker? holder with
  | none => p
  | some (i, w) =>
    if w.stopped then p.add label ⟨i, w.handle, true, none, none, 0, false⟩
    else p.add label ⟨i, w.handle, false, p.spawned w.handle delay, none, 0, false⟩

/-- The time from which the next run of a repeated assignment may start. -/
def armed (p : Pool) (w : Worker) (cancelled : Bool) (period : Duration) : Option Nat :=
  if cancelled || w.stopped then none else p.spawned w.handle period

/-- Assigns something to be run repeatedly. A worker that was stopped never starts it. -/
def scheduleRepeating (holder label : String) (r : Repetition) (p : Pool) : Pool :=
  match p.worker? holder with
  | none => p
  | some (i, w) => p.add label ⟨i, w.handle, false, p.armed w false r.period, some r, 0, false⟩

/-- Puts an assignment in the place of a former one. -/
def setAssignment (i : Nat) (a : Assignment) (p : Pool) : Pool :=
  { p with assignments := p.assignments.set i a }

/-- Cancels an assignment for good. -/
def cancel (label : String) (p : Pool) : Pool :=
  match p.assignment? label with
  | none => p
  | some (i, a) => p.setAssignment i { a with cancelled := true }

/-- The assignment has been cancelled. -/
def isCancelled (p : Pool) (label : String) : Option Bool :=
  (p.assignment? label).map fun a ↦ a.2.cancelled

/-- The number of runs of an assignment. -/
def runs (p : Pool) (label : String) : Nat :=
  match p.assignment? label with
  | some (_, a) => a.runs
  | none => 0

/-- The worker of an assignment may run it. -/
def mayRun (p : Pool) (a : Assignment) : Bool :=
  !a.cancelled && p.workers[a.worker]?.any fun w ↦ !w.stopped

/-- Starts an assignment if its time has come. One that was cancelled, or whose worker was stopped,
is dropped instead. -/
def start (i : Nat) (p : Pool) : Pool :=
  match p.assignments[i]? with
  | none => p
  | some a =>
    match a.due with
    | none => p
    | some due =>
      if p.now < due then p
      else if p.mayRun a then p.setAssignment i a.begun
      else (p.setAssignment i { a with due := none }).dismissQuietly

/-- The time from which an assignment may start again that has been run. -/
def rearmed (p : Pool) (a : Assignment) : Option Nat :=
  match a.repetition, p.workers[a.worker]? with
  | some r, some w => if r.goesOn a.runs then p.armed w a.cancelled r.period else none
  | _, _ => none

/-- Ends a run of an assignment. -/
def finish (i : Nat) (p : Pool) : Pool :=
  match p.assignments[i]? with
  | none => p
  | some a =>
    if a.isRunning then
      (p.setAssignment i { a with due := p.rearmed a, isRunning := false }).dismissQuietly
    else p

end Pool

end Caching
