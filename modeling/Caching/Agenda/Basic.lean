import Caching.Time.Clock

/-!
# Agendas

An agenda holds what is still to be done, with the instant from which each entry is due, and a clock
that moves only when told to. Entries leave it in the order of their due instants, and in the order
of submission where those agree. A handle cancels an entry at any time before its turn.
-/

namespace Caching

/-- Names something submitted to an agenda, so that it can be cancelled; `SPEC_FULL.md`,
section 14. -/
structure Handle where
  id : Nat
  deriving DecidableEq, Repr

/-- What an entry asks for: something to do once, or the next run of something repeated. A repeated
job is a chain of entries that share one handle; `run` counts from one. -/
inductive Job (B : Type) where
  | once (body : B)
  | link (chain : Handle) (period : Duration) (run : Nat) (body : B)

/-- One thing to do. `seq` counts the submissions before it. -/
structure Entry (B : Type) where
  due : Instant
  seq : Nat
  handle : Handle
  job : Job B

/-- What became of an entry that left the agenda. -/
inductive Fate where
  /-- It was its turn. -/
  | started
  /-- It was its turn, but it had been cancelled. -/
  | skipped
  /-- The agenda was shut down. -/
  | discarded
  deriving DecidableEq, Repr

/-- The record of an entry that left the agenda, with what the clock had counted by then. -/
structure Departure where
  due : Instant
  seq : Nat
  fate : Fate
  elapsed : Duration
  deriving DecidableEq, Repr

/-- Things to do, and the clock that says when. `journal` tells of the entries that left, latest
first; `SPEC_FULL.md`, section 14. -/
structure Agenda (B : Type) where
  clock : Clock
  queue : List (Entry B)
  nextSeq : Nat
  nextHandle : Nat
  cancelled : List Handle
  stopped : Bool
  journal : List Departure

namespace Agenda

variable {B : Type}

/-- An agenda without entries. -/
def ofClock (clock : Clock) : Agenda B :=
  ⟨clock, [], 0, 0, [], false, []⟩

/-- The number of entries, cancelled ones included. -/
def pending (a : Agenda B) : Nat :=
  a.queue.length

/-- The handle has been cancelled. -/
def isCancelled (a : Agenda B) (handle : Handle) : Bool :=
  a.cancelled.contains handle

/-- Cancels a handle, for good. -/
def cancel (a : Agenda B) (handle : Handle) : Agenda B :=
  if a.isCancelled handle then a else { a with cancelled := handle :: a.cancelled }

/-- A handle that has not been given out yet. -/
def freshHandle (a : Agenda B) : Handle × Agenda B :=
  (⟨a.nextHandle⟩, { a with nextHandle := a.nextHandle + 1 })

/-- Puts an entry behind all entries that are not due later. -/
def insertEntry (e : Entry B) : List (Entry B) → List (Entry B)
  | [] => [e]
  | x :: rest => if e.due < x.due then e :: x :: rest else x :: insertEntry e rest

/-- Submits a job under a fresh handle. An agenda that was shut down takes nothing, and gives a
handle that is cancelled already. An entry that would be due beyond the last instant never gets its
turn, so it is not kept. -/
def submit (a : Agenda B) (delay : Duration) (job : Job B) : Except Abort (Handle × Agenda B) :=
  let (handle, b) := a.freshHandle
  if a.stopped then .ok (handle, b.cancel handle)
  else
    match a.clock.now with
    | .error abort => .error abort
    | .ok now =>
      match now.add? delay with
      | none => .ok (handle, b)
      | some due =>
        .ok (handle,
          { b with queue := insertEntry ⟨due, a.nextSeq, handle, job⟩ a.queue
                   nextSeq := a.nextSeq + 1 })

/-- Submits something to do once; `SPEC_FULL.md`, section 14. -/
def schedule (a : Agenda B) (delay : Duration) (body : B) : Except Abort (Handle × Agenda B) :=
  a.submit delay (.once body)

/-- Submits the given run of a chain, unless the chain was cancelled or the agenda shut down. -/
def arm (a : Agenda B) (chain : Handle) (period : Duration) (run : Nat) (body : B) :
    Except Abort (Agenda B) :=
  if a.isCancelled chain || a.stopped then .ok a
  else (a.submit period (.link chain period run body)).map Prod.snd

/-- Starts a chain that runs once a period. The handle of a chain is not cancelled by a shutdown. -/
def scheduleRepeating (a : Agenda B) (period : Duration) (body : B) :
    Except Abort (Handle × Agenda B) :=
  let (chain, b) := a.freshHandle
  (b.arm chain period 1 body).map fun c ↦ (chain, c)

/-- Ends the agenda: its entries are dropped, and it takes no more; `SPEC_FULL.md`, section 14. -/
def shutdown (a : Agenda B) : Agenda B :=
  { a with
    stopped := true
    queue := []
    journal := (a.queue.map fun e ↦ ⟨e.due, e.seq, .discarded, a.clock.elapsed⟩).reverse ++
      a.journal }

/-- Moves only the clock. -/
def moveClock (a : Agenda B) (d : Duration) : Except Abort (Agenda B) :=
  (a.clock.advance d).map fun clock ↦ { a with clock }

/-- The instant lies within the target; without a target every instant does. -/
def within (target : Option Instant) (due : Instant) : Bool :=
  match target with
  | some instant => decide (due ≤ instant)
  | none => true

/-- Takes the first entry if it is due within the target, and moves the clock on to its due instant.
The flag tells whether the entry is to be started: it has not been cancelled. -/
def take? (a : Agenda B) (target : Option Instant) : Option (Bool × Entry B × Agenda B) :=
  if a.stopped then none
  else
    match a.queue with
    | [] => none
    | e :: rest =>
      if within target e.due then
        let clock := a.clock.advanceTo e.due
        let live := !a.isCancelled e.handle
        some (live, e,
          { a with
            clock, queue := rest
            journal := ⟨e.due, e.seq, if live then .started else .skipped, clock.elapsed⟩ ::
              a.journal })
      else none

/-- The agenda as diagnostic output shows it. -/
def debug (a : Agenda B) : String :=
  "ManualScheduler \x7b elapsed: " ++ a.clock.elapsed.debug ++ ", pending: " ++
    String.ofList (Text.decimal a.pending) ++ ", shutdown: " ++ toString a.stopped ++ " \x7d"

end Agenda

end Caching
