import Caching.Cache.Basic
import Caching.Dispatch

/-!
# Sessions

A cache with the handles through which it is used. All handles see the same cache; when the last one
is gone, so is the cache, while a supplied executor goes on. Time passes on the executor when it is
told to, and on the host by itself.
-/

namespace Caching

/-- A cache and its handles, of which some may be gone. -/
structure Session (K V : Type) where
  cache : Cache K V
  handles : List Bool

/-- What can be told apart when one thread removes an entry while another closes the cache. -/
inductive Moment where
  | listenerStart
  | listenerEnd
  | closeReturned
  deriving DecidableEq, Repr

/-- The name of the moment. -/
def Moment.name : Moment → String
  | listenerStart => "listener_start"
  | listenerEnd => "listener_end"
  | closeReturned => "close_returned"

/-- The moment that the effect of a turn makes. -/
def Moment.ofEffect : Effect → Option Moment
  | .entered => some listenerStart
  | .left => some listenerEnd
  | .returned _ => some closeReturned
  | .activated | .turnedAway | .held => none

/-- The order of moments when one thread calls the listener, if it does, and another thread closes
the cache as soon as the call has started. The close has to wait for the call then. A close in the
call itself makes no moment: the cache is closed already, so that it returns at once. -/
def closingOrder (called : Bool) : List Moment :=
  let turns : List (Nat × Turn) :=
    if called then [(0, .enter 0), (1, .close 0), (0, .leave 0), (1, .awaken)] else [(1, .close 0)]
  ((Threads.idle 1 2).play turns).1.filterMap Moment.ofEffect

/-- The listener while somebody waits for its next call to close the cache: that comes first in the
call. A call that has no reaction left does nothing with the cache. -/
def Listener.interrupted {K V : Type} (listener : Listener K V) : Listener K V :=
  match listener.reactions with
  | [] => listener
  | reaction :: rest =>
    { listener with reactions := (fun removal ↦ .call .close fun _ ↦ reaction removal) :: rest }

namespace Session

variable {K V : Type}

/-- The session of a new cache, with one handle. -/
def ofCache (cache : Cache K V) : Session K V :=
  ⟨cache, [true]⟩

/-- Adds a handle, and gives its number. -/
def clone (s : Session K V) : Nat × Session K V :=
  (s.handles.length, { s with handles := s.handles ++ [true] })

/-- Some handle is left. -/
def isHeld (s : Session K V) : Bool :=
  s.handles.any id

/-- The agenda of the cache. -/
def agenda (s : Session K V) : Agenda (Duty K V) :=
  s.cache.body.agenda

/-- Changes the running cache without its kind. -/
def update (s : Session K V)
    (f : Running (s.cache.kind.Store K V) K V → Running (s.cache.kind.Store K V) K V) :
    Session K V :=
  { s with cache := { s.cache with body := f s.cache.body } }

/-- Moves the clock of the executor, without a look at what comes due. -/
def moveClock (d : Duration) (s : Session K V) : Except Abort (Session K V) :=
  (s.agenda.moveClock d).map fun agenda ↦ s.update fun w ↦ { w with agenda }

/-- Shuts the executor down. -/
def shutdownExecutor (s : Session K V) : Session K V :=
  s.update fun w ↦ { w with agenda := w.agenda.shutdown }

/-- Time passes on the host, and on an agenda that goes by the host's clock. -/
def passTime (d : Duration) (s : Session K V) : Except Abort (Session K V) := do
  let host ← s.cache.body.host.advance d
  let agenda ← if s.cache.body.supplied then .ok s.agenda else s.agenda.moveClock d
  return s.update fun w ↦ { w with host, agenda }

variable [DecidableEq K] [DecidableEq V]

/-- Drops a handle. -/
def drop (handle : Nat) (s : Session K V) : Session K V :=
  let s := { s with handles := s.handles.set handle false }
  if s.isHeld then s else { s with cache := s.cache.release }

/-- Runs a script of operations. -/
def follow {α : Type} (script : Script (Operation K V) (Reply V) α) (s : Session K V) :
    α × Session K V :=
  let (a, cache) := s.cache.follow script
  (a, { s with cache })

/-- Performs an operation. -/
def perform (operation : Operation K V) (s : Session K V) : Reply V × Session K V :=
  s.follow (.single operation)

/-- Lets time pass on the executor. -/
def advance (fuel : Nat) (d : Duration) (s : Session K V) :
    Option (Except Abort Nat × Session K V) :=
  (s.cache.advance fuel d).map fun (count, cache) ↦ (count, { s with cache })

/-- One thread removes a key, and another thread closes the cache: as soon as the removal makes a
call of the listener, or else after it. -/
def closeDuringRemove (key : K) (s : Session K V) :
    (Reply V × Reply V × List Moment) × Session K V :=
  let before := s.cache.body.heard.length
  let s := s.update fun w ↦ { w with listener := w.listener.map .interrupted }
  let (removed, s) := s.perform (.remove key)
  let order := closingOrder (decide (before < s.cache.body.heard.length))
  let (closed, s) := s.perform .close
  ((removed, closed, order), s)

/-- Takes the calls of the listener and the log entries since they were last taken. -/
def takeRecords (s : Session K V) : List (Heard K V) × List LogEntry × Session K V :=
  let (heard, log, cache) := s.cache.takeRecords
  (heard, log, { s with cache })

end Session

end Caching
