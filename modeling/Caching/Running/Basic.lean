import Caching.Agenda.Advance
import Caching.Contract.Operation
import Caching.Fault
import Caching.Script

/-!
# Running caches

A cache in use: what it stores, in the form that its engine chose, and everything around it that its
operations can reach. That is the listener, who is told of removals and may answer each report with
a script of operations on the same cache, and the agenda on which expiry and upkeep are scheduled.
-/

namespace Caching

/-- What a listener that panics leaves behind. -/
inductive Payload where
  | text (s : String)
  | other
  deriving DecidableEq, Repr

namespace Payload

/-- The payload in the words of the log. -/
def message : Payload → String
  | text s => s
  | other => "non-string panic payload"

end Payload

/-- How a listener ends a call: the replies to its own operations that it has kept, and what it
panicked with, if it did. -/
structure Verdict (V : Type) where
  replies : List (Reply V)
  panic : Option Payload

/-- A listener. Its first calls are answered by the reactions, one after the other; all further ones
only record the removal, and may panic. So calling back comes to an end; `SPEC_FULL.md`,
section 3. -/
structure Listener (K V : Type) where
  reactions : List (Removal K V → Script (Operation K V) (Reply V) (Verdict V))
  lasting : Removal K V → Option Payload

/-- A call of a listener, with the replies to its own operations once it has ended. -/
structure Heard (K V : Type) where
  removal : Removal K V
  replies : Option (List (Reply V))

/-- What an entry of a cache's agenda asks for. -/
inductive Duty (K V : Type) where
  /-- The entry that was written with the stamp may have reached its deadline. -/
  | lapse (key : K) (stamp : Nat)
  /-- The engine is to do its deferred work. -/
  | upkeep
  /-- Somebody else wants something done with the cache. -/
  | errand (script : Script (Operation K V) (Reply V) Unit)

/-- A cache in use, with a store of type `σ`. -/
structure Running (σ K V : Type) where
  store : σ
  provider : Provider
  phase : Phase
  /-- The number of calls of the listener that have not ended. -/
  dispatching : Nat
  listener : Option (Listener K V)
  /-- The calls of the listener in the order in which they started. -/
  heard : List (Heard K V)
  agenda : Agenda (Duty K V)
  /-- The agenda was supplied with the specification and outlives the cache. -/
  supplied : Bool
  /-- The clock of the host, which engines use that were given no agenda. -/
  host : Clock
  log : List LogEntry

namespace Running

variable {σ K V : Type}

instance : HasAgenda (Running σ K V) (Duty K V) where
  agenda := Running.agenda
  withAgenda w a := { w with agenda := a }

/-- Adds to the log. -/
def note (w : Running σ K V) (entry : LogEntry) : Running σ K V :=
  { w with log := w.log ++ [entry] }

/-- The number of reactions that the listener has left. -/
def depth (w : Running σ K V) : Nat :=
  match w.listener with
  | some listener => listener.reactions.length
  | none => 0

/-- Starts a call of the listener. -/
def beginCall (w : Running σ K V) (removal : Removal K V) : Running σ K V :=
  { w with heard := w.heard ++ [⟨removal, none⟩], dispatching := w.dispatching + 1 }

/-- Ends a call of the listener. A panic is logged and has no other effect; `SPEC_FULL.md`,
section 7. -/
def endCall (w : Running σ K V) (removal : Removal K V) (panic : Option Payload) :
    Running σ K V :=
  let w := { w with dispatching := w.dispatching - 1 }
  match panic with
  | none => w
  | some payload =>
    w.note ⟨.warn, "removal listener panicked; entry was removed anyway",
      [("provider", Named.name w.provider), ("cause", Named.name removal.cause),
        ("panic", payload.message)]⟩

/-- Keeps the replies to the operations of the call that started at a place of the record. -/
def keepReplies (w : Running σ K V) (place : Nat) (replies : List (Reply V)) :
    Running σ K V :=
  { w with heard := w.heard.modify place fun call ↦ { call with replies := some replies } }

end Running

end Caching
