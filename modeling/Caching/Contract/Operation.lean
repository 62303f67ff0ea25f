import Caching.Abort
import Caching.Fault
import Caching.Vocabulary.RemovalCause

/-!
# The cache contract

The operations that every cache offers, whatever engine stands behind it, and their answers.
Functions that an operation is given may give up, which aborts the operation.
-/

namespace Caching

/-- Whether a cache still serves operations; `SPEC_FULL.md`, section 4.3. -/
inductive Phase where
  | active
  | closed
  deriving DecidableEq, Repr

namespace Phase

/-- The name of the phase. -/
def name : Phase → String
  | active => "active"
  | closed => "closed"

/-- The phase as diagnostic output shows it. -/
def tag : Phase → String
  | active => "Active"
  | closed => "Closed"

end Phase

/-- An operation on a cache; `SPEC_FULL.md`, sections 6 and 12. -/
inductive Operation (K V : Type) where
  /-- The value of a key. -/
  | get (key : K)
  /-- Stores a value; answers the one it replaced. -/
  | put (key : K) (value : V)
  /-- Stores a value unless there is one, which is then the answer. -/
  | putIfAbsent (key : K) (value : V)
  /-- Stores a value only over another one, which is then the answer. -/
  | replace (key : K) (value : V)
  /-- Stores a value only over the expected one; answers whether it did. -/
  | replaceIf (key : K) (expected value : V)
  /-- Maps the current value, if any, to the new one, if any, and answers that. -/
  | compute (key : K) (remap : Option V → Except Abort (Option V))
  /-- Maps the current value to the new one, if any, and answers that. -/
  | computeIfPresent (key : K) (remap : V → Except Abort (Option V))
  /-- Stores a value, or what the current one and it combine to; answers the new value. -/
  | merge (key : K) (value : V) (combine : V → V → Except Abort (Option V))
  /-- Removes a key; answers its value. -/
  | remove (key : K)
  | containsKey (key : K)
  | size
  | clear
  | close
  | state
  | provider

/-- What an operation that succeeds answers. -/
inductive Answer (V : Type) where
  | value (v : Option V)
  | flag (b : Bool)
  | count (n : Nat)
  | done
  | phase (p : Phase)
  | provider (p : Provider)
  deriving DecidableEq, Repr

/-- Why an operation has no answer. -/
inductive Failure where
  | fault (f : Fault)
  | abort (a : Abort)
  deriving DecidableEq, Repr

/-- The reply to an operation: its outcome, and the current values that a function it was given has
been shown, none or one of them. -/
structure Reply (V : Type) where
  outcome : Except Failure (Answer V)
  shown : List (Option V)
  deriving Repr

namespace Reply

variable {V : Type}

instance [DecidableEq V] : DecidableEq (Reply V)
  | ⟨.ok a, shown⟩, ⟨.ok b, shown'⟩ => decidable_of_iff (a = b ∧ shown = shown') (by simp)
  | ⟨.error a, shown⟩, ⟨.error b, shown'⟩ => decidable_of_iff (a = b ∧ shown = shown') (by simp)
  | ⟨.ok _, _⟩, ⟨.error _, _⟩ => isFalse (by simp)
  | ⟨.error _, _⟩, ⟨.ok _, _⟩ => isFalse (by simp)

/-- A success that consulted no function. -/
def ok (answer : Answer V) : Reply V :=
  ⟨.ok answer, []⟩

/-- A failure. -/
def failed (failure : Failure) : Reply V :=
  ⟨.error failure, []⟩

/-- Any use of a closed cache but another `close`. -/
def refused (provider : Provider) : Reply V :=
  failed (.fault (.closedCache provider))

end Reply

/-- What to do with an entry after seeing its current value. -/
inductive Change (V : Type) where
  | keep
  | store (value : V)
  | remove
  deriving DecidableEq, Repr

namespace Change

variable {V : Type}

/-- A remapping function stores what it gives and removes when it gives nothing. -/
def ofRemapped : Option V → Change V
  | some value => store value
  | none => remove

end Change

/-- The live value before a change, which the decision was shown, and the value after it. -/
structure Altered (V : Type) where
  previous : Option V
  current : Option V
  deriving DecidableEq, Repr

/-- An entry that left a cache, and why; `SPEC_FULL.md`, section 3. -/
structure Removal (K V : Type) where
  key : K
  value : V
  cause : RemovalCause
  deriving DecidableEq, Repr

end Caching
