import Caching.Engine.Keyed
import Caching.Running.Engine

/-!
# The recency engine

Keeps its entries in the order in which they were last touched. When a new key is stored beyond the
bound, the entry that was touched longest ago has to leave. Nothing ever expires.
-/

namespace Caching

/-- Entries from the least to the most recently touched one, and how many there may be;
`SPEC_FULL.md`, section 11. -/
structure Recency (K V : Type) where
  bound : Option Nat
  entries : List (K × V)
  deriving DecidableEq, Repr

namespace Recency

variable {K V : Type} [DecidableEq K]

/-- A store without entries. -/
def empty (bound : Option Nat) : Recency K V :=
  ⟨bound, []⟩

/-- There is no room for a new key. -/
def isFull (s : Recency K V) : Bool :=
  match s.bound with
  | some bound => decide (bound ≤ s.entries.length)
  | none => false

/-- The value of a key. -/
def find? (s : Recency K V) (key : K) : Option V :=
  Keyed.find? key s.entries

/-- Makes a key the most recently touched one, if it is there. -/
def touch (s : Recency K V) (key : K) : Recency K V :=
  match s.find? key with
  | some value => { s with entries := Keyed.moveToEnd key value s.entries }
  | none => s

/-- Stores a value, and gives the entry that has to leave: the old one of the same key, or the least
recently touched one if a new key finds no room. -/
def push (s : Recency K V) (key : K) (value : V) : Option (K × V) × Recency K V :=
  match s.find? key with
  | some old => (some (key, old), { s with entries := Keyed.moveToEnd key value s.entries })
  | none =>
    match s.isFull, s.entries with
    | true, oldest :: rest => (some oldest, { s with entries := rest ++ [(key, value)] })
    | _, entries => (none, { s with entries := entries ++ [(key, value)] })

/-- Takes a key out. -/
def pop (s : Recency K V) (key : K) : Option V × Recency K V :=
  (s.find? key, { s with entries := Keyed.erase key s.entries })

/-- Reports the entry that left for another one; answers its value if that was the value of the same
key. -/
def settle (report : Report (Recency K V) K V) (key : K) (displaced : Option (K × V))
    (w : Running (Recency K V) K V) : Option V × Running (Recency K V) K V :=
  match displaced with
  | none => (none, w)
  | some (oldKey, old) =>
    if oldKey = key then (some old, report ⟨oldKey, old, .replaced⟩ w)
    else (none, report ⟨oldKey, old, .size⟩ w)

/-- Stores a value and reports the entry that has to leave. -/
def store (report : Report (Recency K V) K V) (key : K) (value : V)
    (w : Running (Recency K V) K V) : Option V × Running (Recency K V) K V :=
  let (displaced, s) := w.store.push key value
  settle report key displaced { w with store := s }

/-- Takes a key out and reports it. -/
def drop (report : Report (Recency K V) K V) (key : K) (w : Running (Recency K V) K V) :
    Option V × Running (Recency K V) K V :=
  let (popped, s) := w.store.pop key
  let w := { w with store := s }
  match popped with
  | some value => (some value, report ⟨key, value, .explicit⟩ w)
  | none => (none, w)

instance : Engine (Recency K V) K V where
  reading w := .ok w.host.start
  get _ _ key w := (w.store.find? key, { w with store := w.store.touch key })
  put report _ key value w := store report key value w
  putIfAbsent report _ key value w :=
    match w.store.find? key with
    | some current => (some current, { w with store := w.store.touch key })
    | none => (none, (store report key value w).2)
  replace report _ key value w :=
    match w.store.find? key with
    | some _ => store report key value w
    | none => (none, w)
  alter report _ key decide w :=
    let previous := w.store.find? key
    let w := { w with store := w.store.touch key }
    match decide previous with
    | .error abort => (.error abort, w)
    | .ok .keep => (.ok ⟨previous, previous⟩, w)
    | .ok (.store value) => (.ok ⟨previous, some value⟩, (store report key value w).2)
    | .ok .remove => (.ok ⟨previous, none⟩, (drop report key w).2)
  remove report _ key w := drop report key w
  containsKey _ key w := (w.store.find? key).isSome
  size _ _ w := (w.store.entries.length, w)
  clear report _ w :=
    w.store.entries.foldl (fun w e ↦ report ⟨e.1, e.2, .explicit⟩ w)
      { w with store := { w.store with entries := [] } }
  teardown w := { w with store := { w.store with entries := [] } }
  farewell w := [⟨.debug, "cache closed", [("provider", Named.name w.provider)]⟩]
  lapse _ _ _ w := w
  upkeep _ w := w

end Recency

end Caching
