import Caching.Engine.Keyed
import Caching.Running.Engine
import Caching.Vocabulary.ExpiryType

/-!
# The deferred engine

Answers as if every change took effect at once, but leaves part of the work for later: entries that
were cleared, entries that have lapsed and entries beyond the bound are removed and reported only by
maintenance. Maintenance is part of `size` and `clear`, and of the upkeep duty. It does not run
inside a report, as it may be what makes the report; there `size` answers what the last maintenance
counted.
-/

namespace Caching

/-- An entry's value, with the instants of its last write and of its last use. -/
structure Stamped (V : Type) where
  value : V
  written : Instant
  used : Instant
  deriving DecidableEq, Repr

/-- Entries from the least to the most recently used one. `doomed` are the entries that were cleared
and not reported yet, `counted` is what the last maintenance counted, `chain` the handle of the
upkeep; `SPEC_FULL.md`, section 11. -/
structure Deferred (K V : Type) where
  bound : Option Nat
  expiry : Option Expiry
  entries : List (K × Stamped V)
  doomed : List (K × Stamped V)
  counted : Nat
  chain : Option Handle
  deriving DecidableEq, Repr

namespace Deferred

variable {K V : Type} [DecidableEq K]

/-- A store without entries. -/
def empty (bound : Option Nat) (expiry : Option Expiry) : Deferred K V :=
  ⟨bound, expiry, [], [], 0, none⟩

/-- The entry has lapsed: its time has passed since it was last written, or last used if uses count.
-/
def isLapsed (s : Deferred K V) (now : Instant) (e : Stamped V) : Bool :=
  match s.expiry with
  | some x =>
    let since := if x.resetsOnRead then e.used else e.written
    decide (x.time.nanos ≤ (now.since since).nanos)
  | none => false

/-- What is stored under a key, lapsed or not. -/
def find? (s : Deferred K V) (key : K) : Option (Stamped V) :=
  Keyed.find? key s.entries

/-- What is stored under a key and has not lapsed. -/
def live? (s : Deferred K V) (now : Instant) (key : K) : Option (Stamped V) :=
  (s.find? key).filter fun e ↦ !s.isLapsed now e

/-- Marks the use of an entry. -/
def touch (s : Deferred K V) (now : Instant) (key : K) : Deferred K V :=
  match s.live? now key with
  | some e => { s with entries := Keyed.moveToEnd key { e with used := now } s.entries }
  | none => s

/-- The reason for taking out an entry that may have lapsed. -/
def cause (s : Deferred K V) (now : Instant) (e : Stamped V) (otherwise : RemovalCause) :
    RemovalCause :=
  if s.isLapsed now e then .expired else otherwise

/-- Stores a value and reports what it stands in place of. -/
def store (report : Report (Deferred K V) K V) (now : Instant) (key : K) (value : V)
    (w : Running (Deferred K V) K V) : Running (Deferred K V) K V :=
  let s := w.store
  let w := { w with
    store := { s with entries := Keyed.moveToEnd key ⟨value, now, now⟩ s.entries } }
  match s.find? key with
  | some old => report ⟨key, old.value, s.cause now old .replaced⟩ w
  | none => w

/-- Takes a key out and reports it. -/
def drop (report : Report (Deferred K V) K V) (now : Instant) (key : K)
    (otherwise : RemovalCause) (w : Running (Deferred K V) K V) :
    Option V × Running (Deferred K V) K V :=
  let s := w.store
  match s.find? key with
  | some e =>
    (some e.value, report ⟨key, e.value, s.cause now e otherwise⟩
      { w with store := { s with entries := Keyed.erase key s.entries } })
  | none => (none, w)

/-- Takes a key out if it has lapsed. -/
def expire (report : Report (Deferred K V) K V) (now : Instant) (key : K)
    (w : Running (Deferred K V) K V) : Running (Deferred K V) K V :=
  match w.store.find? key with
  | some e => if w.store.isLapsed now e then (drop report now key .expired w).2 else w
  | none => w

/-- There are more entries than may stay. -/
def isOver (s : Deferred K V) : Bool :=
  match s.bound with
  | some bound => decide (bound < s.entries.length)
  | none => false

/-- Takes out the entry that was used longest ago, if there are too many. -/
def evict (report : Report (Deferred K V) K V) (now : Instant) (w : Running (Deferred K V) K V) :
    Running (Deferred K V) K V :=
  match w.store.isOver, w.store.entries with
  | true, (key, _) :: _ => (drop report now key .size w).2
  | _, _ => w

/-- Reports the entries that were cleared. -/
def bury (report : Report (Deferred K V) K V) (now : Instant) (w : Running (Deferred K V) K V) :
    Running (Deferred K V) K V :=
  let s := w.store
  s.doomed.foldl (fun w e ↦ report ⟨e.1, e.2.value, s.cause now e.2 .explicit⟩ w)
    { w with store := { s with doomed := [] } }

/-- Maintenance: whatever was cleared, has lapsed or is too much goes, in this order. -/
def maintain (report : Report (Deferred K V) K V) (now : Instant)
    (w : Running (Deferred K V) K V) : Running (Deferred K V) K V :=
  let w := bury report now w
  let w := (w.store.entries.map Prod.fst).foldl (fun w key ↦ expire report now key w) w
  let w := (List.range w.store.entries.length).foldl (fun w _ ↦ evict report now w) w
  { w with store := { w.store with counted := w.store.entries.length } }

/-- Maintenance, unless a report is being made. -/
def maintainOutside (report : Report (Deferred K V) K V) (now : Instant)
    (w : Running (Deferred K V) K V) : Running (Deferred K V) K V :=
  if w.dispatching = 0 then maintain report now w else w

instance : Engine (Deferred K V) K V where
  reading w := w.host.now
  get _ now key w :=
    ((w.store.live? now key).map Stamped.value, { w with store := w.store.touch now key })
  put report now key value w :=
    ((w.store.live? now key).map Stamped.value, store report now key value w)
  putIfAbsent report now key value w :=
    match w.store.live? now key with
    | some e => (some e.value, { w with store := w.store.touch now key })
    | none => (none, store report now key value w)
  replace report now key value w :=
    match w.store.live? now key with
    | some e => (some e.value, store report now key value w)
    | none => (none, w)
  alter report now key decide w :=
    let previous := (w.store.live? now key).map Stamped.value
    let w := { w with store := w.store.touch now key }
    match decide previous with
    | .error abort => (.error abort, w)
    | .ok .keep => (.ok ⟨previous, previous⟩, w)
    | .ok (.store value) => (.ok ⟨previous, some value⟩, store report now key value w)
    | .ok .remove =>
      match previous with
      | some _ => (.ok ⟨previous, none⟩, (drop report now key .explicit w).2)
      | none => (.ok ⟨none, none⟩, w)
  remove report now key w := drop report now key .explicit w
  containsKey now key w := (w.store.live? now key).isSome
  size report now w :=
    let w := maintainOutside report now w
    (w.store.counted, w)
  clear report now w :=
    let s := w.store
    maintainOutside report now
      { w with store := { s with entries := [], doomed := s.doomed ++ s.entries } }
  teardown w :=
    let s := w.store
    let w := { w with store := { s with entries := [], doomed := [], counted := 0 } }
    match s.chain with
    | some chain => { w with agenda := w.agenda.cancel chain }
    | none => w
  farewell w := [⟨.debug, "cache closed", [("provider", Named.name w.provider)]⟩]
  lapse _ _ _ w := w
  upkeep report w :=
    match w.host.now with
    | .ok now => maintain report now w
    | .error _ => w

/-- The longest life of an entry that the engine allows: a thousand years of 365 days. -/
def longestLife : Duration :=
  ⟨1000 * 365 * 24 * 60 * 60 * nanosPerSecond, by decide⟩

/-- The shortest time between two runs of the upkeep. -/
def shortestPeriod : Duration := .ofMillis 10

/-- The longest time between two runs of the upkeep. -/
def longestPeriod : Duration := .ofMillis 1000

/-- The time between two runs of the upkeep: a quarter of the life of an entry, within limits;
`SPEC_FULL.md`, section 11. -/
def upkeepPeriod (x : Expiry) : Duration :=
  ((x.time.quotient 4).longer shortestPeriod).shorter longestPeriod

/-- Starts the upkeep. -/
def startUpkeep (x : Expiry) (w : Running (Deferred K V) K V) :
    Except Abort (Running (Deferred K V) K V) := do
  let (chain, agenda) ← w.agenda.scheduleRepeating (upkeepPeriod x) .upkeep
  return { w with agenda, store := { w.store with chain := some chain } }

end Deferred

end Caching
