import Caching.Engine.Keyed
import Caching.Running.Engine
import Caching.Vocabulary.ExpiryType

/-!
# The timed engine

Keeps any number of entries, each with the instant from which it has lapsed. Every write schedules a
duty for its deadline, but nothing depends on the duty being attended to: whoever meets a lapsed
entry treats it as absent and removes it. Reads may push the deadline back without touching the
schedule; the duty, when its time comes, is then scheduled anew.
-/

namespace Caching

/-- An entry's value with the stamp of its write, its deadline, if there is one, and the handle of
the duty that was scheduled for it. -/
structure Slot (V : Type) where
  value : V
  stamp : Nat
  deadline : Option Instant
  timer : Option Handle
  deriving DecidableEq, Repr

/-- The entry has lapsed at the instant. -/
def Slot.isLapsed {V : Type} (slot : Slot V) (now : Instant) : Bool :=
  match slot.deadline with
  | some deadline => decide (deadline ≤ now)
  | none => false

/-- Entries with deadlines. `nextStamp` counts the writes; `SPEC_FULL.md`, section 11. -/
structure Timed (K V : Type) where
  expiry : Option Expiry
  entries : List (K × Slot V)
  nextStamp : Nat
  deriving DecidableEq, Repr

namespace Timed

variable {K V : Type} [DecidableEq K]

/-- A store without entries. -/
def empty (expiry : Option Expiry) : Timed K V :=
  ⟨expiry, [], 0⟩

/-- What is stored under a key, lapsed or not. -/
def find? (s : Timed K V) (key : K) : Option (Slot V) :=
  Keyed.find? key s.entries

/-- What is stored under a key and has not lapsed. -/
def live? (s : Timed K V) (now : Instant) (key : K) : Option (Slot V) :=
  (s.find? key).filter fun slot ↦ !slot.isLapsed now

/-- The deadline of an entry whose time starts now. An entry whose deadline would be beyond the last
instant has none. -/
def deadlineFrom (s : Timed K V) (now : Instant) : Option Instant :=
  s.expiry.bind fun e ↦ now.add? e.time

/-- Reads restart the time of an entry. -/
def resetsOnRead (s : Timed K V) : Bool :=
  match s.expiry with
  | some e => e.resetsOnRead
  | none => false

/-- Replaces what is stored under a key. -/
def set (s : Timed K V) (key : K) (slot : Slot V) : Timed K V :=
  { s with entries := Keyed.insert key slot s.entries }

/-- Takes a key out. -/
def erase (s : Timed K V) (key : K) : Timed K V :=
  { s with entries := Keyed.erase key s.entries }

/-- Cancels the duty of a slot that is no longer stored. -/
def disarm (slot : Slot V) (w : Running (Timed K V) K V) : Running (Timed K V) K V :=
  match slot.timer with
  | some handle => { w with agenda := w.agenda.cancel handle }
  | none => w

/-- Schedules the duty of the entry written with the stamp. -/
def arm (key : K) (stamp : Nat) (delay : Duration) (w : Running (Timed K V) K V) :
    Running (Timed K V) K V :=
  match w.store.expiry, w.agenda.schedule delay (.lapse key stamp), w.store.find? key with
  | some _, .ok (handle, agenda), some slot =>
    if slot.stamp = stamp then
      { w with agenda, store := w.store.set key { slot with timer := some handle } }
    else { w with agenda := agenda.cancel handle }
  | some _, .ok (handle, agenda), none => { w with agenda := agenda.cancel handle }
  | _, _, _ => w

/-- Writes an entry and schedules its duty. The stamp is drawn here, once it is clear that something
is stored. Stamps are only ever compared with each other, so nobody could tell if others had been
drawn in vain before. -/
def write (now : Instant) (key : K) (value : V) (w : Running (Timed K V) K V) :
    Running (Timed K V) K V :=
  let s := w.store
  let slot : Slot V := ⟨value, s.nextStamp, s.deadlineFrom now, none⟩
  let w := { w with store := { s.set key slot with nextStamp := s.nextStamp + 1 } }
  match s.expiry with
  | some e => arm key slot.stamp e.time w
  | none => w

/-- Reports a slot that was taken out; answers its value unless it had lapsed. -/
def retire (report : Report (Timed K V) K V) (now : Instant) (key : K) (cause : RemovalCause)
    (slot : Slot V) (w : Running (Timed K V) K V) : Option V × Running (Timed K V) K V :=
  let w := disarm slot w
  if slot.isLapsed now then (none, report ⟨key, slot.value, .expired⟩ w)
  else (some slot.value, report ⟨key, slot.value, cause⟩ w)

/-- Takes a key out and reports it. -/
def drop (report : Report (Timed K V) K V) (now : Instant) (key : K)
    (w : Running (Timed K V) K V) : Option V × Running (Timed K V) K V :=
  match w.store.find? key with
  | some slot => retire report now key .explicit slot { w with store := w.store.erase key }
  | none => (none, w)

/-- Takes a key out if it has lapsed. -/
def expire (report : Report (Timed K V) K V) (now : Instant) (key : K)
    (w : Running (Timed K V) K V) : Running (Timed K V) K V :=
  match w.store.find? key with
  | some slot => if slot.isLapsed now then (drop report now key w).2 else w
  | none => w

/-- Writes over whatever is stored under the key, and reports that. -/
def overwrite (report : Report (Timed K V) K V) (now : Instant) (key : K) (value : V)
    (w : Running (Timed K V) K V) : Option V × Running (Timed K V) K V :=
  let old := w.store.find? key
  let w := write now key value w
  match old with
  | some slot => retire report now key .replaced slot w
  | none => (none, w)

/-- The name of the schedule that an engine keeps for itself. -/
def scheduleName : String := "omnicache-dashmap-expiry"

/-- The engine keeps a schedule for itself: entries expire, and no agenda was supplied. -/
def ownsSchedule (w : Running (Timed K V) K V) : Bool :=
  !w.supplied && w.store.expiry.isSome

/-- Shuts down a schedule of the engine's own; `SPEC_FULL.md`, section 4.3. -/
def endSchedule (w : Running (Timed K V) K V) : Running (Timed K V) K V :=
  if ownsSchedule w then
    { w with agenda := w.agenda.shutdown }.note
      ⟨.debug, "stopped dedicated scheduler runtime", [("scheduler", scheduleName)]⟩
  else w

/-- The keys that have lapsed. -/
def lapsedKeys (s : Timed K V) (now : Instant) : List K :=
  (s.entries.filter fun e ↦ e.2.isLapsed now).map Prod.fst

/-- The duty of an entry: it is removed if its deadline has been reached, and the duty is scheduled
anew if reads have pushed the deadline back. -/
def lapseEntry (report : Report (Timed K V) K V) (key : K) (stamp : Nat)
    (w : Running (Timed K V) K V) : Running (Timed K V) K V :=
  match w.agenda.clock.now, w.store.find? key with
  | .ok now, some slot =>
    if slot.stamp = stamp then
      match slot.deadline with
      | some deadline =>
        if deadline ≤ now then
          report ⟨key, slot.value, .expired⟩ { w with store := w.store.erase key }
        else arm key stamp (deadline.since now) w
      | none => w
    else w
  | _, _ => w

instance : Engine (Timed K V) K V where
  reading w :=
    match w.store.expiry with
    | some _ => w.agenda.clock.now
    | none => .ok w.host.start
  get report now key w :=
    match w.store.live? now key with
    | some slot =>
      if w.store.resetsOnRead then
        (some slot.value,
          { w with store := w.store.set key { slot with deadline := w.store.deadlineFrom now } })
      else (some slot.value, w)
    | none => (none, expire report now key w)
  put := overwrite
  putIfAbsent report now key value w :=
    match w.store.live? now key with
    | some slot => (some slot.value, w)
    | none => (none, (overwrite report now key value w).2)
  replace report now key value w :=
    match w.store.live? now key with
    | some _ => overwrite report now key value w
    | none => (none, expire report now key w)
  alter report now key decide w :=
    let previous := (w.store.live? now key).map Slot.value
    match decide previous with
    | .error abort => (.error abort, w)
    | .ok .keep => (.ok ⟨previous, previous⟩, expire report now key w)
    | .ok (.store value) => (.ok ⟨previous, some value⟩, (overwrite report now key value w).2)
    | .ok .remove => (.ok ⟨previous, none⟩, (drop report now key w).2)
  remove := drop
  containsKey now key w := (w.store.live? now key).isSome
  size report now w :=
    let w := (w.store.lapsedKeys now).foldl (fun w key ↦ expire report now key w) w
    (w.store.entries.length, w)
  clear report now w :=
    (w.store.entries.map Prod.fst).foldl (fun w key ↦ (drop report now key w).2) w
  teardown w :=
    let w := w.store.entries.foldl (fun w e ↦ disarm e.2 w) w
    endSchedule { w with store := { w.store with entries := [] } }
  farewell w :=
    [⟨.debug, "cache closed",
      [("provider", Named.name w.provider),
        ("owns_scheduler", toString (ownsSchedule w))]⟩]
  lapse := lapseEntry
  upkeep _ w := w

end Timed

end Caching
