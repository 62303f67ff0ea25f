import Caching.Contract.Derived
import Caching.Running.Basic

/-!
# Engines

What an engine has to provide, and how the contract is served by it. All operations are refused once
the cache is closed. Those that depend on the current value are built on one primitive of the
engine, which shows the live value to a decision and carries the decision out.

An engine reports removals in the middle of its operations. The report may run a reaction of the
listener, which performs operations of its own, which report in their turn. As each reaction is used
up by its call, reports are defined by recursion on the number of reactions left.
-/

namespace Caching

/-- Tells the listener of a removal. -/
abbrev Report (σ K V : Type) := Removal K V → Running σ K V → Running σ K V

/-- A cache engine. Every operation is given the instant at which it is performed; `SPEC_FULL.md`,
section 4.3. -/
class Engine (σ K V : Type) where
  /-- The instant at which an operation is performed now. -/
  reading : Running σ K V → Except Abort Instant
  get : Report σ K V → Instant → K → Running σ K V → Option V × Running σ K V
  put : Report σ K V → Instant → K → V → Running σ K V → Option V × Running σ K V
  putIfAbsent : Report σ K V → Instant → K → V → Running σ K V → Option V × Running σ K V
  replace : Report σ K V → Instant → K → V → Running σ K V → Option V × Running σ K V
  /-- Shows the live value of a key to a decision and carries it out. An abort of the decision
  leaves the entries as they are. -/
  alter : Report σ K V → Instant → K → (Option V → Except Abort (Change V)) → Running σ K V →
    Except Abort (Altered V) × Running σ K V
  remove : Report σ K V → Instant → K → Running σ K V → Option V × Running σ K V
  containsKey : Instant → K → Running σ K V → Bool
  size : Report σ K V → Instant → Running σ K V → Nat × Running σ K V
  clear : Report σ K V → Instant → Running σ K V → Running σ K V
  /-- Drops all entries and everything scheduled for them, without a report. -/
  teardown : Running σ K V → Running σ K V
  /-- What the log says when the cache is closed. -/
  farewell : Running σ K V → List LogEntry
  /-- Removes the entry written with the stamp if it has reached its deadline. -/
  lapse : Report σ K V → K → Nat → Running σ K V → Running σ K V
  /-- Does the deferred work. -/
  upkeep : Report σ K V → Running σ K V → Running σ K V

namespace Running

variable {σ K V : Type} [Engine σ K V]

/-- An operation of an open cache, at the instant at which it is performed. -/
def guarded (w : Running σ K V) (serve : Instant → Reply V × Running σ K V) :
    Reply V × Running σ K V :=
  match w.phase with
  | .closed => (.refused w.provider, w)
  | .active =>
    match Engine.reading w with
    | .error abort => (.failed (.abort abort), w)
    | .ok now => serve now

/-- The reply that answers a value. -/
def valued (r : Option V × Running σ K V) : Reply V × Running σ K V :=
  (.ok (.value r.1), r.2)

/-- The reply that answers the value after a change, and tells which values were shown. -/
def altered (shown : Option V → List (Option V))
    (r : Except Abort (Altered V) × Running σ K V) : Reply V × Running σ K V :=
  match r.1 with
  | .ok change => (⟨.ok (.value change.current), shown change.previous⟩, r.2)
  | .error abort => (.failed (.abort abort), r.2)

/-- Closes the cache for good: nothing is reported any more. Closing it again has no effect;
`SPEC_FULL.md`, section 12. -/
def close (w : Running σ K V) : Running σ K V :=
  match w.phase with
  | .closed => w
  | .active =>
    let w := Engine.teardown { w with phase := .closed }
    { w with log := w.log ++ Engine.farewell w }

/-- Lets go of a cache that nobody uses any more. -/
def release (w : Running σ K V) : Running σ K V :=
  match w.phase with
  | .closed => w
  | .active => Engine.teardown { w with phase := .closed }

/-- Stores over an expected value only. -/
def replaceExpected [DecidableEq V] (expected value : V) (current : Option V) : Change V :=
  if current = some expected then .store value else .keep

/-- Maps a value that is there, and leaves an absent one alone. -/
def mapPresent (remap : V → Except Abort (Option V)) : Option V → Except Abort (Change V)
  | some current => (remap current).map .ofRemapped
  | none => .ok .keep

/-- Combines a value that is there with another one, which is stored if there is none. -/
def combined (value : V) (combine : V → V → Except Abort (Option V)) :
    Option V → Except Abort (Change V)
  | some current => (combine current value).map .ofRemapped
  | none => .ok (.store value)

/-- Performs an operation, with a given way to report removals; `SPEC_FULL.md`, section 12. -/
def performWith [DecidableEq V] (report : Report σ K V) (operation : Operation K V)
    (w : Running σ K V) : Reply V × Running σ K V :=
  match operation with
  | .get key => w.guarded fun now ↦ valued (Engine.get report now key w)
  | .put key value => w.guarded fun now ↦ valued (Engine.put report now key value w)
  | .putIfAbsent key value => w.guarded fun now ↦ valued (Engine.putIfAbsent report now key value w)
  | .replace key value => w.guarded fun now ↦ valued (Engine.replace report now key value w)
  | .replaceIf key expected value => w.guarded fun now ↦
    match Engine.alter report now key (fun v ↦ .ok (replaceExpected expected value v)) w with
    | (.ok change, w) => (.ok (.flag (decide (change.previous = some expected))), w)
    | (.error abort, w) => (.failed (.abort abort), w)
  | .compute key remap => w.guarded fun now ↦
    altered (fun v ↦ [v]) (Engine.alter report now key (fun v ↦ (remap v).map .ofRemapped) w)
  | .computeIfPresent key remap => w.guarded fun now ↦
    altered (fun v ↦ v.toList.map some) (Engine.alter report now key (mapPresent remap) w)
  | .merge key value combine => w.guarded fun now ↦
    altered (fun v ↦ v.toList.map some) (Engine.alter report now key (combined value combine) w)
  | .remove key => w.guarded fun now ↦ valued (Engine.remove report now key w)
  | .containsKey key => w.guarded fun now ↦ (.ok (.flag (Engine.containsKey now key w)), w)
  | .size => w.guarded fun now ↦
    let (n, w) := Engine.size report now w
    (.ok (.count n), w)
  | .clear => w.guarded fun now ↦ (.ok .done, Engine.clear report now w)
  | .close => (.ok .done, w.close)
  | .state => (.ok (.phase w.phase), w)
  | .provider => (.ok (.provider w.provider), w)

/-- Tells the listener of a removal, unless the cache is closed. The number bounds the reactions
that the listener may use, here and in what its reactions cause; a call that has no reaction left
only records the removal; `SPEC_FULL.md`, section 12. -/
def reportAt [DecidableEq V] : Nat → Report σ K V
  | bound, removal, w =>
    match w.listener, w.phase with
    | none, _ | _, .closed => w
    | some listener, .active =>
      let place := w.heard.length
      let w := w.beginCall removal
      match bound, listener.reactions with
      | bound + 1, reaction :: rest =>
        let (verdict, w) := (reaction removal).run (performWith (reportAt bound))
          { w with listener := some { listener with reactions := rest } }
        (w.keepReplies place verdict.replies).endCall removal verdict.panic
      | _, _ => w.endCall removal (listener.lasting removal)

variable [DecidableEq V]

/-- Tells the listener of a removal. -/
def report (w : Running σ K V) : Report σ K V :=
  reportAt w.depth

/-- Performs an operation. -/
def perform (operation : Operation K V) (w : Running σ K V) : Reply V × Running σ K V :=
  performWith w.report operation w

/-- Runs a script of operations. -/
def follow {α : Type} (script : Script (Operation K V) (Reply V) α) (w : Running σ K V) :
    α × Running σ K V :=
  script.run perform w

/-- Attends to a duty. Upkeep goes on until the cache is closed. -/
def attend : Attend (Running σ K V) (Duty K V) :=
  fun duty _ w ↦
    match duty, w.phase with
    | .lapse key stamp, _ => some (false, Engine.lapse w.report key stamp w)
    | .upkeep, .active => some (true, Engine.upkeep w.report w)
    | .upkeep, .closed => some (false, w)
    | .errand script, _ => some (false, (w.follow script).2)

/-- Lets time pass on the agenda of the cache, taking `fuel` entries at most. -/
def advance (fuel : Nat) (d : Duration) (w : Running σ K V) :
    Option (Except Abort Nat × Running σ K V) :=
  Caching.advance attend fuel d w

end Running

end Caching
