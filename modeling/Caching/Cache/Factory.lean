import Caching.Cache.Basic

/-!
# Factories

How each provider turns a specification into a cache, or refuses it. No provider has everything: one
cannot make entries expire, another cannot bound their number, and the third takes either.
-/

namespace Caching

/-- Where the caches of a registry entry come from; `SPEC_FULL.md`, section 3. -/
inductive Factory where
  /-- The provider's own factory. -/
  | builtin (p : Provider)
  /-- A factory that refuses every specification. -/
  | refusing
  deriving DecidableEq, Repr

/-- The machine that caches are built on. -/
structure Host where
  clock : Clock
  /-- The number of entries of the largest table for which there is memory. -/
  room : Nat
  deriving DecidableEq, Repr

/-- A machine that has been up for a while, with some gigabytes left. -/
def Host.fresh : Host :=
  ⟨.fresh, 1 <<< 28⟩

/-- Why there is no cache, or the cache, and what was logged meanwhile. -/
abbrev Built (K V : Type) := Except Failure (Cache K V) × List LogEntry

namespace Factory

variable {K V : Type}

/-- A refusal. -/
def refuse (fault : Fault) : Built K V :=
  (.error (.fault fault), [])

/-- What is logged when an engine has no use for the hint of high contention; `SPEC_FULL.md`,
section 4.3. -/
def hintIgnored (p : Provider) (spec : CacheSpec K V) : List LogEntry :=
  if spec.highContention then
    [⟨.debug, "high-contention hint ignored; engine has no tuning knob",
      [("provider", Named.name p)]⟩]
  else []

/-- The bound of a specification as a number of entries. -/
def boundOf (spec : CacheSpec K V) : Option Nat :=
  spec.maxSize.map UInt64.toNat

/-- The number of entries of the largest table whose size in bytes can be told at all: seven eighths
of its `2 ^ 58` places of sixteen bytes each. Memory ends long before. -/
def largestTable : Nat := 7 <<< 55

variable [DecidableEq K]

/-- Builds a cache on the deferred engine, which takes every specification whose entries do not live
for too long. With expiry, its upkeep runs on the executor, and also without one if a listener waits
for reports; `SPEC_FULL.md`, section 11. -/
def buildDeferred (spec : CacheSpec K V) (host : Host) : Built K V :=
  let store : Deferred K V := .empty (boundOf spec) spec.engineExpiry
  let body := Running.start store .moka spec host.clock
  let log := hintIgnored .moka spec
  match spec.engineExpiry with
  | some x =>
    if Deferred.longestLife.nanos < x.time.nanos then
      (.error (.abort (.lifeRange x.resetsOnRead)), log)
    else if spec.executor.isSome || spec.listener.isSome then
      match Deferred.startUpkeep x body with
      | .ok body => (.ok ⟨.deferred, body⟩, log)
      | .error abort => (.error (.abort abort), log)
    else (.ok ⟨.deferred, body⟩, log)
  | none => (.ok ⟨.deferred, body⟩, log)

/-- Builds a cache on the recency engine, which knows no expiry. The table for as many entries as
may be stored is laid out and allocated at once; `SPEC_FULL.md`, section 11. -/
def buildRecency (spec : CacheSpec K V) (host : Host) : Built K V :=
  match (spec.expiry.map Prod.fst).bind Capability.forExpiry? with
  | some capability => refuse (.unsupportedCapability .lru capability)
  | none =>
    let store : Recency K V := .empty (boundOf spec)
    let cache : Cache K V := ⟨.recency, Running.start store .lru spec host.clock⟩
    match boundOf spec with
    | some 0 =>
      refuse (.invalidSpecification "maximum size 0 is out of range for the lru provider")
    | some bound =>
      if largestTable < bound then (.error (.abort .tableRange), [])
      else if host.room < bound then (.error (.abort .outOfMemory), [])
      else (.ok cache, hintIgnored .lru spec)
    | none => (.ok cache, hintIgnored .lru spec)

/-- Builds a cache on the timed engine, which knows no bound. With expiry and without an executor it
keeps a schedule of its own; `SPEC_FULL.md`, section 11. -/
def buildTimed (spec : CacheSpec K V) (host : Host) : Built K V :=
  match spec.maxSize with
  | some _ => refuse (.unsupportedCapability .dashMap .sizeBound)
  | none =>
    let store : Timed K V := .empty spec.engineExpiry
    let body := Running.start store .dashMap spec host.clock
    let log : List LogEntry :=
      if Timed.ownsSchedule body then
        [⟨.debug, "started dedicated scheduler runtime", [("scheduler", Timed.scheduleName)]⟩]
      else []
    (.ok ⟨.timed, body⟩, log)

/-- Builds a cache. -/
def build (factory : Factory) (spec : CacheSpec K V) (host : Host) : Built K V :=
  match factory with
  | .builtin .moka => buildDeferred spec host
  | .builtin .lru => buildRecency spec host
  | .builtin .dashMap => buildTimed spec host
  | .refusing => refuse .noProviderAvailable

end Factory

end Caching
