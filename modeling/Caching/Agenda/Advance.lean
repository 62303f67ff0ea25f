import Caching.Agenda.Basic

/-!
# Advancing an agenda

The entries that come due are started one after the other, each with the clock at its due instant or
later. What they do may change the agenda that they stand on, also by advancing it themselves.
Nothing bounds the number of entries beforehand, as each may submit another: `drain` is given the
number of entries to take at most, and has no result if that does not suffice.
-/

namespace Caching

/-- States that an agenda is part of. -/
class HasAgenda (σ : Type) (B : outParam Type) where
  agenda : σ → Agenda B
  withAgenda : σ → Agenda B → σ

export HasAgenda (agenda withAgenda)

/-- Attends to one run of a body: the flag tells a chain to go on. -/
abbrev Attend (σ B : Type) := B → Nat → σ → Option (Bool × σ)

/-- A count that may be missing because of an abort, one higher. -/
def oneMore (r : Except Abort Nat × σ) : Except Abort Nat × σ :=
  (r.1.map (· + 1), r.2)

section

variable {σ B : Type} [HasAgenda σ B]

/-- Does a job whose turn has come. A chain that was cancelled does nothing more; any other one goes
on as long as its body asks for it. -/
def Job.perform (attend : Attend σ B) (job : Job B) (s : σ) :
    Option (Except Abort Unit × σ) :=
  match job with
  | .once body => (attend body 1 s).map fun r ↦ (.ok (), r.2)
  | .link chain period run body =>
    if (agenda s).isCancelled chain then some (.ok (), s)
    else
      match attend body run s with
      | none => none
      | some (false, s) => some (.ok (), s)
      | some (true, s) =>
        match (agenda s).arm chain period (run + 1) body with
        | .ok a => some (.ok (), withAgenda s a)
        | .error abort => some (.error abort, s)

/-- Takes every entry that is due within the target, `fuel` of them at most, and counts those that
were started. -/
def drain (attend : Attend σ B) (target : Option Instant) :
    Nat → σ → Option (Except Abort Nat × σ)
  | 0, _ => none
  | fuel + 1, s =>
    match (agenda s).take? target with
    | none => some (.ok 0, s)
    | some (live, entry, a) =>
      let s := withAgenda s a
      if live then
        match entry.job.perform attend s with
        | none => none
        | some (.error abort, s) => some (.error abort, s)
        | some (.ok (), s) => (drain attend target fuel s).map oneMore
      else drain attend target fuel s

/-- Lets time pass: everything that comes due is started in its order, and then the clock stands at
the end of that time. Beyond the last instant everything is started, and the clock stays where the
last entry moved it; `SPEC_FULL.md`, section 14. -/
def advance (attend : Attend σ B) (fuel : Nat) (d : Duration) (s : σ) :
    Option (Except Abort Nat × σ) :=
  match (agenda s).clock.now with
  | .error abort => some (.error abort, s)
  | .ok now =>
    let target := now.add? d
    match drain attend target fuel s with
    | none => none
    | some (.error abort, s) => some (.error abort, s)
    | some (.ok count, s) =>
      match target with
      | none => some (.ok count, s)
      | some instant =>
        let a := agenda s
        some (.ok count, withAgenda s { a with clock := a.clock.advanceTo instant })

end

end Caching
