import Caching.Worker.Pool

/-!
# Waiting for a run

What an onlooker sees who waits for an assignment: the assignments of all workers are started in the
order in which they come due, each run takes a moment, and nobody waits for anything as long as a
minute.
-/

namespace Caching.Pool

/-- Nobody waits that long. -/
def patience : Nat := 60 * nanosPerSecond

/-- The time between two starts. -/
def moment : Nat := 1000

/-- The assignment that comes due first, among those that come due soon. -/
def next? (p : Pool) : Option (Nat × Nat) :=
  (List.range p.assignments.length).foldl (fun best i ↦
    match p.assignments[i]?.bind Assignment.due with
    | none => best
    | some due =>
      if p.now + patience ≤ due then best
      else
        match best with
        | some (j, earliest) => if due < earliest then some (i, due) else some (j, earliest)
        | none => some (i, due)) none

/-- Waits until an assignment has run that often, and tells whether it did; ends also when it was
cancelled or its worker stopped, or when nothing comes due any more. At most `starts` assignments
are started meanwhile. -/
def wait (label : String) (count : Nat) : Nat → Pool → Bool × Pool
  | 0, p => (decide (count ≤ p.runs label), p)
  | starts + 1, p =>
    match p.assignment? label with
    | none => (false, p)
    | some (_, a) =>
      if count ≤ a.runs then (true, p)
      else if !p.mayRun a then (false, p)
      else
        match p.next? with
        | none => (false, p)
        | some (i, due) =>
          wait label count starts
            (finish i (start i { p with now := max (p.now + moment) due }))

end Caching.Pool
