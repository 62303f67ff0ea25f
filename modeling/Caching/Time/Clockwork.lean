import Caching.Time.Clock

/-!
# Clockworks

A clock can be held in several places. Each holder has a dial, which keeps the instant at which the
clock was started, and behind the dials are the counters that drive them. A copy of a dial keeps the
same instant and is driven by the same counter, so that a clock which is moved on in one place is
moved on in all of them. Every other dial has a counter of its own.
-/

namespace Caching

namespace Clock

/-- What can be asked of a clock. -/
inductive Request where
  | advance (d : Duration)
  | advanceTo (instant : Instant)
  | elapsed
  | now
  deriving DecidableEq, Repr

/-- What a clock answers. -/
inductive Answer where
  | done
  | elapsed (d : Duration)
  | now (instant : Instant)
  | aborted (abort : Abort)
  /-- Nobody holds a clock there. -/
  | unknown
  deriving DecidableEq, Repr

/-- Does what is asked. A request that aborts leaves the clock where it was. -/
def serve (c : Clock) : Request → Answer × Clock
  | .advance d =>
    match c.advance d with
    | .ok later => (.done, later)
    | .error abort => (.aborted abort, c)
  | .advanceTo instant => (.done, c.advanceTo instant)
  | .elapsed => (.elapsed c.elapsed, c)
  | .now =>
    match c.now with
    | .ok instant => (.now instant, c)
    | .error abort => (.aborted abort, c)

end Clock

/-- A clock as somebody holds it: where it was started, and the number of the counter behind it. -/
structure Dial where
  start : Instant
  counter : Nat
  deriving DecidableEq, Repr

/-- Dials, known by their numbers, and the counters behind them. -/
@[ext]
structure Clockwork where
  counters : List Duration
  dials : List Dial
  counter_lt : ∀ dial ∈ dials, dial.counter < counters.length
  /-- One counter drives copies of one dial only. -/
  eq_of_counter : ∀ a ∈ dials, ∀ b ∈ dials, a.counter = b.counter → a = b

namespace Clockwork

/-- What is done with clocks. -/
inductive Event where
  | make (start : Instant)
  | copy (dial : Nat)
  | ask (dial : Nat) (request : Clock.Request)
  deriving DecidableEq, Repr

/-- Nobody holds a clock. -/
def empty : Clockwork where
  counters := []
  dials := []
  counter_lt _ h := absurd h List.not_mem_nil
  eq_of_counter _ h := absurd h List.not_mem_nil

/-- The clock that somebody holds. -/
def clock? (w : Clockwork) (i : Nat) : Option Clock :=
  w.dials[i]?.bind fun dial ↦ w.counters[dial.counter]?.map fun elapsed ↦ ⟨dial.start, elapsed⟩

/-- The first holder of a clock that stands at its start gets the next number. -/
def make (w : Clockwork) (start : Instant) : Clockwork where
  counters := w.counters ++ [.zero]
  dials := w.dials ++ [⟨start, w.counters.length⟩]
  counter_lt dial h := by
    rw [List.length_append, List.length_singleton]
    rcases List.mem_append.mp h with h | h
    · exact Nat.lt_succ_of_lt (w.counter_lt dial h)
    · rw [List.mem_singleton.mp h]
      exact Nat.lt_succ_self _
  eq_of_counter a ha b hb hab := by
    rcases List.mem_append.mp ha with ha | ha <;> rcases List.mem_append.mp hb with hb | hb
    · exact w.eq_of_counter a ha b hb hab
    · rw [List.mem_singleton.mp hb] at hab
      exact absurd hab (Nat.ne_of_lt (w.counter_lt a ha))
    · rw [List.mem_singleton.mp ha] at hab
      exact absurd hab.symm (Nat.ne_of_lt (w.counter_lt b hb))
    · rw [List.mem_singleton.mp ha, List.mem_singleton.mp hb]

private theorem mem_of_mem_copy {dials : List Dial} {i : Nat} {dial : Dial}
    (h : dial ∈ dials ++ dials[i]?.toList) : dial ∈ dials := by
  rcases List.mem_append.mp h with h | h
  · exact h
  · exact List.mem_of_getElem? (Option.mem_toList.mp h)

/-- Another holder of a clock gets the next number. -/
def copy (w : Clockwork) (i : Nat) : Clockwork where
  counters := w.counters
  dials := w.dials ++ w.dials[i]?.toList
  counter_lt dial h := w.counter_lt dial (mem_of_mem_copy h)
  eq_of_counter a ha b hb := w.eq_of_counter a (mem_of_mem_copy ha) b (mem_of_mem_copy hb)

/-- Sets the counter behind a dial. -/
def setElapsed (w : Clockwork) (i : Nat) (elapsed : Duration) : Clockwork :=
  match w.dials[i]? with
  | none => w
  | some dial =>
    { w with
      counters := w.counters.set dial.counter elapsed
      counter_lt other h := by
        rw [List.length_set]
        exact w.counter_lt other h }

/-- Asks something of the clock that somebody holds. -/
def ask (w : Clockwork) (i : Nat) (request : Clock.Request) : Clock.Answer × Clockwork :=
  match w.clock? i with
  | none => (.unknown, w)
  | some c => ((c.serve request).1, w.setElapsed i (c.serve request).2.elapsed)

/-- What one event comes to. -/
def step (w : Clockwork) : Event → Clock.Answer × Clockwork
  | .make start => (.done, w.make start)
  | .copy i => (if i < w.dials.length then .done else .unknown, w.copy i)
  | .ask i request => w.ask i request

/-- The clockwork after a history of events. -/
def after (w : Clockwork) (history : List Event) : Clockwork :=
  history.foldl (fun w event ↦ (w.step event).2) w

end Clockwork

end Caching
