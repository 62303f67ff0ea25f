import Caching.Agenda.Advance

/-!
# Desks

An agenda whose entries are errands: they may do to the agenda all that can be done from outside,
also let time pass. Errands are submitted under labels, and a label stands for what was last
submitted under it. The log tells what happened inside errands.
-/

namespace Caching

/-- What an action answers. -/
inductive Response where
  | done
  /-- No errand goes by the label. -/
  | unknown
  | cancelled (b : Bool)
  | executed (count : Nat)
  | elapsed (d : Duration)
  | count (n : Nat)
  | flag (b : Bool)
  | text (s : String)
  | aborted (abort : Abort)
  deriving DecidableEq, Repr

mutual

/-- One thing that can be done to a desk. -/
inductive Action (L : Type) where
  | schedule (label : L) (delay : Duration) (body : Errand L)
  /-- Repeats an errand, which is given the number of the run. -/
  | scheduleRepeating (label : L) (period : Duration) (body : Nat → Errand L)
  | cancel (label : L)
  | isCancelled (label : L)
  | advance (d : Duration)
  | runPending
  | moveClock (d : Duration)
  | elapsed
  | pending
  | shutdown
  | isShutdown
  | describe

/-- A sequence of actions, each chosen in the light of the answers so far. The flag at the end tells
a repeated errand to go on. -/
inductive Errand (L : Type) where
  | done (again : Bool)
  | act (action : Action L) (next : Response → Errand L)

end

/-- The errand that does the actions in their order, whatever they answer. -/
def Errand.ofList {L : Type} (again : Bool) : List (Action L) → Errand L
  | [] => .done again
  | action :: rest => .act action fun _ ↦ ofList again rest

/-- An errand together with its label. -/
structure Commission (L : Type) where
  label : L
  body : Nat → Errand L

/-- What happened inside errands. -/
inductive Notice (L : Type) where
  | fired (label : L) (elapsed : Duration)
  | answered (label : L) (response : Response)
  deriving DecidableEq, Repr

/-- An agenda of errands with its labels. -/
structure Desk (L : Type) where
  agenda : Agenda (Commission L)
  directory : List (L × Handle)
  log : List (Notice L)

namespace Desk

variable {L : Type}

instance : HasAgenda (Desk L) (Commission L) where
  agenda := Desk.agenda
  withAgenda d a := { d with agenda := a }

/-- A desk with nothing on it. -/
def ofClock (clock : Clock) : Desk L :=
  ⟨.ofClock clock, [], []⟩

/-- Adds to the log. -/
def note (d : Desk L) (notice : Notice L) : Desk L :=
  { d with log := d.log ++ [notice] }

variable [DecidableEq L]

/-- The handle that the label stands for. -/
def handle? (d : Desk L) (label : L) : Option Handle :=
  d.directory.lookup label

/-- Lets the label stand for a handle from now on. -/
def register (d : Desk L) (label : L) (r : Except Abort (Handle × Agenda (Commission L))) :
    Response × Desk L :=
  match r with
  | .ok (handle, agenda) =>
    (.cancelled (agenda.isCancelled handle),
      { d with agenda, directory := (label, handle) :: d.directory })
  | .error abort => (.aborted abort, d)

/-- The answer to letting time pass. -/
private def counted (r : Except Abort Nat × Desk L) : Response × Desk L :=
  match r.1 with
  | .ok count => (.executed count, r.2)
  | .error abort => (.aborted abort, r.2)

/-- Does one action; `attend` says how errands are run when time passes. -/
def act (attend : Attend (Desk L) (Commission L)) (fuel : Nat) (action : Action L) (d : Desk L) :
    Option (Response × Desk L) :=
  match action with
  | .schedule label delay body =>
    some (d.register label (d.agenda.schedule delay ⟨label, fun _ ↦ body⟩))
  | .scheduleRepeating label period body =>
    some (d.register label (d.agenda.scheduleRepeating period ⟨label, body⟩))
  | .cancel label =>
    match d.handle? label with
    | some handle => some (.cancelled true, { d with agenda := d.agenda.cancel handle })
    | none => some (.unknown, d)
  | .isCancelled label =>
    match d.handle? label with
    | some handle => some (.cancelled (d.agenda.isCancelled handle), d)
    | none => some (.unknown, d)
  | .advance duration => (advance attend fuel duration d).map counted
  | .runPending => (advance attend fuel .zero d).map counted
  | .moveClock duration =>
    match d.agenda.moveClock duration with
    | .ok agenda => some (.elapsed agenda.clock.elapsed, { d with agenda })
    | .error abort => some (.aborted abort, d)
  | .elapsed => some (.elapsed d.agenda.clock.elapsed, d)
  | .pending => some (.count d.agenda.pending, d)
  | .shutdown => some (.done, { d with agenda := d.agenda.shutdown })
  | .isShutdown => some (.flag d.agenda.stopped, d)
  | .describe => some (.text d.agenda.debug, d)

/-- Follows an errand to its end. Each action takes one unit of fuel, and has the rest for what
happens inside it. -/
def follow : Nat → L → Errand L → Desk L → Option (Bool × Desk L)
  | _, _, .done again, d => some (again, d)
  | 0, _, .act _ _, _ => none
  | fuel + 1, label, .act action next, d =>
    match act (fun c run d ↦ follow fuel c.label (c.body run)
        (d.note (.fired c.label d.agenda.clock.elapsed))) fuel action d with
    | none => none
    | some (response, d) => follow fuel label (next response) (d.note (.answered label response))

/-- Attends to a commission: the log tells when it was started. -/
def attend (fuel : Nat) : Attend (Desk L) (Commission L) :=
  fun c run d ↦ follow fuel c.label (c.body run) (d.note (.fired c.label d.agenda.clock.elapsed))

/-- Does one action from outside, within a number of steps that suffices unless the errands submit
each other without end. -/
def step (fuel : Nat) (action : Action L) (d : Desk L) : Option (Response × Desk L) :=
  act (attend fuel) fuel action d

end Desk

end Caching
