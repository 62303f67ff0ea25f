import Caching.Running.Engine

/-!
# Telling the listener

A report does nothing without a listener and nothing once the cache is closed. A quiet listener,
which never calls back, changes nothing but its own record: such a report leaves a note, and the
store, the agenda and the phase stay as they are.
-/

namespace Caching.Running

variable {σ K V : Type}

/-- Tells the listener of several removals, one after the other. -/
def tell (report : Report σ K V) (removals : List (Removal K V)) (w : Running σ K V) :
    Running σ K V :=
  removals.foldl (fun w removal ↦ report removal w) w

/-- Nothing is told of no removal. -/
@[simp]
theorem tell_nil (report : Report σ K V) (w : Running σ K V) : tell report [] w = w :=
  rfl

/-- The first removal is told first. -/
@[simp]
theorem tell_cons (report : Report σ K V) (removal : Removal K V) (rest : List (Removal K V))
    (w : Running σ K V) : tell report (removal :: rest) w = tell report rest (report removal w) :=
  rfl

/-- The listener, if there is one, never calls back. -/
def IsQuiet (w : Running σ K V) : Prop :=
  ∀ listener ∈ w.listener, listener.reactions = []

/-- The removals of which the listener was told, in the order of the calls. -/
def told (w : Running σ K V) : List (Removal K V) :=
  w.heard.map Heard.removal

/-- The cache is open and has a listener. -/
def isHeeded (w : Running σ K V) : Bool :=
  w.listener.isSome && decide (w.phase = .active)

/-- Replies are kept with the call that they belong to. -/
theorem told_keepReplies (w : Running σ K V) (place : Nat) (replies : List (Reply V)) :
    (w.keepReplies place replies).told = w.told := by
  have hmodify (heard : List (Heard K V)) (place : Nat) :
      (heard.modify place fun call ↦ { call with replies := some replies }).map Heard.removal =
        heard.map Heard.removal := by
    induction heard generalizing place with
    | nil => cases place <;> rfl
    | cons call rest ih =>
      cases place with
      | zero => rfl
      | succ place => simpa using ih place
  exact hmodify w.heard place

/-- A call of a listener that does not call back. -/
def noted (w : Running σ K V) (removal : Removal K V) : Running σ K V :=
  match w.listener, w.phase with
  | some listener, .active => (w.beginCall removal).endCall removal (listener.lasting removal)
  | _, _ => w

section

variable (w : Running σ K V) (removal : Removal K V)

/-- Whatever a panic adds to the log, the end of a call leaves the rest as it is. -/
theorem endCall_eq (panic : Option Payload) :
    ∃ log, w.endCall removal panic = { w with dispatching := w.dispatching - 1, log } := by
  cases panic with
  | none => exact ⟨w.log, rfl⟩
  | some payload => exact ⟨_, rfl⟩

/-- A note changes the record of calls and, at most, the log. -/
theorem noted_eq : ∃ log, w.noted removal =
    { w with heard := if w.isHeeded then w.heard ++ [⟨removal, none⟩] else w.heard, log } := by
  obtain ⟨store, provider, phase, dispatching, listener, heard, agenda, supplied, host, log⟩ := w
  rcases listener with _ | listener
  · exact ⟨log, by simp [noted, isHeeded]⟩
  · cases phase with
    | closed => exact ⟨log, by simp [noted, isHeeded]⟩
    | active =>
      obtain ⟨log', h⟩ := endCall_eq (beginCall ⟨store, provider, .active, dispatching,
        some listener, heard, agenda, supplied, host, log⟩ removal) removal
        (listener.lasting removal)
      exact ⟨log', h.trans (by simp [beginCall, isHeeded])⟩

@[simp]
theorem phase_noted : (w.noted removal).phase = w.phase := by
  obtain ⟨log, h⟩ := w.noted_eq removal
  rw [h]

@[simp]
theorem listener_noted : (w.noted removal).listener = w.listener := by
  obtain ⟨log, h⟩ := w.noted_eq removal
  rw [h]

@[simp]
theorem isHeeded_noted : (w.noted removal).isHeeded = w.isHeeded := by
  simp [isHeeded]

/-- The call of a quiet listener is recorded while the cache is open. -/
theorem told_noted :
    (w.noted removal).told = if w.isHeeded then w.told ++ [removal] else w.told := by
  obtain ⟨log, h⟩ := w.noted_eq removal
  rw [h]
  simp only [told]
  split <;> simp

end

variable [Engine σ K V] [DecidableEq V]

/-- Nothing is reported of a closed cache. -/
theorem reportAt_of_closed {w : Running σ K V} (h : w.phase = .closed) (bound : Nat)
    (removal : Removal K V) : reportAt bound removal w = w := by
  unfold reportAt
  rw [h]
  split <;> first | rfl | contradiction

/-- A quiet listener makes a note. -/
theorem reportAt_of_quiet {w : Running σ K V} (h : w.IsQuiet) (bound : Nat)
    (removal : Removal K V) : reportAt bound removal w = w.noted removal := by
  unfold reportAt noted
  rcases hl : w.listener with _ | listener
  · rfl
  · have hreactions : listener.reactions = [] := h listener hl
    cases hp : w.phase with
    | closed => rfl
    | active =>
      cases bound <;> simp [hreactions]

/-- What is told to a quiet listener changes the record of calls and, at most, the log. -/
theorem tell_of_quiet {w : Running σ K V} (h : w.IsQuiet) (bound : Nat)
    (removals : List (Removal K V)) : ∃ heard log, tell (reportAt bound) removals w =
      { w with heard, log } ∧
      heard.map Heard.removal = if w.isHeeded then w.told ++ removals else w.told := by
  induction removals generalizing w with
  | nil => exact ⟨w.heard, w.log, rfl, by simp [told]⟩
  | cons removal rest ih =>
    have hquiet : (w.noted removal).IsQuiet := by simpa [IsQuiet] using h
    obtain ⟨heard, log, htell, htold⟩ := ih hquiet
    obtain ⟨log', hnoted⟩ := w.noted_eq removal
    refine ⟨heard, log, ?_, ?_⟩
    · rw [tell_cons, reportAt_of_quiet h, htell, hnoted]
    · rw [htold, isHeeded_noted, told_noted]
      split <;> simp

end Caching.Running
