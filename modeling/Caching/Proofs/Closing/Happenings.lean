import Caching.Proofs.Agenda.Chronicle
import Caching.Proofs.Closing.Engines

/-!
# Happenings

Everything that happens to a cache, as a list, in the order in which it happens, however deep: the
operations with which a listener answers a call come after the call has started and before whatever
the interrupted operation goes on to report.
-/

namespace Caching

/-- What happens to a cache. -/
inductive Happening (K V : Type) where
  /-- An operation is performed while the cache is open. -/
  | served (operation : Operation K V)
  /-- An operation comes too late, as the cache is closed. -/
  | late (operation : Operation K V)
  /-- A call of the listener starts. -/
  | called (removal : Removal K V)
  /-- The duty of an entry has its turn. -/
  | lapsed (key : K) (stamp : Nat)
  /-- The upkeep has its turn, and does the deferred work. -/
  | upkept
  /-- The cache has been closed: the operation that closes it returns, or the last who used it has
  let go of it. -/
  | closed

namespace Happening

variable {K V : Type}

/-- The removal that the listener is told of. -/
def removal? : Happening K V → Option (Removal K V)
  | called removal => some removal
  | served _ | late _ | lapsed _ _ | upkept | closed => none

/-- An operation came too late. -/
def IsLate (h : Happening K V) : Prop :=
  ∃ operation, h = late operation

end Happening

/-- What happens while a script is run, given what happens in each of its actions. -/
def Script.chronicle {A R α σ E : Type} (act : A → σ → R × σ) (inside : A → σ → List E) :
    Script A R α → σ → List E
  | .done _, _ => []
  | .call action next, s =>
    let (reply, s') := act action s
    inside action s ++ chronicle act inside (next reply) s'

namespace Running

variable {σ K V : Type} [Engine σ K V] [DecidableEq V] [PlannedEngine σ K V]

/-- What happens at an operation, given how removals are reported and what happens then. -/
def operating (report : Report σ K V) (inside : Removal K V → Running σ K V → List (Happening K V))
    (operation : Operation K V) (w : Running σ K V) : List (Happening K V) :=
  match w.phase, operation with
  | .closed, _ => [.late operation]
  | .active, .close => [.served .close, .closed]
  | .active, _ =>
    .served operation ::
      match Engine.reading w with
      | .ok now => (PlannedEngine.serve now operation w).events report inside
      | .error _ => []

/-- What happens when a removal is reported. -/
def reporting : Nat → Removal K V → Running σ K V → List (Happening K V)
  | bound, removal, w =>
    match w.listener, w.phase with
    | none, _ | _, .closed => []
    | some listener, .active =>
      .called removal ::
        match bound, listener.reactions with
        | bound + 1, reaction :: rest =>
          (reaction removal).chronicle (performWith (reportAt bound))
            (operating (reportAt bound) (reporting bound))
            { w.beginCall removal with listener := some { listener with reactions := rest } }
        | _, _ => []

/-- What happens while a script of operations is run. -/
def following {α : Type} (script : Script (Operation K V) (Reply V) α) (w : Running σ K V) :
    List (Happening K V) :=
  script.chronicle perform (fun operation w ↦ operating w.report (reporting w.depth) operation w) w

/-- What happens while a duty is attended to. -/
def attending (duty : Duty K V) (w : Running σ K V) : List (Happening K V) :=
  match duty, w.phase with
  | .lapse key stamp, _ =>
    .lapsed key stamp :: (PlannedEngine.lapse key stamp w).events w.report (reporting w.depth)
  | .upkeep, .active => .upkept :: (PlannedEngine.upkeep w).events w.report (reporting w.depth)
  | .upkeep, .closed => []
  | .errand script, _ => following script w

/-- What happens when the last who used the cache lets go of it. -/
def releasing (w : Running σ K V) : List (Happening K V) :=
  match w.phase with
  | .active => [.closed]
  | .closed => []

/-- Nothing happens to the cache while an agenda is drained but in the duties. -/
def teller : Chronicler (Running σ K V) (Duty K V) (Happening K V) where
  turn _ _ _ := []
  inside duty _ w := attending duty w
  resume _ _ _ _ _ := []

/-- What happens while time passes on the agenda. -/
def advancing (fuel : Nat) (d : Duration) (w : Running σ K V) : List (Happening K V) :=
  advanceChronicle teller attend fuel d w

/-- What has happened between two states tells the whole of it: the listener was told of the
removals that it was called for, and the cache is closed if it was or if that has happened. Once it
was closed, nothing has happened but that operations came too late. All the while the cache tended
its timers, and did not shut a supplied agenda down. -/
structure Recounts (own : Bool) (w : Running σ K V) (hs : List (Happening K V))
    (w' : Running σ K V) : Prop where
  told : w'.told = w.told ++ hs.filterMap Happening.removal?
  closed : w'.phase = .closed ↔ w.phase = .closed ∨ .closed ∈ hs
  late : w.phase = .closed → ∀ h ∈ hs, h.IsLate
  final : hs.Pairwise fun h h' ↦ h = .closed → h'.IsLate
  supplied : w'.supplied = w.supplied
  stopped : w.supplied = true → w'.agenda.stopped = w.agenda.stopped
  tended : PlannedEngine.IsTended own w'

namespace Recounts

variable {own : Bool} {w w₁ w₂ w' : Running σ K V} {hs hs' : List (Happening K V)}

/-- Nothing has happened. -/
theorem refl (h : PlannedEngine.IsTended own w) : Recounts own w [] w := by
  refine ⟨?_, ?_, ?_, .nil, rfl, fun _ ↦ rfl, h⟩
  · rw [List.filterMap_nil, List.append_nil]
  · simp only [List.not_mem_nil, or_false]
  · intro _ h hmem
    cases hmem

/-- One thing after the other. -/
theorem trans (h : Recounts own w hs w₁) (h' : Recounts own w₁ hs' w₂) :
    Recounts own w (hs ++ hs') w₂ := by
  constructor
  · rw [h'.told, h.told, List.filterMap_append, List.append_assoc]
  · rw [h'.closed, h.closed, List.mem_append, or_assoc]
  · intro hclosed x hx
    rcases List.mem_append.mp hx with hfirst | hsecond
    · exact h.late hclosed x hfirst
    · exact h'.late (h.closed.mpr (.inl hclosed)) x hsecond
  · refine List.pairwise_append.mpr ⟨h.final, h'.final, ?_⟩
    intro x hx y hy hxc
    rw [hxc] at hx
    exact h'.late (h.closed.mpr (.inr hx)) y hy
  · exact h'.supplied.trans h.supplied
  · intro hsupplied
    exact (h'.stopped (h.supplied.trans hsupplied)).trans (h.stopped hsupplied)
  · exact h'.tended

end Recounts

end Running

end Caching
