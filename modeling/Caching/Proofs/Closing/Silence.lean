import Caching.Proofs.Agenda.Drain
import Caching.Proofs.Closing.Engines
import Caching.Proofs.Script.Simulation

/-!
# Closed caches

Nothing that is done with a closed cache changes it, apart from its agenda, on which others may go
on.
-/

namespace Caching.Running

variable {σ K V : Type} [Engine σ K V] {w v v' : Running σ K V}

/-- Letting go of a closed cache leaves it as it is. -/
theorem release_of_closed (h : w.phase = .closed) : w.release = w := by
  rw [release, h]

variable [DecidableEq V]

/-- A script of operations leaves a closed cache as it is. -/
theorem follow_of_closed {α : Type} (h : w.phase = .closed)
    (script : Script (Operation K V) (Reply V) α) : (w.follow script).2 = w := by
  have hact (operation : Operation K V) (v : Running σ K V) (hv : v = w) :
      (v.perform operation).2 = w := by
    rw [hv, perform, performWith_of_closed w.report h]
  exact Script.run_invariant hact script rfl

private theorem attend_of_closed (h : w.phase = .closed) {duty : Duty K V}
    (hduty : ∀ key stamp, duty ≠ .lapse key stamp) {run : Nat} {again : Bool}
    (hattend : attend duty run w = some (again, v)) : v = w := by
  cases duty with
  | lapse key stamp => exact absurd rfl (hduty key stamp)
  | upkeep =>
    simp only [attend, h, Option.some.injEq, Prod.mk.injEq] at hattend
    exact hattend.2.symm
  | errand script =>
    cases hattend
    exact follow_of_closed h script

variable [PlannedEngine σ K V]

/-- The closed cache is as it was, apart from its agenda, and its timers are still tended. -/
structure Rests (own : Bool) (w v : Running σ K V) : Prop where
  closed : w.phase = .closed
  same : ∃ agenda, v = { w with agenda }
  tended : PlannedEngine.IsTended own v

namespace Rests

variable {own : Bool} {target : Option Instant} {e : Entry (Duty K V)} {a : Agenda (Duty K V)}

private theorem withAgenda (h : Rests own w v) (hyields : v.agenda.Yields a) :
    Rests own w (withAgenda v a) := by
  obtain ⟨_, rfl⟩ := h.same
  exact ⟨h.closed, ⟨a, rfl⟩, PlannedEngine.aside h.tended hyields _ _ _ _ _⟩

private theorem phase (h : Rests own w v) : v.phase = .closed := by
  obtain ⟨_, rfl⟩ := h.same
  exact h.closed

private theorem attend (h : Rests own w v) {duty : Duty K V}
    (hduty : ∀ key stamp, duty ≠ .lapse key stamp)
    {run : Nat} {again : Bool} (hattend : Running.attend duty run v = some (again, v')) :
    Rests own w v' := by
  rwa [attend_of_closed h.phase hduty hattend]

private theorem job (h : Rests own w v) (htake : (agenda v).take? target = some (true, e, a))
    {r : Except Abort Unit}
    (hperform : e.job.perform Running.attend (Caching.withAgenda v a) = some (r, v')) :
    Rests own w v' := by
  have hduty := PlannedEngine.ne_lapse_of_take? h.tended h.phase htake
  refine e.job.perform_kept ?_ ?_ (fun _ h ↦ h) (h.withAgenda (Agenda.yields_take htake)) hperform
  · intro body again s s' hjob hs hattend
    rw [hjob] at hduty
    exact hs.attend hduty hattend
  · intro chain period run body again s s' hjob hs hattend
    rw [hjob] at hduty
    have hafter := hs.attend hduty hattend
    exact ⟨hafter, fun b harm ↦ hafter.withAgenda (Agenda.yields_arm hduty harm)⟩

/-- Time that passes on the agenda has no effect, apart from those on the agenda. -/
theorem advance (h : Rests own w v) {fuel : Nat} {d : Duration} {r : Except Abort Nat}
    (hadvance : v.advance fuel d = some (r, v')) : Rests own w v' := by
  rcases advance_cases hadvance with ⟨abort, _, rfl⟩ | ⟨now, v₁, _, hdrain, hend⟩
  · exact h
  · have hdrained : Rests own w v₁ := by
      refine (drain_kept ?_ ?_ h hdrain).1
      · intro s e a hs htake
        exact hs.withAgenda (Agenda.yields_take htake)
      · intro s e a r s' hs htake hperform
        exact hs.job htake hperform
    rcases hend with ⟨_, _, rfl⟩ | ⟨_, rfl⟩ | ⟨instant, _, _, _, rfl⟩
    · exact hdrained
    · exact hdrained
    · exact hdrained.withAgenda ⟨.refl _, fun _ h ↦ h, id⟩

end Rests

end Caching.Running
