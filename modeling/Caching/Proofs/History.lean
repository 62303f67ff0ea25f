import Caching.Proofs.Agenda.Drain
import Caching.Running.Engine

/-!
# Histories

What happens to a cache from outside: operations, duties that come due, whether they were scheduled
or not, and anything that is done to the clocks and to the agenda. Letting time pass on the agenda
is a history of such small steps, in which the errands that are run perform operations.
-/

namespace Caching.Running

variable {σ K V : Type} [Engine σ K V] [DecidableEq V]

/-- The histories of a cache, with the operations that were performed and their replies. -/
inductive Undergoes (start : Running σ K V) :
    List (Operation K V × Reply V) → Running σ K V → Prop where
  | start : Undergoes start [] start
  | operate {dialogue : List (Operation K V × Reply V)} {w : Running σ K V}
      (h : Undergoes start dialogue w) (operation : Operation K V) :
      Undergoes start (dialogue ++ [(operation, (w.perform operation).1)]) (w.perform operation).2
  /-- A duty comes due. -/
  | lapse {dialogue : List (Operation K V × Reply V)} {w : Running σ K V}
      (h : Undergoes start dialogue w) (key : K) (stamp : Nat) :
      Undergoes start dialogue (Engine.lapse w.report key stamp w)
  /-- Deferred work is done. -/
  | upkeep {dialogue : List (Operation K V × Reply V)} {w : Running σ K V}
      (h : Undergoes start dialogue w) : Undergoes start dialogue (Engine.upkeep w.report w)
  /-- Time passes, or something else is done to the agenda. -/
  | rearrange {dialogue : List (Operation K V × Reply V)} {w : Running σ K V}
      (h : Undergoes start dialogue w) (agenda : Agenda (Duty K V)) (host : Clock) :
      Undergoes start dialogue { w with agenda, host }
  /-- The last who used the cache lets go of it. -/
  | release {dialogue : List (Operation K V × Reply V)} {w : Running σ K V}
      (h : Undergoes start dialogue w) : Undergoes start dialogue w.release

/-- The history goes on to a state. -/
def Leads (start : Running σ K V) (dialogue : List (Operation K V × Reply V))
    (w : Running σ K V) : Prop :=
  ∃ later, Undergoes start (dialogue ++ later) w

namespace Leads

variable {start w w' : Running σ K V} {dialogue : List (Operation K V × Reply V)}

/-- A history leads where it ends. -/
theorem refl (h : Undergoes start dialogue w) : Leads start dialogue w :=
  ⟨[], by rwa [List.append_nil]⟩

/-- What comes after something that comes later comes later. -/
theorem trans {later : List (Operation K V × Reply V)} (h : Leads start (dialogue ++ later) w) :
    Leads start dialogue w := by
  obtain ⟨more, hmore⟩ := h
  rw [List.append_assoc] at hmore
  exact ⟨_, hmore⟩

/-- A history may go on with anything that is done to the agenda. -/
theorem withAgenda (h : Leads start dialogue w) (a : Agenda (Duty K V)) :
    Leads start dialogue (withAgenda w a) := by
  obtain ⟨later, hlater⟩ := h
  exact ⟨later, hlater.rearrange a w.host⟩

/-- A history may go on with a script of operations. -/
theorem follow {α : Type} (h : Leads start dialogue w)
    (script : Script (Operation K V) (Reply V) α) :
    Leads start dialogue (w.follow script).2 := by
  induction script generalizing w with
  | done result => exact h
  | call operation next ih =>
    obtain ⟨later, hlater⟩ := h
    have hnext : Leads start dialogue (w.perform operation).2 :=
      (refl (hlater.operate operation)).trans.trans
    exact ih (w.perform operation).1 hnext

private theorem attend (h : Leads start dialogue w) {duty : Duty K V} {run : Nat} {again : Bool}
    (hattend : attend duty run w = some (again, w')) : Leads start dialogue w' := by
  cases duty with
  | lapse key stamp =>
    obtain ⟨rfl, rfl⟩ := hattend
    obtain ⟨later, hlater⟩ := h
    exact (refl (hlater.lapse key stamp)).trans
  | upkeep =>
    cases hp : w.phase with
    | active =>
      simp only [Running.attend, hp, Option.some.injEq, Prod.mk.injEq] at hattend
      obtain ⟨later, hlater⟩ := h
      exact hattend.2 ▸ (refl hlater.upkeep).trans
    | closed =>
      simp only [Running.attend, hp, Option.some.injEq, Prod.mk.injEq] at hattend
      exact hattend.2 ▸ h
  | errand script =>
    obtain ⟨rfl, rfl⟩ := hattend
    exact h.follow script

/-- A history may go on with the job of an entry. -/
theorem perform (h : Leads start dialogue w) {job : Job (Duty K V)} {r : Except Abort Unit}
    (hperform : job.perform Running.attend w = some (r, w')) : Leads start dialogue w' := by
  refine job.perform_kept ?_ ?_ (fun _ h ↦ h) h hperform
  · intro duty again w w' _ h hattend
    exact h.attend hattend
  · intro chain period run duty again w w' _ h hattend
    exact ⟨h.attend hattend, fun a _ ↦ (h.attend hattend).withAgenda a⟩

end Leads

/-- A history may go on with letting time pass. -/
theorem Undergoes.advance {start w w' : Running σ K V}
    {dialogue : List (Operation K V × Reply V)} (h : Undergoes start dialogue w) {fuel : Nat}
    {d : Duration} {r : Except Abort Nat} (hadvance : w.advance fuel d = some (r, w')) :
    ∃ later, Undergoes start (dialogue ++ later) w' := by
  rcases advance_cases hadvance with ⟨abort, _, rfl⟩ | ⟨now, w₁, _, hdrain, hend⟩
  · exact Leads.refl h
  · have hskip (w : Running σ K V) (entry : Entry (Duty K V)) (a : Agenda (Duty K V))
        (h : Leads start dialogue w) (_ : (agenda w).take? (now.add? d) = some (false, entry, a)) :=
      h.withAgenda a
    have hstart (w : Running σ K V) (entry : Entry (Duty K V)) (a : Agenda (Duty K V))
        (r : Except Abort Unit) (w' : Running σ K V) (h : Leads start dialogue w)
        (_ : (agenda w).take? (now.add? d) = some (true, entry, a))
        (hjob : entry.job.perform attend (withAgenda w a) = some (r, w')) :=
      (h.withAgenda a).perform hjob
    obtain ⟨hdrained, _⟩ := drain_kept hskip hstart (Leads.refl h) hdrain
    rcases hend with ⟨_, _, rfl⟩ | ⟨_, rfl⟩ | ⟨instant, _, _, _, rfl⟩
    · exact hdrained
    · exact hdrained
    · exact hdrained.withAgenda _

end Caching.Running
