import Caching.Agenda.Desk
import Caching.Proofs.Agenda.Parts

/-!
# Laws of desks

What an action does to the agenda of a desk, said without the directory and the answers: it submits
something, cancels a handle, lets time pass, or leaves the agenda as it is.
-/

namespace Caching.Desk

variable {L : Type}

instance : LawfulAgenda (Desk L) where
  agenda_withAgenda _ _ := rfl
  withAgenda_withAgenda _ _ _ := rfl

/-- The agenda that a desk has. -/
@[simp]
theorem agenda_eq (d : Desk L) : Caching.agenda d = d.agenda :=
  rfl

variable [DecidableEq L] {attend : Attend (Desk L) (Commission L)} {fuel : Nat} {d d' : Desk L}

/-- Letting time pass answers with the number of entries that were started, or with the abort that
ended it. -/
theorem act_advance_eq_some_iff {t : Duration} {response : Response} :
    act attend fuel (.advance t) d = some (response, d') ↔
      (∃ count, response = .executed count ∧ advance attend fuel t d = some (.ok count, d')) ∨
        ∃ abort, response = .aborted abort ∧ advance attend fuel t d = some (.error abort, d') := by
  simp only [act, Option.map_eq_some_iff]
  constructor
  · rintro ⟨⟨r, d₁⟩, hadvance, hcounted⟩
    cases r with
    | ok count =>
      cases hcounted
      exact .inl ⟨count, rfl, hadvance⟩
    | error abort =>
      cases hcounted
      exact .inr ⟨abort, rfl, hadvance⟩
  · rintro (⟨count, rfl, hadvance⟩ | ⟨abort, rfl, hadvance⟩)
    · exact ⟨_, hadvance, rfl⟩
    · exact ⟨_, hadvance, rfl⟩

/-- Running what is due is letting no time pass. -/
theorem act_runPending : act attend fuel .runPending d = act attend fuel (.advance .zero) d :=
  rfl

/-- An errand is followed one action after the other. -/
theorem follow_act_eq_some_iff {label : L} {action : Action L} {next : Response → Errand L}
    {again : Bool} :
    follow (fuel + 1) label (.act action next) d = some (again, d') ↔
      ∃ response d₁, act (Desk.attend fuel) fuel action d = some (response, d₁) ∧
        follow fuel label (next response) (d₁.note (.answered label response)) =
          some (again, d') := by
  rw [follow]
  split
  next hact =>
    have hnone : act (Desk.attend fuel) fuel action d = none := hact
    simp [hnone]
  next response d₁ hact =>
    have hsome : act (Desk.attend fuel) fuel action d = some (response, d₁) := hact
    simp only [hsome, Option.some.injEq, Prod.mk.injEq, and_assoc]
    constructor
    · intro h
      exact ⟨response, d₁, rfl, rfl, h⟩
    · rintro ⟨_, _, rfl, rfl, h⟩
      exact h

end Caching.Desk
