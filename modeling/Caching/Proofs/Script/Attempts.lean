import Caching.Script

/-!
# Scripts that may not come to an end

Some actions may never be done with. A script that is attempted comes to its result if each of the
actions it takes does.
-/

namespace Caching.Script

variable {A B R α β σ τ : Type}

/-- Runs a script of actions that may not come to an end. -/
def attempt (act : A → σ → Option (R × σ)) : Script A R α → σ → Option (α × σ)
  | .done result, s => some (result, s)
  | .call action next, s =>
    match act action s with
    | some (reply, s) => attempt act (next reply) s
    | none => none

/-- The same script in another language. -/
def translate (f : A → B) : Script A R α → Script B R α
  | .done result => .done result
  | .call action next => .call (f action) fun reply ↦ (next reply).translate f

/-- Attempting two scripts in a row is attempting the first and then the second. -/
theorem attempt_andThen (act : A → σ → Option (R × σ)) (script : Script A R α)
    (f : α → Script A R β) (s : σ) :
    (script.andThen f).attempt act s =
      (script.attempt act s).bind fun r ↦ (f r.1).attempt act r.2 := by
  induction script generalizing s with
  | done result => rfl
  | call action next ih =>
    simp only [andThen, attempt]
    cases act action s with
    | none => rfl
    | some r => exact ih r.1 r.2

/-- A script in another language does the same on states that hold the former ones, if every action
does. -/
theorem attempt_translate {act : A → σ → Option (R × σ)} {act' : B → τ → Option (R × τ)}
    {f : A → B} {g : σ → τ}
    (hact : ∀ action s, act' (f action) (g s) = (act action s).map fun r ↦ (r.1, g r.2))
    (script : Script A R α) (s : σ) :
    (script.translate f).attempt act' (g s) =
      (script.attempt act s).map fun r ↦ (r.1, g r.2) := by
  induction script generalizing s with
  | done result => rfl
  | call action next ih =>
    simp only [translate, attempt, hact]
    cases act action s with
    | none => rfl
    | some r => exact ih r.1 r.2

/-- What every action keeps, an attempted script keeps. -/
theorem attempt_invariant {act : A → σ → Option (R × σ)} {kept : σ → Prop}
    (hact : ∀ action s reply s', act action s = some (reply, s') → kept s → kept s')
    (script : Script A R α) {s s' : σ} {result : α}
    (hattempt : script.attempt act s = some (result, s')) (h : kept s) : kept s' := by
  induction script generalizing s with
  | done result =>
    cases hattempt
    exact h
  | call action next ih =>
    rw [attempt] at hattempt
    split at hattempt
    · next reply s₁ haction => exact ih reply hattempt (hact action s reply s₁ haction h)
    · cases hattempt

end Caching.Script
