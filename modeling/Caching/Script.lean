/-!
# Scripts

Programs that act on something they do not hold: each action is chosen in the light of the replies
so far. A script is finite on every path.
-/

namespace Caching

/-- A script of actions `A` with replies `R` that ends in a result. -/
inductive Script (A R α : Type) where
  | done (result : α)
  | call (action : A) (next : R → Script A R α)

namespace Script

variable {A R α β σ : Type}

/-- Runs a script on a state, given what an action does to it. -/
def run (act : A → σ → R × σ) : Script A R α → σ → α × σ
  | .done result, s => (result, s)
  | .call action next, s =>
    let (reply, s) := act action s
    run act (next reply) s

/-- One script, then another that knows the result of the first. -/
def andThen : Script A R α → (α → Script A R β) → Script A R β
  | .done result, f => f result
  | .call action next, f => .call action fun reply ↦ (next reply).andThen f

/-- One action, with its reply as the result. -/
def single (action : A) : Script A R R :=
  .call action .done

/-- One script after the other, with all results. -/
def sequence : List (Script A R α) → Script A R (List α)
  | [] => .done []
  | script :: rest =>
    script.andThen fun result ↦ (sequence rest).andThen fun results ↦ .done (result :: results)

/-- Running two scripts in a row is running the first and then the second. -/
theorem run_andThen (act : A → σ → R × σ) (script : Script A R α) (f : α → Script A R β) (s : σ) :
    (script.andThen f).run act s =
      (f (script.run act s).1).run act (script.run act s).2 := by
  induction script generalizing s with
  | done result => rfl
  | call action next ih => exact ih (act action s).1 (act action s).2

/-- A single action does what the action does. -/
theorem run_single (act : A → σ → R × σ) (action : A) (s : σ) :
    (single action).run act s = act action s :=
  rfl

end Script

end Caching
