import Caching.Script

/-!
# Scripts on two states

A script cannot tell apart two states that answer every action alike. What every action keeps, a
script keeps.
-/

namespace Caching.Script

variable {A R α σ τ : Type}

/-- If related states answer every action alike and stay related, then every script has the same
result on them. -/
theorem run_simulation {act : A → σ → R × σ} {act' : A → τ → R × τ} {related : σ → τ → Prop}
    (hact : ∀ action s t, related s t →
      (act action s).1 = (act' action t).1 ∧ related (act action s).2 (act' action t).2)
    (script : Script A R α) {s : σ} {t : τ} (h : related s t) :
    (script.run act s).1 = (script.run act' t).1 ∧
      related (script.run act s).2 (script.run act' t).2 := by
  induction script generalizing s t with
  | done result => exact ⟨rfl, h⟩
  | call action next ih =>
    obtain ⟨hreply, hrelated⟩ := hact action s t h
    have hnext := ih (act action s).1 hrelated
    simp only [run]
    rw [← hreply]
    exact hnext

/-- What every action keeps, a script keeps. -/
theorem run_invariant {act : A → σ → R × σ} {kept : σ → Prop}
    (hact : ∀ action s, kept s → kept (act action s).2) (script : Script A R α) {s : σ}
    (h : kept s) : kept (script.run act s).2 := by
  induction script generalizing s with
  | done result => exact h
  | call action next ih => exact ih (act action s).1 (hact action s h)

end Caching.Script
