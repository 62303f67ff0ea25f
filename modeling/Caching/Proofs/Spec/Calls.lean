import Caching.Proofs.Script.Simulation
import Caching.Spec.Calls

/-!
# What leaves a builder

An expiry time is checked when it is set, and whether it goes with the expiry type is checked when
the specification is built. So whatever calls were made on a builder, in whatever order, both hold
of every specification that it gives.
-/

namespace Caching

variable {L E : Type}

/-- Exactly the expiring specifications have an expiry time, and it is positive and bounded. -/
structure Spec.IsSound (s : Spec L E) : Prop where
  enabled : s.expiryTime.isSome = s.expiryType.isEnabled
  time : ∀ time ∈ s.expiryTime, 0 < time.nanos ∧ time.nanos ≤ maxExpiryTime.nanos

namespace Builder

variable {b b' : Builder L E}

/-- A duration is an expiry time exactly if it is positive and bounded. -/
theorem expiryTimeProblem?_eq_none_iff {time : Duration} :
    expiryTimeProblem? time = none ↔ 0 < time.nanos ∧ time.nanos ≤ maxExpiryTime.nanos := by
  unfold expiryTimeProblem?
  split
  · next hzero => simp [hzero]
  · split
    · next hlong => simp [hlong]
    · simp
      omega

/-- Expiry type and time go together exactly if there is a time where the type needs one. -/
theorem expiryProblem?_eq_none_iff {kind : ExpiryType} {time : Option Duration} :
    expiryProblem? kind time = none ↔ time.isSome = kind.isEnabled := by
  unfold expiryProblem?
  cases kind.isEnabled <;> cases time <;> simp

private theorem guarded_eq_ok_iff {α : Type} {result : Except Fault α} {a : α} :
    b.guarded result = .ok a ↔ b.finalized = false ∧ result = .ok a := by
  unfold guarded
  cases b.finalized <;> simp

private theorem build_eq_ok {spec : Spec L E} (h : b.build = .ok (spec, b')) :
    b.finalized = false ∧ expiryProblem? (b.expiryType.getD default) b.expiryTime = none ∧
      spec = ⟨b.provider, b.maxSize, b.expiryType.getD default, b.expiryTime, b.listener,
        b.executor, b.highContention⟩ ∧
      b' = { b with finalized := true, listener := none, executor := none } := by
  unfold build at h
  obtain ⟨hopen, hresult⟩ := guarded_eq_ok_iff.mp h
  dsimp only at hresult
  split at hresult
  · cases hresult
  · next hnone =>
    cases hresult
    exact ⟨hopen, hnone, rfl, rfl⟩

/-- The expiry time that the builder was told, if any, is positive and bounded. -/
def IsFit (b : Builder L E) : Prop :=
  ∀ time ∈ b.expiryTime, 0 < time.nanos ∧ time.nanos ≤ maxExpiryTime.nanos

namespace IsFit

private theorem attempt (h : b.IsFit) {result : Except Fault (Builder L E)}
    (hresult : ∀ b', result = .ok b' → b'.IsFit) : (b.attempt result).2.IsFit := by
  unfold Builder.attempt
  split
  · next b' => exact hresult b' rfl
  · exact h

private theorem attemptSome {α : Type} {value : Option α}
    {call : Builder L E → α → Except Fault (Builder L E)}
    (hcall : ∀ a (b b' : Builder L E), b.IsFit → call b a = .ok b' → b'.IsFit)
    {outcome : Outcome L E} (h : outcome.2.IsFit) : (attemptSome value call outcome).2.IsFit := by
  unfold Builder.attemptSome
  split
  · next b a => exact attempt h fun b' hb' ↦ hcall a b b' h hb'
  · exact h

private theorem guarded (h : b.IsFit) {changed : Builder L E}
    (hok : b.guarded (.ok changed) = .ok b')
    (htime : changed.expiryTime = b.expiryTime) : b'.IsFit := by
  obtain ⟨_, hsame⟩ := guarded_eq_ok_iff.mp hok
  cases hsame
  unfold IsFit
  rwa [htime]

private theorem setExpiryTime {time : Duration} (hok : b.setExpiryTime time = .ok b') :
    b'.IsFit := by
  unfold Builder.setExpiryTime at hok
  obtain ⟨_, hresult⟩ := guarded_eq_ok_iff.mp hok
  split at hresult
  · cases hresult
  · next hnone =>
    cases hresult
    intro t ht
    cases ht
    exact expiryTimeProblem?_eq_none_iff.mp hnone

/-- Every call keeps it. -/
theorem make (h : b.IsFit) (call : Call L E) : (make call b).2.IsFit := by
  have hanswered (outcome : Outcome L E) (h : outcome.2.IsFit) : (answered outcome).2.IsFit := by
    unfold answered
    split <;> exact h
  cases call with
  | provider p => exact hanswered _ (h.attempt fun _ hok ↦ h.guarded hok rfl)
  | maxSize n => exact hanswered _ (h.attempt fun _ hok ↦ h.guarded hok rfl)
  | expiryType e => exact hanswered _ (h.attempt fun _ hok ↦ h.guarded hok rfl)
  | expiryTime time => exact hanswered _ (h.attempt fun _ hok ↦ setExpiryTime hok)
  | listener listener => exact hanswered _ (h.attempt fun _ hok ↦ h.guarded hok rfl)
  | executor executor => exact hanswered _ (h.attempt fun _ hok ↦ h.guarded hok rfl)
  | highContention enabled => exact hanswered _ (h.attempt fun _ hok ↦ h.guarded hok rfl)
  | settings s =>
    refine hanswered _ ?_
    unfold applySettings
    split
    · exact h
    · refine attemptSome ?_ (attemptSome ?_ (attemptSome ?_ (attemptSome ?_ (attemptSome ?_ h))))
      · exact fun _ _ _ h hok ↦ h.guarded hok rfl
      · exact fun _ _ _ _ hok ↦ setExpiryTime hok
      · exact fun _ _ _ h hok ↦ h.guarded hok rfl
      · exact fun _ _ _ h hok ↦ h.guarded hok rfl
      · exact fun _ _ _ h hok ↦ h.guarded hok rfl
  | build =>
    simp only [Builder.make]
    split
    · next spec b' hbuilt =>
      obtain ⟨_, _, _, rfl⟩ := build_eq_ok hbuilt
      exact h
    · exact h

end IsFit

/-- However a builder was configured, its expiry time is positive and bounded. -/
theorem isFit_configured (configuration : Configuration L E) :
    (configured configuration).2.IsFit := by
  have hnew : (new : Builder L E).IsFit := by
    intro time htime
    cases htime
  exact Script.run_invariant (fun call _ h ↦ h.make call) configuration hnew

/-- Whatever is built is sound. -/
theorem IsFit.sound (h : b.IsFit) {spec : Spec L E} (hbuilt : b.build = .ok (spec, b')) :
    spec.IsSound := by
  obtain ⟨_, hproblem, rfl, _⟩ := build_eq_ok hbuilt
  exact ⟨expiryProblem?_eq_none_iff.mp hproblem, h⟩

/-- Whatever a configuration comes to is sound. -/
theorem sound_of_specified {configuration : Configuration L E} {spec : Spec L E}
    (h : specified configuration = .ok spec) : spec.IsSound := by
  have hfit := isFit_configured configuration
  unfold specified at h
  split at h
  · cases h
  · next b hconfigured =>
    rw [hconfigured] at hfit
    cases hbuilt : b.build with
    | error fault => simp [hbuilt, Except.map] at h
    | ok built =>
      simp only [hbuilt, Except.map, Except.ok.injEq] at h
      subst h
      exact IsFit.sound hfit hbuilt

end Builder

end Caching
