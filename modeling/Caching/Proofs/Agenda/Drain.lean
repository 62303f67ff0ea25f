import Caching.Agenda.Advance
import Caching.Proofs.Agenda.Laws

/-!
# What draining keeps

Draining an agenda skips some entries and starts others, one after the other. What every such step
keeps, it keeps, and if nothing aborts it, no entry is left that is due within the target. All that
a step can come to is said once, for doing a job and for draining.
-/

namespace Caching

variable {σ B : Type} [HasAgenda σ B] {attend : Attend σ B}

/-- What becomes of doing a job: an abort or nothing of note, and the state that is left. -/
inductive Job.Performed (attend : Attend σ B) (s : σ) : Job B → Except Abort Unit → σ → Prop where
  | once {body : B} {again : Bool} {s' : σ} (hattend : attend body 1 s = some (again, s')) :
      Performed attend s (.once body) (.ok ()) s'
  | cancelled {chain : Handle} {period : Duration} {run : Nat} {body : B}
      (hcancelled : (agenda s).isCancelled chain = true) :
      Performed attend s (.link chain period run body) (.ok ()) s
  | ended {chain : Handle} {period : Duration} {run : Nat} {body : B} {s' : σ}
      (hlasts : (agenda s).isCancelled chain = false)
      (hattend : attend body run s = some (false, s')) :
      Performed attend s (.link chain period run body) (.ok ()) s'
  | continued {chain : Handle} {period : Duration} {run : Nat} {body : B} {s' : σ} {a : Agenda B}
      (hlasts : (agenda s).isCancelled chain = false)
      (hattend : attend body run s = some (true, s'))
      (harm : (agenda s').arm chain period (run + 1) body = .ok a) :
      Performed attend s (.link chain period run body) (.ok ()) (withAgenda s' a)
  | broken {chain : Handle} {period : Duration} {run : Nat} {body : B} {s' : σ} {abort : Abort}
      (hlasts : (agenda s).isCancelled chain = false)
      (hattend : attend body run s = some (true, s'))
      (harm : (agenda s').arm chain period (run + 1) body = .error abort) :
      Performed attend s (.link chain period run body) (.error abort) s'

/-- Doing a job comes to nothing else. -/
theorem Job.performed {job : Job B} {s s' : σ} {r : Except Abort Unit}
    (hperform : job.perform attend s = some (r, s')) : job.Performed attend s r s' := by
  cases job with
  | once body =>
    simp only [Job.perform, Option.map_eq_some_iff, Prod.mk.injEq] at hperform
    obtain ⟨⟨again, s₁⟩, hattend, rfl, rfl⟩ := hperform
    exact .once hattend
  | link chain period run body =>
    simp only [Job.perform] at hperform
    split at hperform
    · next hcancelled =>
      cases hperform
      exact .cancelled hcancelled
    · next hlasts =>
      rw [Bool.not_eq_true] at hlasts
      split at hperform
      · cases hperform
      · next hattend =>
        cases hperform
        exact .ended hlasts hattend
      · next hattend =>
        split at hperform
        · next harm =>
          cases hperform
          exact .continued hlasts hattend harm
        · next harm =>
          cases hperform
          exact .broken hlasts hattend harm

/-- What becomes of draining at its next step: there is nothing to take, or an entry is skipped, or
one is started, which may be aborted. -/
inductive Drained (attend : Attend σ B) (target : Option Instant) (fuel : Nat) (s : σ) :
    Except Abort Nat → σ → Prop where
  | idle (htake : (agenda s).take? target = none) : Drained attend target fuel s (.ok 0) s
  | skipped {e : Entry B} {a : Agenda B} {r : Except Abort Nat} {s' : σ}
      (htake : (agenda s).take? target = some (false, e, a))
      (hrest : drain attend target fuel (withAgenda s a) = some (r, s')) :
      Drained attend target fuel s r s'
  | started {e : Entry B} {a : Agenda B} {s₁ : σ} {r : Except Abort Nat} {s' : σ}
      (htake : (agenda s).take? target = some (true, e, a))
      (hperform : e.job.perform attend (withAgenda s a) = some (.ok (), s₁))
      (hrest : drain attend target fuel s₁ = some (r, s')) :
      Drained attend target fuel s (r.map (· + 1)) s'
  | aborted {e : Entry B} {a : Agenda B} {abort : Abort} {s' : σ}
      (htake : (agenda s).take? target = some (true, e, a))
      (hperform : e.job.perform attend (withAgenda s a) = some (.error abort, s')) :
      Drained attend target fuel s (.error abort) s'

/-- Draining takes one such step after the other. -/
theorem drain_succ_iff {target : Option Instant} {fuel : Nat} {s s' : σ} {r : Except Abort Nat} :
    drain attend target (fuel + 1) s = some (r, s') ↔ Drained attend target fuel s r s' := by
  rw [drain]
  constructor
  · intro hdrain
    split at hdrain
    · next htake =>
      cases hdrain
      exact .idle htake
    · next live e a htake =>
      cases live with
      | false => exact .skipped htake hdrain
      | true =>
        simp only [if_true] at hdrain
        split at hdrain
        · cases hdrain
        · next hperform =>
          cases hdrain
          exact .aborted htake hperform
        · next hperform =>
          obtain ⟨⟨r₁, s₁⟩, hrest, hmore⟩ := Option.map_eq_some_iff.mp hdrain
          cases hmore
          exact .started htake hperform hrest
  · intro hdrained
    cases hdrained with
    | idle htake => rw [htake]
    | skipped htake hrest =>
      rw [htake]
      exact hrest
    | started htake hperform hrest =>
      simp only [htake, if_true, hperform, hrest, Option.map_some]
      rfl
    | aborted htake hperform => simp only [htake, if_true, hperform]

/-- A count that is one higher is one higher than some count. -/
theorem exists_of_map_eq_ok {r : Except Abort Nat} {count : Nat}
    (h : r.map (· + 1) = .ok count) : ∃ n, r = .ok n ∧ n + 1 = count := by
  cases r with
  | error abort => cases h
  | ok n => exact ⟨n, rfl, Except.ok.inj h⟩

/-- What each entry keeps when its turn comes, draining keeps. -/
theorem drain_kept {kept : σ → Prop} {target : Option Instant}
    (hskip : ∀ s entry a, kept s → (agenda s).take? target = some (false, entry, a) →
      kept (withAgenda s a))
    (hstart : ∀ s entry a r s', kept s → (agenda s).take? target = some (true, entry, a) →
      entry.job.perform attend (withAgenda s a) = some (r, s') → kept s')
    {fuel : Nat} {s s' : σ} {r : Except Abort Nat} (h : kept s)
    (hdrain : drain attend target fuel s = some (r, s')) :
    kept s' ∧ (∀ count, r = .ok count → (agenda s').take? target = none) := by
  induction fuel generalizing s r with
  | zero => cases hdrain
  | succ fuel ih =>
    cases drain_succ_iff.mp hdrain with
    | idle htake => exact ⟨h, fun _ _ ↦ htake⟩
    | skipped htake hrest => exact ih (hskip _ _ _ h htake) hrest
    | started htake hperform hrest =>
      obtain ⟨hkept, hdone⟩ := ih (hstart _ _ _ _ _ h htake hperform) hrest
      refine ⟨hkept, fun count hcount ↦ ?_⟩
      obtain ⟨n, hn, -⟩ := exists_of_map_eq_ok hcount
      exact hdone n hn
    | aborted htake hperform => exact ⟨hstart _ _ _ _ _ h htake hperform, nofun⟩

/-- What each entry keeps when its turn comes at its due instant or later, draining keeps, and it
does not pass the target. -/
theorem drain_kept_within {kept : Instant → σ → Prop} {target : Option Instant}
    (hskip : ∀ now s entry a, kept now s → (agenda s).take? target = some (false, entry, a) →
      ∃ later, (later = now ∨ later = entry.due) ∧ kept later (withAgenda s a))
    (hstart : ∀ now s entry a r s', kept now s →
      (agenda s).take? target = some (true, entry, a) →
      entry.job.perform attend (withAgenda s a) = some (r, s') →
      ∃ later, (later = now ∨ later = entry.due) ∧ kept later s')
    {fuel : Nat} {s s' : σ} {r : Except Abort Nat} {now : Instant} (h : kept now s)
    (hnow : ∀ instant, target = some instant → now ≤ instant)
    (hdrain : drain attend target fuel s = some (r, s')) :
    (∃ later, (∀ instant, target = some instant → later ≤ instant) ∧ kept later s') ∧
      ∀ count, r = .ok count → (agenda s').take? target = none := by
  have hwithin (now later : Instant) (s : σ) (live : Bool) (entry : Entry B) (a : Agenda B)
      (hnow : ∀ instant, target = some instant → now ≤ instant)
      (htake : (agenda s).take? target = some (live, entry, a))
      (hlater : later = now ∨ later = entry.due) (instant : Instant)
      (htarget : target = some instant) : later ≤ instant := by
    obtain ⟨_, _, hdue, _⟩ := Agenda.take?_eq_some htake
    rcases hlater with rfl | rfl
    · exact hnow instant htarget
    · rw [htarget] at hdue
      exact of_decide_eq_true hdue
  have hskipped (s : σ) (entry : Entry B) (a : Agenda B)
      (hs : ∃ now, (∀ instant, target = some instant → now ≤ instant) ∧ kept now s)
      (htake : (agenda s).take? target = some (false, entry, a)) :
      ∃ now, (∀ instant, target = some instant → now ≤ instant) ∧ kept now (withAgenda s a) := by
    obtain ⟨now, hnow, hkept⟩ := hs
    obtain ⟨later, hlater, hafter⟩ := hskip now s entry a hkept htake
    exact ⟨later, hwithin now later s false entry a hnow htake hlater, hafter⟩
  have hstarted (s : σ) (entry : Entry B) (a : Agenda B) (r : Except Abort Unit) (s' : σ)
      (hs : ∃ now, (∀ instant, target = some instant → now ≤ instant) ∧ kept now s)
      (htake : (agenda s).take? target = some (true, entry, a))
      (hperform : entry.job.perform attend (withAgenda s a) = some (r, s')) :
      ∃ now, (∀ instant, target = some instant → now ≤ instant) ∧ kept now s' := by
    obtain ⟨now, hnow, hkept⟩ := hs
    obtain ⟨later, hlater, hafter⟩ := hstart now s entry a r s' hkept htake hperform
    exact ⟨later, hwithin now later s true entry a hnow htake hlater, hafter⟩
  exact drain_kept hskipped hstarted ⟨now, hnow, h⟩ hdrain

/-- With more fuel, draining gives what it gave. -/
theorem drain_mono {target : Option Instant} {fuel more : Nat} {s : σ}
    {r : Except Abort Nat × σ} (hle : fuel ≤ more)
    (hdrain : drain attend target fuel s = some r) : drain attend target more s = some r := by
  induction fuel generalizing more s r with
  | zero => cases hdrain
  | succ fuel ih =>
    obtain ⟨more, rfl⟩ : ∃ n, more = n + 1 := ⟨more - 1, by omega⟩
    have hle : fuel ≤ more := by omega
    obtain ⟨r, s'⟩ := r
    rw [drain_succ_iff] at hdrain ⊢
    cases hdrain with
    | idle htake => exact .idle htake
    | skipped htake hrest => exact .skipped htake (ih hle hrest)
    | started htake hperform hrest => exact .started htake hperform (ih hle hrest)
    | aborted htake hperform => exact .aborted htake hperform

/-- If every entry that leaves makes the rest smaller, draining comes to an end. -/
theorem drain_ends {kept : σ → Prop} {size : σ → Nat} {target : Option Instant}
    (hskip : ∀ s entry a, kept s → (agenda s).take? target = some (false, entry, a) →
      kept (withAgenda s a) ∧ size (withAgenda s a) < size s)
    (hstart : ∀ s entry a, kept s → (agenda s).take? target = some (true, entry, a) →
      ∃ s', entry.job.perform attend (withAgenda s a) = some (.ok (), s') ∧ kept s' ∧
        size s' < size s)
    {fuel : Nat} {s : σ} (h : kept s) (hfuel : size s < fuel) :
    ∃ count s', drain attend target fuel s = some (.ok count, s') ∧ kept s' := by
  induction fuel generalizing s with
  | zero => omega
  | succ fuel ih =>
    cases htake : (agenda s).take? target with
    | none => exact ⟨0, s, drain_succ_iff.mpr (.idle htake), h⟩
    | some taken =>
      obtain ⟨live, entry, a⟩ := taken
      cases live with
      | false =>
        obtain ⟨hkept, hless⟩ := hskip s entry a h htake
        obtain ⟨count, s', hrest, hend⟩ := ih hkept (by omega)
        exact ⟨count, s', drain_succ_iff.mpr (.skipped htake hrest), hend⟩
      | true =>
        obtain ⟨s₁, hperform, hkept, hless⟩ := hstart s entry a h htake
        obtain ⟨count, s', hrest, hend⟩ := ih hkept (by omega)
        exact ⟨count + 1, s', drain_succ_iff.mpr (.started htake hperform hrest), hend⟩

/-- What attending to a body keeps, and going on with a chain, performing a job keeps. -/
theorem Job.perform_kept {called kept : σ → Prop} (job : Job B)
    (honce : ∀ body again s s', job = .once body → called s → attend body 1 s = some (again, s') →
      kept s')
    (hlink : ∀ chain period run body again s s', job = .link chain period run body → called s →
      attend body run s = some (again, s') →
      kept s' ∧ ∀ a, (agenda s').arm chain period (run + 1) body = .ok a → kept (withAgenda s' a))
    (hended : ∀ s, called s → kept s) {s s' : σ} {r : Except Abort Unit} (h : called s)
    (hperform : job.perform attend s = some (r, s')) : kept s' := by
  cases Job.performed hperform with
  | once hattend => exact honce _ _ _ _ rfl h hattend
  | cancelled => exact hended _ h
  | ended _ hattend => exact (hlink _ _ _ _ _ _ _ rfl h hattend).1
  | continued _ hattend harm => exact (hlink _ _ _ _ _ _ _ rfl h hattend).2 _ harm
  | broken _ hattend => exact (hlink _ _ _ _ _ _ _ rfl h hattend).1

/-- With more fuel, letting time pass gives what it gave. -/
theorem advance_mono {fuel more : Nat} {d : Duration} {s : σ} {r : Except Abort Nat × σ}
    (hle : fuel ≤ more) (h : advance attend fuel d s = some r) :
    advance attend more d s = some r := by
  rw [advance] at h ⊢
  cases hnow : (agenda s).clock.now with
  | error abort =>
    simp only [hnow] at h ⊢
    exact h
  | ok now =>
    cases hdrain : drain attend (now.add? d) fuel s with
    | none => simp only [hnow, hdrain, reduceCtorEq] at h
    | some drained =>
      simp only [hnow, hdrain, drain_mono hle hdrain] at h ⊢
      exact h

/-- If draining comes to an end, so does letting time pass. -/
theorem advance_of_drain {fuel : Nat} {d : Duration} {s s₁ : σ} {now : Instant} {count : Nat}
    (hnow : (agenda s).clock.now = .ok now)
    (hdrain : drain attend (now.add? d) fuel s = some (.ok count, s₁)) :
    ∃ s', advance attend fuel d s = some (.ok count, s') ∧
      (s' = s₁ ∨ ∃ clock, s' = withAgenda s₁ { agenda s₁ with clock }) := by
  rw [advance, hnow]
  simp only [hdrain]
  cases now.add? d with
  | none => exact ⟨s₁, rfl, .inl rfl⟩
  | some instant => exact ⟨_, rfl, .inr ⟨_, rfl⟩⟩

/-- Letting time pass is draining, unless the clock cannot be read; then the clock is moved on to
the end of that time, if there is such an instant and nothing has aborted. -/
theorem advance_cases {fuel : Nat} {d : Duration} {s s' : σ} {r : Except Abort Nat}
    (h : advance attend fuel d s = some (r, s')) :
    (∃ abort, (agenda s).clock.now = .error abort ∧ s' = s) ∨
      ∃ now s₁, (agenda s).clock.now = .ok now ∧
        drain attend (now.add? d) fuel s = some (r, s₁) ∧
        ((∃ abort, r = .error abort ∧ s' = s₁) ∨ (now.add? d = none ∧ s' = s₁) ∨
          ∃ instant count, r = .ok count ∧ now.add? d = some instant ∧
            s' = withAgenda s₁ { agenda s₁ with
              clock := (agenda s₁).clock.advanceTo instant }) := by
  rw [advance] at h
  cases hnow : (agenda s).clock.now with
  | error abort =>
    simp only [hnow, Option.some.injEq, Prod.mk.injEq] at h
    exact .inl ⟨abort, rfl, h.2.symm⟩
  | ok now =>
    refine .inr ?_
    cases hdrain : drain attend (now.add? d) fuel s with
    | none => simp [hnow, hdrain] at h
    | some drained =>
      obtain ⟨outcome, s₁⟩ := drained
      cases outcome with
      | error abort =>
        simp only [hnow, hdrain, Option.some.injEq, Prod.mk.injEq] at h
        obtain ⟨rfl, rfl⟩ := h
        exact ⟨now, s₁, rfl, hdrain, .inl ⟨abort, rfl, rfl⟩⟩
      | ok count =>
        simp only [hnow, hdrain] at h
        split at h
        · next htarget =>
          simp only [Option.some.injEq, Prod.mk.injEq] at h
          obtain ⟨rfl, rfl⟩ := h
          exact ⟨now, s₁, rfl, hdrain, .inr (.inl ⟨htarget, rfl⟩)⟩
        · next instant htarget =>
          simp only [Option.some.injEq, Prod.mk.injEq] at h
          obtain ⟨rfl, rfl⟩ := h
          exact ⟨now, s₁, rfl, hdrain, .inr (.inr ⟨instant, count, rfl, htarget, rfl⟩)⟩

end Caching
