import Caching.Agenda.Advance
import Caching.Proofs.Agenda.Laws

/-!
# Agendas in lockstep

Two states may stand around the same agenda and differ elsewhere. If attending to every body that
waits there goes the same way in both, then so does everything that is done while the agenda is
drained: the same entries have their turn, chains go on together, and time comes to the same end.
-/

namespace Caching

namespace Agenda

variable {B : Type} {asked : B → Prop} {a b : Agenda B}

/-- Whatever waits on the agenda is asked for. -/
def AsksOnly (asked : B → Prop) (a : Agenda B) : Prop :=
  ∀ e ∈ a.queue, asked e.job.body

namespace AsksOnly

private theorem take (h : a.AsksOnly asked) {target : Option Instant} {live : Bool} {e : Entry B}
    (htake : a.take? target = some (live, e, b)) : asked e.job.body ∧ b.AsksOnly asked := by
  have hqueue := (take?_eq_some htake).2.1
  refine ⟨h e ?_, fun other hother ↦ h other ?_⟩
  · simp [hqueue]
  · simp [hqueue, hother]

/-- Submitting a job asks for its body. -/
theorem submit (h : a.AsksOnly asked) {delay : Duration} {job : Job B} (hjob : asked job.body)
    {handle : Handle} (hsubmit : a.submit delay job = .ok (handle, b)) : b.AsksOnly asked := by
  intro e he
  rcases (submit_cases hsubmit).2 e he with hold | hnew
  · exact h e hold
  · rw [hnew]
    exact hjob

private theorem arm (h : a.AsksOnly asked) {chain : Handle} {period : Duration} {run : Nat}
    {body : B}
    (hbody : asked body) (harm : a.arm chain period run body = .ok b) : b.AsksOnly asked := by
  rcases arm_cases harm with rfl | ⟨handle, hsubmit⟩
  · exact h
  · have hjob : asked (Job.link chain period run body).body := hbody
    exact h.submit hjob hsubmit

/-- Starting a chain asks for its body. -/
theorem scheduleRepeating (h : a.AsksOnly asked) {period : Duration} {body : B}
    (hbody : asked body) {handle : Handle}
    (hstart : a.scheduleRepeating period body = .ok (handle, b)) : b.AsksOnly asked :=
  arm (a := a.freshHandle.2) h hbody (scheduleRepeating_eq_ok_iff.mp hstart).2

/-- Cancelling asks for nothing. -/
theorem cancel (h : a.AsksOnly asked) (handle : Handle) : (a.cancel handle).AsksOnly asked := by
  rw [AsksOnly, queue_cancel]
  exact h

/-- Nothing waits on an agenda that was shut down. -/
theorem shutdown (a : Agenda B) : a.shutdown.AsksOnly asked := by
  intro e he
  cases he

end AsksOnly

end Agenda

/-- The results are the same, and the states are related. -/
def Agree {α σ τ : Type} (related : σ → τ → Prop) (r : α × σ) (r' : α × τ) : Prop :=
  r.1 = r'.1 ∧ related r.2 r'.2

/-- Either neither has a result, or both have the same one and lead to related states. -/
theorem Agree.cases {α σ τ : Type} {related : σ → τ → Prop} {r : Option (α × σ)}
    {r' : Option (α × τ)} (h : Option.Rel (Agree related) r r') :
    (r = none ∧ r' = none) ∨ ∃ a s t, r = some (a, s) ∧ r' = some (a, t) ∧ related s t := by
  cases h with
  | none => exact .inl ⟨rfl, rfl⟩
  | @some x y hagree =>
    refine .inr ⟨x.1, x.2, y.2, rfl, ?_, hagree.2⟩
    rw [hagree.1]

variable {σ τ B : Type} [HasAgenda σ B] [HasAgenda τ B]

/-- Related states stand around the same agenda, on which only some bodies wait, and stay related
when it changes in both. Attending to any of these bodies goes the same way in both. -/
structure Lockstep (attend : Attend σ B) (attend' : Attend τ B) (asked : B → Prop)
    (related : σ → τ → Prop) : Prop where
  agenda : ∀ {s t}, related s t → agenda t = agenda s
  asksOnly : ∀ {s t}, related s t → (Caching.agenda s).AsksOnly asked
  withAgenda : ∀ {s t}, related s t → ∀ a : Agenda B, a.AsksOnly asked →
    related (withAgenda s a) (withAgenda t a)
  attend : ∀ {s t}, related s t → ∀ body, asked body → ∀ run,
    Option.Rel (Agree related) (attend body run s) (attend' body run t)

namespace Lockstep

variable {attend : Attend σ B} {attend' : Attend τ B} {asked : B → Prop} {related : σ → τ → Prop}
  {s : σ} {t : τ}

/-- A job is done in the same way. -/
theorem perform (h : Lockstep attend attend' asked related) (job : Job B) (hjob : asked job.body)
    (hst : related s t) :
    Option.Rel (Agree related) (job.perform attend s) (job.perform attend' t) := by
  cases job with
  | once body =>
    rw [Job.perform, Job.perform]
    rcases Agree.cases (h.attend hst body hjob 1) with ⟨hs, ht⟩ | ⟨again, s', t', hs, ht, hst'⟩
    · rw [hs, ht]
      exact .none
    · rw [hs, ht]
      exact .some ⟨rfl, hst'⟩
  | link chain period run body =>
    rw [Job.perform, Job.perform, h.agenda hst]
    by_cases hcancelled : (Caching.agenda s).isCancelled chain = true
    · rw [if_pos hcancelled, if_pos hcancelled]
      exact .some ⟨rfl, hst⟩
    · rw [if_neg hcancelled, if_neg hcancelled]
      rcases Agree.cases (h.attend hst body hjob run) with
        ⟨hs, ht⟩ | ⟨again, s', t', hs, ht, hst'⟩
      · rw [hs, ht]
        exact .none
      · rw [hs, ht]
        cases again with
        | false => exact .some ⟨rfl, hst'⟩
        | true =>
          dsimp only
          rw [h.agenda hst']
          cases harm : (Caching.agenda s').arm chain period (run + 1) body with
          | error abort => exact .some ⟨rfl, hst'⟩
          | ok a => exact .some ⟨rfl, h.withAgenda hst' a ((h.asksOnly hst').arm hjob harm)⟩

/-- The same entries have their turn. -/
theorem drain (h : Lockstep attend attend' asked related) (target : Option Instant) (fuel : Nat)
    (hst : related s t) :
    Option.Rel (Agree related) (drain attend target fuel s) (drain attend' target fuel t) := by
  induction fuel generalizing s t with
  | zero => exact .none
  | succ fuel ih =>
    rw [Caching.drain, Caching.drain, h.agenda hst]
    cases htake : (Caching.agenda s).take? target with
    | none => exact .some ⟨rfl, hst⟩
    | some taken =>
      obtain ⟨live, entry, a⟩ := taken
      obtain ⟨hbody, hrest⟩ := (h.asksOnly hst).take htake
      have htaken := h.withAgenda hst a hrest
      cases live with
      | false => exact ih htaken
      | true =>
        simp only [if_true]
        rcases Agree.cases (h.perform entry.job hbody htaken) with
          ⟨hs, ht⟩ | ⟨r, s', t', hs, ht, hst'⟩
        · rw [hs, ht]
          exact .none
        · rw [hs, ht]
          cases r with
          | error abort => exact .some ⟨rfl, hst'⟩
          | ok =>
            dsimp only
            rcases Agree.cases (ih hst') with ⟨hs, ht⟩ | ⟨count, s'', t'', hs, ht, hst''⟩
            · rw [hs, ht]
              exact .none
            · rw [hs, ht]
              exact .some ⟨rfl, hst''⟩

/-- Time comes to the same end. -/
theorem advance (h : Lockstep attend attend' asked related) (fuel : Nat) (d : Duration)
    (hst : related s t) :
    Option.Rel (Agree related) (advance attend fuel d s) (advance attend' fuel d t) := by
  rw [Caching.advance, Caching.advance, h.agenda hst]
  cases (Caching.agenda s).clock.now with
  | error abort => exact .some ⟨rfl, hst⟩
  | ok now =>
    dsimp only
    rcases Agree.cases (h.drain (now.add? d) fuel hst) with ⟨hs, ht⟩ | ⟨r, s', t', hs, ht, hst'⟩
    · rw [hs, ht]
      exact .none
    · rw [hs, ht]
      cases r with
      | error abort => exact .some ⟨rfl, hst'⟩
      | ok count =>
        cases now.add? d with
        | none => exact .some ⟨rfl, hst'⟩
        | some instant =>
          dsimp only
          rw [h.agenda hst']
          exact .some ⟨rfl, h.withAgenda hst' _ (h.asksOnly hst')⟩

end Lockstep

end Caching
