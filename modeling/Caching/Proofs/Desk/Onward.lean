import Caching.Proofs.Desk.Laws

/-!
# What is never taken back

Whatever is done to an agenda, its clock is not turned back, no handle is given out twice, and what
has been cancelled or shut down stays so. The same holds of everything that an errand does while it
is run, and so of a whole pass over the entries that are due.
-/

namespace Caching

namespace Agenda

variable {B : Type} {a b c : Agenda B}

/-- Moving the clock by hand changes nothing else. -/
theorem moveClock_eq_ok {d : Duration} (h : a.moveClock d = .ok b) :
    ∃ clock, b = { a with clock } := by
  rw [moveClock] at h
  cases hclock : a.clock.advance d with
  | error abort => simp [hclock, Except.map] at h
  | ok clock =>
    simp only [hclock, Except.map, Except.ok.injEq] at h
    exact ⟨clock, h.symm⟩

/-- The second agenda may come from the first by anything that can be done to it. -/
structure Onward (a b : Agenda B) : Prop where
  start : b.clock.start = a.clock.start
  shown : a.clock.shown ≤ b.clock.shown
  nextHandle : a.nextHandle ≤ b.nextHandle
  cancelled : ∀ handle, a.isCancelled handle = true → b.isCancelled handle = true
  stopped : a.stopped = true → b.stopped = true

namespace Onward

/-- Doing nothing takes nothing back. -/
theorem refl (a : Agenda B) : a.Onward a :=
  ⟨rfl, Int.le_refl _, Nat.le_refl _, fun _ h ↦ h, id⟩

/-- Neither does one thing after the other. -/
theorem trans (h : a.Onward b) (h' : b.Onward c) : a.Onward c :=
  ⟨h'.start.trans h.start, Int.le_trans h.shown h'.shown,
    Nat.le_trans h.nextHandle h'.nextHandle,
    fun handle hc ↦ h'.cancelled handle (h.cancelled handle hc), fun hs ↦ h'.stopped (h.stopped hs)⟩

private theorem setEntries (a : Agenda B) (queue : List (Entry B)) (nextSeq : Nat)
    (journal : List Departure) : a.Onward { a with queue, nextSeq, journal } :=
  ⟨rfl, Int.le_refl _, Nat.le_refl _, fun _ h ↦ h, id⟩

/-- A fresh handle is given out. -/
theorem freshHandle (a : Agenda B) : a.Onward a.freshHandle.2 :=
  ⟨rfl, Int.le_refl _, Nat.le_succ _, fun _ h ↦ h, id⟩

/-- A handle is cancelled. -/
theorem cancel (a : Agenda B) (handle : Handle) : a.Onward (a.cancel handle) := by
  obtain ⟨cancelled, heq, hmem⟩ := a.cancel_eq handle
  rw [heq]
  refine ⟨rfl, Int.le_refl _, Nat.le_refl _, fun other hother ↦ ?_, id⟩
  rw [isCancelled, List.contains_iff_mem] at hother ⊢
  exact (hmem other).mpr (.inr hother)

private theorem shutdown (a : Agenda B) : a.Onward a.shutdown :=
  ⟨rfl, Int.le_refl _, Nat.le_refl _, fun _ h ↦ h, fun _ ↦ rfl⟩

/-- The clock is moved on. -/
theorem readied (a : Agenda B) (instant : Instant) : a.Onward (a.readied instant) := by
  refine ⟨rfl, ?_, Nat.le_refl _, fun _ h ↦ h, id⟩
  rw [Agenda.readied, Clock.shown_advanceTo]
  omega

/-- The clock is moved by hand. -/
theorem moveClock {d : Duration} (h : a.moveClock d = .ok b) : a.Onward b := by
  rw [Agenda.moveClock, Clock.advance] at h
  cases hsum : a.clock.elapsed.add? d with
  | none => simp [hsum, Except.map] at h
  | some elapsed =>
    have helapsed := Duration.add?_eq_some_iff.mp hsum
    simp only [hsum, Except.map, Except.ok.injEq] at h
    rw [← h]
    refine ⟨rfl, ?_, Nat.le_refl _, fun _ h ↦ h, id⟩
    simp only [Clock.shown]
    omega

/-- A job is submitted. -/
theorem submit {delay : Duration} {job : Job B} {handle : Handle}
    (h : a.submit delay job = .ok (handle, b)) : a.Onward b := by
  obtain ⟨_, rfl | ⟨due, rfl⟩⟩ := submit_eq_ok h
  · exact (freshHandle a).trans (cancel _ handle)
  · obtain ⟨queue, nextSeq, hbooked⟩ := a.booked_eq due job
    rw [hbooked]
    exact (freshHandle a).trans (setEntries _ queue nextSeq a.journal)

/-- A chain goes on. -/
theorem arm {chain : Handle} {period : Duration} {run : Nat} {body : B}
    (h : a.arm chain period run body = .ok b) : a.Onward b := by
  rcases arm_cases h with rfl | ⟨handle, hsubmit⟩
  · exact refl b
  · exact submit hsubmit

private theorem scheduleRepeating {period : Duration} {body : B} {chain : Handle}
    (h : a.scheduleRepeating period body = .ok (chain, b)) : a.Onward b :=
  (freshHandle a).trans (arm (scheduleRepeating_eq_ok_iff.mp h).2)

/-- An entry has its turn. -/
theorem take {target : Option Instant} {live : Bool} {e : Entry B}
    (h : a.take? target = some (live, e, b)) : a.Onward b := by
  obtain ⟨_, _, _, rest, _, rfl⟩ := take?_eq_some_iff.mp h
  exact (readied a e.due).trans (setEntries (a.readied e.due) rest a.nextSeq _)

end Onward

end Agenda

section

variable {σ B : Type} [HasAgenda σ B] [LawfulAgenda σ] {attend : Attend σ B}

/-- Doing a job takes nothing back if attending to its body does not. -/
theorem perform_onward
    (hattend : ∀ body run s again s', attend body run s = some (again, s') →
      (agenda s).Onward (agenda s'))
    {job : Job B} {s s' : σ} {r : Except Abort Unit} (h : job.perform attend s = some (r, s')) :
    (agenda s).Onward (agenda s') := by
  have hattended (body : B) (run : Nat) (again : Bool) (s₁ s₂ : σ)
      (h₁ : (agenda s).Onward (agenda s₁)) (hbody : attend body run s₁ = some (again, s₂)) :
      (agenda s).Onward (agenda s₂) :=
    h₁.trans (hattend body run s₁ again s₂ hbody)
  refine job.perform_kept (fun body again s₁ s₂ _ ↦ hattended body 1 again s₁ s₂) ?_ (fun _ h ↦ h)
    (.refl _) h
  intro chain period run body again s₁ s₂ _ h₁ hbody
  have h₂ := hattended body run again s₁ s₂ h₁ hbody
  refine ⟨h₂, fun a harm ↦ ?_⟩
  rw [LawfulAgenda.agenda_withAgenda]
  exact h₂.trans (.arm harm)

/-- Draining takes nothing back if nothing that it starts does. -/
theorem drain_onward
    (hattend : ∀ body run s again s', attend body run s = some (again, s') →
      (agenda s).Onward (agenda s'))
    {target : Option Instant} {fuel : Nat} {s s' : σ} {r : Except Abort Nat}
    (h : drain attend target fuel s = some (r, s')) : (agenda s).Onward (agenda s') := by
  have htaken (s₁ : σ) (live : Bool) (e : Entry B) (a : Agenda B)
      (h₁ : (agenda s).Onward (agenda s₁)) (htake : (agenda s₁).take? target = some (live, e, a)) :
      (agenda s).Onward (agenda (withAgenda s₁ a)) := by
    rw [LawfulAgenda.agenda_withAgenda]
    exact h₁.trans (.take htake)
  refine (drain_kept (fun s₁ ↦ htaken s₁ false) ?_ (.refl _) h).1
  intro s₁ e a r s₂ h₁ htake hperform
  exact (htaken s₁ true e a h₁ htake).trans (perform_onward hattend hperform)

/-- Letting time pass takes nothing back if nothing that is started does. -/
theorem advance_onward
    (hattend : ∀ body run s again s', attend body run s = some (again, s') →
      (agenda s).Onward (agenda s'))
    {fuel : Nat} {d : Duration} {s s' : σ} {r : Except Abort Nat}
    (h : advance attend fuel d s = some (r, s')) : (agenda s).Onward (agenda s') := by
  rcases advance_cases h with ⟨_, _, rfl⟩ | ⟨now, s₁, _, hdrain, hend⟩
  · exact .refl _
  · have hdrained := drain_onward hattend hdrain
    rcases hend with ⟨_, _, rfl⟩ | ⟨_, rfl⟩ | ⟨instant, _, _, _, rfl⟩
    · exact hdrained
    · exact hdrained
    · rw [LawfulAgenda.agenda_withAgenda]
      exact hdrained.trans (.readied _ instant)

end

namespace Desk

variable {L : Type} [DecidableEq L] {d d' : Desk L} {fuel : Nat}

/-- No action takes anything back if no errand does. -/
theorem act_onward {attend : Attend (Desk L) (Commission L)}
    (hattend : ∀ c run d again d', attend c run d = some (again, d') →
      d.agenda.Onward d'.agenda)
    {action : Action L} {response : Response}
    (h : act attend fuel action d = some (response, d')) : d.agenda.Onward d'.agenda := by
  have hregister {label : L} {r : Except Abort (Handle × Agenda (Commission L))}
      (hok : ∀ handle a, r = .ok (handle, a) → d.agenda.Onward a) :
      d.agenda.Onward (d.register label r).2.agenda := by
    cases r with
    | ok submitted => exact hok submitted.1 submitted.2 rfl
    | error abort => exact .refl _
  cases action with
  | schedule label delay body =>
    simp only [act, Option.some.injEq] at h
    obtain rfl := congrArg Prod.snd h
    exact hregister fun _ _ hsubmit ↦ .submit hsubmit
  | scheduleRepeating label period body =>
    simp only [act, Option.some.injEq] at h
    obtain rfl := congrArg Prod.snd h
    exact hregister fun _ _ hstart ↦ .scheduleRepeating hstart
  | cancel label =>
    simp only [act] at h
    split at h
    · cases h
      exact .cancel _ _
    · cases h
      exact .refl _
  | isCancelled label =>
    simp only [act] at h
    split at h <;> cases h <;> exact .refl _
  | advance duration =>
    rcases act_advance_eq_some_iff.mp h with ⟨_, _, hadvance⟩ | ⟨_, _, hadvance⟩
    · exact advance_onward hattend hadvance
    · exact advance_onward hattend hadvance
  | runPending =>
    rw [act_runPending, act_advance_eq_some_iff] at h
    rcases h with ⟨_, _, hadvance⟩ | ⟨_, _, hadvance⟩
    · exact advance_onward hattend hadvance
    · exact advance_onward hattend hadvance
  | moveClock duration =>
    simp only [act] at h
    cases hmove : d.agenda.moveClock duration with
    | ok a =>
      simp only [hmove, Option.some.injEq, Prod.mk.injEq] at h
      rw [← h.2]
      exact .moveClock hmove
    | error abort =>
      simp only [hmove, Option.some.injEq, Prod.mk.injEq] at h
      rw [← h.2]
      exact .refl _
  | shutdown =>
    cases h
    exact .shutdown _
  | elapsed | pending | isShutdown | describe =>
    cases h
    exact .refl _

/-- No errand takes anything back. -/
theorem follow_onward {label : L} {errand : Errand L} {again : Bool}
    (h : follow fuel label errand d = some (again, d')) : d.agenda.Onward d'.agenda := by
  induction fuel generalizing label errand d again d' with
  | zero =>
    cases errand with
    | done again =>
      cases h
      exact .refl _
    | act action next => cases h
  | succ fuel ih =>
    cases errand with
    | done again =>
      cases h
      exact .refl _
    | act action next =>
      obtain ⟨response, d₁, hact, hrest⟩ := follow_act_eq_some_iff.mp h
      have hattend (c : Commission L) (run : Nat) (d : Desk L) (again : Bool) (d' : Desk L)
          (hattend : Desk.attend fuel c run d = some (again, d')) : d.agenda.Onward d'.agenda :=
        ih (d := d.note (.fired c.label d.agenda.clock.elapsed)) hattend
      exact (act_onward hattend hact).trans (ih (d := d₁.note (.answered label response)) hrest)

/-- Neither does attending to a commission. -/
theorem attend_onward {c : Commission L} {run : Nat} {again : Bool}
    (h : attend fuel c run d = some (again, d')) : d.agenda.Onward d'.agenda :=
  follow_onward (d := d.note (.fired c.label d.agenda.clock.elapsed)) h

end Desk

end Caching
